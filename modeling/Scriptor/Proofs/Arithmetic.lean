import Scriptor.Typed.Simplify.Expression

namespace Scriptor

def BinaryOp.relation? : BinaryOp → Option (Int → Int → Prop)
  | .equals => some fun m n => m = n
  | .notEquals => some fun m n => m ≠ n
  | .less => some fun m n => m < n
  | .lessEquals => some fun m n => m ≤ n
  | .greater => some fun m n => m > n
  | .greaterEquals => some fun m n => m ≥ n
  | _ => none

namespace Typed

namespace Expr

/-- Closed arithmetic with its exact value. A remainder is that of the magnitudes, with the sign of
the dividend; there is none of a division by zero. Exponents are not negative and have a bound. -/
inductive AmountsTo : Expr → Int → Prop where
  | literal (n : Int) : AmountsTo (.int n) n
  | negate {operand : Expr} {ty : Ty} {n : Int} :
      AmountsTo operand n → AmountsTo (.unary .negate operand ty) (-n)
  | add {left right : Expr} {ty : Ty} {m n : Int} : AmountsTo left m → AmountsTo right n →
      AmountsTo (.binary left .add right ty) (m + n)
  | subtract {left right : Expr} {ty : Ty} {m n : Int} : AmountsTo left m → AmountsTo right n →
      AmountsTo (.binary left .subtract right ty) (m - n)
  | multiply {left right : Expr} {ty : Ty} {m n : Int} : AmountsTo left m → AmountsTo right n →
      AmountsTo (.binary left .multiply right ty) (m * n)
  | modulo {left right : Expr} {ty : Ty} {m n : Int} :
      AmountsTo left m → AmountsTo right n → n ≠ 0 →
      AmountsTo (.binary left .modulo right ty) (m.sign * (m.natAbs % n.natAbs : Nat))
  | power {left right : Expr} {ty : Ty} {m : Int} {n : Nat} :
      AmountsTo left m → AmountsTo right n → n ≤ 65535 →
      AmountsTo (.binary left .power right ty) (Int.pow m n)

end Expr

namespace Literal

variable {m n : Int}

theorem tmod_eq_sign_mul (m n : Int) : m.tmod n = m.sign * (m.natAbs % n.natAbs : Nat) := by
  rw [← Int.natAbs_tmod]
  by_cases hd : n ∣ m
  · rw [Int.tmod_eq_zero_of_dvd hd, Int.natAbs_zero, Int.natCast_zero, Int.mul_zero]
  · have hsign : (m.tmod n).sign = m.sign := by rw [Int.sign_tmod, if_neg hd]
    rw [← hsign, Int.sign_mul_natAbs]

theorem foldInt?_modulo (h : n ≠ 0) :
    foldInt? .modulo m n = some (.int (m.sign * (m.natAbs % n.natAbs : Nat))) := by
  rw [foldInt?, if_neg h, tmod_eq_sign_mul]

theorem foldInt?_power {n : Nat} (h : n ≤ 65535) :
    foldInt? .power m n = some (.int (Int.pow m n)) := by
  have hrange : 0 ≤ (n : Int) ∧ (n : Int) ≤ maxExponent :=
    ⟨Int.natCast_nonneg n, Int.ofNat_le.2 h⟩
  rw [foldInt?, if_pos hrange, Int.toNat_natCast]

theorem foldInt?_relation {op : BinaryOp} {R : Int → Int → Prop} (h : op.relation? = some R) :
    ∃ b, foldInt? op m n = some (.bool b) ∧ (b = true ↔ R m n) := by
  cases op with
  | equals | notEquals | less | lessEquals | greater | greaterEquals =>
    cases h
    exact ⟨_, rfl, decide_eq_true_iff⟩
  | _ => cases h

end Literal

namespace Expr

variable {left right e : Expr} {op : BinaryOp} {ty : Ty} {m n : Int}

/-- An operator on operands that collapse to integers collapses as well, if it has a value. No
identity is tried before that. -/
theorem simplify_binary_of_foldInt? {value : Literal} (hl : left.simplify = .int m)
    (hr : right.simplify = .int n) (h : Literal.foldInt? op m n = some value) :
    (binary left op right ty).simplify = .literal value := by
  have hfold : fold? op (.int m) (.int n) = some value := h
  rw [simplify, hl, hr, simplifyBinary, hfold]

theorem AmountsTo.simplify (h : e.AmountsTo n) : e.simplify = .int n := by
  induction h with
  | literal n => rfl
  | negate _ ih =>
    rw [Expr.simplify, ih]
    rfl
  | add _ _ ihl ihr => exact simplify_binary_of_foldInt? ihl ihr rfl
  | subtract _ _ ihl ihr => exact simplify_binary_of_foldInt? ihl ihr rfl
  | multiply _ _ ihl ihr => exact simplify_binary_of_foldInt? ihl ihr rfl
  | modulo _ _ hn ihl ihr => exact simplify_binary_of_foldInt? ihl ihr (Literal.foldInt?_modulo hn)
  | power _ _ hn ihl ihr => exact simplify_binary_of_foldInt? ihl ihr (Literal.foldInt?_power hn)

/-- Closed arithmetic collapses to the literal of its exact value, and a comparison of two such
expressions to the truth value of the exact comparison. -/
theorem simplify_closed_arithmetic :
    (∀ (e : Expr) (n : Int), e.AmountsTo n → e.simplify = .int n) ∧
    ∀ (left right : Expr) (op : BinaryOp) (ty : Ty) (m n : Int) (R : Int → Int → Prop),
      left.AmountsTo m → right.AmountsTo n → op.relation? = some R →
      ∃ b, (binary left op right ty).simplify = .bool b ∧ (b = true ↔ R m n) := by
  refine ⟨fun e n h => h.simplify, ?_⟩
  intro left right op ty m n R hl hr hop
  obtain ⟨b, hb, hR⟩ := Literal.foldInt?_relation (m := m) (n := n) hop
  exact ⟨b, simplify_binary_of_foldInt? hl.simplify hr.simplify hb, hR⟩

def closed : Expr :=
  .binary
    (.binary (.unary .negate (.int 17) .any) .modulo
      (.unary .negate (.binary (.int 2) .power (.int 3) .any) .any) .any)
    .multiply (.int 5) .any

theorem closed_amountsTo : closed.AmountsTo (-5) := by
  have hpower : AmountsTo (.binary (.int 2) .power (.int 3) .any) 8 :=
    .power (n := 3) (.literal 2) (.literal 3) (by decide)
  exact .multiply (.modulo (.negate (.literal 17)) (.negate hpower) (by decide)) (.literal 5)

theorem simplify_closed_arithmetic_signs :
    closed.AmountsTo (-5) ∧ closed.simplify = .int (-5) ∧
      BinaryOp.less.relation? = some (fun m n => m < n) ∧
      ∃ b, (binary closed .less (.int (-4)) .any).simplify = .bool b ∧
        (b = true ↔ (-5 : Int) < -4) := by
  obtain ⟨hvalue, hcompare⟩ := simplify_closed_arithmetic
  refine ⟨closed_amountsTo, hvalue _ _ closed_amountsTo, rfl, ?_⟩
  exact hcompare _ _ .less _ _ _ _ closed_amountsTo (.literal (-4)) rfl

end Expr
end Typed
end Scriptor
