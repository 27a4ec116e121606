import Scriptor.Proofs.ExactIntegers
import Scriptor.Proofs.Precision
import Scriptor.Proofs.WellFormed

namespace Scriptor.Typed

inductive Value where
  | int (n : Int)
  | bool (b : Bool)
  | string (s : String)
  | array (elements : List Value)
  | dict (entries : List (Value × Value))

namespace Value

mutual

def same : Value → Value → Bool
  | .int a, .int b => a = b
  | .bool a, .bool b => a = b
  | .string a, .string b => a = b
  | .array as, .array bs => sameAll as bs
  | .dict ps, .dict qs => sameEntries ps qs
  | _, _ => false

def sameAll : List Value → List Value → Bool
  | [], [] => true
  | a :: as, b :: bs => a.same b && sameAll as bs
  | _, _ => false

def sameEntries : List (Value × Value) → List (Value × Value) → Bool
  | [], [] => true
  | (k, v) :: ps, (l, w) :: qs => k.same l && (v.same w && sameEntries ps qs)
  | _, _ => false

end

end Value

abbrev Store := EntityId → Option Value

def Literal.value? : Literal → Option Value
  | .int n => some (.int n)
  | .float _ => none
  | .string s => some (.string s)
  | .bool b => some (.bool b)

end Scriptor.Typed

namespace Scriptor

open Typed

/-- The value of an operator on two values. Arithmetic and orderings take values of one kind, there
is no remainder of a division by zero and no power with a negative exponent. -/
def BinaryOp.value? : BinaryOp → Value → Value → Option Value
  | .add, .int a, .int b => some (.int (a + b))
  | .add, .string a, .string b => some (.string (a ++ b))
  | .subtract, .int a, .int b => some (.int (a - b))
  | .multiply, .int a, .int b => some (.int (a * b))
  | .modulo, .int a, .int b => if b = 0 then none else some (.int (a.tmod b))
  | .power, .int a, .int b => if b < 0 then none else some (.int (Int.pow a b.toNat))
  | .less, .int a, .int b => some (.bool (a < b))
  | .less, .string a, .string b => some (.bool (a < b))
  | .lessEquals, .int a, .int b => some (.bool (a ≤ b))
  | .lessEquals, .string a, .string b => some (.bool (a ≤ b))
  | .greater, .int a, .int b => some (.bool (b < a))
  | .greater, .string a, .string b => some (.bool (b < a))
  | .greaterEquals, .int a, .int b => some (.bool (b ≤ a))
  | .greaterEquals, .string a, .string b => some (.bool (b ≤ a))
  | .equals, a, b => some (.bool (a.same b))
  | .notEquals, a, b => some (.bool (!a.same b))
  | .and, .bool a, .bool b => some (.bool (a && b))
  | .or, .bool a, .bool b => some (.bool (a || b))
  | _, _, _ => none

def BinaryOp.decided? : BinaryOp → Value → Option Value
  | .and, .bool false => some (.bool false)
  | .or, .bool true => some (.bool true)
  | _, _ => none

/-- The value of an operator on what its operands yield. The right operand counts only if the left
one does not decide. -/
def BinaryOp.combine? (op : BinaryOp) (left right : Option Value) : Option Value :=
  left.bind fun a => (op.decided? a).or (right.bind (op.value? a))

def UnaryOp.value? : UnaryOp → Value → Option Value
  | .negate, .int n => some (.int (-n))
  | .not, .bool b => some (.bool (!b))
  | _, _ => none

def Typed.Value.choose? (consequent alternate : Option Value) : Value → Option Value
  | .bool true => consequent
  | .bool false => alternate
  | _ => none

def Typed.Value.element? : Value → Value → Option Value
  | .array elements, .int i => if i < 0 then none else elements[i.toNat]?
  | _, _ => none

namespace Typed.Expr

mutual

def eval (σ : Store) : Expr → Option Value
  | .literal value => value.value?
  | .var id _ => σ id
  | .binary left op right _ => op.combine? (left.eval σ) (right.eval σ)
  | .unary op operand _ => (operand.eval σ).bind op.value?
  | .conditional test consequent alternate _ =>
    (test.eval σ).bind (Value.choose? (consequent.eval σ) (alternate.eval σ))
  | .call _ _ _ => none
  | .subscript indexed index _ => (indexed.eval σ).bind fun a => (index.eval σ).bind a.element?
  | .array elements _ => (evalAll σ elements).map .array
  | .dict entries _ => (evalEntries σ entries).map .dict

def evalAll (σ : Store) : List Expr → Option (List Value)
  | [] => some []
  | e :: es => (e.eval σ).bind fun v => (evalAll σ es).map (v :: ·)

def evalEntries (σ : Store) : List (Expr × Expr) → Option (List (Value × Value))
  | [] => some []
  | (key, value) :: ps =>
    (key.eval σ).bind fun k => (value.eval σ).bind fun v => (evalEntries σ ps).map ((k, v) :: ·)

end

end Typed.Expr

namespace BinaryOp

variable {op : BinaryOp} {a b a' b' : Option Value} {v : Value}

theorem combine?_eq_some_iff : op.combine? a b = some v ↔
    ∃ x, a = some x ∧
    (op.decided? x = some v ∨ op.decided? x = none ∧ ∃ y, b = some y ∧
      op.value? x y = some v) := by
  simp only [combine?, Option.bind_eq_some_iff, Option.or_eq_some_iff]

/-- More values for the operands never take a value away. -/
theorem combine?_mono (h : op.combine? a b = some v) (ha : ∀ x, a = some x → a' = some x)
    (hb : ∀ y, b = some y → b' = some y) : op.combine? a' b' = some v := by
  obtain ⟨x, hx, hv⟩ := combine?_eq_some_iff.1 h
  apply combine?_eq_some_iff.2
  refine ⟨x, ha x hx, ?_⟩
  rcases hv with hd | ⟨hd, y, hy, hv⟩
  · exact .inl hd
  · exact .inr ⟨hd, y, hb y hy, hv⟩

/-- Arithmetic takes an integer on both sides or on none. -/
theorem int_iff_of_value? {x y : Value} (hop : op.result .int = .int) (h : op.value? x y = some v) :
    (∃ m, x = .int m) ↔ ∃ n, y = .int n := by
  revert hop h
  fun_cases value? op x y
  all_goals simp [result]

theorem decided?_eq_none {x : Value} (hop : op.isLogical = false) : op.decided? x = none := by
  revert hop
  fun_cases decided? op x
  all_goals simp [isLogical]

theorem combine?_eq_some (hop : op.isLogical = false) (h : op.combine? a b = some v) :
    ∃ x y, a = some x ∧ b = some y ∧ op.value? x y = some v := by
  obtain ⟨x, hx, hd | ⟨-, y, hy, hv⟩⟩ := combine?_eq_some_iff.1 h
  · rw [decided?_eq_none hop] at hd
    cases hd
  · exact ⟨x, y, hx, hy, hv⟩

/-- One value of the left operand decides a logical operator, the other one leaves it to the right
operand. -/
theorem combine?_logical {d : Bool} (hop : op.decider? = some d) (h : op.combine? a b = some v) :
    a = some (.bool d) ∧ v = .bool d ∨ a = some (.bool !d) ∧ b = some v := by
  obtain ⟨x, rfl, hv⟩ := combine?_eq_some_iff.1 h
  cases op with
  | and | or =>
    cases hop
    rcases hv with hd | ⟨hd, y, rfl, hv⟩
    · cases x with
      | bool c =>
        cases c <;> cases hd
        exact .inl ⟨rfl, rfl⟩
      | _ => cases hd
    · cases x with
      | bool c =>
        cases c <;> cases hd
        cases y with
        | bool e => exact .inr ⟨rfl, hv⟩
        | _ => cases hv
      | _ => cases hv
  | _ => cases hop

theorem value?_int (op : BinaryOp) (m n : Int) :
    op.value? (.int m) (.int n) = (op.exactly? m n).bind Literal.value? := by
  cases op with
  | modulo | power =>
    rw [value?, exactly?]
    split <;> rfl
  | _ => rfl

end BinaryOp

namespace Typed

namespace Literal

variable {op : BinaryOp} {v : Value}

theorem foldInt?_value {a b : Int} {z : Literal} (hf : foldInt? op a b = some z)
    (hv : op.value? (.int a) (.int b) = some v) : z.value? = some v := by
  rw [BinaryOp.value?_int] at hv
  obtain ⟨w, hw, hv⟩ := Option.bind_eq_some_iff.1 hv
  rw [BinaryOp.eq_of_foldInt? hf hw]
  exact hv

theorem fold?_value {x y z : Literal} (hf : Literal.fold? op x y = some z)
    (hv : op.combine? x.value? y.value? = some v) : z.value? = some v := by
  obtain ⟨a, ha, hv⟩ := BinaryOp.combine?_eq_some_iff.1 hv
  cases x with
  | int m =>
    cases ha
    cases y with
    | int n =>
      rcases hv with hd | ⟨-, b, hb, hv⟩
      · cases op <;> cases hd
      · cases hb
        exact foldInt?_value hf hv
    | _ => cases hf
  | float x => cases ha
  | _ => cases hf

end Literal

namespace Expr

variable {σ τ : Store} {left right e : Expr} {op : BinaryOp} {ty : Ty} {v : Value}

theorem eval_of_isBool {b : Bool} (h : e.isBool b = true) : e.eval σ = some (.bool b) := by
  rw [eq_of_isBool h]
  rfl

section Arithmetic

variable {k : Int} (hop : op.result .int = .int)
include hop

theorem combine?_left_int (hv : op.combine? (some (.int k)) (right.eval σ) = some v) :
    ∃ n w, right.eval σ = some (.int n) ∧ op.exactly? k n = some w ∧ w.value? = some v := by
  obtain ⟨_, y, ⟨⟩, hy, hv⟩ :=
    BinaryOp.combine?_eq_some (BinaryOp.isLogical_of_result hop) hv
  obtain ⟨n, rfl⟩ := (BinaryOp.int_iff_of_value? hop hv).1 ⟨k, rfl⟩
  rw [BinaryOp.value?_int] at hv
  obtain ⟨w, hw, hv⟩ := Option.bind_eq_some_iff.1 hv
  exact ⟨n, w, hy, hw, hv⟩

theorem combine?_right_int (hv : op.combine? (left.eval σ) (some (.int k)) = some v) :
    ∃ m w, left.eval σ = some (.int m) ∧ op.exactly? m k = some w ∧ w.value? = some v := by
  obtain ⟨x, _, hx, ⟨⟩, hv⟩ :=
    BinaryOp.combine?_eq_some (BinaryOp.isLogical_of_result hop) hv
  obtain ⟨m, rfl⟩ := (BinaryOp.int_iff_of_value? hop hv).2 ⟨k, rfl⟩
  rw [BinaryOp.value?_int] at hv
  obtain ⟨w, hw, hv⟩ := Option.bind_eq_some_iff.1 hv
  exact ⟨m, w, hx, hw, hv⟩

end Arithmetic

theorem Follows.eval {f : Int → Int} {n : Int} (h : Follows left ty f e)
    (hn : left.eval σ = some (.int n)) : e.eval σ = some (.int (f n)) := by
  cases h with
  | same => exact hn
  | constant => rfl
  | negated =>
    rw [Expr.eval, hn]
    rfl

theorem Neutral.eval (h : Neutral ty left op right e)
    (hv : op.combine? (left.eval σ) (right.eval σ) = some v) : e.eval σ = some v := by
  cases h with
  | @undecidedLeft _ _ d hop =>
    rcases BinaryOp.combine?_logical hop hv with ⟨hd, -⟩ | ⟨-, hr⟩
    · cases d <;> cases hd
    · exact hr
  | undecidedRight hop =>
    rcases BinaryOp.combine?_logical hop hv with ⟨hl, rfl⟩ | ⟨hl, hr⟩
    · exact hl
    · exact hl.trans hr
  | integerLeft hop hexact hf =>
    obtain ⟨n, w, hn, hw, hv⟩ := combine?_left_int hop hv
    rw [hf.eval hn, ← hv, hexact n w hw]
    rfl
  | integerRight hop hexact hf =>
    obtain ⟨m, w, hm, hw, hv⟩ := combine?_right_int hop hv
    rw [hf.eval hm, ← hv, hexact m w hw]
    rfl

theorem Identity.eval (h : Identity left right ty op e)
    (hv : op.combine? (left.eval σ) (right.eval σ) = some v) : e.eval σ = some v := by
  refine (h.neutral ?_ ?_ ?_).eval hv
  · rintro rfl
    obtain ⟨x, y, -, -, hv⟩ := BinaryOp.combine?_eq_some rfl hv
    cases x <;> cases hv
  · rintro - x rfl
    cases hv
  · rintro hop x rfl
    obtain ⟨_, _, -, ⟨⟩, -⟩ := BinaryOp.combine?_eq_some hop hv

theorem Reduces.eval (h : Reduces left op right ty e)
    (hv : op.combine? (left.eval σ) (right.eval σ) = some v) : e.eval σ = some v := by
  cases h with
  | folds hf =>
    obtain ⟨x, y, rfl, rfl, hf⟩ := fold?_eq_some hf
    exact Literal.fold?_value hf hv
  | cancels _ hi => exact hi.eval hv
  | stays => exact hv

theorem eval_simplifyUnary {op : UnaryOp} (h : (unary op e ty).eval σ = some v) :
    (simplifyUnary op e ty).eval σ = some v := by
  fun_cases simplifyUnary op e ty with
  | case1 n => exact h
  | case2 x => cases h
  | case3 b => exact h
  | case4 => exact h

theorem eval_simplifyConditional {test : Expr}
    (h : (conditional test left right ty).eval σ = some v) :
    (simplifyConditional test left right ty).eval σ = some v := by
  fun_cases simplifyConditional test left right ty with
  | case1 => exact h
  | case2 => exact h
  | case3 => exact h

theorem evalAll_eq_some_iff {es : List Expr} {vs : List Value} :
    evalAll σ es = some vs ↔ List.Forall₂ (fun e v => e.eval σ = some v) es vs := by
  induction es generalizing vs with
  | nil => simp only [evalAll, List.forall₂_nil_left_iff, Option.some.injEq, eq_comm]
  | cons e es ih =>
    simp only [evalAll, Option.bind_eq_some_iff, Option.map_eq_some_iff, ih,
      List.forall₂_cons_left_iff, exists_and_left, eq_comm (b := vs)]

theorem evalEntries_eq_some_iff {ps : List (Expr × Expr)} {vs : List (Value × Value)} :
    evalEntries σ ps = some vs ↔
      List.Forall₂ (fun p v => p.1.eval σ = some v.1 ∧ p.2.eval σ = some v.2) ps vs := by
  induction ps generalizing vs with
  | nil => simp only [evalEntries, List.forall₂_nil_left_iff, Option.some.injEq, eq_comm]
  | cons p ps ih =>
    simp only [evalEntries, Option.bind_eq_some_iff, Option.map_eq_some_iff, ih,
      List.forall₂_cons_left_iff, Prod.exists, and_assoc, exists_and_left, eq_comm (b := vs)]

/-- Simplification keeps the value of an expression that has one. -/
theorem eval_simplify (h : e.eval σ = some v) : e.simplify.eval σ = some v := by
  induction e generalizing v with
  | literal value => exact h
  | var id ty => exact h
  | binary left op right ty ihl ihr =>
    apply (simplifyBinary_reduces _ _ _ _).eval
    exact BinaryOp.combine?_mono h (fun _ => ihl) (fun _ => ihr)
  | unary op operand ty ih =>
    obtain ⟨x, hx, hv⟩ := Option.bind_eq_some_iff.1 h
    apply eval_simplifyUnary
    rw [eval, ih hx]
    exact hv
  | conditional test consequent alternate ty iht ihc iha =>
    obtain ⟨x, hx, hv⟩ := Option.bind_eq_some_iff.1 h
    apply eval_simplifyConditional
    rw [eval, iht hx]
    cases x with
    | bool b =>
      cases b with
      | true => exact ihc hv
      | false => exact iha hv
    | _ => cases hv
  | call callee args ty => cases h
  | subscript indexed index ty ihx ihi =>
    obtain ⟨x, hx, h⟩ := Option.bind_eq_some_iff.1 h
    obtain ⟨i, hi, h⟩ := Option.bind_eq_some_iff.1 h
    rw [simplify, eval, ihx hx, Option.bind_some, ihi hi]
    exact h
  | array elements ty ihs =>
    obtain ⟨vs, hvs, rfl⟩ := Option.map_eq_some_iff.1 h
    have hvs := forall₂_imp_of_mem (evalAll_eq_some_iff.1 hvs) fun e he _ => ihs e he
    rw [simplify, eval, simplifyAll_eq_map,
      evalAll_eq_some_iff.2 (List.forall₂_map_left_iff.2 hvs)]
    rfl
  | dict entries ty ihs =>
    obtain ⟨vs, hvs, rfl⟩ := Option.map_eq_some_iff.1 h
    have hvs := forall₂_imp_of_mem (evalEntries_eq_some_iff.1 hvs) fun p hp _ hv =>
      And.intro ((ihs p hp).1 hv.1) ((ihs p hp).2 hv.2)
    rw [simplify, eval, simplifyEntries_eq_map,
      evalEntries_eq_some_iff.2 (List.forall₂_map_left_iff.2 hvs)]
    rfl

theorem evalAll_congr {es : List Expr} (h : ∀ e ∈ es, e.eval σ = e.eval τ) :
    evalAll σ es = evalAll τ es := by
  induction es with
  | nil => rfl
  | cons e es ih =>
    rw [List.forall_mem_cons] at h
    rw [evalAll, evalAll, h.1, ih h.2]

theorem evalEntries_congr {ps : List (Expr × Expr)}
    (h : ∀ p ∈ ps, p.1.eval σ = p.1.eval τ ∧ p.2.eval σ = p.2.eval τ) :
    evalEntries σ ps = evalEntries τ ps := by
  induction ps with
  | nil => rfl
  | cons p ps ih =>
    rw [List.forall_mem_cons] at h
    rw [evalEntries, evalEntries, h.1.1, h.1.2, ih h.2]

/-- The value of an expression depends on the variables that it names. -/
theorem Names.eval_eq (h : e.Names fun id => σ id = τ id) : e.eval σ = e.eval τ := by
  induction e with
  | literal value => rfl
  | var id ty => exact names_var.1 h
  | binary left op right ty ihl ihr =>
    obtain ⟨hl, hr⟩ := names_binary.1 h
    rw [eval, eval, ihl hl, ihr hr]
  | unary op operand ty ih => rw [eval, eval, ih (names_unary.1 h)]
  | conditional test consequent alternate ty iht ihc iha =>
    obtain ⟨ht, hc, ha⟩ := names_conditional.1 h
    rw [eval, eval, iht ht, ihc hc, iha ha]
  | call callee args ty => rfl
  | subscript indexed index ty ihx ihi =>
    obtain ⟨hx, hi⟩ := names_subscript.1 h
    rw [eval, eval, ihx hx, ihi hi]
  | array elements ty ihs =>
    rw [eval, eval, evalAll_congr fun e he => ihs e he (names_array.1 h e he)]
  | dict entries ty ihs =>
    rw [eval, eval, evalEntries_congr]
    intro p hp
    obtain ⟨hk, hv⟩ := names_dict.1 h p hp
    exact ⟨(ihs p hp).1 hk, (ihs p hp).2 hv⟩

end Expr
end Typed
end Scriptor
