import Scriptor.Proofs.Rules
import Scriptor.Proofs.Simplification

namespace Scriptor

open Typed (Expr Literal)

namespace BinaryOp

variable {op : BinaryOp} {a b : Int} {z w : Literal}

def exactly? (op : BinaryOp) (a b : Int) : Option Literal :=
  match op with
  | .add => some (.int (a + b))
  | .subtract => some (.int (a - b))
  | .multiply => some (.int (a * b))
  | .modulo => if b = 0 then none else some (.int (a.tmod b))
  | .power => if b < 0 then none else some (.int (Int.pow a b.toNat))
  | .less => some (.bool (a < b))
  | .lessEquals => some (.bool (a ≤ b))
  | .greater => some (.bool (b < a))
  | .greaterEquals => some (.bool (b ≤ a))
  | .equals => some (.bool (a = b))
  | .notEquals => some (.bool !(a = b))
  | .divide | .and | .or => none

/-- The value of the left operand at which the right one does not count. -/
def decider? : BinaryOp → Option Bool
  | .and => some false
  | .or => some true
  | _ => none

theorem isLogical_of_result (hop : op.result .int = .int) : op.isLogical = false := by
  cases op with
  | and | or => cases hop
  | _ => rfl

theorem ne_divide_of_result (hop : op.result .int = .int) : op ≠ .divide := by
  rintro rfl
  cases hop

theorem eq_of_foldInt? (hf : Literal.foldInt? op a b = some z) (hw : op.exactly? a b = some w) :
    z = w := by
  cases op with
  | modulo => exact Option.some.inj (hf.symm.trans hw)
  | power =>
    rw [Literal.foldInt?, Option.ite_none_right_eq_some] at hf
    rw [exactly?, Option.ite_none_left_eq_some] at hw
    exact Option.some.inj (hf.2.symm.trans hw.2)
  | notEquals =>
    cases hf
    cases hw
    rw [decide_not]
  | divide => cases hw
  | and | or => cases hf
  | _ =>
    cases hf
    cases hw
    rfl

end BinaryOp

namespace Typed.Expr

variable {left right e : Expr} {op : BinaryOp} {ty : Ty}

/-- An expression that yields the image of whatever integer the operand yields. -/
inductive Follows (operand : Expr) (ty : Ty) : (Int → Int) → Expr → Prop where
  | same : Follows operand ty id operand
  | constant (n : Int) : Follows operand ty (fun _ => n) (.int n)
  | negated : Follows operand ty (-·) (.unary .negate operand ty)

/-- Why an operator with a special operand can be left out. -/
inductive Neutral (ty : Ty) : Expr → BinaryOp → Expr → Expr → Prop where
  | undecidedLeft {op : BinaryOp} {right : Expr} {d : Bool} : op.decider? = some d →
      Neutral ty (.bool !d) op right right
  | undecidedRight {left : Expr} {op : BinaryOp} {d : Bool} : op.decider? = some d →
      Neutral ty left op (.bool !d) left
  | integerLeft {op : BinaryOp} {right e : Expr} {k : Int} {f : Int → Int} :
      op.result .int = .int → (∀ n w, op.exactly? k n = some w → w = .int (f n)) →
      Follows right ty f e → Neutral ty (.int k) op right e
  | integerRight {left e : Expr} {op : BinaryOp} {k : Int} {f : Int → Int} :
      op.result .int = .int → (∀ m w, op.exactly? m k = some w → w = .int (f m)) →
      Follows left ty f e → Neutral ty left op (.int k) e

theorem eq_int_of_isZero (h : e.isZero = true) (hfloat : ∀ x, e ≠ .float x) : e = .int 0 := by
  rcases eq_of_isZero h with he | ⟨x, hx⟩
  · exact he
  · exact absurd hx (hfloat x)

theorem eq_int_of_isOne (h : e.isOne = true) (hfloat : ∀ x, e ≠ .float x) : e = .int 1 := by
  rcases eq_of_isOne h with he | ⟨x, hx⟩
  · exact he
  · exact absurd hx (hfloat x)

theorem Identity.neutral (h : Identity left right ty op e) (hop : op ≠ .divide)
    (hl : op.isLogical = false → ∀ x, left ≠ .float x)
    (hr : op.isLogical = false → ∀ x, right ≠ .float x) : Neutral ty left op right e := by
  cases h with
  | trueAnd h =>
    rw [eq_of_isBool h]
    exact .undecidedLeft (d := false) rfl
  | andTrue h =>
    rw [eq_of_isBool h]
    exact .undecidedRight (d := false) rfl
  | falseOr h =>
    rw [eq_of_isBool h]
    exact .undecidedLeft (d := true) rfl
  | orFalse h =>
    rw [eq_of_isBool h]
    exact .undecidedRight (d := true) rfl
  | addZero h _ =>
    rw [eq_int_of_isZero h (hr rfl)]
    refine .integerRight rfl ?_ .same
    rintro m _ ⟨⟩
    rw [Int.add_zero, id]
  | zeroAdd h _ =>
    rw [eq_int_of_isZero h (hl rfl)]
    refine .integerLeft rfl ?_ .same
    rintro n _ ⟨⟩
    rw [Int.zero_add, id]
  | subtractZero h _ =>
    rw [eq_int_of_isZero h (hr rfl)]
    refine .integerRight rfl ?_ .same
    rintro m _ ⟨⟩
    rw [Int.sub_zero, id]
  | zeroSubtract h _ =>
    rw [eq_int_of_isZero h (hl rfl)]
    refine .integerLeft rfl ?_ .negated
    rintro n _ ⟨⟩
    rw [Int.zero_sub]
  | multiplyOne h _ =>
    rw [eq_int_of_isOne h (hr rfl)]
    refine .integerRight rfl ?_ .same
    rintro m _ ⟨⟩
    rw [Int.mul_one, id]
  | oneMultiply h _ =>
    rw [eq_int_of_isOne h (hl rfl)]
    refine .integerLeft rfl ?_ .same
    rintro n _ ⟨⟩
    rw [Int.one_mul, id]
  | multiplyZero h _ =>
    rw [eq_int_of_isZero h (hr rfl)]
    refine .integerRight rfl ?_ (.constant 0)
    rintro m _ ⟨⟩
    rw [Int.mul_zero]
  | zeroMultiply h _ =>
    rw [eq_int_of_isZero h (hl rfl)]
    refine .integerLeft rfl ?_ (.constant 0)
    rintro n _ ⟨⟩
    rw [Int.zero_mul]
  | powerZero h _ =>
    rw [eq_int_of_isZero h (hr rfl)]
    refine .integerRight rfl ?_ (.constant 1)
    rintro m _ ⟨⟩
    exact congrArg Literal.int (Int.pow_zero m)
  | onePower h _ =>
    rw [eq_int_of_isOne h (hl rfl)]
    refine .integerLeft rfl ?_ (.constant 1)
    intro n w hw
    rw [BinaryOp.exactly?, Option.ite_none_left_eq_some] at hw
    cases hw.2
    exact congrArg Literal.int Int.one_pow
  | divideOne | zeroDivide => exact absurd rfl hop

end Typed.Expr

end Scriptor
