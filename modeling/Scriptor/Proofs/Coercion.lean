import Scriptor.Number.Binary64
import Scriptor.Operator
import Scriptor.Proofs.Doubles

namespace Scriptor.Script

inductive Primitive where
  | undefined
  | null
  | bool (b : Bool)
  | number (x : Float)
  /-- An exact integer, which does not mix with numbers. -/
  | integer (n : Int)
  | string (s : String)
  | symbol (id : Nat)
  deriving DecidableEq

inductive Value where
  | primitive (p : Primitive)
  /-- Arrays, maps and functions among them. -/
  | object (id : Nat)
  deriving DecidableEq

@[match_pattern]
def Value.bool (b : Bool) : Value := .primitive (.bool b)

@[match_pattern]
def Value.number (x : Float) : Value := .primitive (.number x)

@[match_pattern]
def Value.string (s : String) : Value := .primitive (.string s)

inductive Numeric where
  | number (x : Float)
  | integer (n : Int)

inductive Purpose where
  | sum
  | number

/-- What is left to whoever runs the script. A conversion of an object may fail; `none` stands for
an error here and below. -/
structure Engine where
  primitive? : Nat → Purpose → Option Primitive
  /-- The number that a text is read as. -/
  numeral : String → Float
  /-- The text that a number is written as. -/
  text : Float → String
  /-- The powers that are not fixed by `power` below. -/
  approximate : Float → Float → Float
  compare? : BinaryOp → Value → Value → Option Bool

namespace Primitive

def isTruthy : Primitive → Bool
  | .undefined | .null => false
  | .bool b => b
  | .number x => !(x == 0 || x.isNaN)
  | .integer n => n ≠ 0
  | .string s => s ≠ ""
  | .symbol _ => true

def isString : Primitive → Bool
  | .string _ => true
  | _ => false

/-- Whether the values are the same. Not a number differs from itself, and a zero has no sign. -/
def same : Primitive → Primitive → Bool
  | .number x, .number y => x == y
  | p, q => p = q

end Primitive

namespace Value

def isTruthy : Value → Bool
  | .primitive p => p.isTruthy
  | .object _ => true

def same : Value → Value → Bool
  | .primitive p, .primitive q => p.same q
  | v, w => v = w

end Value

namespace Numeric

def value : Numeric → Value
  | .number x => .number x
  | .integer n => .primitive (.integer n)

def neg : Numeric → Numeric
  | .number x => .number (-x)
  | .integer n => .integer (-n)

end Numeric

/-- Exact arithmetic. Nothing is divided by zero, and there are no fractions. -/
def integerArithmetic? (op : BinaryOp) (m n : Int) : Option Int :=
  match op with
  | .add => some (m + n)
  | .subtract => some (m - n)
  | .multiply => some (m * n)
  | .divide => if n = 0 then none else some (m.tdiv n)
  | .modulo => if n = 0 then none else some (m.tmod n)
  | .power => if n < 0 then none else some (Int.pow m n.toNat)
  | _ => none

namespace Engine

variable (ε : Engine)

/-- A power. The exponent zero yields one for every base; one to an infinite power is not a
number. -/
def power (x y : Float) : Float :=
  if y.isNaN then y
  else if y == 0 then 1
  else if y.isInf && (x == 1 || x == -1) then 0 / 0
  else if x == 1 then 1
  else ε.approximate x y

def numberArithmetic? (op : BinaryOp) (x y : Float) : Option Float :=
  match op with
  | .add => some (x + y)
  | .subtract => some (x - y)
  | .multiply => some (x * y)
  | .divide => some (x / y)
  | .modulo => some (Number.remainder x y)
  | .power => some (ε.power x y)
  | _ => none

def arithmetic? (op : BinaryOp) : Numeric → Numeric → Option Value
  | .number x, .number y => (ε.numberArithmetic? op x y).map .number
  | .integer m, .integer n => (integerArithmetic? op m n).map fun n => .primitive (.integer n)
  | _, _ => none

def toPrimitive? (purpose : Purpose) : Value → Option Primitive
  | .primitive p => some p
  | .object id => ε.primitive? id purpose

def toNumeric? : Primitive → Option Numeric
  | .undefined => some (.number (0 / 0))
  | .null => some (.number 0)
  | .bool b => some (.number (if b then 1 else 0))
  | .number x => some (.number x)
  | .integer n => some (.integer n)
  | .string s => some (.number (ε.numeral s))
  | .symbol _ => none

def toText? : Primitive → Option String
  | .undefined => some "undefined"
  | .null => some "null"
  | .bool b => some (if b then "true" else "false")
  | .number x => some (ε.text x)
  | .integer n => some (toString n)
  | .string s => some s
  | .symbol _ => none

def numeric? (v : Value) : Option Numeric :=
  (ε.toPrimitive? .number v).bind ε.toNumeric?

/-- A sum of primitive values. A string on either side makes it a string. -/
def sum? (p q : Primitive) : Option Value :=
  if p.isString || q.isString then
    (ε.toText? p).bind fun s => (ε.toText? q).map fun t => .string (s ++ t)
  else
    (ε.toNumeric? p).bind fun m => (ε.toNumeric? q).bind fun n => ε.arithmetic? .add m n

def strict? (op : BinaryOp) (v w : Value) : Option Value :=
  match op with
  | .add =>
    (ε.toPrimitive? .sum v).bind fun p => (ε.toPrimitive? .sum w).bind fun q => ε.sum? p q
  | .equals => some (.bool (v.same w))
  | .notEquals => some (.bool !v.same w)
  | .less | .lessEquals | .greater | .greaterEquals => (ε.compare? op v w).map .bool
  | _ => (ε.numeric? v).bind fun m => (ε.numeric? w).bind fun n => ε.arithmetic? op m n

/-- What an operator makes of the value of its left operand. A logical operator comes to the right
one only if the left one does not decide, and yields one of them as it is. -/
def binary? (op : BinaryOp) (v : Value) (right : Option Value) : Option Value :=
  match op with
  | .and => if v.isTruthy then right else some v
  | .or => if v.isTruthy then some v else right
  | _ => right.bind (ε.strict? op v)

def unary? (op : UnaryOp) (v : Value) : Option Value :=
  match op with
  | .negate => (ε.numeric? v).map fun n => n.neg.value
  | .not => some (.bool !v.isTruthy)

theorem power_zero (x : Float) {y : Float} (h : (y == 0) = true) : ε.power x y = 1 := by
  obtain ⟨s, hs⟩ := Number.beq_zero_iff.1 h
  have hnan : y.isNaN = (Number.parts y).isNaN := rfl
  rw [hs] at hnan
  rw [power, hnan, if_neg nofun, if_pos h]

theorem power_one_same_iff (y : Float) : Number.Same (ε.power 1 y) 1 ↔ y.isFinite = true := by
  have hfinite : y.isFinite = (Number.parts y).isFinite := rfl
  have hnan : y.isNaN = (Number.parts y).isNaN := rfl
  have hinf : y.isInf = (Number.parts y).isInf := rfl
  have hone : ¬((1 : Float) == 0) = true := by decide
  have hself : ((1 : Float) == 1) = true := rfl
  by_cases hzero : (y == 0) = true
  · rw [ε.power_zero 1 hzero]
    obtain ⟨s, hs⟩ := Number.beq_zero_iff.1 hzero
    rw [hfinite, hs]
    exact iff_of_true (.inl rfl) rfl
  · cases hy : Number.parts y with
    | zero s => exact absurd (Number.beq_zero_iff.2 ⟨s, hy⟩) hzero
    | notANumber =>
      rw [hy] at hfinite hnan
      change y.isFinite = false at hfinite
      change y.isNaN = true at hnan
      rw [power, if_pos hnan, hfinite]
      refine iff_of_false ?_ nofun
      rintro (rfl | ⟨-, h⟩)
      · cases hnan
      · exact hone h
    | infinity s =>
      rw [hy] at hfinite hnan hinf
      change y.isFinite = false at hfinite
      change y.isNaN = false at hnan
      change y.isInf = true at hinf
      rw [power, hnan, if_neg nofun, if_neg hzero, hinf, hself, Bool.true_or, Bool.true_and,
        if_pos rfl, hfinite]
      refine iff_of_false ?_ nofun
      rintro (h | ⟨-, h⟩)
      · exact absurd h (by decide)
      · exact hone h
    | finite =>
      rw [hy] at hfinite hnan hinf
      change y.isFinite = true at hfinite
      change y.isNaN = false at hnan
      change y.isInf = false at hinf
      rw [power, hnan, if_neg nofun, if_neg hzero, hinf, Bool.false_and, if_neg nofun, if_pos hself]
      exact iff_of_true (.inl rfl) hfinite

end Engine

end Scriptor.Script
