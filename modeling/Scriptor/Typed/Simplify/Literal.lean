import Scriptor.Number.Binary64
import Scriptor.Typed.Basic

namespace Scriptor.Typed.Literal

/-- The largest exponent to which integers are raised. -/
def maxExponent : Nat := 65535

/-- The value of an operator on integers, unless it has none or is left to the script. -/
def foldInt? (op : BinaryOp) (a b : Int) : Option Literal :=
  match op with
  | .add => some (.int (a + b))
  | .subtract => some (.int (a - b))
  | .multiply => some (.int (a * b))
  | .divide => some (.float (Float.ofInt a / Float.ofInt b))
  | .modulo => if b = 0 then none else some (.int (a.tmod b))
  | .power => if 0 ≤ b ∧ b ≤ maxExponent then some (.int (Int.pow a b.toNat)) else none
  | .less => some (.bool (a < b))
  | .lessEquals => some (.bool (a ≤ b))
  | .greater => some (.bool (b < a))
  | .greaterEquals => some (.bool (b ≤ a))
  | .equals => some (.bool (a = b))
  | .notEquals => some (.bool (a ≠ b))
  | .and | .or => none

def foldFloat? (op : BinaryOp) (a b : Float) : Option Literal :=
  match op with
  | .add => some (.float (a + b))
  | .subtract => some (.float (a - b))
  | .multiply => some (.float (a * b))
  | .divide => some (.float (a / b))
  | .modulo => some (.float (Number.remainder a b))
  | .power => some (.float (Float.pow a b))
  | .less => some (.bool (a < b))
  | .lessEquals => some (.bool (a ≤ b))
  | .greater => some (.bool (b < a))
  | .greaterEquals => some (.bool (b ≤ a))
  | .equals => some (.bool (a == b))
  | .notEquals => some (.bool (a != b))
  | .and | .or => none

def fold? (op : BinaryOp) : Literal → Literal → Option Literal
  | .int a, .int b => foldInt? op a b
  | .float a, .float b => foldFloat? op a b
  | _, _ => none

end Scriptor.Typed.Literal
