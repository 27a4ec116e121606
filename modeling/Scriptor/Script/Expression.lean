import Scriptor.Number.Binary64
import Scriptor.Script.Literal
import Scriptor.Script.Writer

namespace Scriptor.Script

def symbol : BinaryOp → String
  | .equals => "==="
  | .notEquals => "!=="
  | op => op.symbol

/-- A power has no signed expression as its base. -/
def needsParens : Typed.Expr → Bool
  | .unary _ _ _ => true
  | .literal (.int n) => n < 0
  | .literal (.float x) => Number.isNegative x
  | _ => false

def base (op : BinaryOp) (left : Typed.Expr) (text : String) : String :=
  if op = .power && needsParens left then "(" ++ text ++ ")" else text

def commaSeparated (texts : List String) : String :=
  ", ".intercalate texts

mutual

def expr : Typed.Expr → Write String
  | .literal value => return literal value
  | .var id _ => nameOf id
  | .binary left op right _ => do
    let l ← expr left
    let r ← expr right
    return "(" ++ base op left l ++ " " ++ symbol op ++ " " ++ r ++ ")"
  | .unary op operand _ => do
    let e ← expr operand
    return op.symbol ++ "(" ++ e ++ ")"
  | .conditional test consequent alternate _ => do
    let t ← expr test
    let c ← expr consequent
    let a ← expr alternate
    return "((" ++ t ++ ") ? (" ++ c ++ ") : (" ++ a ++ "))"
  | .call callee arguments _ => do
    let f ← expr callee
    let as ← exprs arguments
    return f ++ "(" ++ commaSeparated as ++ ")"
  | .subscript indexed index _ => do
    let a ← expr indexed
    let i ← expr index
    return a ++ "[" ++ i ++ "]"
  | .array elements _ => do
    let es ← exprs elements
    return "[" ++ commaSeparated es ++ "]"
  | .dict es _ => do
    let es ← entries es
    return "new Map([" ++ commaSeparated es ++ "])"

def exprs : List Typed.Expr → Write (List String)
  | [] => return []
  | e :: es => do
    let t ← expr e
    let ts ← exprs es
    return t :: ts

def entries : List (Typed.Expr × Typed.Expr) → Write (List String)
  | [] => return []
  | (key, value) :: es => do
    let k ← expr key
    let v ← expr value
    let ts ← entries es
    return ("[" ++ k ++ ", " ++ v ++ "]") :: ts

end

end Scriptor.Script
