import Scriptor.Typed.Simplify.Literal

namespace Scriptor.Typed.Expr

def isBool (value : Bool) : Expr → Bool
  | .literal (.bool b) => b == value
  | _ => false

def isZero : Expr → Bool
  | .literal (.int n) => n = 0
  | .literal (.float x) => x == 0
  | _ => false

def isOne : Expr → Bool
  | .literal (.int n) => n = 1
  | .literal (.float x) => x == 1
  | _ => false

/-- Identities of numbers hold for these types only: an operand of an unknown type may be a
string. -/
def isNumber (e : Expr) : Bool :=
  e.ty = .int || e.ty = .float

/-- One, as the exponent zero yields it. -/
def oneLike : Expr → Expr
  | .literal (.float _) => .float 1
  | _ => .int 1

def fold? (op : BinaryOp) : Expr → Expr → Option Literal
  | .literal a, .literal b => Literal.fold? op a b
  | _, _ => none

/-- The result of a logical operator with one operand that does not matter. -/
def logicalIdentity? (op : BinaryOp) (left right : Expr) : Option Expr :=
  match op with
  | .and => if left.isBool true then some right else if right.isBool true then some left else none
  | .or => if left.isBool false then some right else if right.isBool false then some left else none
  | _ => none

/-- The result of an arithmetic operator with zero or one on one side. -/
def arithmeticIdentity? (op : BinaryOp) (left right : Expr) (ty : Ty) : Option Expr :=
  match op with
  | .add =>
    if right.isZero && left.isNumber then some left
    else if left.isZero && right.isNumber then some right
    else none
  | .subtract =>
    if right.isZero && left.isNumber then some left
    else if left.isZero && right.isNumber then some (.unary .negate right ty)
    else none
  | .multiply =>
    if right.isOne && left.isNumber then some left
    else if left.isOne && right.isNumber then some right
    else if right.isZero && left.isNumber then some right
    else if left.isZero && right.isNumber then some left
    else none
  | .divide =>
    -- a quotient is always floating-point
    if right.isOne && left.ty = ty then some left
    else if left.isZero && right.isNumber then some (.float 0)
    else none
  | .power =>
    if right.isZero && left.isNumber then some right.oneLike
    else if left.isOne && right.isNumber then some left
    else none
  | _ => none

def simplifyBinary (left : Expr) (op : BinaryOp) (right : Expr) (ty : Ty) : Expr :=
  match fold? op left right with
  | some value => .literal value
  | none =>
    match logicalIdentity? op left right with
    | some e => e
    | none => (arithmeticIdentity? op left right ty).getD (.binary left op right ty)

def simplifyUnary (op : UnaryOp) (operand : Expr) (ty : Ty) : Expr :=
  match op, operand with
  | .negate, .literal (.int n) => .int (-n)
  | .negate, .literal (.float x) => .float (-x)
  | .not, .literal (.bool b) => .bool (!b)
  | _, _ => .unary op operand ty

def simplifyConditional (test consequent alternate : Expr) (ty : Ty) : Expr :=
  match test with
  | .literal (.bool true) => consequent
  | .literal (.bool false) => alternate
  | _ => .conditional test consequent alternate ty

mutual

def simplify : Expr → Expr
  | .literal value => .literal value
  | .var id ty => .var id ty
  | .binary left op right ty => simplifyBinary left.simplify op right.simplify ty
  | .unary op operand ty => simplifyUnary op operand.simplify ty
  | .conditional test consequent alternate ty =>
    simplifyConditional test.simplify consequent.simplify alternate.simplify ty
  | .call callee arguments ty => .call callee.simplify (simplifyAll arguments) ty
  | .subscript indexed index ty => .subscript indexed.simplify index.simplify ty
  | .array elements ty => .array (simplifyAll elements) ty
  | .dict entries ty => .dict (simplifyEntries entries) ty

def simplifyAll : List Expr → List Expr
  | [] => []
  | e :: es => e.simplify :: simplifyAll es

def simplifyEntries : List (Expr × Expr) → List (Expr × Expr)
  | [] => []
  | (key, value) :: es => (key.simplify, value.simplify) :: simplifyEntries es

end

end Scriptor.Typed.Expr
