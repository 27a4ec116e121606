import Scriptor.Entity
import Scriptor.Operator

namespace Scriptor.Typed

inductive Literal where
  | int (value : Int)
  | float (value : Float)
  | string (value : String)
  | bool (value : Bool)
  deriving DecidableEq

def Literal.ty : Literal → Ty
  | .int _ => .int
  | .float _ => .float
  | .string _ => .string
  | .bool _ => .bool

inductive Expr where
  | literal (value : Literal)
  | var (id : EntityId) (ty : Ty)
  | binary (left : Expr) (op : BinaryOp) (right : Expr) (ty : Ty)
  | unary (op : UnaryOp) (operand : Expr) (ty : Ty)
  | conditional (test consequent alternate : Expr) (ty : Ty)
  | call (callee : Expr) (arguments : List Expr) (ty : Ty)
  | subscript (indexed index : Expr) (ty : Ty)
  | array (elements : List Expr) (ty : Ty)
  | dict (entries : List (Expr × Expr)) (ty : Ty)

namespace Expr

def int (value : Int) : Expr := .literal (.int value)

def float (value : Float) : Expr := .literal (.float value)

def bool (value : Bool) : Expr := .literal (.bool value)

def ty : Expr → Ty
  | .literal value => value.ty
  | .var _ ty | .binary _ _ _ ty | .unary _ _ ty | .conditional _ _ _ ty | .call _ _ ty
  | .subscript _ _ ty
  | .array _ ty | .dict _ ty => ty

def entity? : Expr → Option EntityId
  | .var id _ => some id
  | _ => none

end Expr

/-- Methods that change a collection in place. -/
inductive Method where
  | arrayAdd
  | arrayInsert
  | arrayDelete
  | dictSet
  | dictDelete
  deriving DecidableEq

def Method.arity : Method → Nat
  | .arrayAdd | .arrayDelete | .dictDelete => 1
  | .arrayInsert | .dictSet => 2

inductive Stmt where
  /-- The first assignment to a name. -/
  | declaration (id : EntityId) (value : Expr)
  | assignment (target value : Expr)
  | function (id : EntityId) (parameters : List EntityId) (body : List Stmt)
  | rangeFor (init update : Stmt) (test : Expr) (body : List Stmt)
  | collectionFor (id : EntityId) (collection : Expr) (body : List Stmt)
  | ret (value : Option Expr)
  | brk
  | call (callee : Expr) (arguments : List Expr)
  | print (arguments : List Expr)
  | method (object : Expr) (method : Method) (arguments : List Expr)

structure Program where
  statements : List Stmt
  entities : Arena

end Scriptor.Typed
