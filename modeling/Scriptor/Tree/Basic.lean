import Scriptor.Operator
import Scriptor.Position
import Scriptor.Ty

namespace Scriptor

inductive Expr where
  /-- A number, as its text. -/
  | number (text : String) (span : Span)
  | string (value : String) (span : Span)
  | boolean (value : Bool) (span : Span)
  | symbol (name : String) (span : Span)
  | binary (left : Expr) (op : BinaryOp) (right : Expr) (span : Span)
  | unary (op : UnaryOp) (operand : Expr) (span : Span)
  | conditional (test consequent alternate : Expr) (span : Span)
  | call (callee : Expr) (arguments : List Expr) (span : Span)
  | subscript (indexed index : Expr) (span : Span)
  /-- A name after a point; it has a meaning only as what a statement calls. -/
  | member (object : Expr) (property : String) (propertySpan : Span) (span : Span)
  | array (elements : List Expr) (span : Span)
  | dict (entries : List (Expr × Expr)) (span : Span)

def Expr.span : Expr → Span
  | .number _ span | .string _ span | .boolean _ span | .symbol _ span | .binary _ _ _ span
  | .unary _ _ span
  | .conditional _ _ _ span | .call _ _ span | .subscript _ _ span
  | .member _ _ _ span | .array _ span
  | .dict _ span => span

def Expr.start (e : Expr) : Position := e.span.start

structure Ascription where
  ty : Ty
  span : Span

structure Parameter where
  name : String
  ascription : Option Ascription
  span : Span

/-- The type of a parameter or result; without ascription it is not known. -/
def Ascription.typeOf : Option Ascription → Ty
  | some a => a.ty
  | none => .any

def Parameter.ty (p : Parameter) : Ty := Ascription.typeOf p.ascription

/-- `target = value`, or `target op= value`. It declares a name or gives it a new value. -/
structure Assignment where
  target : Expr
  operator : Option BinaryOp
  value : Expr
  span : Span

inductive Stmt where
  | assignment (a : Assignment)
  | function (name : String) (parameters : List Parameter) (result : Option Ascription)
      (body : List Stmt) (endName : String) (endSpan : Span) (span : Span)
  | rangeFor (init update : Assignment) (body : List Stmt) (test : Expr) (span : Span)
  | collectionFor (name : String) (nameSpan : Span) (collection : Expr)
      (body : List Stmt) (span : Span)
  | ret (value : Option Expr) (span : Span)
  | brk (span : Span)
  | call (callee : Expr) (arguments : List Expr) (span : Span)

structure Program where
  statements : List Stmt

end Scriptor
