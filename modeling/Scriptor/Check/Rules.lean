import Scriptor.Error
import Scriptor.Typed.Basic

namespace Scriptor.Check

def require (condition : Bool) (cause : Cause) (position : Position) : Except Error Unit :=
  if condition then .ok () else .error ⟨cause, position⟩

def requireType (e : Typed.Expr) (inClass : Ty → Bool) (cause : String → Cause)
    (position : Position) : Except Error Unit :=
  require (inClass e.ty) (cause e.ty.text) position

/-- Fails on the result of a call that yields nothing. -/
def requireValue (e : Typed.Expr) (position : Position) : Except Error Unit :=
  require (e.ty ≠ .void) .expectedValue position

/-- Fails unless a target of the given type takes the expression. -/
def requireAssignable (target : Ty) (e : Typed.Expr) (position : Position) : Except Error Unit :=
  require (target.accepts e.ty) (.typeMatchError target.text e.ty.text) position

def unify (left right : Ty) (position : Position) : Except Error Ty :=
  match left.unify right with
  | some ty => .ok ty
  | none => .error ⟨.operandTypeMismatch left.text right.text, position⟩

def requireOperand (op : BinaryOp) (e : Typed.Expr) (position : Position) : Except Error Unit :=
  if op.isLogical then requireType e Ty.isBoolean .expectedBoolean position
  else if op.isOrdering || op = .add then
    requireType e Ty.isNumericOrString .expectedNumberOrString position
  else if op.isEquality then .ok ()
  else requireType e Ty.isNumeric .expectedNumber position

def resultType (op : BinaryOp) (operands : Ty) : Ty :=
  if op.isLogical || op.isEquality || op.isOrdering then .bool
  else if op = .divide then .float
  else operands

def binary (op : BinaryOp) (left right : Typed.Expr) (leftStart rightStart : Position) :
    Except Error Typed.Expr := do
  requireOperand op left leftStart
  requireOperand op right rightStart
  let operands ← unify left.ty right.ty rightStart
  return .binary left op right (resultType op operands)

def unary (op : UnaryOp) (operand : Typed.Expr) (start : Position) : Except Error Typed.Expr :=
  match op with
  | .negate => do
    requireType operand Ty.isNumeric .expectedNumber start
    return .unary .negate operand operand.ty
  | .not => do
    requireType operand Ty.isBoolean .expectedBoolean start
    return .unary .not operand .bool

def elementType : Ty → Ty
  | .array base => base
  | _ => .any

/-- The types of arguments, one by one, as far as there are parameters. -/
def argumentTypes : List Ty → List Typed.Expr → List Position → Except Error Unit
  | p :: ps, a :: as, start :: starts => do
    require (p.accepts a.ty && a.ty ≠ .void) (.argumentTypeMatchError p.text a.ty.text) start
    argumentTypes ps as starts
  | _, _, _ => .ok ()

/-- Number and types of arguments that start at the given places, in a call that ends at `stop`. -/
def arguments (parameters : List Ty) (args : List Typed.Expr) (starts : List Position)
    (stop : Position) (variadic : Bool) : Except Error Unit := do
  if !variadic then
    require (args.length ≤ parameters.length) (.unexpectedArguments parameters.length args.length)
      (starts[parameters.length]?.getD stop)
    require (parameters.length ≤ args.length)
      (.missingArguments parameters.length args.length) stop
  argumentTypes parameters args starts

def method (name : String) (object : Ty) (objectStart nameStart : Position) :
    Except Error Typed.Method :=
  match name, object with
  | "add", .array _ | "add", .any => .ok .arrayAdd
  | "insert", .array _ | "insert", .any => .ok .arrayInsert
  | "delete", .array _ => .ok .arrayDelete
  | "set", .dict _ | "set", .any => .ok .dictSet
  | "delete", .dict _ => .ok .dictDelete
  | "add", _ | "insert", _ => .error ⟨.expectedArray object.text, objectStart⟩
  | "set", _ => .error ⟨.expectedDictionary object.text, objectStart⟩
  | "delete", _ => .error ⟨.expectedArrayOrDictionary object.text, objectStart⟩
  | _, _ => .error ⟨.unknownMethod name object.text, nameStart⟩

/-- The parameters of a method on a collection of the given type. -/
def methodParameters (m : Typed.Method) (object : Ty) : List Ty :=
  let base := match object with
    | .array base | .dict base => base
    | _ => .any
  match m with
  | .arrayAdd => [base]
  | .arrayInsert => [.int, base]
  | .arrayDelete => [.int]
  | .dictSet => [base, base]
  | .dictDelete => [base]

end Scriptor.Check
