import Scriptor.Check.Rules
import Scriptor.Number.Reading
import Scriptor.Scope
import Scriptor.Tree.Basic

namespace Scriptor

open Check

namespace Check

/-- A number with a point or an exponent is floating-point. -/
def number (text : String) (start : Position) : Except Error Typed.Expr :=
  let parsed :=
    if text.toList.any fun c => c == '.' || c == 'e' || c == 'E' then
      (Number.float? text).map Typed.Expr.float
    else (Number.integer? text).map Typed.Expr.int
  match parsed with
  | some e => .ok e
  | none => .error ⟨.numberParseError text, start⟩

def callResult (env : Env) (callee : Typed.Expr) (args : List Typed.Expr) (starts : List Position)
    (stop : Position) : Except Error Ty :=
  match callee.ty with
  | .function parameters result => do
    let variadic := (callee.entity?.bind env.entities.get?).any Entity.isVariadic
    arguments parameters args starts stop variadic
    return result
  | _ => .ok .any

end Check

mutual

def Expr.check (env : Env) : Expr → Except Error Typed.Expr
  | .number text span => Check.number text span.start
  | .string value _ => .ok (.literal (.string value))
  | .boolean value _ => .ok (.bool value)
  | .symbol name span =>
    match env.resolve? name with
    | some (id, e) => .ok (.var id e.ty)
    | none => .error ⟨.notDeclared name, span.start⟩
  | .binary left op right _ => do
    let l ← left.check env
    let r ← right.check env
    Check.binary op l r left.start right.start
  | .unary op operand _ => do
    let e ← operand.check env
    Check.unary op e operand.start
  | .conditional test consequent alternate _ => do
    let t ← test.check env
    requireType t Ty.isBoolean .expectedBoolean test.start
    let c ← consequent.check env
    let a ← alternate.check env
    let ty ← unify c.ty a.ty alternate.start
    return .conditional t c a ty
  | .call callee args span => do
    let f ← callee.check env
    requireType f Ty.isFunction .expectedFunction callee.start
    let as ← checkAll env args
    let ty ← callResult env f as (args.map Expr.start) span.stop
    return .call f as ty
  | .subscript indexed index _ => do
    let a ← indexed.check env
    requireType a Ty.isArray .expectedArray indexed.start
    let i ← index.check env
    requireType i Ty.isInteger .expectedInteger index.start
    return .subscript a i (elementType a.ty)
  | .member object property propertySpan _ => do
    let _ ← object.check env
    .error ⟨.methodAsValue property, propertySpan.start⟩
  | .array elements _ => do
    let (es, ty) ← checkElements env .any elements
    return .array es (.array ty)
  | .dict entries _ => do
    let (es, ty) ← checkEntries env .any entries
    return .dict es (.dict ty)

def checkAll (env : Env) : List Expr → Except Error (List Typed.Expr)
  | [] => .ok []
  | e :: es => do
    let a ← e.check env
    let as ← checkAll env es
    return a :: as

def checkElements (env : Env) (ty : Ty) : List Expr → Except Error (List Typed.Expr × Ty)
  | [] => .ok ([], ty)
  | e :: es => do
    let a ← e.check env
    requireValue a e.start
    let ty ← unify ty a.ty e.start
    let (as, ty) ← checkElements env ty es
    return (a :: as, ty)

def checkEntries (env : Env) (ty : Ty) :
    List (Expr × Expr) → Except Error (List (Typed.Expr × Typed.Expr) × Ty)
  | [] => .ok ([], ty)
  | (key, value) :: es => do
    let k ← key.check env
    let v ← value.check env
    requireValue k key.start
    requireValue v value.start
    let ty ← unify ty k.ty key.start
    let ty ← unify ty v.ty value.start
    let (as, ty) ← checkEntries env ty es
    return ((k, v) :: as, ty)

end

end Scriptor
