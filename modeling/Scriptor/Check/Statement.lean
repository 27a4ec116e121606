import Scriptor.Check.Expression

namespace Scriptor

open Check

def Expr.unbound? (env : Env) : Expr → Option String
  | .symbol name _ => if (env.resolve? name).isNone then some name else none
  | _ => none

/-- What an assignment gives a new value: a writable variable or an element of an array. -/
def Expr.checkTarget (env : Env) (target : Expr) : Except Error Typed.Expr :=
  match target with
  | .symbol name span =>
    match env.resolve? name with
    | some (id, e) => do
      require e.isWritable (.notAssignable name) span.start
      return .var id e.ty
    | none => .error ⟨.notDeclared name, span.start⟩
  | .subscript _ _ _ => target.check env
  | _ => .error ⟨.notAssignable "this expression", target.start⟩

/-- A plain assignment to an unbound name declares it. A compound one computes with the old
value. -/
def Assignment.check (env : Env) (a : Assignment) : Except Error (Typed.Stmt × Env) :=
  match a.operator with
  | some op => do
    let target ← a.target.checkTarget env
    let operand ← a.value.check env
    let value ← Check.binary op target operand a.target.start a.value.start
    requireAssignable target.ty value a.value.start
    return (.assignment target value, env)
  | none => do
    let value ← a.value.check env
    requireValue value a.value.start
    match a.target.unbound? env with
    | some name =>
      return (.declaration env.entities.next value, env.declare (.ofVariable name value.ty))
    | none =>
      let target ← a.target.checkTarget env
      requireAssignable target.ty value a.value.start
      return (.assignment target value, env)

namespace Check

def startType : Typed.Stmt → Ty
  | .declaration _ value => value.ty
  | .assignment target _ => target.ty
  | _ => .any

def stepType : Typed.Stmt → Ty
  | .assignment _ value => value.ty
  | _ => .any

/-- The header of a range loop, its test included. It cannot step a name that it does not start. -/
def rangeHeader (env : Env) (init update : Assignment) (test : Expr) :
    Except Error ((Typed.Stmt × Typed.Stmt × Typed.Expr) × Env) := do
  let (i, env) ← init.check env
  require (startType i).isNumeric (.expectedNumber (startType i).text) init.value.start
  match update.target.unbound? env with
  | some name => throw ⟨.notDeclared name, update.target.start⟩
  | none => pure ()
  let (u, env) ← update.check env
  require (stepType u).isNumeric (.expectedNumber (stepType u).text) update.value.start
  let t ← test.check env
  requireType t Ty.isBoolean .expectedBoolean test.start
  return ((i, u, t), env)

def parameters (env : Env) : List Parameter → Except Error (List EntityId × Env)
  | [] => .ok ([], env)
  | p :: ps => do
    env.scope.requireFresh p.name p.span.start
    let (ids, env') ← parameters (env.declare (.ofVariable p.name p.ty)) ps
    return (env.entities.next :: ids, env')

def declaredResult (env : Env) (id : EntityId) : Ty :=
  match (env.entities.get? id).map Entity.ty with
  | some (.function _ result) => result
  | _ => .any

def returned (env : Env) (value : Option Expr) (start : Position) : Except Error Typed.Stmt :=
  match env.scope.frame.function, value with
  | none, _ => .error ⟨.returnOutsideFunction, start⟩
  | some id, none => do
    let expected := declaredResult env id
    require (expected = .void || expected = .any) (.missingReturnValue expected.text) start
    return .ret none
  | some id, some e => do
    let expected := declaredResult env id
    let v ← e.check env
    requireValue v e.start
    require (expected ≠ .void && expected.accepts v.ty)
      (.returnTypeMismatch expected.text v.ty.text) e.start
    return .ret (some v)

/-- A call as a statement; only here can a method be called. -/
def called (env : Env) (callee : Expr) (args : List Expr) (stop : Position) :
    Except Error Typed.Stmt :=
  match callee with
  | .member object property propertySpan _ => do
    let o ← object.check env
    let m ← method property o.ty object.start propertySpan.start
    let as ← checkAll env args
    arguments (methodParameters m o.ty) as (args.map Expr.start) stop false
    return .method o m as
  | _ => do
    let f ← callee.check env
    requireType f Ty.isFunction .expectedFunction callee.start
    let as ← checkAll env args
    let _ ← callResult env f as (args.map Expr.start) stop
    let builtin := (f.entity?.bind env.entities.get?).bind Entity.builtin
    return if builtin = some .print then .print as else .call f as

end Check

mutual

def Stmt.check (env : Env) : Stmt → Except Error (Typed.Stmt × Env)
  | .assignment a => a.check env
  | .function name params result body endName endSpan span => do
    require (endName = name) (.mismatchedBlockName name endName) endSpan.start
    env.scope.requireFresh name span.start
    let id := env.entities.next
    let env := env.declare (.ofFunction name (params.map Parameter.ty) (Ascription.typeOf result))
    let (ids, inner) ← parameters { env with scope := env.scope.body id } params
    let (b, inner) ← checkBlock inner body
    return (.function id ids b, { env with entities := inner.entities })
  | .rangeFor init update body test _ => do
    let ((i, u, t), inner) ← rangeHeader { env with scope := env.scope.loop } init update test
    let (b, inner) ← checkBlock inner body
    return (.rangeFor i u t b, { env with entities := inner.entities })
  | .collectionFor name nameSpan collection body _ => do
    let c ← collection.check env
    match c.ty.element? with
    | none => .error ⟨.expectedArrayOrDictionary c.ty.text, collection.start⟩
    | some ty =>
      let inner := { env with scope := env.scope.loop }
      inner.scope.requireFresh name nameSpan.start
      let (b, inner) ← checkBlock (inner.declare (.ofVariable name ty)) body
      return (.collectionFor env.entities.next c b, { env with entities := inner.entities })
  | .ret value span => do
    let s ← returned env value span.start
    return (s, env)
  | .brk span => do
    require env.scope.frame.inLoop .breakOutsideLoop span.start
    return (.brk, env)
  | .call callee args span => do
    let s ← called env callee args span.stop
    return (s, env)

def checkBlock (env : Env) : List Stmt → Except Error (List Typed.Stmt × Env)
  | [] => .ok ([], env)
  | s :: ss => do
    let (t, env) ← s.check env
    let (ts, env) ← checkBlock env ss
    return (t :: ts, env)

end

def Env.initial : Env :=
  { Env.builtins with scope := Env.builtins.scope.child }

def Program.check (p : Program) : Except Error Typed.Program := do
  let (statements, env) ← checkBlock .initial p.statements
  return ⟨statements, env.entities⟩

end Scriptor
