import Scriptor.Script.Expression

namespace Scriptor.Script

def assignment : Typed.Stmt → Write String
  | .declaration id value => do
    let name ← nameOf id
    let v ← expr value
    return "let " ++ name ++ " = " ++ v
  | .assignment target value => do
    let t ← expr target
    let v ← expr value
    return t ++ " = " ++ v
  | _ => throw .badHeader

/-- The variable that a statement steps by one, and the operator that does so. -/
def step? : Typed.Stmt → Option (EntityId × String)
  | .assignment (.var id _) (.binary left op (.literal (.int 1)) _) =>
    if left.entity? = some id then
      match op with
      | .add => some (id, "++")
      | .subtract => some (id, "--")
      | _ => none
    else none
  | _ => none

/-- The update of a loop; a step by one has a form of its own. -/
def update (s : Typed.Stmt) : Write String :=
  match step? s with
  | some (id, op) => return (← nameOf id) ++ op
  | none => assignment s

def methodCall (m : Typed.Method) (arguments : List String) : Write String :=
  match m, arguments with
  | .arrayAdd, [value] => return "push(" ++ value ++ ")"
  | .arrayInsert, [index, value] => return "splice(" ++ index ++ ", 0, " ++ value ++ ")"
  | .arrayDelete, [index] => return "splice(" ++ index ++ ", 1)"
  | .dictSet, [key, value] => return "set(" ++ key ++ ", " ++ value ++ ")"
  | .dictDelete, [key] => return "delete(" ++ key ++ ")"
  | _, _ => throw (.wrongArity m)

def names : List EntityId → Write (List String)
  | [] => return []
  | id :: ids => do
    let n ← nameOf id
    let ns ← names ids
    return n :: ns

/-- What a loop runs over; a dictionary yields its entries. -/
def iterated (collection : Ty) (text : String) : String :=
  match collection with
  | .dict _ => text ++ ".entries()"
  | _ => text

mutual

def stmt : Typed.Stmt → Write Unit
  | .declaration id value => do
    let a ← assignment (.declaration id value)
    emit (a ++ ";")
  | .assignment target value => do
    let a ← assignment (.assignment target value)
    emit (a ++ ";")
  | .function id parameters body => do
    let name ← nameOf id
    let ps ← names parameters
    emit ("function " ++ name ++ "(" ++ commaSeparated ps ++ ") \x7b")
    deeper (stmts body)
    emit "\x7d"
  | .rangeFor init updating test body => do
    let i ← assignment init
    let t ← expr test
    let u ← update updating
    emit ("for (" ++ i ++ "; " ++ t ++ "; " ++ u ++ ") \x7b")
    deeper (stmts body)
    emit "\x7d"
  | .collectionFor id collection body => do
    let name ← nameOf id
    let c ← expr collection
    emit ("for (let " ++ name ++ " of " ++ iterated collection.ty c ++ ") \x7b")
    deeper (stmts body)
    emit "\x7d"
  | .ret none => emit "return;"
  | .ret (some value) => do
    let v ← expr value
    emit ("return " ++ v ++ ";")
  | .brk => emit "break;"
  | .call callee arguments => do
    let f ← expr callee
    let as ← exprs arguments
    emit (f ++ "(" ++ commaSeparated as ++ ");")
  | .print arguments => do
    let as ← exprs arguments
    emit ("console.log(" ++ commaSeparated as ++ ");")
  | .method object m arguments => do
    let o ← expr object
    let as ← exprs arguments
    let call ← methodCall m as
    emit (o ++ "." ++ call ++ ";")

def stmts : List Typed.Stmt → Write Unit
  | [] => return
  | s :: ss => do
    stmt s
    stmts ss

end

end Scriptor.Script

namespace Scriptor.Typed

def Program.script (p : Program) : Except Script.Fault String :=
  ((Script.stmts p.statements).run (.start p.entities)).map fun (_, w) => w.text

end Scriptor.Typed
