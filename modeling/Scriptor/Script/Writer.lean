import Scriptor.Typed.Basic

namespace Scriptor.Script

/-- What a program must not hold when it is written. A checked program holds none of it. -/
inductive Fault where
  | unknownEntity (id : EntityId)
  | wrongArity (method : Typed.Method)
  /-- A loop header that neither declares nor assigns. -/
  | badHeader
  deriving DecidableEq

structure Writer where
  entities : Arena
  /-- The names given to entities of the program, in the order in which they were first written. -/
  names : List (EntityId × String)
  /-- The number in the latest name. -/
  count : Nat
  lines : Array String
  /-- The depth of the block being written. -/
  indent : Nat

def Writer.start (entities : Arena) : Writer := ⟨entities, [], 0, #[], 0⟩

def Writer.text (w : Writer) : String := "\n".intercalate w.lines.toList

abbrev Write := StateT Writer (Except Fault)

/-- The spelling of an entity in the script. A name is given when it is first written: the entity's
own name with a number, so that no two entities share one. -/
def nameOf (id : EntityId) : Write String := do
  let w ← get
  match w.entities.get? id with
  | none => throw (.unknownEntity id)
  | some e =>
    match e.builtin with
    | some b => return b.target
    | none =>
      match w.names.lookup id with
      | some name => return name
      | none =>
        let count := w.count + 1
        let name := e.name ++ "_" ++ toString count
        set { w with names := w.names ++ [(id, name)], count }
        return name

def indented (depth : Nat) (line : String) : String :=
  String.ofList (List.replicate (2 * depth) ' ') ++ line

def emit (line : String) : Write Unit :=
  modify fun w => { w with lines := w.lines.push (indented w.indent line) }

def deeper (action : Write Unit) : Write Unit := do
  modify fun w => { w with indent := w.indent + 1 }
  action
  modify fun w => { w with indent := w.indent - 1 }

end Scriptor.Script
