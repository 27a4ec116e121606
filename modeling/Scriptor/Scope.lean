import Scriptor.Entity
import Scriptor.Error

namespace Scriptor

/-- The names declared in one block, and the loop and function around it. -/
structure Frame where
  /-- The latest declaration comes first. -/
  names : List (String × EntityId)
  inLoop : Bool
  function : Option EntityId

structure Scope where
  frame : Frame
  /-- The surrounding frames, innermost first. -/
  outer : List Frame

namespace Scope

def root : Scope := ⟨⟨[], false, none⟩, []⟩

def enter (s : Scope) (inLoop : Bool) (function : Option EntityId) : Scope :=
  ⟨⟨[], inLoop, function⟩, s.frame :: s.outer⟩

def child (s : Scope) : Scope := s.enter s.frame.inLoop s.frame.function

def loop (s : Scope) : Scope := s.enter true s.frame.function

/-- The frame of a function's body. A loop around the function does not count in it. -/
def body (s : Scope) (function : EntityId) : Scope := s.enter false (some function)

def lookup? (s : Scope) (name : String) : Option EntityId :=
  (s.frame :: s.outer).findSome? fun f => f.names.lookup name

def declare (s : Scope) (name : String) (id : EntityId) : Scope :=
  { s with frame := { s.frame with names := (name, id) :: s.frame.names } }

/-- A visible name cannot be declared again. -/
def requireFresh (s : Scope) (name : String) (position : Position) : Except Error Unit :=
  if (s.lookup? name).isSome then .error ⟨.alreadyDeclared name, position⟩ else .ok ()

end Scope

/-- The entities made so far and the names visible now. -/
structure Env where
  entities : Arena
  scope : Scope

namespace Env

def declare (env : Env) (e : Entity) : Env :=
  ⟨env.entities.add e, env.scope.declare e.name env.entities.next⟩

def resolve? (env : Env) (name : String) : Option (EntityId × Entity) := do
  let id ← env.scope.lookup? name
  let e ← env.entities.get? id
  return (id, e)

def builtins : Env :=
  Builtin.all.foldl (fun env b => env.declare (.ofBuiltin b)) ⟨.empty, .root⟩

end Env
end Scriptor
