import Scriptor.Builtin

namespace Scriptor

structure EntityId where
  index : Nat
  deriving DecidableEq

def EntityId.text (id : EntityId) : String := "#" ++ toString id.index

inductive Role where
  | var (readOnly : Bool)
  | function (variadic : Bool)
  deriving DecidableEq

structure Entity where
  name : String
  ty : Ty
  role : Role
  builtin : Option Builtin
  deriving DecidableEq

namespace Entity

def ofVariable (name : String) (ty : Ty) : Entity := ⟨name, ty, .var false, none⟩

def ofFunction (name : String) (parameters : List Ty) (result : Ty) : Entity :=
  ⟨name, .function parameters result, .function false, none⟩

def ofBuiltin (b : Builtin) : Entity :=
  ⟨b.name, b.ty, if b.isConstant then .var true else .function b.isVariadic, some b⟩

def isVariadic (e : Entity) : Bool := e.role = .function true

/-- Only variables of the program can get a new value. -/
def isWritable (e : Entity) : Bool := e.role = .var false

end Entity

/-- All entities of a program, in the order of their declarations. -/
structure Arena where
  entities : Array Entity
  deriving DecidableEq

namespace Arena

def empty : Arena := ⟨#[]⟩

def size (a : Arena) : Nat := a.entities.size

def get? (a : Arena) (id : EntityId) : Option Entity := a.entities[id.index]?

def add (a : Arena) (e : Entity) : Arena := ⟨a.entities.push e⟩

def next (a : Arena) : EntityId := ⟨a.size⟩

end Arena
end Scriptor
