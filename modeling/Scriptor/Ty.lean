namespace Scriptor

/-- `any` stands for a type that is not known: it is accepted everywhere and gives way to every
other type. -/
inductive Ty where
  | int
  | float
  | string
  | bool
  | void
  | any
  | array (base : Ty)
  /-- Keys and values have one type. -/
  | dict (base : Ty)
  | function (parameters : List Ty) (result : Ty)

namespace Ty

mutual

def same : Ty → Ty → Bool
  | .int, .int | .float, .float | .string, .string | .bool, .bool | .void, .void | .any, .any =>
    true
  | .array a, .array b | .dict a, .dict b => same a b
  | .function ps a, .function qs b => sameAll ps qs && same a b
  | _, _ => false

def sameAll : List Ty → List Ty → Bool
  | [], [] => true
  | a :: as, b :: bs => same a b && sameAll as bs
  | _, _ => false

end

mutual

theorem same_iff : (a b : Ty) → (same a b = true ↔ a = b)
  | .int, b | .float, b | .string, b | .bool, b | .void, b | .any, b => by cases b <;> simp [same]
  | .array a, b => by cases b <;> simp [same, same_iff a]
  | .dict a, b => by cases b <;> simp [same, same_iff a]
  | .function ps a, b => by cases b <;> simp [same, same_iff a, sameAll_iff ps]

theorem sameAll_iff : (as bs : List Ty) → (sameAll as bs = true ↔ as = bs)
  | [], bs => by cases bs <;> simp [sameAll]
  | a :: as, bs => by cases bs <;> simp [sameAll, same_iff a, sameAll_iff as]

end

instance : DecidableEq Ty := fun a b => decidable_of_iff _ (same_iff a b)

def isNumeric : Ty → Bool
  | .int | .float | .any => true
  | _ => false

def isBoolean : Ty → Bool
  | .bool | .any => true
  | _ => false

def isInteger : Ty → Bool
  | .int | .any => true
  | _ => false

def isNumericOrString (t : Ty) : Bool :=
  t.isNumeric || t = .string

def isArray : Ty → Bool
  | .array _ | .any => true
  | _ => false

def isCollection : Ty → Bool
  | .array _ | .dict _ | .any => true
  | _ => false

def isFunction : Ty → Bool
  | .function _ _ | .any => true
  | _ => false

/-- Whether a value of the second type may stand where the first is expected. -/
def accepts : Ty → Ty → Bool
  | .any, _ | _, .any => true
  | .array a, .array b | .dict a, .dict b => accepts a b
  | a, b => a = b

/-- The type that two operands have in common. -/
def unify : Ty → Ty → Option Ty
  | .any, b => some b
  | a, .any => some a
  | .array a, .array b => (unify a b).map .array
  | .dict a, .dict b => (unify a b).map .dict
  | a, b => if a = b then some a else none

/-- The type of the variable of a loop over a collection; a dictionary yields pairs. -/
def element? : Ty → Option Ty
  | .array base => some base
  | .dict base => some (.array base)
  | .any => some .any
  | _ => none

mutual

def text : Ty → String
  | .int => "int"
  | .float => "float"
  | .string => "string"
  | .bool => "bool"
  | .void => "void"
  | .any => "any"
  | .array base => "[" ++ base.text ++ "]"
  | .dict base => "<<" ++ base.text ++ ">>"
  | .function parameters result =>
    "(" ++ ", ".intercalate (texts parameters) ++ ") -> " ++ result.text

def texts : List Ty → List String
  | [] => []
  | t :: ts => t.text :: texts ts

end

def ofName? : String → Option Ty
  | "int" => some .int
  | "float" => some .float
  | "string" => some .string
  | "bool" => some .bool
  | "void" => some .void
  | "any" => some .any
  | _ => none

end Ty
end Scriptor
