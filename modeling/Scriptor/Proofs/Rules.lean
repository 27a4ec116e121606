import Scriptor.Proofs.Trees

namespace Scriptor

/-- The types that an operator takes on either side. -/
def BinaryOp.Takes : BinaryOp → Ty → Prop
  | .or, t | .and, t => t ∈ [.bool, .any]
  | .equals, _ | .notEquals, _ => True
  | .less, t | .lessEquals, t | .greater, t | .greaterEquals, t | .add, t =>
    t ∈ [.int, .float, .string, .any]
  | .subtract, t | .multiply, t | .divide, t | .modulo, t | .power, t => t ∈ [.int, .float, .any]

def BinaryOp.result (op : BinaryOp) (common : Ty) : Ty :=
  match op with
  | .add | .subtract | .multiply | .modulo | .power => common
  | .divide => .float
  | _ => .bool

def Ty.common? (types : List Ty) : Option Ty :=
  types.foldlM Ty.unify .any

namespace Typed

/-- Whether the arguments fit the parameters: one for each parameter unless any number is taken, and
each of an accepted type. -/
structure Fits (variadic : Prop) (parameters : List Ty) (args : List Expr) : Prop where
  arity : ¬variadic → args.length = parameters.length
  accepted : ∀ p ∈ parameters.zip args, p.1.accepts p.2.ty = true ∧ p.2.ty ≠ .void

namespace Expr

/-- Whether the expression names a function that takes any number of arguments. -/
def Variadic (a : Arena) (callee : Expr) : Prop :=
  ∃ id x, callee.entity? = some id ∧ a.get? id = some x ∧ x.isVariadic = true

/-- Whether a call with these arguments has a result of the given type. -/
def Applies (a : Arena) (callee : Expr) (args : List Expr) (result : Ty) : Prop :=
  callee.ty = .any ∧ result = .any ∨
    ∃ parameters, callee.ty = .function parameters result ∧
      Fits (callee.Variadic a) parameters args

/-- What the type of a node has to do with the nodes directly below it. -/
def Rule (a : Arena) : Expr → Prop
  | .literal _ => True
  | .var id ty => ∃ x, a.get? id = some x ∧ x.ty = ty
  | .binary left op right ty =>
    op.Takes left.ty ∧ op.Takes right.ty ∧ ∃ common, left.ty.unify right.ty = some common ∧
      ty = op.result common
  | .unary .negate operand ty => operand.ty ∈ [.int, .float, .any] ∧ ty = operand.ty
  | .unary .not operand ty => operand.ty ∈ [.bool, .any] ∧ ty = .bool
  | .conditional test consequent alternate ty =>
    test.ty ∈ [.bool, .any] ∧ consequent.ty.unify alternate.ty = some ty
  | .call callee args ty => callee.Applies a args ty
  | .subscript indexed index ty =>
    (indexed.ty = .array ty ∨ indexed.ty = .any ∧ ty = .any) ∧ index.ty ∈ [.int, .any]
  | .array elements ty =>
    (∀ e ∈ elements, e.ty ≠ .void) ∧
      ∃ base, Ty.common? (elements.map Expr.ty) = some base ∧ ty = .array base
  | .dict entries ty =>
    (∀ p ∈ entries, p.1.ty ≠ .void ∧ p.2.ty ≠ .void) ∧
      ∃ base, Ty.common? (entries.flatMap fun p => [p.1.ty, p.2.ty]) = some base ∧
        ty = .dict base

mutual

/-- Whether the expression and every expression within it satisfy `P`. -/
def Every (P : Expr → Prop) : Expr → Prop
  | .literal value => P (.literal value)
  | .var id ty => P (.var id ty)
  | .binary left op right ty => P (.binary left op right ty) ∧ left.Every P ∧ right.Every P
  | .unary op operand ty => P (.unary op operand ty) ∧ operand.Every P
  | .conditional test consequent alternate ty =>
    P (.conditional test consequent alternate ty) ∧ test.Every P ∧ consequent.Every P ∧
      alternate.Every P
  | .call callee args ty => P (.call callee args ty) ∧ callee.Every P ∧ EveryOf P args
  | .subscript indexed index ty =>
    P (.subscript indexed index ty) ∧ indexed.Every P ∧ index.Every P
  | .array elements ty => P (.array elements ty) ∧ EveryOf P elements
  | .dict entries ty => P (.dict entries ty) ∧ EveryEntry P entries

def EveryOf (P : Expr → Prop) : List Expr → Prop
  | [] => True
  | e :: es => e.Every P ∧ EveryOf P es

def EveryEntry (P : Expr → Prop) : List (Expr × Expr) → Prop
  | [] => True
  | (key, value) :: ps => key.Every P ∧ value.Every P ∧ EveryEntry P ps

end

def WellTyped (a : Arena) (e : Expr) : Prop := e.Every (Rule a)

def Assignable (a : Arena) : Expr → Prop
  | .subscript _ _ _ => True
  | .var id _ => ∃ x, a.get? id = some x ∧ x.isWritable = true
  | _ => False

end Expr

/-- Whether a method exists on a collection of the given type, and the parameters it takes there. -/
inductive Method.Takes : Method → Ty → List Ty → Prop where
  | add {base : Ty} : Takes .arrayAdd (.array base) [base]
  | addToAny : Takes .arrayAdd .any [.any]
  | insert {base : Ty} : Takes .arrayInsert (.array base) [.int, base]
  | insertIntoAny : Takes .arrayInsert .any [.int, .any]
  | deleteElement {base : Ty} : Takes .arrayDelete (.array base) [.int]
  | set {base : Ty} : Takes .dictSet (.dict base) [base, base]
  | setInAny : Takes .dictSet .any [.any, .any]
  | deleteEntry {base : Ty} : Takes .dictDelete (.dict base) [base]

namespace Stmt

/-- A header of a range loop starts a number: it declares a variable or gives one a new value. -/
def StartsNumber : Stmt → Prop
  | .declaration _ value => value.ty ∈ [.int, .float, .any]
  | .assignment target _ => target.ty ∈ [.int, .float, .any]
  | _ => False

def StepsNumber : Stmt → Prop
  | .assignment _ value => value.ty ∈ [.int, .float, .any]
  | _ => False

/-- Whether a function of the given result type can return the value. Without a function around it
nothing can be returned. -/
def Returns (value : Option Expr) : Option Ty → Prop
  | none => False
  | some result =>
    match value with
    | none => result ∈ [.void, .any]
    | some e => result ≠ .void ∧ e.ty ≠ .void ∧ result.accepts e.ty = true

mutual

/-- Whether the statement obeys the rules within a function of the given result type. -/
def WellTyped (a : Arena) (result : Option Ty) : Stmt → Prop
  | .declaration id value =>
    value.WellTyped a ∧ value.ty ≠ .void ∧
      ∃ name, a.get? id = some (.ofVariable name value.ty)
  | .assignment target value =>
    target.WellTyped a ∧ value.WellTyped a ∧ target.Assignable a ∧ value.ty ≠ .void ∧
      target.ty.accepts value.ty = true
  | .function id parameters body =>
    ∃ name types returned, a.get? id = some (.ofFunction name types returned) ∧
      List.Forall₂ (fun p ty => ∃ name, a.get? p = some (.ofVariable name ty))
        parameters types ∧
      WellTypedAll a (some returned) body
  | .rangeFor init update test body =>
    init.WellTyped a result ∧ init.StartsNumber ∧ update.WellTyped a result ∧
      update.StepsNumber ∧
      test.WellTyped a ∧ test.ty ∈ [.bool, .any] ∧ WellTypedAll a result body
  | .collectionFor id collection body =>
    collection.WellTyped a ∧
      (∃ name ty, collection.ty.element? = some ty ∧ a.get? id = some (.ofVariable name ty)) ∧
      WellTypedAll a result body
  | .ret value => (∀ e ∈ value, e.WellTyped a) ∧ Returns value result
  | .brk => True
  | .call callee args =>
    callee.WellTyped a ∧ (∀ e ∈ args, e.WellTyped a) ∧ ∃ ty, callee.Applies a args ty
  | .print args => ∀ e ∈ args, e.WellTyped a
  | .method object m args =>
    object.WellTyped a ∧ (∀ e ∈ args, e.WellTyped a) ∧
      ∃ parameters, m.Takes object.ty parameters ∧ Fits False parameters args

def WellTypedAll (a : Arena) (result : Option Ty) : List Stmt → Prop
  | [] => True
  | s :: ss => s.WellTyped a result ∧ WellTypedAll a result ss

end

end Stmt

def Program.WellTyped (p : Program) : Prop :=
  Stmt.WellTypedAll p.entities none p.statements

namespace Expr

theorem everyOf_iff {P : Expr → Prop} {es : List Expr} :
    EveryOf P es ↔ ∀ e ∈ es, e.Every P := by
  induction es with
  | nil => exact iff_of_true trivial (List.forall_mem_nil _)
  | cons e es ih => simp only [EveryOf, List.forall_mem_cons, ih]

theorem everyEntry_iff {P : Expr → Prop} {ps : List (Expr × Expr)} :
    EveryEntry P ps ↔ ∀ p ∈ ps, p.1.Every P ∧ p.2.Every P := by
  induction ps with
  | nil => exact iff_of_true trivial (List.forall_mem_nil _)
  | cons p ps ih => simp only [EveryEntry, List.forall_mem_cons, ih, and_assoc]

theorem Every.self {P : Expr → Prop} {e : Expr} (h : e.Every P) : P e := by
  cases e with
  | literal | var => exact h
  | _ => exact h.1

theorem Every.within {P Q : Expr → Prop} {e : Expr} (h : e.Every P)
    (hPQ : ∀ e, e.Every P → Q e) : e.Every Q := by
  induction e with
  | literal value => exact hPQ _ h
  | var id ty => exact hPQ _ h
  | binary left op right ty ihl ihr => exact ⟨hPQ _ h, ihl h.2.1, ihr h.2.2⟩
  | unary op operand ty ih => exact ⟨hPQ _ h, ih h.2⟩
  | conditional test consequent alternate ty iht ihc iha =>
    exact ⟨hPQ _ h, iht h.2.1, ihc h.2.2.1, iha h.2.2.2⟩
  | call callee args ty ihf ihs =>
    refine ⟨hPQ _ h, ihf h.2.1, everyOf_iff.2 ?_⟩
    intro x hx
    exact ihs x hx (everyOf_iff.1 h.2.2 x hx)
  | subscript indexed index ty iha ihi => exact ⟨hPQ _ h, iha h.2.1, ihi h.2.2⟩
  | array elements ty ihs =>
    refine ⟨hPQ _ h, everyOf_iff.2 ?_⟩
    intro x hx
    exact ihs x hx (everyOf_iff.1 h.2 x hx)
  | dict entries ty ihs =>
    refine ⟨hPQ _ h, everyEntry_iff.2 ?_⟩
    intro p hp
    obtain ⟨hk, hv⟩ := everyEntry_iff.1 h.2 p hp
    exact ⟨(ihs p hp).1 hk, (ihs p hp).2 hv⟩

theorem Every.imp {P Q : Expr → Prop} {e : Expr} (h : e.Every P) (hPQ : ∀ e, P e → Q e) :
    e.Every Q :=
  h.within fun e he => hPQ e he.self

end Expr
end Typed
end Scriptor
