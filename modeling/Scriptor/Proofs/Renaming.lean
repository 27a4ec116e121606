import Scriptor.Proofs.Environment
import Scriptor.Proofs.Moving

namespace Scriptor

namespace Expr

mutual

def rename (r : String → String) : Expr → Expr
  | .number text span => .number text span
  | .string value span => .string value span
  | .boolean value span => .boolean value span
  | .symbol name span => .symbol (r name) span
  | .binary left op right span => .binary (left.rename r) op (right.rename r) span
  | .unary op operand span => .unary op (operand.rename r) span
  | .conditional test consequent alternate span =>
    .conditional (test.rename r) (consequent.rename r) (alternate.rename r) span
  | .call callee arguments span => .call (callee.rename r) (renameAll r arguments) span
  | .subscript indexed index span => .subscript (indexed.rename r) (index.rename r) span
  | .member object property propertySpan span =>
    .member (object.rename r) property propertySpan span
  | .array elements span => .array (renameAll r elements) span
  | .dict entries span => .dict (renameEntries r entries) span

def renameAll (r : String → String) : List Expr → List Expr
  | [] => []
  | e :: es => e.rename r :: renameAll r es

def renameEntries (r : String → String) : List (Expr × Expr) → List (Expr × Expr)
  | [] => []
  | (key, value) :: ps => (key.rename r, value.rename r) :: renameEntries r ps

end

variable (r : String → String)

theorem renameAll_eq_map (es : List Expr) : renameAll r es = es.map (rename r) := by
  induction es with
  | nil => rfl
  | cons e es ih => rw [renameAll, ih, List.map_cons]

theorem renameEntries_eq_map (ps : List (Expr × Expr)) :
    renameEntries r ps = ps.map fun p => (p.1.rename r, p.2.rename r) := by
  induction ps with
  | nil => rfl
  | cons p ps ih => rw [renameEntries, ih, List.map_cons]

@[simp] theorem span_rename (e : Expr) : (e.rename r).span = e.span := by
  cases e <;> rfl

end Expr

def Parameter.rename (r : String → String) (p : Parameter) : Parameter :=
  { p with name := r p.name }

def Assignment.rename (r : String → String) (a : Assignment) : Assignment where
  target := a.target.rename r
  operator := a.operator
  value := a.value.rename r
  span := a.span

namespace Stmt

mutual

def rename (r : String → String) : Stmt → Stmt
  | .assignment a => .assignment (a.rename r)
  | .function name parameters result body endName endSpan span =>
    .function (r name) (parameters.map (Parameter.rename r)) result (renameAll r body)
      (r endName) endSpan span
  | .rangeFor init update body test span =>
    .rangeFor (init.rename r) (update.rename r) (renameAll r body) (test.rename r) span
  | .collectionFor name nameSpan collection body span =>
    .collectionFor (r name) nameSpan (collection.rename r) (renameAll r body) span
  | .ret value span => .ret (value.map (Expr.rename r)) span
  | .brk span => .brk span
  | .call callee arguments span => .call (callee.rename r) (arguments.map (Expr.rename r)) span

def renameAll (r : String → String) : List Stmt → List Stmt
  | [] => []
  | s :: ss => s.rename r :: renameAll r ss

end

theorem renameAll_eq_map (r : String → String) (ss : List Stmt) :
    renameAll r ss = ss.map (rename r) := by
  induction ss with
  | nil => rfl
  | cons s ss ih => rw [renameAll, ih, List.map_cons]

end Stmt

def Program.rename (r : String → String) (p : Program) : Program :=
  ⟨p.statements.map (Stmt.rename r)⟩

/-- Built-in entities keep their names. -/
def Entity.rename (r : String → String) (e : Entity) : Entity :=
  { e with name := if e.builtin.isSome then e.name else r e.name }

def Arena.rename (r : String → String) (a : Arena) : Arena :=
  ⟨a.entities.map (Entity.rename r)⟩

def Frame.rename (r : String → String) (f : Frame) : Frame :=
  { f with names := f.names.map fun p => (r p.1, p.2) }

def Scope.rename (r : String → String) (s : Scope) : Scope :=
  ⟨s.frame.rename r, s.outer.map (Frame.rename r)⟩

def Env.rename (r : String → String) (env : Env) : Env :=
  ⟨env.entities.rename r, env.scope.rename r⟩

section

variable {r : String → String}

theorem Entity.rename_id (e : Entity) : e.rename id = e := by
  rw [Entity.rename, id, ite_self]

namespace Arena

theorem rename_id (a : Arena) : a.rename id = a := by
  have hid : Entity.rename id = id := funext Entity.rename_id
  rw [rename, hid, Array.map_id]

@[simp] theorem next_rename (a : Arena) : (a.rename r).next = a.next := by
  rw [next, size, rename, Array.size_map]
  rfl

theorem get?_rename (a : Arena) (id : EntityId) :
    (a.rename r).get? id = (a.get? id).map (Entity.rename r) := by
  rw [get?, rename, Array.getElem?_map]
  rfl

theorem add_rename (a : Arena) (e : Entity) :
    (a.add e).rename r = (a.rename r).add (e.rename r) := by
  rw [add, rename, Array.map_push]
  rfl

end Arena

namespace Scope

theorem declare_rename (s : Scope) (name : String) (id : EntityId) :
    (s.declare name id).rename r = (s.rename r).declare (r name) id := rfl

/-- Distinct names stay distinct, so a new name is found where the old one was. -/
theorem lookup?_rename (hr : Function.Injective r) (s : Scope) (name : String) :
    (s.rename r).lookup? (r name) = s.lookup? name := by
  have hnames (names : List (String × EntityId)) :
      (names.map fun p => (r p.1, p.2)).lookup (r name) = names.lookup name := by
    induction names with
    | nil => rfl
    | cons p names ih =>
      rw [List.map_cons, List.lookup_cons, List.lookup_cons, ih]
      by_cases h : name = p.1
      · rw [beq_iff_eq.2 h, beq_iff_eq.2 (congrArg r h)]
      · rw [beq_false_of_ne h, beq_false_of_ne (hr.ne h)]
  have hframes (fs : List Frame) :
      (fs.map (Frame.rename r)).findSome? (fun f => f.names.lookup (r name)) =
      fs.findSome? fun f => f.names.lookup name := by
    rw [List.findSome?_map]
    exact congrArg (List.findSome? · fs) (funext fun f => hnames f.names)
  exact hframes (s.frame :: s.outer)

end Scope

namespace Env

theorem resolve?_rename (hr : Function.Injective r) (env : Env) (name : String) :
    (env.rename r).resolve? (r name) = (env.resolve? name).map fun p => (p.1, p.2.rename r) := by
  have hlookup : (env.rename r).scope.lookup? (r name) = env.scope.lookup? name :=
    Scope.lookup?_rename hr _ name
  have hget (id : EntityId) : (env.rename r).entities.get? id =
      (env.entities.get? id).map (Entity.rename r) :=
    Arena.get?_rename _ id
  rw [resolve?, resolve?, hlookup]
  cases env.scope.lookup? name with
  | none => rfl
  | some id =>
    simp only [Option.bind_eq_bind, Option.bind_some, hget]
    cases env.entities.get? id <;> rfl

theorem declare_rename (env : Env) {e : Entity} (he : (e.rename r).name = r e.name) :
    (env.declare e).rename r = (env.rename r).declare (e.rename r) := by
  rw [declare, rename, Arena.add_rename, Scope.declare_rename, ← he]
  simp [declare, rename]

theorem initial_rename (hb : ∀ b : Builtin, r b.name = b.name) :
    Env.initial.rename r = Env.initial := by
  have hfold (bs : List Builtin) (env : Env) (h : env.rename r = env) :
      (bs.foldl (fun env b => env.declare (.ofBuiltin b)) env).rename r =
        bs.foldl (fun env b => env.declare (.ofBuiltin b)) env := by
    induction bs generalizing env with
    | nil => exact h
    | cons b bs ih =>
      apply ih
      have hname : ((Entity.ofBuiltin b).rename r).name = r (Entity.ofBuiltin b).name := (hb b).symm
      rw [declare_rename env hname, h]
      rfl
  have hempty : (⟨.empty, .root⟩ : Env).rename r = ⟨.empty, .root⟩ := by
    rw [rename, Arena.rename, Arena.empty, Array.map_empty]
    rfl
  have hchild (env : Env) : ({ env with scope := env.scope.child } : Env).rename r =
      { env.rename r with scope := (env.rename r).scope.child } := rfl
  have hbuiltins : Env.builtins.rename r = Env.builtins :=
    hfold Builtin.all ⟨.empty, .root⟩ hempty
  rw [Env.initial, hchild, hbuiltins]

end Env

end

end Scriptor
