import Mathlib.Logic.Equiv.Basic
import Scriptor.Proofs.Renaming
import Scriptor.Proofs.Typing

namespace Scriptor

/-- New names, apart from the built-in ones, and new places. -/
structure Relabeling where
  name : String → String
  injective : Function.Injective name
  builtin : ∀ b : Builtin, name b.name = b.name
  position : Position → Position

def Relabeling.bare : Relabeling := ⟨id, Function.injective_id, fun _ => rfl, fun _ => .nowhere⟩

section Trees

variable (ρ : Relabeling)

def Expr.relabel (e : Expr) : Expr := (e.move ρ.position).rename ρ.name

def Parameter.relabel (p : Parameter) : Parameter := (p.move ρ.position).rename ρ.name

def Assignment.relabel (a : Assignment) : Assignment := (a.move ρ.position).rename ρ.name

def Stmt.relabel (s : Stmt) : Stmt := (s.move ρ.position).rename ρ.name

def Program.relabel (p : Program) : Program := (p.move ρ.position).rename ρ.name

def Env.relabel (env : Env) : Env := env.rename ρ.name

namespace Expr

@[simp] theorem start_relabel (e : Expr) : (e.relabel ρ).start = ρ.position e.start := by
  rw [start, relabel, span_rename, span_move]
  rfl

theorem map_start_relabel (es : List Expr) :
    (es.map (relabel ρ)).map start = (es.map start).map ρ.position := by
  rw [List.map_map, List.map_map]
  exact List.map_congr_left fun e _ => start_relabel ρ e

theorem relabel_symbol (name : String) (span : Span) :
    (symbol name span).relabel ρ = .symbol (ρ.name name) (span.move ρ.position) := rfl

theorem relabel_binary (left right : Expr) (op : BinaryOp) (span : Span) :
    (binary left op right span).relabel ρ = .binary (left.relabel ρ) op (right.relabel ρ)
      (span.move ρ.position) := rfl

theorem relabel_unary (op : UnaryOp) (operand : Expr) (span : Span) :
    (unary op operand span).relabel ρ = .unary op (operand.relabel ρ) (span.move ρ.position) :=
  rfl

theorem relabel_conditional (test consequent alternate : Expr) (span : Span) :
    (conditional test consequent alternate span).relabel ρ =
      .conditional (test.relabel ρ) (consequent.relabel ρ) (alternate.relabel ρ)
        (span.move ρ.position) := rfl

theorem relabel_subscript (indexed index : Expr) (span : Span) :
    (subscript indexed index span).relabel ρ =
      .subscript (indexed.relabel ρ) (index.relabel ρ) (span.move ρ.position) := rfl

theorem relabel_member (object : Expr) (property : String) (propertySpan span : Span) :
    (member object property propertySpan span).relabel ρ =
      .member (object.relabel ρ) property (propertySpan.move ρ.position)
        (span.move ρ.position) := rfl

theorem relabel_call (callee : Expr) (args : List Expr) (span : Span) :
    (call callee args span).relabel ρ = .call (callee.relabel ρ) (args.map (relabel ρ))
      (span.move ρ.position) := by
  rw [relabel, move_call, rename, renameAll_eq_map, List.map_map]
  rfl

theorem relabel_array (elements : List Expr) (span : Span) :
    (array elements span).relabel ρ =
      .array (elements.map (relabel ρ)) (span.move ρ.position) := by
  rw [relabel, move_array, rename, renameAll_eq_map, List.map_map]
  rfl

theorem relabel_dict (entries : List (Expr × Expr)) (span : Span) :
    (dict entries span).relabel ρ =
      .dict (entries.map fun p => (p.1.relabel ρ, p.2.relabel ρ)) (span.move ρ.position) := by
  rw [relabel, move_dict, rename, renameEntries_eq_map, List.map_map]
  rfl

end Expr

namespace Stmt

variable (name : String) (body : List Stmt) (span : Span)

theorem relabel_function (parameters : List Parameter) (result : Option Ascription)
    (endName : String)
    (endSpan : Span) : (function name parameters result body endName endSpan span).relabel ρ =
      .function (ρ.name name) (parameters.map (Parameter.relabel ρ))
        (result.map (Ascription.move ρ.position))
        (body.map (relabel ρ)) (ρ.name endName) (endSpan.move ρ.position)
        (span.move ρ.position) := by
  rw [relabel, move_function, rename, renameAll_eq_map, List.map_map, List.map_map]
  rfl

theorem relabel_rangeFor (init update : Assignment) (test : Expr) :
    (rangeFor init update body test span).relabel ρ =
      .rangeFor (init.relabel ρ) (update.relabel ρ) (body.map (relabel ρ)) (test.relabel ρ)
        (span.move ρ.position) := by
  rw [relabel, move_rangeFor, rename, renameAll_eq_map, List.map_map]
  rfl

theorem relabel_collectionFor (nameSpan : Span) (collection : Expr) :
    (collectionFor name nameSpan collection body span).relabel ρ =
      .collectionFor (ρ.name name) (nameSpan.move ρ.position) (collection.relabel ρ)
        (body.map (relabel ρ)) (span.move ρ.position) := by
  rw [relabel, move_collectionFor, rename, renameAll_eq_map, List.map_map]
  rfl

theorem relabel_ret (value : Option Expr) :
    (ret value span).relabel ρ = .ret (value.map (Expr.relabel ρ)) (span.move ρ.position) := by
  cases value <;> rfl

theorem relabel_call (callee : Expr) (args : List Expr) :
    (call callee args span).relabel ρ =
      .call (callee.relabel ρ) (args.map (Expr.relabel ρ)) (span.move ρ.position) := by
  rw [relabel, move, mapSpans, rename, List.map_map]
  rfl

end Stmt

theorem Ascription.typeOf_move (g : Position → Position) (a : Option Ascription) :
    typeOf (a.map (Ascription.move g)) = typeOf a := by
  cases a <;> rfl

theorem Parameter.ty_relabel (p : Parameter) : (p.relabel ρ).ty = p.ty := by
  cases p with
  | mk name ascription span => cases ascription <;> rfl

end Trees

/-- How the cause of an error is relabeled; `block` says whether the rules on blocks are checked as
well. -/
inductive Relabeling.Carried (ρ : Relabeling) (block : Bool) : Cause → Cause → Prop where
  | same {c : Cause} : c.family ≠ .structural → Carried ρ block c c
  | misplaced {c : Cause} : block = true → Carried ρ block c c
  | mismatched (opened closed : String) : block = true →
      Carried ρ block (.mismatchedBlockName opened closed)
      (.mismatchedBlockName (ρ.name opened) (ρ.name closed))
  | alreadyDeclared (name : String) :
      Carried ρ block (.alreadyDeclared name) (.alreadyDeclared (ρ.name name))
  | notDeclared (name : String) : Carried ρ block (.notDeclared name) (.notDeclared (ρ.name name))
  | notAssignable (name : String) :
      Carried ρ block (.notAssignable name) (.notAssignable (ρ.name name))

/-- Whether the second check yields what the first one does, or fails as it does. -/
inductive Relabeling.Carries (ρ : Relabeling) (block : Bool) {α : Type} (m : α → α) :
    Except Error α → Except Error α → Prop where
  | ok (a : α) : Carries ρ block m (.ok a) (.ok (m a))
  | error {c c' : Cause} (p : Position) : ρ.Carried block c c' →
      Carries ρ block m (.error ⟨c, p⟩) (.error ⟨c', ρ.position p⟩)

namespace Relabeling

open Check

variable {ρ : Relabeling} {block : Bool} {α β : Type} {m : α → α} {m' : β → β}

theorem Carried.name_eq {c c' : Cause} (h : ρ.Carried block c c') : c'.name = c.name := by
  cases h <;> rfl

theorem Carried.family_ne {c c' : Cause} (h : ρ.Carried false c c') :
    c.family ≠ .structural := by
  cases h with
  | same h => exact h
  | misplaced h | mismatched _ _ h => cases h
  | alreadyDeclared | notDeclared | notAssignable => exact Family.noConfusion

theorem Carries.pure (a : α) : ρ.Carries block m (pure a) (pure (m a)) := .ok a

theorem Carries.bind {x y : Except Error α} {f f' : α → Except Error β}
    (h : ρ.Carries block m x y) (hf : ∀ a, ρ.Carries block m' (f a) (f' (m a))) :
    ρ.Carries block m' (x >>= f) (y >>= f') := by
  cases h with
  | ok a => exact hf a
  | error p hc => exact .error p hc

section Rules

theorem carries_require {c c' : Cause} (condition : Bool) (p : Position)
    (h : ρ.Carried block c c') :
    ρ.Carries block id (require condition c p) (require condition c' (ρ.position p)) := by
  cases condition with
  | false => exact .error p h
  | true => exact .ok ()

theorem carries_requireType {cause : String → Cause} (e : Typed.Expr)
    (inClass : Ty → Bool) (p : Position) (h : ∀ found, (cause found).family ≠ .structural) :
    ρ.Carries block id (requireType e inClass cause p)
      (requireType e inClass cause (ρ.position p)) :=
  carries_require _ p (.same (h _))

theorem carries_requireValue (e : Typed.Expr) (p : Position) :
    ρ.Carries block id (requireValue e p) (requireValue e (ρ.position p)) :=
  carries_require _ p (.same (by decide))

theorem carries_requireAssignable (target : Ty) (e : Typed.Expr) (p : Position) :
    ρ.Carries block id (requireAssignable target e p)
      (requireAssignable target e (ρ.position p)) :=
  carries_require _ p (.same Family.noConfusion)

theorem carries_unify (left right : Ty) (p : Position) :
    ρ.Carries block id (unify left right p) (unify left right (ρ.position p)) := by
  rw [unify, unify]
  cases left.unify right with
  | some ty => exact .ok ty
  | none => exact .error p (.same Family.noConfusion)

theorem carries_requireOperand (op : BinaryOp) (e : Typed.Expr) (p : Position) :
    ρ.Carries block id (requireOperand op e p) (requireOperand op e (ρ.position p)) := by
  rw [requireOperand, requireOperand]
  split
  next => exact carries_requireType e _ p fun _ => Family.noConfusion
  next =>
    split
    next => exact carries_requireType e _ p fun _ => Family.noConfusion
    next =>
      split
      next => exact .ok ()
      next => exact carries_requireType e _ p fun _ => Family.noConfusion

theorem carries_binary (op : BinaryOp) (left right : Typed.Expr) (p q : Position) :
    ρ.Carries block id (binary op left right p q)
      (binary op left right (ρ.position p) (ρ.position q)) := by
  apply Carries.bind (carries_requireOperand op left p)
  intro _
  apply Carries.bind (carries_requireOperand op right q)
  intro _
  apply Carries.bind (carries_unify left.ty right.ty q)
  intro operands
  exact .pure _

theorem carries_unary (op : UnaryOp) (operand : Typed.Expr) (p : Position) :
    ρ.Carries block id (unary op operand p) (unary op operand (ρ.position p)) := by
  cases op with
  | negate =>
    exact .bind (carries_requireType operand _ p fun _ => Family.noConfusion) fun _ => .pure _
  | not =>
    exact .bind (carries_requireType operand _ p fun _ => Family.noConfusion) fun _ => .pure _

theorem carries_argumentTypes (parameters : List Ty) (args : List Typed.Expr)
    (starts : List Position) : ρ.Carries block id (argumentTypes parameters args starts)
      (argumentTypes parameters args (starts.map ρ.position)) := by
  induction parameters generalizing args starts with
  | nil => exact .ok ()
  | cons ty parameters ih =>
    cases args with
    | nil => exact .ok ()
    | cons a args =>
      cases starts with
      | nil => exact .ok ()
      | cons start starts =>
        apply Carries.bind (carries_require _ start (.same Family.noConfusion))
        intro _
        exact ih args starts

theorem carries_arguments (parameters : List Ty) (args : List Typed.Expr) (starts : List Position)
    (stop : Position) (variadic : Bool) :
    ρ.Carries block id (arguments parameters args starts stop variadic)
      (arguments parameters args (starts.map ρ.position) (ρ.position stop) variadic) := by
  have hplace : ((starts.map ρ.position)[parameters.length]?.getD (ρ.position stop)) =
      ρ.position (starts[parameters.length]?.getD stop) := by
    rw [List.getElem?_map]
    cases starts[parameters.length]? <;> rfl
  rw [arguments, arguments, hplace]
  split
  next =>
    apply Carries.bind (carries_require _ _ (.same Family.noConfusion))
    intro _
    apply Carries.bind (carries_require _ stop (.same Family.noConfusion))
    intro _
    exact carries_argumentTypes parameters args starts
  next => exact carries_argumentTypes parameters args starts

theorem carries_method (name : String) (object : Ty) (p q : Position) :
    ρ.Carries block id (method name object p q)
      (method name object (ρ.position p) (ρ.position q)) := by
  unfold method
  split
  all_goals first
    | exact .ok _
    | exact .error _ (.same Family.noConfusion)

theorem carries_number (text : String) (p : Position) :
    ρ.Carries block id (number text p) (number text (ρ.position p)) := by
  rw [number, number]
  split
  next => exact .ok _
  next => exact .error p (.same Family.noConfusion)

end Rules

section Expressions

variable (env : Env)

theorem entity_relabel (callee : Typed.Expr) : callee.entity?.bind (env.relabel ρ).entities.get? =
    (callee.entity?.bind env.entities.get?).map (Entity.rename ρ.name) := by
  cases callee.entity? with
  | none => rfl
  | some id => exact Arena.get?_rename env.entities id

theorem carries_callResult (callee : Typed.Expr) (args : List Typed.Expr) (starts : List Position)
    (stop : Position) : ρ.Carries block id (callResult env callee args starts stop)
      (callResult (env.relabel ρ) callee args (starts.map ρ.position) (ρ.position stop)) := by
  have hvariadic : (callee.entity?.bind (env.relabel ρ).entities.get?).any Entity.isVariadic =
      (callee.entity?.bind env.entities.get?).any Entity.isVariadic := by
    rw [entity_relabel, Option.any_map]
    rfl
  rw [callResult, callResult, hvariadic]
  split
  next =>
    apply Carries.bind (carries_arguments _ args starts stop _)
    intro _
    exact .pure _
  next => exact .ok _

variable {env}

theorem carries_checkAll {es : List Expr}
    (h : ∀ e ∈ es, ρ.Carries block id (e.check env) ((e.relabel ρ).check (env.relabel ρ))) :
    ρ.Carries block id (checkAll env es)
      (checkAll (env.relabel ρ) (es.map (Expr.relabel ρ))) := by
  induction es with
  | nil => exact .ok []
  | cons e es ih =>
    rw [List.forall_mem_cons] at h
    apply Carries.bind h.1
    intro a
    apply Carries.bind (ih h.2)
    intro as
    exact .pure _

theorem carries_checkElements {es : List Expr} (ty : Ty)
    (h : ∀ e ∈ es, ρ.Carries block id (e.check env) ((e.relabel ρ).check (env.relabel ρ))) :
    ρ.Carries block id (checkElements env ty es)
      (checkElements (env.relabel ρ) ty (es.map (Expr.relabel ρ))) := by
  induction es generalizing ty with
  | nil => exact .ok ([], ty)
  | cons e es ih =>
    rw [List.forall_mem_cons] at h
    rw [List.map_cons, checkElements, checkElements, Expr.start_relabel]
    apply Carries.bind h.1
    intro a
    apply Carries.bind (carries_requireValue a e.start)
    intro _
    apply Carries.bind (carries_unify ty a.ty e.start)
    intro ty
    apply Carries.bind (ih ty h.2)
    intro as
    exact .pure _

theorem carries_checkEntries {es : List (Expr × Expr)} (ty : Ty)
    (h : ∀ p ∈ es, ρ.Carries block id (p.1.check env)
      ((p.1.relabel ρ).check (env.relabel ρ)) ∧
      ρ.Carries block id (p.2.check env) ((p.2.relabel ρ).check (env.relabel ρ))) :
    ρ.Carries block id (checkEntries env ty es)
      (checkEntries (env.relabel ρ) ty (es.map fun p => (p.1.relabel ρ, p.2.relabel ρ))) := by
  induction es generalizing ty with
  | nil => exact .ok ([], ty)
  | cons p es ih =>
    obtain ⟨key, value⟩ := p
    obtain ⟨⟨hkey, hvalue⟩, hes⟩ := List.forall_mem_cons.1 h
    rw [List.map_cons, checkEntries, checkEntries, Expr.start_relabel, Expr.start_relabel]
    apply Carries.bind hkey
    intro k
    apply Carries.bind hvalue
    intro v
    apply Carries.bind (carries_requireValue k key.start)
    intro _
    apply Carries.bind (carries_requireValue v value.start)
    intro _
    apply Carries.bind (carries_unify ty k.ty key.start)
    intro ty
    apply Carries.bind (carries_unify ty v.ty value.start)
    intro ty
    apply Carries.bind (ih ty hes)
    intro as
    exact .pure _

/-- A name stands for the same entity after both got their new name. -/
theorem resolve?_relabel (name : String) :
    (env.relabel ρ).resolve? (ρ.name name) = (env.resolve? name).map fun p =>
      (p.1, p.2.rename ρ.name) :=
  Env.resolve?_rename ρ.injective env name

theorem carries_check (e : Expr) :
    ρ.Carries block id (e.check env) ((e.relabel ρ).check (env.relabel ρ)) := by
  induction e with
  | number text span => exact carries_number text span.start
  | string value span => exact .ok _
  | boolean value span => exact .ok _
  | symbol name span =>
    rw [Expr.relabel_symbol, Expr.check, Expr.check, resolve?_relabel]
    cases env.resolve? name with
    | some found => exact .ok _
    | none => exact .error _ (.notDeclared name)
  | binary left op right span ihl ihr =>
    rw [Expr.relabel_binary, Expr.check, Expr.check, Expr.start_relabel, Expr.start_relabel]
    apply Carries.bind ihl
    intro l
    apply Carries.bind ihr
    intro r
    exact carries_binary op l r left.start right.start
  | unary op operand span ih =>
    rw [Expr.relabel_unary, Expr.check, Expr.check, Expr.start_relabel]
    apply Carries.bind ih
    intro e
    exact carries_unary op e operand.start
  | conditional test consequent alternate span iht ihc iha =>
    rw [Expr.relabel_conditional, Expr.check, Expr.check, Expr.start_relabel, Expr.start_relabel]
    apply Carries.bind iht
    intro t
    apply Carries.bind (carries_requireType t _ test.start fun _ => Family.noConfusion)
    intro _
    apply Carries.bind ihc
    intro c
    apply Carries.bind iha
    intro a
    apply Carries.bind (carries_unify c.ty a.ty alternate.start)
    intro ty
    exact .pure _
  | call callee args span ihf ihs =>
    rw [Expr.relabel_call, Expr.check, Expr.check, Expr.start_relabel, Expr.map_start_relabel]
    apply Carries.bind ihf
    intro f
    apply Carries.bind (carries_requireType f _ callee.start fun _ => Family.noConfusion)
    intro _
    apply Carries.bind (carries_checkAll ihs)
    intro as
    apply Carries.bind (carries_callResult env f as (args.map Expr.start) span.stop)
    intro ty
    exact .pure _
  | subscript indexed index span iha ihi =>
    rw [Expr.relabel_subscript, Expr.check, Expr.check, Expr.start_relabel, Expr.start_relabel]
    apply Carries.bind iha
    intro a
    apply Carries.bind (carries_requireType a _ indexed.start fun _ => Family.noConfusion)
    intro _
    apply Carries.bind ihi
    intro i
    apply Carries.bind (carries_requireType i _ index.start fun _ => Family.noConfusion)
    intro _
    exact .pure _
  | member object property propertySpan span ih =>
    rw [Expr.relabel_member, Expr.check, Expr.check]
    apply Carries.bind ih
    intro _
    exact .error _ (.same Family.noConfusion)
  | array elements span ihs =>
    rw [Expr.relabel_array, Expr.check, Expr.check]
    apply Carries.bind (carries_checkElements .any ihs)
    intro es
    exact .pure _
  | dict entries span ihs =>
    rw [Expr.relabel_dict, Expr.check, Expr.check]
    apply Carries.bind (carries_checkEntries .any ihs)
    intro es
    exact .pure _

end Expressions

section Statements

variable {env : Env}

theorem unbound?_relabel (e : Expr) :
    (e.relabel ρ).unbound? (env.relabel ρ) = (e.unbound? env).map ρ.name := by
  cases e with
  | symbol name span =>
    rw [Expr.relabel_symbol, Expr.unbound?, Expr.unbound?, resolve?_relabel]
    cases env.resolve? name <;> rfl
  | number | string | boolean | binary | unary | conditional | call | subscript | member
  | array | dict => rfl

theorem next_relabel : (env.relabel ρ).entities.next = env.entities.next := Arena.next_rename _

theorem declare_variable_relabel (name : String) (ty : Ty) :
    (env.declare (.ofVariable name ty)).relabel ρ =
      (env.relabel ρ).declare (.ofVariable (ρ.name name) ty) :=
  Env.declare_rename env rfl

theorem declare_function_relabel (name : String) (parameters : List Ty) (result : Ty) :
    (env.declare (.ofFunction name parameters result)).relabel ρ =
      (env.relabel ρ).declare (.ofFunction (ρ.name name) parameters result) :=
  Env.declare_rename env rfl

theorem carries_checkTarget (e : Expr) :
    ρ.Carries block id (e.checkTarget env) ((e.relabel ρ).checkTarget (env.relabel ρ)) := by
  cases e with
  | symbol name span =>
    rw [Expr.relabel_symbol, Expr.checkTarget, Expr.checkTarget, resolve?_relabel]
    cases env.resolve? name with
    | some found =>
      apply Carries.bind (carries_require _ span.start (.notAssignable name))
      intro _
      exact .pure _
    | none => exact .error _ (.notDeclared name)
  | subscript indexed index span => exact carries_check (.subscript indexed index span)
  | number | string | boolean | binary | unary | conditional | call | member | array | dict =>
    exact .error _ (.same Family.noConfusion)

theorem carries_assignment (a : Assignment) :
    ρ.Carries block (Prod.map id (Env.relabel ρ)) (a.check env)
      ((a.relabel ρ).check (env.relabel ρ)) := by
  obtain ⟨target, operator, value, span⟩ := a
  have hrelabel : (Assignment.mk target operator value span).relabel ρ =
      ⟨target.relabel ρ, operator, value.relabel ρ, span.move ρ.position⟩ := rfl
  cases operator with
  | some op =>
    simp only [hrelabel, Assignment.check, Expr.start_relabel]
    apply Carries.bind (carries_checkTarget target)
    intro t
    apply Carries.bind (carries_check value)
    intro operand
    apply Carries.bind (carries_binary op t operand target.start value.start)
    intro v
    apply Carries.bind (carries_requireAssignable t.ty v value.start)
    intro _
    exact .pure _
  | none =>
    simp only [hrelabel, Assignment.check, Expr.start_relabel, unbound?_relabel]
    apply Carries.bind (carries_check value)
    intro v
    apply Carries.bind (carries_requireValue v value.start)
    intro _
    cases target.unbound? env with
    | some name =>
      simp only [Option.map_some, id, next_relabel, ← declare_variable_relabel]
      exact .pure _
    | none =>
      apply Carries.bind (carries_checkTarget target)
      intro t
      apply Carries.bind (carries_requireAssignable t.ty v value.start)
      intro _
      exact .pure _

theorem carries_rangeHeader (init update : Assignment) (test : Expr) :
    ρ.Carries block (Prod.map id (Env.relabel ρ)) (rangeHeader env init update test)
      (rangeHeader (env.relabel ρ) (init.relabel ρ) (update.relabel ρ) (test.relabel ρ)) := by
  rw [rangeHeader, rangeHeader]
  apply Carries.bind (carries_assignment init)
  rintro ⟨i, env⟩
  have hinit : (init.relabel ρ).value = init.value.relabel ρ := rfl
  have hupdate : (update.relabel ρ).value = update.value.relabel ρ := rfl
  have htarget : (update.relabel ρ).target = update.target.relabel ρ := rfl
  simp only [hinit, hupdate, htarget, Expr.start_relabel, Prod.map, unbound?_relabel]
  apply Carries.bind (carries_require _ init.value.start (.same Family.noConfusion))
  intro _
  cases update.target.unbound? env with
  | some name => exact .error _ (.notDeclared name)
  | none =>
    apply Carries.bind (carries_assignment update)
    rintro ⟨u, env⟩
    apply Carries.bind (carries_require _ update.value.start (.same Family.noConfusion))
    intro _
    apply Carries.bind (carries_check test)
    intro t
    apply Carries.bind (carries_requireType t _ test.start fun _ => Family.noConfusion)
    intro _
    exact .pure _

theorem carries_requireFresh (name : String) (p : Position) :
    ρ.Carries block id (env.scope.requireFresh name p)
      ((env.relabel ρ).scope.requireFresh (ρ.name name) (ρ.position p)) := by
  have hlookup : (env.relabel ρ).scope.lookup? (ρ.name name) = env.scope.lookup? name :=
    Scope.lookup?_rename ρ.injective env.scope name
  rw [Scope.requireFresh, Scope.requireFresh, hlookup]
  split
  next => exact .error p (.alreadyDeclared name)
  next => exact .ok ()

theorem carries_parameters (ps : List Parameter) :
    ρ.Carries block (Prod.map id (Env.relabel ρ)) (parameters env ps)
      (parameters (env.relabel ρ) (ps.map (Parameter.relabel ρ))) := by
  induction ps generalizing env with
  | nil => exact .ok _
  | cons p ps ih =>
    rw [List.map_cons, parameters, parameters, Parameter.ty_relabel]
    apply Carries.bind (carries_requireFresh p.name p.span.start)
    intro _
    have hname : (p.relabel ρ).name = ρ.name p.name := rfl
    rw [hname, ← declare_variable_relabel]
    apply Carries.bind ih
    rintro ⟨ids, inner⟩
    rw [next_relabel]
    exact .pure _

theorem declaredResult_relabel (id : EntityId) :
    declaredResult (env.relabel ρ) id = declaredResult env id := by
  have hty : ((env.relabel ρ).entities.get? id).map Entity.ty =
      (env.entities.get? id).map Entity.ty := by
    have hget : (env.relabel ρ).entities.get? id =
        (env.entities.get? id).map (Entity.rename ρ.name) :=
      Arena.get?_rename env.entities id
    rw [hget, Option.map_map]
    rfl
  rw [declaredResult, declaredResult, hty]

theorem carries_returned (value : Option Expr) (p : Position)
    (h : env.scope.frame.function = none → block = true) :
    ρ.Carries block id (returned env value p)
      (returned (env.relabel ρ) (value.map (Expr.relabel ρ)) (ρ.position p)) := by
  have hfunction : (env.relabel ρ).scope.frame.function = env.scope.frame.function := rfl
  unfold returned
  rw [hfunction]
  cases hf : env.scope.frame.function with
  | none => exact .error p (.misplaced (h hf))
  | some id =>
    cases value with
    | none =>
      simp only [Option.map_none, declaredResult_relabel]
      apply Carries.bind (carries_require _ p (.same Family.noConfusion))
      intro _
      exact .pure _
    | some e =>
      simp only [Option.map_some, declaredResult_relabel, Expr.start_relabel]
      apply Carries.bind (carries_check e)
      intro v
      apply Carries.bind (carries_requireValue v e.start)
      intro _
      apply Carries.bind (carries_require _ e.start (.same Family.noConfusion))
      intro _
      exact .pure _

theorem carries_called (callee : Expr) (args : List Expr) (stop : Position) :
    ρ.Carries block id (called env callee args stop)
      (called (env.relabel ρ) (callee.relabel ρ) (args.map (Expr.relabel ρ))
        (ρ.position stop)) := by
  have hbuiltin (f : Typed.Expr) :
      (f.entity?.bind (env.relabel ρ).entities.get?).bind Entity.builtin =
      (f.entity?.bind env.entities.get?).bind Entity.builtin := by
    rw [entity_relabel, Option.bind_map]
    rfl
  have hplain : ρ.Carries block (id : Typed.Stmt → Typed.Stmt)
      (do let f ← callee.check env
          requireType f Ty.isFunction .expectedFunction callee.start
          let as ← checkAll env args
          let _ ← callResult env f as (args.map Expr.start) stop
          let builtin := (f.entity?.bind env.entities.get?).bind Entity.builtin
          return if builtin = some .print then .print as else .call f as)
      (do let f ← (callee.relabel ρ).check (env.relabel ρ)
          requireType f Ty.isFunction .expectedFunction (callee.relabel ρ).start
          let as ← checkAll (env.relabel ρ) (args.map (Expr.relabel ρ))
          let _ ← callResult (env.relabel ρ) f as ((args.map (Expr.relabel ρ)).map Expr.start)
            (ρ.position stop)
          let builtin := (f.entity?.bind (env.relabel ρ).entities.get?).bind Entity.builtin
          return if builtin = some .print then .print as else .call f as) := by
    simp only [hbuiltin, Expr.start_relabel, Expr.map_start_relabel]
    apply Carries.bind (carries_check callee)
    intro f
    apply Carries.bind (carries_requireType f _ callee.start fun _ => Family.noConfusion)
    intro _
    apply Carries.bind (carries_checkAll fun e _ => carries_check e)
    intro as
    apply Carries.bind (carries_callResult env f as (args.map Expr.start) stop)
    intro _
    exact .pure _
  cases callee with
  | member object property propertySpan span =>
    rw [Expr.relabel_member, called, called, Expr.start_relabel, Expr.map_start_relabel]
    apply Carries.bind (carries_check object)
    intro o
    apply Carries.bind (carries_method property o.ty object.start propertySpan.start)
    intro m
    apply Carries.bind (carries_checkAll fun e _ => carries_check e)
    intro as
    apply Carries.bind
      (carries_arguments (methodParameters m o.ty) as (args.map Expr.start) stop false)
    intro _
    exact .pure _
  | number | string | boolean | symbol | binary | unary | conditional | call | subscript | array
  | dict => exact hplain

mutual

theorem carries_stmt : (s : Stmt) → (env : Env) →
    ρ.Carries true (Prod.map id (Env.relabel ρ)) (s.check env)
      ((s.relabel ρ).check (env.relabel ρ))
  | .assignment a, env => carries_assignment a
  | .function name params result body endName endSpan span, env => by
    have hclosing : decide (ρ.name endName = ρ.name name) = decide (endName = name) :=
      decide_eq_decide.2 ρ.injective.eq_iff
    have htypes : (params.map (Parameter.relabel ρ)).map Parameter.ty =
        params.map Parameter.ty := by
      rw [List.map_map]
      exact List.map_congr_left fun p _ => p.ty_relabel ρ
    rw [Stmt.relabel_function, Stmt.check, Stmt.check, hclosing, htypes, Ascription.typeOf_move]
    apply Carries.bind (carries_require _ endSpan.start (.mismatched name endName rfl))
    intro _
    apply Carries.bind (carries_requireFresh name span.start)
    intro _
    simp only [next_relabel, ← declare_function_relabel]
    apply Carries.bind (carries_parameters params)
    rintro ⟨ids, inner⟩
    apply Carries.bind (carries_block body inner)
    rintro ⟨b, inner⟩
    exact .pure _
  | .rangeFor init update body test span, env => by
    rw [Stmt.relabel_rangeFor, Stmt.check, Stmt.check]
    apply Carries.bind (carries_rangeHeader init update test)
    rintro ⟨⟨i, u, t⟩, inner⟩
    apply Carries.bind (carries_block body inner)
    rintro ⟨b, inner⟩
    exact .pure _
  | .collectionFor name nameSpan collection body span, env => by
    rw [Stmt.relabel_collectionFor, Stmt.check, Stmt.check, Expr.start_relabel]
    apply Carries.bind (carries_check collection)
    intro c
    dsimp only [id]
    cases c.ty.element? with
    | none => exact .error _ (.same Family.noConfusion)
    | some ty =>
      have hdeclare :
          (Env.declare ⟨env.entities, env.scope.loop⟩ (.ofVariable name ty)).relabel ρ =
          Env.declare ⟨(env.relabel ρ).entities, (env.relabel ρ).scope.loop⟩
          (.ofVariable (ρ.name name) ty) :=
        declare_variable_relabel name ty
      simp only [next_relabel, ← hdeclare]
      apply Carries.bind (carries_requireFresh name nameSpan.start)
      intro _
      apply Carries.bind (carries_block body _)
      rintro ⟨b, inner⟩
      exact .pure _
  | .ret value span, env => by
    rw [Stmt.relabel_ret, Stmt.check, Stmt.check]
    apply Carries.bind (carries_returned value span.start fun _ => rfl)
    intro s
    exact .pure _
  | .brk span, env => by
    apply Carries.bind (carries_require env.scope.frame.inLoop span.start (.misplaced rfl))
    intro _
    exact .pure _
  | .call callee args span, env => by
    rw [Stmt.relabel_call, Stmt.check, Stmt.check]
    apply Carries.bind (carries_called callee args span.stop)
    intro s
    exact .pure _

theorem carries_block : (ss : List Stmt) → (env : Env) →
    ρ.Carries true (Prod.map id (Env.relabel ρ)) (checkBlock env ss)
      (checkBlock (env.relabel ρ) (ss.map (Stmt.relabel ρ)))
  | [], env => .ok _
  | s :: ss, env => by
    rw [List.map_cons, checkBlock, checkBlock]
    apply Carries.bind (carries_stmt s env)
    rintro ⟨t, env⟩
    apply Carries.bind (carries_block ss env)
    rintro ⟨ts, env⟩
    exact .pure _

end

theorem carries_program (p : Program) :
    ρ.Carries true (fun t => ⟨t.statements, t.entities.rename ρ.name⟩) p.check
      (p.relabel ρ).check := by
  have hstatements : (p.relabel ρ).statements = p.statements.map (Stmt.relabel ρ) := List.map_map
  have hinitial : Env.initial.relabel ρ = Env.initial := Env.initial_rename ρ.builtin
  have hblock := carries_block (ρ := ρ) p.statements .initial
  rw [hinitial] at hblock
  rw [Program.check, Program.check, hstatements]
  apply Carries.bind hblock
  rintro ⟨statements, env⟩
  exact .pure _

end Statements

end Relabeling

/-- Renaming a program gives the same result with the entities of the program renamed, or the same
error at the same place. -/
theorem Program.check_rename {r : String → String} (hr : Function.Injective r)
    (hb : ∀ b : Builtin, r b.name = b.name) (p : Program) :
    ((∃ t, (p.rename r).check = .ok t) ↔ ∃ t, p.check = .ok t) ∧
    (∀ t, p.check = .ok t →
      (p.rename r).check = .ok ⟨t.statements, t.entities.rename r⟩) ∧
    ∀ e, p.check = .error e →
      ∃ c, c.name = e.cause.name ∧ (p.rename r).check = .error ⟨c, e.position⟩ := by
  have hcarries := Relabeling.carries_program (ρ := ⟨r, hr, hb, id⟩) p
  have hrelabel : p.relabel ⟨r, hr, hb, id⟩ = p.rename r := by
    rw [relabel, Program.move_id]
  rw [hrelabel] at hcarries
  generalize p.check = x, (p.rename r).check = y at hcarries
  cases hcarries with
  | ok t => simp
  | @error c c' position hc => simp [hc.name_eq]

theorem Program.check_rename_counting :
    ∃ t, (Program.counting (.empty .nowhere)).check = .ok t ∧
      ((Program.counting (.empty .nowhere)).rename (Equiv.swap "x" "i")).check =
        .ok ⟨t.statements, t.entities.rename (Equiv.swap "x" "i")⟩ := by
  have hbuiltin (b : Builtin) : Equiv.swap "x" "i" b.name = b.name := by
    cases b <;> decide
  obtain ⟨t, ht, -⟩ := Program.check_counting
  exact ⟨t, ht, (Program.check_rename (Equiv.swap "x" "i").injective hbuiltin _).2.1 t ht⟩

end Scriptor
