import Mathlib.Data.Fintype.EquivFin
import Scriptor.Proofs.Equivariance
import Scriptor.Proofs.Scoping

namespace Scriptor

/-- What can stand around a statement. -/
inductive Layer where
  | function
  | loop
  deriving DecidableEq

namespace Typed

def Expr.Stores (a : Arena) : Expr → Prop
  | .subscript _ _ _ => True
  | .var id _ => ∃ x, a.get? id = some x ∧ x.isWritable = true ∧ x.builtin = none
  | _ => False

theorem Expr.Stores.simplify {a : Arena} {e : Expr} (h : e.Stores a) : e.simplify.Stores a := by
  cases e with
  | subscript => exact trivial
  | var => exact h
  | _ => exact h.elim

namespace Stmt

variable {a : Arena} {nesting : List Layer}

mutual

/-- Whether the statement can stand in the given functions and loops, the innermost first. -/
def Nested (a : Arena) (nesting : List Layer) : Stmt → Prop
  | .declaration _ _ => True
  | .assignment target _ => target.Stores a
  | .function _ _ body => NestedAll a (.function :: nesting) body
  | .rangeFor init update _ body =>
    init.Nested a nesting ∧ update.Nested a nesting ∧ NestedAll a (.loop :: nesting) body
  | .collectionFor _ _ body => NestedAll a (.loop :: nesting) body
  | .ret _ => .function ∈ nesting
  | .brk => nesting.head? = some .loop
  | .call _ _ => True
  | .print _ => True
  | .method _ _ _ => True

def NestedAll (a : Arena) (nesting : List Layer) : List Stmt → Prop
  | [] => True
  | s :: ss => s.Nested a nesting ∧ NestedAll a nesting ss

end

theorem Nested.simplifyHeader {s : Stmt} (h : s.Nested a nesting) :
    s.simplifyHeader.Nested a nesting := by
  cases s with
  | assignment target value => exact Expr.Stores.simplify h
  | _ => exact h

mutual

theorem Nested.simplify? :
    (s : Stmt) → {nesting : List Layer} → {t : Stmt} → s.Nested a nesting →
    s.simplify? = some t → t.Nested a nesting
  | .declaration _ _, _, _, _, ht => by
    cases ht
    exact trivial
  | .assignment target value, _, _, h, ht => by
    rw [Stmt.simplify?, Option.ite_none_left_eq_some] at ht
    cases ht.2
    exact Expr.Stores.simplify h
  | .function _ _ body, _, _, h, ht => by
    cases ht
    exact nestedAll_simplifyAll body h
  | .rangeFor _ _ _ body, _, _, ⟨hi, hu, hb⟩, ht => by
    rw [Stmt.simplify?] at ht
    split at ht
    next =>
      cases remains?_eq_some ht
      exact hi.simplifyHeader
    next =>
      cases ht
      exact ⟨hi.simplifyHeader, hu.simplifyHeader, nestedAll_simplifyAll body hb⟩
  | .collectionFor _ _ body, _, _, h, ht => by
    cases ht
    exact nestedAll_simplifyAll body h
  | .ret _, _, _, h, ht => by
    cases ht
    exact h
  | .brk, _, _, h, ht => by
    cases ht
    exact h
  | .call _ _, _, _, _, ht => by
    cases ht
    exact trivial
  | .print _, _, _, _, ht => by
    cases ht
    exact trivial
  | .method _ _ _, _, _, _, ht => by
    cases ht
    exact trivial

/-- A loop that is dropped takes its body along, and the assignment that it leaves stores where its
header did. -/
theorem nestedAll_simplifyAll :
    (ss : List Stmt) → {nesting : List Layer} → NestedAll a nesting ss →
    NestedAll a nesting (simplifyAll ss)
  | [], _, _ => trivial
  | s :: ss, _, ⟨hs, hss⟩ => by
    rw [simplifyAll]
    split
    next t ht => exact ⟨Nested.simplify? s hs ht, nestedAll_simplifyAll ss hss⟩
    next => exact nestedAll_simplifyAll ss hss

end

end Stmt

def Program.Nested (p : Program) : Prop := Stmt.NestedAll p.entities [] p.statements

end Typed

/-- Whether the current frame tells the functions and loops around it. -/
structure Env.Within (nesting : List Layer) (env : Env) : Prop where
  inLoop : env.scope.frame.inLoop = true ↔ nesting.head? = some .loop
  function : env.scope.frame.function.isSome = true ↔ .function ∈ nesting

section Checking

variable {env env' : Env} {nesting : List Layer} {a : Arena}

theorem Env.initial_within : Env.initial.Within [] where
  inLoop := iff_of_false Bool.false_ne_true nofun
  function := iff_of_false Bool.false_ne_true List.not_mem_nil

theorem Env.Within.follows (h : env.Within nesting) (hf : env.Follows env') :
    env'.Within nesting where
  inLoop := by rw [hf.inLoop, h.inLoop]
  function := by rw [hf.function, h.function]

/-- The loops around a function do not count in it. -/
theorem Env.within_parametersOf (env : Env) (nesting : List Layer) (f : Entity) :
    (env.parametersOf f).Within (.function :: nesting) where
  inLoop := iff_of_false Bool.false_ne_true nofun
  function := iff_of_true rfl List.mem_cons_self

theorem Env.Within.loop (h : env.Within nesting) : env.inLoop.Within (.loop :: nesting) where
  inLoop := iff_of_true rfl rfl
  function := by
    rw [List.mem_cons, or_iff_right Layer.noConfusion]
    exact h.function

theorem Arena.builtin_eq_none {id : EntityId} {x : Entity} (ha : Env.initial.entities.Grows a)
    (hx : a.get? id = some x) (hw : x.isWritable = true) : x.builtin = none := by
  by_contra hb
  have hall : ∀ i < Env.initial.entities.size, (Env.initial.entities.get? ⟨i⟩).all fun e =>
      !e.isWritable := by
    decide +kernel
  have hi := ha.get?_of_builtin hx hb
  have h := hall id.index (Arena.lt_size_iff.2 ⟨x, hi⟩)
  rw [hi, Option.all_some, hw] at h
  cases h

theorem Typed.Expr.Assignable.stores {e : Typed.Expr} (ha : Env.initial.entities.Grows a)
    (h : e.Assignable a) : e.Stores a := by
  cases e with
  | subscript => exact trivial
  | var id ty =>
    obtain ⟨x, hx, hw⟩ := h
    exact ⟨x, hx, hw, Arena.builtin_eq_none ha hx hw⟩
  | _ => exact h

theorem Assignment.Generation.nested {s : Assignment} {t : Typed.Stmt}
    (ha : Env.initial.entities.Grows a)
    (h : s.Generation env t env') (hg : env'.entities.Grows a) : t.Nested a nesting := by
  cases h with
  | declares => exact trivial
  | assigns _ _ hw => exact (hw.grow hg).stores ha
  | computes _ _ hw => exact (hw.grow hg).stores ha

mutual

theorem Stmt.check_nested (ha : Env.initial.entities.Grows a) :
    (s : Stmt) → {env env' : Env} → {t : Typed.Stmt} →
    {nesting : List Layer} → env.Within nesting → s.check env = .ok (t, env') →
    env'.entities.Grows a →
    t.Nested a nesting
  | .assignment _, _, _, _, _, _, h, hg => by
    cases Stmt.check_generation h with
    | assignment hs => exact hs.nested ha hg
  | .function _ _ _ body _ _ _, env, _, _, nesting, _, h, hg => by
    cases Stmt.check_generation h with
    | function hn hps hb =>
      exact checkBlock_nested ha body
        ((env.within_parametersOf nesting _).follows hps.follows) hb hg
  | .rangeFor _ _ body _ _, _, _, _, _, hw, h, hg => by
    cases Stmt.check_generation h with
    | rangeFor hi his hu hus ht htb hb =>
      have hlast := (checkBlock_follows body hb).grows.trans hg
      exact ⟨hi.nested ha hlast, hu.nested ha hlast,
        checkBlock_nested ha body (hw.loop.follows hi.follows) hb hg⟩
  | .collectionFor _ _ _ body _, _, _, _, _, hw, h, hg => by
    cases Stmt.check_generation h with
    | collectionFor hc hty hn hb =>
      exact checkBlock_nested ha body (hw.loop.follows (.declare _ rfl)) hb hg
  | .ret _ _, env, _, _, _, hw, h, _ => by
    cases Stmt.check_generation h with
    | ret hv hr =>
      -- outside of functions there is no result type that a value could have
      refine hw.function.1 ?_
      rw [Env.result?] at hr
      cases hf : env.scope.frame.function with
      | none =>
        rw [hf] at hr
        exact hr.elim
      | some id => rfl
  | .brk _, _, _, _, _, hw, h, _ => by
    cases Stmt.check_generation h with
    | brk hl => exact hw.inLoop.1 hl
  | .call _ _ _, _, _, _, _, _, h, _ => by
    cases Stmt.check_generation h with
    | call => exact trivial
    | print => exact trivial
    | method => exact trivial

theorem checkBlock_nested (ha : Env.initial.entities.Grows a) :
    (ss : List Stmt) → {env env' : Env} →
    {ts : List Typed.Stmt} →
    {nesting : List Layer} → env.Within nesting → checkBlock env ss = .ok (ts, env') →
    env'.entities.Grows a → Typed.Stmt.NestedAll a nesting ts
  | [], _, _, _, _, _, h, _ => by
    cases h
    exact trivial
  | s :: ss, _, _, _, _, hw, h, hg => by
    obtain ⟨t, rest, next, hs, hss, rfl⟩ := checkBlock_cons h
    have hnext := s.check_follows hs
    exact ⟨s.check_nested ha hw hs ((checkBlock_follows ss hss).grows.trans hg),
      checkBlock_nested ha ss (hw.follows hnext) hss hg⟩

end

theorem Program.nested_of_check {p : Program} {t : Typed.Program} (h : p.check = .ok t) :
    t.Nested := by
  obtain ⟨env, hss, he⟩ := Program.check_generation h
  rw [Typed.Program.Nested, he]
  exact checkBlock_nested (checkBlock_follows _ hss).grows p.statements Env.initial_within hss
    (.refl _)

end Checking

/-- Whether a check fails for the given reason, at any place. -/
def Check.FailsFor {α : Type} (c : Cause) (x : Except Error α) : Prop :=
  ∃ position, x = .error ⟨c, position⟩

/-- What a statement opens around its body when its header is accepted, and the environment of the
body. -/
inductive Stmt.Opens (env : Env) : Stmt → Layer → Env → List Stmt → Prop where
  | function {name : String} {params : List Parameter} {result : Option Ascription}
      {body : List Stmt} {endSpan span : Span} {ids : List EntityId} {inner : Env} :
      env.scope.lookup? name = none →
      Check.parameters
        (env.parametersOf (.ofFunction name (params.map Parameter.ty) (Ascription.typeOf result)))
        params = .ok (ids, inner) →
      Opens env (.function name params result body name endSpan span) .function inner body
  | rangeFor {init update : Assignment} {body : List Stmt} {test : Expr} {span : Span}
      {header : Typed.Stmt × Typed.Stmt × Typed.Expr} {inner : Env} :
      Check.rangeHeader env.inLoop init update test = .ok (header, inner) →
      Opens env (.rangeFor init update body test span) .loop inner body
  | collectionFor {name : String} {nameSpan : Span} {collection : Expr}
      {body : List Stmt} {span : Span} {c : Typed.Expr} {ty : Ty} :
      collection.check env = .ok c → c.ty.element? = some ty → env.scope.lookup? name = none →
      Opens env (.collectionFor name nameSpan collection body span) .loop
        (env.inLoop.declare (.ofVariable name ty)) body

/-- How a statement offends against the rules on blocks by itself. -/
inductive Stmt.Offends (env : Env) : Stmt → Error → Prop where
  | brk {span : Span} :
      env.scope.frame.inLoop = false → Offends env (.brk span) ⟨.breakOutsideLoop, span.start⟩
  | ret {value : Option Expr} {span : Span} : env.scope.frame.function = none →
      Offends env (.ret value span) ⟨.returnOutsideFunction, span.start⟩
  | closing {name endName : String} {params : List Parameter} {result : Option Ascription}
      {body : List Stmt} {endSpan span : Span} : endName ≠ name →
      Offends env (.function name params result body endName endSpan span)
        ⟨.mismatchedBlockName name endName, endSpan.start⟩

/-- Checking the statements gets to `s`, in the environment `last`, through what stands around it
there. -/
inductive Check.Reaches (s : Stmt) (inside : List Layer) (last : Env) :
    List Layer → Env → List Stmt → Prop where
  | here {ss : List Stmt} : Reaches s inside last inside last (s :: ss)
  | next {nesting : List Layer} {env env' : Env} {s' : Stmt} {ss : List Stmt} {t : Typed.Stmt} :
      s'.check env = .ok (t, env') → Reaches s inside last nesting env' ss →
      Reaches s inside last nesting env (s' :: ss)
  | body {nesting : List Layer} {env inner : Env} {layer : Layer} {s' : Stmt}
      {ss body : List Stmt} :
      s'.Opens env layer inner body → Reaches s inside last (layer :: nesting) inner body →
      Reaches s inside last nesting env (s' :: ss)

def Program.Reaches (p : Program) (s : Stmt) (nesting : List Layer) (env : Env) : Prop :=
  Check.Reaches s nesting env [] .initial p.statements

section Rejection

open Check

variable {env last : Env} {nesting inside : List Layer} {s : Stmt} {e : Error}

theorem Relabeling.family_ne_of_carries {α : Type} {m : α → α} {x y : Except Error α}
    (h : Relabeling.bare.Carries false m x y) (hx : x = .error e) :
    e.cause.family ≠ .structural := by
  cases h with
  | ok a => cases hx
  | error p hc =>
    cases hx
    exact hc.family_ne

namespace Stmt

variable {layer : Layer} {inner : Env} {body : List Stmt}

theorem Opens.within (h : s.Opens env layer inner body) (hw : env.Within nesting) :
    inner.Within (layer :: nesting) := by
  cases h with
  | function _ hps =>
    exact (env.within_parametersOf nesting _).follows (Check.parameters_generation hps).follows
  | @rangeFor _ _ _ _ _ header _ hheader =>
    obtain ⟨i, u, t⟩ := header
    exact hw.loop.follows (Check.rangeHeader_generation hheader).1.follows
  | collectionFor => exact hw.loop.follows (.declare _ rfl)

/-- Nothing is left to check when the body of a statement is rejected. -/
theorem Opens.check_eq_error (h : s.Opens env layer inner body)
    (hb : checkBlock inner body = .error e) : s.check env = .error e := by
  cases h with
  | function hn hps =>
    refine bind_eq_error_iff.2 (.inr ⟨(), require_eq_ok.2 (decide_eq_true rfl), ?_⟩)
    refine bind_eq_error_iff.2 (.inr ⟨(), Scope.requireFresh_eq_ok.2 hn, ?_⟩)
    refine bind_eq_error_iff.2 (.inr ⟨_, hps, ?_⟩)
    exact bind_eq_error_iff.2 (.inl hb)
  | rangeFor hheader =>
    refine bind_eq_error_iff.2 (.inr ⟨_, hheader, ?_⟩)
    exact bind_eq_error_iff.2 (.inl hb)
  | @collectionFor _ _ _ _ _ c ty hc hty hn =>
    refine bind_eq_error_iff.2 (.inr ⟨c, hc, ?_⟩)
    rw [hty]
    refine bind_eq_error_iff.2 (.inr ⟨(), Scope.requireFresh_eq_ok.2 ?_, ?_⟩)
    · rw [Scope.loop, Scope.lookup?_enter, hn]
    · exact bind_eq_error_iff.2 (.inl hb)

theorem Opens.sizeOf_lt (h : s.Opens env layer inner body) : sizeOf body < sizeOf s := by
  cases h <;> simp <;> omega

theorem Offends.check_eq_error (h : s.Offends env e) : s.check env = .error e := by
  cases h with
  | brk hl => exact bind_eq_error_iff.2 (.inl (require_eq_error.2 ⟨hl, rfl⟩))
  | ret hf =>
    refine bind_eq_error_iff.2 (.inl ?_)
    unfold returned
    rw [hf]
  | closing hn =>
    exact bind_eq_error_iff.2 (.inl (require_eq_error.2 ⟨decide_eq_false hn, rfl⟩))

/-- A statement offends by itself or in its body: its expressions cannot. -/
theorem check_eq_structural_error (h : s.check env = .error e) (he : e.cause.family = .structural) :
    s.Offends env e ∨ ∃ layer inner body, s.Opens env layer inner body ∧
    checkBlock inner body = .error e := by
  cases s with
  | assignment a =>
    exact absurd he (Relabeling.family_ne_of_carries (Relabeling.carries_assignment a) h)
  | function name params result body endName endSpan span =>
    rcases bind_eq_error_iff.1 h with h | ⟨_, hname, hrest⟩
    · obtain ⟨hname, rfl⟩ := require_eq_error.1 h
      exact .inl (.closing (of_decide_eq_false hname))
    obtain rfl := of_decide_eq_true (require_eq_ok.1 hname)
    rcases bind_eq_error_iff.1 hrest with h | ⟨_, hfresh, h⟩
    · exact absurd he
        (Relabeling.family_ne_of_carries (Relabeling.carries_requireFresh _ span.start) h)
    rcases bind_eq_error_iff.1 h with h | ⟨⟨ids, inner⟩, hps, h⟩
    · exact absurd he (Relabeling.family_ne_of_carries (Relabeling.carries_parameters params) h)
    rcases bind_eq_error_iff.1 h with h | ⟨_, _, h⟩
    · exact .inr ⟨_, _, body, .function (Scope.requireFresh_eq_ok.1 hfresh) hps, h⟩
    · cases h
  | rangeFor init update body test span =>
    rcases bind_eq_error_iff.1 h with h | ⟨⟨header, inner⟩, hheader, h⟩
    · exact absurd he
        (Relabeling.family_ne_of_carries (Relabeling.carries_rangeHeader init update test) h)
    rcases bind_eq_error_iff.1 h with h | ⟨_, _, h⟩
    · exact .inr ⟨_, _, body, .rangeFor hheader, h⟩
    · cases h
  | collectionFor name nameSpan collection body span =>
    rcases bind_eq_error_iff.1 h with h | ⟨c, hc, h⟩
    · exact absurd he (Relabeling.family_ne_of_carries (Relabeling.carries_check collection) h)
    split at h
    next =>
      cases h
      cases he
    next ty hty =>
      rcases bind_eq_error_iff.1 h with h | ⟨_, hfresh, h⟩
      · have hfresh : env.inLoop.scope.requireFresh name nameSpan.start = .error e := h
        exact absurd he
          (Relabeling.family_ne_of_carries (Relabeling.carries_requireFresh name _) hfresh)
      have hfresh := Scope.requireFresh_eq_ok.1 hfresh
      rw [Scope.loop, Scope.lookup?_enter] at hfresh
      rcases bind_eq_error_iff.1 h with h | ⟨_, _, h⟩
      · exact .inr ⟨_, _, body, .collectionFor hc hty hfresh, h⟩
      · cases h
  | ret value span =>
    rcases bind_eq_error_iff.1 h with h | ⟨_, _, h⟩
    · cases hf : env.scope.frame.function with
      | none =>
        unfold returned at h
        rw [hf] at h
        cases h
        exact .inl (.ret hf)
      | some id =>
        have hinside : env.scope.frame.function = none → false = true := by rw [hf]; nofun
        exact absurd he
          (Relabeling.family_ne_of_carries (Relabeling.carries_returned value span.start hinside) h)
    · cases h
  | brk span =>
    rcases bind_eq_error_iff.1 h with h | ⟨_, _, h⟩
    · obtain ⟨hl, rfl⟩ := require_eq_error.1 h
      exact .inl (.brk hl)
    · cases h
  | call callee args span =>
    rcases bind_eq_error_iff.1 h with h | ⟨_, _, h⟩
    · exact absurd he
        (Relabeling.family_ne_of_carries (Relabeling.carries_called callee args span.stop) h)
    · cases h

end Stmt

namespace Check

theorem Reaches.within {ss : List Stmt} (h : Reaches s inside last nesting env ss)
    (hw : env.Within nesting) : last.Within inside := by
  induction h with
  | here => exact hw
  | next hs _ ih => exact ih (hw.follows (Stmt.check_follows _ hs))
  | body ho _ ih => exact ih (ho.within hw)

theorem Reaches.checkBlock_eq_error {ss : List Stmt} (h : Reaches s inside last nesting env ss)
    (hs : s.check last = .error e) : checkBlock env ss = .error e := by
  induction h with
  | here => exact bind_eq_error_iff.2 (.inl hs)
  | next ht _ ih => exact bind_eq_error_iff.2 (.inr ⟨_, ht, bind_eq_error_iff.2 (.inl ih)⟩)
  | body ho _ ih => exact bind_eq_error_iff.2 (.inl (ho.check_eq_error ih))

/-- A block is rejected for its structure at a statement that offends by itself. -/
theorem exists_reaches_of_error (he : e.cause.family = .structural) :
    (ss : List Stmt) → {env : Env} → {nesting : List Layer} → checkBlock env ss = .error e →
    ∃ s inside last, Reaches s inside last nesting env ss ∧ s.Offends last e
  | [], _, _, h => by cases h
  | s :: ss, env, nesting, h => by
    rcases bind_eq_error_iff.1 h with hs | ⟨⟨t, next⟩, hs, h⟩
    · rcases Stmt.check_eq_structural_error hs he with ho | ⟨layer, inner, body, ho, hb⟩
      · exact ⟨s, nesting, env, .here, ho⟩
      · -- the body is a part of the statement only, so the recursion is on the size
        have hlt := ho.sizeOf_lt
        obtain ⟨s', inside, last, hr, hs'⟩ := exists_reaches_of_error he body hb
        exact ⟨s', inside, last, .body ho hr, hs'⟩
    · rcases bind_eq_error_iff.1 h with hss | ⟨_, _, h⟩
      · obtain ⟨s', inside, last, hr, hs'⟩ := exists_reaches_of_error he ss hss
        exact ⟨s', inside, last, .next hs hr, hs'⟩
      · cases h
termination_by ss => sizeOf ss

end Check

theorem Program.check_eq_error_iff {p : Program} :
    p.check = .error e ↔ checkBlock .initial p.statements = .error e := by
  rw [Program.check, bind_eq_error_iff]
  refine or_iff_left ?_
  rintro ⟨_, -, h⟩
  cases h

theorem Program.check_eq_structural_error_iff {p : Program} (he : e.cause.family = .structural) :
    p.check = .error e ↔ ∃ s nesting last, p.Reaches s nesting last ∧ s.Offends last e := by
  rw [Program.check_eq_error_iff]
  refine ⟨Check.exists_reaches_of_error he p.statements, ?_⟩
  rintro ⟨s, nesting, last, hr, ho⟩
  exact hr.checkBlock_eq_error ho.check_eq_error

end Rejection

section Towers

theorem Scope.exists_fresh (s : Scope) : ∃ name, s.lookup? name = none := by
  obtain ⟨name, hname⟩ :=
    Infinite.exists_notMem_finset (((s.frame :: s.outer).flatMap Frame.names).map Prod.fst).toFinset
  refine ⟨name, List.findSome?_eq_none_iff.2 fun f hf =>
    List.lookup_eq_none_iff.2 fun bound hb => ?_⟩
  rw [bne_iff_ne]
  rintro rfl
  exact hname (List.mem_toFinset.2 (List.mem_map_of_mem (List.mem_flatMap.2 ⟨f, hf, hb⟩)))

theorem Check.exists_reaches (s : Stmt) (layers nesting : List Layer) (env : Env) :
    ∃ ss last, Reaches s (layers.reverse ++ nesting) last nesting env ss := by
  -- from the outermost layer inwards, each with a name that nothing has yet
  induction layers generalizing nesting env with
  | nil => exact ⟨[s], env, .here⟩
  | cons layer layers ih =>
    obtain ⟨name, hn⟩ := env.scope.exists_fresh
    rw [List.reverse_cons, List.append_assoc]
    cases layer with
    | function =>
      obtain ⟨body, last, hr⟩ :=
        ih (.function :: nesting) (env.parametersOf (.ofFunction name [] .any))
      exact ⟨[.function name [] none body name (.empty .nowhere) (.empty .nowhere)], last,
        .body (.function hn rfl) hr⟩
    | loop =>
      obtain ⟨body, last, hr⟩ :=
        ih (.loop :: nesting) (env.inLoop.declare (.ofVariable name .any))
      exact ⟨[.collectionFor name (.empty .nowhere) (.array [] (.empty .nowhere)) body
        (.empty .nowhere)], last, .body (.collectionFor rfl rfl hn) hr⟩

end Towers

section Placing

open Check

variable {env : Env} {nesting : List Layer}

theorem Env.Within.inLoop_eq_false_iff (h : env.Within nesting) :
    env.scope.frame.inLoop = false ↔ nesting.head? ≠ some .loop := by
  rw [ne_eq, ← h.inLoop, Bool.not_eq_true]

theorem Env.Within.function_eq_none_iff (h : env.Within nesting) :
    env.scope.frame.function = none ↔ .function ∉ nesting := by
  rw [← h.function, Bool.not_eq_true, Option.isSome_eq_false_iff, Option.isNone_iff_eq_none]

theorem Stmt.failsFor_brk_iff (span : Span) :
    FailsFor .breakOutsideLoop ((Stmt.brk span).check env) ↔ env.scope.frame.inLoop = false := by
  constructor
  · rintro ⟨position, h⟩
    rcases Stmt.check_eq_structural_error h rfl with ho | ⟨layer, inner, body, ho, -⟩
    · cases ho with
      | brk hl => exact hl
    · cases ho
  · intro hl
    exact ⟨span.start, (Offends.brk hl).check_eq_error⟩

theorem Stmt.failsFor_ret_iff (value : Option Expr) (span : Span) :
    FailsFor .returnOutsideFunction ((Stmt.ret value span).check env) ↔
    env.scope.frame.function = none := by
  constructor
  · rintro ⟨position, h⟩
    rcases Stmt.check_eq_structural_error h rfl with ho | ⟨layer, inner, body, ho, -⟩
    · cases ho with
      | ret hf => exact hf
    · cases ho
  · intro hf
    exact ⟨span.start, (Offends.ret hf).check_eq_error⟩

/-- In a checked program, simplified or not, every `break` and `return` has its loop or function,
and values are stored in elements and variables of the program only. Whatever stands around them, a
`break` or `return` is rejected for its place exactly when it has none, and a program for this
reason exactly when it has one that is reached. -/
theorem Program.check_places_break_return (p : Program) :
    (∀ t, p.check = .ok t → t.Nested ∧ t.simplify.Nested) ∧
    (∀ nesting env span, p.Reaches (.brk span) nesting env →
      (FailsFor .breakOutsideLoop ((Stmt.brk span).check env) ↔ nesting.head? ≠ some .loop)) ∧
    (∀ nesting env value span, p.Reaches (.ret value span) nesting env →
      (FailsFor .returnOutsideFunction ((Stmt.ret value span).check env) ↔
        .function ∉ nesting)) ∧
    (FailsFor .breakOutsideLoop p.check ↔
      ∃ nesting env span, p.Reaches (.brk span) nesting env ∧ nesting.head? ≠ some .loop) ∧
    (FailsFor .returnOutsideFunction p.check ↔
      ∃ nesting env value span, p.Reaches (.ret value span) nesting env ∧
        .function ∉ nesting) ∧
    ∀ s nesting, ∃ (q : Program) (env : Env), q.Reaches s nesting env := by
  have hwithin {s nesting env} (hr : p.Reaches s nesting env) : env.Within nesting :=
    hr.within Env.initial_within
  refine ⟨?_, ?_, ?_, ⟨?_, ?_⟩, ⟨?_, ?_⟩, ?_⟩
  · intro t ht
    have hn := Program.nested_of_check ht
    exact ⟨hn, Typed.Stmt.nestedAll_simplifyAll t.statements hn⟩
  · intro nesting env span hr
    rw [Stmt.failsFor_brk_iff, (hwithin hr).inLoop_eq_false_iff]
  · intro nesting env value span hr
    rw [Stmt.failsFor_ret_iff, (hwithin hr).function_eq_none_iff]
  · rintro ⟨position, h⟩
    obtain ⟨s, nesting, env, hr, ho⟩ := (Program.check_eq_structural_error_iff rfl).1 h
    have hw := hwithin hr
    cases ho with
    | brk hl => exact ⟨nesting, env, _, hr, hw.inLoop_eq_false_iff.1 hl⟩
  · rintro ⟨nesting, env, span, hr, hn⟩
    have ho : (Stmt.brk span).Offends env _ := .brk ((hwithin hr).inLoop_eq_false_iff.2 hn)
    exact ⟨span.start,
      (Program.check_eq_structural_error_iff rfl).2 ⟨_, nesting, env, hr, ho⟩⟩
  · rintro ⟨position, h⟩
    obtain ⟨s, nesting, env, hr, ho⟩ := (Program.check_eq_structural_error_iff rfl).1 h
    have hw := hwithin hr
    cases ho with
    | ret hf => exact ⟨nesting, env, _, _, hr, hw.function_eq_none_iff.1 hf⟩
  · rintro ⟨nesting, env, value, span, hr, hn⟩
    have ho : (Stmt.ret value span).Offends env _ := .ret ((hwithin hr).function_eq_none_iff.2 hn)
    exact ⟨span.start,
      (Program.check_eq_structural_error_iff rfl).2 ⟨_, nesting, env, hr, ho⟩⟩
  · intro s nesting
    obtain ⟨ss, env, hr⟩ := Check.exists_reaches s nesting.reverse [] .initial
    rw [List.reverse_reverse, List.append_nil] at hr
    exact ⟨⟨ss⟩, env, hr⟩

def Program.tower (s : Stmt) (span : Span) : Program where
  statements :=
    [.function "outer" [] none
      [.collectionFor "x" span (.array [.number "1" span] span)
        [.function "inner" [] none [s] "inner" span span, .brk span] span] "outer" span span]

theorem Program.check_places_break_return_tower :
    (∃ t, (Program.tower (.ret none (.empty .nowhere)) (.empty .nowhere)).check = .ok t ∧
      t.Nested ∧ t.simplify.Nested) ∧
    FailsFor .breakOutsideLoop
      (Program.tower (.brk (.empty .nowhere)) (.empty .nowhere)).check := by
  constructor
  · obtain ⟨t, ht⟩ : ∃ t,
      (Program.tower (.ret none (.empty .nowhere)) (.empty .nowhere)).check = .ok t := ⟨_, rfl⟩
    exact ⟨t, ht, (Program.check_places_break_return _).1 t ht⟩
  · obtain ⟨-, -, -, hbreak, -, -⟩ :=
      Program.check_places_break_return (Program.tower (.brk (.empty .nowhere)) (.empty .nowhere))
    have hr : ∃ env, (Program.tower (.brk (.empty .nowhere)) (.empty .nowhere)).Reaches
        (.brk (.empty .nowhere)) [.function, .loop, .function] env :=
      ⟨_, .body (.function rfl rfl)
        (.body (.collectionFor rfl rfl rfl) (.body (.function rfl rfl) .here))⟩
    obtain ⟨env, hr⟩ := hr
    exact hbreak.2 ⟨_, env, _, hr, nofun⟩

end Placing

end Scriptor
