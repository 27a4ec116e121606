import Mathlib.Data.List.Nodup
import Scriptor.Proofs.Resolution
import Scriptor.Proofs.Typing
import Scriptor.Proofs.WellFormed

namespace Scriptor

namespace Arena

def builtins (a : Arena) : List EntityId :=
  ((List.range a.size).map EntityId.mk).filter fun id => ((a.get? id).bind Entity.builtin).isSome

def Distinct (a : Arena) (ids : List EntityId) : Prop :=
  (∀ id ∈ ids, id.index < a.size) ∧ ∀ x ∈ ids, ∀ y ∈ ids, ∀ name, a.Named x name →
    a.Named y name → x = y

end Arena

namespace Typed.Stmt

/-- What the statement declares for the statements after it. -/
def binds : Stmt → List EntityId
  | .declaration id _ | .function id _ _ => [id]
  | _ => []

mutual

/-- Whether the statement names only entities that are visible: those of the places around it, a
function within its own body, and what loops and functions declare for theirs. -/
def Scoped (a : Arena) (visible : List EntityId) : Stmt → Prop
  | .declaration _ value => value.Names (· ∈ visible)
  | .assignment target value => target.Names (· ∈ visible) ∧ value.Names (· ∈ visible)
  | .function id parameters body => ScopedAll a (parameters ++ id :: visible) body
  | .rangeFor init update test body =>
    init.Scoped a visible ∧ update.Scoped a (init.binds ++ visible) ∧
      test.Names (· ∈ init.binds ++ visible) ∧ ScopedAll a (init.binds ++ visible) body
  | .collectionFor id collection body =>
    collection.Names (· ∈ visible) ∧ ScopedAll a (id :: visible) body
  | .ret value => ∀ e ∈ value, e.Names (· ∈ visible)
  | .brk => True
  | .call callee args => callee.Names (· ∈ visible) ∧ ∀ e ∈ args, e.Names (· ∈ visible)
  | .print args => ∀ e ∈ args, e.Names (· ∈ visible)
  | .method object _ args =>
    object.Names (· ∈ visible) ∧ ∀ e ∈ args, e.Names (· ∈ visible)

/-- Before every statement of a block and at its end, the visible entities have different names. -/
def ScopedAll (a : Arena) (visible : List EntityId) : List Stmt → Prop
  | [] => a.Distinct visible
  | s :: ss => a.Distinct visible ∧ s.Scoped a visible ∧ ScopedAll a (s.binds ++ visible) ss

end

mutual

def declared : Stmt → List EntityId
  | .declaration id _ => [id]
  | .function id parameters body => id :: (parameters ++ declaredAll body)
  | .rangeFor init update _ body => init.declared ++ (update.declared ++ declaredAll body)
  | .collectionFor id _ body => id :: declaredAll body
  | _ => []

def declaredAll : List Stmt → List EntityId
  | [] => []
  | s :: ss => s.declared ++ declaredAll ss

end

end Typed.Stmt

def Typed.Program.Scoped (p : Typed.Program) : Prop :=
  Stmt.ScopedAll p.entities p.entities.builtins p.statements

section Visible

variable {a : Arena} {env env' : Env} {visible : List EntityId}

/-- The names that a scope binds stand for the visible entities. -/
def Scope.Sees (s : Scope) (visible : List EntityId) : Prop :=
  ∀ id, id ∈ visible ↔ ∃ name, s.lookup? name = some id

theorem Scope.Sees.enter {s : Scope} (h : s.Sees visible) (inLoop : Bool)
    (function : Option EntityId) : (s.enter inLoop function).Sees visible := by
  intro id
  simp only [lookup?_enter]
  exact h id

/-- A fresh name hides nothing. -/
theorem Scope.Sees.declare {s : Scope} {name : String} (h : s.Sees visible)
    (hn : s.lookup? name = none) (id : EntityId) : (s.declare name id).Sees (id :: visible) := by
  intro x
  rw [List.mem_cons, h x]
  constructor
  · rintro (rfl | ⟨other, ho⟩)
    · exact ⟨name, by rw [lookup?_declare, if_pos rfl]⟩
    · refine ⟨other, ?_⟩
      rw [lookup?_declare, if_neg, ho]
      rintro rfl
      rw [hn] at ho
      cases ho
  · rintro ⟨other, ho⟩
    rw [lookup?_declare] at ho
    split at ho
    next => cases ho; exact .inl rfl
    next => exact .inr ⟨other, ho⟩

theorem Scope.Sees.distinct (h : env.scope.Sees visible) (hc : env.Closed)
    (ha : env.entities.Grows a) : a.Distinct visible := by
  have hbound {id : EntityId} (hid : id ∈ visible) :
      ∃ e, a.get? id = some e ∧ env.scope.lookup? e.name = some id := by
    obtain ⟨name, hl⟩ := (h id).1 hid
    obtain ⟨e, he, rfl⟩ := hc.bound name id hl
    exact ⟨e, ha.get? he, hl⟩
  constructor
  · intro id hid
    obtain ⟨e, he, -⟩ := hbound hid
    exact Arena.lt_size_iff.2 ⟨e, he⟩
  · rintro x hx y hy name ⟨e, he, hname⟩ ⟨f, hf, rfl⟩
    obtain ⟨e', he', hlx⟩ := hbound hx
    obtain ⟨f', hf', hly⟩ := hbound hy
    cases he.symm.trans he'
    cases hf.symm.trans hf'
    rw [hname] at hlx
    exact Option.some.inj (hlx.symm.trans hly)

theorem Scope.Sees.congr {s : Scope} {others : List EntityId} (h : s.Sees visible)
    (ho : ∀ id, id ∈ others ↔ id ∈ visible) : s.Sees others :=
  fun id => (ho id).trans (h id)

theorem Expr.check_entity {e : Expr} {t : Typed.Expr} {id : EntityId} (h : e.check env = .ok t)
    (hid : t.entity? = some id) : ∃ name, env.scope.lookup? name = some id := by
  have hg := (Expr.check_generation h).1
  cases e with
  | symbol name span =>
    obtain ⟨i, x, hx, rfl⟩ := hg
    cases hid
    exact ⟨name, (Env.resolve?_eq_some_iff.1 hx).1⟩
  | number text span => obtain ⟨value, rfl⟩ := hg; cases hid
  | string value span => cases hg; cases hid
  | boolean value span => cases hg; cases hid
  | binary left op right span => obtain ⟨l, r, ty, -, -, rfl⟩ := hg; cases hid
  | unary op operand span => obtain ⟨x, ty, -, rfl⟩ := hg; cases hid
  | conditional test consequent alternate span =>
    obtain ⟨x, c, d, ty, -, -, -, rfl⟩ := hg; cases hid
  | call callee args span => obtain ⟨f, as, ty, -, -, rfl⟩ := hg; cases hid
  | subscript indexed index span => obtain ⟨x, i, ty, -, -, rfl⟩ := hg; cases hid
  | member object property propertySpan span => exact hg.elim
  | array elements span => obtain ⟨es, ty, -, rfl⟩ := hg; cases hid
  | dict entries span => obtain ⟨ps, ty, -, rfl⟩ := hg; cases hid

theorem Expr.check_names {e : Expr} {t : Typed.Expr} (h : e.check env = .ok t)
    (hv : env.scope.Sees visible) : t.Names (· ∈ visible) :=
  Expr.check_every (fun _ _ ht id hid => (hv id).2 (Expr.check_entity ht hid)) h

theorem checks_names {es : List Expr} {ts : List Typed.Expr}
    (h : List.Forall₂ (fun e t => Expr.check env e = .ok t) es ts) (hv : env.scope.Sees visible) :
    ∀ t ∈ ts, t.Names (· ∈ visible) :=
  forall_mem_of_forall₂ h fun _ _ _ ht => Expr.check_names ht hv

theorem Assignment.Generation.scoped {s : Assignment} {t : Typed.Stmt} (h : s.Generation env t env')
    (hc : env.Closed) (hv : env.scope.Sees visible) (a : Arena) :
    t.Scoped a visible ∧ env'.scope.Sees (t.binds ++ visible) := by
  cases h with
  | declares _ _ hr he _ => exact ⟨Expr.check_names he hv, hv.declare (hc.lookup?_eq_none hr) _⟩
  | assigns _ ht _ he _ _ => exact ⟨⟨Expr.check_names ht hv, Expr.check_names he hv⟩, hv⟩
  | computes _ ht _ he _ _ =>
    have ht := Expr.check_names ht hv
    exact ⟨⟨ht, Typed.Expr.names_binary.2 ⟨ht, Expr.check_names he hv⟩⟩, hv⟩

theorem Check.Parameters.sees {ps : List Parameter} {ids : List EntityId}
    (h : Check.Parameters env ps ids env')
    (hv : env.scope.Sees visible) : env'.scope.Sees (ids ++ visible) := by
  induction h generalizing visible with
  | nil => exact hv
  | cons hn _ ih =>
    refine (ih (hv.declare hn _)).congr ?_
    intro id
    simp only [List.mem_append, List.mem_cons, or_assoc]
    exact or_left_comm

theorem Env.sees_parametersOf {f : Entity} (hv : env.scope.Sees visible)
    (hn : env.scope.lookup? f.name = none) :
    (env.parametersOf f).scope.Sees (env.entities.next :: visible) :=
  (hv.declare hn _).enter _ _

theorem Env.sees_declare_inLoop {e : Entity} (hv : env.scope.Sees visible)
    (hn : env.scope.lookup? e.name = none) :
    (env.inLoop.declare e).scope.Sees (env.entities.next :: visible) :=
  (hv.enter _ _).declare (by rw [Scope.lookup?_enter, hn]) _

end Visible

mutual

theorem Stmt.check_scoped {a : Arena} :
    (s : Stmt) → {env env' : Env} → {t : Typed.Stmt} → {visible : List EntityId} →
    env.Closed → env.scope.Sees visible → s.check env = .ok (t, env') →
    env'.entities.Grows a →
    t.Scoped a visible ∧ env'.scope.Sees (t.binds ++ visible)
  | .assignment _, _, _, _, _, hc, hv, h, _ => by
    cases Stmt.check_generation h with
    | assignment hs => exact hs.scoped hc hv a
  | .function _ _ _ body _ _ _, _, _, _, _, hc, hv, h, ha => by
    cases Stmt.check_generation h with
    | function hn hps hb =>
      have hinner := hps.sees (Env.sees_parametersOf hv hn)
      exact ⟨checkBlock_scoped body (hps.follows.closed (hc.parametersOf _)) hinner hb ha,
        hv.declare hn _⟩
  | .rangeFor _ _ body _ _, _, _, _, _, hc, hv, h, ha => by
    cases Stmt.check_generation h with
    | rangeFor hi his hu hus ht htb hb =>
      obtain ⟨hinit, hinner⟩ := hi.scoped hc.inLoop (hv.enter _ _) a
      have hclosed := hi.follows.closed hc.inLoop
      refine ⟨⟨hinit, (hu.scoped hclosed hinner a).1, Expr.check_names ht hinner, ?_⟩, hv⟩
      exact checkBlock_scoped body hclosed hinner hb ha
  | .collectionFor _ _ _ body _, _, _, _, _, hc, hv, h, ha => by
    cases Stmt.check_generation h with
    | collectionFor hcol hty hn hb =>
      refine ⟨⟨Expr.check_names hcol hv, ?_⟩, hv⟩
      exact checkBlock_scoped body (hc.inLoop.declare _) (Env.sees_declare_inLoop hv hn) hb ha
  | .ret _ _, _, _, _, _, _, hv, h, _ => by
    cases Stmt.check_generation h with
    | ret he hr =>
      refine ⟨?_, hv⟩
      cases he with
      | none => exact nofun
      | some he =>
        rintro e ⟨⟩
        exact Expr.check_names he hv
  | .brk _, _, _, _, _, _, hv, h, _ => by
    cases Stmt.check_generation h with
    | brk => exact ⟨trivial, hv⟩
  | .call _ _ _, _, _, _, _, _, hv, h, _ => by
    cases Stmt.check_generation h with
    | call hf has happly => exact ⟨⟨Expr.check_names hf hv, checks_names has hv⟩, hv⟩
    | print hf hid hx hp has => exact ⟨checks_names has hv, hv⟩
    | method ho hm has hfits => exact ⟨⟨Expr.check_names ho hv, checks_names has hv⟩, hv⟩

theorem checkBlock_scoped {a : Arena} :
    (ss : List Stmt) → {env env' : Env} → {ts : List Typed.Stmt} →
    {visible : List EntityId} → env.Closed → env.scope.Sees visible →
    checkBlock env ss = .ok (ts, env') →
    env'.entities.Grows a → Typed.Stmt.ScopedAll a visible ts
  | [], _, _, _, _, hc, hv, h, ha => by
    cases h
    exact hv.distinct hc ha
  | s :: ss, _, _, _, _, hc, hv, h, ha => by
    obtain ⟨t, rest, next, hs, hss, rfl⟩ := checkBlock_cons h
    have hnext := s.check_follows hs
    have hrest := (checkBlock_follows ss hss).grows.trans ha
    obtain ⟨ht, hv'⟩ := s.check_scoped hc hv hs hrest
    exact ⟨hv.distinct hc (hnext.grows.trans hrest), ht,
      checkBlock_scoped ss (hnext.closed hc) hv' hss ha⟩

end

section Simplified

namespace Typed.Stmt

variable {a : Arena} {visible : List EntityId}

theorem Scoped.simplifyHeader {s : Stmt} (h : s.Scoped a visible) :
    s.simplifyHeader.Scoped a visible := by
  cases s with
  | declaration id value => exact Expr.Names.simplify h
  | assignment target value => exact ⟨h.1.simplify, h.2.simplify⟩
  | _ => exact h

theorem binds_simplifyHeader (s : Stmt) : s.simplifyHeader.binds = s.binds := by
  cases s <;> rfl

theorem declared_simplifyHeader (s : Stmt) : s.simplifyHeader.declared = s.declared := by
  cases s <;> rfl

/-- A statement that is dropped or replaced declares nothing for the statements after it. -/
theorem binds_simplify? (s : Stmt) : (s.simplify?.map binds).getD [] = s.binds := by
  cases s with
  | assignment target value =>
    rw [Stmt.simplify?]
    split <;> rfl
  | rangeFor init update test body =>
    rw [Stmt.simplify?]
    split
    next => cases init <;> rfl
    next => rfl
  | _ => rfl

mutual

theorem Scoped.simplify? :
    (s : Stmt) → {t : Stmt} → {visible : List EntityId} → s.Scoped a visible →
    s.simplify? = some t → t.Scoped a visible
  | .declaration id value, _, _, h, ht => by
    cases ht
    exact Expr.Names.simplify h
  | .assignment target value, _, _, h, ht => by
    rw [Stmt.simplify?, Option.ite_none_left_eq_some] at ht
    cases ht.2
    exact ⟨h.1.simplify, h.2.simplify⟩
  | .function id parameters body, _, _, h, ht => by
    cases ht
    exact scopedAll_simplifyAll body h
  | .rangeFor init update test body, _, _, ⟨hi, hu, htest, hb⟩, ht => by
    rw [Stmt.simplify?] at ht
    split at ht
    next =>
      cases remains?_eq_some ht
      exact hi.simplifyHeader
    next =>
      cases ht
      refine ⟨hi.simplifyHeader, ?_⟩
      rw [binds_simplifyHeader]
      exact ⟨hu.simplifyHeader, htest.simplify, scopedAll_simplifyAll body hb⟩
  | .collectionFor id collection body, _, _, ⟨hc, hb⟩, ht => by
    cases ht
    exact ⟨hc.simplify, scopedAll_simplifyAll body hb⟩
  | .ret value, _, _, h, ht => by
    cases ht
    exact Expr.forall_mem_map_simplify h fun _ => Expr.Names.simplify
  | .brk, _, _, _, ht => by
    cases ht
    exact trivial
  | .call callee args, _, _, ⟨hf, has⟩, ht => by
    cases ht
    exact ⟨hf.simplify, Expr.forall_mem_simplifyAll has fun _ => Expr.Names.simplify⟩
  | .print args, _, _, has, ht => by
    cases ht
    exact Expr.forall_mem_simplifyAll has fun _ => Expr.Names.simplify
  | .method object m args, _, _, ⟨ho, has⟩, ht => by
    cases ht
    exact ⟨ho.simplify, Expr.forall_mem_simplifyAll has fun _ => Expr.Names.simplify⟩

theorem scopedAll_simplifyAll :
    (ss : List Stmt) → {visible : List EntityId} → ScopedAll a visible ss →
    ScopedAll a visible (simplifyAll ss)
  | [], _, h => h
  | s :: ss, _, ⟨hd, hs, hss⟩ => by
    rw [← binds_simplify?] at hss
    rw [simplifyAll]
    cases ht : s.simplify? with
    | some t =>
      rw [ht] at hss
      exact ⟨hd, Scoped.simplify? s hs ht, scopedAll_simplifyAll ss hss⟩
    | none =>
      rw [ht] at hss
      exact scopedAll_simplifyAll ss hss

end

mutual

theorem declared_simplify? :
    (s : Stmt) → {t : Stmt} → s.simplify? = some t → t.declared.Sublist s.declared
  | .declaration id value, _, ht => by
    cases ht
    exact .refl _
  | .assignment target value, _, ht => by
    rw [Stmt.simplify?, Option.ite_none_left_eq_some] at ht
    cases ht.2
    exact .refl _
  | .function id parameters body, _, ht => by
    cases ht
    exact (List.Sublist.append (.refl _) (declaredAll_simplifyAll body)).cons_cons id
  | .rangeFor init update test body, _, ht => by
    rw [Stmt.simplify?] at ht
    split at ht
    next =>
      cases remains?_eq_some ht
      rw [declared_simplifyHeader]
      exact List.sublist_append_left _ _
    next =>
      cases ht
      rw [declared, declared_simplifyHeader, declared_simplifyHeader]
      exact List.Sublist.append (.refl _)
        (List.Sublist.append (.refl _) (declaredAll_simplifyAll body))
  | .collectionFor id collection body, _, ht => by
    cases ht
    exact (declaredAll_simplifyAll body).cons_cons id
  | .ret _, _, ht | .brk, _, ht | .call _ _, _, ht | .print _, _, ht | .method _ _ _, _, ht => by
    cases ht
    exact .refl _

theorem declaredAll_simplifyAll :
    (ss : List Stmt) → (declaredAll (simplifyAll ss)).Sublist (declaredAll ss)
  | [] => .refl _
  | s :: ss => by
    rw [simplifyAll, declaredAll]
    cases ht : s.simplify? with
    | some t => exact (declared_simplify? s ht).append (declaredAll_simplifyAll ss)
    | none => exact (declaredAll_simplifyAll ss).trans (List.sublist_append_right _ _)

end

end Typed.Stmt

end Simplified

section Declarations

structure Arena.Makes (a b : Arena) (ids : List EntityId) : Prop where
  size : b.size = a.size + ids.length
  ids : ids = (List.range' a.size ids.length).map EntityId.mk

namespace Arena.Makes

variable {a b c : Arena} {xs ys : List EntityId}

theorem nil (a : Arena) : a.Makes a [] :=
  ⟨rfl, rfl⟩

theorem add (a : Arena) (e : Entity) : a.Makes (a.add e) [a.next] :=
  ⟨Arena.size_add a e, rfl⟩

theorem append (hx : a.Makes b xs) (hy : b.Makes c ys) : a.Makes c (xs ++ ys) := by
  constructor
  · rw [hy.size, hx.size, List.length_append, Nat.add_assoc]
  · rw [List.length_append, ← List.range'_append_1, List.map_append, ← hx.ids,
      ← hx.size, ← hy.ids]

theorem nodup (h : a.Makes b xs) : xs.Nodup := by
  rw [h.ids]
  exact List.Nodup.map (fun i j hij => congrArg EntityId.index hij) List.nodup_range'

/-- An entity is made once, if it was not there before. -/
theorem count_eq (h : a.Makes b xs) {id : EntityId} (hid : id.index < b.size) :
    xs.count id = if id.index < a.size then 0 else 1 := by
  have hmem : id ∈ xs ↔ a.size ≤ id.index := by
    rw [h.ids, List.mem_map]
    constructor
    · rintro ⟨i, hi, rfl⟩
      exact (List.mem_range'_1.1 hi).1
    · intro hle
      have hb := h.size
      exact ⟨id.index, List.mem_range'_1.2 ⟨hle, by omega⟩, rfl⟩
  split
  next hlt => exact List.count_eq_zero.2 fun hm => absurd (hmem.1 hm) (by omega)
  next hge => exact List.count_eq_one_of_mem h.nodup (hmem.2 (by omega))

end Arena.Makes

theorem Assignment.Generation.makes {env env' : Env} {s : Assignment} {t : Typed.Stmt}
    (h : s.Generation env t env') : env.entities.Makes env'.entities t.declared := by
  cases h with
  | declares => exact .add _ _
  | assigns => exact .nil _
  | computes => exact .nil _

theorem Check.Parameters.makes {env env' : Env} {ps : List Parameter} {ids : List EntityId}
    (h : Check.Parameters env ps ids env') : env.entities.Makes env'.entities ids := by
  induction h with
  | nil => exact .nil _
  | @cons env _ p _ _ _ _ ih =>
    exact (Arena.Makes.add env.entities (.ofVariable p.name p.ty)).append ih

mutual

/-- Every entity that checking makes is declared where it is made. -/
theorem Stmt.check_makes :
    (s : Stmt) → {env env' : Env} → {t : Typed.Stmt} → s.check env = .ok (t, env') →
    env.entities.Makes env'.entities t.declared
  | .assignment _, _, _, _, h => by
    cases Stmt.check_generation h with
    | assignment hs => exact hs.makes
  | .function _ _ _ body _ _ _, env, _, _, h => by
    cases Stmt.check_generation h with
    | function hn hps hb =>
      have hbody := hps.makes.append (checkBlock_makes body hb)
      exact (Arena.Makes.add env.entities _).append hbody
  | .rangeFor _ _ body _ _, _, _, _, h => by
    cases Stmt.check_generation h with
    | rangeFor hi his hu hus ht htb hb =>
      have hbody := checkBlock_makes body hb
      exact hi.makes.append (hu.makes.append hbody)
  | .collectionFor _ _ _ body _, env, _, _, h => by
    cases Stmt.check_generation h with
    | collectionFor hcol hty hn hb =>
      have hbody := checkBlock_makes body hb
      exact (Arena.Makes.add env.entities _).append hbody
  | .ret _ _, _, _, _, h => by
    cases Stmt.check_generation h with
    | ret => exact .nil _
  | .brk _, _, _, _, h => by
    cases Stmt.check_generation h with
    | brk => exact .nil _
  | .call _ _ _, _, _, _, h => by
    cases Stmt.check_generation h with
    | call => exact .nil _
    | print => exact .nil _
    | method => exact .nil _

theorem checkBlock_makes : (ss : List Stmt) → {env env' : Env} → {ts : List Typed.Stmt} →
    checkBlock env ss = .ok (ts, env') →
    env.entities.Makes env'.entities (Typed.Stmt.declaredAll ts)
  | [], _, _, _, h => by
    cases h
    exact .nil _
  | s :: ss, _, _, _, h => by
    obtain ⟨t, rest, next, hs, hss, rfl⟩ := checkBlock_cons h
    exact (s.check_makes hs).append (checkBlock_makes ss hss)

end

end Declarations

section Initial

theorem Env.initial_generation {id : EntityId} {e : Entity}
    (h : Env.initial.entities.get? id = some e) :
    e.builtin ≠ none ∧ Env.initial.scope.lookup? e.name = some id := by
  have hall : ∀ i < Env.initial.entities.size, (Env.initial.entities.get? ⟨i⟩).all fun e =>
      e.builtin ≠ none ∧ Env.initial.scope.lookup? e.name = some ⟨i⟩ := by
    decide +kernel
  have he := hall id.index (Arena.lt_size_iff.2 ⟨e, h⟩)
  rw [h] at he
  exact of_decide_eq_true he

variable {a : Arena}

theorem Arena.mem_builtins {id : EntityId} :
    id ∈ a.builtins ↔ ∃ e, a.get? id = some e ∧ e.builtin ≠ none := by
  rw [Arena.builtins, List.mem_filter, List.mem_map]
  constructor
  · rintro ⟨-, h⟩
    obtain ⟨b, hb⟩ := Option.isSome_iff_exists.1 h
    obtain ⟨e, he, hb⟩ := Option.bind_eq_some_iff.1 hb
    exact ⟨e, he, fun hn => by rw [hn] at hb; cases hb⟩
  · rintro ⟨e, he, hb⟩
    refine ⟨⟨id.index, List.mem_range.2 (Arena.lt_size_iff.2 ⟨e, he⟩), rfl⟩, ?_⟩
    rw [he, Option.bind_some]
    exact Option.isSome_iff_ne_none.2 hb

theorem Env.initial_sees (ha : Env.initial.entities.Grows a) :
    Env.initial.scope.Sees a.builtins := by
  intro id
  rw [Arena.mem_builtins]
  constructor
  · rintro ⟨e, he, hb⟩
    exact ⟨e.name, (Env.initial_generation (ha.get?_of_builtin he hb)).2⟩
  · rintro ⟨name, hl⟩
    obtain ⟨e, he, -⟩ := Env.initial_closed.bound name id hl
    exact ⟨e, ha.get? he, (Env.initial_generation he).1⟩

theorem Env.initial_lt_size_iff {id : EntityId} {e : Entity} (ha : Env.initial.entities.Grows a)
    (he : a.get? id = some e) : id.index < Env.initial.entities.size ↔ e.builtin ≠ none := by
  constructor
  · intro hlt
    obtain ⟨x, hx⟩ := Arena.lt_size_iff.1 hlt
    cases he.symm.trans (ha.get? hx)
    exact (Env.initial_generation hx).1
  · intro hb
    exact Arena.lt_size_iff.2 ⟨e, ha.get?_of_builtin he hb⟩

end Initial

/-- In a checked program every name keeps its spelling and is visible where it stands, visible names
differ, and each entity is declared once, except for the built-in ones. Simplification only takes
declarations away. -/
theorem Program.scoped_of_check {p : Program} {t : Typed.Program} (h : p.check = .ok t) :
    List.Forall₂ (Stmt.Resolves t.entities) p.statements t.statements ∧ t.Scoped ∧
      (∀ id e, t.entities.get? id = some e →
        (Typed.Stmt.declaredAll t.statements).count id = if e.builtin ≠ none then 0 else 1) ∧
      t.simplify.Scoped ∧
      ∀ id, (Typed.Stmt.declaredAll t.simplify.statements).count id ≤ 1 := by
  obtain ⟨env, hss, he⟩ := Program.check_generation h
  have hgrows : Env.initial.entities.Grows t.entities := he ▸ (checkBlock_follows _ hss).grows
  have hlast : env.entities.Grows t.entities := he ▸ .refl _
  have hmakes : Env.initial.entities.Makes t.entities (Typed.Stmt.declaredAll t.statements) :=
    he ▸ checkBlock_makes _ hss
  have hscoped := checkBlock_scoped _ Env.initial_closed (Env.initial_sees hgrows) hss hlast
  refine ⟨checkBlock_resolves _ Env.initial_closed hss hlast, hscoped, ?_, ?_, ?_⟩
  · intro id e hid
    rw [hmakes.count_eq (Arena.lt_size_iff.2 ⟨e, hid⟩)]
    simp only [Env.initial_lt_size_iff hgrows hid]
  · exact Typed.Stmt.scopedAll_simplifyAll _ hscoped
  · intro id
    exact List.nodup_iff_count_le_one.1
      (hmakes.nodup.sublist (Typed.Stmt.declaredAll_simplifyAll t.statements)) id

theorem Program.scoped_counting :
    ∃ t, (Program.counting (.empty .nowhere)).check = .ok t ∧ t.simplify.Scoped := by
  obtain ⟨t, ht, -⟩ := Program.check_counting
  exact ⟨t, ht, (Program.scoped_of_check ht).2.2.2.1⟩

end Scriptor
