import Scriptor.Check.Statement

namespace Scriptor

namespace Arena

@[simp] theorem size_add (a : Arena) (e : Entity) : (a.add e).size = a.size + 1 := by
  simp only [size, add, Array.size_push]

theorem get?_add (a : Arena) (e : Entity) (id : EntityId) :
    (a.add e).get? id = if id = a.next then some e else a.get? id := by
  cases id with
  | mk i => simp only [get?, add, next, size, Array.getElem?_push, EntityId.mk.injEq]

@[simp] theorem get?_add_next (a : Arena) (e : Entity) : (a.add e).get? a.next = some e := by
  rw [get?_add, if_pos rfl]

theorem lt_size_iff {a : Arena} {id : EntityId} :
    id.index < a.size ↔ ∃ e, a.get? id = some e := by
  rw [get?, size, ← Option.isSome_iff_exists, isSome_getElem?]

/-- The second arena has further entities behind those of the first, and none of them is built
in. -/
def Grows (a b : Arena) : Prop :=
  ∃ added : List Entity, b.entities.toList = a.entities.toList ++ added ∧
    ∀ e ∈ added, e.builtin = none

theorem Grows.refl (a : Arena) : a.Grows a :=
  ⟨[], (List.append_nil _).symm, List.forall_mem_nil _⟩

theorem Grows.trans {a b c : Arena} (h : a.Grows b) (h' : b.Grows c) : a.Grows c := by
  obtain ⟨l, hl, hn⟩ := h
  obtain ⟨l', hl', hn'⟩ := h'
  refine ⟨l ++ l', by rw [hl', hl, List.append_assoc], ?_⟩
  intro e he
  rcases List.mem_append.1 he with he | he
  · exact hn e he
  · exact hn' e he

theorem Grows.add (a : Arena) {e : Entity} (he : e.builtin = none) : a.Grows (a.add e) :=
  ⟨[e], Array.toList_push, fun x hx => by rw [List.mem_singleton.1 hx, he]⟩

theorem Grows.get? {a b : Arena} {id : EntityId} {e : Entity} (h : a.Grows b)
    (he : a.get? id = some e) : b.get? id = some e := by
  obtain ⟨l, hl, -⟩ := h
  simp only [Arena.get?, ← Array.getElem?_toList] at he ⊢
  obtain ⟨hi, -⟩ := List.getElem?_eq_some_iff.1 he
  rw [hl, List.getElem?_append_left hi, he]

theorem Grows.get?_of_builtin {a b : Arena} {id : EntityId} {e : Entity} (h : a.Grows b)
    (he : b.get? id = some e) (hb : e.builtin ≠ none) : a.get? id = some e := by
  obtain ⟨l, hl, hn⟩ := h
  simp only [Arena.get?, ← Array.getElem?_toList] at he ⊢
  rw [hl, List.getElem?_append] at he
  split at he
  next => exact he
  next => exact absurd (hn e (List.mem_of_getElem? he)) hb

end Arena

namespace Scope

@[simp] theorem lookup?_enter (s : Scope) (inLoop : Bool) (function : Option EntityId)
    (name : String) : (s.enter inLoop function).lookup? name = s.lookup? name := by
  simp only [lookup?, enter, List.findSome?_cons, List.lookup_nil]

theorem lookup?_declare (s : Scope) (bound : String) (id : EntityId) (name : String) :
    (s.declare bound id).lookup? name = if name = bound then some id else s.lookup? name := by
  simp only [lookup?, declare, List.findSome?_cons, List.lookup_cons]
  by_cases h : name = bound
  · rw [if_pos h, beq_iff_eq.2 h]
  · rw [if_neg h, beq_false_of_ne h]

end Scope

namespace Env

theorem resolve?_eq_some_iff {env : Env} {name : String} {id : EntityId} {e : Entity} :
    env.resolve? name = some (id, e) ↔ env.scope.lookup? name = some id ∧
    env.entities.get? id = some e := by
  simp only [resolve?, Option.bind_eq_bind, Option.bind_eq_some_iff, Option.pure_def,
    Option.some.injEq, Prod.mk.injEq]
  constructor
  · rintro ⟨i, hi, x, hx, rfl, rfl⟩
    exact ⟨hi, hx⟩
  · rintro ⟨hi, hx⟩
    exact ⟨id, hi, e, hx, rfl, rfl⟩

/-- Bound names stand for entities of that name, and so does the function around the current
place. -/
structure Closed (env : Env) : Prop where
  bound : ∀ name id, env.scope.lookup? name = some id → ∃ e, env.entities.get? id = some e ∧
    e.name = name
  function : ∀ id, env.scope.frame.function = some id → ∃ e, env.entities.get? id = some e

theorem Closed.lookup?_eq_none {env : Env} {name : String} (h : env.Closed)
    (hn : env.resolve? name = none) : env.scope.lookup? name = none := by
  cases hl : env.scope.lookup? name with
  | none => rfl
  | some id =>
    obtain ⟨e, he, -⟩ := h.bound name id hl
    rw [resolve?_eq_some_iff.2 ⟨hl, he⟩] at hn
    cases hn

theorem Closed.grow {env : Env} {a : Arena} (h : env.Closed) (ha : env.entities.Grows a) :
    Closed { env with entities := a } where
  bound name id hl := by
    obtain ⟨e, he, hn⟩ := h.bound name id hl
    exact ⟨e, ha.get? he, hn⟩
  function id hf := by
    obtain ⟨e, he⟩ := h.function id hf
    exact ⟨e, ha.get? he⟩

theorem Closed.declare {env : Env} (h : env.Closed) (e : Entity) : (env.declare e).Closed where
  bound name id hl := by
    simp only [Env.declare, Scope.lookup?_declare] at hl
    split at hl
    next hn =>
      cases hl
      exact ⟨e, Arena.get?_add_next _ _, hn.symm⟩
    next =>
      obtain ⟨x, hx, hn⟩ := h.bound name id hl
      refine ⟨x, ?_, hn⟩
      simp only [Env.declare, Arena.get?_add]
      rw [if_neg, hx]
      rintro rfl
      exact Nat.lt_irrefl _ (Arena.lt_size_iff.2 ⟨x, hx⟩)
  function id hf := by
    obtain ⟨x, hx⟩ := h.function id hf
    obtain hlt := Arena.lt_size_iff.2 ⟨x, hx⟩
    exact Arena.lt_size_iff.1 (by simp only [Env.declare, Arena.size_add]; omega)

theorem Closed.enter {env : Env} {function : Option EntityId} (h : env.Closed) (inLoop : Bool)
    (hf : ∀ id, function = some id → ∃ e, env.entities.get? id = some e) :
    Closed { env with scope := env.scope.enter inLoop function } where
  bound name id hl := h.bound name id (by rwa [Scope.lookup?_enter] at hl)
  function := hf

theorem builtins_closed : Env.builtins.Closed := by
  have hfold (bs : List Builtin) {env : Env} (h : env.Closed) :
      (bs.foldl (fun env b => env.declare (.ofBuiltin b)) env).Closed := by
    induction bs generalizing env with
    | nil => exact h
    | cons b bs ih => exact ih (h.declare _)
  refine hfold Builtin.all ⟨?_, ?_⟩
  · intro name id hl
    cases hl
  · intro id hf
    cases hf

theorem initial_closed : Env.initial.Closed :=
  builtins_closed.enter _ builtins_closed.function

end Env
end Scriptor
