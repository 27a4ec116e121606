import Mathlib.Data.List.Nodup
import Mathlib.Tactic.IntervalCases
import Scriptor.Proofs.Environment
import Scriptor.Proofs.Lexemes
import Scriptor.Script.Statement

namespace Scriptor

def Arena.isOwn (a : Arena) (id : EntityId) : Bool :=
  (a.get? id).any (·.builtin.isNone)

theorem Arena.isOwn_iff {a : Arena} {id : EntityId} :
    a.isOwn id = true ↔ ∃ e, a.get? id = some e ∧ e.builtin = none := by
  simp [isOwn, Option.any_eq_true]

theorem Arena.isOwn_of_builtin {a : Arena} {id : EntityId} {e : Entity} {b : Builtin}
    (he : a.get? id = some e) (hb : e.builtin = some b) : a.isOwn id = false := by
  simp [isOwn, he, hb]

namespace Script

variable {a : Arena} {named : List EntityId} {id : EntityId}

/-- The spelling of an entity once the entities `named` have their names. -/
def spelled (a : Arena) (named : List EntityId) (id : EntityId) : String :=
  match a.get? id with
  | none => ""
  | some e =>
    match e.builtin with
    | some b => b.target
    | none => e.name ++ "_" ++ toString (named.idxOf id + 1)

theorem spelled_of_builtin {e : Entity} {b : Builtin} (he : a.get? id = some e)
    (hb : e.builtin = some b) : spelled a named id = b.target := by
  simp only [spelled, he, hb]

theorem spelled_of_own {e : Entity} (he : a.get? id = some e) (hb : e.builtin = none) :
    spelled a named id = e.name ++ "_" ++ toString (named.idxOf id + 1) := by
  simp only [spelled, he, hb]

theorem spelled_append (h : a.isOwn id = true → id ∈ named) (more : List EntityId) :
    spelled a (named ++ more) id = spelled a named id := by
  unfold spelled
  split
  next => rfl
  next e he =>
    split
    next => rfl
    next hb =>
      have hmem : id ∈ named := h (Arena.isOwn_iff.2 ⟨e, he, hb⟩)
      rw [List.idxOf_append_of_mem hmem]

/-- The entities that have names once `id` has been written. -/
def visit (a : Arena) (named : List EntityId) (id : EntityId) : List EntityId :=
  if a.isOwn id = true ∧ id ∉ named then named ++ [id] else named

theorem visit_append (a : Arena) (named : List EntityId) (id : EntityId) :
    ∃ more, visit a named id = named ++ more := by
  rw [visit]
  split
  next => exact ⟨[id], rfl⟩
  next => exact ⟨[], (List.append_nil named).symm⟩

theorem mem_visit (h : a.isOwn id = true) : id ∈ visit a named id := by
  rw [visit]
  split
  next => simp
  next hid => exact not_not.1 fun hmem => hid ⟨h, hmem⟩

theorem foldl_visit_append (a : Arena) (named ids : List EntityId) :
    ∃ more, ids.foldl (visit a) named = named ++ more := by
  induction ids generalizing named with
  | nil => exact ⟨[], (List.append_nil named).symm⟩
  | cons id ids ih =>
    obtain ⟨more, hmore⟩ := visit_append a named id
    obtain ⟨more', hmore'⟩ := ih (named ++ more)
    refine ⟨more ++ more', ?_⟩
    rw [List.foldl_cons, hmore, hmore', List.append_assoc]

/-- The table holds the spellings of exactly the entities `named`, in this order. -/
structure Writer.Names (w : Writer) (named : List EntityId) : Prop where
  names_eq : w.names = named.map fun id => (id, spelled w.entities named id)
  count_eq : w.count = named.length
  nodup : named.Nodup
  own : ∀ id ∈ named, w.entities.isOwn id = true

theorem Writer.start_names (a : Arena) : (Writer.start a).Names [] :=
  ⟨rfl, rfl, List.nodup_nil, List.forall_mem_nil _⟩

theorem lookup_map_self {β : Type} (f : EntityId → β) (ids : List EntityId) (id : EntityId) :
    (ids.map fun i => (i, f i)).lookup id = if id ∈ ids then some (f id) else none := by
  induction ids with
  | nil => rfl
  | cons i ids ih =>
    by_cases h : id = i
    · subst h
      simp
    · simp [List.lookup_cons, beq_false_of_ne h, ih, h]

namespace Writer.Names

variable {w : Writer}

theorem lookup_of_mem (h : w.Names named) (hid : id ∈ named) :
    w.names.lookup id = some (spelled w.entities named id) := by
  rw [h.names_eq, lookup_map_self, if_pos hid]

theorem lookup_of_not_mem (h : w.Names named) (hid : id ∉ named) : w.names.lookup id = none := by
  rw [h.names_eq, lookup_map_self, if_neg hid]

theorem add {e : Entity} (h : w.Names named) (hid : id ∉ named) (he : w.entities.get? id = some e)
    (hb : e.builtin = none) {name : String}
    (hname : name = e.name ++ "_" ++ toString (w.count + 1)) :
    name = spelled w.entities (named ++ [id]) id ∧
      { w with names := w.names ++ [(id, name)], count := w.count + 1 }.Names (named ++ [id]) := by
  have hspelled : name = spelled w.entities (named ++ [id]) id := by
    rw [hname, h.count_eq, spelled_of_own he hb, List.idxOf_append_of_notMem hid]
    simp
  have hold : (named.map fun i => (i, spelled w.entities named i)) =
      named.map fun i => (i, spelled w.entities (named ++ [id]) i) := by
    apply List.map_congr_left
    intro i hi
    rw [spelled_append fun _ => hi]
  refine ⟨hspelled, ?_, ?_, ?_, ?_⟩
  · change w.names ++ [(id, name)] = (named ++ [id]).map fun i =>
      (i, spelled w.entities (named ++ [id]) i)
    rw [h.names_eq, hold, List.map_append, hspelled]
    rfl
  · rw [h.count_eq, List.length_append, List.length_singleton]
  · rw [List.nodup_append]
    refine ⟨h.nodup, List.nodup_singleton id, ?_⟩
    intro i hi j hj
    rw [List.mem_singleton.1 hj]
    rintro rfl
    exact hid hi
  · intro i hi
    rcases List.mem_append.1 hi with hi | hi
    · exact h.own i hi
    · rw [List.mem_singleton.1 hi]
      exact Arena.isOwn_iff.2 ⟨e, he, hb⟩

end Writer.Names

structure Writer.Alike (w w' : Writer) : Prop where
  entities_eq : w'.entities = w.entities
  lines_eq : w'.lines = w.lines
  indent_eq : w'.indent = w.indent

theorem Writer.Alike.refl (w : Writer) : w.Alike w := ⟨rfl, rfl, rfl⟩

theorem Writer.Alike.trans {w w' w'' : Writer} (h : w.Alike w') (h' : w'.Alike w'') : w.Alike w'' :=
  ⟨h'.entities_eq.trans h.entities_eq, h'.lines_eq.trans h.lines_eq,
    h'.indent_eq.trans h.indent_eq⟩

theorem nameOf_run {w : Writer} (h : w.Names named) (hid : id.index < w.entities.size) :
    ∃ w', (nameOf id).run w = .ok (spelled w.entities (visit w.entities named id) id, w') ∧
      w'.Names (visit w.entities named id) ∧ w.Alike w' := by
  obtain ⟨e, he⟩ := Arena.lt_size_iff.1 hid
  rw [nameOf, StateT.run_bind, StateT.run_get, pure_bind]
  dsimp only
  rw [he]
  dsimp only
  cases hb : e.builtin with
  | some b =>
    have hvisit : visit w.entities named id = named := by
      simp [visit, Arena.isOwn_of_builtin he hb]
    rw [hvisit, spelled_of_builtin he hb]
    exact ⟨w, rfl, h, .refl w⟩
  | none =>
    have hown : w.entities.isOwn id = true := Arena.isOwn_iff.2 ⟨e, he, hb⟩
    dsimp only
    by_cases hmem : id ∈ named
    · have hvisit : visit w.entities named id = named := by simp [visit, hmem]
      rw [hvisit, h.lookup_of_mem hmem]
      exact ⟨w, rfl, h, .refl w⟩
    · have hvisit : visit w.entities named id = named ++ [id] := by simp [visit, hmem, hown]
      obtain ⟨hname, hadd⟩ := h.add hmem he hb rfl
      rw [hvisit, h.lookup_of_not_mem hmem, ← hname]
      exact ⟨_, rfl, hadd, rfl, rfl, rfl⟩

/-- Writing names one after the other. The names given last do not change those given first. -/
theorem names_run {w : Writer} {ids : List EntityId} (h : w.Names named)
    (hids : ∀ id ∈ ids, id.index < w.entities.size) :
    ∃ w', (names ids).run w =
      .ok (ids.map (spelled w.entities (ids.foldl (visit w.entities) named)), w') ∧
      w'.Names (ids.foldl (visit w.entities) named) ∧ w'.entities = w.entities := by
  induction ids generalizing w named with
  | nil => exact ⟨w, rfl, h, rfl⟩
  | cons id ids ih =>
    rw [List.forall_mem_cons] at hids
    obtain ⟨w₁, hrun, h₁, hw₁, -⟩ := nameOf_run h hids.1
    rw [← hw₁] at hids
    obtain ⟨w₂, hrun', h₂, hw₂⟩ := ih h₁ hids.2
    rw [hw₁] at hrun' h₂ hw₂
    refine ⟨w₂, ?_, h₂, hw₂⟩
    obtain ⟨more, hmore⟩ := foldl_visit_append w.entities (visit w.entities named id) ids
    have hspelled :
        spelled w.entities (ids.foldl (visit w.entities) (visit w.entities named id)) id =
        spelled w.entities (visit w.entities named id) id := by
      rw [hmore, spelled_append mem_visit]
    rw [names, StateT.run_bind, hrun]
    change (names ids >>= fun ns => pure (_ :: ns)).run w₁ = _
    rw [StateT.run_bind, hrun', List.map_cons, List.foldl_cons, hspelled]
    rfl

/-- Visiting collects the entities of the program as they are first met. -/
theorem foldl_visit (a : Arena) (done ids : List EntityId) :
    ids.foldl (visit a) (done.filter a.isOwn).eraseDups =
      ((done ++ ids).filter a.isOwn).eraseDups := by
  induction ids generalizing done with
  | nil => rw [List.append_nil]; rfl
  | cons id ids ih =>
    have hvisit : visit a (done.filter a.isOwn).eraseDups id =
        ((done ++ [id]).filter a.isOwn).eraseDups := by
      rw [visit, List.filter_append, List.eraseDups_append]
      by_cases hown : a.isOwn id = true
      · by_cases hmem : id ∈ done <;> simp [hown, hmem, List.removeAll, List.eraseDups_cons]
      · simp [hown]
    rw [List.foldl_cons, hvisit, ih, List.append_assoc]
    rfl

theorem toList_toString (n : Nat) : (toString n).toList = Nat.toDigits 10 n := by
  simp [Nat.repr]

theorem digitsValue_toDigits (n : Nat) : Number.digitsValue (Nat.toDigits 10 n) = n := by
  have hdigit (d : Nat) (hd : d < 10) : d.digitChar.toNat - '0'.toNat = d := by
    interval_cases d <;> rfl
  induction n using Nat.strong_induction_on with
  | h n ih =>
    by_cases hn : n < 10
    · rw [Nat.toDigits_of_lt_base hn, Number.digitsValue, List.foldl_cons,
        List.foldl_nil, hdigit n hn]
      omega
    · have hlast := hdigit (n % 10) (Nat.mod_lt n (by decide))
      have hfront := ih (n / 10) (by omega)
      rw [Nat.toDigits_of_base_le (by decide) (Nat.le_of_not_lt hn)]
      rw [Number.digitsValue] at hfront ⊢
      rw [List.foldl_append, hfront, List.foldl_cons, List.foldl_nil, hlast]
      omega

theorem isDigit_of_mem_toString {n : Nat} {c : Char} (h : c ∈ (toString n).toList) :
    c.isDigit = true := by
  rw [toList_toString] at h
  exact Nat.isDigit_of_mem_toDigits (by decide) (by decide) h

theorem underscore_not_mem_toString (n : Nat) : '_' ∉ (toString n).toList := by
  intro h
  exact absurd (isDigit_of_mem_toString h) (by decide)

/-- The last underscore is where a name ends. -/
theorem eq_of_append_underscore {cs cs' ds ds' : List Char}
    (h : cs ++ '_' :: ds = cs' ++ '_' :: ds') (hd : '_' ∉ ds) (hd' : '_' ∉ ds') : ds = ds' := by
  rcases List.append_eq_append_iff.1 h with ⟨mid, -, hmid⟩ | ⟨mid, -, hmid⟩
  · cases mid with
    | nil => exact (List.cons.inj hmid).2
    | cons c mid =>
      rw [(List.cons.inj hmid).2] at hd
      simp at hd
  · cases mid with
    | nil => exact (List.cons.inj hmid).2.symm
    | cons c mid =>
      rw [(List.cons.inj hmid).2] at hd'
      simp at hd'

/-- Numbers keep names apart, also those that end in a number themselves. -/
theorem numbered_injective {name name' : String} {n n' : Nat}
    (h : name ++ "_" ++ toString n = name' ++ "_" ++ toString n') : n = n' := by
  have hlist : name.toList ++ '_' :: (toString n).toList =
      name'.toList ++ '_' :: (toString n').toList := by
    have := congrArg String.toList h
    simpa using this
  have hdigits :=
    eq_of_append_underscore hlist (underscore_not_mem_toString n) (underscore_not_mem_toString n')
  rw [toList_toString, toList_toString] at hdigits
  rw [← digitsValue_toDigits n, hdigits, digitsValue_toDigits]

theorem underscore_not_mem_target (b : Builtin) : '_' ∉ b.target.toList := by
  cases b <;> decide +kernel

theorem numbered_ne_target (name : String) (n : Nat) (b : Builtin) :
    name ++ "_" ++ toString n ≠ b.target := by
  intro h
  have hmem : '_' ∈ (name ++ "_" ++ toString n).toList := by simp
  rw [h] at hmem
  exact underscore_not_mem_target b hmem

theorem spelled_injective {id' : EntityId} (h : a.isOwn id = true) (h' : a.isOwn id' = true)
    (hid : id ∈ named) (hs : spelled a named id = spelled a named id') : id = id' := by
  obtain ⟨e, he, hb⟩ := Arena.isOwn_iff.1 h
  obtain ⟨e', he', hb'⟩ := Arena.isOwn_iff.1 h'
  rw [spelled_of_own he hb, spelled_of_own he' hb'] at hs
  have hindex := Nat.succ.inj (numbered_injective hs)
  exact (List.idxOf_inj hid).1 hindex

theorem mem_zip_map {f : EntityId → String} {ids : List EntityId} {s : String} :
    (id, s) ∈ ids.zip (ids.map f) ↔ id ∈ ids ∧ s = f id := by
  induction ids with
  | nil => simp
  | cons i ids ih =>
    simp only [List.map_cons, List.zip_cons_cons, List.mem_cons, Prod.mk.injEq, ih]
    constructor
    · rintro (⟨rfl, rfl⟩ | ⟨hid, rfl⟩)
      · exact ⟨.inl rfl, rfl⟩
      · exact ⟨.inr hid, rfl⟩
    · rintro ⟨rfl | hid, rfl⟩
      · exact .inl ⟨rfl, rfl⟩
      · exact .inr ⟨hid, rfl⟩

/-- Names never collide, whatever the entities are called. Entities of the program get the numbers
from one on, in the order in which they are first met, and what is built in has its own spelling and
no number. -/
theorem names_collision_free (a : Arena) (ids : List EntityId)
    (h : ∀ id ∈ ids, id.index < a.size) :
    ∃ texts w, (names ids).run (.start a) = .ok (texts, w) ∧ texts.length = ids.length ∧
      (∀ id s t, (id, s) ∈ ids.zip texts → (id, t) ∈ ids.zip texts → s = t) ∧
      (∀ id id' s, a.isOwn id = true → a.isOwn id' = true → (id, s) ∈ ids.zip texts →
        (id', s) ∈ ids.zip texts → id = id') ∧
      (∀ id s, a.isOwn id = true → (id, s) ∈ ids.zip texts →
        ∀ b : Builtin, s ≠ b.target) ∧
      (∀ id e b, a.get? id = some e → e.builtin = some b →
        (nameOf id).run w = .ok (b.target, w)) ∧
      w.names.map Prod.fst = (ids.filter a.isOwn).eraseDups ∧
      w.count = (ids.filter a.isOwn).eraseDups.length ∧
      ∀ k id, (ids.filter a.isOwn).eraseDups[k]? = some id →
        ∃ e, a.get? id = some e ∧
          (id, e.name ++ "_" ++ toString (k + 1)) ∈ ids.zip texts := by
  obtain ⟨w, hrun, hw, hentities⟩ := names_run (Writer.start_names a) h
  have hnamed : ids.foldl (visit a) [] = (ids.filter a.isOwn).eraseDups := foldl_visit a [] ids
  change (names ids).run _ = .ok (ids.map (spelled a (ids.foldl (visit a) [])), w) at hrun
  change w.Names (ids.foldl (visit a) []) at hw
  change w.entities = a at hentities
  rw [hnamed] at hrun hw
  have hzip {id : EntityId} {s : String} :
      (id, s) ∈ ids.zip (ids.map (spelled a (ids.filter a.isOwn).eraseDups)) ↔
        id ∈ ids ∧ s = spelled a (ids.filter a.isOwn).eraseDups id := by
    rw [mem_zip_map]
  have hmem {id : EntityId} (hown : a.isOwn id = true) (hid : id ∈ ids) :
      id ∈ (ids.filter a.isOwn).eraseDups :=
    List.mem_eraseDups.2 (List.mem_filter.2 ⟨hid, hown⟩)
  refine ⟨_, w, hrun, List.length_map _, ?_, ?_, ?_, ?_, ?_, hw.count_eq, ?_⟩
  · intro id s t hs ht
    rw [(hzip.1 hs).2, (hzip.1 ht).2]
  · intro id id' s hown hown' hs hs'
    obtain ⟨hid, rfl⟩ := hzip.1 hs
    exact spelled_injective hown hown' (hmem hown hid) (hzip.1 hs').2
  · intro id s hown hs b
    obtain ⟨hid, rfl⟩ := hzip.1 hs
    obtain ⟨e, he, hb⟩ := Arena.isOwn_iff.1 hown
    rw [spelled_of_own he hb]
    exact numbered_ne_target _ _ b
  · intro id e b he hb
    rw [nameOf, StateT.run_bind, StateT.run_get, pure_bind]
    dsimp only
    rw [hentities, he]
    dsimp only
    rw [hb]
    rfl
  · rw [hw.names_eq, List.map_map]
    exact List.map_id _
  · intro k id hk
    have hid := List.mem_of_getElem? hk
    obtain ⟨hids, hown⟩ := List.mem_filter.1 (List.mem_eraseDups.1 hid)
    obtain ⟨e, he, hb⟩ := Arena.isOwn_iff.1 hown
    refine ⟨e, he, hzip.2 ⟨hids, ?_⟩⟩
    rw [spelled_of_own he hb]
    obtain ⟨hlt, rfl⟩ := List.getElem?_eq_some_iff.1 hk
    rw [hw.nodup.idxOf_getElem k hlt]

def clashing : Arena := ⟨#[.ofVariable "a_1" .int, .ofBuiltin .pi, .ofVariable "a" .int]⟩

theorem names_collision_free_clashing :
    ∃ texts w, (names [⟨0⟩, ⟨1⟩, ⟨2⟩, ⟨0⟩]).run (.start clashing) =
      .ok (texts, w) ∧ w.count = 2 ∧
      (⟨0⟩, "a_1_1") ∈ [(⟨0⟩ : EntityId), ⟨1⟩, ⟨2⟩, ⟨0⟩].zip texts ∧
      (⟨2⟩, "a_2") ∈ [(⟨0⟩ : EntityId), ⟨1⟩, ⟨2⟩, ⟨0⟩].zip texts := by
  obtain ⟨texts, w, hrun, -, -, -, -, -, -, hcount, hnumbers⟩ :=
    names_collision_free clashing [⟨0⟩, ⟨1⟩, ⟨2⟩, ⟨0⟩] (by decide)
  obtain ⟨e, he, hfirst⟩ := hnumbers 0 ⟨0⟩ (by decide +kernel)
  obtain ⟨e', he', hsecond⟩ := hnumbers 1 ⟨2⟩ (by decide +kernel)
  cases he
  cases he'
  exact ⟨texts, w, hrun, hcount, hfirst, hsecond⟩

end Script
end Scriptor
