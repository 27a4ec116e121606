import Mathlib.Data.List.Perm.Basic
import Mathlib.Order.Bounds.Basic
import Scriptor.Proofs.Precision

namespace Scriptor

namespace Ty

theorem Below.antisymm {s t : Ty} (h : s.Below t) (h' : t.Below s) : s = t := by
  induction h with
  | refl => rfl
  | any => cases h' <;> rfl
  | array hs ih =>
    cases h' with
    | refl => rfl
    | array h' => exact congrArg Ty.array (ih h')
  | dict hs ih =>
    cases h' with
    | refl => rfl
    | dict h' => exact congrArg Ty.dict (ih h')

instance : PartialOrder Ty where
  le := Below
  le_refl := .refl
  le_trans _ _ _ := .trans
  le_antisymm _ _ := Below.antisymm

variable {s t u v w : Ty}

theorem unify_any (t : Ty) : t.unify .any = some t := by
  cases t <;> rfl

theorem unify_self : (t : Ty) → t.unify t = some t
  | .array base | .dict base => by rw [unify, unify_self base, Option.map_some]
  | .function parameters result => if_pos rfl
  | .int | .float | .string | .bool | .void | .any => rfl

/-- A type has itself in common with all types below it. -/
theorem unify_of_le (h : s ≤ t) : s.unify t = some t ∧ t.unify s = some t := by
  induction h with
  | refl t => exact ⟨unify_self t, unify_self t⟩
  | any t => exact ⟨rfl, unify_any t⟩
  | array _ ih | dict _ ih => simp only [unify, ih.1, ih.2, Option.map_some, and_self]

/-- Types below a third one have a type in common that is below it as well. -/
theorem exists_unify_of_le (hs : s ≤ v) (ht : t ≤ v) :
    ∃ u, s.unify t = some u ∧ u ≤ v := by
  induction hs generalizing t with
  | refl v => exact ⟨v, (unify_of_le ht).2, le_rfl⟩
  | any v => exact ⟨t, rfl, ht⟩
  | @array s v hs ih =>
    cases ht with
    | refl => exact ⟨.array v, (unify_of_le (.array hs)).1, le_rfl⟩
    | any => exact ⟨.array s, rfl, .array hs⟩
    | array ht =>
      obtain ⟨u, hu, huv⟩ := ih ht
      exact ⟨.array u, by rw [unify, hu, Option.map_some], .array huv⟩
  | @dict s v hs ih =>
    cases ht with
    | refl => exact ⟨.dict v, (unify_of_le (.dict hs)).1, le_rfl⟩
    | any => exact ⟨.dict s, rfl, .dict hs⟩
    | dict ht =>
      obtain ⟨u, hu, huv⟩ := ih ht
      exact ⟨.dict u, by rw [unify, hu, Option.map_some], .dict huv⟩

/-- The type that two types have in common, by the types above it. -/
theorem unify_eq_some_iff : s.unify t = some u ↔ ∀ v, u ≤ v ↔ s ≤ v ∧ t ≤ v := by
  constructor
  · intro h v
    obtain ⟨hs, ht⟩ := unify_below h
    refine ⟨fun huv => ⟨hs.trans huv, ht.trans huv⟩, ?_⟩
    rintro ⟨hsv, htv⟩
    obtain ⟨w, hw, hwv⟩ := exists_unify_of_le hsv htv
    cases h.symm.trans hw
    exact hwv
  · intro h
    obtain ⟨hs, ht⟩ := (h u).1 le_rfl
    obtain ⟨w, hw, hwu⟩ := exists_unify_of_le hs ht
    have huw : u ≤ w := (h w).2 (unify_below hw)
    rw [hw, le_antisymm hwu huw]

theorem unify_eq_some_iff_isLUB : s.unify t = some u ↔ IsLUB {s, t} u := by
  rw [unify_eq_some_iff, isLUB_iff_le_iff]
  simp only [upperBounds_insert, upperBounds_singleton, Set.mem_inter_iff, Set.mem_Ici]

theorem unify_comm (s t : Ty) : s.unify t = t.unify s := by
  ext u
  simp only [unify_eq_some_iff, and_comm]

theorem bind_unify_eq_some_iff :
    ((s.unify t).bind fun x => x.unify u) = some w ↔ ∀ v, w ≤ v ↔ s ≤ v ∧
    t ≤ v ∧ u ≤ v := by
  rw [Option.bind_eq_some_iff]
  constructor
  · rintro ⟨x, hx, hw⟩ v
    rw [unify_eq_some_iff.1 hw, unify_eq_some_iff.1 hx, and_assoc]
  · intro h
    obtain ⟨hs, ht, -⟩ := (h w).1 le_rfl
    obtain ⟨x, hx, -⟩ := exists_unify_of_le hs ht
    refine ⟨x, hx, unify_eq_some_iff.2 fun v => ?_⟩
    rw [h, unify_eq_some_iff.1 hx, and_assoc]

/-- A failure within makes the whole fail, wherever the parentheses stand. -/
theorem unify_assoc (s t u : Ty) :
    ((s.unify t).bind fun x => x.unify u) = (t.unify u).bind s.unify := by
  have hright : (t.unify u).bind s.unify = (t.unify u).bind fun x => x.unify s :=
    congrArg _ (funext (unify_comm s))
  ext w
  rw [hright, bind_unify_eq_some_iff, bind_unify_eq_some_iff]
  refine forall_congr' fun v => iff_congr Iff.rfl ?_
  rw [and_comm, and_assoc]

theorem accepts_iff_isSome_unify : s.accepts t = true ↔ (s.unify t).isSome = true := by
  fun_induction unify s t with
  | case1 t => exact iff_of_true rfl rfl
  | case2 s => exact iff_of_true (accepts_any s) rfl
  | case3 s t ih | case4 s t ih => rw [accepts, Option.isSome_map, ih]
  | case5 => simp_all [accepts]
  | case6 => simp_all [accepts]

def join (s t : Option Ty) : Option Ty := s.bind fun s => t.bind s.unify

instance : Std.Commutative join where
  comm s t := by
    cases s with
    | none => cases t <;> rfl
    | some s =>
      cases t with
      | none => rfl
      | some t => exact unify_comm s t

instance : Std.Associative join where
  assoc s t u := by
    cases s with
    | none => rfl
    | some s =>
      cases t with
      | none => rfl
      | some t =>
        cases u with
        | none => simp only [join, Option.bind_none, Option.bind_fun_none]
        | some u => exact unify_assoc s t u

end Ty

section Collections

open Check

variable {env : Env}

theorem toOption_bind {ε α β : Type} (x : Except ε α) (f : α → Except ε β) :
    (x >>= f).toOption = x.toOption.bind fun a => (f a).toOption := by
  cases x <;> rfl

theorem toOption_pure {ε α : Type} (a : α) : (pure a : Except ε α).toOption = some a := rfl

theorem Check.toOption_requireValue (t : Typed.Expr) (position : Position) :
    (requireValue t position).toOption = if t.ty = .void then none else some () := by
  by_cases h : t.ty = .void
  · rw [if_pos h, requireValue, h]
    rfl
  · rw [if_neg h, requireValue, require, if_pos (decide_eq_true h)]
    rfl

theorem Check.toOption_unify (s t : Ty) (position : Position) :
    (Check.unify s t position).toOption = s.unify t := by
  rw [Check.unify]
  cases s.unify t <;> rfl

def Expr.ty? (env : Env) (e : Expr) : Option Ty := (e.check env).toOption.map Typed.Expr.ty

def Expr.valueTy? (env : Env) (e : Expr) : Option Ty := (e.ty? env).filter (· ≠ .void)

/-- The type of an element is joined to what is known of the type of all elements. -/
theorem checkElements_cons_ty (ty : Ty) (e : Expr) (es : List Expr) :
    (checkElements env ty (e :: es)).toOption.map Prod.snd =
      (Ty.join (some ty) (e.valueTy? env)).bind fun ty =>
        (checkElements env ty es).toOption.map Prod.snd := by
  simp only [checkElements, toOption_bind, toOption_requireValue, toOption_unify,
    toOption_pure, Expr.valueTy?, Expr.ty?, Ty.join]
  cases (e.check env).toOption with
  | none => rfl
  | some t =>
    by_cases hv : t.ty = .void
    · simp [hv, Option.filter_some]
    · simp [hv, Option.filter_some, Option.map_eq_bind, Option.bind_assoc]

theorem checkEntries_cons_ty (ty : Ty) (p : Expr × Expr) (ps : List (Expr × Expr)) :
    (checkEntries env ty (p :: ps)).toOption.map Prod.snd =
      (Ty.join (Ty.join (some ty) (p.1.valueTy? env)) (p.2.valueTy? env)).bind fun ty =>
        (checkEntries env ty ps).toOption.map Prod.snd := by
  simp only [checkEntries, toOption_bind, toOption_requireValue, toOption_unify,
    toOption_pure, Expr.valueTy?, Expr.ty?, Ty.join]
  cases (p.1.check env).toOption with
  | none => rfl
  | some k =>
    cases (p.2.check env).toOption with
    | none => simp
    | some v =>
      by_cases hk : k.ty = .void
      · simp [hk, Option.filter_some]
      · by_cases hv : v.ty = .void
        · simp [hv, Option.filter_some]
        · simp [hk, hv, Option.filter_some, Option.map_eq_bind, Option.bind_assoc]

theorem checkElements_ty (known : Option Ty) (es : List Expr) :
    (known.bind fun ty => (checkElements env ty es).toOption.map Prod.snd) =
      (es.map (Expr.valueTy? env)).foldl Ty.join known := by
  induction es generalizing known with
  | nil => cases known <;> rfl
  | cons e es ih =>
    rw [List.map_cons, List.foldl_cons, ← ih]
    cases known with
    | none => rfl
    | some ty => exact checkElements_cons_ty ty e es

def Expr.memberTypes (env : Env) (ps : List (Expr × Expr)) : List (Option Ty) :=
  ps.flatMap fun p => [p.1.valueTy? env, p.2.valueTy? env]

theorem checkEntries_ty (known : Option Ty) (ps : List (Expr × Expr)) :
    (known.bind fun ty => (checkEntries env ty ps).toOption.map Prod.snd) =
      (Expr.memberTypes env ps).foldl Ty.join known := by
  induction ps generalizing known with
  | nil => cases known <;> rfl
  | cons p ps ih =>
    rw [Expr.memberTypes, List.flatMap_cons, List.foldl_append]
    refine Eq.trans ?_ (ih _)
    cases known with
    | none => rfl
    | some ty => exact checkEntries_cons_ty ty p ps

theorem Expr.ty?_array (es : List Expr) (span : Span) :
    (Expr.array es span).ty? env =
      ((es.map (Expr.valueTy? env)).foldl Ty.join (some .any)).map .array := by
  rw [← checkElements_ty, Option.bind_some, Expr.ty?, Expr.check, toOption_bind]
  cases (checkElements env .any es).toOption <;> rfl

theorem Expr.ty?_dict (ps : List (Expr × Expr)) (span : Span) :
    (Expr.dict ps span).ty? env =
      ((Expr.memberTypes env ps).foldl Ty.join (some .any)).map .dict := by
  rw [← checkEntries_ty, Option.bind_some, Expr.ty?, Expr.check, toOption_bind]
  cases (checkEntries env .any ps).toOption <;> rfl

theorem Expr.ty?_array_of_perm {es es' : List Expr} (h : es.Perm es') (span span' : Span) :
    (Expr.array es span).ty? env = (Expr.array es' span').ty? env := by
  rw [Expr.ty?_array, Expr.ty?_array, (h.map _).foldl_eq]

theorem Expr.ty?_dict_of_perm {ps ps' : List (Expr × Expr)}
    (h : (Expr.memberTypes env ps).Perm (Expr.memberTypes env ps')) (span span' : Span) :
    (Expr.dict ps span).ty? env = (Expr.dict ps' span').ty? env := by
  rw [Expr.ty?_dict, Expr.ty?_dict, h.foldl_eq]

theorem Expr.memberTypes_swap (before after : List (Expr × Expr)) (p : Expr × Expr) :
    (Expr.memberTypes env (before ++ p :: after)).Perm
      (Expr.memberTypes env (before ++ p.swap :: after)) := by
  simp only [Expr.memberTypes, List.flatMap_append, List.flatMap_cons]
  exact (List.Perm.refl _).append (.append_right _ (.swap _ _ _))

/-- The type that two types have in common is their join in the order of precision, in which an
unknown type is below all others; one accepts the other exactly if there is one. So the members of
an array and the entries of a dictionary can be put in any order, and keys exchanged with values:
what is accepted stays accepted, with the same type. -/
theorem Ty.unify_join :
    (∀ s t : Ty, s.accepts t = true ↔ (s.unify t).isSome = true) ∧
    (∀ s : Ty, s.unify s = some s) ∧
    (∀ s t : Ty, s.unify t = t.unify s) ∧
    (∀ s t u : Ty, ((s.unify t).bind fun x => x.unify u) = (t.unify u).bind s.unify) ∧
    (∀ s : Ty, Ty.any.unify s = some s ∧ s.unify .any = some s) ∧
    (∀ s t u : Ty, s.unify t = some u ↔ IsLUB {s, t} u) ∧
    (∀ (env : Env) (es es' : List Expr) (span span' : Span), es.Perm es' →
      (Expr.array es span).ty? env = (Expr.array es' span').ty? env) ∧
    (∀ (env : Env) (ps ps' : List (Expr × Expr)) (span span' : Span), ps.Perm ps' →
      (Expr.dict ps span).ty? env = (Expr.dict ps' span').ty? env) ∧
    ∀ (env : Env) (before after : List (Expr × Expr)) (p : Expr × Expr) (span span' : Span),
      (Expr.dict (before ++ p :: after) span).ty? env =
        (Expr.dict (before ++ p.swap :: after) span').ty? env := by
  refine ⟨fun s t => accepts_iff_isSome_unify, unify_self, unify_comm, unify_assoc, fun s =>
    ⟨rfl, unify_any s⟩,
    fun s t u => unify_eq_some_iff_isLUB, ?_, ?_, ?_⟩
  · intro env es es' span span' h
    exact Expr.ty?_array_of_perm h span span'
  · intro env ps ps' span span' h
    exact Expr.ty?_dict_of_perm (h.flatMap_right _) span span'
  · intro env before after p span span'
    exact Expr.ty?_dict_of_perm (Expr.memberTypes_swap before after p) span span'

def Expr.mixedArrays : List Expr :=
  [.array [] (.empty .nowhere), .array [.number "1" (.empty .nowhere)] (.empty .nowhere)]

def Expr.mixedEntries : List (Expr × Expr) := Expr.mixedArrays.zip Expr.mixedArrays.reverse

theorem Ty.unify_join_mixed :
    Expr.mixedArrays.reverse.Perm Expr.mixedArrays ∧
      (Expr.array Expr.mixedArrays (.empty .nowhere)).ty? .initial = some (.array (.array .int)) ∧
      (Expr.array Expr.mixedArrays.reverse (.empty .nowhere)).ty? .initial =
        some (.array (.array .int)) ∧
      Expr.mixedEntries.reverse.Perm Expr.mixedEntries ∧
      (Expr.dict Expr.mixedEntries (.empty .nowhere)).ty? .initial = some (.dict (.array .int)) ∧
      (Expr.dict Expr.mixedEntries.reverse (.empty .nowhere)).ty? .initial =
        some (.dict (.array .int)) := by
  obtain ⟨-, -, -, -, -, -, harray, hdict, -⟩ := Ty.unify_join
  have hes := List.reverse_perm Expr.mixedArrays
  have hps := List.reverse_perm Expr.mixedEntries
  exact ⟨hes, rfl, harray .initial _ _ _ (.empty .nowhere) hes, hps, rfl,
    hdict .initial _ _ _ (.empty .nowhere) hps⟩

end Collections

end Scriptor
