import Scriptor.Proofs.Coercion
import Scriptor.Proofs.NormalForm

namespace Scriptor

/-- What an expression is evaluated with: the values of the variables, and what calls and elements
yield. Numbers are not written as nothing. -/
structure Scene extends Script.Engine where
  text_ne_empty : ∀ x, text x ≠ ""
  value : EntityId → Script.Value
  call? : Script.Value → List Script.Value → Option Script.Value
  element? : Script.Value → Script.Value → Option Script.Value
  /-- The object that an array or a map is. -/
  array : List Script.Value → Nat
  dict : List (Script.Value × Script.Value) → Nat

namespace Typed

def Literal.scriptValue : Literal → Script.Value
  | .int n => .number (Float.ofInt n)
  | .float x => .number x
  | .string s => .string s
  | .bool b => .bool b

namespace Expr

mutual

def value? (σ : Scene) : Expr → Option Script.Value
  | .literal value => some value.scriptValue
  | .var id _ => some (σ.value id)
  | .binary left op right _ => (left.value? σ).bind fun v => σ.binary? op v (right.value? σ)
  | .unary op operand _ => (operand.value? σ).bind (σ.unary? op)
  | .conditional test consequent alternate _ =>
    (test.value? σ).bind fun v => if v.isTruthy then consequent.value? σ else alternate.value? σ
  | .call callee args _ => (callee.value? σ).bind fun v => (values? σ args).bind (σ.call? v)
  | .subscript indexed index _ =>
    (indexed.value? σ).bind fun v => (index.value? σ).bind (σ.element? v)
  | .array elements _ => (values? σ elements).map fun vs => .object (σ.array vs)
  | .dict entries _ => (entryValues? σ entries).map fun vs => .object (σ.dict vs)

def values? (σ : Scene) : List Expr → Option (List Script.Value)
  | [] => some []
  | e :: es => (e.value? σ).bind fun v => (values? σ es).map (v :: ·)

def entryValues? (σ : Scene) : List (Expr × Expr) → Option (List (Script.Value × Script.Value))
  | [] => some []
  | (key, value) :: es =>
    (key.value? σ).bind fun v => (value.value? σ).bind fun w =>
      (entryValues? σ es).map ((v, w) :: ·)

end

end Expr
end Typed

/-- Whether a variable of the type is meant to hold the value. -/
def Ty.Admits : Ty → Script.Value → Prop
  | .int, v | .float, v => ∃ x, v = .number x
  | .bool, v => ∃ b, v = .bool b
  | .string, v => ∃ s, v = .string s
  | _, _ => True

section Operators

variable {σ : Scene} {t : Ty} {op : BinaryOp} {u v w : Script.Value} {right : Option Script.Value}

theorem Ty.eq_bool_of_known (h : t ∈ [.bool, .any]) (hk : t.Known) : t = .bool := by
  rcases List.mem_pair.1 h with rfl | rfl
  · rfl
  · exact hk.elim

theorem Ty.Admits.numeric (hv : t.Admits v) (h : t ∈ [.int, .float]) : ∃ x, v = .number x := by
  rcases List.mem_pair.1 h with rfl | rfl <;> exact hv

theorem Ty.Admits.number (hv : t.Admits v) (h : t ∈ [.int, .float, .any]) (hk : t.Known) :
    ∃ x, v = .number x := by
  simp only [List.mem_cons, List.not_mem_nil, or_false] at h
  rcases h with rfl | rfl | rfl
  · exact hv
  · exact hv
  · exact hk.elim

theorem Ty.admits_number (h : t ∈ [.int, .float, .any]) (x : Float) : t.Admits (.number x) := by
  simp only [List.mem_cons, List.not_mem_nil, or_false] at h
  rcases h with rfl | rfl | rfl
  · exact ⟨x, rfl⟩
  · exact ⟨x, rfl⟩
  · trivial

/-- An operator on values of its operands' type yields a value of its own type. -/
theorem Scene.strict?_admits (hop : op.isLogical = false) (ht : op.Takes t) (hk : t.Known)
    (hv : t.Admits v)
    (hw : t.Admits w) (h : σ.strict? op v w = some u) : (op.result t).Admits u := by
  cases op with
  | and | or => cases hop
  | equals | notEquals =>
    cases h
    exact ⟨_, rfl⟩
  | less | lessEquals | greater | greaterEquals =>
    obtain ⟨b, -, rfl⟩ := Option.map_eq_some_iff.1 h
    exact ⟨b, rfl⟩
  | add =>
    by_cases hs : t = .string
    · subst hs
      obtain ⟨s, rfl⟩ := hv
      obtain ⟨s', rfl⟩ := hw
      cases h
      exact ⟨_, rfl⟩
    · have ht : t ∈ [.int, .float, .any] := by
        simp only [BinaryOp.Takes, List.mem_cons, List.not_mem_nil, or_false] at ht ⊢
        tauto
      obtain ⟨x, rfl⟩ := hv.number ht hk
      obtain ⟨y, rfl⟩ := hw.number ht hk
      cases h
      exact Ty.admits_number ht _
  | divide =>
    obtain ⟨x, rfl⟩ := hv.number ht hk
    obtain ⟨y, rfl⟩ := hw.number ht hk
    cases h
    exact ⟨_, rfl⟩
  | subtract | multiply | modulo | power =>
    obtain ⟨x, rfl⟩ := hv.number ht hk
    obtain ⟨y, rfl⟩ := hw.number ht hk
    cases h
    exact Ty.admits_number ht _

theorem Scene.binary?_admits (ht : op.Takes t) (hk : t.Known) (hv : t.Admits v)
    (hw : ∀ w ∈ right, t.Admits w)
    (h : σ.binary? op v right = some u) : (op.result t).Admits u := by
  by_cases hop : op.isLogical = true
  · have hbool : t = .bool := by
      cases op with
      | and | or => exact Ty.eq_bool_of_known ht hk
      | _ => cases hop
    subst hbool
    cases op with
    | and =>
      rw [Script.Engine.binary?] at h
      split at h
      · exact hw u h
      · cases h
        exact hv
    | or =>
      rw [Script.Engine.binary?] at h
      split at h
      · cases h
        exact hv
      · exact hw u h
    | _ => cases hop
  · have hstrict : σ.binary? op v right = right.bind (σ.strict? op v) := by
      cases op with
      | and | or => exact absurd rfl hop
      | _ => rfl
    rw [hstrict] at h
    obtain ⟨w, hright, h⟩ := Option.bind_eq_some_iff.1 h
    exact Scene.strict?_admits (Bool.eq_false_iff.2 hop) ht hk hv (hw w hright) h

end Operators

namespace Typed.Expr

/-- Whether the script yields the value as it is: nothing is computed from it. -/
def isGiven : Expr → Bool
  | .var _ _ | .call _ _ _ | .subscript _ _ _ => true
  | _ => false

/-- Whether the variables, calls and elements within the expression have values of their types. -/
def Conforms (σ : Scene) (e : Expr) : Prop :=
  e.Every fun s => s.isGiven = true → ∀ v, s.value? σ = some v → s.ty.Admits v

variable {a : Arena} {σ : Scene} {e : Expr} {v : Script.Value}

theorem literal_admits {value : Literal} (hv : (literal value).value? σ = some v) :
    value.ty.Admits v := by
  cases hv
  cases value <;> exact ⟨_, rfl⟩

/-- Where nothing is of an unknown type, an expression has a value of its static type. -/
theorem WellTyped.admits (h : e.WellTyped a) (hk : e.Every (·.ty.Known)) (hσ : e.Conforms σ)
    (hv : e.value? σ = some v) : e.ty.Admits v := by
  induction e generalizing v with
  | literal value => exact literal_admits hv
  | var | call | subscript => exact hσ.self rfl v hv
  | array elements ty =>
    obtain ⟨-, base, -, rfl⟩ := h.1
    trivial
  | dict entries ty =>
    obtain ⟨-, base, -, rfl⟩ := h.1
    trivial
  | binary left op right ty ihl ihr =>
    obtain ⟨⟨htl, -, t, hu, rfl⟩, hl, hr⟩ := h
    obtain ⟨-, hkl, hkr⟩ := hk
    obtain ⟨-, hσl, hσr⟩ := hσ
    obtain ⟨u, hlu, hv⟩ := Option.bind_eq_some_iff.1 hv
    have hleft := ihl hl hkl hσl hlu
    have hright : ∀ w ∈ right.value? σ, right.ty.Admits w := fun w hw => ihr hr hkr hσr hw
    have hknown := hkl.self
    rw [(Ty.unify_below hu).1.eq_of_known hknown] at hleft htl hknown
    rw [(Ty.unify_below hu).2.eq_of_known hkr.self] at hright
    exact Scene.binary?_admits htl hknown hleft hright hv
  | unary op operand ty ih =>
    obtain ⟨hrule, ho⟩ := h
    obtain ⟨u, hu, hv⟩ := Option.bind_eq_some_iff.1 hv
    cases op with
    | negate =>
      obtain ⟨hty, rfl⟩ := hrule
      obtain ⟨x, rfl⟩ := (ih ho hk.2 hσ.2 hu).number hty hk.2.self
      cases hv
      exact Ty.admits_number hty _
    | not =>
      cases hv
      exact hrule.2 ▸ ⟨_, rfl⟩
  | conditional test consequent alternate ty iht ihc iha =>
    obtain ⟨⟨-, hu⟩, -, hc, ha⟩ := h
    obtain ⟨-, -, hkc, hka⟩ := hk
    obtain ⟨-, -, hσc, hσa⟩ := hσ
    obtain ⟨u, -, hv⟩ := Option.bind_eq_some_iff.1 hv
    change ty.Admits v
    split at hv
    · exact (Ty.unify_below hu).1.eq_of_known hkc.self ▸ ihc hc hkc hσc hv
    · exact (Ty.unify_below hu).2.eq_of_known hka.self ▸ iha ha hka hσa hv

end Typed.Expr

end Scriptor
