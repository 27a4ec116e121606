import Mathlib.Data.List.Forall2
import Scriptor.Tree.Basic
import Scriptor.Typed.Simplify.Statement

namespace Scriptor

section

variable {α β : Type} {R S : α → β → Prop} {as : List α} {bs : List β}

theorem forall₂_imp_of_mem (h : List.Forall₂ R as bs)
    (hS : ∀ a ∈ as, ∀ b, R a b → S a b) : List.Forall₂ S as bs := by
  induction h with
  | nil => exact .nil
  | cons hab _ ih =>
    rw [List.forall_mem_cons] at hS
    exact .cons (hS.1 _ hab) (ih hS.2)

theorem forall_mem_of_forall₂ {P : β → Prop} (h : List.Forall₂ R as bs)
    (hP : ∀ a ∈ as, ∀ b, R a b → P b) : ∀ b ∈ bs, P b := by
  induction h with
  | nil => exact List.forall_mem_nil _
  | cons hab _ ih =>
    rw [List.forall_mem_cons] at hP ⊢
    exact ⟨hP.1 _ hab, ih hP.2⟩

end

@[elab_as_elim, induction_eliminator]
theorem Expr.induct {motive : Expr → Prop}
    (number : ∀ text span, motive (.number text span))
    (string : ∀ value span, motive (.string value span))
    (boolean : ∀ value span, motive (.boolean value span))
    (symbol : ∀ name span, motive (.symbol name span))
    (binary : ∀ left op right span, motive left → motive right →
      motive (.binary left op right span))
    (unary : ∀ op operand span, motive operand → motive (.unary op operand span))
    (conditional : ∀ test consequent alternate span, motive test → motive consequent →
      motive alternate → motive (.conditional test consequent alternate span))
    (call : ∀ callee args span, motive callee → (∀ e ∈ args, motive e) →
      motive (.call callee args span))
    (subscript : ∀ indexed index span, motive indexed → motive index →
      motive (.subscript indexed index span))
    (member : ∀ object property propertySpan span, motive object →
      motive (.member object property propertySpan span))
    (array : ∀ elements span, (∀ e ∈ elements, motive e) → motive (.array elements span))
    (dict : ∀ entries span, (∀ p ∈ entries, motive p.1 ∧ motive p.2) →
      motive (.dict entries span))
    (e : Expr) : motive e :=
  @Expr.rec motive (fun es => ∀ e ∈ es, motive e)
    (fun ps => ∀ p ∈ ps, motive p.1 ∧ motive p.2)
    (fun p => motive p.1 ∧ motive p.2) number string boolean symbol binary unary conditional call
    subscript member
    array dict (List.forall_mem_nil _) (fun _ _ h hs => List.forall_mem_cons.2 ⟨h, hs⟩)
    (List.forall_mem_nil _)
    (fun _ _ h hs => List.forall_mem_cons.2 ⟨h, hs⟩) (fun _ _ h h' => ⟨h, h'⟩) e

namespace Typed

@[elab_as_elim, induction_eliminator]
theorem Expr.induct {motive : Expr → Prop}
    (literal : ∀ value, motive (.literal value))
    (var : ∀ id ty, motive (.var id ty))
    (binary : ∀ left op right ty, motive left → motive right →
      motive (.binary left op right ty))
    (unary : ∀ op operand ty, motive operand → motive (.unary op operand ty))
    (conditional : ∀ test consequent alternate ty, motive test → motive consequent →
      motive alternate → motive (.conditional test consequent alternate ty))
    (call : ∀ callee args ty, motive callee → (∀ e ∈ args, motive e) →
      motive (.call callee args ty))
    (subscript : ∀ indexed index ty, motive indexed → motive index →
      motive (.subscript indexed index ty))
    (array : ∀ elements ty, (∀ e ∈ elements, motive e) → motive (.array elements ty))
    (dict : ∀ entries ty, (∀ p ∈ entries, motive p.1 ∧ motive p.2) →
      motive (.dict entries ty))
    (e : Expr) : motive e :=
  @Expr.rec motive (fun es => ∀ e ∈ es, motive e)
    (fun ps => ∀ p ∈ ps, motive p.1 ∧ motive p.2)
    (fun p => motive p.1 ∧ motive p.2) literal var binary unary conditional call
    subscript array dict
    (List.forall_mem_nil _) (fun _ _ h hs => List.forall_mem_cons.2 ⟨h, hs⟩)
    (List.forall_mem_nil _)
    (fun _ _ h hs => List.forall_mem_cons.2 ⟨h, hs⟩) (fun _ _ h h' => ⟨h, h'⟩) e

namespace Expr

theorem simplifyAll_eq_map (es : List Expr) : simplifyAll es = es.map simplify := by
  induction es with
  | nil => rfl
  | cons e es ih => simp only [simplifyAll, ih, List.map_cons]

theorem simplifyEntries_eq_map (ps : List (Expr × Expr)) :
    simplifyEntries ps = ps.map fun p => (p.1.simplify, p.2.simplify) := by
  induction ps with
  | nil => rfl
  | cons p ps ih => simp only [simplifyEntries, ih, List.map_cons]

end Expr
end Typed
end Scriptor
