import Scriptor.Compile
import Scriptor.Proofs.Precision
import Scriptor.Proofs.Typing
import Scriptor.Proofs.WellFormed

namespace Scriptor.Typed

namespace Expr

variable {a : Arena} {left right l r e : Expr} {ty : Ty}

theorem isZero_literal (h : e.isZero = true) :
    ∃ value : Literal, e = .literal value ∧ value.ty ∈ [.int, .float] := by
  rcases eq_of_isZero h with rfl | ⟨x, rfl⟩
  · exact ⟨_, rfl, List.mem_cons_self⟩
  · exact ⟨_, rfl, List.mem_cons_of_mem _ List.mem_cons_self⟩

theorem fold?_subtract {x y : Literal} (hx : x.ty ∈ [.int, .float]) (hy : y.ty = x.ty) :
    fold? .subtract (.literal x) (.literal y) ≠ none := by
  cases x <;> cases y
    <;> simp_all [Literal.ty, fold?, Literal.fold?, Literal.foldInt?, Literal.foldFloat?]

/-- Zero minus an operand becomes a negation only if the operand is no literal: the two would have
one type. -/
theorem ne_literal_of_zeroSubtract (hrule : (binary left .subtract right ty).Rule a)
    (hl : l.ty.Below left.ty) (hr : r.ty.Below right.ty) (hf : fold? .subtract l r = none)
    (hz : l.isZero = true) (value : Literal) : r ≠ .literal value := by
  rintro rfl
  obtain ⟨x, rfl, hx⟩ := isZero_literal hz
  obtain ⟨-, -, common, hu, -⟩ := hrule
  have hxc := Literal.eq_of_below (hl.trans (Ty.unify_below hu).1)
  have hvc := Literal.eq_of_below (hr.trans (Ty.unify_below hu).2)
  exact fold?_subtract hx (hvc.symm.trans hxc) hf

theorem simplifyUnary_of_ne_literal {op : UnaryOp} (h : ∀ value, e ≠ .literal value) :
    simplifyUnary op e ty = .unary op e ty := by
  rcases simplifyUnary_cases op e ty with ⟨v, _, hv, -, -⟩ | hs
  · exact absurd hv (h v)
  · exact hs

theorem Reduces.simplify_eq {op : BinaryOp} (h : Reduces l op r ty e)
    (he : simplifyBinary l op r ty = e)
    (hrule : (binary left op right ty).Rule a) (hl : l.ty.Below left.ty) (hr : r.ty.Below right.ty)
    (ihl : l.simplify = l) (ihr : r.simplify = r) : e.simplify = e := by
  cases h with
  | folds => rfl
  | cancels hf hi =>
    rcases hi.outcome with rfl | rfl | ⟨value, rfl⟩ | ⟨rfl, hz, rfl⟩
    · exact ihl
    · exact ihr
    · rfl
    · rw [simplify, ihr]
      exact simplifyUnary_of_ne_literal (ne_literal_of_zeroSubtract hrule hl hr hf hz)
  | stays => rw [simplify, ihl, ihr, he]

/-- One pass over an expression is enough. -/
theorem WellTyped.simplify_simplify (h : e.WellTyped a) : e.simplify.simplify = e.simplify := by
  induction e with
  | literal value => rfl
  | var id ty => rfl
  | binary left op right ty ihl ihr =>
    obtain ⟨hrule, hl, hr⟩ := h
    rw [simplify]
    exact (simplifyBinary_reduces _ _ _ _).simplify_eq rfl hrule (simplify_ty_below hl)
      (simplify_ty_below hr) (ihl hl) (ihr hr)
  | unary op operand ty ih =>
    rw [simplify]
    rcases simplifyUnary_cases op operand.simplify ty with ⟨v, w, -, hw, -⟩ | hs
    · rw [hw]
      rfl
    · rw [hs, simplify, ih h.2, hs]
  | conditional test consequent alternate ty iht ihc iha =>
    obtain ⟨-, ht, hc, ha⟩ := h
    rw [simplify]
    rcases simplifyConditional_cases test.simplify consequent.simplify alternate.simplify ty with
      ⟨-, hs⟩ | ⟨-, hs⟩ | hs
    · rw [hs, ihc hc]
    · rw [hs, iha ha]
    · rw [hs, simplify, iht ht, ihc hc, iha ha, hs]
  | call callee args ty ihf ihs =>
    obtain ⟨-, hf, has⟩ := h
    simp only [simplify, simplifyAll_eq_map, ihf hf, List.map_map, call.injEq, true_and, and_true]
    exact List.map_congr_left fun e he => ihs e he (everyOf_iff.1 has e he)
  | subscript indexed index ty iha ihi => simp only [simplify, iha h.2.1, ihi h.2.2]
  | array elements ty ihs =>
    simp only [simplify, simplifyAll_eq_map, List.map_map, array.injEq, and_true]
    exact List.map_congr_left fun e he => ihs e he (everyOf_iff.1 h.2 e he)
  | dict entries ty ihs =>
    simp only [simplify, simplifyEntries_eq_map, List.map_map, dict.injEq, and_true]
    refine List.map_congr_left fun p hp => ?_
    obtain ⟨hk, hv⟩ := everyEntry_iff.1 h.2 p hp
    exact Prod.ext ((ihs p hp).1 hk) ((ihs p hp).2 hv)

def Settles (e : Expr) : Prop := e.simplify.simplify = e.simplify

theorem Settles.simplify (h : e.Settles) : e.simplify.Settles :=
  congrArg Expr.simplify h

theorem simplifyAll_simplifyAll {es : List Expr} (h : ∀ e ∈ es, e.Settles) :
    simplifyAll (simplifyAll es) = simplifyAll es := by
  rw [simplifyAll_eq_map, simplifyAll_eq_map, List.map_map]
  exact List.map_congr_left h

end Expr

namespace Stmt

theorem Holds.simplifyHeader_simplifyHeader {s : Stmt} (h : s.Holds Expr.Settles) :
    s.simplifyHeader.simplifyHeader = s.simplifyHeader := by
  cases s with
  | declaration id value => exact congrArg (declaration id) h
  | assignment target value => exact congrArg₂ assignment h.1 h.2
  | _ => rfl

mutual

/-- Whether the statement holds a loop that never runs and whose header assigns a variable to
itself. -/
def hasResidue : Stmt → Bool
  | .function _ _ body | .collectionFor _ _ body => anyResidue body
  | .rangeFor init _ test body =>
    if init.simplifyHeader.isDead test.simplify then init.simplifyHeader.isSelfAssignment
    else anyResidue body
  | _ => false

def anyResidue : List Stmt → Bool
  | [] => false
  | s :: ss => s.hasResidue || anyResidue ss

end

theorem hasResidue_of_simplify?_eq_none {s : Stmt} (h : s.simplify? = none) :
    s.hasResidue = false := by
  cases s with
  | rangeFor init update test body =>
    rw [Stmt.simplify?] at h
    rw [hasResidue]
    split at h
    next hd =>
      rw [if_pos hd]
      cases init with
      | assignment target value => cases h
      | _ => rfl
    next => cases h
  | assignment target value => rfl
  | _ => cases h

theorem length_simplifyAll_le (ss : List Stmt) : (simplifyAll ss).length ≤ ss.length := by
  induction ss with
  | nil => exact Nat.le_refl 0
  | cons s ss ih =>
    rw [simplifyAll, List.length_cons]
    split
    next => exact Nat.succ_le_succ ih
    next => exact Nat.le_succ_of_le ih

theorem Holds.simplify?_assignment {target value : Expr}
    (h : (assignment target value).Holds Expr.Settles) :
    (assignment target.simplify value.simplify).simplify? =
      some (assignment target.simplify value.simplify) ↔
        (assignment target.simplify value.simplify).isSelfAssignment = false := by
  obtain ⟨ht, hv⟩ := h
  rw [Stmt.simplify?, ht, hv, Option.ite_none_left_eq_some, Bool.not_eq_true]
  exact and_iff_left rfl

mutual

/-- A second pass leaves a simplified statement as it is, unless the first one left a residue in
it. -/
theorem Holds.simplify?_eq_some_iff :
    (s : Stmt) → {t : Stmt} → s.Holds Expr.Settles → s.simplify? = some t →
    (t.simplify? = some t ↔ s.hasResidue = false)
  | .declaration id value, _, h, ht => by
    cases ht
    exact iff_of_true (congrArg (fun v => some (declaration id v)) h) rfl
  | .assignment target value, _, h, ht => by
    rw [Stmt.simplify?, Option.ite_none_left_eq_some, Bool.not_eq_true] at ht
    cases ht.2
    exact iff_of_true (h.simplify?_assignment.2 ht.1) rfl
  | .function id parameters body, _, h, ht => by
    cases ht
    rw [hasResidue, ← simplifyAll_simplifyAll_iff body h, Stmt.simplify?,
      Option.some.injEq, function.injEq]
    exact ⟨fun h => h.2.2, fun h => ⟨rfl, rfl, h⟩⟩
  | .rangeFor init update test body, _, ⟨hi, hu, htest, hb⟩, ht => by
    rw [Stmt.simplify?] at ht
    rw [hasResidue]
    split at ht
    next hd =>
      rw [if_pos hd]
      cases init with
      | assignment target value =>
        cases ht
        exact hi.simplify?_assignment
      | _ => cases ht
    next hd =>
      cases ht
      rw [if_neg hd, ← simplifyAll_simplifyAll_iff body hb, Stmt.simplify?,
        hi.simplifyHeader_simplifyHeader, hu.simplifyHeader_simplifyHeader, htest, if_neg hd,
        Option.some.injEq, rangeFor.injEq]
      exact ⟨fun h => h.2.2.2, fun h => ⟨rfl, rfl, rfl, h⟩⟩
  | .collectionFor id collection body, _, ⟨hc, hb⟩, ht => by
    cases ht
    rw [hasResidue, ← simplifyAll_simplifyAll_iff body hb, Stmt.simplify?, hc, Option.some.injEq,
      collectionFor.injEq]
    exact ⟨fun h => h.2.2, fun h => ⟨rfl, rfl, h⟩⟩
  | .ret value, _, h, ht => by
    cases ht
    refine iff_of_true ?_ rfl
    cases value with
    | none => rfl
    | some e => exact congrArg (fun v => some (ret (some v))) (h e rfl)
  | .brk, _, _, ht => by
    cases ht
    exact iff_of_true rfl rfl
  | .call callee args, _, ⟨hf, has⟩, ht => by
    cases ht
    exact iff_of_true (congrArg some (congrArg₂ call hf (Expr.simplifyAll_simplifyAll has))) rfl
  | .print args, _, has, ht => by
    cases ht
    exact iff_of_true (congrArg (fun as => some (print as)) (Expr.simplifyAll_simplifyAll has)) rfl
  | .method object m args, _, ⟨ho, has⟩, ht => by
    cases ht
    exact iff_of_true
      (congrArg some (congrArg₂ (method · m ·) ho (Expr.simplifyAll_simplifyAll has))) rfl

theorem simplifyAll_simplifyAll_iff : (ss : List Stmt) → HoldsAll Expr.Settles ss →
    (simplifyAll (simplifyAll ss) = simplifyAll ss ↔ anyResidue ss = false)
  | [], _ => iff_of_true rfl rfl
  | s :: ss, ⟨hs, hss⟩ => by
    rw [anyResidue, Bool.or_eq_false_iff, ← simplifyAll_simplifyAll_iff ss hss, simplifyAll]
    cases ht : s.simplify? with
    | none => exact ⟨fun h => ⟨hasResidue_of_simplify?_eq_none ht, h⟩, fun h => h.2⟩
    | some t =>
      rw [← Holds.simplify?_eq_some_iff s hs ht]
      dsimp only
      rw [simplifyAll]
      cases hu : t.simplify? with
      | some u => rw [List.cons.injEq, Option.some.injEq]
      | none =>
        -- a block that loses a statement gets shorter
        refine iff_of_false ?_ nofun
        intro (h : simplifyAll (simplifyAll ss) = t :: simplifyAll ss)
        have hle := length_simplifyAll_le (simplifyAll ss)
        have hlen := congrArg List.length h
        rw [List.length_cons] at hlen
        omega

end

mutual

theorem Holds.hasResidue_simplify? :
    (s : Stmt) → {t : Stmt} → s.Holds Expr.Settles → s.simplify? = some t →
    t.hasResidue = false
  | .assignment _ _, _, _, ht => by
    rw [Stmt.simplify?, Option.ite_none_left_eq_some] at ht
    cases ht.2
    rfl
  | .function _ _ body, _, h, ht => by
    cases ht
    exact anyResidue_simplifyAll body h
  | .rangeFor init _ _ body, _, ⟨hi, _, htest, hb⟩, ht => by
    rw [Stmt.simplify?] at ht
    split at ht
    next =>
      cases init with
      | assignment target value => cases ht; rfl
      | _ => cases ht
    next hd =>
      cases ht
      rw [hasResidue, hi.simplifyHeader_simplifyHeader, htest, if_neg hd]
      exact anyResidue_simplifyAll body hb
  | .collectionFor _ _ body, _, ⟨_, hb⟩, ht => by
    cases ht
    exact anyResidue_simplifyAll body hb
  | .declaration _ _, _, _, ht | .ret _, _, _, ht | .brk, _, _, ht | .call _ _, _, _, ht
  | .print _, _, _, ht
  | .method _ _ _, _, _, ht => by
    cases ht
    rfl

/-- Loops that stay after a pass are known to start. -/
theorem anyResidue_simplifyAll :
    (ss : List Stmt) → HoldsAll Expr.Settles ss → anyResidue (simplifyAll ss) = false
  | [], _ => rfl
  | s :: ss, ⟨hs, hss⟩ => by
    rw [simplifyAll]
    split
    next t ht =>
      rw [anyResidue, Holds.hasResidue_simplify? s hs ht, anyResidue_simplifyAll ss hss]
      rfl
    next => exact anyResidue_simplifyAll ss hss

end

end Stmt
end Scriptor.Typed

namespace Scriptor

theorem Program.check_settles {p : Program} {t : Typed.Program} (h : p.check = .ok t) :
    Typed.Stmt.HoldsAll Typed.Expr.Settles t.statements :=
  Program.check_holds h fun _ he => he.simplify_simplify

/-- Simplifying a checked program a second time changes it exactly where the first time left a
residue. A third time never changes it, and the entities stay the same throughout. -/
theorem Program.simplify_simplify_iff {p : Program} {t : Typed.Program} (h : p.check = .ok t) :
    (t.simplify.simplify = t.simplify ↔ Typed.Stmt.anyResidue t.statements = false) ∧
      t.simplify.simplify.simplify = t.simplify.simplify ∧ t.simplify.entities = t.entities := by
  have hs := Program.check_settles h
  have hs' :=
    Typed.Stmt.holdsAll_simplifyAll (P := Typed.Expr.Settles)
      (fun _ he => he.simplify) t.statements hs
  have hthird :=
    (Typed.Stmt.simplifyAll_simplifyAll_iff _ hs').2 (Typed.Stmt.anyResidue_simplifyAll _ hs)
  refine ⟨?_, ?_, rfl⟩
  · rw [← Typed.Stmt.simplifyAll_simplifyAll_iff t.statements hs, Typed.Program.simplify,
      Typed.Program.simplify, Typed.Program.mk.injEq]
    exact and_iff_left rfl
  · exact congrArg (Typed.Program.mk · t.entities) hthird

theorem Program.simplify_simplify_counting :
    ∃ t, (Program.counting (.empty .nowhere)).check = .ok t ∧
      t.simplify.simplify = t.simplify := by
  obtain ⟨t, ht, hr⟩ : ∃ t, (Program.counting (.empty .nowhere)).check = .ok t ∧
      Typed.Stmt.anyResidue t.statements = false := ⟨_, rfl, rfl⟩
  exact ⟨t, ht, (Program.simplify_simplify_iff ht).1.2 hr⟩

/-- The header of the loop is left as an assignment by the first pass, and only the second one drops
it. -/
theorem simplify_simplify_ne :
    ∃ t, analyze "x = 1\nfor (x = x, x += 1)\nend false" "" = .ok t ∧
      t.simplify.simplify ≠ t.simplify := by
  have hlen : (analyze "x = 1\nfor (x = x, x += 1)\nend false" "").toOption.any (fun t =>
      t.simplify.simplify.statements.length ≠ t.simplify.statements.length) = true := by
    decide +kernel
  cases ha : analyze "x = 1\nfor (x = x, x += 1)\nend false" "" with
  | error e =>
    rw [ha] at hlen
    cases hlen
  | ok t =>
    refine ⟨t, rfl, ?_⟩
    intro he
    rw [ha] at hlen
    have hne := of_decide_eq_true hlen
    rw [he] at hne
    exact hne rfl

end Scriptor
