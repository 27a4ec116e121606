import Scriptor.Proofs.Rules
import Scriptor.Proofs.Simplification
import Scriptor.Proofs.Typing

namespace Scriptor

namespace Ty

/-- The first type is the second one, except that parts outside of function types may be unknown. -/
inductive Below : Ty → Ty → Prop where
  | refl (t : Ty) : Below t t
  | any (t : Ty) : Below .any t
  | array {s t : Ty} : Below s t → Below (.array s) (.array t)
  | dict {s t : Ty} : Below s t → Below (.dict s) (.dict t)

theorem Below.trans {s t u : Ty} (h : s.Below t) (h' : t.Below u) : s.Below u := by
  induction h generalizing u with
  | refl => exact h'
  | any => exact .any u
  | array hs ih =>
    cases h' with
    | refl => exact .array hs
    | array h' => exact .array (ih h')
  | dict hs ih =>
    cases h' with
    | refl => exact .dict hs
    | dict h' => exact .dict (ih h')

/-- The type that two types have in common is above both of them. -/
theorem unify_below {s t u : Ty} (h : s.unify t = some u) : s.Below u ∧ t.Below u := by
  fun_induction unify s t generalizing u with
  | case1 t => cases h; exact ⟨.any _, .refl _⟩
  | case2 s => cases h; exact ⟨.refl _, .any _⟩
  | case3 s t ih =>
    obtain ⟨v, hv, rfl⟩ := Option.map_eq_some_iff.1 h
    exact ⟨.array (ih hv).1, .array (ih hv).2⟩
  | case4 s t ih =>
    obtain ⟨v, hv, rfl⟩ := Option.map_eq_some_iff.1 h
    exact ⟨.dict (ih hv).1, .dict (ih hv).2⟩
  | case5 => cases h; exact ⟨.refl _, .refl _⟩
  | case6 => cases h

theorem accepts_any (t : Ty) : t.accepts .any = true := by
  cases t <;> rfl

/-- A declared type accepts what is less precise than a type that it accepts. -/
theorem Below.accepts {declared s t : Ty} (h : s.Below t) (ht : declared.accepts t = true) :
    declared.accepts s = true := by
  induction h generalizing declared with
  | refl => exact ht
  | any => exact accepts_any declared
  | array _ ih =>
    cases declared with
    | any => rfl
    | array base => exact ih ht
    | _ => cases ht
  | dict _ ih =>
    cases declared with
    | any => rfl
    | dict base => exact ih ht
    | _ => cases ht

mutual

def Known : Ty → Prop
  | .any => False
  | .array base | .dict base => base.Known
  | .function parameters result => KnownAll parameters ∧ result.Known
  | _ => True

def KnownAll : List Ty → Prop
  | [] => True
  | t :: ts => t.Known ∧ KnownAll ts

end

theorem Below.eq_of_known {s t : Ty} (h : s.Below t) (hs : s.Known) : s = t := by
  induction h with
  | refl => rfl
  | any => exact hs.elim
  | array _ ih => exact congrArg Ty.array (ih hs)
  | dict _ ih => exact congrArg Ty.dict (ih hs)

end Ty

namespace Typed

/-- The type of a literal is known as a whole. -/
theorem Literal.eq_of_below {value : Literal} {t : Ty} (h : value.ty.Below t) : t = value.ty := by
  cases value <;> cases h <;> rfl

theorem Literal.known_ty (value : Literal) : value.ty.Known := by
  cases value <;> trivial

theorem Literal.foldInt?_ty {op : BinaryOp} {a b : Int} {value : Literal}
    (h : foldInt? op a b = some value) : value.ty = op.result .int := by
  revert h
  fun_cases foldInt? op a b
  all_goals rintro ⟨⟩
  all_goals rfl

theorem Literal.foldFloat?_ty {op : BinaryOp} {a b : Float} {value : Literal}
    (h : foldFloat? op a b = some value) : value.ty = op.result .float := by
  revert h
  fun_cases foldFloat? op a b
  all_goals rintro ⟨⟩
  all_goals rfl

theorem Literal.fold?_ty {op : BinaryOp} {a b value : Literal}
    (h : Literal.fold? op a b = some value) : value.ty = op.result a.ty := by
  cases a with
  | int a =>
    cases b with
    | int b => exact foldInt?_ty h
    | _ => cases h
  | float a =>
    cases b with
    | float b => exact foldFloat?_ty h
    | _ => cases h
  | _ => cases h

namespace Expr

variable {a : Arena} {left right l r e : Expr} {op : BinaryOp} {ty : Ty}

theorem fold?_eq_some {value : Literal} (h : fold? op left right = some value) :
    ∃ a b, left = .literal a ∧ right = .literal b ∧ Literal.fold? op a b = some value := by
  cases left with
  | literal a =>
    cases right with
    | literal b => exact ⟨a, b, rfl, rfl, h⟩
    | _ => cases h
  | _ => cases h

theorem isZero_ty_oneLike (h : e.isZero = true) : e.oneLike.ty = e.ty := by
  rcases eq_of_isZero h with rfl | ⟨x, rfl⟩
  · rfl
  · rfl

theorem below_bool {t : Ty} (h : t ∈ [.bool, .any]) : t.Below .bool := by
  rcases List.mem_pair.1 h with rfl | rfl
  · exact .refl _
  · exact .any _

theorem Reduces.ty_below (h : Reduces l op r ty e) (hrule : (binary left op right ty).Rule a)
    (hl : l.ty.Below left.ty) (hr : r.ty.Below right.ty) : e.ty.Below ty := by
  obtain ⟨htl, htr, common, hu, rfl⟩ := hrule
  have hlc := hl.trans (Ty.unify_below hu).1
  have hrc := hr.trans (Ty.unify_below hu).2
  cases h with
  | folds hf =>
    obtain ⟨x, y, rfl, rfl, hf⟩ := fold?_eq_some hf
    cases Literal.eq_of_below hlc
    exact Literal.fold?_ty hf ▸ .refl _
  | cancels _ hi =>
    cases hi with
    | trueAnd | falseOr => exact hr.trans (below_bool htr)
    | andTrue | orFalse => exact hl.trans (below_bool htl)
    | zeroAdd | oneMultiply | multiplyZero => exact hrc
    | addZero | subtractZero | multiplyOne | zeroMultiply | onePower => exact hlc
    | divideOne _ hty => exact hty ▸ .refl _
    | zeroSubtract | zeroDivide => exact .refl _
    | powerZero hz _ => exact (isZero_ty_oneLike hz).symm ▸ hrc
  | stays => exact .refl _

/-- Simplification only forgets what was known about a type. -/
theorem simplify_ty_below (h : e.WellTyped a) : e.simplify.ty.Below e.ty := by
  induction e with
  | literal value => exact .refl _
  | var id ty => exact .refl _
  | binary left op right ty ihl ihr =>
    obtain ⟨hrule, hl, hr⟩ := h
    exact (simplifyBinary_reduces _ _ _ _).ty_below hrule (ihl hl) (ihr hr)
  | unary op operand ty ih =>
    obtain ⟨hrule, ho⟩ := h
    rw [simplify]
    rcases simplifyUnary_cases op operand.simplify ty with ⟨v, w, hv, hw, hty⟩ | hs
    · have hbelow := ih ho
      rw [hv] at hbelow
      rw [hw]
      change w.ty.Below ty
      rw [hty]
      cases op with
      | negate => exact hrule.2 ▸ hbelow
      | not => exact hrule.2 ▸ hbelow.trans (below_bool hrule.1)
    · rw [hs]
      exact .refl _
  | conditional test consequent alternate ty iht ihc iha =>
    obtain ⟨⟨-, hu⟩, -, hc, ha⟩ := h
    rw [simplify]
    rcases simplifyConditional_cases test.simplify consequent.simplify alternate.simplify ty with
      ⟨-, hs⟩ | ⟨-, hs⟩ | hs
    · rw [hs]
      exact (ihc hc).trans (Ty.unify_below hu).1
    · rw [hs]
      exact (iha ha).trans (Ty.unify_below hu).2
    · rw [hs]
      exact .refl _
  | call callee args ty => exact .refl _
  | subscript indexed index ty => exact .refl _
  | array elements ty => exact .refl _
  | dict entries ty => exact .refl _

theorem Reduces.known_ty (h : Reduces l op r ty e) (hl : l.ty.Known) (hr : r.ty.Known)
    (hty : ty.Known) : e.ty.Known := by
  cases h with
  | folds => exact Literal.known_ty _
  | cancels _ hi =>
    rcases hi.outcome with rfl | rfl | ⟨value, rfl⟩ | ⟨-, -, rfl⟩
    · exact hl
    · exact hr
    · exact Literal.known_ty value
    · exact hty
  | stays => exact hty

theorem known_ty_simplify (h : e.Every (·.ty.Known)) : e.simplify.ty.Known := by
  induction e with
  | literal value => exact Literal.known_ty value
  | var id ty => exact h
  | binary left op right ty ihl ihr =>
    obtain ⟨hty, hl, hr⟩ := h
    exact (simplifyBinary_reduces _ _ _ _).known_ty (ihl hl) (ihr hr) hty
  | unary op operand ty ih =>
    rw [simplify]
    rcases simplifyUnary_cases op operand.simplify ty with ⟨v, w, -, hw, -⟩ | hs
    · rw [hw]
      exact Literal.known_ty w
    · rw [hs]
      exact h.1
  | conditional test consequent alternate ty iht ihc iha =>
    obtain ⟨hty, -, hc, ha⟩ := h
    rw [simplify]
    rcases simplifyConditional_cases test.simplify consequent.simplify alternate.simplify ty with
      ⟨-, hs⟩ | ⟨-, hs⟩ | hs
    · rw [hs]
      exact ihc hc
    · rw [hs]
      exact iha ha
    · rw [hs]
      exact hty
  | call callee args ty => exact h.1
  | subscript indexed index ty => exact h.1
  | array elements ty => exact h.1
  | dict entries ty => exact h.1

/-- Nothing is forgotten about a type where nothing was unknown. -/
theorem simplify_ty_eq_of_known (h : e.WellTyped a) (hk : e.Every (·.ty.Known)) :
    e.simplify.ty = e.ty :=
  (simplify_ty_below h).eq_of_known (known_ty_simplify hk)

end Expr
end Typed

open Typed (Expr)

/-- Simplification makes the type of an expression of a checked program at most less precise: where
nothing within the expression is of an unknown type it stays the same, and a declared type that
accepts it still does. -/
theorem Program.simplified_ty {p : Program} {t : Typed.Program} (h : p.check = .ok t) :
    Typed.Stmt.HoldsAll (Expr.Every fun e =>
      e.simplify.ty.Below e.ty ∧ (e.Every (·.ty.Known) → e.simplify.ty = e.ty) ∧
        ∀ declared : Ty, declared.accepts e.ty = true → declared.accepts e.simplify.ty = true)
          t.statements := by
  apply Program.check_holds h
  intro e he
  apply he.within
  intro e he
  have hbelow := Expr.simplify_ty_below he
  exact ⟨hbelow, Expr.simplify_ty_eq_of_known he, fun _ => hbelow.accepts⟩

def Program.sharpening (span : Span) : Program where
  statements :=
    [.assignment ⟨.symbol "xs" span, none, .array [] span, span⟩,
     .assignment ⟨.symbol "y" span, none,
       .binary (.number "0" span) .add
         (.binary
           (.conditional (.boolean true span)
             (.subscript (.symbol "xs" span) (.number "0" span) span) (.number "1" span) span)
           .multiply (.number "1" span) span) span, span⟩]

def Typed.Expr.sharpened : Expr :=
  .conditional (.bool true) (.subscript (.var ⟨11⟩ (.array .any)) (.int 0) .any) (.int 1) .int

theorem Program.check_sharpening :
    ∃ t, (Program.sharpening (.empty .nowhere)).check = .ok t ∧ t.statements =
      [.declaration ⟨11⟩ (.array [] (.array .any)),
       .declaration ⟨12⟩
         (.binary (.int 0) .add (.binary .sharpened .multiply (.int 1) .int) .int)] :=
  ⟨_, rfl, rfl⟩

theorem Program.simplified_ty_sharpening :
    ∃ t, (Program.sharpening (.empty .nowhere)).check = .ok t ∧ Expr.sharpened.ty = .int ∧
      Expr.sharpened.simplify.ty = .any ∧ Expr.sharpened.simplify.ty.Below Expr.sharpened.ty ∧
      Ty.int.accepts Expr.sharpened.simplify.ty = true := by
  obtain ⟨t, ht, hs⟩ := Program.check_sharpening
  have hty := Program.simplified_ty ht
  rw [hs] at hty
  obtain ⟨-, ⟨-, -, -, ⟨⟨hbelow, -, haccepts⟩, -⟩, -⟩, -⟩ := hty
  exact ⟨t, ht, rfl, rfl, hbelow, haccepts .int rfl⟩

end Scriptor
