import Scriptor.Proofs.Idempotence

namespace Scriptor.Typed

namespace Expr

/-- Whether no rule applies to the node as it stands: no two literals to be folded, no identity, no
operator before a literal and no choice that is made already. -/
def Normal : Expr → Prop
  | .binary left op right ty => fold? op left right = none ∧ ∀ e, ¬Identity left right ty op e
  | .unary _ operand _ => ∀ value, operand ≠ .literal value
  | .conditional test _ _ _ => ∀ value, test ≠ .bool value
  | _ => True

variable {a : Arena} {left right l r e : Expr} {op : BinaryOp} {ty : Ty}

theorem Identity.ne_binary (h : Identity left right ty op e) : e ≠ .binary left op right ty := by
  intro he
  have hsize := congrArg sizeOf he
  rw [binary.sizeOf_spec] at hsize
  rcases h.outcome with rfl | rfl | ⟨value, rfl⟩ | ⟨-, -, rfl⟩
  · omega
  · omega
  · cases he
  · cases he

theorem Identity.applies (h : Identity left right ty op e) :
    logicalIdentity? op left right ≠ none ∨ arithmeticIdentity? op left right ty ≠ none := by
  cases h with
  | trueAnd h | andTrue h | falseOr h | orFalse h => grind [logicalIdentity?]
  | _ => grind [arithmeticIdentity?]

theorem normal_of_simplifyBinary (h : simplifyBinary left op right ty = .binary left op right ty) :
    (binary left op right ty).Normal := by
  rw [simplifyBinary] at h
  cases hf : fold? op left right with
  | some value =>
    rw [hf] at h
    cases h
  | none =>
    refine ⟨hf, ?_⟩
    intro e hi
    rw [hf] at h
    cases hl : logicalIdentity? op left right with
    | some e' =>
      rw [hl] at h
      exact (logicalIdentity?_generation hl).ne_binary h
    | none =>
      rw [hl] at h
      cases ha : arithmeticIdentity? op left right ty with
      | some e' =>
        rw [ha] at h
        exact (arithmeticIdentity?_generation ha).ne_binary h
      | none =>
        rcases hi.applies with hl' | ha'
        · exact hl' hl
        · exact ha' ha

theorem Reduces.normal (h : Reduces l op r ty e) (he : simplifyBinary l op r ty = e)
    (hrule : (binary left op right ty).Rule a) (hl : l.ty.Below left.ty) (hr : r.ty.Below right.ty)
    (ihl : l.Normal) (ihr : r.Normal) : e.Normal := by
  cases h with
  | folds => trivial
  | cancels hf hi =>
    rcases hi.outcome with rfl | rfl | ⟨value, rfl⟩ | ⟨rfl, hz, rfl⟩
    · exact ihl
    · exact ihr
    · trivial
    · exact ne_literal_of_zeroSubtract hrule hl hr hf hz
  | stays => exact normal_of_simplifyBinary he

theorem simplifyUnary_literal {op : UnaryOp} {operand : Expr} {value : Literal}
    (hrule : (unary op operand ty).Rule a)
    (hty : operand.ty = value.ty) : ∃ w, simplifyUnary op (.literal value) ty = .literal w := by
  cases op with
  | negate =>
    obtain ⟨hmem, -⟩ := hrule
    rw [hty] at hmem
    cases value with
    | int | float => exact ⟨_, rfl⟩
    | string | bool => simp [Literal.ty] at hmem
  | not =>
    obtain ⟨hmem, -⟩ := hrule
    rw [hty] at hmem
    cases value with
    | bool => exact ⟨_, rfl⟩
    | int | float | string => simp [Literal.ty] at hmem

theorem WellTyped.normal_simplify (h : e.WellTyped a) : e.simplify.Normal := by
  induction e with
  | binary left op right ty ihl ihr =>
    obtain ⟨hrule, hl, hr⟩ := h
    exact (simplifyBinary_reduces _ _ _ _).normal rfl hrule (simplify_ty_below hl)
      (simplify_ty_below hr) (ihl hl) (ihr hr)
  | unary op operand ty ih =>
    obtain ⟨hrule, ho⟩ := h
    rw [simplify]
    by_cases hv : ∃ value, operand.simplify = .literal value
    · -- the literal has the type of the operand, which the operator takes
      obtain ⟨value, hv⟩ := hv
      have hbelow := simplify_ty_below ho
      rw [hv] at hbelow ⊢
      obtain ⟨w, hw⟩ := simplifyUnary_literal hrule (Literal.eq_of_below hbelow)
      rw [hw]
      trivial
    · have hne := not_exists.1 hv
      rw [simplifyUnary_of_ne_literal hne]
      exact hne
  | conditional test consequent alternate ty iht ihc iha =>
    obtain ⟨-, -, hc, ha⟩ := h
    rw [simplify]
    fun_cases simplifyConditional test.simplify consequent.simplify alternate.simplify ty with
    | case1 => exact ihc hc
    | case2 => exact iha ha
    | case3 _ htrue hfalse =>
      intro value hv
      cases value with
      | true => exact htrue hv
      | false => exact hfalse hv
  | _ => trivial

/-- What an operator turns into consists of itself and of parts of the operands. -/
theorem Reduces.every_of_self {P : Expr → Prop} (h : Reduces l op r ty e) (he : P e)
    (hl : l.Every P) (hr : r.Every P) : e.Every P := by
  cases h with
  | folds => exact he
  | cancels _ hi =>
    rcases hi.outcome with rfl | rfl | ⟨value, rfl⟩ | ⟨-, -, rfl⟩
    · exact hl
    · exact hr
    · exact he
    · exact ⟨he, hr⟩
  | stays => exact ⟨he, hl, hr⟩

theorem WellTyped.every_within_simplify {P : Expr → Prop} (h : e.WellTyped a)
    (hP : ∀ s : Expr, s.WellTyped a → P s.simplify) : e.simplify.Every P := by
  -- what is known of the whole goes along with the induction
  have he := hP e h
  induction e with
  | literal value => exact he
  | var id ty => exact he
  | binary left op right ty ihl ihr =>
    obtain ⟨-, hl, hr⟩ := h
    exact (simplifyBinary_reduces _ _ _ _).every_of_self he (ihl hl (hP left hl))
      (ihr hr (hP right hr))
  | unary op operand ty ih =>
    have ho := ih h.2 (hP operand h.2)
    rw [simplify] at he ⊢
    rcases simplifyUnary_cases op operand.simplify ty with ⟨v, w, -, hw, -⟩ | hs
    · rw [hw] at he ⊢
      exact he
    · rw [hs] at he ⊢
      exact ⟨he, ho⟩
  | conditional test consequent alternate ty iht ihc iha =>
    obtain ⟨-, ht, hc, ha⟩ := h
    have ht := iht ht (hP test ht)
    have hc := ihc hc (hP consequent hc)
    have ha := iha ha (hP alternate ha)
    rw [simplify] at he ⊢
    rcases simplifyConditional_cases test.simplify consequent.simplify alternate.simplify ty with
      ⟨-, hs⟩ | ⟨-, hs⟩ | hs
    · rw [hs]
      exact hc
    · rw [hs]
      exact ha
    · rw [hs] at he ⊢
      exact ⟨he, ht, hc, ha⟩
  | call callee args ty ihf ihs =>
    obtain ⟨-, hf, has⟩ := h
    refine ⟨he, ihf hf (hP callee hf), everyOf_iff.2 ?_⟩
    rw [simplifyAll_eq_map, List.forall_mem_map]
    intro x hx
    have hx' := everyOf_iff.1 has x hx
    exact ihs x hx hx' (hP x hx')
  | subscript indexed index ty ihx ihi =>
    obtain ⟨-, hx, hi⟩ := h
    exact ⟨he, ihx hx (hP indexed hx), ihi hi (hP index hi)⟩
  | array elements ty ihs =>
    refine ⟨he, everyOf_iff.2 ?_⟩
    rw [simplifyAll_eq_map, List.forall_mem_map]
    intro x hx
    have hx' := everyOf_iff.1 h.2 x hx
    exact ihs x hx hx' (hP x hx')
  | dict entries ty ihs =>
    refine ⟨he, everyEntry_iff.2 ?_⟩
    rw [simplifyEntries_eq_map, List.forall_mem_map]
    intro p hp
    obtain ⟨hk, hv⟩ := everyEntry_iff.1 h.2 p hp
    exact ⟨(ihs p hp).1 hk (hP p.1 hk), (ihs p hp).2 hv (hP p.2 hv)⟩

end Expr
end Scriptor.Typed

namespace Scriptor

open Typed (Expr)

/-- After simplification every node within an expression of a checked program is in normal form and
stays as it is. -/
theorem Program.simplified_normal {p : Program} {t : Typed.Program} (h : p.check = .ok t) :
    Typed.Stmt.HoldsAll (Expr.Every fun e => e.simplify.Every fun s =>
      s.simplify = s ∧ s.Normal) t.statements := by
  apply Program.check_holds h
  intro e he
  apply he.within
  intro e he
  apply Expr.WellTyped.every_within_simplify he
  intro s hs
  exact ⟨hs.simplify_simplify, hs.normal_simplify⟩

/-- A factor of one stays beside an operand of an unknown type; all else is gone. -/
theorem Program.simplified_normal_sharpening :
    ∃ t e, (Program.sharpening (.empty .nowhere)).check = .ok t ∧
      t.simplify.statements =
        [.declaration ⟨11⟩ (.array [] (.array .any)), .declaration ⟨12⟩ e] ∧
      e = .binary (.subscript (.var ⟨11⟩ (.array .any)) (.int 0) .any)
        .multiply (.int 1) .int ∧
      e.Every fun s => s.simplify = s ∧ s.Normal := by
  obtain ⟨t, ht, hs⟩ := Program.check_sharpening
  have hnormal := Program.simplified_normal ht
  rw [hs] at hnormal
  refine ⟨t, _, ht, ?_, rfl, hnormal.2.1.self⟩
  rw [Typed.Program.simplify, hs]
  rfl

end Scriptor
