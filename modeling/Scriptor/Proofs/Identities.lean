import Scriptor.Proofs.NeutralOperands
import Scriptor.Proofs.ScriptValues

namespace Scriptor

open Script (Coincide)

namespace Typed.Expr

variable {a : Arena} {σ : Scene} {e left right : Expr} {op : BinaryOp} {ty : Ty}

/-- Whether simplification keeps the value of the expression, where a zero has no sign. -/
def Kept (σ : Scene) (e : Expr) : Prop := Coincide (e.value? σ) (e.simplify.value? σ)

theorem value?_of_isZero (σ : Scene) (h : e.isZero = true) :
    ∃ z, e.value? σ = some (.number z) ∧ (z == 0) = true := by
  revert h
  fun_cases isZero e
  all_goals intro h
  · cases of_decide_eq_true h
    exact ⟨_, rfl, rfl⟩
  · exact ⟨_, rfl, h⟩
  · cases h

theorem value?_of_isOne (σ : Scene) (h : e.isOne = true) : e.value? σ = some (.number 1) := by
  revert h
  fun_cases isOne e
  all_goals intro h
  · cases of_decide_eq_true h
    rfl
  · rw [Number.eq_one_of_beq h]
    rfl
  · cases h

theorem value?_oneLike (σ : Scene) (e : Expr) : e.oneLike.value? σ = some (.number 1) := by
  fun_cases oneLike e <;> rfl

namespace Kept

theorem zero (h : e.Kept σ) (hz : e.simplify.isZero = true) :
    ∃ z, e.value? σ = some (.number z) ∧ (z == 0) = true := by
  obtain ⟨z, hvalue, hz⟩ := value?_of_isZero σ hz
  rw [Kept, hvalue] at h
  obtain ⟨x, hx, hxz⟩ := h.eq_number
  exact ⟨x, hx, (Number.same_zero_iff hz).1 hxz⟩

theorem one (h : e.Kept σ) (ho : e.simplify.isOne = true) : e.value? σ = some (.number 1) := by
  rw [Kept, value?_of_isOne σ ho] at h
  obtain ⟨x, hx, rfl | ⟨-, hone⟩⟩ := h.eq_number
  · exact hx
  · cases hone

theorem bool {b : Bool} (h : e.Kept σ) (hb : e.simplify.isBool b = true) :
    e.value? σ = some (.bool b) := by
  rw [Kept, eq_of_isBool hb] at h
  exact h.eq_bool

end Kept

/-- Whether the expression has no value other than a number. -/
def YieldsNumber (σ : Scene) (e : Expr) : Prop :=
  ∀ v, e.value? σ = some v → ∃ x, v = .number x

def Converts (σ : Scene) (P : Float → Prop) (e : Expr) : Prop :=
  ∃ v, e.value? σ = some v ∧ ∃ x, σ.numeric? v = some (.number x) ∧ P x

/-- Whether the values of the operands are such that the identities which apply hold of them. -/
def Suits (σ : Scene) (left : Expr) (op : BinaryOp) (right : Expr) : Prop :=
  match op with
  | .and => ∀ v, left.value? σ = some v → v.isTruthy = true → v = .bool true
  | .or => ∀ v, left.value? σ = some v → v.isTruthy = false → v = .bool false
  | .add => left.YieldsNumber σ ∧ right.YieldsNumber σ
  | .subtract => (right.simplify.isZero = true → left.YieldsNumber σ) ∧
      (left.simplify.isZero = true →
        ∀ v n, right.value? σ = some v → σ.numeric? v ≠ some (.integer n))
  | .multiply =>
      (left.simplify.isOne = true ∨ right.simplify.isOne = true →
        left.YieldsNumber σ ∧ right.YieldsNumber σ) ∧
      (left.simplify.isZero = true ∨ right.simplify.isZero = true →
        left.Converts σ (·.isFinite = true) ∧ right.Converts σ (·.isFinite = true))
  | .power => (right.simplify.isZero = true → left.Converts σ fun _ => True) ∧
      (left.simplify.isOne = true → right.Converts σ (·.isFinite = true))
  | _ => True

theorem yieldsNumber_of_eq {x : Float} (h : e.value? σ = some (.number x)) :
    e.YieldsNumber σ := by
  intro v hv
  exact ⟨x, Option.some.inj (hv.symm.trans h)⟩

theorem converts_of_eq {P : Float → Prop} {x : Float}
    (h : e.value? σ = some (.number x)) (hx : P x) : e.Converts σ P :=
  ⟨_, h, x, rfl, hx⟩

theorem bind_coincide_iff {f : Script.Value → Option Script.Value}
    (hf : ∀ v, Coincide (f v) (some v) ↔ ∃ x, v = .number x) :
    Coincide ((e.value? σ).bind f) (e.value? σ) ↔ e.YieldsNumber σ :=
  Coincide.bind_self_iff.trans (forall₂_congr fun v _ => hf v)

theorem bind_number_iff {f : Script.Value → Option Script.Value} {P : Float → Prop} {y : Float}
    (hf : ∀ v, Coincide (f v) (some (.number y)) ↔ ∃ x, σ.numeric? v = some (.number x) ∧
      P x) :
    Coincide ((e.value? σ).bind f) (some (.number y)) ↔ e.Converts σ P := by
  cases h : e.value? σ with
  | none =>
    refine iff_of_false Coincide.not_none_some ?_
    rintro ⟨v, hv, -⟩
    cases h.symm.trans hv
  | some v =>
    rw [Option.bind_some, hf]
    refine ⟨fun hv => ⟨v, h, hv⟩, ?_⟩
    rintro ⟨w, hw, hP⟩
    cases h.symm.trans hw
    exact hP

theorem suits_of_finite {x y : Float} (hop : op.isLogical = false)
    (hleft : left.value? σ = some (.number x)) (hright : right.value? σ = some (.number y))
    (hx : x.isFinite = true) (hy : y.isFinite = true) : Suits σ left op right := by
  have hnumbers := And.intro (yieldsNumber_of_eq hleft) (yieldsNumber_of_eq hright)
  cases op with
  | and | or => cases hop
  | add => exact hnumbers
  | subtract =>
    refine ⟨fun _ => hnumbers.1, ?_⟩
    rintro - v n hv
    cases hright.symm.trans hv
    exact nofun
  | multiply =>
    exact ⟨fun _ => hnumbers, fun _ => ⟨converts_of_eq hleft hx, converts_of_eq hright hy⟩⟩
  | power => exact ⟨fun _ => converts_of_eq hleft trivial, fun _ => converts_of_eq hright hy⟩
  | _ => trivial

theorem Kept.not_isOne (h : e.Kept σ) (hz : e.simplify.isZero = true) :
    ¬e.simplify.isOne = true := by
  intro ho
  obtain ⟨z, hvalue, hz⟩ := h.zero hz
  cases hvalue.symm.trans (h.one ho)
  cases hz

/-- An identity on operands that keep their values keeps the value of the operator exactly if it
holds of the values. -/
theorem Identity.coincide_iff (h : Identity left.simplify right.simplify ty op e)
    (hd : op ≠ .divide) (hl : left.Kept σ) (hr : right.Kept σ) :
    Coincide ((binary left op right ty).value? σ) (e.value? σ) ↔ Suits σ left op right := by
  rw [value?]
  cases h with
  | divideOne | zeroDivide => exact absurd rfl hd
  | trueAnd h =>
    have hleft := hl.bool h
    rw [hleft]
    refine iff_of_true hr ?_
    intro v hv _
    cases hleft.symm.trans hv
    rfl
  | falseOr h =>
    have hleft := hl.bool h
    rw [hleft]
    refine iff_of_true hr ?_
    intro v hv _
    cases hleft.symm.trans hv
    rfl
  | andTrue h =>
    rw [hr.bool h]
    exact hl.right_iff.trans (Coincide.choice_iff fun v => rfl)
  | orFalse h =>
    rw [hr.bool h]
    refine hl.right_iff.trans (Coincide.choice_iff fun v => ?_)
    change (if v.isTruthy then some v else some (.bool false)) = _
    cases v.isTruthy <;> rfl
  | addZero h _ =>
    obtain ⟨z, hright, hz⟩ := hr.zero h
    rw [hright]
    refine hl.right_iff.trans ?_
    refine (bind_coincide_iff fun v => σ.add_zero_iff hz (σ.text_ne_empty z)).trans ?_
    exact (and_iff_left (yieldsNumber_of_eq hright)).symm
  | zeroAdd h _ =>
    obtain ⟨z, hleft, hz⟩ := hl.zero h
    rw [hleft]
    refine hr.right_iff.trans ?_
    refine (bind_coincide_iff fun v => σ.zero_add_iff hz (σ.text_ne_empty z)).trans ?_
    exact (and_iff_right (yieldsNumber_of_eq hleft)).symm
  | subtractZero h _ =>
    obtain ⟨z, hright, hz⟩ := hr.zero h
    rw [hright]
    refine hl.right_iff.trans ?_
    refine (bind_coincide_iff fun v => σ.subtract_zero_iff hz).trans ?_
    refine ⟨fun hn => ⟨fun _ => hn, ?_⟩, fun hs => hs.1 h⟩
    rintro - v n hv
    cases hright.symm.trans hv
    exact nofun
  | zeroSubtract h _ =>
    obtain ⟨z, hleft, hz⟩ := hl.zero h
    rw [hleft]
    refine (hr.negate σ.toEngine).right_iff.trans ?_
    refine (Coincide.bind_iff.trans (forall₂_congr fun v _ => σ.zero_subtract_iff hz)).trans ?_
    exact ⟨fun hn => ⟨fun _ => yieldsNumber_of_eq hleft, fun _ v n hv => hn v hv n⟩,
      fun hs v hv n => hs.2 h v n hv⟩
  | multiplyOne h _ =>
    have hright := hr.one h
    rw [hright]
    refine hl.right_iff.trans ?_
    refine (bind_coincide_iff fun v => σ.multiply_one_iff).trans ?_
    refine ⟨fun hn => ⟨fun _ => ⟨hn, yieldsNumber_of_eq hright⟩, ?_⟩, fun hs =>
      (hs.1 (.inr h)).1⟩
    rintro (hz | hz)
    · obtain ⟨z, hleft, hz⟩ := hl.zero hz
      exact ⟨converts_of_eq hleft (Number.isFinite_of_beq_zero hz), converts_of_eq hright rfl⟩
    · exact absurd h (hr.not_isOne hz)
  | oneMultiply h _ =>
    have hleft := hl.one h
    rw [hleft]
    refine hr.right_iff.trans ?_
    refine (bind_coincide_iff fun v => σ.one_multiply_iff).trans ?_
    refine ⟨fun hn => ⟨fun _ => ⟨yieldsNumber_of_eq hleft, hn⟩, ?_⟩, fun hs =>
      (hs.1 (.inl h)).2⟩
    rintro (hz | hz)
    · exact absurd h (hl.not_isOne hz)
    · obtain ⟨z, hright, hz⟩ := hr.zero hz
      exact ⟨converts_of_eq hleft rfl, converts_of_eq hright (Number.isFinite_of_beq_zero hz)⟩
  | multiplyZero h _ =>
    obtain ⟨z, hright, hz⟩ := hr.zero h
    refine hr.right_iff.trans ?_
    rw [hright]
    refine (bind_number_iff fun v => σ.multiply_zero_iff hz).trans ?_
    refine ⟨fun hc =>
      ⟨?_, fun _ => ⟨hc, converts_of_eq hright (Number.isFinite_of_beq_zero hz)⟩⟩,
      fun hs => (hs.2 (.inr h)).1⟩
    rintro (ho | ho)
    · exact ⟨yieldsNumber_of_eq (hl.one ho), yieldsNumber_of_eq hright⟩
    · exact absurd ho (hr.not_isOne h)
  | zeroMultiply h _ =>
    obtain ⟨z, hleft, hz⟩ := hl.zero h
    refine hl.right_iff.trans ?_
    rw [hleft]
    refine (bind_number_iff fun v => σ.zero_multiply_iff hz).trans ?_
    refine ⟨fun hc =>
      ⟨?_, fun _ => ⟨converts_of_eq hleft (Number.isFinite_of_beq_zero hz), hc⟩⟩,
      fun hs => (hs.2 (.inl h)).2⟩
    rintro (ho | ho)
    · exact absurd ho (hl.not_isOne h)
    · exact ⟨yieldsNumber_of_eq hleft, yieldsNumber_of_eq (hr.one ho)⟩
  | powerZero h _ =>
    obtain ⟨z, hright, hz⟩ := hr.zero h
    rw [hright, value?_oneLike]
    refine (bind_number_iff (P := fun _ => True) fun v => ?_).trans ?_
    · simp only [and_true]
      exact σ.power_zero_iff hz
    · refine ⟨fun hc => ⟨fun _ => hc, fun _ => ?_⟩, fun hs => hs.1 h⟩
      exact converts_of_eq hright (Number.isFinite_of_beq_zero hz)
  | onePower h _ =>
    have hleft := hl.one h
    refine hl.right_iff.trans ?_
    rw [hleft]
    refine (bind_number_iff fun v => σ.one_power_iff).trans ?_
    exact ⟨fun hc => ⟨fun _ => converts_of_eq hleft trivial, fun _ => hc⟩, fun hs => hs.2 h⟩

theorem Reduces.identity (h : Reduces left op right ty e) (hf : fold? op left right = none)
    (hne : e ≠ .binary left op right ty) : Identity left right ty op e := by
  cases h with
  | folds hf' => cases hf.symm.trans hf'
  | cancels _ hi => exact hi
  | stays => exact absurd rfl hne

/-- Whether the operator is replaced by an identity of logic or arithmetic. -/
def Cancels (left : Expr) (op : BinaryOp) (right : Expr) (ty : Ty) : Prop :=
  fold? op left.simplify right.simplify = none ∧
    (binary left op right ty).simplify ≠ .binary left.simplify op right.simplify ty

theorem Cancels.identity (h : Cancels left op right ty) :
    Identity left.simplify right.simplify ty op (binary left op right ty).simplify :=
  (simplifyBinary_reduces _ _ _ _).identity h.1 h.2

theorem isNumber_of_isZero (h : e.isZero = true) : e.isNumber = true := by
  rcases eq_of_isZero h with rfl | ⟨x, rfl⟩ <;> rfl

theorem isNumber_of_isOne (h : e.isOne = true) : e.isNumber = true := by
  rcases eq_of_isOne h with rfl | ⟨x, rfl⟩ <;> rfl

/-- Arithmetic is simplified only where the types of both operands are those of numbers. -/
theorem Identity.isNumber (h : Identity left right ty op e) (hl : op.isLogical = false)
    (hd : op ≠ .divide) : left.isNumber = true ∧ right.isNumber = true := by
  cases h with
  | trueAnd | andTrue | falseOr | orFalse => cases hl
  | divideOne | zeroDivide => exact absurd rfl hd
  | addZero h hn | subtractZero h hn | multiplyZero h hn | powerZero h hn =>
    exact ⟨hn, isNumber_of_isZero h⟩
  | zeroAdd h hn | zeroSubtract h hn | zeroMultiply h hn => exact ⟨isNumber_of_isZero h, hn⟩
  | multiplyOne h hn => exact ⟨hn, isNumber_of_isOne h⟩
  | oneMultiply h hn | onePower h hn => exact ⟨isNumber_of_isOne h, hn⟩

section Whole

def Exact (σ : Scene) (e : Expr) : Prop := e.simplify.value? σ = e.value? σ

def operands : Expr → List Expr
  | .binary left _ right _ => [left, right]
  | .unary _ operand _ => [operand]
  | _ => []

/-- Whether an operator is folded or replaced, and not only its operands. -/
def IsRewritten : Expr → Prop
  | .binary left op right ty =>
    (binary left op right ty).simplify ≠ .binary left.simplify op right.simplify ty
  | .unary op operand ty => (unary op operand ty).simplify ≠ .unary op operand.simplify ty
  | _ => False

theorem values?_simplifyAll {es : List Expr} (h : ∀ e ∈ es, e.Exact σ) :
    values? σ (simplifyAll es) = values? σ es := by
  induction es with
  | nil => rfl
  | cons e es ih =>
    rw [List.forall_mem_cons] at h
    rw [simplifyAll, values?, values?, h.1, ih h.2]

theorem entryValues?_simplifyEntries {ps : List (Expr × Expr)}
    (h : ∀ p ∈ ps, p.1.Exact σ ∧ p.2.Exact σ) :
    entryValues? σ (simplifyEntries ps) = entryValues? σ ps := by
  induction ps with
  | nil => rfl
  | cons p ps ih =>
    rw [List.forall_mem_cons] at h
    rw [simplifyEntries, entryValues?, entryValues?, h.1.1, h.1.2, ih h.2]

/-- An expression keeps its value if every operator that is rewritten within it does so where its
operands do: all else that is done to an expression changes nothing. -/
theorem exact_of_rewritten
    (h : e.Every fun s => s.IsRewritten → (∀ c ∈ s.operands, c.Exact σ) → s.Exact σ) :
    e.Exact σ := by
  induction e with
  | literal value => rfl
  | var id ty => rfl
  | binary left op right ty ihl ihr =>
    have hl := ihl h.2.1
    have hr := ihr h.2.2
    by_cases hrewritten : (binary left op right ty).IsRewritten
    · exact h.1 hrewritten (by simp [operands, hl, hr])
    · rw [Exact, not_not.1 hrewritten, value?, value?, hl, hr]
  | unary op operand ty ih =>
    have ho := ih h.2
    by_cases hrewritten : (unary op operand ty).IsRewritten
    · exact h.1 hrewritten (by simp [operands, ho])
    · rw [Exact, not_not.1 hrewritten, value?, value?, ho]
  | conditional test consequent alternate ty iht ihc iha =>
    have ht := iht h.2.1
    have hc := ihc h.2.2.1
    have ha := iha h.2.2.2
    rw [Exact, simplify, value?, ← ht, ← hc, ← ha]
    rcases simplifyConditional_cases test.simplify consequent.simplify alternate.simplify ty with
      ⟨htest, hs⟩ | ⟨htest, hs⟩ | hs
    · rw [hs, htest]
      rfl
    · rw [hs, htest]
      rfl
    · rw [hs, value?]
  | call callee args ty ihc ihs =>
    rw [Exact, simplify, value?, value?, ihc h.2.1,
      values?_simplifyAll fun e he => ihs e he (everyOf_iff.1 h.2.2 e he)]
  | subscript indexed index ty ihx ihi =>
    rw [Exact, simplify, value?, value?, ihx h.2.1, ihi h.2.2]
  | array elements ty ihs =>
    rw [Exact, simplify, value?, value?,
      values?_simplifyAll fun e he => ihs e he (everyOf_iff.1 h.2 e he)]
  | dict entries ty ihs =>
    rw [Exact, simplify, value?, value?, entryValues?_simplifyEntries]
    intro p hp
    obtain ⟨hk, hv⟩ := everyEntry_iff.1 h.2 p hp
    exact ⟨(ihs p hp).1 hk, (ihs p hp).2 hv⟩

end Whole

/-- Whether nothing within the expression is of an unknown type, and what the script yields is of
its type. -/
def Settled (σ : Scene) (e : Expr) : Prop :=
  e.Every (·.ty.Known) ∧ e.Conforms σ

theorem Settled.yieldsNumber (h : e.Settled σ) (he : e.WellTyped a)
    (hn : e.simplify.isNumber = true) : e.YieldsNumber σ := by
  intro v hv
  rw [isNumber, simplify_ty_eq_of_known he h.1, Bool.or_eq_true, decide_eq_true_iff,
    decide_eq_true_iff] at hn
  exact (he.admits h.1 h.2 hv).numeric (List.mem_pair.2 hn)

/-- A settled operand of a logical operator is true only by being `true`, and false only by being
`false`. -/
theorem Settled.truth {v : Script.Value} {b : Bool} (h : e.Settled σ) (he : e.WellTyped a)
    (hop : op.isLogical = true) (ht : op.Takes e.ty) (hv : e.value? σ = some v)
    (hb : v.isTruthy = b) : v = .bool b := by
  have hbool : e.ty = .bool := by
    cases op with
    | and | or => exact Ty.eq_bool_of_known ht h.1.self
    | _ => cases hop
  obtain ⟨c, rfl⟩ : Ty.bool.Admits v := hbool ▸ he.admits h.1 h.2 hv
  exact congrArg Script.Value.bool hb

theorem Settled.suits (h : left.Settled σ) (he : (binary left op right ty).WellTyped a)
    (hop : op.isLogical = true) : Suits σ left op right := by
  obtain ⟨⟨ht, -⟩, hl, -⟩ := he
  have htruth (b : Bool) (v : Script.Value) := h.truth hl hop ht (v := v) (b := b)
  cases op with
  | and => exact htruth true
  | or => exact htruth false
  | _ => cases hop

/-- What becomes of the value of an operator that is replaced, if its operands keep theirs. -/
structure Replaces (σ : Scene) (left : Expr) (op : BinaryOp) (right : Expr) (ty : Ty) : Prop where
  kept_iff : (binary left op right ty).Kept σ ↔ Suits σ left op right
  finite : ∀ x y, left.value? σ = some (.number x) → right.value? σ = some (.number y) →
    x.isFinite = true → y.isFinite = true → op.isLogical = false →
    (binary left op right ty).Kept σ
  /-- Nothing but the types of the operands is looked at. -/
  isNumber : op.isLogical = false → left.simplify.isNumber = true ∧
    right.simplify.isNumber = true
  logical : left.Settled σ → op.isLogical = true → (binary left op right ty).Kept σ
  arithmetic : left.Settled σ → right.Settled σ → op.isLogical = false →
    left.YieldsNumber σ ∧ right.YieldsNumber σ

theorem Cancels.replaces (h : Cancels left op right ty) (hd : op ≠ .divide)
    (he : (binary left op right ty).WellTyped a) (hl : left.Kept σ) (hr : right.Kept σ) :
    Replaces σ left op right ty := by
  have hiff := h.identity.coincide_iff hd hl hr
  have hnumber := fun hop => h.identity.isNumber hop hd
  exact {
    kept_iff := hiff
    finite := fun x y hx hy hfx hfy hop => hiff.2 (suits_of_finite hop hx hy hfx hfy)
    isNumber := hnumber
    logical := fun hs hop => hiff.2 (hs.suits he hop)
    arithmetic := fun hsl hsr hop =>
      ⟨hsl.yieldsNumber he.2.1 (hnumber hop).1, hsr.yieldsNumber he.2.2 (hnumber hop).2⟩ }

end Typed.Expr

open Typed.Expr

/-- In a checked program an expression keeps its value if the operators that are rewritten within it
do. An operator that an identity replaces does, where its operands do, exactly if the identity holds
of their values. It need not: the types of the operands do not tell that they are numbers, unless
nothing within them is of an unknown type. -/
theorem Program.identities_keep_values {p : Program} {t : Typed.Program} (h : p.check = .ok t) :
    Typed.Stmt.HoldsAll (Every fun e => ∀ σ,
      ((e.Every fun s => s.IsRewritten → (∀ c ∈ s.operands, c.Exact σ) → s.Exact σ) →
        e.Exact σ) ∧
      ∀ left op right ty, e = .binary left op right ty → op ≠ .divide →
        Cancels left op right ty → left.Kept σ → right.Kept σ →
        Replaces σ left op right ty) t.statements := by
  apply Program.check_holds h
  intro e he
  apply he.within
  intro e he σ
  refine ⟨exact_of_rewritten, ?_⟩
  rintro left op right ty rfl hd hc hl hr
  exact hc.replaces hd he hl hr

def Program.idle (span : Span) : Program where
  statements :=
    [.function "f" [⟨"a", none, span⟩, ⟨"x", some ⟨.int, span⟩, span⟩] none
       [.assignment ⟨.symbol "p" span, none,
          .binary (.binary (.symbol "a" span) .add (.number "1" span) span) .add (.number "0" span)
            span, span⟩,
        .assignment ⟨.symbol "q" span, none,
          .binary (.symbol "a" span) .and (.boolean true span) span, span⟩,
        .assignment ⟨.symbol "r" span, none,
          .binary (.symbol "x" span) .multiply (.number "0" span) span, span⟩,
        .assignment ⟨.symbol "s" span, none,
          .binary (.binary (.symbol "x" span) .modulo (.number "0" span) span) .multiply
            (.number "0" span) span, span⟩]
       "f" span span]

theorem Program.check_idle :
    ∃ t, (Program.idle (.empty .nowhere)).check = .ok t ∧ t.statements =
      [.function ⟨11⟩ [⟨12⟩, ⟨13⟩]
        [.declaration ⟨14⟩
         (.binary (.binary (.var ⟨12⟩ .any) .add (.int 1) .int) .add (.int 0) .int),
         .declaration ⟨15⟩ (.binary (.var ⟨12⟩ .any) .and (.bool true) .bool),
         .declaration ⟨16⟩ (.binary (.var ⟨13⟩ .int) .multiply (.int 0) .int),
         .declaration ⟨17⟩
           (.binary (.binary (.var ⟨13⟩ .int) .modulo (.int 0) .int) .multiply
             (.int 0) .int)]] :=
  ⟨_, rfl, rfl⟩

def Scene.plain (value : EntityId → Script.Value) : Scene where
  primitive? _ _ := none
  numeral _ := 0 / 0
  text x := if x == 1 then "1" else "0"
  text_ne_empty x := by
    split <;> decide
  approximate _ _ := 0 / 0
  compare? _ _ _ := none
  value := value
  call? _ _ := none
  element? _ _ := none
  array _ := 0
  dict _ := 0

theorem Program.identities_keep_values_idle :
    ∃ t product, (Program.idle (.empty .nowhere)).check = .ok t ∧
      product = binary (.var ⟨13⟩ .int) .multiply (.int 0) .int ∧
      (∃ sum conjunction remainder, t.statements = [.function ⟨11⟩ [⟨12⟩, ⟨13⟩]
        [.declaration ⟨14⟩ sum, .declaration ⟨15⟩ conjunction,
          .declaration ⟨16⟩ product, .declaration ⟨17⟩ remainder]]) ∧
      product.Kept (.plain fun _ => .number 3) := by
  obtain ⟨t, ht, hs⟩ := Program.check_idle
  have hvalues := Program.identities_keep_values ht
  rw [hs] at hvalues
  obtain ⟨⟨-, -, hproduct, -⟩, -⟩ := hvalues
  have hreplaces := (hproduct.self (.plain fun _ => .number 3)).2 _ _ _ _ rfl nofun ⟨rfl, nofun⟩
    (.refl _) (.refl _)
  exact ⟨t, _, ht, rfl, ⟨_, _, _, hs⟩, hreplaces.finite _ _ rfl rfl rfl rfl rfl⟩

/-- A sum with a text in it has the type of a number, so that an identity of numbers is applied to
it. -/
theorem Program.identities_change_values :
    ∃ t σ sum conjunction product remainder, (Program.idle (.empty .nowhere)).check = .ok t ∧
      t.statements = [.function ⟨11⟩ [⟨12⟩, ⟨13⟩] [.declaration ⟨14⟩ sum,
        .declaration ⟨15⟩ conjunction, .declaration ⟨16⟩ product,
        .declaration ⟨17⟩ remainder]] ∧
      σ.value ⟨12⟩ = .string "x" ∧ σ.value ⟨13⟩ = .number (-1) ∧
      sum.value? σ = some (.string "x10") ∧ sum.simplify.value? σ = some (.string "x1") ∧
      conjunction.value? σ = some (.bool true) ∧
        conjunction.simplify.value? σ = some (.string "x") ∧
      product.value? σ = some (.number (-0)) ∧ product.simplify.value? σ = some (.number 0) ∧
        (-0 : Float) ≠ 0 ∧
      remainder.value? σ = some (.number (0 / 0)) ∧
        remainder.simplify.value? σ = some (.number 0) := by
  obtain ⟨t, ht, hs⟩ := Program.check_idle
  refine ⟨t, .plain fun id => if id = ⟨12⟩ then .string "x" else .number (-1), _, _,
    _, _, ht, hs, ?_⟩
  exact ⟨rfl, rfl, rfl, rfl, rfl, rfl, rfl, rfl, by decide, rfl, rfl⟩

end Scriptor
