import Scriptor.Proofs.Trees

namespace Scriptor.Typed

namespace Expr

section Literals

variable {e : Expr}

theorem eq_of_isBool {b : Bool} (h : e.isBool b = true) : e = .bool b := by
  revert h
  fun_cases isBool b e
  all_goals intro h
  · cases eq_of_beq h
    rfl
  · cases h

theorem eq_of_isZero (h : e.isZero = true) : e = .int 0 ∨ ∃ x, e = .float x := by
  revert h
  fun_cases isZero e
  all_goals intro h
  · cases of_decide_eq_true h
    exact .inl rfl
  · exact .inr ⟨_, rfl⟩
  · cases h

theorem eq_of_isOne (h : e.isOne = true) : e = .int 1 ∨ ∃ x, e = .float x := by
  revert h
  fun_cases isOne e
  all_goals intro h
  · cases of_decide_eq_true h
    exact .inl rfl
  · exact .inr ⟨_, rfl⟩
  · cases h

theorem oneLike_eq_literal (e : Expr) : ∃ value, e.oneLike = .literal value := by
  fun_cases oneLike e with
  | case1 => exact ⟨_, rfl⟩
  | case2 => exact ⟨_, rfl⟩

end Literals

/-- The identities of logic and arithmetic, one for each pair of an operator and a special
operand. -/
inductive Identity (left right : Expr) (ty : Ty) : BinaryOp → Expr → Prop where
  | trueAnd : left.isBool true = true → Identity left right ty .and right
  | andTrue : right.isBool true = true → Identity left right ty .and left
  | falseOr : left.isBool false = true → Identity left right ty .or right
  | orFalse : right.isBool false = true → Identity left right ty .or left
  | addZero : right.isZero = true → left.isNumber = true → Identity left right ty .add left
  | zeroAdd : left.isZero = true → right.isNumber = true → Identity left right ty .add right
  | subtractZero :
      right.isZero = true → left.isNumber = true → Identity left right ty .subtract left
  | zeroSubtract : left.isZero = true → right.isNumber = true →
      Identity left right ty .subtract (.unary .negate right ty)
  | multiplyOne :
      right.isOne = true → left.isNumber = true → Identity left right ty .multiply left
  | oneMultiply :
      left.isOne = true → right.isNumber = true → Identity left right ty .multiply right
  | multiplyZero :
      right.isZero = true → left.isNumber = true → Identity left right ty .multiply right
  | zeroMultiply :
      left.isZero = true → right.isNumber = true → Identity left right ty .multiply left
  | divideOne : right.isOne = true → left.ty = ty → Identity left right ty .divide left
  | zeroDivide :
      left.isZero = true → right.isNumber = true → Identity left right ty .divide (.float 0)
  | powerZero :
      right.isZero = true → left.isNumber = true → Identity left right ty .power right.oneLike
  | onePower : left.isOne = true → right.isNumber = true → Identity left right ty .power left

variable {left right e : Expr} {op : BinaryOp} {ty : Ty}

/-- An identity leaves an operand, a literal, or a negation where zero stood before a minus sign. -/
theorem Identity.outcome (h : Identity left right ty op e) :
    e = left ∨ e = right ∨ (∃ value, e = .literal value) ∨
      op = .subtract ∧ left.isZero = true ∧ e = .unary .negate right ty := by
  cases h with
  | trueAnd | falseOr | zeroAdd | oneMultiply | multiplyZero => exact .inr (.inl rfl)
  | andTrue | orFalse | addZero | subtractZero | multiplyOne | zeroMultiply | divideOne
  | onePower => exact .inl rfl
  | zeroDivide => exact .inr (.inr (.inl ⟨_, rfl⟩))
  | powerZero => exact .inr (.inr (.inl (oneLike_eq_literal right)))
  | zeroSubtract hz _ => exact .inr (.inr (.inr ⟨rfl, hz, rfl⟩))

theorem logicalIdentity?_generation (h : logicalIdentity? op left right = some e) :
    Identity left right ty op e := by
  revert h
  fun_cases logicalIdentity? op left right
  all_goals rintro ⟨⟩
  all_goals rename_i hc
  · exact .trueAnd hc
  · exact .andTrue hc
  · exact .falseOr hc
  · exact .orFalse hc

theorem arithmeticIdentity?_generation (h : arithmeticIdentity? op left right ty = some e) :
    Identity left right ty op e := by
  revert h
  fun_cases arithmeticIdentity? op left right ty
  all_goals rintro ⟨⟩
  all_goals
    rename_i hc
    rw [Bool.and_eq_true] at hc
  · exact .addZero hc.1 hc.2
  · exact .zeroAdd hc.1 hc.2
  · exact .subtractZero hc.1 hc.2
  · exact .zeroSubtract hc.1 hc.2
  · exact .multiplyOne hc.1 hc.2
  · exact .oneMultiply hc.1 hc.2
  · exact .multiplyZero hc.1 hc.2
  · exact .zeroMultiply hc.1 hc.2
  · exact .divideOne hc.1 (of_decide_eq_true hc.2)
  · exact .zeroDivide hc.1 hc.2
  · exact .powerZero hc.1 hc.2
  · exact .onePower hc.1 hc.2

/-- Literals are folded before any identity is tried. -/
inductive Reduces (left : Expr) (op : BinaryOp) (right : Expr) (ty : Ty) : Expr → Prop where
  | folds {value : Literal} :
      fold? op left right = some value → Reduces left op right ty (.literal value)
  | cancels {e : Expr} :
      fold? op left right = none → Identity left right ty op e → Reduces left op right ty e
  | stays : fold? op left right = none → Reduces left op right ty (.binary left op right ty)

theorem simplifyBinary_reduces (left : Expr) (op : BinaryOp) (right : Expr) (ty : Ty) :
    Reduces left op right ty (simplifyBinary left op right ty) := by
  rw [simplifyBinary]
  cases hf : fold? op left right with
  | some value => exact .folds hf
  | none =>
    cases hl : logicalIdentity? op left right with
    | some e => exact .cancels hf (logicalIdentity?_generation hl)
    | none =>
      cases ha : arithmeticIdentity? op left right ty with
      | some e => exact .cancels hf (arithmeticIdentity?_generation ha)
      | none => exact .stays hf

theorem simplifyUnary_cases (op : UnaryOp) (operand : Expr) (ty : Ty) :
    (∃ v w : Literal, operand = .literal v ∧ simplifyUnary op operand ty = .literal w ∧
      w.ty = v.ty) ∨ simplifyUnary op operand ty = .unary op operand ty := by
  fun_cases simplifyUnary op operand ty with
  | case1 n => exact .inl ⟨_, _, rfl, rfl, rfl⟩
  | case2 x => exact .inl ⟨_, _, rfl, rfl, rfl⟩
  | case3 b => exact .inl ⟨_, _, rfl, rfl, rfl⟩
  | case4 => exact .inr rfl

theorem simplifyConditional_cases (test consequent alternate : Expr) (ty : Ty) :
    test = .bool true ∧ simplifyConditional test consequent alternate ty = consequent ∨
      test = .bool false ∧ simplifyConditional test consequent alternate ty = alternate ∨
      simplifyConditional test consequent alternate ty =
        .conditional test consequent alternate ty := by
  fun_cases simplifyConditional test consequent alternate ty with
  | case1 => exact .inl ⟨rfl, rfl⟩
  | case2 => exact .inr (.inl ⟨rfl, rfl⟩)
  | case3 => exact .inr (.inr rfl)

theorem forall_mem_simplifyAll {P : Expr → Prop} {es : List Expr} (h : ∀ e ∈ es, P e)
    (hP : ∀ e, P e → P e.simplify) : ∀ e ∈ simplifyAll es, P e := by
  rw [simplifyAll_eq_map, List.forall_mem_map]
  exact fun e he => hP e (h e he)

theorem forall_mem_map_simplify {P : Expr → Prop} {value : Option Expr} (h : ∀ e ∈ value, P e)
    (hP : ∀ e, P e → P e.simplify) : ∀ e ∈ value.map simplify, P e := by
  intro x hx
  obtain ⟨e, he, rfl⟩ := Option.map_eq_some_iff.1 hx
  exact hP e (h e he)

end Expr

namespace Stmt

mutual

/-- Whether every expression of the statement satisfies `P`. -/
def Holds (P : Expr → Prop) : Stmt → Prop
  | .declaration _ value => P value
  | .assignment target value => P target ∧ P value
  | .function _ _ body => HoldsAll P body
  | .rangeFor init update test body =>
    init.Holds P ∧ update.Holds P ∧ P test ∧ HoldsAll P body
  | .collectionFor _ collection body => P collection ∧ HoldsAll P body
  | .ret value => ∀ e ∈ value, P e
  | .brk => True
  | .call callee args => P callee ∧ ∀ e ∈ args, P e
  | .print args => ∀ e ∈ args, P e
  | .method object _ args => P object ∧ ∀ e ∈ args, P e

def HoldsAll (P : Expr → Prop) : List Stmt → Prop
  | [] => True
  | s :: ss => s.Holds P ∧ HoldsAll P ss

end

theorem remains?_eq_some {s t : Stmt} (h : s.remains? = some t) : t = s := by
  cases s with
  | assignment target value => exact (Option.some.inj h).symm
  | _ => cases h

variable {P : Expr → Prop}

theorem Holds.simplifyHeader {s : Stmt} (h : s.Holds P) (hP : ∀ e, P e → P e.simplify) :
    s.simplifyHeader.Holds P := by
  cases s with
  | declaration id value => exact hP value h
  | assignment target value => exact ⟨hP target h.1, hP value h.2⟩
  | _ => exact h

mutual

theorem Holds.simplify? (hP : ∀ e, P e → P e.simplify) :
    (s : Stmt) → {t : Stmt} → s.Holds P → s.simplify? = some t → t.Holds P
  | .declaration _ value, _, h, ht => by
    cases ht
    exact hP value h
  | .assignment target value, _, h, ht => by
    rw [Stmt.simplify?, Option.ite_none_left_eq_some] at ht
    cases ht.2
    exact ⟨hP target h.1, hP value h.2⟩
  | .function _ _ body, _, h, ht => by
    cases ht
    exact holdsAll_simplifyAll hP body h
  | .rangeFor _ _ test body, _, ⟨hi, hu, htest, hb⟩, ht => by
    rw [Stmt.simplify?] at ht
    split at ht
    next =>
      cases remains?_eq_some ht
      exact hi.simplifyHeader hP
    next =>
      cases ht
      exact ⟨hi.simplifyHeader hP, hu.simplifyHeader hP, hP test htest,
        holdsAll_simplifyAll hP body hb⟩
  | .collectionFor _ collection body, _, ⟨hc, hb⟩, ht => by
    cases ht
    exact ⟨hP collection hc, holdsAll_simplifyAll hP body hb⟩
  | .ret value, _, h, ht => by
    cases ht
    exact Expr.forall_mem_map_simplify h hP
  | .brk, _, _, ht => by
    cases ht
    exact trivial
  | .call callee _, _, ⟨hf, has⟩, ht => by
    cases ht
    exact ⟨hP callee hf, Expr.forall_mem_simplifyAll has hP⟩
  | .print _, _, has, ht => by
    cases ht
    exact Expr.forall_mem_simplifyAll has hP
  | .method object _ _, _, ⟨ho, has⟩, ht => by
    cases ht
    exact ⟨hP object ho, Expr.forall_mem_simplifyAll has hP⟩

theorem holdsAll_simplifyAll (hP : ∀ e, P e → P e.simplify) :
    (ss : List Stmt) → HoldsAll P ss → HoldsAll P (simplifyAll ss)
  | [], _ => trivial
  | s :: ss, ⟨hs, hss⟩ => by
    rw [simplifyAll]
    split
    next t ht => exact ⟨Holds.simplify? hP s hs ht, holdsAll_simplifyAll hP ss hss⟩
    next => exact holdsAll_simplifyAll hP ss hss

end

end Stmt
end Scriptor.Typed
