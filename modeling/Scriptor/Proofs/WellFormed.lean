import Mathlib.Logic.Function.Iterate
import Scriptor.Proofs.Environment
import Scriptor.Proofs.Rules
import Scriptor.Proofs.Simplification

namespace Scriptor.Typed

namespace Expr

def base? : Expr → Option Expr
  | .call callee _ _ => some callee
  | .subscript indexed _ _ => some indexed
  | _ => none

/-- Whether every entity that the expression names satisfies `q`. -/
def Names (q : EntityId → Prop) (e : Expr) : Prop :=
  e.Every fun x => ∀ id, x.entity? = some id → q id

variable {q : EntityId → Prop}

@[simp] theorem names_var {id : EntityId} {ty : Ty} : (var id ty).Names q ↔ q id := by
  constructor
  · intro h
    exact h id rfl
  · rintro h _ ⟨⟩
    exact h

@[simp] theorem names_binary {left right : Expr} {op : BinaryOp} {ty : Ty} :
    (binary left op right ty).Names q ↔ left.Names q ∧ right.Names q :=
  and_iff_right nofun

@[simp] theorem names_unary {op : UnaryOp} {operand : Expr} {ty : Ty} :
    (unary op operand ty).Names q ↔ operand.Names q :=
  and_iff_right nofun

@[simp] theorem names_conditional {test consequent alternate : Expr} {ty : Ty} :
    (conditional test consequent alternate ty).Names q ↔
      test.Names q ∧ consequent.Names q ∧ alternate.Names q :=
  and_iff_right nofun

@[simp] theorem names_call {callee : Expr} {args : List Expr} {ty : Ty} :
    (call callee args ty).Names q ↔ callee.Names q ∧ ∀ e ∈ args, e.Names q :=
  (and_iff_right nofun).trans (and_congr_right fun _ => everyOf_iff)

@[simp] theorem names_subscript {indexed index : Expr} {ty : Ty} :
    (subscript indexed index ty).Names q ↔ indexed.Names q ∧ index.Names q :=
  and_iff_right nofun

@[simp] theorem names_array {elements : List Expr} {ty : Ty} :
    (array elements ty).Names q ↔ ∀ e ∈ elements, e.Names q :=
  (and_iff_right nofun).trans everyOf_iff

@[simp] theorem names_dict {entries : List (Expr × Expr)} {ty : Ty} :
    (dict entries ty).Names q ↔ ∀ p ∈ entries, p.1.Names q ∧ p.2.Names q :=
  (and_iff_right nofun).trans everyEntry_iff

section Every

variable {P : Expr → Prop} {left right e : Expr} {op : BinaryOp} {ty : Ty}

theorem Identity.every (h : Identity left right ty op e)
    (hP : ∀ x, x.entity? = none → x.base? = none → P x)
    (hl : left.Every P) (hr : right.Every P) : e.Every P := by
  rcases h.outcome with rfl | rfl | ⟨value, rfl⟩ | ⟨-, -, rfl⟩
  · exact hl
  · exact hr
  · exact hP _ rfl rfl
  · exact ⟨hP _ rfl rfl, hr⟩

theorem Reduces.every (h : Reduces left op right ty e)
    (hP : ∀ x, x.entity? = none → x.base? = none → P x)
    (hl : left.Every P) (hr : right.Every P) : e.Every P := by
  cases h with
  | folds => exact hP _ rfl rfl
  | cancels _ hi => exact hi.every hP hl hr
  | stays => exact ⟨hP _ rfl rfl, hl, hr⟩

/-- Only names, calls and subscripts have to be looked at in a simplified expression, and they are
those that were there before. -/
theorem every_simplify (hP : ∀ x, x.entity? = none → x.base? = none → P x)
    (h : e.Every fun x => x.entity? ≠ none ∨ x.base? ≠ none → P x.simplify) :
    e.simplify.Every P := by
  induction e with
  | literal value => exact hP _ rfl rfl
  | var id ty => exact h (.inl nofun)
  | binary left op right ty ihl ihr =>
    exact (simplifyBinary_reduces _ _ _ _).every hP (ihl h.2.1) (ihr h.2.2)
  | unary op operand ty ih =>
    rw [simplify]
    rcases simplifyUnary_cases op operand.simplify ty with ⟨v, w, -, hw, -⟩ | hs
    · rw [hw]
      exact hP _ rfl rfl
    · rw [hs]
      exact ⟨hP _ rfl rfl, ih h.2⟩
  | conditional test consequent alternate ty iht ihc iha =>
    rw [simplify]
    rcases simplifyConditional_cases test.simplify consequent.simplify alternate.simplify ty with
      ⟨-, hs⟩ | ⟨-, hs⟩ | hs
    · rw [hs]
      exact ihc h.2.2.1
    · rw [hs]
      exact iha h.2.2.2
    · rw [hs]
      exact ⟨hP _ rfl rfl, iht h.2.1, ihc h.2.2.1, iha h.2.2.2⟩
  | call callee args ty ihf ihs =>
    refine ⟨h.1 (.inr nofun), ihf h.2.1, ?_⟩
    rw [simplifyAll_eq_map, everyOf_iff, List.forall_mem_map]
    exact fun e he => ihs e he (everyOf_iff.1 h.2.2 e he)
  | subscript indexed index ty iha ihi => exact ⟨h.1 (.inr nofun), iha h.2.1, ihi h.2.2⟩
  | array elements ty ihs =>
    refine ⟨hP _ rfl rfl, ?_⟩
    rw [simplifyAll_eq_map, everyOf_iff, List.forall_mem_map]
    exact fun e he => ihs e he (everyOf_iff.1 h.2 e he)
  | dict entries ty ihs =>
    refine ⟨hP _ rfl rfl, ?_⟩
    rw [simplifyEntries_eq_map, everyEntry_iff, List.forall_mem_map]
    intro p hp
    obtain ⟨hk, hv⟩ := everyEntry_iff.1 h.2 p hp
    exact ⟨(ihs p hp).1 hk, (ihs p hp).2 hv⟩

end Every

/-- Simplification names no entity that was not named before. -/
theorem Names.simplify {e : Expr} (h : e.Names q) : e.simplify.Names q := by
  refine every_simplify (fun x hx _ id hid => nomatch hx.symm.trans hid) (Every.imp h ?_)
  intro x hx hkept
  cases x with
  | var id ty => exact hx
  | call | subscript => exact nofun
  | _ => simp [entity?, base?] at hkept

theorem WellTyped.names {a : Arena} {e : Expr} (h : e.WellTyped a) :
    e.Names fun id => id.index < a.size := by
  refine Every.imp h ?_
  intro x hx id hid
  cases x with
  | var id ty =>
    cases hid
    obtain ⟨y, hy, -⟩ := hx
    exact Arena.lt_size_iff.2 ⟨y, hy⟩
  | _ => cases hid

end Expr

namespace Stmt

def IsStart : Stmt → Prop
  | .declaration _ _ | .assignment _ _ => True
  | _ => False

def IsStep : Stmt → Prop
  | .assignment _ _ => True
  | _ => False

mutual

/-- Whether the statement names only the first `n` entities, its loops have headers of the right
form and its methods as many arguments as they take. -/
def WellFormed (n : Nat) : Stmt → Prop
  | .declaration id value => id.index < n ∧ value.Names (·.index < n)
  | .assignment target value => target.Names (·.index < n) ∧ value.Names (·.index < n)
  | .function id parameters body =>
    id.index < n ∧ (∀ p ∈ parameters, p.index < n) ∧ WellFormedAll n body
  | .rangeFor init update test body =>
    init.IsStart ∧ init.WellFormed n ∧ update.IsStep ∧ update.WellFormed n ∧
      test.Names (·.index < n) ∧ WellFormedAll n body
  | .collectionFor id collection body =>
    id.index < n ∧ collection.Names (·.index < n) ∧ WellFormedAll n body
  | .ret value => ∀ e ∈ value, e.Names (·.index < n)
  | .brk => True
  | .call callee args => callee.Names (·.index < n) ∧ ∀ e ∈ args, e.Names (·.index < n)
  | .print args => ∀ e ∈ args, e.Names (·.index < n)
  | .method object m args =>
    object.Names (·.index < n) ∧ (∀ e ∈ args, e.Names (·.index < n)) ∧
      args.length = m.arity

def WellFormedAll (n : Nat) : List Stmt → Prop
  | [] => True
  | s :: ss => s.WellFormed n ∧ WellFormedAll n ss

end

theorem IsStep.isStart {s : Stmt} (h : s.IsStep) : s.IsStart := by
  cases s with
  | assignment target value => exact trivial
  | _ => exact h.elim

theorem StartsNumber.isStart {s : Stmt} (h : s.StartsNumber) : s.IsStart := by
  cases s with
  | declaration id value => exact trivial
  | assignment target value => exact trivial
  | _ => exact h

theorem StepsNumber.isStep {s : Stmt} (h : s.StepsNumber) : s.IsStep := by
  cases s with
  | assignment target value => exact trivial
  | _ => exact h

end Stmt

theorem Method.Takes.length_eq {m : Method} {ty : Ty} {parameters : List Ty}
    (h : m.Takes ty parameters) : parameters.length = m.arity := by
  cases h <;> rfl

namespace Stmt

mutual

theorem WellTyped.wellFormed {a : Arena} :
    (s : Stmt) → {result : Option Ty} → s.WellTyped a result → s.WellFormed a.size
  | .declaration id value, _, ⟨hv, _, name, hx⟩ =>
    ⟨Arena.lt_size_iff.2 ⟨_, hx⟩, Expr.WellTyped.names hv⟩
  | .assignment target value, _, ⟨ht, hv, _⟩ =>
    ⟨Expr.WellTyped.names ht, Expr.WellTyped.names hv⟩
  | .function id parameters body, _, ⟨name, types, returned, hx, hps, hb⟩ => by
    refine ⟨Arena.lt_size_iff.2 ⟨_, hx⟩, ?_, wellTypedAll_wellFormed body hb⟩
    refine forall_mem_of_forall₂ hps.flip ?_
    rintro ty - id ⟨name, hid⟩
    exact Arena.lt_size_iff.2 ⟨_, hid⟩
  | .rangeFor init update test body, _, ⟨hi, his, hu, hus, ht, _, hb⟩ =>
    ⟨his.isStart, WellTyped.wellFormed init hi, hus.isStep, WellTyped.wellFormed update hu,
      Expr.WellTyped.names ht, wellTypedAll_wellFormed body hb⟩
  | .collectionFor id collection body, _, ⟨hc, ⟨name, ty, _, hx⟩, hb⟩ =>
    ⟨Arena.lt_size_iff.2 ⟨_, hx⟩, Expr.WellTyped.names hc, wellTypedAll_wellFormed body hb⟩
  | .ret value, _, ⟨hv, _⟩ => fun e he => Expr.WellTyped.names (hv e he)
  | .brk, _, _ => trivial
  | .call callee args, _, ⟨hf, has, _⟩ =>
    ⟨Expr.WellTyped.names hf, fun e he => Expr.WellTyped.names (has e he)⟩
  | .print args, _, has => fun e he => Expr.WellTyped.names (has e he)
  | .method object m args, _, ⟨ho, has, parameters, hm, hfits⟩ => by
    refine ⟨Expr.WellTyped.names ho, fun e he => Expr.WellTyped.names (has e he), ?_⟩
    rw [hfits.arity not_false, hm.length_eq]

theorem wellTypedAll_wellFormed {a : Arena} : (ss : List Stmt) → {result : Option Ty} →
    WellTypedAll a result ss → WellFormedAll a.size ss
  | [], _, _ => trivial
  | s :: ss, _, ⟨hs, hss⟩ => ⟨WellTyped.wellFormed s hs, wellTypedAll_wellFormed ss hss⟩

end

variable {n : Nat}

theorem WellFormed.simplifyHeader {s : Stmt} (h : s.WellFormed n) :
    s.simplifyHeader.WellFormed n := by
  cases s with
  | declaration id value => exact ⟨h.1, h.2.simplify⟩
  | assignment target value => exact ⟨h.1.simplify, h.2.simplify⟩
  | _ => exact h

theorem IsStart.simplifyHeader {s : Stmt} (h : s.IsStart) : s.simplifyHeader.IsStart := by
  cases s <;> exact h

theorem IsStep.simplifyHeader {s : Stmt} (h : s.IsStep) : s.simplifyHeader.IsStep := by
  cases s <;> exact h

mutual

theorem WellFormed.simplify? :
    (s : Stmt) → {t : Stmt} → s.WellFormed n → s.simplify? = some t → t.WellFormed n
  | .declaration id value, _, h, ht => by
    cases ht
    exact ⟨h.1, h.2.simplify⟩
  | .assignment target value, _, h, ht => by
    rw [Stmt.simplify?, Option.ite_none_left_eq_some] at ht
    cases ht.2
    exact ⟨h.1.simplify, h.2.simplify⟩
  | .function id parameters body, _, ⟨hid, hps, hb⟩, ht => by
    cases ht
    exact ⟨hid, hps, wellFormedAll_simplifyAll body hb⟩
  | .rangeFor init update test body, _, ⟨his, hi, hus, hu, htest, hb⟩, ht => by
    rw [Stmt.simplify?] at ht
    split at ht
    next =>
      cases remains?_eq_some ht
      exact hi.simplifyHeader
    next =>
      cases ht
      exact ⟨his.simplifyHeader, hi.simplifyHeader, hus.simplifyHeader,
        hu.simplifyHeader, htest.simplify, wellFormedAll_simplifyAll body hb⟩
  | .collectionFor id collection body, _, ⟨hid, hc, hb⟩, ht => by
    cases ht
    exact ⟨hid, hc.simplify, wellFormedAll_simplifyAll body hb⟩
  | .ret value, _, h, ht => by
    cases ht
    exact Expr.forall_mem_map_simplify h fun _ => Expr.Names.simplify
  | .brk, _, _, ht => by
    cases ht
    exact trivial
  | .call callee args, _, ⟨hf, has⟩, ht => by
    cases ht
    exact ⟨hf.simplify, Expr.forall_mem_simplifyAll has fun _ => Expr.Names.simplify⟩
  | .print args, _, has, ht => by
    cases ht
    exact Expr.forall_mem_simplifyAll has fun _ => Expr.Names.simplify
  | .method object m args, _, ⟨ho, has, hm⟩, ht => by
    cases ht
    refine ⟨ho.simplify, Expr.forall_mem_simplifyAll has fun _ => Expr.Names.simplify, ?_⟩
    rw [Expr.simplifyAll_eq_map, List.length_map, hm]

theorem wellFormedAll_simplifyAll :
    (ss : List Stmt) → WellFormedAll n ss → WellFormedAll n (simplifyAll ss)
  | [], _ => trivial
  | s :: ss, ⟨hs, hss⟩ => by
    rw [simplifyAll]
    split
    next t ht => exact ⟨WellFormed.simplify? s hs ht, wellFormedAll_simplifyAll ss hss⟩
    next => exact wellFormedAll_simplifyAll ss hss

end

end Stmt

/-- Whether a script of the program can be written. -/
def Program.WellFormed (p : Program) : Prop :=
  Stmt.WellFormedAll p.entities.size p.statements

theorem Program.WellTyped.wellFormed {p : Program} (h : p.WellTyped) : p.WellFormed :=
  Stmt.wellTypedAll_wellFormed p.statements h

theorem Program.WellFormed.simplify_iterate {p : Program} (h : p.WellFormed) (n : Nat) :
    (Program.simplify^[n] p).WellFormed := by
  induction n with
  | zero => exact h
  | succ n ih =>
    rw [Function.iterate_succ_apply']
    exact Stmt.wellFormedAll_simplifyAll _ ih

end Scriptor.Typed
