import Scriptor.Proofs.Typing

namespace Scriptor

open Check

variable {env env' : Env}

theorem Check.binary_of_rule {op : BinaryOp} {left right : Typed.Expr} {ty : Ty} {a : Arena}
    (h : (Typed.Expr.binary left op right ty).Rule a) (leftStart rightStart : Position) :
    Check.binary op left right leftStart rightStart = .ok (.binary left op right ty) := by
  obtain ⟨hl, hr, common, hu, rfl⟩ := h
  refine bind_eq_ok_iff.2 ⟨(), requireOperand_eq_ok.2 hl, ?_⟩
  refine bind_eq_ok_iff.2 ⟨(), requireOperand_eq_ok.2 hr, ?_⟩
  refine bind_eq_ok_iff.2 ⟨common, unify_eq_ok.2 hu, ?_⟩
  rw [resultType_eq]
  rfl

theorem Expr.checkTarget_of_assignable {target : Expr} {t : Typed.Expr}
    (h : target.check env = .ok t)
    (hw : t.Assignable env.entities) : target.checkTarget env = .ok t := by
  have hshape := (Expr.check_generation h).1
  cases target with
  | symbol name span =>
    obtain ⟨id, x, hx, rfl⟩ := hshape
    obtain ⟨y, hy, hwrite⟩ := hw
    cases hy.symm.trans (Env.resolve?_eq_some_iff.1 hx).2
    rw [Expr.checkTarget, hx]
    exact bind_eq_ok_iff.2 ⟨(), require_eq_ok.2 hwrite, rfl⟩
  | subscript indexed index span => exact h
  | number text span =>
    obtain ⟨value, rfl⟩ := hshape
    exact hw.elim
  | string value span | boolean value span =>
    cases hshape
    exact hw.elim
  | binary left op right span =>
    obtain ⟨l, r, ty, -, -, rfl⟩ := hshape
    exact hw.elim
  | unary op operand span | array elements span | dict entries span =>
    obtain ⟨x, ty, -, rfl⟩ := hshape
    exact hw.elim
  | conditional test consequent alternate span =>
    obtain ⟨x, c, d, ty, -, -, -, rfl⟩ := hshape
    exact hw.elim
  | call callee args span =>
    obtain ⟨f, as, ty, -, -, rfl⟩ := hshape
    exact hw.elim
  | member object property propertySpan span => exact hshape.elim

theorem Expr.unbound?_eq_none_of_check {target : Expr} {t : Typed.Expr}
    (h : target.check env = .ok t) : target.unbound? env = none := by
  cases target with
  | symbol name span =>
    obtain ⟨id, x, hx, -⟩ := (Expr.check_generation h).1
    rw [Expr.unbound?, hx]
    rfl
  | _ => rfl

namespace Assignment

/-- Whether a new value can be computed from the old value of the target, and the statement that
does it. -/
def Computes (env : Env) (target : Expr) (op : BinaryOp) (value : Expr) (t : Typed.Stmt) : Prop :=
  ∃ l r ty, target.check env = .ok l ∧ l.Assignable env.entities ∧ value.check env = .ok r ∧
    (Typed.Expr.binary l op r ty).Rule env.entities ∧ l.ty.accepts ty = true ∧
    t = .assignment l (.binary l op r ty)

variable {target value : Expr} {op : BinaryOp} {span valueSpan : Span} {t : Typed.Stmt}

theorem check_compound_eq_ok_iff :
    Assignment.check env ⟨target, some op, value, span⟩ = .ok (t, env') ↔
      Computes env target op value t ∧ env' = env := by
  constructor
  · intro h
    cases Assignment.check_generation h with
    | declares ho | assigns ho => cases ho
    | computes ho ht hw hv hrule hacc =>
      cases ho
      exact ⟨⟨_, _, _, ht, hw, hv, hrule, hacc, rfl⟩, rfl⟩
  · rintro ⟨⟨l, r, ty, ht, hw, hv, hrule, hacc, rfl⟩, rfl⟩
    refine bind_eq_ok_iff.2 ⟨l, Expr.checkTarget_of_assignable ht hw, ?_⟩
    refine bind_eq_ok_iff.2 ⟨r, hv, ?_⟩
    refine bind_eq_ok_iff.2 ⟨_, binary_of_rule hrule _ _, ?_⟩
    exact bind_eq_ok_iff.2 ⟨(), require_eq_ok.2 hacc, rfl⟩

theorem check_expanded_eq_ok_iff :
    Assignment.check env ⟨target, none, .binary target op value valueSpan, span⟩ =
      .ok (t, env') ↔ Computes env target op value t ∧ env' = env := by
  constructor
  · intro h
    cases Assignment.check_generation h with
    | declares _ htarget hn hv _ =>
      -- the value reads the target, so that it stands for something
      obtain ⟨l, r, ty, hl, -, -⟩ := (Expr.check_generation hv).1
      cases htarget
      obtain ⟨id, x, hx, -⟩ := (Expr.check_generation hl).1
      cases hn.symm.trans hx
    | assigns _ ht hw hv _ hacc =>
      obtain ⟨⟨l, r, ty, hl, hr, rfl⟩, hrule⟩ := Expr.check_generation hv
      cases hl.symm.trans ht
      exact ⟨⟨_, r, ty, ht, hw, hr, hrule, hacc, rfl⟩, rfl⟩
    | computes ho => cases ho
  · rintro ⟨⟨l, r, ty, ht, hw, hv, hrule, hacc, rfl⟩, rfl⟩
    have hvalue : (Expr.binary target op value valueSpan).check env' = .ok (.binary l op r ty) :=
      bind_eq_ok_iff.2 ⟨l, ht, bind_eq_ok_iff.2 ⟨r, hv, binary_of_rule hrule _ _⟩⟩
    refine bind_eq_ok_iff.2 ⟨_, hvalue, ?_⟩
    refine bind_eq_ok_iff.2 ⟨(), requireValue_eq_ok.2 hrule.binary_ty_ne_void, ?_⟩
    rw [Expr.unbound?_eq_none_of_check ht]
    refine bind_eq_ok_iff.2 ⟨l, Expr.checkTarget_of_assignable ht hw, ?_⟩
    exact bind_eq_ok_iff.2 ⟨(), require_eq_ok.2 hacc, rfl⟩

/-- In every environment a compound assignment is accepted exactly when it is accepted written
out, and both yield the same statement and leave the environment as it is. This takes a target
that can be written and an operator that takes the target and the value, and whose result the
target accepts. -/
theorem check_compound_eq_expanded (env : Env) (target value : Expr) (op : BinaryOp)
    (span valueSpan span' : Span) (t : Typed.Stmt) (env' : Env) :
    (Assignment.check env ⟨target, some op, value, span⟩ = .ok (t, env') ↔
      Assignment.check env ⟨target, none, .binary target op value valueSpan, span'⟩ =
        .ok (t, env')) ∧
    (Assignment.check env ⟨target, some op, value, span⟩ = .ok (t, env') ↔
      Computes env target op value t ∧ env' = env) := by
  rw [check_compound_eq_ok_iff, check_expanded_eq_ok_iff]
  exact ⟨Iff.rfl, Iff.rfl⟩

end Assignment
end Scriptor
