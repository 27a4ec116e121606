import Scriptor.Compile
import Scriptor.Proofs.Precision

namespace Scriptor.Typed

inductive Side where
  | left
  | right

namespace Expr

/-- Whether an identity makes a number of the operator without the operand on the given side. -/
def discards (left : Expr) (op : BinaryOp) (right : Expr) (side : Side) : Bool :=
  match op, side with
  | .multiply, .left | .power, .left => right.isZero && left.isNumber
  | .multiply, .right | .divide, .right => left.isZero && right.isNumber
  | .power, .right => left.isOne && right.isNumber
  | _, _ => false

mutual

/-- The calls that are made whatever the tests within the expression yield, in the order in which
they are made. Operands that `skips` names are left out. -/
def callsBut (skips : Expr → BinaryOp → Expr → Side → Bool) : Expr → List Expr
  | .literal _ | .var _ _ => []
  | .binary left op right _ =>
    (if skips left op right .left then [] else left.callsBut skips) ++
      if op.isLogical || skips left op right .right then [] else right.callsBut skips
  | .unary _ operand _ => operand.callsBut skips
  | .conditional test _ _ _ => test.callsBut skips
  -- a function is called when its arguments are known
  | .call callee args ty =>
    callee.callsBut skips ++ (allCallsBut skips args ++ [.call callee args ty])
  | .subscript indexed index _ => indexed.callsBut skips ++ index.callsBut skips
  | .array elements _ => allCallsBut skips elements
  | .dict entries _ => entryCallsBut skips entries

def allCallsBut (skips : Expr → BinaryOp → Expr → Side → Bool) : List Expr → List Expr
  | [] => []
  | e :: es => e.callsBut skips ++ allCallsBut skips es

def entryCallsBut (skips : Expr → BinaryOp → Expr → Side → Bool) :
    List (Expr × Expr) → List Expr
  | [] => []
  | (key, value) :: ps => key.callsBut skips ++ (value.callsBut skips ++ entryCallsBut skips ps)

end

def calls (e : Expr) : List Expr := e.callsBut fun _ _ _ _ => false

/-- Those of them that do not lie within a discarded operand. -/
def lastingCalls (e : Expr) : List Expr :=
  e.callsBut fun left op right => discards left.simplify op right.simplify

variable {left right e : Expr} {op : BinaryOp} {ty : Ty} {as bs : List Expr}

theorem calls_of_isZero (h : e.isZero = true) : e.calls = [] := by
  cases e with
  | literal value => rfl
  | _ => cases h

theorem calls_of_isOne (h : e.isOne = true) : e.calls = [] := by
  cases e with
  | literal value => rfl
  | _ => cases h

theorem calls_of_isBool {b : Bool} (h : e.isBool b = true) : e.calls = [] := by
  cases e with
  | literal value => rfl
  | _ => cases h

theorem calls_oneLike (e : Expr) : e.oneLike.calls = [] := by
  cases e with
  | literal value => cases value <;> rfl
  | _ => rfl

theorem calls_binary (left : Expr) (op : BinaryOp) (right : Expr) (ty : Ty) :
    (binary left op right ty).calls = left.calls ++ if op.isLogical then [] else right.calls := by
  simp only [calls, callsBut, Bool.or_false, Bool.false_eq_true, if_false]

/-- What an operator turns into makes the calls of both operands, unless an operand is discarded or
only one outcome of the other one leads to it. -/
theorem Reduces.calls_sublist (h : Reduces left op right ty e) (ha : as.Sublist left.calls)
    (hb : bs.Sublist right.calls) (hleft : discards left op right .left = true → as = [])
    (hright : (op.isLogical || discards left op right .right) = true → bs = []) :
    (as ++ bs).Sublist e.calls := by
  have hab := ha.append hb
  cases h with
  | folds hf =>
    obtain ⟨x, y, rfl, rfl, -⟩ := fold?_eq_some hf
    exact hab
  | cancels _ hi =>
    have keepsLeft (h : right.calls = []) : (as ++ bs).Sublist left.calls := by
      rwa [h, List.append_nil] at hab
    have keepsRight (h : left.calls = []) : (as ++ bs).Sublist right.calls := by rwa [h] at hab
    cases hi with
    | andTrue h | orFalse h => exact keepsLeft (calls_of_isBool h)
    | trueAnd h | falseOr h => exact keepsRight (calls_of_isBool h)
    | addZero h _ | subtractZero h _ => exact keepsLeft (calls_of_isZero h)
    | zeroAdd h _ | zeroSubtract h _ => exact keepsRight (calls_of_isZero h)
    | multiplyOne h _ | divideOne h _ => exact keepsLeft (calls_of_isOne h)
    | oneMultiply h _ => exact keepsRight (calls_of_isOne h)
    | multiplyZero h hn =>
      rw [hleft (Bool.and_eq_true_iff.2 ⟨h, hn⟩)]
      exact hb
    | zeroMultiply h hn | onePower h hn =>
      rw [hright (Bool.and_eq_true_iff.2 ⟨h, hn⟩), List.append_nil]
      exact ha
    | zeroDivide h hn =>
      rw [hright (Bool.and_eq_true_iff.2 ⟨h, hn⟩), List.append_nil]
      rw [calls_of_isZero h] at ha
      exact ha
    | powerZero h hn =>
      rw [hleft (Bool.and_eq_true_iff.2 ⟨h, hn⟩), calls_oneLike]
      rw [calls_of_isZero h] at hb
      exact hb
  | stays =>
    rw [calls_binary]
    split
    next hlogical =>
      rw [hright (by rw [hlogical, Bool.true_or])]
      exact ha.append (.refl _)
    next => exact hab

theorem allCallsBut_eq_flatMap (skips : Expr → BinaryOp → Expr → Side → Bool)
    (es : List Expr) : allCallsBut skips es = es.flatMap (callsBut skips) := by
  induction es with
  | nil => rfl
  | cons e es ih => rw [allCallsBut, ih, List.flatMap_cons]

theorem entryCallsBut_eq_flatMap (skips : Expr → BinaryOp → Expr → Side → Bool)
    (ps : List (Expr × Expr)) :
    entryCallsBut skips ps = ps.flatMap fun p => p.1.callsBut skips ++ p.2.callsBut skips := by
  induction ps with
  | nil => rfl
  | cons p ps ih => rw [entryCallsBut, ih, List.flatMap_cons, List.append_assoc]

theorem map_flatMap_sublist {α : Type} {f g : α → List Expr} {t : α → α} {xs : List α}
    (h : ∀ x ∈ xs, ((f x).map simplify).Sublist (g (t x))) :
    ((xs.flatMap f).map simplify).Sublist ((xs.map t).flatMap g) := by
  induction xs with
  | nil => exact .refl _
  | cons x xs ih =>
    rw [List.forall_mem_cons] at h
    rw [List.flatMap_cons, List.map_append, List.map_cons, List.flatMap_cons]
    exact h.1.append (ih h.2)

theorem map_simplify_lastingCalls (e : Expr) :
    (e.lastingCalls.map simplify).Sublist e.simplify.calls := by
  induction e with
  | literal value => exact .refl _
  | var id ty => exact .refl _
  | binary left op right ty ihl ihr =>
    rw [lastingCalls, callsBut, List.map_append, simplify]
    apply (simplifyBinary_reduces _ _ _ _).calls_sublist
    · split
      · exact List.nil_sublist _
      · exact ihl
    · split
      · exact List.nil_sublist _
      · exact ihr
    · intro h
      rw [if_pos h]
      rfl
    · intro h
      rw [if_pos h]
      rfl
  | unary op operand ty ih =>
    rw [simplify]
    rcases simplifyUnary_cases op operand.simplify ty with ⟨v, w, hv, hw, -⟩ | hs
    · rw [hv] at ih
      rw [hw]
      exact ih
    · rw [hs]
      exact ih
  | conditional test consequent alternate ty iht _ _ =>
    rw [simplify]
    rcases simplifyConditional_cases test.simplify consequent.simplify alternate.simplify ty with
      ⟨ht, -⟩ | ⟨ht, -⟩ | hs
    · rw [ht] at iht
      exact iht.trans (List.nil_sublist _)
    · rw [ht] at iht
      exact iht.trans (List.nil_sublist _)
    · rw [hs]
      exact iht
  | call callee args ty ihf ihs =>
    simp only [lastingCalls, calls, simplify, callsBut, allCallsBut_eq_flatMap, simplifyAll_eq_map,
      List.map_append, List.map_cons, List.map_nil]
    exact ihf.append ((map_flatMap_sublist ihs).append (.refl _))
  | subscript indexed index ty ihx ihi =>
    simp only [lastingCalls, calls, simplify, callsBut, List.map_append]
    exact ihx.append ihi
  | array elements ty ihs =>
    simp only [lastingCalls, calls, simplify, callsBut, allCallsBut_eq_flatMap, simplifyAll_eq_map]
    exact map_flatMap_sublist ihs
  | dict entries ty ihs =>
    simp only [lastingCalls, calls, simplify, callsBut, entryCallsBut_eq_flatMap,
      simplifyEntries_eq_map]
    apply map_flatMap_sublist
    intro p hp
    rw [List.map_append]
    exact (ihs p hp).1.append (ihs p hp).2

end Expr

namespace Stmt

/-- The calls of a declaration or an assignment; the place to assign to is found first. -/
def headerCalls (calls : Expr → List Expr) : Stmt → List Expr
  | .declaration _ value => calls value
  | .assignment target value => calls target ++ calls value
  | _ => []

theorem map_simplify_headerCalls (s : Stmt) :
    ((s.headerCalls Expr.lastingCalls).map Expr.simplify).Sublist
      (s.simplifyHeader.headerCalls Expr.calls) := by
  cases s with
  | declaration id value => exact value.map_simplify_lastingCalls
  | assignment target value =>
    rw [headerCalls, List.map_append]
    exact target.map_simplify_lastingCalls.append value.map_simplify_lastingCalls
  | _ => exact .refl _

theorem eq_literal_of_start? {id : EntityId} {value : Expr} {start : EntityId × Int}
    (h : (declaration id value).start? = some start) : ∃ n, value = .literal (.int n) := by
  cases value with
  | literal l =>
    cases l with
    | int n => exact ⟨n, rfl⟩
    | _ => cases h
  | _ => cases h

end Stmt

/-- Every call of an expression survives that does not lie within a discarded operand. So does every
such call of the header of a loop that never runs, unless the header declares a variable for a test
that is `false` itself. -/
theorem calls_survive :
    (∀ e : Expr, (e.lastingCalls.map Expr.simplify).Sublist e.simplify.calls) ∧
      ∀ (init update : Stmt) (test : Expr) (body : List Stmt),
        init.simplifyHeader.isDead test.simplify = true →
        (test.simplify.isBool false = true →
          ∃ target value, init = .assignment target value) →
        ((init.headerCalls Expr.lastingCalls).map Expr.simplify).Sublist
          ((Stmt.rangeFor init update test body).simplify?.toList.flatMap
            (Stmt.headerCalls Expr.calls)) := by
  refine ⟨Expr.map_simplify_lastingCalls, ?_⟩
  intro init update test body hdead hdeclares
  have hcalls := init.map_simplify_headerCalls
  rw [Stmt.simplify?, if_pos hdead]
  cases init with
  | declaration id value =>
    rw [Stmt.simplifyHeader, Stmt.isDead, Bool.or_eq_true] at hdead
    rcases hdead with hfalse | hfails
    · obtain ⟨target, value, h⟩ := hdeclares hfalse
      cases h
    -- the variable starts at a literal, which makes no call
    · cases hstart : (Stmt.declaration id value.simplify).start? with
      | none =>
        rw [hstart] at hfails
        cases hfails
      | some start =>
        obtain ⟨n, hn⟩ := Stmt.eq_literal_of_start? hstart
        rw [Stmt.simplifyHeader, hn] at hcalls
        exact hcalls
  | assignment target value =>
    rw [Stmt.simplifyHeader, Stmt.remains?, Option.toList_some, List.flatMap_singleton]
    exact hcalls
  | _ => exact List.nil_sublist _

theorem calls_survive_header :
    [Expr.call (.var ⟨12⟩ (.function [] .int)) [] .int].Sublist
      ((Stmt.rangeFor
        (.assignment (.var ⟨11⟩ .int) (.call (.var ⟨12⟩ (.function [] .int)) [] .int)) .brk
        (.binary (.int 3) .less (.int 2) .bool) [.brk]).simplify?.toList.flatMap
          (Stmt.headerCalls Expr.calls)) :=
  calls_survive.2
    (.assignment (.var ⟨11⟩ .int) (.call (.var ⟨12⟩ (.function [] .int)) [] .int)) .brk
    (.binary (.int 3) .less (.int 2) .bool) [.brk] rfl fun _ => ⟨_, _, rfl⟩

def Stmt.value? : Stmt → Option Expr
  | .declaration _ value => some value
  | _ => none

end Scriptor.Typed

namespace Scriptor

/-- The function is called for its factor, and prints; the product with zero is a literal. -/
theorem calls_lost_in_zero_product :
    ∃ t s e,
      analyze "Function f() -> int\n  print(1)\n  return 1\nend f\nx = f() * 0" "" = .ok t ∧
      s ∈ t.statements ∧ s.value? = some e ∧
      ¬(e.calls.map Typed.Expr.simplify).Sublist e.simplify.calls := by
  have hlost :
      (analyze "Function f() -> int\n  print(1)\n  return 1\nend f\nx = f() * 0" "").toOption.any
        (fun t => t.statements.any fun s =>
          s.value?.any fun e => e.simplify.calls.length < e.calls.length) = true := by
    decide +kernel
  cases ha : analyze "Function f() -> int\n  print(1)\n  return 1\nend f\nx = f() * 0" "" with
  | error e =>
    rw [ha] at hlost
    cases hlost
  | ok t =>
    rw [ha, Except.toOption, Option.any_some, List.any_eq_true] at hlost
    obtain ⟨s, hs, hvalue⟩ := hlost
    obtain ⟨e, he, hlt⟩ := (Option.any_eq_true _ _).1 hvalue
    refine ⟨t, s, e, rfl, hs, he, ?_⟩
    intro hsub
    have hle := hsub.length_le
    rw [List.length_map] at hle
    exact Nat.not_lt_of_le hle (of_decide_eq_true hlt)

end Scriptor
