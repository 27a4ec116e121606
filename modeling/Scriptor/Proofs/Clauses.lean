import Mathlib.Logic.Function.Basic
import Scriptor.Number.Reading
import Scriptor.Proofs.Coercion
import Scriptor.Proofs.Form.Literals
import Scriptor.Proofs.Quoting

namespace Scriptor.Script

open Form

abbrev Store := List Char → Value

/-- What runs a script, besides the operators: the calls, elements and objects in it are left
open. -/
structure Machine extends Engine where
  other? : Store → Form → Option Value
  /-- Gives an element or a member a new value. -/
  assign? : Store → Form → Value → Option Store

def constant? (text : List Char) : Option Value :=
  if text = ['t', 'r', 'u', 'e'] then some (.bool true)
  else if text = ['f', 'a', 'l', 's', 'e'] then some (.bool false)
  else none

def atomValue? (store : Store) (text : List Char) : Option Value :=
  (constant? text).or <|
    if (name? text).isSome then some (store text)
    else if text.head? = some '"' then (decode? (text.drop 1).dropLast).map fun s =>
      .string (String.ofList s)
    else (Number.float? (String.ofList text)).map .number

namespace Form

def value? (μ : Machine) (store : Store) : Form → Option Value
  | .atom text => atomValue? store text
  | .group inner => inner.value? μ store
  | .unary op operand => (operand.value? μ store).bind (μ.unary? op)
  | .binary left op right =>
    (left.value? μ store).bind fun v => μ.binary? op v (right.value? μ store)
  | .conditional test consequent alternate =>
    (test.value? μ store).bind fun v =>
      if v.isTruthy then consequent.value? μ store else alternate.value? μ store
  | f => μ.other? store f

def isTarget : Form → Bool
  | .atom text => name? text = some (text, []) && (constant? text).isNone
  | .subscript _ _ | .member _ _ => true
  | _ => false

end Form

inductive Clause where
  /-- `name++` and `name--` -/
  | step (name : List Char) (op : BinaryOp)
  /-- `target = value` -/
  | assign (target value : Form)

def stepOperator? : List Char → Option BinaryOp
  | ['+', '+'] => some .add
  | ['-', '-'] => some .subtract
  | _ => none

namespace Clause

def target : Clause → Form
  | .step name _ => .atom name
  | .assign target _ => target

def step? (cs : List Char) : Option Clause :=
  (name? cs).bind fun s => (stepOperator? s.2).map (.step s.1)

def assign? (cs : List Char) : Option Clause :=
  (Form.tight (8 * cs.length) cs).bind fun s => (Pattern.literal [' ', '=', ' '] s.2).bind fun r =>
    (Form.read? (String.ofList r.2)).map (.assign s.1)

def read? (text : String) : Option Clause :=
  ((step? text.toList).or (assign? text.toList)).filter fun c => c.target.isTarget

end Clause

def Numeric.one : Numeric → Numeric
  | .number _ => .number 1
  | .integer _ => .integer 1

/-- What a step makes of a value. -/
def Engine.step? (ε : Engine) (op : BinaryOp) (v : Value) : Option Value :=
  (ε.numeric? v).bind fun n => ε.arithmetic? op n n.one

def Clause.run? (μ : Machine) (store : Store) : Clause → Option Store
  | .step name op => (μ.step? op (store name)).map (Function.update store name)
  | .assign (.atom name) value => (value.value? μ store).map (Function.update store name)
  | .assign target value => (value.value? μ store).bind (μ.assign? store target)

def Machine.run? (μ : Machine) (store : Store) (text : String) : Option Store :=
  (Clause.read? text).bind (Clause.run? μ store)

namespace Engine

variable (ε : Engine) {v : Value}

theorem step?_number {op : BinaryOp} (h : op ∈ [.add, .subtract]) (x : Float) :
    ε.step? op (.number x) = ε.strict? op (.number x) (.number 1) := by
  rcases List.mem_pair.1 h with rfl | rfl <;> rfl

/-- A difference converts its operands as a step does, but takes no number from an exact integer. -/
theorem step?_subtract_iff :
    ε.step? .subtract v = ε.strict? .subtract v (.number 1) ↔
    ∀ n, ε.numeric? v ≠ some (.integer n) := by
  change ((ε.numeric? v).bind fun n => ε.arithmetic? .subtract n n.one) =
    ((ε.numeric? v).bind fun m => ε.arithmetic? .subtract m (.number 1)) ↔ _
  cases ε.numeric? v with
  | none => exact iff_of_true rfl nofun
  | some m =>
    cases m with
    | number x => exact iff_of_true rfl nofun
    | integer n => exact iff_of_false nofun fun h => h n rfl

/-- A step never joins strings. -/
theorem step?_add_ne {s : String} (h : ε.toPrimitive? .sum v = some (.string s)) :
    ε.step? .add v ≠ ε.strict? .add v (.number 1) := by
  have hsum : ε.strict? .add v (.number 1) = some (.string (s ++ ε.text 1)) := by
    rw [strict?, h]
    rfl
  rw [step?, hsum]
  cases ε.numeric? v with
  | none => nofun
  | some m => cases m <;> nofun

/-- A sum converts an object for its own purpose. Where that makes no difference, it joins strings
to longer ones, and adds no number to an exact integer. -/
theorem step?_add_iff (h : ε.toPrimitive? .sum v = ε.toPrimitive? .number v) :
    ε.step? .add v = ε.strict? .add v (.number 1) ↔
      ∀ p, ε.toPrimitive? .number v = some p → p.isString = false ∧
        ∀ n, p ≠ .integer n := by
  cases hv : ε.toPrimitive? .number v with
  | none =>
    rw [step?, numeric?, strict?, h, hv]
    exact iff_of_true rfl nofun
  | some p =>
    rw [hv] at h
    cases p with
    | string s => exact iff_of_false (ε.step?_add_ne h) fun h => Bool.noConfusion (h _ rfl).1
    | integer n =>
      rw [step?, numeric?, strict?, h, hv]
      exact iff_of_false nofun fun h => (h _ rfl).2 n rfl
    | _ =>
      rw [step?, numeric?, strict?, h, hv]
      refine iff_of_true rfl ?_
      rintro p ⟨⟩
      exact ⟨rfl, nofun⟩

end Engine

section Texts

variable {name : List Char}

theorem constant?_eq_none (h : '_' ∈ name) : constant? name = none := by
  have htrue : name ≠ ['t', 'r', 'u', 'e'] := by
    rintro rfl
    simp at h
  have hfalse : name ≠ ['f', 'a', 'l', 's', 'e'] := by
    rintro rfl
    simp at h
  rw [constant?, if_neg htrue, if_neg hfalse]

structure IsVariable (name : List Char) : Prop where
  isName : name? name = some (name, [])
  not_constant : constant? name = none

theorem IsVariable.isTarget (h : IsVariable name) : (Form.atom name).isTarget = true := by
  rw [Form.isTarget, h.isName, h.not_constant]
  simp

theorem IsVariable.value? (h : IsVariable name) (store : Store) :
    atomValue? store name = some (store name) := by
  rw [atomValue?, h.not_constant, h.isName]
  rfl

theorem Clause.read?_step {sign : List Char} {op : BinaryOp} (hname : IsVariable name)
    (hsign : stepOperator? sign = some op) :
    Clause.read? (String.ofList (name ++ sign)) = some (.step name op) := by
  have hends : EndsWord sign := by
    revert hsign
    fun_cases stepOperator? sign
    · rintro - c ⟨⟩
      rfl
    · rintro - c ⟨⟩
      rfl
    · nofun
  have hstep : Clause.step? (name ++ sign) = some (.step name op) := by
    rw [Clause.step?, name_append hname.isName hends, Option.bind_some, hsign, Option.map_some]
  rw [Clause.read?, String.toList_ofList, hstep, Option.some_or, Option.filter_some]
  exact if_pos hname.isTarget

theorem Clause.read?_assign {f : Form} (hname : IsVariable name) (hf : f.isProper = true)
    (hcontent : f.isContent = true) (hsound : f.isSound = true) :
    Clause.read? (String.ofList (name ++ ' ' :: '=' :: ' ' :: f.text)) =
      some (.assign (.atom name) f) := by
  have hends : EndsOperand (' ' :: '=' :: ' ' :: f.text) := endsOperand_blank (by decide)
  have hstep : Clause.step? (name ++ ' ' :: '=' :: ' ' :: f.text) = none := by
    rw [Clause.step?, name_append hname.isName hends.1]
    rfl
  have htarget : Form.tight (8 * (name ++ ' ' :: '=' :: ' ' :: f.text).length)
      (name ++ ' ' :: '=' :: ' ' :: f.text) = some (.atom name, ' ' :: '=' :: ' ' :: f.text) := by
    obtain ⟨m, hm, hread⟩ :=
      tightReads_atom hname.isName (8 * (name ++ ' ' :: '=' :: ' ' :: f.text).length) _ hends.1 (by
      simp only [text, List.length_append]
      omega)
    simp only [text, List.length_append, List.length_cons] at hm hread ⊢
    obtain ⟨m, rfl⟩ : ∃ k, m = k + 1 := ⟨m - 1, by omega⟩
    rw [hread, extend_of_endsOperand hends]
  have hvalue : Form.read? (String.ofList f.text) = some f := by
    have hread := read?_string hf hcontent
    rwa [hsound, if_pos rfl] at hread
  have hassign : Clause.assign? (name ++ ' ' :: '=' :: ' ' :: f.text) =
      some (.assign (.atom name) f) := by
    rw [Clause.assign?, htarget, Option.bind_some]
    change (Form.read? (String.ofList f.text)).map (Clause.assign (.atom name)) = _
    rw [hvalue, Option.map_some]
  rw [Clause.read?, String.toList_ofList, hstep, Option.none_or, hassign, Option.filter_some]
  exact if_pos hname.isTarget

end Texts

end Scriptor.Script
