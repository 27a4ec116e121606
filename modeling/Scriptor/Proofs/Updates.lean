import Scriptor.Proofs.Clauses
import Scriptor.Proofs.Execution
import Scriptor.Proofs.Form.Programs
import Scriptor.Proofs.Nesting
import Scriptor.Proofs.ScriptValues
import Scriptor.Proofs.Writing

namespace Scriptor

namespace Typed.Stmt

variable {a : Arena} {s t u : Stmt} {result : Option Ty}

def update? : Stmt → Option Stmt
  | .rangeFor _ update _ _ => some update
  | _ => none

theorem update?_of_remains? (h : s.remains? = some t) : t.update? = none := by
  cases s with
  | assignment target value =>
    cases h
    rfl
  | _ => cases h

theorem update?_simplify? (h : s.simplify? = some t) (hu : t.update? = some u) :
    ∃ v, s.update? = some v ∧ u = v.simplifyHeader := by
  cases s with
  | assignment target value =>
    rw [Stmt.simplify?, Option.ite_none_left_eq_some] at h
    cases h.2
    cases hu
  | rangeFor init update test body =>
    rw [Stmt.simplify?] at h
    split at h
    next => cases (update?_of_remains? h).symm.trans hu
    next =>
      cases h
      cases hu
      exact ⟨update, rfl, rfl⟩
  | _ =>
    cases h
    cases hu

/-- What a writer relies on to write an update. -/
structure Updates (a : Arena) (u : Stmt) : Prop where
  isStep : u.IsStep
  wellFormed : u.WellFormed a.size
  /-- Where it stores its value. -/
  nested : u.Nested a []

theorem Updates.simplifyHeader (h : u.Updates a) : u.simplifyHeader.Updates a :=
  ⟨h.isStep.simplifyHeader, h.wellFormed.simplifyHeader, h.nested.simplifyHeader⟩

theorem WellTyped.updates (ha : Env.initial.entities.Grows a) (h : s.WellTyped a result)
    (hu : s.update? = some u) : u.Updates a := by
  cases s with
  | rangeFor init update test body =>
    cases hu
    obtain ⟨-, -, htyped, hstep, -⟩ := h
    refine ⟨hstep.isStep, WellTyped.wellFormed _ htyped, ?_⟩
    cases u with
    | assignment target value =>
      obtain ⟨-, -, htarget, -⟩ := htyped
      exact htarget.stores ha
    | _ => exact hstep.elim
  | _ => cases hu

end Typed.Stmt

theorem updates_of_analyze {source file : String} {t : Typed.Program}
    (h : analyze source file = .ok t) (simplify : Bool) :
    Typed.Stmt.EachOf (fun s => ∀ u, s.update? = some u → u.Updates t.entities)
      (t.simplifyIf simplify).statements := by
  have heach := Typed.Stmt.wellTypedAll_each t.statements (wellTyped_of_analyze h)
  have hgrows : Env.initial.entities.Grows t.entities := by
    obtain ⟨program, -, hcheck⟩ := analyze_generation h
    obtain ⟨env, hss, henv⟩ := Program.check_generation hcheck
    rw [henv]
    exact (checkBlock_follows _ hss).grows
  cases simplify with
  | false =>
    refine Typed.Stmt.EachOf.imp ?_ t.statements heach
    rintro s ⟨result, hs⟩ u hu
    exact hs.updates hgrows hu
  | true =>
    refine Typed.Stmt.eachOf_simplifyAll ?_ t.statements heach
    rintro s s' ⟨result, hs⟩ ht u hu
    obtain ⟨v, hv, rfl⟩ := Typed.Stmt.update?_simplify? ht hu
    exact (hs.updates hgrows hv).simplifyHeader

namespace Script

open Form

variable {a : Arena} {id : EntityId}

theorem step?_generation {u : Typed.Stmt} {sign : String} (h : step? u = some (id, sign)) :
    ∃ op ty ty' ty'', u =
      .assignment (.var id ty) (.binary (.var id ty') op (.literal (.int 1)) ty'') ∧
      stepOperator? sign.toList = some op := by
  revert h
  fun_cases step? u
  all_goals rintro ⟨⟩
  next _ hleft =>
    obtain ⟨ty', rfl⟩ := Typed.Expr.entity?_eq_some hleft
    exact ⟨_, _, _, _, rfl, rfl⟩
  next _ hleft =>
    obtain ⟨ty', rfl⟩ := Typed.Expr.entity?_eq_some hleft
    exact ⟨_, _, _, _, rfl, rfl⟩

theorem mem_of_stepOperator? {sign : List Char} {op : BinaryOp} (h : stepOperator? sign = some op) :
    op ∈ [.add, .subtract] := by
  revert h
  fun_cases stepOperator? sign
  · rintro ⟨⟩
    decide
  · rintro ⟨⟩
    decide
  · rintro ⟨⟩

theorem spelled_isVariable {x : Entity} (hw : a.Worded) (hx : a.get? id = some x)
    (hb : x.builtin = none) (named : List EntityId) : IsVariable (spelled a named id).toList := by
  rw [spelled_of_own hx hb]
  exact ⟨name?_numbered (hw id x hx hb) _, constant?_eq_none (by simp)⟩

/-- The plain text of a step. -/
def plainStep (name : String) (op : BinaryOp) : String :=
  name ++ " = " ++ ("(" ++ name ++ " " ++ symbol op ++ " " ++ "1" ++ ")")

theorem assignment_step {w w₁ w₂ : Writer} {name : String} {op : BinaryOp} {ty ty' ty'' : Ty}
    (h₁ : (nameOf id).run w = .ok (name, w₁)) (h₂ : (nameOf id).run w₁ = .ok (name, w₂)) :
    (assignment (.assignment (.var id ty) (.binary (.var id ty') op (.literal (.int 1)) ty''))).run
      w = .ok (plainStep name op, w₂) := by
  have hvar (ty : Ty) : expr (.var id ty) = nameOf id := rfl
  have hparens : needsParens (.var id ty') = false := rfl
  have hbase : base op (.var id ty') name = name := by
    rw [base, hparens, Bool.and_false, if_neg Bool.false_ne_true]
  have hvalue : (expr (.binary (.var id ty') op (.literal (.int 1)) ty'')).run w₁ =
      .ok ("(" ++ name ++ " " ++ symbol op ++ " " ++ "1" ++ ")", w₂) := by
    rw [expr, StateT.run_bind, hvar, h₂]
    change Except.ok
      ("(" ++ base op (.var id ty') name ++ " " ++ symbol op ++ " " ++ "1" ++ ")", w₂) = _
    rw [hbase]
  rw [assignment, StateT.run_bind, hvar, h₁]
  change ((expr (.binary (.var id ty') op (.literal (.int 1)) ty'')).run w₁ >>= _) = _
  rw [hvalue]
  rfl

section Effects

variable (μ : Machine) (store : Store) {name : String} {op : BinaryOp}

theorem run?_step {sign : String} (hname : IsVariable name.toList)
    (hsign : stepOperator? sign.toList = some op) : μ.run? store (name ++ sign) =
      (μ.step? op (store name.toList)).map (Function.update store name.toList) := by
  have hread := Clause.read?_step hname hsign
  rw [← String.toList_append, String.ofList_toList] at hread
  rw [Machine.run?, hread]
  rfl

theorem atomValue?_one : atomValue? store ['1'] = some (.number 1) := by
  have hname : (name? ['1']).isSome = false := by decide
  have hnumber : Number.float? (String.ofList ['1']) = some 1 := by decide +kernel
  rw [atomValue?, hname, hnumber]
  rfl

def stepForm (name : String) (op : BinaryOp) : Form :=
  .group (.binary (.atom name.toList) op (.atom ['1']))

theorem isProper_stepForm (hname : IsVariable name.toList) :
    (stepForm name op).isProper = true := by
  have hone : atom? ['1'] = some (['1'], []) := rfl
  simp [stepForm, isContent, isOperand, isSimple, atom?_of_name? hname.isName, hone]

theorem toList_plainStep (name : String) (op : BinaryOp) :
    (plainStep name op).toList = name.toList ++ ' ' :: '=' :: ' ' :: (stepForm name op).text := by
  simp [plainStep, stepForm]

theorem value?_stepForm (hname : IsVariable name.toList) (hop : op ∈ [.add, .subtract]) :
    (stepForm name op).value? μ store = μ.strict? op (store name.toList) (.number 1) := by
  rw [stepForm, Form.value?, Form.value?, Form.value?, Form.value?, hname.value?, atomValue?_one,
    Option.bind_some]
  rcases List.mem_pair.1 hop with rfl | rfl <;> rfl

theorem run?_plainStep (hname : IsVariable name.toList) (hop : op ∈ [.add, .subtract]) :
    μ.run? store (plainStep name op) =
      (μ.strict? op (store name.toList) (.number 1)).map (Function.update store name.toList) := by
  have hsound : (stepForm name op).isSound = true := by simp [stepForm, isUnary]
  have hread := Clause.read?_assign hname (isProper_stepForm hname) rfl hsound
  rw [← toList_plainStep, String.ofList_toList] at hread
  rw [Machine.run?, hread, ← value?_stepForm μ store hname hop]
  rfl

/-- When the short text of a step and the plain one leave the same store. -/
structure Agrees (μ : Machine) (store : Store) (name : String) (ty : Ty) (op : BinaryOp)
    (short plain : String) : Prop where
  short_eq : μ.run? store short =
    (μ.step? op (store name.toList)).map (Function.update store name.toList)
  plain_eq : μ.run? store plain =
    (μ.strict? op (store name.toList) (.number 1)).map (Function.update store name.toList)
  of_number : ∀ x, store name.toList = .number x → μ.run? store short = μ.run? store plain
  of_admits : ty ∈ [.int, .float] → ty.Admits (store name.toList) →
    μ.run? store short = μ.run? store plain
  /-- Only an exact integer tells `v--` from `v - 1`. -/
  subtract_iff : op = .subtract →
    (μ.run? store short = μ.run? store plain ↔
      ∀ n, μ.numeric? (store name.toList) ≠ some (.integer n))
  /-- Exact integers and strings tell `v++` from `v + 1`. -/
  add_iff : op = .add → μ.toPrimitive? .sum (store name.toList) =
    μ.toPrimitive? .number (store name.toList) → (μ.run? store short = μ.run? store plain ↔
      ∀ p, μ.toPrimitive? .number (store name.toList) = some p → p.isString = false ∧
        ∀ n, p ≠ .integer n)
  add_ne : op = .add → (∃ s, μ.toPrimitive? .sum (store name.toList) = some (.string s)) →
    μ.run? store short ≠ μ.run? store plain

theorem step_agrees {sign : String} (hname : IsVariable name.toList)
    (hsign : stepOperator? sign.toList = some op) (ty : Ty) :
    Agrees μ store name ty op (name ++ sign) (plainStep name op) := by
  have hop := mem_of_stepOperator? hsign
  have hshort := run?_step μ store hname hsign
  have hplain := run?_plainStep μ store hname hop
  have hiff : μ.run? store (name ++ sign) = μ.run? store (plainStep name op) ↔
      μ.step? op (store name.toList) = μ.strict? op (store name.toList) (.number 1) := by
    rw [hshort, hplain]
    exact (Option.map_injective (Function.update_injective store name.toList)).eq_iff
  have hnumber (x : Float) (hx : store name.toList = .number x) :
      μ.run? store (name ++ sign) = μ.run? store (plainStep name op) := by
    rw [hiff, hx]
    exact μ.step?_number hop x
  refine ⟨hshort, hplain, hnumber, ?_, ?_, ?_, ?_⟩
  · intro hty hadmits
    obtain ⟨x, hx⟩ := hadmits.numeric hty
    exact hnumber x hx
  · rintro rfl
    exact hiff.trans μ.step?_subtract_iff
  · rintro rfl h
    exact hiff.trans (μ.step?_add_iff h)
  · rintro rfl ⟨s, hs⟩
    exact hiff.not.2 (μ.step?_add_ne hs)

end Effects

/-- Both texts of an update can be written. They differ only in a step, where each machine tells
them apart by what the variable holds. -/
def Compares (a : Arena) (u : Typed.Stmt) : Prop :=
  ∀ (w : Writer) (named : List EntityId), w.entities = a → w.Names named →
    ∃ short plain w₁ w₂, (update u).run w = .ok (short, w₁) ∧
      (assignment u).run w = .ok (plain, w₂) ∧ (step? u = none → short = plain) ∧
      ∀ id sign, step? u = some (id, sign) →
        ∃ name op ty value, u = .assignment (.var id ty) value ∧
        (nameOf id).run w = .ok (name, w₁) ∧ short = name ++ sign ∧
        stepOperator? sign.toList = some op ∧
        ∀ μ store, Agrees μ store name ty op short plain

theorem compares_of_updates (hw : a.Worded) {u : Typed.Stmt} (h : u.Updates a) : Compares a u := by
  intro w named hwriter hnames
  cases hstep : step? u with
  | none =>
    obtain ⟨text, w', hrun, -⟩ := assignment_yields h.isStep.isStart h.wellFormed w hwriter
    have hupdate : update u = assignment u := by
      rw [update, hstep]
    refine ⟨text, text, w', w', hupdate ▸ hrun, hrun, fun _ => rfl, ?_⟩
    rintro id sign ⟨⟩
  | some step =>
    obtain ⟨id, sign⟩ := step
    obtain ⟨op, ty, ty', ty'', rfl, hsign⟩ := step?_generation hstep
    obtain ⟨x, hx, -, hb⟩ := h.nested
    have hid : id.index < a.size := Arena.lt_size_iff.2 ⟨x, hx⟩
    obtain ⟨more, w₁, h₁, hnames₁, hlike, hstable⟩ :=
      nameOf_writes hid w named hwriter hnames
    obtain ⟨more', w₂, h₂, -⟩ :=
      nameOf_writes hid w₁ _ (hlike.entities_eq.trans hwriter) hnames₁
    rw [hstable more'] at h₂
    have hupdate :
        (update (.assignment (.var id ty) (.binary (.var id ty') op (.literal (.int 1)) ty''))).run
        w = .ok (spelled a (named ++ more) id ++ sign, w₁) := by
      rw [update, hstep]
      change ((nameOf id).run w >>= _) = _
      rw [h₁]
      rfl
    have hname := spelled_isVariable hw hx hb (named ++ more)
    refine ⟨_, _, w₁, w₂, hupdate, assignment_step h₁ h₂, ?_, ?_⟩
    · rintro ⟨⟩
    · rintro id' sign' ⟨⟩
      exact ⟨_, op, ty, _, rfl, h₁, rfl, hsign, fun μ store =>
        step_agrees μ store hname hsign ty⟩

end Script

section Programs

variable {source file : String} {t : Typed.Program}

/-- Whether the program is simplified or not, both texts of each update of a range loop can be
written. Where the update steps a variable, they have the same effect on every number, and so on
every value that a variable of a numeric type is meant to hold. -/
theorem analyze_updates (h : analyze source file = .ok t) (simplify : Bool) :
    Typed.Stmt.EachOf (fun s => ∀ u, s.update? = some u → Script.Compares t.entities u)
      (t.simplifyIf simplify).statements := by
  have hw := worded_of_analyze h
  refine Typed.Stmt.EachOf.imp ?_ _ (updates_of_analyze h simplify)
  intro s hs u hu
  exact Script.compares_of_updates hw (hs u hu)

def stepping : String := "a = []\na.add(\"5\")\nfor (x = a[0], x += 1)\n  print(x)\nend x < 7"

theorem analyze_stepping :
    ∃ t, analyze stepping "" = .ok t ∧ ∃ s ∈ t.statements, ∃ u, s.update? = some u ∧
      ((Script.update u).run (.start t.entities)).map Prod.fst = .ok "x_1++" ∧
      ((Script.assignment u).run (.start t.entities)).map Prod.fst = .ok "x_1 = (x_1 + 1)" := by
  have hprogram :
      (analyze stepping "").toOption.any (fun t => t.statements.any fun s => s.update?.any fun u =>
      ((Script.update u).run (.start t.entities)).map Prod.fst = .ok "x_1++" &&
        ((Script.assignment u).run (.start t.entities)).map Prod.fst = .ok "x_1 = (x_1 + 1)") =
        true := by
    decide +kernel
  cases h : analyze stepping "" with
  | error e =>
    rw [h] at hprogram
    cases hprogram
  | ok t =>
    rw [h, Except.toOption, Option.any_some, List.any_eq_true] at hprogram
    obtain ⟨s, hs, hprogram⟩ := hprogram
    obtain ⟨u, hu, htexts⟩ := (Option.any_eq_true _ _).1 hprogram
    rw [Bool.and_eq_true, decide_eq_true_eq, decide_eq_true_eq] at htexts
    exact ⟨t, rfl, s, hs, u, hu, htexts⟩

theorem analyze_updates_stepping :
    ∃ t, analyze stepping "" = .ok t ∧
      Typed.Stmt.EachOf (fun s => ∀ u, s.update? = some u → Script.Compares t.entities u)
        (t.simplifyIf true).statements := by
  obtain ⟨t, h, -⟩ := analyze_stepping
  exact ⟨t, h, analyze_updates h true⟩

def Script.Machine.plain : Script.Machine where
  primitive? _ _ := none
  numeral s := (Number.float? s).getD (0 / 0)
  text := Script.floatLayout.text
  approximate _ _ := 0 / 0
  compare? _ _ _ := none
  other? _ _ := none
  assign? _ _ _ := none

/-- The string `5` is stepped to a number, but a plain sum makes it longer. -/
theorem step_of_string_differs :
    ∃ t, analyze stepping "" = .ok t ∧ (∃ s ∈ t.statements, ∃ u, s.update? = some u ∧
        ((Script.update u).run (.start t.entities)).map Prod.fst = .ok "x_1++" ∧
        ((Script.assignment u).run (.start t.entities)).map Prod.fst = .ok "x_1 = (x_1 + 1)") ∧
      (Script.Machine.plain.run? (fun _ => .string "5") "x_1++").map (· "x_1".toList) =
        some (.number 6) ∧
      (Script.Machine.plain.run? (fun _ => .string "5") "x_1 = (x_1 + 1)").map (· "x_1".toList) =
        some (.string "51") := by
  obtain ⟨t, h, htexts⟩ := analyze_stepping
  exact ⟨t, h, htexts, by decide +kernel, by decide +kernel⟩

end Programs

end Scriptor
