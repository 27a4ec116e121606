import Scriptor.Proofs.Reading.Spelling
import Scriptor.Proofs.Safety

namespace Scriptor

variable {α β : Type} {good : α → Prop} {good' : β → Prop}

/-- Whether a check yields a good value or blames anything but the form of the text. -/
def Checks (x : Except Error α) (good : α → Prop) : Prop :=
  Outcome good (fun e => ¬e.OfForm) x

theorem Checks.bind {x : Except Error α} {f : α → Except Error β} (h : Checks x good)
    (hf : ∀ a, good a → Checks (f a) good') : Checks (x >>= f) good' := by
  cases x with
  | error e => exact h
  | ok a => exact hf a h

theorem Checks.pure {a : α} (h : good a) : Checks (pure a) good := h

theorem Checks.error {e : Error} (h : e.cause.family ≠ .form) : Checks (.error e) good := h

namespace Check

theorem checks_require {condition : Bool} {cause : Cause} {p : Position}
    (h : cause.family ≠ .form) : Checks (require condition cause p) fun _ => True := by
  rw [require]
  split
  next => exact .pure trivial
  next => exact .error h

theorem checks_requireType {e : Typed.Expr} {inClass : Ty → Bool}
    {cause : String → Cause} {p : Position} (h : ∀ found, (cause found).family ≠ .form) :
    Checks (requireType e inClass cause p) fun _ => True :=
  checks_require (h _)

theorem checks_requireValue {e : Typed.Expr} {p : Position} :
    Checks (requireValue e p) fun _ => True :=
  checks_require (by decide)

theorem checks_requireAssignable {target : Ty} {e : Typed.Expr} {p : Position} :
    Checks (requireAssignable target e p) fun _ => True :=
  checks_require Family.noConfusion

theorem checks_unify {left right : Ty} {p : Position} :
    Checks (unify left right p) fun _ => True := by
  rw [unify]
  split
  next => exact .pure trivial
  next => exact .error Family.noConfusion

theorem checks_requireOperand {op : BinaryOp} {e : Typed.Expr} {p : Position} :
    Checks (requireOperand op e p) fun _ => True := by
  rw [requireOperand]
  split
  next => exact checks_requireType fun _ => Family.noConfusion
  next =>
    split
    next => exact checks_requireType fun _ => Family.noConfusion
    next =>
      split
      next => exact .pure trivial
      next => exact checks_requireType fun _ => Family.noConfusion

theorem checks_binary {op : BinaryOp} {left right : Typed.Expr} {p q : Position} :
    Checks (binary op left right p q) fun _ => True := by
  apply Checks.bind checks_requireOperand
  intro _ _
  apply Checks.bind checks_requireOperand
  intro _ _
  apply Checks.bind checks_unify
  intro _ _
  exact .pure trivial

theorem checks_unary {op : UnaryOp} {operand : Typed.Expr} {p : Position} :
    Checks (unary op operand p) fun _ => True := by
  cases op with
  | negate => exact .bind (checks_requireType fun _ => Family.noConfusion) fun _ _ => .pure trivial
  | not => exact .bind (checks_requireType fun _ => Family.noConfusion) fun _ _ => .pure trivial

theorem checks_argumentTypes {params : List Ty} {args : List Typed.Expr} {starts : List Position} :
    Checks (argumentTypes params args starts) fun _ => True := by
  fun_induction argumentTypes params args starts with
  | case1 p ps a as start starts ih =>
    apply Checks.bind (checks_require Family.noConfusion)
    intro _ _
    exact ih
  | case2 => exact .pure trivial

theorem checks_arguments {params : List Ty} {args : List Typed.Expr} {starts : List Position}
    {stop : Position}
    {variadic : Bool} : Checks (arguments params args starts stop variadic) fun _ => True := by
  rw [arguments]
  split
  next =>
    apply Checks.bind (checks_require Family.noConfusion)
    intro _ _
    apply Checks.bind (checks_require Family.noConfusion)
    intro _ _
    exact checks_argumentTypes
  next => exact checks_argumentTypes

theorem checks_callResult {env : Env} {callee : Typed.Expr} {args : List Typed.Expr}
    {starts : List Position}
    {stop : Position} : Checks (callResult env callee args starts stop) fun _ => True := by
  rw [callResult]
  split
  next => exact .bind checks_arguments fun _ _ => .pure trivial
  next => exact .pure trivial

theorem checks_method {name : String} {object : Ty} {p q : Position} :
    Checks (method name object p q) fun _ => True := by
  fun_cases method name object p q
  all_goals first
    | exact .pure trivial
    | exact .error Family.noConfusion

/-- Every numeral is a number. -/
theorem checks_number {text : String} (h : Numeral text.toList) (start : Position) :
    Checks (number text start) fun _ => True := by
  by_cases hmark : IsMarked text.toList
  · obtain ⟨x, hx⟩ := number_of_isMarked h hmark start
    rw [hx]
    exact .pure trivial
  · rw [number_of_not_isMarked h hmark]
    exact .pure trivial

end Check

open Check

section Expressions

variable {env : Env}

theorem checks_checkAll {es : List Expr} (h : ∀ e ∈ es, Checks (e.check env) fun _ => True) :
    Checks (checkAll env es) fun _ => True := by
  induction es with
  | nil => exact .pure trivial
  | cons e es ih =>
    rw [List.forall_mem_cons] at h
    apply Checks.bind h.1
    intro _ _
    apply Checks.bind (ih h.2)
    intro _ _
    exact .pure trivial

theorem checks_checkElements {ty : Ty} {es : List Expr}
    (h : ∀ e ∈ es, Checks (e.check env) fun _ => True) :
    Checks (checkElements env ty es) fun _ => True := by
  induction es generalizing ty with
  | nil => exact .pure trivial
  | cons e es ih =>
    rw [List.forall_mem_cons] at h
    apply Checks.bind h.1
    intro _ _
    apply Checks.bind checks_requireValue
    intro _ _
    apply Checks.bind checks_unify
    intro _ _
    apply Checks.bind (ih h.2)
    intro _ _
    exact .pure trivial

theorem checks_checkEntries {ty : Ty} {es : List (Expr × Expr)}
    (hkey : ∀ p ∈ es, Checks (p.1.check env) fun _ => True)
    (hvalue : ∀ p ∈ es, Checks (p.2.check env) fun _ => True) :
    Checks (checkEntries env ty es) fun _ => True := by
  induction es generalizing ty with
  | nil => exact .pure trivial
  | cons p es ih =>
    rw [List.forall_mem_cons] at hkey hvalue
    apply Checks.bind hkey.1
    intro _ _
    apply Checks.bind hvalue.1
    intro _ _
    apply Checks.bind checks_requireValue
    intro _ _
    apply Checks.bind checks_requireValue
    intro _ _
    apply Checks.bind checks_unify
    intro _ _
    apply Checks.bind checks_unify
    intro _ _
    apply Checks.bind (ih hkey.2 hvalue.2)
    intro _ _
    exact .pure trivial

theorem Expr.Spelled.checks {e : Expr} (h : e.Spelled) : Checks (e.check env) fun _ => True := by
  induction h with
  | number htext => exact checks_number htext _
  | string | boolean => exact .pure trivial
  | symbol =>
    rw [Expr.check]
    split
    next => exact .pure trivial
    next => exact .error Family.noConfusion
  | binary _ _ ihl ihr =>
    apply Checks.bind ihl
    intro _ _
    apply Checks.bind ihr
    intro _ _
    exact checks_binary
  | unary _ ih =>
    apply Checks.bind ih
    intro _ _
    exact checks_unary
  | conditional _ _ _ iht ihc iha =>
    apply Checks.bind iht
    intro _ _
    apply Checks.bind (checks_requireType fun _ => Family.noConfusion)
    intro _ _
    apply Checks.bind ihc
    intro _ _
    apply Checks.bind iha
    intro _ _
    apply Checks.bind checks_unify
    intro _ _
    exact .pure trivial
  | call _ _ ihf ihs =>
    apply Checks.bind ihf
    intro _ _
    apply Checks.bind (checks_requireType fun _ => Family.noConfusion)
    intro _ _
    apply Checks.bind (checks_checkAll ihs)
    intro _ _
    apply Checks.bind checks_callResult
    intro _ _
    exact .pure trivial
  | subscript _ _ iha ihi =>
    apply Checks.bind iha
    intro _ _
    apply Checks.bind (checks_requireType fun _ => Family.noConfusion)
    intro _ _
    apply Checks.bind ihi
    intro _ _
    apply Checks.bind (checks_requireType fun _ => Family.noConfusion)
    intro _ _
    exact .pure trivial
  | member _ _ ih =>
    apply Checks.bind ih
    intro _ _
    exact .error Family.noConfusion
  | array _ ihs =>
    apply Checks.bind (checks_checkElements ihs)
    intro _ _
    exact .pure trivial
  | dict _ _ ihk ihv =>
    apply Checks.bind (checks_checkEntries ihk ihv)
    intro _ _
    exact .pure trivial

end Expressions

def Arena.Worded (a : Arena) : Prop :=
  ∀ id e, a.get? id = some e → e.builtin = none → IsWord e.name.toList

theorem Arena.Worded.add {a : Arena} {e : Entity} (h : a.Worded)
    (he : e.builtin = none → IsWord e.name.toList) : (a.add e).Worded := by
  intro id x hx
  rw [get?_add] at hx
  split at hx
  next =>
    cases hx
    exact he
  next => exact h id x hx

theorem Env.initial_worded : Env.initial.entities.Worded := by
  have hfold (bs : List Builtin) (env : Env) (h : env.entities.Worded) :
      (bs.foldl (fun env b => env.declare (.ofBuiltin b)) env).entities.Worded := by
    induction bs generalizing env with
    | nil => exact h
    | cons b bs ih => exact ih _ (h.add nofun)
  have hempty : Arena.empty.Worded := by
    intro id e he
    simp [Arena.empty, Arena.get?] at he
  exact hfold Builtin.all ⟨.empty, .root⟩ hempty

section Statements

variable {env : Env}

theorem Expr.Spelled.checks_checkTarget {e : Expr} (h : e.Spelled) :
    Checks (e.checkTarget env) fun _ => True := by
  fun_cases Expr.checkTarget env e with
  | case1 =>
    apply Checks.bind (checks_require Family.noConfusion)
    intro _ _
    exact .pure trivial
  | case2 => exact .error Family.noConfusion
  | case3 => exact h.checks
  | case4 => exact .error Family.noConfusion

theorem Expr.Spelled.word_of_unbound? {e : Expr} {name : String} (h : e.Spelled)
    (hname : e.unbound? env = some name) : IsWord name.toList := by
  cases h with
  | symbol hword =>
    obtain ⟨-, hname⟩ := Option.ite_none_right_eq_some.1 hname
    cases hname
    exact hword
  | _ => cases hname

theorem Assignment.Spelled.checks {a : Assignment} (h : a.Spelled) (hw : env.entities.Worded) :
    Checks (a.check env) fun r => r.2.entities.Worded := by
  rw [Assignment.check]
  split
  next =>
    apply Checks.bind h.target.checks_checkTarget
    intro _ _
    apply Checks.bind h.value.checks
    intro _ _
    apply Checks.bind checks_binary
    intro _ _
    apply Checks.bind checks_requireAssignable
    intro _ _
    exact .pure hw
  next =>
    apply Checks.bind h.value.checks
    intro _ _
    apply Checks.bind checks_requireValue
    intro _ _
    split
    next name hname => exact .pure (hw.add fun _ => h.target.word_of_unbound? hname)
    next =>
      apply Checks.bind h.target.checks_checkTarget
      intro _ _
      apply Checks.bind checks_requireAssignable
      intro _ _
      exact .pure hw

theorem checks_rangeHeader (env : Env) {init update : Assignment} {test : Expr} (hi : init.Spelled)
    (hu : update.Spelled) (ht : test.Spelled) (hw : env.entities.Worded) :
    Checks (rangeHeader env init update test) fun r => r.2.entities.Worded := by
  rw [rangeHeader]
  apply Checks.bind (hi.checks hw)
  rintro ⟨i, env₁⟩ hw₁
  apply Checks.bind (checks_require Family.noConfusion)
  intro _ _
  split
  next => exact .error Family.noConfusion
  next =>
    apply Checks.bind (hu.checks hw₁)
    rintro ⟨u, env₂⟩ hw₂
    apply Checks.bind (checks_require Family.noConfusion)
    intro _ _
    apply Checks.bind ht.checks
    intro _ _
    apply Checks.bind (checks_requireType fun _ => Family.noConfusion)
    intro _ _
    exact .pure hw₂

theorem checks_requireFresh {scope : Scope} {name : String} {p : Position} :
    Checks (scope.requireFresh name p) fun _ => True := by
  rw [Scope.requireFresh]
  split
  next => exact .error Family.noConfusion
  next => exact .pure trivial

theorem checks_parameters {params : List Parameter} (h : ∀ p ∈ params, p.Spelled)
    (hw : env.entities.Worded) : Checks (parameters env params) fun r => r.2.entities.Worded := by
  induction params generalizing env with
  | nil => exact .pure hw
  | cons p params ih =>
    rw [List.forall_mem_cons] at h
    apply Checks.bind checks_requireFresh
    intro _ _
    have hw₁ : (env.declare (.ofVariable p.name p.ty)).entities.Worded := hw.add fun _ => h.1
    apply Checks.bind (ih h.2 hw₁)
    intro _ hw₂
    exact .pure hw₂

theorem checks_returned {value : Option Expr} {start : Position} (h : ∀ e ∈ value, e.Spelled) :
    Checks (returned env value start) fun _ => True := by
  unfold returned
  split
  next => exact .error Family.noConfusion
  next =>
    apply Checks.bind (checks_require Family.noConfusion)
    intro _ _
    exact .pure trivial
  next =>
    apply Checks.bind (h _ rfl).checks
    intro _ _
    apply Checks.bind checks_requireValue
    intro _ _
    apply Checks.bind (checks_require Family.noConfusion)
    intro _ _
    exact .pure trivial

theorem checks_called {callee : Expr} {args : List Expr} {stop : Position} (hf : callee.Spelled)
    (hs : ∀ e ∈ args, e.Spelled) : Checks (called env callee args stop) fun _ => True := by
  have hargs : Checks (checkAll env args) fun _ => True :=
    checks_checkAll fun e he => (hs e he).checks
  unfold called
  split
  next =>
    cases hf with
    | member hobject _ =>
      apply Checks.bind hobject.checks
      intro _ _
      apply Checks.bind checks_method
      intro _ _
      apply Checks.bind hargs
      intro _ _
      apply Checks.bind checks_arguments
      intro _ _
      exact .pure trivial
  next =>
    apply Checks.bind hf.checks
    intro _ _
    apply Checks.bind (checks_requireType fun _ => Family.noConfusion)
    intro _ _
    apply Checks.bind hargs
    intro _ _
    apply Checks.bind checks_callResult
    intro _ _
    exact .pure trivial

theorem checks_checkBlock {body : List Stmt}
    (h : ∀ s ∈ body, ∀ env : Env, env.entities.Worded → Checks (s.check env) fun r =>
      r.2.entities.Worded)
    (hw : env.entities.Worded) : Checks (checkBlock env body) fun r => r.2.entities.Worded := by
  induction body generalizing env with
  | nil => exact .pure hw
  | cons s body ih =>
    rw [List.forall_mem_cons] at h
    apply Checks.bind (h.1 env hw)
    rintro ⟨t, env₁⟩ hw₁
    apply Checks.bind (ih h.2 hw₁)
    intro _ hw₂
    exact .pure hw₂

theorem Stmt.Spelled.checks {s : Stmt} (h : s.Spelled) (env : Env) (hw : env.entities.Worded) :
    Checks (s.check env) fun r => r.2.entities.Worded := by
  induction h generalizing env with
  | assignment ha => exact ha.checks hw
  | function hname hparams _ _ ih =>
    rw [Stmt.check]
    apply Checks.bind (checks_require Family.noConfusion)
    intro _ _
    apply Checks.bind checks_requireFresh
    intro _ _
    apply Checks.bind (checks_parameters hparams (hw.add fun _ => hname))
    rintro ⟨ids, env₁⟩ hw₁
    apply Checks.bind (checks_checkBlock ih hw₁)
    rintro ⟨b, env₂⟩ hw₂
    exact .pure hw₂
  | rangeFor hi hu _ ht ih =>
    rw [Stmt.check]
    apply Checks.bind (checks_rangeHeader { env with scope := env.scope.loop } hi hu ht hw)
    rintro ⟨⟨i, u, t⟩, env₁⟩ hw₁
    apply Checks.bind (checks_checkBlock ih hw₁)
    rintro ⟨b, env₂⟩ hw₂
    exact .pure hw₂
  | collectionFor hname hc _ ih =>
    rw [Stmt.check]
    apply Checks.bind hc.checks
    intro c _
    split
    next => exact .error Family.noConfusion
    next =>
      apply Checks.bind checks_requireFresh
      intro _ _
      apply Checks.bind (checks_checkBlock ih (hw.add fun _ => hname))
      rintro ⟨b, env₂⟩ hw₂
      exact .pure hw₂
  | ret hvalue =>
    apply Checks.bind (checks_returned hvalue)
    intro _ _
    exact .pure hw
  | brk =>
    apply Checks.bind (checks_require Family.noConfusion)
    intro _ _
    exact .pure hw
  | call hf hs =>
    apply Checks.bind (checks_called hf hs)
    intro _ _
    exact .pure hw

end Statements

theorem Program.Spelled.checks {p : Program} (h : p.Spelled) :
    Checks p.check fun t => t.entities.Worded := by
  apply Checks.bind (checks_checkBlock (fun s hs => (h s hs).checks) Env.initial_worded)
  intro r hw
  exact .pure hw

section Stages

variable {source file : String} {tokens : List Token} {program : Program} {e : Error}

theorem spelled_of_tokenize (h : tokenize source file = .ok tokens) :
    ∀ t ∈ tokens, t.Spelled := by
  have hout := tokenize_outcome source file
  rwa [h] at hout

theorem spelled_of_parse (h : tokenize source file = .ok tokens)
    (hp : parse tokens file = .ok program) : program.Spelled := by
  have hout := parse_outcome (spelled_of_tokenize h) file
  rwa [hp] at hout

theorem analyze_eq_check (h : tokenize source file = .ok tokens)
    (hp : parse tokens file = .ok program) : analyze source file = program.check := by
  simp only [analyze, h, hp, bind, Except.bind]

/-- What tokenizing and parsing let through is not rejected for its form. -/
theorem not_ofForm_of_analyze (h : tokenize source file = .ok tokens)
    (hp : parse tokens file = .ok program) (he : analyze source file = .error e) : ¬e.OfForm := by
  have hout := (spelled_of_parse h hp).checks
  rw [← analyze_eq_check h hp, he] at hout
  exact hout

/-- What they reject, they reject for its form. -/
theorem ofForm_of_analyze
    (h : ¬∃ tokens program, tokenize source file = .ok tokens ∧
      parse tokens file = .ok program)
    (he : analyze source file = .error e) : e.OfForm := by
  have hout := tokenize_outcome source file
  rw [analyze] at he
  cases htokens : tokenize source file with
  | error e' =>
    rw [htokens] at he hout
    cases he
    exact hout
  | ok tokens =>
    rw [htokens] at he
    have hparse := parse_outcome (spelled_of_tokenize htokens) file
    cases hprogram : parse tokens file with
    | error e' =>
      simp only [bind, Except.bind, hprogram] at he
      cases he
      rwa [hprogram] at hparse
    | ok program => exact absurd ⟨tokens, program, htokens, hprogram⟩ h

theorem compile_eq_error {simplify : Bool} {failure : Failure}
    (h : compile source file simplify = .error failure) :
    ∃ e, failure = .error e ∧ analyze source file = .error e := by
  obtain ⟨text, htext⟩ | ⟨e, he⟩ := compile_ok_or_error source file simplify
  · cases htext.symm.trans h
  · cases he.symm.trans h
    refine ⟨e, rfl, ?_⟩
    rw [compile] at he
    cases hanalyze : analyze source file with
    | error e' =>
      rw [hanalyze] at he
      cases he
      rfl
    | ok t =>
      rw [hanalyze] at he
      change (t.simplifyIf simplify).script.mapError Failure.fault = _ at he
      cases hscript : (t.simplifyIf simplify).script with
      | error f =>
        rw [hscript] at he
        cases he
      | ok text =>
        rw [hscript] at he
        cases he

end Stages

/-- The family of an error tells the stage that failed: the form of the text is blamed exactly if
tokenizing or parsing rejects it. No check rejects a number, and its text decides what number it
is. -/
theorem compile_error_family (source file : String) :
    (∀ simplify failure, compile source file simplify = .error failure →
      ∃ e, failure = .error e ∧ (e.cause.family = .form ↔
        ¬∃ tokens program, tokenize source file = .ok tokens ∧
          parse tokens file = .ok program)) ∧
    ∀ tokens, tokenize source file = .ok tokens →
      (∀ program, parse tokens file = .ok program → ∀ e, analyze source file = .error e →
        e.cause.family ≠ .form ∧ ∀ text, e.cause ≠ .numberParseError text) ∧
      ∀ t ∈ tokens, t.kind = .number → ∀ start,
        ((∃ x, Check.number t.value start = .ok (.float x)) ↔
          '.' ∈ t.value.toList ∨ 'e' ∈ t.value.toList ∨ 'E' ∈ t.value.toList) ∧
        (¬('.' ∈ t.value.toList ∨ 'e' ∈ t.value.toList ∨ 'E' ∈ t.value.toList) →
          Check.number t.value start = .ok (.int (decimal t.value.toList))) := by
  refine ⟨?_, ?_⟩
  · intro simplify failure h
    obtain ⟨e, rfl, he⟩ := compile_eq_error h
    refine ⟨e, rfl, ?_, ?_⟩
    · rintro hform ⟨tokens, program, htokens, hprogram⟩
      exact not_ofForm_of_analyze htokens hprogram he hform
    · intro hread
      exact ofForm_of_analyze hread he
  · intro tokens htokens
    refine ⟨?_, ?_⟩
    · intro program hprogram e he
      have hform := not_ofForm_of_analyze htokens hprogram he
      refine ⟨hform, ?_⟩
      intro text hcause
      exact hform (congrArg Cause.family hcause)
    · intro t ht hk start
      have hnumeral := (spelled_of_tokenize htokens t ht).numeral hk
      have hint := fun hmark => number_of_not_isMarked hnumeral hmark start
      refine ⟨⟨?_, fun hmark => number_of_isMarked hnumeral hmark start⟩, hint⟩
      rintro ⟨x, hx⟩
      by_contra hmark
      cases (hint hmark).symm.trans hx

theorem compile_error_family_undeclared :
    ∃ tokens program e, tokenize "x = 12\ny = z" "a" = .ok tokens ∧
      parse tokens "a" = .ok program ∧
      compile "x = 12\ny = z" "a" true = .error (.error e) ∧ e.cause.family ≠ .form ∧
      ∃ t ∈ tokens, t.value = "12" ∧ Check.number t.value t.span.start = .ok (.int 12) := by
  have hcompile : compile "x = 12\ny = z" "a" true =
      .error (.error ⟨.notDeclared "z", ⟨2, 5, "a"⟩⟩) := by
    decide +kernel
  have hread : ((tokenize "x = 12\ny = z" "a").toOption.bind fun tokens =>
      (parse tokens "a").toOption).isSome := by
    decide +kernel
  have hnumber : ((tokenize "x = 12\ny = z" "a").toOption.bind (·[2]?)).map
      (fun t => (t.kind, t.value)) = some (.number, "12") := by
    decide +kernel
  obtain ⟨hfamily, hstages⟩ := compile_error_family "x = 12\ny = z" "a"
  cases htokens : tokenize "x = 12\ny = z" "a" with
  | error e =>
    rw [htokens] at hread
    cases hread
  | ok tokens =>
    rw [htokens] at hread hnumber
    cases hparse : parse tokens "a" with
    | error e =>
      simp [Except.toOption, hparse] at hread
    | ok program =>
      obtain ⟨t, ht, heq⟩ := Option.map_eq_some_iff.1 hnumber
      obtain ⟨hkind, hvalue⟩ := Prod.mk.inj heq
      have hmem : t ∈ tokens := List.mem_of_getElem? ht
      obtain ⟨e, he, hform⟩ := hfamily true _ hcompile
      cases he
      have hint := ((hstages tokens htokens).2 t hmem hkind t.span.start).2
      rw [hvalue] at hint
      refine ⟨tokens, program, _, rfl, hparse, hcompile, ?_, t, hmem, hvalue, ?_⟩
      · exact fun h => hform.1 h ⟨tokens, program, htokens, hparse⟩
      · rw [hvalue]
        exact hint (by decide)

end Scriptor
