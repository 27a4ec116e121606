import Scriptor.Compile
import Scriptor.Proofs.Lexemes
import Scriptor.Proofs.Typing
import Scriptor.Proofs.Writing

namespace Scriptor

/-- The environments in which parts of a block are checked, whether or not a later part fails. -/
inductive Visits : Env → List Stmt → Env → Prop where
  | here {env : Env} {ss : List Stmt} : Visits env ss env
  | next {env env' last : Env} {s : Stmt} {ss : List Stmt} {t : Typed.Stmt} :
      s.check env = .ok (t, env') → Visits env' ss last → Visits env (s :: ss) last
  | body {env inner last : Env} {name endName : String} {params : List Parameter}
      {result : Option Ascription}
      {body ss : List Stmt} {endSpan span : Span} {ids : List EntityId} :
      Check.parameters
        (env.parametersOf (.ofFunction name (params.map Parameter.ty) (Ascription.typeOf result)))
        params = .ok (ids, inner) →
      Visits inner body last →
      Visits env (.function name params result body endName endSpan span :: ss) last
  | header {env : Env} {init update : Assignment} {body ss : List Stmt}
      {test : Expr} {span : Span} :
      Visits env (.rangeFor init update body test span :: ss) env.inLoop
  | range {env inner last : Env} {init update : Assignment} {body ss : List Stmt}
      {test : Expr} {span : Span} {i : Typed.Stmt} :
      init.check env.inLoop = .ok (i, inner) → Visits inner body last →
      Visits env (.rangeFor init update body test span :: ss) last
  | collection {env last : Env} {name : String} {nameSpan span : Span} {collection : Expr}
      {body ss : List Stmt} {c : Typed.Expr} {ty : Ty} :
      collection.check env = .ok c → c.ty.element? = some ty →
      Visits (env.inLoop.declare (.ofVariable name ty)) body last →
      Visits env (.collectionFor name nameSpan collection body span :: ss) last

theorem Visits.closed {env last : Env} {ss : List Stmt} (h : Visits env ss last) (hc : env.Closed) :
    last.Closed := by
  induction h with
  | here => exact hc
  | next hs _ ih => exact ih ((Stmt.check_follows _ hs).closed hc)
  | body hps _ ih => exact ih ((Check.parameters_generation hps).follows.closed (hc.parametersOf _))
  | header => exact hc.inLoop
  | range hi _ ih => exact ih ((Assignment.check_generation hi).follows.closed hc.inLoop)
  | collection _ _ _ ih => exact ih (hc.inLoop.declare _)

variable {source file : String}

theorem Program.check_wellFormed {p : Program} {t : Typed.Program} (h : p.check = .ok t) :
    t.WellFormed := by
  obtain ⟨env, hss, he⟩ := Program.check_generation h
  apply Typed.Program.WellTyped.wellFormed
  rw [Typed.Program.WellTyped, he]
  exact checkBlock_wellTyped p.statements Env.initial_closed hss (.refl _)

theorem analyze_wellFormed {t : Typed.Program} (h : analyze source file = .ok t) :
    t.WellFormed := by
  obtain ⟨tokens, -, h⟩ := bind_eq_ok_iff.1 h
  obtain ⟨p, -, h⟩ := bind_eq_ok_iff.1 h
  exact Program.check_wellFormed h

theorem Typed.Program.WellFormed.simplifyIf {p : Typed.Program} (h : p.WellFormed)
    (simplify : Bool) : (p.simplifyIf simplify).WellFormed := by
  cases simplify with
  | false => exact h
  | true => exact h.simplify_iterate 1

theorem compile_ok_or_error (source file : String) (simplify : Bool) :
    (∃ text, compile source file simplify = .ok text) ∨
    ∃ e, compile source file simplify = .error (.error e) := by
  rw [compile]
  cases h : analyze source file with
  | error e => exact .inr ⟨e, rfl⟩
  | ok t =>
    obtain ⟨text, htext⟩ := ((analyze_wellFormed h).simplifyIf simplify).script
    refine .inl ⟨text, ?_⟩
    change (t.simplifyIf simplify).script.mapError Failure.fault = _
    rw [htext]
    rfl

/-- No source text makes the compiler fault. Its ways to fault are to cut the text within a
character, to ask for an entity that does not exist and to write a program that is not
well-formed. -/
theorem compile_never_faults :
    (∀ source file simplify, (∃ text, compile source file simplify = .ok text) ∨
      ∃ e, compile source file simplify = .error (.error e)) ∧
    (∀ source file c, (Cursor.start source file).Reaches c →
      (∃ read, read ++ c.rest = source.toList) ∧
      ∀ p lexeme rest, Pattern.first? c.rest = some (p, lexeme, rest) →
        lexeme ++ rest = c.rest ∧ p.consumed lexeme = lexeme ∧
          (c.advance lexeme).rest = rest ∧
          ∀ quote, p = .string quote → ∃ inner, lexeme = quote :: (inner ++ [quote])) ∧
    (∀ (p : Program) env, Visits .initial p.statements env → env.Closed ∧
      (∀ (e : Expr) t, e.check env = .ok t → t.Names (·.index < env.entities.size)) ∧
      ∀ args as, checkAll env args = .ok as → as.length = args.length) ∧
    ∀ (p : Program) t, p.check = .ok t → ∀ n, (Typed.Program.simplify^[n] t).WellFormed ∧
      ∃ text, (Typed.Program.simplify^[n] t).script = .ok text := by
  refine ⟨compile_ok_or_error, ?_, ?_, ?_⟩
  · intro source file c hc
    refine ⟨hc.append, ?_⟩
    intro p lexeme rest hf
    have hs := (Pattern.first?_generation hf).2
    refine ⟨Pattern.split?_append hs, Pattern.first?_consumed hf, Cursor.advance_rest hf, ?_⟩
    rintro quote rfl
    exact Pattern.split?_string hs
  · intro p env hv
    refine ⟨hv.closed Env.initial_closed, ?_, ?_⟩
    · intro e t ht
      exact (Expr.check_wellTyped ht).names
    · intro args as has
      exact (checkAll_generation has).length_eq.symm
  · intro p t ht n
    have hw := (Program.check_wellFormed ht).simplify_iterate n
    exact ⟨hw, hw.script⟩

theorem compile_never_faults_counting :
    ∃ t, (Program.counting (.empty .nowhere)).check = .ok t ∧
      ∃ text, (Typed.Program.simplify^[2] t).script = .ok text := by
  obtain ⟨t, ht, -⟩ := Program.check_counting
  exact ⟨t, ht, (compile_never_faults.2.2.2 _ t ht 2).2⟩

end Scriptor
