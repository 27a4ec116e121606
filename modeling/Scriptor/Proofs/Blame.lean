import Scriptor.Proofs.Lines
import Scriptor.Proofs.Placement
import Scriptor.Proofs.Stages

namespace Scriptor

section Kept

variable {g : Position → Position} {keep : Position → Prop} [DecidablePred keep] {file : String}
  {ts : List Token} {p : Program} {e : Error}

/-- The place on the next line, unless it is one to keep. -/
def Position.displace (keep : Position → Prop) [DecidablePred keep] (p : Position) : Position :=
  if keep p then p else { p with line := p.line + 1 }

theorem Position.displace_eq_self_iff {p : Position} : p.displace keep = p ↔ keep p := by
  rw [displace]
  split
  next h => exact iff_of_true rfl h
  next h =>
    refine iff_of_false ?_ h
    intro heq
    exact Nat.succ_ne_self _ (congrArg Position.line heq)

theorem Token.move_displace {t : Token} (h : keep t.span.start ∧ keep t.span.stop) :
    t.move (.displace keep) = t := by
  rw [move, Span.move, Position.displace_eq_self_iff.2 h.1, Position.displace_eq_self_iff.2 h.2]

theorem Stream.move_ofTokens (hne : ts ≠ []) (h : ∀ t ∈ ts, t.move g = t) :
    (ofTokens ts file).move g = ofTokens ts file := by
  cases ts with
  | nil => exact absurd rfl hne
  | cons t ts =>
    rw [List.forall_mem_cons] at h
    have hts : ts.map (Token.move g) = ts := (List.map_congr_left h.2).trans (List.map_id ts)
    have hstop : g t.span.stop = t.span.stop := congrArg (fun t => t.span.stop) h.1
    rw [ofTokens, move, map_move_closed, hts, h.1, hstop]

theorem parse_move (hne : ts ≠ []) (h : ∀ t ∈ ts, t.move g = t) (file : String) :
    Outcome (fun p => p.move g = p) (fun e => e.move g = e) (parse ts file) := by
  have hparse := parse_moved g ts file
  rw [Stream.move_ofTokens hne h] at hparse
  change parse ts file = _ at hparse
  cases hp : parse ts file with
  | ok p =>
    rw [hp] at hparse
    exact (Except.ok.inj hparse).symm
  | error e =>
    rw [hp] at hparse
    exact (Except.error.inj hparse).symm

theorem Relabeling.Carries.error_position {ρ : Relabeling} {block : Bool} {α : Type}
    {m : α → α} {y : Except Error α}
    (h : ρ.Carries block m (.error e) y) : ∃ c, y = .error ⟨c, ρ.position e.position⟩ := by
  cases h with
  | @error c c' position hc => exact ⟨c', rfl⟩

theorem Program.check_error_move (hp : p.move g = p) (h : p.check = .error e) :
    g e.position = e.position := by
  -- Two relabelings make the same of the program, so that they make the same of its error.
  have hcarries :=
    Relabeling.carries_program (ρ := ⟨id, Function.injective_id, fun _ => rfl, g⟩) p
  have hstays :=
    Relabeling.carries_program (ρ := ⟨id, Function.injective_id, fun _ => rfl, id⟩) p
  rw [relabel, hp, h] at hcarries
  rw [relabel, Program.move_id, h] at hstays
  obtain ⟨c, hc⟩ := hcarries.error_position
  obtain ⟨c', hc'⟩ := hstays.error_position
  exact congrArg Error.position (Except.error.inj (hc.symm.trans hc'))

end Kept

/-- What is true of the places where tokens start and end is true of the place of an error. -/
theorem analyze_error_of_tokens {keep : Position → Prop} {source file : String}
    {ts : List Token} {e : Error} (htokens : tokenize source file = .ok ts) (hne : ts ≠ [])
    (hkeep : ∀ t ∈ ts, keep t.span.start ∧ keep t.span.stop)
    (he : analyze source file = .error e) : keep e.position := by
  classical
  -- Moving all other places leaves the tokens where they are, and so the error.
  apply Position.displace_eq_self_iff.1
  have hparse := parse_move hne (fun t ht => Token.move_displace (hkeep t ht)) file
  cases hp : parse ts file with
  | error e' =>
    rw [hp] at hparse
    simp only [analyze, htokens, hp, bind, Except.bind] at he
    cases he
    exact congrArg Error.position hparse
  | ok p =>
    rw [hp] at hparse
    rw [analyze_eq_check htokens hp] at he
    exact Program.check_error_move hparse he

/-- Whether a place between two parts of a text stands right by something that can be seen on its
line, or where the text ends. -/
inductive Abuts : List Char → List Char → Prop where
  | ends {before : List Char} : Abuts before []
  | before {before rest : List Char} {c : Char} :
      Text.isBlank c = false → Abuts before (c :: rest)
  | behind {front lexeme after : List Char} {c : Char} :
      '\n' ∉ lexeme → c ∈ lexeme → Text.isBlank c = false → Abuts (front ++ lexeme) after

def Position.IsBy (text : List Char) (file : String) (p : Position) : Prop :=
  ∃ before after, text = before ++ after ∧ p = .behind file before ∧ Abuts before after

/-- A lexeme starts with a character that is no blank and goes over no line break. -/
theorem Token.StandsFor.visible {t : Token} {lexeme rest : List Char}
    (h : t.StandsFor lexeme rest) :
    '\n' ∉ lexeme ∧ ∃ c tail, lexeme = c :: tail ∧ Text.isBlank c = false := by
  obtain ⟨p, hfirst, htoken⟩ := h.matched
  obtain ⟨hp, hsplit⟩ := Pattern.first?_generation hfirst
  refine ⟨Pattern.newline_not_mem hp hsplit htoken, ?_⟩
  obtain ⟨c, tail, rfl⟩ := List.exists_cons_of_ne_nil h.lexeme_ne_nil
  refine ⟨c, tail, rfl, ?_⟩
  by_contra hc
  have hblank := hfirst.symm.trans (Pattern.first?_blank (Bool.eq_true_of_not_eq_false hc) _)
  obtain rfl : p = .blank := congrArg Prod.fst (Option.some.inj hblank)
  cases htoken

theorem Tiles.isBy {file : String} {tail before text : List Char} {ts : List Token}
    (h : Tiles file tail before text ts) : ∀ t ∈ ts,
      t.span.start.IsBy (before ++ text ++ tail) file ∧
      t.span.stop.IsBy (before ++ text ++ tail) file := by
  induction h with
  | nil => exact List.forall_mem_nil _
  | @cons before gap lexeme text t ts _ ht hspan _ _ ih =>
    obtain ⟨hline, c, rest, rfl, hc⟩ := ht.visible
    have htext : before ++ (gap ++ (c :: rest) ++ text) ++ tail =
        before ++ gap ++ (c :: rest) ++ text ++ tail := by
      simp
    rw [htext, List.forall_mem_cons, hspan]
    refine ⟨⟨?_, ?_⟩, ih⟩
    · exact ⟨before ++ gap, c :: rest ++ text ++ tail, by simp, rfl, .before hc⟩
    · exact ⟨before ++ gap ++ (c :: rest), text ++ tail,
        by simp, rfl, .behind hline List.mem_cons_self hc⟩

theorem tokenize_isBy {source file : String} {ts : List Token} (h : tokenize source file = .ok ts) :
    ts ≠ [] ∧ ∀ t ∈ ts,
      t.span.start.IsBy source.toList file ∧ t.span.stop.IsBy source.toList file := by
  have htokenized : Tokenized file [] source.toList (tokenize source file) :=
    Cursor.tokens_tokenized file [] source.toList
  rw [h] at htokenized
  cases htokenized with
  | ok htext htiles hgap =>
    refine ⟨List.append_ne_nil_of_right_ne_nil _ (List.cons_ne_nil _ _), ?_⟩
    rw [List.forall_mem_append, List.forall_mem_singleton]
    constructor
    · rw [htext]
      exact htiles.isBy
    · have hend : (Position.behind file ([] ++ source.toList)).IsBy source.toList file :=
        ⟨source.toList, [], (List.append_nil _).symm, rfl, .ends⟩
      exact ⟨hend, hend⟩

theorem tokenize_error_isBy {source file : String} {e : Error}
    (h : tokenize source file = .error e) : e.position.IsBy source.toList file := by
  have htokenized : Tokenized file [] source.toList (tokenize source file) :=
    Cursor.tokens_tokenized file [] source.toList
  rw [h] at htokenized
  cases htokenized with
  | @error tiled gap rest char ts htext htiles hgap hnone =>
    refine ⟨tiled ++ gap, char :: rest, ?_, rfl, .before ?_⟩
    · rw [htext, List.append_assoc]
    · by_contra hc
      rw [← Pattern.first?_eq_none_iff,
        Pattern.first?_blank (Bool.eq_true_of_not_eq_false hc)] at hnone
      cases hnone

/-- An error stands right by something that can be seen on its line, or where the text ends. -/
theorem analyze_error_isBy {source file : String} {e : Error} (h : analyze source file = .error e) :
    e.position.IsBy source.toList file := by
  cases htokens : tokenize source file with
  | ok ts =>
    obtain ⟨hne, hisBy⟩ := tokenize_isBy htokens
    exact analyze_error_of_tokens htokens hne hisBy h
  | error e' =>
    rw [analyze, htokens] at h
    cases h
    exact tokenize_error_isBy htokens

end Scriptor
