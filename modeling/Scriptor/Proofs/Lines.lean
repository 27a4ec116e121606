import Scriptor.Proofs.Moving
import Scriptor.Proofs.Tiling

namespace Scriptor

namespace Pattern

def Split.before (tail : List Char) (s : Split) : Split := (s.1, s.2 ++ tail)

variable {tail : List Char}

theorem run_line {p : Char → Bool} (hp : p '\n' = false) (cs : List Char) :
    run p (cs ++ '\n' :: tail) = (run p cs).before ('\n' :: tail) := by
  induction cs with
  | nil => simp [run, Split.before, hp]
  | cons c cs ih =>
    have ih := Prod.mk.inj ih
    by_cases hc : p c = true
    · simp [run, Split.before, hc, ih]
    · simp [run, Split.before, hc]

theorem fraction_line (cs : List Char) :
    fraction (cs ++ '\n' :: tail) = (fraction cs).before ('\n' :: tail) := by
  cases cs with
  | nil => rfl
  | cons c cs =>
    by_cases hc : c = '.'
    · subst hc
      rw [List.cons_append, fraction, fraction, run_line rfl, apply_ite (Split.before _)]
      rfl
    · simp [fraction, hc, Split.before]

theorem sign_line (cs : List Char) :
    sign (cs ++ '\n' :: tail) = (sign cs).before ('\n' :: tail) := by
  cases cs with
  | nil => rfl
  | cons c cs =>
    by_cases hplus : c = '+'
    · rw [hplus]
      rfl
    · by_cases hminus : c = '-'
      · rw [hminus]
        rfl
      · simp [sign, hplus, hminus, Split.before]

theorem exponent_line (cs : List Char) :
    exponent (cs ++ '\n' :: tail) = (exponent cs).before ('\n' :: tail) := by
  cases cs with
  | nil => rfl
  | cons mark cs =>
    have hdigits : run Char.isDigit ((sign cs).before ('\n' :: tail)).2 =
        (run Char.isDigit (sign cs).2).before ('\n' :: tail) := run_line rfl _
    rw [List.cons_append, exponent, exponent, sign_line, hdigits, apply_ite (Split.before _)]
    rfl

theorem stringTail_cons {quote c : Char} (hc : c ≠ '\\') (cs : List Char) :
    stringTail quote (c :: cs) = if c = quote then some ([c], cs)
      else if c = '\n' then none else (stringTail quote cs).map (Split.after [c]) := by
  rw [stringTail]
  all_goals
    intros
    contradiction

theorem stringTail_line {quote : Char} (hq : quote ≠ '\n') (cs : List Char) :
    stringTail quote (cs ++ '\n' :: tail) = (stringTail quote cs).map (.before ('\n' :: tail)) := by
  have hback {c : Char} {cs : List Char} (hnil : c = '\\' → cs = [] → False)
      (hcons : ∀ d ds, c = '\\' → cs = d :: ds → False) : c ≠ '\\' := by
    intro hc
    cases cs with
    | nil => exact hnil hc rfl
    | cons d ds => exact hcons d ds hc rfl
  fun_induction stringTail quote cs with
  | case1 => simp [stringTail, hq.symm]
  | case2 => rfl
  | case3 cs => rfl
  | case4 c cs hc ih => simp only [List.cons_append, stringTail, if_neg hc, ih, Option.map_map]; rfl
  | case5 cs hnil hcons =>
    rw [List.cons_append, stringTail_cons (hback hnil hcons), if_pos rfl]; rfl
  | case6 cs _ _ hc =>
    rw [List.cons_append, stringTail_cons (by decide), if_neg hc, if_pos rfl]; rfl
  | case7 c cs hnil hcons hc hline ih =>
    rw [List.cons_append, stringTail_cons (hback hnil hcons), if_neg hc, if_neg hline,
      ih, Option.map_map, Option.map_map]
    rfl

theorem literal_line {spelling : List Char} (hs : '\n' ∉ spelling) (cs : List Char) :
    literal spelling (cs ++ '\n' :: tail) = (literal spelling cs).map (.before ('\n' :: tail)) := by
  induction spelling generalizing cs with
  | nil => rfl
  | cons s spelling ih =>
    obtain ⟨hne, hs⟩ := not_or.1 (mt List.mem_cons.2 hs)
    cases cs with
    | nil => exact if_neg (Ne.symm hne)
    | cons c cs =>
      rw [List.cons_append, literal, literal, ih hs]
      split
      next => rw [Option.map_map, Option.map_map]; rfl
      next => rfl

/-- Only blanks go over a line break. -/
theorem split?_line {p : Pattern} (hp : p ∈ all) {c : Char} (hc : Text.isBlank c = false)
    (cs : List Char) :
    p.split? (c :: cs ++ '\n' :: tail) = (p.split? (c :: cs)).map (.before ('\n' :: tail)) := by
  cases p with
  | word =>
    rw [List.cons_append, split?, split?, run_line rfl, apply_ite (Option.map _)]
    rfl
  | number =>
    have hwhole : run Char.isDigit (c :: (cs ++ '\n' :: tail)) =
        (run Char.isDigit (c :: cs)).before ('\n' :: tail) :=
      run_line rfl (c :: cs)
    have hfraction (s : Split) : fraction (s.before ('\n' :: tail)).2 =
        (fraction s.2).before ('\n' :: tail) :=
      fraction_line s.2
    have hexponent (s : Split) : exponent (s.before ('\n' :: tail)).2 =
        (exponent s.2).before ('\n' :: tail) :=
      exponent_line s.2
    simp only [List.cons_append, split?, hwhole, hfraction, hexponent, apply_ite (Option.map _)]
    rfl
  | blank =>
    have hnone (cs : List Char) : blank.split? (c :: cs) = none := if_neg (Bool.eq_false_iff.1 hc)
    rw [List.cons_append, hnone, hnone]
    rfl
  | string quote =>
    have hquote : quote ≠ '\n' := by
      rintro rfl
      exact absurd (quote_mem hp) (by decide)
    rw [List.cons_append, split?, split?, stringTail_line hquote,
      apply_ite (Option.map _), Option.map_map, Option.map_map]
    rfl
  | comment =>
    have hbody (s : Split) : run (· != '\n') (s.before ('\n' :: tail)).2 =
        (run (· != '\n') s.2).before ('\n' :: tail) := run_line rfl s.2
    have hopen : literal ['/', '/'] (c :: (cs ++ '\n' :: tail)) =
        (literal ['/', '/'] (c :: cs)).map (.before ('\n' :: tail)) :=
        literal_line (by decide) (c :: cs)
    simp only [List.cons_append, split?, hopen, Option.map_map, Function.comp_def, hbody]
    rfl
  | symbol kind spelling value => exact literal_line (symbol_regular hp).2 (c :: cs)

theorem first?_line {c : Char} (hc : Text.isBlank c = false) (cs : List Char) :
    first? (c :: cs ++ '\n' :: tail) =
      (first? (c :: cs)).map fun found => (found.1, found.2.before ('\n' :: tail)) := by
  have hfind (ps : List Pattern) (h : ∀ p ∈ ps, p ∈ all) :
      ps.findSome? (fun p => (p.split? (c :: cs ++ '\n' :: tail)).map fun s => (p, s)) =
        (ps.findSome? fun p => (p.split? (c :: cs)).map fun s => (p, s)).map
          fun found => (found.1, found.2.before ('\n' :: tail)) := by
    induction ps with
    | nil => rfl
    | cons p ps ih =>
      rw [List.forall_mem_cons] at h
      rw [List.findSome?_cons, List.findSome?_cons, split?_line h.1 hc, ih h.2]
      cases p.split? (c :: cs) <;> rfl
  exact hfind all fun _ h => h

/-- Blanks start neither words nor numbers. -/
theorem isBlank_disjoint {c : Char} (hc : Text.isBlank c = true) :
    isWordStart c = false ∧ c.isDigit = false := by
  have halpha : c.isAlpha =
    (decide (65 ≤ c.val ∧ c.val ≤ 90) || (97 ≤ c.val && c.val ≤ 122)) := rfl
  have hcode : c.toNat < 48 ∨ 122 < c.toNat := by
    simp only [Text.isBlank, Text.blankRanges, List.any_cons, List.any_nil, Bool.or_eq_true,
      Bool.and_eq_true, decide_eq_true_eq, Bool.or_false] at hc
    omega
  have hval : c.toNat = c.val.toNat := rfl
  constructor
  · rw [Bool.eq_false_iff]
    intro hword
    simp only [isWordStart, halpha, Bool.or_eq_true, Bool.and_eq_true,
      decide_eq_true_eq, beq_iff_eq, UInt32.le_iff_toNat_le, UInt32.reduceToNat] at hword
    rcases hword with hword | rfl
    · omega
    · exact absurd hcode (by decide)
  · rw [Bool.eq_false_iff]
    intro hdigit
    simp only [Char.isDigit, Bool.and_eq_true, decide_eq_true_eq, ge_iff_le,
      UInt32.le_iff_toNat_le] at hdigit
    have hzero : '0'.val.toNat = 48 := rfl
    have hnine : '9'.val.toNat = 57 := rfl
    omega

theorem first?_blank {c : Char} (hc : Text.isBlank c = true) (cs : List Char) :
    first? (c :: cs) =
      some (.blank, c :: cs.takeWhile Text.isBlank, cs.dropWhile Text.isBlank) := by
  simp [first?, all, split?, isBlank_disjoint hc, hc, run, Split.after]

/-- A line break below leaves the lexeme as it is, unless that is a run of blanks. -/
theorem first?_line_or {cs lexeme rest : List Char} {p : Pattern}
    (h : first? cs = some (p, lexeme, rest)) :
    (p = .blank ∧ ∀ c ∈ lexeme, Text.isBlank c = true) ∨
      ∀ tail, first? (cs ++ '\n' :: tail) = some (p, lexeme, rest ++ '\n' :: tail) := by
  cases cs with
  | nil => cases h
  | cons c cs =>
    by_cases hc : Text.isBlank c = true
    · cases h.symm.trans (first?_blank hc cs)
      refine .inl ⟨rfl, List.forall_mem_cons.2 ⟨hc, ?_⟩⟩
      intro d hd
      exact List.mem_takeWhile_imp hd
    · refine .inr fun tail => ?_
      rw [first?_line (Bool.eq_false_iff.2 hc), h]
      rfl

end Pattern

def Token.behindLine (line : Bool) (t : Token) : Token :=
  { t with newlineBefore := t.newlineBefore || line }

theorem Token.behindLine_false (t : Token) : t.behindLine false = t := by
  rw [behindLine, Bool.or_false]

namespace Cursor

/-- Reading the tokens of a text, lexeme by lexeme. -/
inductive Lexes : List Char → Position → Bool → List Token → Prop where
  | nil {start : Position} {newline : Bool} : Lexes [] start newline [.eof start newline]
  | skip {cs lexeme rest : List Char} {start : Position} {newline : Bool} {p : Pattern}
      {ts : List Token} : Pattern.first? cs = some (p, lexeme, rest) → p.token? lexeme = none →
      Lexes rest (start.after lexeme) (newline || lexeme.contains '\n') ts →
      Lexes cs start newline ts
  | take {cs lexeme rest : List Char} {start : Position} {newline : Bool} {p : Pattern}
      {kind : Kind} {value : String} {ts : List Token} :
      Pattern.first? cs = some (p, lexeme, rest) → p.token? lexeme = some (kind, value) →
      Lexes rest (start.after lexeme) false ts →
      Lexes cs start newline
      (⟨kind, value, ⟨start, start.after lexeme⟩, newline || lexeme.contains '\n'⟩ :: ts)

theorem token_eof (c : Cursor) : c.token .eof "EOF" [] = .eof c.position c.newline := by
  rw [token, advance, List.contains_nil, Bool.or_false]
  rfl

theorem lexes_of_tokens {c : Cursor} {ts : List Token} (h : c.tokens = .ok ts) :
    Lexes c.rest c.position c.newline ts := by
  fun_induction tokens c generalizing ts with
  | case1 c hc =>
    cases h
    rw [hc, token_eof]
    exact .nil
  | case2 => cases h
  | case3 c char rest hc p lexeme rest' hfirst _ ht ih =>
    have hrest := ih h
    rw [Pattern.first?_consumed hfirst, advance_rest hfirst] at hrest
    exact .skip hfirst ht hrest
  | case4 c char rest hc p lexeme rest' hfirst _ kind value ht ih =>
    rw [Pattern.first?_consumed hfirst] at h ih
    cases htokens : (c.pass lexeme).tokens with
    | error e =>
      rw [htokens] at h
      cases h
    | ok ts =>
      rw [htokens] at h
      cases h
      have hrest := ih htokens
      have hpass : (c.pass lexeme).rest = rest' := advance_rest hfirst
      rw [hpass] at hrest
      exact .take hfirst ht hrest

variable {cs lexeme rest : List Char} {start : Position} {newline : Bool} {p : Pattern}
  {ts : List Token}

theorem tokens_of_first? (h : Pattern.first? cs = some (p, lexeme, rest)) :
    (⟨cs, start, newline⟩ : Cursor).tokens =
      (p.token? lexeme).elim
        (⟨rest, start.after lexeme, newline || lexeme.contains '\n'⟩ : Cursor).tokens
        fun t => (⟨rest, start.after lexeme, false⟩ : Cursor).tokens.map
          (⟨t.1, t.2, ⟨start, start.after lexeme⟩, newline || lexeme.contains '\n'⟩ :: ·) := by
  have hrest := advance_rest (c := ⟨cs, start, newline⟩) h
  fun_cases tokens (⟨cs, start, newline⟩ : Cursor) with
  | case1 hnil =>
    cases hnil
    cases h
  | case2 char cs' hc hnone => cases hnone.symm.trans h
  | case3 char cs' hc p' lexeme' rest' h' _ ht =>
    cases h'.symm.trans h
    rw [ht, Option.elim_none, Pattern.first?_consumed h, ← hrest]
    rfl
  | case4 char cs' hc p' lexeme' rest' h' _ kind value ht =>
    cases h'.symm.trans h
    rw [ht, Option.elim_some, Pattern.first?_consumed h, ← hrest]
    rfl

theorem tokens_skip (h : Pattern.first? cs = some (p, lexeme, rest)) (ht : p.token? lexeme = none) :
    (⟨cs, start, newline⟩ : Cursor).tokens =
      (⟨rest, start.after lexeme, newline || lexeme.contains '\n'⟩ : Cursor).tokens := by
  rw [tokens_of_first? h, ht]
  rfl

theorem tokens_take {kind : Kind} {value : String} (h : Pattern.first? cs = some (p, lexeme, rest))
    (ht : p.token? lexeme = some (kind, value)) :
    (⟨cs, start, newline⟩ : Cursor).tokens =
      (⟨rest, start.after lexeme, false⟩ : Cursor).tokens.map
        (⟨kind, value, ⟨start, start.after lexeme⟩, newline || lexeme.contains '\n'⟩ :: ·) := by
  rw [tokens_of_first? h, ht]
  rfl

theorem tokens_of_lexes (h : Lexes cs start newline ts) :
    (⟨cs, start, newline⟩ : Cursor).tokens = .ok ts := by
  induction h with
  | @nil start newline => rw [tokens, token_eof]
  | skip hfirst ht _ ih => rw [tokens_skip hfirst ht, ih]
  | take hfirst ht _ ih =>
    rw [tokens_take hfirst ht, ih]
    rfl

theorem Lexes.of_blank {c : Char} (hc : Text.isBlank c = true)
    (h : Lexes (c :: cs) start newline ts) :
    Lexes (cs.dropWhile Text.isBlank) (start.after (c :: cs.takeWhile Text.isBlank))
      (newline || (c :: cs.takeWhile Text.isBlank).contains '\n') ts := by
  cases h with
  | skip hfirst _ h =>
    cases hfirst.symm.trans (Pattern.first?_blank hc cs)
    exact h
  | take hfirst ht =>
    cases hfirst.symm.trans (Pattern.first?_blank hc cs)
    cases ht

theorem Lexes.blank {c : Char} (hc : Text.isBlank c = true)
    (h : Lexes cs (start.after [c]) (newline || [c].contains '\n') ts) :
    Lexes (c :: cs) start newline ts := by
  apply Lexes.skip (Pattern.first?_blank hc cs) rfl
  cases cs with
  | nil => exact h
  | cons d cs =>
    by_cases hd : Text.isBlank d = true
    · have hrest := h.of_blank hd
      rw [← Position.after_append, Bool.or_assoc, ← List.contains_append] at hrest
      rw [List.takeWhile_cons_of_pos hd, List.dropWhile_cons_of_pos hd]
      exact hrest
    · rw [List.takeWhile_cons_of_neg hd, List.dropWhile_cons_of_neg hd]
      exact h

theorem Lexes.blanks {blanks : List Char} (hblanks : ∀ c ∈ blanks, Text.isBlank c = true)
    (h : Lexes cs (start.after blanks) (newline || blanks.contains '\n') ts) :
    Lexes (blanks ++ cs) start newline ts := by
  induction blanks generalizing start newline with
  | nil =>
    rw [List.contains_nil, Bool.or_false] at h
    exact h
  | cons c blanks ih =>
    rw [List.forall_mem_cons] at hblanks
    apply Lexes.blank hblanks.1
    apply ih hblanks.2
    rwa [← Position.after_append, Bool.or_assoc, ← List.contains_append]

/-- A line break below a text ends it and leaves its tokens as they are. -/
theorem Lexes.line (h : Lexes cs start newline ts) :
    ∃ front last, ts = front ++ [last] ∧ last.kind = .eof ∧
      (∀ t ∈ front, t.kind ≠ .eof) ∧
      ∀ tail us, Lexes tail ((start.after cs).after ['\n']) true us →
        Lexes (cs ++ '\n' :: tail) start newline (front ++ us) := by
  have hcs {cs lexeme rest : List Char} {p : Pattern}
      (hfirst : Pattern.first? cs = some (p, lexeme, rest)) :
      lexeme ++ rest = cs := Pattern.split?_append (Pattern.first?_generation hfirst).2
  induction h with
  | @nil start newline =>
    refine ⟨[], _, rfl, rfl, List.forall_mem_nil _, fun tail us hus => ?_⟩
    have hline : ['\n'].contains '\n' = true := rfl
    apply Lexes.blank (by decide)
    rw [hline, Bool.or_true]
    exact hus
  | @skip cs lexeme rest start newline p ts hfirst ht _ ih =>
    obtain ⟨front, last, rfl, hlast, hfront, hline⟩ := ih
    refine ⟨front, last, rfl, hlast, hfront, fun tail us hus => ?_⟩
    rw [← hcs hfirst, Position.after_append] at hus
    rcases Pattern.first?_line_or hfirst with ⟨-, hblanks⟩ | hfirst'
    · -- the blanks may go on over the line break
      rw [← hcs hfirst, List.append_assoc]
      exact .blanks hblanks (hline tail us hus)
    · exact .skip (hfirst' tail) ht (hline tail us hus)
  | @take cs lexeme rest start newline p kind value ts hfirst ht _ ih =>
    obtain ⟨front, last, rfl, hlast, hfront, hline⟩ := ih
    rcases Pattern.first?_line_or hfirst with ⟨rfl, -⟩ | hfirst'
    · cases ht
    · have hstands : Token.StandsFor
          ⟨kind, value, ⟨start, start.after lexeme⟩, newline || lexeme.contains '\n'⟩
          lexeme rest := Pattern.token?_standsFor ((hcs hfirst).symm ▸ hfirst) ht
      refine ⟨_ :: front, last, rfl, hlast,
        List.forall_mem_cons.2 ⟨hstands.kind_ne_eof, hfront⟩, fun tail us hus => ?_⟩
      rw [← hcs hfirst, Position.after_append] at hus
      exact .take (hfirst' tail) ht (hline tail us hus)

/-- Moving the start moves all tokens; a line break in front is only seen by the first one. -/
theorem Lexes.move {g : Position → Position} (hg : ∀ p c, (g p).next c = g (p.next c))
    (h : Lexes cs start newline ts) (line : Bool) :
    ∃ t us, ts = t :: us ∧
      Lexes cs (g start) (newline || line) ((t.move g).behindLine line ::
        us.map (Token.move g)) := by
  have hafter (p : Position) (cs : List Char) : (g p).after cs = g (p.after cs) := by
    induction cs generalizing p with
    | nil => rfl
    | cons c cs ih => exact (congrArg (Position.after · cs) (hg p c)).trans (ih (p.next c))
  induction h generalizing line with
  | nil => exact ⟨_, [], rfl, .nil⟩
  | @skip cs lexeme rest start newline p ts hfirst ht _ ih =>
    obtain ⟨t, us, rfl, hrest⟩ := ih line
    rw [← hafter, Bool.or_right_comm] at hrest
    exact ⟨t, us, rfl, .skip hfirst ht hrest⟩
  | @take cs lexeme rest start newline p kind value ts hfirst ht _ ih =>
    obtain ⟨t, us, rfl, hrest⟩ := ih false
    rw [← hafter, Bool.or_false, Token.behindLine_false] at hrest
    have htake : Lexes cs (g start) (newline || line) _ := .take hfirst ht hrest
    rw [hafter, Bool.or_right_comm] at htake
    exact ⟨_, t :: us, rfl, htake⟩

end Cursor

def Position.lower (lines : Nat) (p : Position) : Position := { p with line := p.line + lines }

theorem Position.next_lower (lines : Nat) (p : Position) (c : Char) :
    (p.lower lines).next c = (p.next c).lower lines := by
  rw [next, next, apply_ite (lower lines), lower, Nat.add_right_comm]
  rfl

theorem tokenize_ends {source file : String} {ts : List Token} (h : tokenize source file = .ok ts) :
    ts.getLast?.map Token.kind = some .eof := by
  obtain ⟨front, last, rfl, hlast, -⟩ := (Cursor.lexes_of_tokens h).line
  rw [List.getLast?_concat, Option.map_some, hlast]

/-- The tokens of two texts, one below the other. -/
theorem tokenize_line {source source' file : String} {ts us : List Token}
    (h : tokenize source file = .ok ts) (h' : tokenize source' file = .ok us) :
    ∃ front last t ts', ts = front ++ [last] ∧ last.kind = .eof ∧
      (∀ t ∈ front, t.kind ≠ .eof) ∧ us = t :: ts' ∧
      tokenize (source ++ "\n" ++ source') file = .ok (front ++
        (t.move (.lower (source.toList.count '\n' + 1))).behindLine true ::
          ts'.map (.move (.lower (source.toList.count '\n' + 1)))) := by
  obtain ⟨front, last, rfl, hlast, hfront, hline⟩ := (Cursor.lexes_of_tokens h).line
  obtain ⟨t, ts', rfl, hmove⟩ :=
    (Cursor.lexes_of_tokens h').move (Position.next_lower (source.toList.count '\n' + 1)) true
  refine ⟨front, last, t, ts', rfl, hlast, hfront, rfl, ?_⟩
  have hstart : ((Position.start file).after source.toList).after ['\n'] =
      (Position.start file).lower (source.toList.count '\n' + 1) := by
    have hstart : Position.start file = .behind file [] := rfl
    rw [hstart, Position.behind_after, Position.behind_after]
    simp [Position.behind, Position.lower, List.rtakeWhile_concat_neg]
  have hsource : (source ++ "\n" ++ source').toList = source.toList ++ '\n' :: source'.toList := by
    rw [String.toList_append, String.toList_append, List.append_assoc]
    rfl
  have hlexes := hline source'.toList _ (hstart ▸ hmove)
  rw [tokenize, Cursor.start, hsource]
  exact Cursor.tokens_of_lexes hlexes

end Scriptor
