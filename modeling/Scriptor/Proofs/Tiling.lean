import Mathlib.Data.List.DropRight
import Scriptor.Proofs.Numerals

namespace Scriptor

def Position.behind (file : String) (before : List Char) : Position where
  line := 1 + before.count '\n'
  column := 1 + (before.rtakeWhile (· != '\n')).length
  file := file

namespace Position

theorem behind_concat (file : String) (before : List Char) (c : Char) :
    behind file (before ++ [c]) = (behind file before).next c := by
  by_cases hc : c = '\n'
  · subst hc
    simp [behind, next, List.rtakeWhile_concat_neg, Nat.add_assoc]
  · simp [behind, next, hc, List.rtakeWhile_concat_pos, Nat.add_assoc]

theorem after_append (p : Position) (text text' : List Char) :
    p.after (text ++ text') = (p.after text).after text' :=
  List.foldl_append

theorem behind_after (file : String) (before text : List Char) :
    (behind file before).after text = behind file (before ++ text) := by
  induction text generalizing before with
  | nil => rw [List.append_nil]; rfl
  | cons c text ih =>
    have hnext := ih (before ++ [c])
    rw [behind_concat, List.append_assoc] at hnext
    exact hnext

end Position

/-- Blanks and comments, each comment with the line break that ends it. -/
inductive Gap : List Char → Prop where
  | nil : Gap []
  | blank {c : Char} {rest : List Char} : Text.isBlank c = true → Gap rest → Gap (c :: rest)
  | comment {body rest : List Char} :
      '\n' ∉ body → Gap ('\n' :: rest) → Gap ('/' :: '/' :: (body ++ '\n' :: rest))

/-- A gap at the end of the text, where the text may end a comment. -/
inductive FinalGap : List Char → Prop where
  | gap {text : List Char} : Gap text → FinalGap text
  | comment {gap body : List Char} :
      Gap gap → '\n' ∉ body → FinalGap (gap ++ '/' :: '/' :: body)

/-- What a token has to do with the lexeme that it stands for, which is all that its pattern takes
of the text. -/
structure Token.StandsFor (t : Token) (lexeme rest : List Char) : Prop where
  matched : ∃ p, Pattern.first? (lexeme ++ rest) = some (p, lexeme, rest) ∧
    p.token? lexeme = some (t.kind, t.value)
  lexeme_ne_nil : lexeme ≠ []
  kind_ne_eof : t.kind ≠ .eof
  value_eq : t.kind ≠ .string → t.value = String.ofList lexeme
  quoted : t.kind = .string → ∃ quote inner, quote ∈ ['"', '\''] ∧
    lexeme = quote :: (inner ++ [quote]) ∧ t.value = String.ofList (Token.unescape inner)

/-- Whether the text between `before` and `tail` is made of gaps and lexemes in turn, with one token
for each lexeme. -/
inductive Tiles (file : String) (tail : List Char) :
    List Char → List Char → List Token → Prop where
  | nil {before : List Char} : Tiles file tail before [] []
  | cons {before gap lexeme text : List Char} {t : Token} {ts : List Token} :
      Gap gap → t.StandsFor lexeme (text ++ tail) →
      t.span = ⟨.behind file (before ++ gap), .behind file (before ++ gap ++ lexeme)⟩ →
      t.newlineBefore = decide ('\n' ∈ gap) →
      Tiles file tail (before ++ gap ++ lexeme) text ts →
      Tiles file tail before (gap ++ lexeme ++ text) (t :: ts)

/-- What tokenizing the text behind `before` comes to. Either gaps and lexemes make up all of it, or
they lead to a character at which no pattern matches. -/
inductive Tokenized (file : String) (before text : List Char) :
    Except Error (List Token) → Prop where
  | ok {tiled gap : List Char} {ts : List Token} :
      text = tiled ++ gap → Tiles file gap before tiled ts → FinalGap gap →
      Tokenized file before text
      (.ok (ts ++ [.eof (.behind file (before ++ text)) (decide ('\n' ∈ gap))]))
  | error {tiled gap rest : List Char} {char : Char} {ts : List Token} :
      text = tiled ++ (gap ++ char :: rest) →
      Tiles file (gap ++ char :: rest) before tiled ts → Gap gap →
      (∀ p ∈ Pattern.all, p.split? (char :: rest) = none) →
      Tokenized file before text
        (.error ⟨.unrecognisedToken (String.singleton char),
          .behind file (before ++ tiled ++ gap)⟩)

namespace Pattern

/-- What the table promises of its quotes and of its symbols. -/
def isRegular : Pattern → Bool
  | .string quote => quote ∈ ['"', '\'']
  | .symbol kind spelling _ =>
    kind ∉ [.eof, .string, .number, .identifier] && '\n' ∉ spelling.toList
  | _ => true

theorem isRegular_of_mem {p : Pattern} (h : p ∈ all) : p.isRegular = true := by
  have hall : all.all isRegular = true := by decide +kernel
  exact List.all_eq_true.1 hall p h

theorem quote_mem {quote : Char} (h : .string quote ∈ all) : quote ∈ ['"', '\''] :=
  of_decide_eq_true (isRegular_of_mem h)

theorem symbol_regular {kind : Kind} {spelling value : String}
    (h : .symbol kind spelling value ∈ all) :
    kind ∉ [.eof, .string, .number, .identifier] ∧ '\n' ∉ spelling.toList := by
  simpa [isRegular, and_assoc] using isRegular_of_mem h

theorem newline_not_mem_stringTail {quote : Char} {cs : List Char} {s : Split} (hq : quote ≠ '\n')
    (h : stringTail quote cs = some s) : '\n' ∉ s.1 := by
  fun_induction stringTail quote cs generalizing s with
  | case1 | case2 | case3 | case6 => cases h
  | case4 c cs hc ih =>
    obtain ⟨t, ht, rfl⟩ := Option.map_eq_some_iff.1 h
    simp [Split.after, ih ht, Ne.symm hc]
  | case5 cs =>
    cases h
    simpa using Ne.symm hq
  | case7 c cs _ _ _ hc ih =>
    obtain ⟨t, ht, rfl⟩ := Option.map_eq_some_iff.1 h
    simp [Split.after, ih ht, Ne.symm hc]

/-- No lexeme that a token stands for goes over a line break. -/
theorem newline_not_mem {p : Pattern} (hp : p ∈ all) {cs : List Char} {s : Split}
    {t : Kind × String}
    (h : p.split? cs = some s) (ht : p.token? s.1 = some t) : '\n' ∉ s.1 := by
  cases cs with
  | nil => cases p <;> cases h
  | cons c cs =>
    cases p with
    | word =>
      obtain ⟨hc, h⟩ := Option.ite_none_right_eq_some.1 h
      cases h
      intro hmem
      rcases List.mem_cons.1 hmem with rfl | hmem
      · exact absurd hc (by decide)
      · exact absurd (List.mem_takeWhile_imp hmem) (by decide)
    | number =>
      intro hmem
      rcases (split?_numeral h).mem hmem with hdigit | hmark
      · exact absurd hdigit (by decide)
      · exact absurd hmark (by decide)
    | string quote =>
      obtain ⟨rfl, h⟩ := Option.ite_none_right_eq_some.1 h
      obtain ⟨tail, htail, rfl⟩ := Option.map_eq_some_iff.1 h
      have hq : c ≠ '\n' := by
        rintro rfl
        exact absurd (quote_mem hp) (by decide)
      have hrest := newline_not_mem_stringTail hq htail
      simp [Split.after, hrest, Ne.symm hq]
    | symbol kind spelling value =>
      rw [(literal_append h).1]
      exact (symbol_regular hp).2
    | blank | comment => cases ht

theorem ofWord_ne (word : String) :
    Kind.ofWord word ≠ .eof ∧ Kind.ofWord word ≠ .string ∧
    Kind.ofWord word ≠ .number := by
  fun_cases Kind.ofWord word <;> simp

theorem token?_standsFor {p : Pattern} {lexeme rest : List Char} {t : Token}
    (h : first? (lexeme ++ rest) = some (p, lexeme, rest))
    (ht : p.token? lexeme = some (t.kind, t.value)) :
    t.StandsFor lexeme rest := by
  have hmatched : ∃ p, first? (lexeme ++ rest) = some (p, lexeme, rest) ∧
      p.token? lexeme = some (t.kind, t.value) :=
    ⟨p, h, ht⟩
  have hne := first?_ne_nil h
  obtain ⟨hp, hs⟩ := first?_generation h
  cases p with
  | word =>
    obtain ⟨hkind, hvalue⟩ := Prod.mk.inj (Option.some.inj ht)
    have hword := ofWord_ne (String.ofList lexeme)
    rw [hkind] at hword
    exact ⟨hmatched, hne, hword.1, fun _ => hvalue.symm, fun hk => absurd hk hword.2.1⟩
  | number =>
    obtain ⟨hkind, hvalue⟩ := Prod.mk.inj (Option.some.inj ht)
    refine ⟨hmatched, hne, ?_, fun _ => hvalue.symm, ?_⟩
    · rw [← hkind]
      exact Kind.noConfusion
    · rw [← hkind]
      exact Kind.noConfusion
  | string quote =>
    obtain ⟨hkind, hvalue⟩ := Prod.mk.inj (Option.some.inj ht)
    obtain ⟨inner, hinner⟩ := split?_string hs
    refine ⟨hmatched, hne, ?_, fun hk => absurd hkind.symm hk, fun _ =>
      ⟨quote, inner, quote_mem hp, hinner, ?_⟩⟩
    · rw [← hkind]
      exact Kind.noConfusion
    · change lexeme = quote :: (inner ++ [quote]) at hinner
      rw [← hvalue, hinner, List.drop_succ_cons, List.drop_zero, List.dropLast_concat]
  | symbol kind spelling value =>
    obtain ⟨hkind, hvalue⟩ := Prod.mk.inj (Option.some.inj ht)
    have hplain := (symbol_regular hp).1
    simp only [List.mem_cons, not_or] at hplain
    obtain ⟨heof, hstring, -⟩ := hplain
    have hlexeme : lexeme = spelling.toList := split?_symbol hs
    rw [hkind] at heof hstring
    refine ⟨hmatched, hne, heof, fun _ => ?_, fun hk => absurd hk hstring⟩
    rw [hlexeme, String.ofList_toList, ← hvalue, value_eq_spelling hp]
  | blank | comment => cases ht

/-- What is skipped is a run of blanks, or a comment up to the end of its line. -/
theorem split?_skipped {p : Pattern} {cs : List Char} {s : Split} (h : p.split? cs = some s)
    (ht : p.token? s.1 = none) :
    (∀ c ∈ s.1, Text.isBlank c = true) ∨
      ∃ body, s.1 = '/' :: '/' :: body ∧ '\n' ∉ body ∧
        (s.2 = [] ∨ ∃ rest, s.2 = '\n' :: rest) := by
  cases cs with
  | nil => cases p <;> cases h
  | cons c cs =>
    cases p with
    | blank =>
      obtain ⟨hc, h⟩ := Option.ite_none_right_eq_some.1 h
      cases h
      refine .inl (List.forall_mem_cons.2 ⟨hc, ?_⟩)
      intro d hd
      exact List.mem_takeWhile_imp hd
    | comment =>
      obtain ⟨t, hopen, rfl⟩ := Option.map_eq_some_iff.1 h
      refine .inr ⟨t.2.takeWhile (· != '\n'), ?_, ?_, ?_⟩
      · rw [Split.after, (literal_append hopen).1]
        rfl
      · intro hmem
        exact absurd (List.mem_takeWhile_imp hmem) (by decide)
      · change t.2.dropWhile (· != '\n') = [] ∨
          ∃ rest, t.2.dropWhile (· != '\n') = '\n' :: rest
        by_cases hrest : t.2.dropWhile (· != '\n') = []
        · exact .inl hrest
        · have hhead : (t.2.dropWhile (· != '\n')).head hrest = '\n' := by
            simpa using List.head_dropWhile_not (· != '\n') hrest
          exact .inr ⟨_, hhead ▸ (List.cons_head_tail hrest).symm⟩
    | _ => cases ht

end Pattern

theorem Gap.append_blanks {blanks gap : List Char} (h : ∀ c ∈ blanks, Text.isBlank c = true)
    (hg : Gap gap) : Gap (blanks ++ gap) := by
  induction blanks with
  | nil => exact hg
  | cons c blanks ih =>
    rw [List.forall_mem_cons] at h
    exact .blank h.1 (ih h.2)

theorem FinalGap.append_blanks {blanks gap : List Char}
    (h : ∀ c ∈ blanks, Text.isBlank c = true)
    (hg : FinalGap gap) : FinalGap (blanks ++ gap) := by
  cases hg with
  | gap hg => exact .gap (hg.append_blanks h)
  | comment hg hb =>
    rw [← List.append_assoc]
    exact .comment (hg.append_blanks h) hb

theorem FinalGap.append_comment {body rest : List Char} (hb : '\n' ∉ body)
    (hg : FinalGap ('\n' :: rest)) : FinalGap ('/' :: '/' :: (body ++ '\n' :: rest)) := by
  generalize hgap : '\n' :: rest = gap at hg
  cases hg with
  | gap hg =>
    subst hgap
    exact .gap (.comment hb hg)
  | @comment gap body' hg hb' =>
    cases gap with
    | nil => cases hgap
    | cons c gap =>
      cases hgap
      have hfirst : Gap ('/' :: '/' :: (body ++ '\n' :: gap)) := .comment hb hg
      have hlast := FinalGap.comment hfirst hb'
      rwa [List.cons_append, List.cons_append, List.append_assoc] at hlast

/-- A comment is followed by its line break, which no lexeme starts with. -/
theorem Gap.skip {p : Pattern} {cs lexeme gap tail : List Char} {char : Char}
    (h : p.split? cs = some (lexeme, gap ++ char :: tail)) (ht : p.token? lexeme = none)
    (hchar : char ≠ '\n') (hg : Gap gap) : Gap (lexeme ++ gap) := by
  rcases Pattern.split?_skipped h ht with hblank | ⟨body, hbody, hline, hend⟩
  · exact hg.append_blanks hblank
  · change lexeme = '/' :: '/' :: body at hbody
    subst hbody
    cases gap with
    | nil =>
      rcases hend with hend | ⟨rest, hend⟩
      · cases hend
      · exact absurd (List.cons.inj hend).1 hchar
    | cons c gap =>
      rcases hend with hend | ⟨rest, hend⟩
      · cases hend
      · obtain rfl := (List.cons.inj hend).1
        exact .comment hline hg

theorem FinalGap.skip {p : Pattern} {cs lexeme rest : List Char}
    (h : p.split? cs = some (lexeme, rest))
    (ht : p.token? lexeme = none) (hg : FinalGap rest) : FinalGap (lexeme ++ rest) := by
  rcases Pattern.split?_skipped h ht with hblank | ⟨body, hbody, hline, hend⟩
  · exact hg.append_blanks hblank
  · change lexeme = '/' :: '/' :: body at hbody
    subst hbody
    rcases hend with rfl | ⟨rest', rfl⟩
    · rw [List.append_nil]
      exact .comment .nil hline
    · exact hg.append_comment hline

theorem Pattern.first?_newline (rest : List Char) : first? ('\n' :: rest) ≠ none := by
  intro h
  rw [first?, List.findSome?_eq_none_iff] at h
  have hblank := h .blank (by simp [all])
  cases hblank

namespace Cursor

/-- Reading up to the next token: behind a gap the text ends, nothing matches, or a lexeme
stands. -/
inductive Generation (text : List Char) (start : Position) (newline : Bool) :
    Except Error (List Token) → Prop where
  | ends : FinalGap text →
      Generation text start newline (.ok [.eof (start.after text) (newline || text.contains '\n')])
  | fails {gap rest : List Char} {char : Char} : text = gap ++ char :: rest → Gap gap →
      Pattern.first? (char :: rest) = none →
      Generation text start newline
      (.error ⟨.unrecognisedToken (String.singleton char), start.after gap⟩)
  | reads {gap lexeme rest : List Char} {p : Pattern} {t : Token} :
      text = gap ++ (lexeme ++ rest) → Gap gap →
      Pattern.first? (lexeme ++ rest) = some (p, lexeme, rest) →
      p.token? lexeme = some (t.kind, t.value) →
      t.span = ⟨start.after gap, start.after (gap ++ lexeme)⟩ →
      t.newlineBefore = (newline || gap.contains '\n') →
      Generation text start newline
        ((⟨rest, start.after (gap ++ lexeme), false⟩ : Cursor).tokens.map (t :: ·))

theorem Generation.skip {p : Pattern} {text lexeme rest : List Char} {start : Position}
    {newline : Bool} {r : Except Error (List Token)} (h : p.split? text = some (lexeme, rest))
    (ht : p.token? lexeme = none)
    (hr : Generation rest (start.after lexeme) (newline || lexeme.contains '\n') r) :
    Generation text start newline r := by
  have htext : lexeme ++ rest = text := Pattern.split?_append h
  have hnewline (gap : List Char) : (newline || lexeme.contains '\n' || gap.contains '\n') =
      (newline || (lexeme ++ gap).contains '\n') := by
    rw [Bool.or_assoc, List.contains_append]
  cases hr with
  | ends hg =>
    rw [← Position.after_append, hnewline, htext]
    exact .ends (htext ▸ hg.skip h ht)
  | @fails gap rest' char hrest hg hnone =>
    have hchar : char ≠ '\n' := by
      rintro rfl
      exact Pattern.first?_newline rest' hnone
    subst hrest
    rw [← Position.after_append]
    refine .fails ?_ (hg.skip h ht hchar) hnone
    rw [← htext, List.append_assoc]
  | @reads gap lexeme' rest' p' t hrest hg hfirst htoken hspan hline =>
    obtain ⟨hmem, hsplit⟩ := Pattern.first?_generation hfirst
    have hnot : '\n' ∉ lexeme' := Pattern.newline_not_mem hmem hsplit htoken
    obtain ⟨char, tail, rfl⟩ := List.exists_cons_of_ne_nil (Pattern.first?_ne_nil hfirst)
    have hchar : char ≠ '\n' := by
      rintro rfl
      exact hnot List.mem_cons_self
    subst hrest
    rw [← Position.after_append, ← List.append_assoc]
    refine .reads ?_ (hg.skip h ht hchar) hfirst htoken ?_ ?_
    · rw [← htext, List.append_assoc]
    · rw [hspan, Position.after_append, Position.after_append _ _ (_ :: _), Position.after_append]
    · rw [hline, hnewline]

theorem tokens_generation (c : Cursor) : Generation c.rest c.position c.newline c.tokens := by
  fun_induction tokens c with
  | case1 c hc =>
    have hends : Generation [] c.position c.newline _ := .ends (.gap .nil)
    rw [hc]
    exact hends
  | case2 c char rest hc h =>
    rw [hc] at h
    have hfails : Generation c.rest c.position c.newline _ :=
      .fails (List.nil_append _ ▸ hc) .nil h
    exact hfails
  | case3 c char rest hc p lexeme rest' h this htoken ih =>
    have hrest := advance_rest h
    rw [Pattern.first?_consumed h] at ih ⊢
    rw [← hrest] at h
    exact .skip (Pattern.first?_generation h).2 htoken ih
  | case4 c char rest hc p lexeme rest' h this kind value htoken =>
    obtain ⟨hmem, hsplit⟩ := Pattern.first?_generation h
    rw [Pattern.first?_consumed h]
    have htext : lexeme ++ rest' = c.rest := Pattern.split?_append hsplit
    have hnot : '\n' ∉ lexeme := Pattern.newline_not_mem hmem hsplit htoken
    have hpass : c.pass lexeme = ⟨rest', c.position.after lexeme, false⟩ := by
      rw [pass, ← advance_rest h]
      rfl
    rw [hpass]
    rw [← htext] at h
    refine @Generation.reads c.rest c.position c.newline [] lexeme rest' p
      (c.token kind value lexeme) htext.symm .nil h htoken rfl ?_
    simp [token, advance, hnot]

end Cursor

theorem Pattern.first?_eq_none_iff {cs : List Char} :
    first? cs = none ↔ ∀ p ∈ all, p.split? cs = none := by
  simp [first?]

theorem Tokenized.cons {file : String} {before gap lexeme rest : List Char} {t : Token}
    {r : Except Error (List Token)} (hg : Gap gap) (ht : t.StandsFor lexeme rest)
    (hspan : t.span = ⟨.behind file (before ++ gap), .behind file (before ++ gap ++ lexeme)⟩)
    (hline : t.newlineBefore = decide ('\n' ∈ gap))
    (h : Tokenized file (before ++ gap ++ lexeme) rest r) :
    Tokenized file before (gap ++ lexeme ++ rest) (r.map (t :: ·)) := by
  cases h with
  | @ok tiled last ts hrest htiles hlast =>
    rw [hrest] at ht
    have hcons := Tiles.cons hg ht hspan hline htiles
    have hwhole : before ++ gap ++ lexeme ++ rest = before ++ (gap ++ lexeme ++ rest) := by simp
    rw [hwhole]
    refine .ok ?_ hcons hlast
    rw [hrest, List.append_assoc]
    simp
  | @error tiled last rest' char ts hrest htiles hlast hnone =>
    rw [hrest] at ht
    have hcons := Tiles.cons hg ht hspan hline htiles
    have hwhole : before ++ gap ++ lexeme ++ tiled ++ last =
      before ++ (gap ++ lexeme ++ tiled) ++ last := by simp
    rw [hwhole]
    refine .error ?_ hcons hlast hnone
    rw [hrest]
    simp

theorem Cursor.tokens_tokenized (file : String) (before rest : List Char) :
    Tokenized file before rest (⟨rest, .behind file before, false⟩ : Cursor).tokens := by
  have h : Generation rest (.behind file before) false
      (⟨rest, .behind file before, false⟩ : Cursor).tokens :=
    tokens_generation ⟨rest, .behind file before, false⟩
  generalize (⟨rest, .behind file before, false⟩ : Cursor).tokens = r at h
  cases h with
  | ends hg =>
    rw [Position.behind_after, Bool.false_or, List.contains_eq_mem]
    exact .ok (List.nil_append rest).symm .nil hg
  | @fails gap rest' char hrest hg hnone =>
    rw [← List.nil_append (gap ++ char :: rest')] at hrest
    have htiles : Tiles file (gap ++ char :: rest') before [] [] := .nil
    have hfails := Tokenized.error hrest htiles hg (Pattern.first?_eq_none_iff.1 hnone)
    rw [List.append_nil] at hfails
    rw [Position.behind_after]
    exact hfails
  | @reads gap lexeme rest' p t hrest hg hfirst htoken hspan hline =>
    have hlength : rest'.length < rest.length := by
      have hpos : 0 < lexeme.length := List.length_pos_of_ne_nil (Pattern.first?_ne_nil hfirst)
      rw [hrest, List.length_append, List.length_append]
      omega
    have hnext := tokens_tokenized file (before ++ gap ++ lexeme) rest'
    rw [Position.behind_after, Position.behind_after, ← List.append_assoc] at hspan
    rw [Bool.false_or, List.contains_eq_mem] at hline
    have hcons := hnext.cons hg (Pattern.token?_standsFor hfirst htoken) hspan hline
    rw [Position.behind_after, ← List.append_assoc, hrest, ← List.append_assoc]
    exact hcons
termination_by rest.length

/-- Tokenizing cuts the source text into gaps and lexemes and loses nothing. It fails only at a
character where no pattern matches. -/
theorem tokenize_tokenized (source file : String) :
    Tokenized file [] source.toList (tokenize source file) :=
  Cursor.tokens_tokenized file [] source.toList

end Scriptor
