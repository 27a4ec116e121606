import Scriptor.Proofs.Lines
import Scriptor.Proofs.Reading.Lockstep
import Scriptor.Proofs.Reading.Statements

namespace Scriptor

theorem Stream.advance_generation {s : Stream} {t : Token} {ts : List Token}
    (h : s.tokens = t :: ts) (hne : ts ≠ []) :
    s.advance.tokens = ts ∧ s.advance.previousEnd = t.span.stop := by
  obtain ⟨hcurrent, hrest⟩ := List.cons.inj h
  cases ts with
  | nil => exact absurd rfl hne
  | cons u us =>
    rw [advance, hrest, hcurrent]
    exact ⟨rfl, rfl⟩

namespace Tandem

open Reader

/-- A stream that goes on with `next` where the other one ends. -/
structure Continues (next : Token) (rest : List Token) (s s' : Stream) : Prop where
  previousEnd : s'.previousEnd = s.previousEnd
  tokens : ∃ w last, last.kind = .eof ∧ (∀ t ∈ w, t.kind ≠ .eof) ∧
    s.tokens = w ++ [last] ∧ s'.tokens = w ++ next :: rest

variable {next : Token} {rest : List Token} {s s' s₁ : Stream}

theorem Continues.size_eq (h : Continues next rest s s') : s'.size = s.size + rest.length := by
  obtain ⟨w, last, -, -, hs, hs'⟩ := h.tokens
  rw [← s.length_tokens, ← s'.length_tokens, hs, hs', List.length_append, List.length_append,
    List.length_cons, List.length_cons, List.length_nil]
  omega

theorem Continues.ends (h : Continues next rest s s') : s.Ends := by
  obtain ⟨w, last, hlast, -, hs, -⟩ := h.tokens
  rw [Stream.Ends, hs, List.getLast?_concat, Option.map_some, hlast]

theorem Continues.generation (h : Continues next rest s s') :
    (s.kind ≠ .eof ∧ s'.current = s.current ∧ Continues next rest s.advance s'.advance) ∨
      s.kind = .eof ∧ s'.tokens = next :: rest := by
  obtain ⟨w, last, hlast, hw, hs, hs'⟩ := h.tokens
  cases w with
  | nil =>
    refine .inr ⟨?_, hs'⟩
    rw [Stream.kind, (List.cons.inj hs).1, hlast]
  | cons t w =>
    obtain ⟨ht, hw⟩ := List.forall_mem_cons.1 hw
    have hcurrent : s.current = t := (List.cons.inj hs).1
    have hcurrent' : s'.current = t := (List.cons.inj hs').1
    refine .inl ⟨?_, hcurrent'.trans hcurrent.symm, ?_⟩
    · rwa [Stream.kind, hcurrent]
    · obtain ⟨htokens, hend⟩ := Stream.advance_generation hs (List.concat_ne_nil _ _)
      obtain ⟨htokens', hend'⟩ :=
        Stream.advance_generation hs' (List.append_ne_nil_of_right_ne_nil _ (List.cons_ne_nil _ _))
      exact ⟨hend'.trans hend.symm, w, last, hlast, hw, htokens, htokens'⟩

/-- Reading a text with another one below it. -/
def extended (next : Token) (rest : List Token) (hline : next.newlineBefore = true)
    (hopens : next.kind.opens = true) : Tandem where
  move := id
  strict := False
  Beside := Continues next rest
  size_le h := h.size_eq ▸ Nat.le_add_right _ _
  previousEnd h := h.previousEnd
  current h := by
    rcases h.generation with ⟨-, hcurrent, -⟩ | ⟨heof, hnext⟩
    · exact .inl hcurrent
    · have hcurrent := (List.cons.inj hnext).1
      rw [Stream.kind, Stream.kind, hcurrent]
      exact .inr ⟨id, heof, hline, hopens⟩
  advance h hk := by
    rcases h.generation with ⟨-, -, hadvance⟩ | ⟨heof, -⟩
    · exact hadvance
    · exact absurd heof hk

/-- The statements of the first text are read one by one, up to the line break. -/
theorem reads_statements_extended (hline : next.newlineBefore = true)
    (hopens : next.kind.opens = true) {n : Nat} {stmts : List Stmt} (hn : s.size ≤ n)
    (h : Reads (statementsWithin .full n) s stmts s₁) (hs : Continues next rest s s') :
    ∃ s₂ : Stream, s₂.tokens = next :: rest ∧ ∀ stmts',
      (∀ m, s₂.size ≤ m → ∃ s₃, Reads (statementsWithin .full m) s₂ stmts' s₃) →
      ∀ m, s'.size ≤ m →
        ∃ s₃, Reads (statementsWithin .full m) s' (stmts ++ stmts') s₃ := by
  have hbeside : (extended next rest hline hopens).Beside s s' := hs
  induction n generalizing s s' stmts with
  | zero => exact absurd hn (Nat.not_succ_le_zero _)
  | succ n ih =>
    rcases statementsWithin_generation.1 h with ⟨heof, rfl, rfl⟩
      | ⟨hk, stmt, stmts, s₂, hstmt, hstmts, rfl⟩
    · rcases hs.generation with ⟨hk, -⟩ | ⟨-, hnext⟩
      · exact absurd heof hk
      · exact ⟨s', hnext, fun _ h => h⟩
    · rcases starts_or hbeside with ⟨hstarts, -⟩ | ⟨-, heof, -⟩
      · obtain ⟨k, s₂', hpast, hk₁, hstmt', hs₂⟩ :=
          (matches_statement hstarts).reads hs.ends (Nat.le_refl _) hstmt
        have hsize := hpast.size hs.ends
        obtain ⟨s₃, hnext, hrest⟩ := ih (by omega) hstmts hs₂ hs₂
        refine ⟨s₃, hnext, fun stmts' hstmts' m hm => ?_⟩
        obtain ⟨m, rfl⟩ :=
          Nat.exists_eq_add_of_le' (Nat.le_trans (Nat.succ_le_succ (Nat.zero_le _)) hm)
        have hm : s₂'.size ≤ m := by
          rw [hs.size_eq] at hm
          rw [Continues.size_eq hs₂]
          omega
        obtain ⟨s₄, hrest⟩ := hrest stmts' hstmts' m hm
        have hk' : s'.kind ≠ .eof := hstarts.kind ▸ hk
        have hstmt' : Reads (statement .full) s' stmt s₂' := stmt.move_id ▸ hstmt'
        exact ⟨s₄, statementsWithin_generation.2
          (.inr ⟨hk', stmt, _, s₂', hstmt', hrest, rfl⟩)⟩
      · exact absurd heof hk

theorem starts_moved {g : Position → Position} {line : Bool} (hs : s.Ends)
    (hcurrent : s'.current = (s.current.move g).behindLine line)
    (hrest : s'.rest = s.rest.map (Token.move g)) :
    (moved g False).Starts s s' where
  kind := by rw [Stream.kind, hcurrent]; rfl
  value := by rw [hcurrent]; rfl
  span := by rw [hcurrent]; rfl
  size_le := by rw [Stream.size, Stream.size, hrest, List.length_map]
  advance hk := by
    have htokens := hs.tokens_eq rfl hk
    cases hcons : s.rest with
    | nil =>
      rw [Stream.tokens, hcons] at htokens
      cases (List.cons.inj htokens).2
    | cons t ts =>
      rw [Stream.advance, Stream.advance, hrest, hcons, hcurrent]
      rfl
  beside := False.elim

/-- The statements of the second text are read as they were, whatever stands before them. -/
theorem reads_statements_moved {g : Position → Position} {n m : Nat}
    {stmts : List Stmt} (hs : s.Ends)
    (hn : s.size ≤ n) (h : Reads (statementsWithin .full n) s stmts s₁)
    (hstarts : (moved g False).Starts s s') (hm : s.size ≤ m) :
    ∃ s₁', Reads (statementsWithin .full m) s' (stmts.map (.move g)) s₁' := by
  obtain ⟨n, rfl⟩ :=
    Nat.exists_eq_add_of_le' (Nat.le_trans (Nat.succ_le_succ (Nat.zero_le _)) hn)
  obtain ⟨m, rfl⟩ :=
    Nat.exists_eq_add_of_le' (Nat.le_trans (Nat.succ_le_succ (Nat.zero_le _)) hm)
  rcases statementsWithin_generation.1 h with ⟨heof, rfl, rfl⟩
    | ⟨hk, stmt, stmts, s₂, hstmt, hstmts, rfl⟩
  · exact ⟨s', statementsWithin_generation.2 (.inl ⟨hstarts.kind.trans heof, rfl, rfl⟩)⟩
  · obtain ⟨k, s₂', hpast, hk₁, hstmt', hs₂⟩ :=
      (matches_statement hstarts).reads hs (Nat.le_refl _) hstmt
    have hsize := hpast.size hs
    have hbeside : (moved g True).Beside s₂ s₂' := hs₂
    have hmatches : (moved g True).Matches (List.map (.move g)) s₂.size 0
        (statementsWithin .full n) (statementsWithin .full m) s₂ s₂' :=
      matches_statementsWithin trivial unfolds_statements unfolds_statements (by omega)
        (by omega) hbeside
    obtain ⟨-, s₃, -, -, hrest, -⟩ := hmatches.reads (hpast.ends hs) (Nat.le_refl _) hstmts
    have hk' : s'.kind ≠ .eof := hstarts.kind ▸ hk
    exact ⟨s₃, statementsWithin_generation.2
      (.inr ⟨hk', _, _, s₂', hstmt', hrest, rfl⟩)⟩

end Tandem

namespace Reader

/-- Only tokens that open a statement start one. -/
theorem opens_of_reads_statement {s s₁ : Stream} {stmt : Stmt}
    (h : Reads (statement .full) s stmt s₁) : s.kind.opens = true := by
  have h : Reads (statementOver .full (statementWithin .full s.rest.length)) s stmt s₁ := h
  rw [statementOver, reads_kind_bind] at h
  cases hopening : Grammar.full.opening s.kind with
  | some form => simp [Kind.opens, hopening]
  | none =>
    rw [hopening] at h
    obtain ⟨e, s₂, he, -⟩ := reads_bind.1 h
    have he :
        Reads (expressionOver .full (expressionWithin .full s.rest.length) .default) s e s₂ := he
    rw [expressionOver, reads_kind_bind] at he
    cases hleading : Grammar.full.leading s.kind with
    | some form => simp [Kind.opens, hleading]
    | none =>
      rw [hleading] at he
      exact absurd he not_reads_unexpected

theorem opens_of_parse {t : Token} {ts : List Token} {file : String} {p : Program}
    (h : parse (t :: ts) file = .ok p) : t.kind.opens = true := by
  obtain ⟨s₁, h⟩ := parse_eq_ok_iff.1 h
  rcases statementsWithin_generation.1 h with ⟨heof, -⟩ | ⟨-, stmt, rest, s₂, hstmt, -⟩
  · have heof : t.kind = .eof := heof
    rw [heof]
    rfl
  · exact opens_of_reads_statement hstmt

end Reader

namespace Tandem

open Reader

theorem parse_joined {g : Position → Position} {front us : List Token}
    {last t : Token} {file : String}
    {p q : Program} (hlast : last.kind = .eof) (hfront : ∀ t ∈ front, t.kind ≠ .eof)
    (hus : (t :: us).getLast?.map Token.kind = some .eof)
    (hp : parse (front ++ [last]) file = .ok p) (hq : parse (t :: us) file = .ok q) :
    parse (front ++ (t.move g).behindLine true :: us.map (.move g)) file =
      .ok ⟨p.statements ++ (q.move g).statements⟩ := by
  have ht : t.kind.opens = true := opens_of_parse hq
  have hopens : ((t.move g).behindLine true).kind.opens = true := ht
  have hline : ((t.move g).behindLine true).newlineBefore = true := Bool.or_true _
  obtain ⟨s₁, hp⟩ := parse_eq_ok_iff.1 hp
  obtain ⟨s₂, hq⟩ := parse_eq_ok_iff.1 hq
  rw [parse_eq_ok_iff]
  generalize hnext : (t.move g).behindLine true = next at hopens hline
  generalize hrest : us.map (Token.move g) = rest
  have hkinds : (next :: rest).map Token.kind = (t :: us).map Token.kind := by
    rw [← hnext, ← hrest, List.map_cons, List.map_map]
    rfl
  have hends : (front ++ next :: rest).getLast?.map Token.kind = some .eof := by
    rw [List.getLast?_append_of_ne_nil _ (List.cons_ne_nil _ _), ← List.getLast?_map, hkinds,
      List.getLast?_map, hus]
  have htokens := Stream.tokens_ofTokens_of_eof hends file
  have hsecond (s : Stream) (hs : s.tokens = next :: rest) (m : Nat) (hm : s.size ≤ m) :
      ∃ s₃, Reads (statementsWithin .full m) s (q.move g).statements s₃ := by
    have hu := Stream.tokens_ofTokens_of_eof hus file
    obtain ⟨hcurrent, htail⟩ := List.cons.inj hs
    obtain ⟨hcurrent', htail'⟩ := List.cons.inj hu
    have hfirst : s.current =
        ((Stream.ofTokens (t :: us) file).current.move g).behindLine true := by
      rw [hcurrent, hcurrent', hnext]
    have hothers : s.rest = (Stream.ofTokens (t :: us) file).rest.map (Token.move g) := by
      rw [htail, htail', hrest]
    have hends := Stream.ofTokens_ends (t :: us) file
    have hstarts := starts_moved hends hfirst hothers
    exact reads_statements_moved hends (Nat.le_refl _) hq hstarts (Nat.le_trans hstarts.size_le hm)
  cases front with
  | nil =>
    rcases statementsWithin_generation.1 hp with ⟨-, hnil, -⟩ | ⟨hk, -⟩
    · rw [hnil]
      exact hsecond _ htokens _ (Nat.le_refl _)
    · exact absurd hlast hk
  | cons first front =>
    have hlast' : (first :: front ++ [last]).getLast?.map Token.kind = some .eof := by
      rw [List.getLast?_concat, Option.map_some, hlast]
    have hcontinues : Continues next rest (.ofTokens (first :: front ++ [last]) file)
        (.ofTokens (first :: front ++ next :: rest) file) :=
      ⟨rfl, first :: front, last, hlast, hfront, Stream.tokens_ofTokens_of_eof hlast' file,
        htokens⟩
    obtain ⟨s, hs, hjoined⟩ :=
      reads_statements_extended hline hopens (Nat.le_refl _) hp hcontinues
    exact hjoined _ (hsecond s hs) _ (Nat.le_refl _)

end Tandem

/-- Where two texts are programs, so is the second one below the first. It has the statements of
both, those of the second one as many lines lower as the first one has. -/
theorem parse_below {source source' file : String} {ts us : List Token} {p q : Program}
    (hts : tokenize source file = .ok ts) (hp : parse ts file = .ok p)
    (hus : tokenize source' file = .ok us) (hq : parse us file = .ok q) :
    ∃ vs, tokenize (source ++ "\n" ++ source') file = .ok vs ∧
      parse vs file =
        .ok ⟨p.statements ++ (q.move (.lower (source.toList.count '\n' + 1))).statements⟩ := by
  obtain ⟨front, last, t, us, rfl, hlast, hfront, rfl, hvs⟩ := tokenize_line hts hus
  exact ⟨_, hvs, Tandem.parse_joined hlast hfront (tokenize_ends hus) hp hq⟩

theorem parse_below_return :
    ∃ ts us p q, tokenize "x = f\nreturn // -" "a" = .ok ts ∧ parse ts "a" = .ok p ∧
      p.statements =
        [.assignment ⟨.symbol "x" ⟨⟨1, 1, "a"⟩, ⟨1, 2, "a"⟩⟩, none,
           .symbol "f" ⟨⟨1, 5, "a"⟩, ⟨1, 6, "a"⟩⟩, ⟨1, 1, "a"⟩, ⟨1, 6, "a"⟩⟩,
         .ret none ⟨⟨2, 1, "a"⟩, ⟨2, 7, "a"⟩⟩] ∧
      tokenize "(g)(1)" "a" = .ok us ∧ parse us "a" = .ok q ∧
      q.statements =
        [.call (.symbol "g" ⟨⟨1, 2, "a"⟩, ⟨1, 3, "a"⟩⟩)
           [.number "1" ⟨⟨1, 5, "a"⟩, ⟨1, 6, "a"⟩⟩]
             ⟨⟨1, 2, "a"⟩, ⟨1, 7, "a"⟩⟩] ∧
      ∃ vs, tokenize ("x = f\nreturn // -" ++ "\n" ++ "(g)(1)") "a" = .ok vs ∧
        parse vs "a" = .ok ⟨p.statements ++ (q.move (.lower 2)).statements⟩ := by
  have hts : tokenize "x = f\nreturn // -" "a" = .ok
      [⟨.identifier, "x", ⟨⟨1, 1, "a"⟩, ⟨1, 2, "a"⟩⟩, false⟩,
       ⟨.assignment, "=", ⟨⟨1, 3, "a"⟩, ⟨1, 4, "a"⟩⟩, false⟩,
       ⟨.identifier, "f", ⟨⟨1, 5, "a"⟩, ⟨1, 6, "a"⟩⟩, false⟩,
       ⟨.returnWord, "return", ⟨⟨2, 1, "a"⟩, ⟨2, 7, "a"⟩⟩, true⟩,
       .eof ⟨2, 12, "a"⟩ false] := by decide +kernel
  have hus : tokenize "(g)(1)" "a" = .ok
      [⟨.openParen, "(", ⟨⟨1, 1, "a"⟩, ⟨1, 2, "a"⟩⟩, false⟩,
       ⟨.identifier, "g", ⟨⟨1, 2, "a"⟩, ⟨1, 3, "a"⟩⟩, false⟩,
       ⟨.closeParen, ")", ⟨⟨1, 3, "a"⟩, ⟨1, 4, "a"⟩⟩, false⟩,
       ⟨.openParen, "(", ⟨⟨1, 4, "a"⟩, ⟨1, 5, "a"⟩⟩, false⟩,
       ⟨.number, "1", ⟨⟨1, 5, "a"⟩, ⟨1, 6, "a"⟩⟩, false⟩,
       ⟨.closeParen, ")", ⟨⟨1, 6, "a"⟩, ⟨1, 7, "a"⟩⟩, false⟩,
       .eof ⟨1, 7, "a"⟩ false] := by decide +kernel
  exact ⟨_, _, _, _, hts, rfl, rfl, hus, rfl, rfl, parse_below hts rfl hus rfl⟩

end Scriptor
