import Mathlib.Logic.Function.Iterate
import Scriptor.Proofs.Reading.Lockstep
import Scriptor.Proofs.Spans

namespace Scriptor

namespace Stream

variable {s : Stream} {n : Nat}

/-- The number of tokens to read, with the one that ends the text. -/
def count (tokens : List Token) : Nat :=
  if tokens.getLast?.map Token.kind = some .eof then tokens.length else tokens.length + 1

/-- The stream of the tokens with the cursor at `i`. -/
def seek (tokens : List Token) (file : String) (i : Nat) : Stream :=
  advance^[i] (ofTokens tokens file)

variable {tokens : List Token} {file : String} {i : Nat}

theorem size_ofTokens (tokens : List Token) (file : String) :
    (ofTokens tokens file).size = count tokens := by
  rw [← length_tokens, count]
  split
  next h => rw [tokens_ofTokens_of_eof h]
  next h =>
    obtain ⟨e, -, htokens⟩ := tokens_ofTokens_of_ne_eof h file
    rw [htokens, List.length_append, List.length_singleton]

theorem tokens_advance (h : 1 < s.size) : s.tokens = s.current :: s.advance.tokens := by
  rw [tokens, Stream.advance]
  cases hrest : s.rest with
  | nil =>
    rw [size, hrest] at h
    exact absurd h (Nat.lt_irrefl 1)
  | cons t ts => rfl

theorem seek_succ (tokens : List Token) (file : String) (i : Nat) :
    seek tokens file (i + 1) = (seek tokens file i).advance := Function.iterate_succ_apply' _ _ _

theorem seek_spec (file : String) (h : i < count tokens) :
    (seek tokens file i).Ends ∧ (seek tokens file i).size + i = count tokens := by
  induction i with
  | zero => exact ⟨ofTokens_ends tokens file, size_ofTokens tokens file⟩
  | succ i ih =>
    obtain ⟨hends, hsize⟩ := ih (Nat.lt_of_succ_lt h)
    have htokens := tokens_advance (s := seek tokens file i) (by omega)
    have hlength := congrArg List.length htokens
    rw [List.length_cons, length_tokens, length_tokens] at hlength
    rw [seek_succ]
    exact ⟨hends.of_append (w := [_]) htokens, by omega⟩

theorem Past.seek (h : (seek tokens file i).Past n s) :
    s = Stream.seek tokens file (i + n) ∧ ∀ k, i ≤ k → k < i + n →
    (Stream.seek tokens file k).kind ≠ .eof := by
  generalize hs : Stream.seek tokens file i = s₀ at h
  induction h generalizing i with
  | refl => exact ⟨hs.symm, fun k hik hk => absurd hk (Nat.not_lt.2 hik)⟩
  | step hk _ ih =>
    -- the token at `i` is passed first
    obtain ⟨hend, hrest⟩ := ih (i := i + 1) (by rw [seek_succ, hs])
    rw [Nat.add_right_comm] at hend hrest
    refine ⟨hend, fun k hik hkn => ?_⟩
    rcases Nat.eq_or_lt_of_le hik with rfl | hlt
    · rwa [hs]
    · exact hrest k hlt hkn

end Stream

namespace Reader

open Tandem
open Scriptor.Stream (count seek)

variable {α : Type} {r r' : Reader α} {tokens : List Token} {file : String}
  {i limit m n : Nat} {s : Stream}

/-- Whether a run with the cursor at `i` leaves it at a token, and at no earlier one. -/
def Moves (tokens : List Token) (file : String) (i : Nat) (r : Reader α) : Prop :=
  ∃ j, i ≤ j ∧ j < count tokens ∧ (r (seek tokens file i)).2 = seek tokens file j

/-- Whether such a run moreover passes no token that ends the text, and one token at least if it
succeeds. -/
def MovesOn (tokens : List Token) (file : String) (i : Nat) (r : Reader α) : Prop :=
  ∃ j, i ≤ j ∧ j < count tokens ∧ (r (seek tokens file i)).2 = seek tokens file j ∧
    (∀ k, i ≤ k → k < j → (seek tokens file k).kind ≠ .eof) ∧
    ∀ a, (r (seek tokens file i)).1 = .ok a → i < j

theorem moves_of_eq (hi : i < count tokens) (h : (r (seek tokens file i)).2 = seek tokens file i) :
    Moves tokens file i r := ⟨i, Nat.le_refl i, hi, h⟩

theorem moves_of_advance (hi : i < count tokens)
    (h : (r (seek tokens file i)).2 = (seek tokens file i).advance) : Moves tokens file i r := by
  by_cases hlast : i + 1 < count tokens
  · exact ⟨i + 1, Nat.le_succ i, hlast, by rw [h, Stream.seek_succ]⟩
  · apply moves_of_eq hi
    have hsize := (Stream.seek_spec file hi).2
    have hrest : (seek tokens file i).rest = [] := by
      rw [Stream.size] at hsize
      exact List.eq_nil_of_length_eq_zero (by omega)
    rw [h, Stream.advance, hrest]

theorem expectOr_moves (hi : i < count tokens) (k : Kind) (e : Error) :
    Moves tokens file i (expectOr k e) := by
  by_cases hk : (seek tokens file i).kind = k
  · exact moves_of_advance hi (congrArg Prod.snd (if_pos hk))
  · exact moves_of_eq hi (congrArg Prod.snd (if_neg hk))

theorem expectOr_stays {k : Kind} {e e' : Error} (h : Fails (expectOr k e) s e') :
    (expectOr k e s).2 = s := by
  by_cases hk : s.kind = k
  · rw [Fails, expectOr, if_pos hk] at h
    cases h
  · rw [expectOr, if_neg hk]

theorem movesOn_of_matches {T : Tandem} {f : α → α} (hi : i < count tokens)
    (h : T.Matches f (count tokens) 1 r r' (seek tokens file i) s) : MovesOn tokens file i r := by
  obtain ⟨hends, hsize⟩ := Stream.seek_spec file hi
  obtain ⟨n, hpast, hmoved⟩ := h.past hends (by omega)
  have hsize' := hpast.size hends
  obtain ⟨hseek, hpassed⟩ := hpast.seek
  have hn : n < (seek tokens file i).size := by
    rw [← hsize']
    exact Nat.lt_add_of_pos_left (Nat.succ_pos _)
  exact ⟨i + n, Nat.le_add_right i n,
    by omega, hseek, hpassed, fun a ha => Nat.lt_add_of_pos_right (hmoved a ha)⟩

/-- How the calls of a reading move the cursor from `i`. -/
structure Progress (tokens : List Token) (file : String) (i : Nat) : Prop where
  advances : Moves tokens file i advance
  expects (k : Kind) : Moves tokens file i (expect k)
  expectsOr (k : Kind) (e : Error) : Moves tokens file i (expectOr k e)
  /-- A token that is not the expected one is not passed. -/
  expectStays (k : Kind) (e : Error) :
    Fails (expect k) (seek tokens file i) e →
    (expect k (seek tokens file i)).2 = seek tokens file i
  expectOrStays (k : Kind) (e e' : Error) :
    Fails (expectOr k e) (seek tokens file i) e' →
    (expectOr k e (seek tokens file i)).2 = seek tokens file i
  expressions (power : Power) : MovesOn tokens file i (expression .full power)
  leadings (form : Leading) : Grammar.full.leading (seek tokens file i).kind = some form →
    MovesOn tokens file i (leading (expression .full) form)
  trailings (power : Power) (left : Expr) (form : Trailing) :
    continuation? .full power (seek tokens file i).current = some form →
      MovesOn tokens file i (trailing (expression .full) left form)
  lists (closing : Kind) (message : String) : closing ≠ .eof →
    MovesOn tokens file i (items (expression .full .default) closing message)
  entries (message : String) :
  MovesOn tokens file i (items (entry (expression .full)) .closeDict message)
  ascriptions : MovesOn tokens file i (ascription .full)
  parameters (message : String) :
  MovesOn tokens file i (items (parameter .full) .closeParen message)
  targets (target : Expr) : isAssignment (seek tokens file i).kind = true →
    MovesOn tokens file i (assignmentTo .full target)
  assignments : MovesOn tokens file i (assignment .full)
  blocks : MovesOn tokens file i (block (statement .full))
  statements : MovesOn tokens file i (statement .full)

theorem progress (hi : i < count tokens) : Progress tokens file i where
  advances := moves_of_advance hi rfl
  expects k := expectOr_moves hi k _
  expectsOr k e := expectOr_moves hi k e
  expectStays _ _ h := expectOr_stays h
  expectOrStays _ _ _ h := expectOr_stays h
  expressions power := movesOn_of_matches hi (matches_operand power (beside_self _))
  leadings form h :=
    movesOn_of_matches hi ((matches_leading (fun p _ _ => matches_operand p) (starts_self _)
    (Grammar.ne_eof_of_leading h) form).le (Nat.le_succ _))
  trailings _ left form h :=
    movesOn_of_matches hi ((matches_trailing (fun p _ _ => matches_operand p) (starts_self _)
    (kind_ne_eof_of_continuation? h) left form).le (Nat.le_succ _))
  lists _ _ h :=
    movesOn_of_matches hi (matches_items h (absurd trivial) (fun _ _ => matches_operand .default)
    (beside_self _))
  entries _ := movesOn_of_matches hi (matches_items Kind.noConfusion (fun _ => rfl)
    (fun _ _ => matches_entry fun p _ _ => matches_operand p) (beside_self _))
  ascriptions := movesOn_of_matches hi (matches_ascription (beside_self _))
  parameters _ := movesOn_of_matches hi
    (matches_items Kind.noConfusion (fun _ => rfl) (fun _ _ => matches_parameter) (beside_self _))
  targets target h := movesOn_of_matches hi (matches_assignmentTo (beside_self _) h target)
  assignments := movesOn_of_matches hi (matches_assignment (beside_self _))
  blocks := movesOn_of_matches hi (matches_block (fun _ _ => matches_statement) (beside_self _))
  statements := movesOn_of_matches hi (matches_statement (starts_self _))

/-- Whether the readings at `s` end within `n` calls, one inside the other, and within `n` rounds
of each loop: a reading that is cut off there does what the whole reading does, whatever is put in
for the next call or round. As a reader fails where one inside it fails, a further call would be
seen. -/
structure Terminates (n : Nat) (s : Stream) : Prop where
  expressionDepth (power : Power) (deeper : Power → Reader Expr) :
    (expressionOver .full)^[n] deeper power s = expression .full power s
  typeDepth (deeper : Reader Ty) : (typeOver .full)^[n] deeper s = bounded (typeWithin .full) s
  statementDepth (deeper : Reader Stmt) : (statementOver .full)^[n] deeper s = statement .full s
  continueRounds (power : Power) (left : Expr) (more : Expr → Reader Expr) :
    (continueRound .full (expression .full) power)^[n] more left s =
      bounded (fun bound => continueWithin .full (expression .full) power bound left) s
  listRounds (closing : Kind) (message : String) (more : Reader (List Expr)) : closing ≠ .eof →
    (itemsRound (expression .full .default) closing message)^[n] more s =
      items (expression .full .default) closing message s
  entryRounds (message : String) (more : Reader (List (Expr × Expr))) :
    (itemsRound (entry (expression .full)) .closeDict message)^[n] more s =
      items (entry (expression .full)) .closeDict message s
  parameterRounds (message : String) (more : Reader (List Parameter)) :
    (itemsRound (parameter .full) .closeParen message)^[n] more s =
      items (parameter .full) .closeParen message s
  blockRounds (more : Reader (List Stmt)) : (blockRound (statement .full))^[n] more s =
    block (statement .full) s
  statementRounds (more : Reader (List Stmt)) :
    (statementsRound .full)^[n] more s = bounded (statementsWithin .full) s

theorem unfolds_iterate {ρ : Type} (step : ρ → ρ) (deeper : ρ) :
    Unfolds step fun k => step^[k] deeper :=
  fun _ => Function.iterate_succ_apply' _ _ _

theorem terminates (hs : s.Ends) (hn : s.size ≤ n) : Terminates n s where
  expressionDepth power deeper :=
    (matches_operandWithin unfolds_expression (unfolds_iterate _ deeper) (Nat.le_refl _) hn
      (beside_self s) power).eq Expr.move_id hs
  typeDepth deeper :=
    (matches_typeWithin unfolds_type (unfolds_iterate _ deeper) (Nat.le_refl _) hn
      (beside_self s)).eq (fun _ => rfl) hs
  statementDepth deeper :=
    (matches_statementWithin unfolds_statement (unfolds_iterate _ deeper) (Nat.le_refl _) hn
      (starts_self s)).eq Stmt.move_id hs
  continueRounds power left more := by
    have hrun := unfolds_iterate (continueRound .full (expression .full) power) more
    have h :=
      (matches_continueWithin (fun p _ _ => matches_operand p) unfolds_continue hrun
        (Nat.le_refl _) hn
      (beside_self s) left).eq Expr.move_id hs
    have hleft : left.move (moved id True).move = left := left.move_id
    rwa [hleft] at h
  listRounds _ _ more h :=
    (matches_itemsWithin h (absurd trivial) (fun _ _ => matches_operand .default) unfolds_items
      (unfolds_iterate _ more) (Nat.le_refl _) hn (beside_self s)).eq
      (List.map_id'' Expr.move_id) hs
  entryRounds _ more :=
    (matches_itemsWithin Kind.noConfusion (fun _ => rfl)
      (fun _ _ => matches_entry fun p _ _ => matches_operand p)
      unfolds_items (unfolds_iterate _ more) (Nat.le_refl _) hn (beside_self s)).eq
      (List.map_id'' fun p => Prod.ext p.1.move_id p.2.move_id) hs
  parameterRounds _ more :=
    (matches_itemsWithin Kind.noConfusion (fun _ => rfl)
      (fun _ _ => matches_parameter) unfolds_items
      (unfolds_iterate _ more) (Nat.le_refl _) hn (beside_self s)).eq
      (List.map_id'' Parameter.move_id) hs
  blockRounds more :=
    (matches_blockWithin (fun _ _ => matches_statement) unfolds_block (unfolds_iterate _ more)
      (Nat.le_refl _) hn (beside_self s)).eq (List.map_id'' Stmt.move_id) hs
  statementRounds more :=
    (matches_statementsWithin trivial unfolds_statements (unfolds_iterate _ more) (Nat.le_refl _) hn
      (beside_self s)).eq (List.map_id'' Stmt.move_id) hs

/-- Whether the calls inside a reading at `s` start at later tokens: it is determined by what they
do there. -/
structure CallsLater (s : Stream) : Prop where
  expressions (power : Power) (inner : Power → Reader Expr) :
    (∀ p s', s'.size < s.size → inner p s' = expression .full p s') →
      expressionOver .full inner power s = expression .full power s
  types (inner : Reader Ty) :
    (∀ s', s'.size < s.size → inner s' = bounded (typeWithin .full) s') →
    typeOver .full inner s = bounded (typeWithin .full) s
  statements (inner : Reader Stmt) :
    (∀ s', s'.size < s.size → inner s' = statement .full s') →
    statementOver .full inner s = statement .full s

theorem matches_later {f : α → α} {run : Nat → Reader α}
    (hrun : ∀ l n n' s', l ≤ n → l ≤ n' →
      (moved id True).Matches f l 1 (run n) (run n') s' s')
    (h : ∀ s', s'.size < s.size → r s' = bounded run s') (s' : Stream) :
    (moved id True).Matches f s.rest.length 1 (run s.rest.length) r s' s' := by
  intro hs hsize
  rw [h s' (Nat.lt_succ_of_le hsize)]
  exact hrun s'.size s.rest.length s'.size s' hsize (Nat.le_refl _) hs (Nat.le_refl _)

theorem callsLater (hs : s.Ends) : CallsLater s where
  expressions power inner h := by
    have hinner (p : Power) := matches_later (fun _ _ _ s' hn hn' =>
      matches_operandWithin unfolds_expression unfolds_expression hn hn' (beside_self s') p) (h p)
    refine (matches_expressionOver ?_ (starts_self s) power).eq Expr.move_id hs
    rintro p s' _ rfl
    rw [s'.move_id]
    exact hinner p s'
  types inner h := by
    have hinner := matches_later (fun _ _ _ s' hn hn' =>
      matches_typeWithin unfolds_type unfolds_type hn hn' (beside_self s')) h
    refine (matches_typeOver ?_ (beside_self s)).eq (fun _ => rfl) hs
    rintro s' _ rfl
    rw [s'.move_id]
    exact hinner s'
  statements inner h := by
    have hinner := matches_later (fun _ _ _ s' hn hn' =>
      matches_statementWithin unfolds_statement unfolds_statement hn hn' (starts_self s')) h
    refine (matches_statementOver ?_ (starts_self s)).eq Stmt.move_id hs
    intro s' s'' hstarts
    obtain rfl : s'' = s'.move id := hstarts.beside trivial
    rw [s'.move_id]
    exact hinner s'

/-- A program is read up to a token that ends the text, or up to a statement that cannot be read. -/
theorem statementsWithin_stops (hs : s.Ends) (hn : s.size ≤ n) :
    ∃ k s', s.Past k s' ∧
      (s'.kind = .eof ∧ (∃ body, Reads (statementsWithin .full n) s body s') ∨
        s'.kind ≠ .eof ∧ ∃ e, Fails (statement .full) s' e ∧
        Fails (statementsWithin .full n) s e) := by
  -- each statement leaves fewer tokens, so that the bound is not reached
  induction n generalizing s with
  | zero => exact absurd hn (Nat.not_succ_le_zero _)
  | succ n ih =>
    by_cases hk : s.kind = .eof
    · refine ⟨0, s, .refl s, .inl ⟨hk, [], ?_⟩⟩
      rw [statementsWithin, statementsRound, reads_kind_bind, if_pos hk]
      exact reads_pure.2 ⟨rfl, rfl⟩
    · have hbody : statementsWithin .full (n + 1) s =
          (do return (← statement .full) :: (← statementsWithin .full n)) s :=
        congrFun (if_neg hk) s
      obtain ⟨k, hpast, hmoved⟩ := (matches_statement (starts_self s)).past hs (Nat.le_refl _)
      rcases hr : statement .full s with ⟨e | stmt, s₁⟩
      · have hfails : Fails (statement .full) s e := by rw [Fails, hr]
        refine ⟨0, s, .refl s, .inr ⟨hk, e, hfails, ?_⟩⟩
        rw [Fails, hbody]
        exact fails_bind.2 (.inl hfails)
      · have hreads : Reads (statement .full) s stmt s₁ := hr
        rw [hr] at hpast hmoved
        have hmoved := hmoved stmt rfl
        have hsize : s₁.size + k = s.size := hpast.size hs
        have hs₁ : s₁.Ends := hpast.ends hs
        obtain ⟨k', s', hpast', hstop⟩ := ih hs₁ (by omega)
        refine ⟨k + k', s', hpast.trans hpast', ?_⟩
        rcases hstop with ⟨heof, body, hreads'⟩ | ⟨hne, e, he, hfails⟩
        · refine .inl ⟨heof, stmt :: body, ?_⟩
          rw [Reads, hbody]
          exact reads_bind.2 ⟨stmt, s₁, hreads,
            reads_bind.2 ⟨body, s', hreads', reads_pure.2 ⟨rfl, rfl⟩⟩⟩
        · refine .inr ⟨hne, e, he, ?_⟩
          rw [Fails, hbody]
          exact fails_bind.2 (.inr ⟨stmt, s₁, hreads, fails_bind.2 (.inl hfails)⟩)

end Reader

open Reader
open Scriptor.Stream (count seek)

/-- Every call of a reading moves on and ends, wherever the cursor is, and the reading of all tokens
stops at the first token that ends the text or at a statement before it that cannot be read. -/
theorem parse_ends (tokens : List Token) (file : String) :
    (∀ i < count tokens, Progress tokens file i ∧ CallsLater (seek tokens file i) ∧
      ∀ n, count tokens - i ≤ n → Terminates n (seek tokens file i)) ∧
    ∃ j < count tokens, (∀ k < j, (seek tokens file k).kind ≠ .eof) ∧
      ((seek tokens file j).kind = .eof ∧
          (∃ p, parse tokens file = .ok p ∧
            Reads program (seek tokens file 0) p (seek tokens file j)) ∨
        (seek tokens file j).kind ≠ .eof ∧
          ∃ e, parse tokens file = .error e ∧
            Fails (statement .full) (seek tokens file j) e) := by
  constructor
  · intro i hi
    obtain ⟨hends, hsize⟩ := Stream.seek_spec file hi
    exact ⟨progress hi, callsLater hends, fun n hn => terminates hends (by omega)⟩
  · have hs : (seek tokens file 0).Ends := Stream.ofTokens_ends tokens file
    obtain ⟨j, s', hpast, hstop⟩ := statementsWithin_stops hs (Nat.le_refl _)
    have hsize : s'.size + j = count tokens :=
      (hpast.size hs).trans (Stream.size_ofTokens tokens file)
    have hj : j < count tokens := hsize ▸ Nat.lt_add_of_pos_left (Nat.succ_pos _)
    obtain ⟨rfl, hpassed⟩ := hpast.seek
    rw [Nat.zero_add] at hpassed hstop
    refine ⟨j, hj, fun k => hpassed k (Nat.zero_le k), ?_⟩
    rcases hstop with ⟨heof, body, hbody⟩ | ⟨hne, e, he, hfails⟩
    · have hread : Reads program (seek tokens file 0) ⟨body⟩ (seek tokens file j) :=
        reads_bind.2 ⟨body, _, hbody, reads_pure.2 ⟨rfl, rfl⟩⟩
      exact .inl ⟨heof, ⟨body⟩, congrArg Prod.fst hread, hread⟩
    · have hfail : Fails program (seek tokens file 0) e := fails_bind.2 (.inl hfails)
      exact .inr ⟨hne, e, hfail, he⟩

def Token.signs : List Token :=
  [⟨.dash, "-", .nowhere, false⟩, ⟨.dash, "-", .nowhere, false⟩, .eof .nowhere false,
    ⟨.number, "1", .nowhere, false⟩]

/-- A reading that starts behind the end in the middle moves on and ends, too. -/
theorem parse_ends_midway :
    3 < count Token.signs ∧ count Token.signs - 3 ≤ 2 ∧ Progress Token.signs "" 3 ∧
    Terminates 2 (seek Token.signs "" 3) :=
  have h := (parse_ends Token.signs "").1 3 (by decide)
  ⟨by decide, by decide, h.1, h.2.2 2 (by decide)⟩

end Scriptor
