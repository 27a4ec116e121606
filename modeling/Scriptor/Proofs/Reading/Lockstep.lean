import Scriptor.Proofs.Reading.Soundness
import Scriptor.Proofs.Reading.Tandem

namespace Scriptor

namespace Grammar

variable {k : Kind}

theorem ne_eof_of_leading {form : Leading} (h : full.leading k = some form) : k ≠ .eof := by
  rintro rfl
  cases h

theorem ne_eof_of_opening {form : Opening} (h : full.opening k = some form) : k ≠ .eof := by
  rintro rfl
  cases h

theorem ne_eof_of_typeForm {form : TypeForm} (h : full.typeForm k = some form) : k ≠ .eof := by
  rintro rfl
  cases h

end Grammar

namespace Reader

variable {α : Type} {item : Reader α} {closing : Kind} {message : String}
  {inner : Power → Reader Expr} {power : Power} {body : Reader Stmt}

theorem unfolds_items :
    Unfolds (itemsRound item closing message) (itemsWithin item closing message) :=
  fun _ => rfl

theorem unfolds_continue :
    Unfolds (continueRound .full inner power) (continueWithin .full inner power) :=
  fun _ => rfl

theorem unfolds_expression : Unfolds (expressionOver .full) (expressionWithin .full) := fun _ => rfl

theorem unfolds_type : Unfolds (typeOver .full) (typeWithin .full) := fun _ => rfl

theorem unfolds_block : Unfolds (blockRound body) (blockWithin body) := fun _ => rfl

theorem unfolds_statement : Unfolds (statementOver .full) (statementWithin .full) := fun _ => rfl

theorem unfolds_statements : Unfolds (statementsRound .full) (statementsWithin .full) :=
  fun _ => rfl

end Reader

namespace Tandem

open Reader

variable {T : Tandem} {α : Type} {m : α → α} {s s' : Stream} {limit n n' : Nat}

section Items

variable {item item' : Reader α} {closing : Kind} {message : String}
  {run run' : Nat → Reader (List α)}

theorem matches_itemsRound {more more' : Reader (List α)} (heof : closing ≠ .eof)
    (hclosing : ¬T.strict → closing.opens = false)
    (hitem : T.Matches m (limit + 1) 1 item item' s s')
    (hmore : ∀ s s', T.Beside s s' → T.Matches (List.map m) limit 1 more more' s s')
    (h : T.Beside s s') :
      T.Matches (List.map m) (limit + 1) 1 (itemsRound item closing message more)
      (itemsRound item' closing message more') s s' := by
  apply Matches.kind
  simp only [kind_eq_iff h hclosing]
  split
  next hk => exact .pass h (hk ▸ heof) fun _ h => .pure h rfl
  next =>
    apply hitem.onward
    intro a s₁ s₁' h
    apply Matches.kind
    simp only [kind_eq_iff (k := .comma) h fun _ => rfl]
    split
    next hk =>
      apply Matches.pass h (hk ▸ Kind.noConfusion)
      intro _ h
      apply (hmore _ _ h).bind
      intro as s₂ s₂' h
      exact .pure h rfl
    next =>
      apply Matches.kind
      simp only [kind_eq_iff h hclosing]
      split
      next hk => exact .pass h (hk ▸ heof) fun _ h => .pure h rfl
      next => exact .unexpectedBecause (starts_of_strict h)

/-- Lists are matched however many rounds they are given, if there is one for each token. -/
theorem matches_itemsWithin (heof : closing ≠ .eof)
    (hclosing : ¬T.strict → closing.opens = false)
    (hitem : ∀ s s', T.Beside s s' → T.Matches m limit 1 item item' s s')
    (hrun : Unfolds (itemsRound item closing message) run)
    (hrun' : Unfolds (itemsRound item' closing message) run') (hn : limit ≤ n)
    (hn' : limit ≤ n') (h : T.Beside s s') :
    T.Matches (List.map m) limit 1 (run n) (run' n') s s' := by
  refine matches_of_unfolds hrun hrun' ?_ hn hn' h
  intro l hl more more' hmore s s' h
  exact matches_itemsRound heof hclosing ((hitem s s' h).le hl) hmore h

theorem matches_items (heof : closing ≠ .eof) (hclosing : ¬T.strict → closing.opens = false)
    (hitem : ∀ s s', T.Beside s s' → T.Matches m limit 1 item item' s s') (h : T.Beside s s') :
    T.Matches (List.map m) limit 1 (items item closing message)
      (items item' closing message) s s' := by
  intro hs hsize
  have hitem (s s' : Stream) (h : T.Beside s s') := (hitem s s' h).le hsize
  exact matches_itemsWithin heof hclosing hitem unfolds_items unfolds_items
    (Nat.le_refl _) (T.size_le h) h hs (Nat.le_refl _)

end Items

theorem continuation?_eq (h : T.Beside s s') (power : Power) :
    continuation? .full power s'.current = continuation? .full power s.current := by
  rcases starts_or h with ⟨h, hnewline⟩ | ⟨-, heof, hnewline, -⟩
  · have hkind : s'.current.kind = s.current.kind := h.kind
    rw [continuation?, continuation?, hnewline, hkind]
  · have heof : s.current.kind = .eof := heof
    rw [continuation?, continuation?, if_pos hnewline, heof]
    exact (ite_self none).symm

theorem kind_ne_eof_of_continuation? {power : Power} {form : Trailing}
    (h : continuation? .full power s.current = some form) : s.kind ≠ .eof := by
  intro heof
  have htrailing := (continuation?_eq_some_iff.1 h).2.1
  have heof : s.current.kind = .eof := heof
  rw [heof] at htrailing
  cases htrailing

section Expressions

variable {inner inner' : Power → Reader Expr}
  (hinner : ∀ p s s', T.Beside s s' →
    T.Matches (.move T.move) limit 1 (inner p) (inner' p) s s')

include hinner

theorem matches_entry (h : T.Beside s s') :
    T.Matches (fun p => (p.1.move T.move, p.2.move T.move)) limit 1
    (entry inner) (entry inner') s s' := by
  apply (hinner .default s s' h).bind
  intro key s₁ s₁' h
  apply Matches.expect h Kind.noConfusion
  intro _ h
  apply (hinner .default _ _ h).bind
  intro value s₂ s₂' h
  exact .pure h rfl

theorem matches_leading (h : T.Starts s s') (hk : s.kind ≠ .eof) (form : Leading) :
    T.Matches (.move T.move) (limit + 1) 1 (leading inner form) (leading inner' form) s s' := by
  cases form with
  | number | string | symbol => exact .token h hk (by rw [h.value, h.span]; rfl)
  | boolean value => exact .token h hk (congrArg (Expr.boolean value) h.span)
  | unary op =>
    apply Matches.advance h hk
    intro hbeside
    apply (hinner .unary _ _ hbeside).bind
    intro operand s₁ s₁' hbeside
    apply Matches.pure hbeside
    rw [h.span, Expr.span_move]
    rfl
  | group =>
    apply Matches.advance h hk
    intro hbeside
    apply (hinner .default _ _ hbeside).bind
    intro e s₁ s₁' hbeside
    exact .expect hbeside Kind.noConfusion fun _ hbeside => .pure hbeside rfl
  | array =>
    apply Matches.advance h hk
    intro hbeside
    apply (matches_items Kind.noConfusion (fun _ => rfl) (hinner .default) hbeside).bind
    intro elements s₁ s₁' hbeside
    apply Matches.previousEnd hbeside
    intro p
    apply Matches.pure hbeside
    rw [Expr.move_array, h.span]
    rfl
  | dict =>
    apply Matches.advance h hk
    intro hbeside
    apply (matches_items Kind.noConfusion (fun _ => rfl)
      (fun _ _ => matches_entry hinner) hbeside).bind
    intro entries s₁ s₁' hbeside
    apply Matches.previousEnd hbeside
    intro p
    apply Matches.pure hbeside
    rw [Expr.move_dict, h.span]
    rfl

theorem matches_trailing (h : T.Starts s s') (hk : s.kind ≠ .eof) (left : Expr)
    (form : Trailing) : T.Matches (.move T.move) (limit + 1) 1 (trailing inner left form)
      (trailing inner' (left.move T.move) form) s s' := by
  cases form with
  | binary op power =>
    apply Matches.advance h hk
    intro hbeside
    apply (hinner power _ _ hbeside).bind
    intro right s₁ s₁' hbeside
    apply Matches.pure hbeside
    rw [Expr.start_move, Expr.span_move]
    rfl
  | conditional =>
    apply Matches.advance h hk
    intro hbeside
    apply (hinner .default _ _ hbeside).bind
    intro consequent s₁ s₁' hbeside
    apply Matches.expect hbeside Kind.noConfusion
    intro _ hbeside
    apply (hinner .default _ _ hbeside).bind
    intro alternate s₂ s₂' hbeside
    apply Matches.pure hbeside
    rw [Expr.start_move, Expr.span_move]
    rfl
  | call =>
    apply Matches.advance h hk
    intro hbeside
    apply (matches_items Kind.noConfusion (fun _ => rfl) (hinner .default) hbeside).bind
    intro args s₁ s₁' hbeside
    apply Matches.previousEnd hbeside
    intro p
    apply Matches.pure hbeside
    rw [Expr.move_call, Expr.start_move]
    rfl
  | subscript =>
    apply Matches.advance h hk
    intro hbeside
    apply (hinner .default _ _ hbeside).bind
    intro index s₁ s₁' hbeside
    apply Matches.expect hbeside Kind.noConfusion
    intro _ hbeside
    apply Matches.previousEnd hbeside
    intro p
    apply Matches.pure hbeside
    rw [Expr.start_move]
    rfl
  | member =>
    apply Matches.advance h hk
    intro hbeside
    apply Matches.expect hbeside Kind.noConfusion
    intro hstarts hbeside
    apply Matches.pure hbeside
    rw [Expr.start_move, hstarts.value, hstarts.span]
    rfl

theorem matches_continueRound {power : Power} {more more' : Expr → Reader Expr}
    (hmore : ∀ e s s', T.Beside s s' →
      T.Matches (.move T.move) limit 0 (more e) (more' (e.move T.move)) s s')
    (h : T.Beside s s') (left : Expr) :
    T.Matches (.move T.move) (limit + 1) 0 (continueRound .full inner power more left)
      (continueRound .full inner' power more' (left.move T.move)) s s' := by
  apply Matches.stream
  rw [continuation?_eq h]
  cases hform : continuation? .full power s.current with
  | none => exact .pure h rfl
  | some form =>
    have hk := kind_ne_eof_of_continuation? hform
    exact ((matches_trailing hinner (starts_of_ne_eof h hk) hk left form).onward hmore).weaken

theorem matches_continueWithin {power : Power} {run run' : Nat → Expr → Reader Expr}
    (hrun : Unfolds (continueRound .full inner power) run)
    (hrun' : Unfolds (continueRound .full inner' power) run') (hn : limit ≤ n)
    (hn' : limit ≤ n') (h : T.Beside s s') (left : Expr) :
    T.Matches (.move T.move) limit 0 (run n left) (run' n' (left.move T.move)) s s' := by
  refine hrun.related (R := fun l r r' => ∀ e s s', T.Beside s s' →
    T.Matches (.move T.move) l 0 (r e) (r' (e.move T.move)) s s') hrun'
    (fun _ _ _ _ _ _ => .zero) ?_ hn hn' left s s' h
  intro l hl more more' hmore e s s' h
  exact matches_continueRound (fun p s s' h => (hinner p s s' h).le (Nat.le_of_lt hl)) hmore h e

theorem matches_expressionOver (h : T.Starts s s') (power : Power) :
    T.Matches (.move T.move) (limit + 1) 1 (expressionOver .full inner power)
      (expressionOver .full inner' power) s s' := by
  apply Matches.kind
  rw [h.kind]
  cases hform : Grammar.full.leading s.kind with
  | none => exact .unexpected h
  | some form =>
    apply (matches_leading hinner h (Grammar.ne_eof_of_leading hform) form).onward
    intro left s₁ s₁' h hs hsize
    have hinner (p : Power) (s s' : Stream) (h : T.Beside s s') := (hinner p s s' h).le hsize
    exact matches_continueWithin hinner unfolds_continue unfolds_continue (Nat.le_refl _)
      (T.size_le h) h left hs (Nat.le_refl _)

omit hinner in
theorem expressionOver_eof (h : s.kind = .eof) (power : Power) :
    ∃ e : Error, e.OfForm ∧ expressionOver .full inner power s = (.error e, s) := by
  refine ⟨s.unexpected, rfl, ?_⟩
  rw [expressionOver, kind_bind, h]
  rfl

theorem matches_operandOver (h : T.Beside s s') (power : Power) :
    T.Matches (.move T.move) (limit + 1) 1 (expressionOver .full inner power)
      (expressionOver .full inner' power) s s' :=
  .of_starts h (fun h => matches_expressionOver hinner h power) fun heof =>
    expressionOver_eof heof power

end Expressions

section Operands

variable {run run' : Nat → Power → Reader Expr} (hrun : Unfolds (expressionOver .full) run)
  (hrun' : Unfolds (expressionOver .full) run') (hn : limit ≤ n) (hn' : limit ≤ n')

include hrun hrun' hn hn'

/-- Expressions are matched however deep they may nest, if one level is left for each token. -/
theorem matches_operandWithin (h : T.Beside s s') (power : Power) :
    T.Matches (.move T.move) limit 1 (run n power) (run' n' power) s s' := by
  refine hrun.related (R := fun l r r' => ∀ p s s', T.Beside s s' →
    T.Matches (.move T.move) l 1 (r p) (r' p) s s') hrun' (fun _ _ _ _ _ _ => .zero) ?_
    hn hn' power s s' h
  intro l _ inner inner' hinner p s s' h
  exact matches_operandOver hinner h p

theorem matches_expressionWithin (h : T.Starts s s') (power : Power) :
    T.Matches (.move T.move) limit 1 (run n power) (run' n' power) s s' := by
  cases limit with
  | zero => exact .zero
  | succ limit =>
    obtain ⟨n, rfl⟩ := Nat.exists_eq_add_one_of_ne_zero (Nat.ne_zero_of_lt hn)
    obtain ⟨n', rfl⟩ := Nat.exists_eq_add_one_of_ne_zero (Nat.ne_zero_of_lt hn')
    have hn := Nat.le_of_succ_le_succ hn
    have hn' := Nat.le_of_succ_le_succ hn'
    rw [hrun, hrun']
    exact matches_expressionOver (fun p s s' h => matches_operandWithin hrun hrun' hn hn' h p)
      h power

end Operands

theorem matches_operand (power : Power) (h : T.Beside s s') :
    T.Matches (.move T.move) limit 1 (expression .full power) (expression .full power) s s' :=
  .bounded (T.size_le h) fun _ _ _ hn hn' =>
    matches_operandWithin unfolds_expression unfolds_expression hn hn' h power

theorem matches_expression (power : Power) (h : T.Starts s s') :
    T.Matches (.move T.move) limit 1 (expression .full power) (expression .full power) s s' :=
  .bounded h.size_le fun _ _ _ hn hn' =>
    matches_expressionWithin unfolds_expression unfolds_expression hn hn' h power

section Ascriptions

theorem typeOver_eof (inner : Reader Ty) (h : s.kind = .eof) :
    ∃ e : Error, e.OfForm ∧ typeOver .full inner s = (.error e, s) := by
  refine ⟨s.unexpectedBecause "expected a type", rfl, ?_⟩
  rw [typeOver, kind_bind, h]
  rfl

theorem matches_typeOver {inner inner' : Reader Ty}
    (hinner : ∀ s s', T.Beside s s' → T.Matches id limit 1 inner inner' s s')
    (h : T.Beside s s') :
    T.Matches id (limit + 1) 1 (typeOver .full inner) (typeOver .full inner') s s' := by
  have henclosed {closing : Kind} (hclosing : closing ≠ .eof) (wrap : Ty → Ty)
      (hk : s.kind ≠ .eof) : T.Matches id (limit + 1) 1
        (do let _ ← Reader.advance
            let base ← inner
            let _ ← expect closing
            return wrap base)
        (do let _ ← Reader.advance
            let base ← inner'
            let _ ← expect closing
            return wrap base) s s' := by
    apply Matches.advance (starts_of_ne_eof h hk) hk
    intro h
    apply (hinner _ _ h).bind
    intro base s₁ s₁' h
    exact .expect h hclosing fun _ h => .pure h rfl
  refine .of_starts h (fun hstarts => ?_) (typeOver_eof inner)
  apply Matches.kind
  rw [hstarts.kind]
  cases hform : Grammar.full.typeForm s.kind with
  | none => exact .unexpectedBecause fun _ => hstarts
  | some form =>
    have hk := Grammar.ne_eof_of_typeForm hform
    cases form with
    | name =>
      apply Matches.stream
      rw [hstarts.value]
      cases Ty.ofName? s.current.value with
      | none => exact .unexpectedBecause fun _ => hstarts
      | some ty => exact .advance hstarts hk fun h => .pure h rfl
    | array => exact henclosed Kind.noConfusion Ty.array hk
    | dict => exact henclosed Kind.noConfusion Ty.dict hk

theorem matches_typeWithin {run run' : Nat → Reader Ty} (hrun : Unfolds (typeOver .full) run)
    (hrun' : Unfolds (typeOver .full) run') (hn : limit ≤ n) (hn' : limit ≤ n')
    (h : T.Beside s s') : T.Matches id limit 1 (run n) (run' n') s s' := by
  refine matches_of_unfolds hrun hrun' ?_ hn hn' h
  intro l _ inner inner' hinner s s' h
  exact matches_typeOver hinner h

theorem matches_type (h : T.Beside s s') :
    T.Matches id limit 1 (bounded (typeWithin .full)) (bounded (typeWithin .full)) s s' :=
  .bounded (T.size_le h) fun _ _ _ hn hn' => matches_typeWithin unfolds_type unfolds_type hn hn' h

theorem matches_ascription (h : T.Beside s s') :
    T.Matches (.move T.move) limit 1 (ascription .full) (ascription .full) s s' := by
  apply Matches.of_starts h
  · intro hstarts
    apply Matches.stream
    apply (matches_type h).bind
    intro ty s₁ s₁' h
    apply Matches.previousEnd h
    intro p
    apply Matches.pure h
    rw [Stream.position, hstarts.span]
    rfl
  · intro heof
    obtain ⟨e, hform, hrun⟩ := typeOver_eof (typeWithin .full s.rest.length) heof
    have hrun : bounded (typeWithin .full) s = (.error e, s) := hrun
    exact ⟨e, hform, by simp only [ascription, Bind.bind, Reader.stream, hrun]⟩

theorem matches_ascriptionAfter {announcing : Kind} (heof : announcing ≠ .eof)
    (hopens : ¬T.strict → announcing.opens = false) (h : T.Beside s s') :
      T.Matches (Option.map (.move T.move)) limit 0 (ascriptionAfter .full announcing)
      (ascriptionAfter .full announcing) s s' := by
  apply Matches.kind
  simp only [kind_eq_iff h hopens]
  split
  next hk =>
    apply Matches.weaken
    apply Matches.pass h (hk ▸ heof)
    intro _ h
    apply (matches_ascription h).bind
    intro a s₁ s₁' h
    exact .pure h rfl
  next => exact .pure h rfl

theorem matches_parameter (h : T.Beside s s') :
    T.Matches (.move T.move) limit 1 (parameter .full) (parameter .full) s s' := by
  apply Matches.expect h Kind.noConfusion
  intro hstarts h
  apply (matches_ascriptionAfter Kind.noConfusion (fun _ => rfl) h).bind
  intro a s₁ s₁' h
  apply Matches.previousEnd h
  intro p
  apply Matches.pure h
  rw [hstarts.value, hstarts.span]
  rfl

end Ascriptions

theorem matches_assignmentTo (h : T.Beside s s') (hk : isAssignment s.kind = true) (target : Expr) :
    T.Matches (.move T.move) limit 1 (assignmentTo .full target)
      (assignmentTo .full (target.move T.move)) s s' := by
  have hne : s.kind ≠ .eof := by
    intro heof
    rw [heof] at hk
    cases hk
  have hassign : T.Matches (Assignment.move T.move) limit 1
      (do let t ← Reader.advance
          let value ← expression .full .default
          return ⟨target, t.kind.compound?.bind Kind.binaryOp?, value, target.start,
            value.span.stop⟩)
      (do let t ← Reader.advance
          let value ← expression .full .default
          return ⟨target.move T.move, t.kind.compound?.bind Kind.binaryOp?, value,
            (target.move T.move).start, value.span.stop⟩) s s' := by
    apply Matches.pass h hne
    intro hstarts h
    apply (matches_operand .default h).bind
    intro value s₁ s₁' h
    apply Matches.pure h
    have hkind : s'.current.kind = s.current.kind := hstarts.kind
    rw [hkind, Expr.start_move, Expr.span_move]
    rfl
  have hfail (message : String) : T.Matches (Assignment.move T.move) limit 1
      (do fail ⟨.unexpectedTokenDetailed (← stream).current.value message, target.start⟩)
      (do fail ⟨.unexpectedTokenDetailed (← stream).current.value message,
        (target.move T.move).start⟩) s s' := by
    apply Matches.stream
    refine .fail rfl fun hs => ⟨?_, h⟩
    rw [(starts_of_strict h hs).value, Expr.start_move]
    rfl
  cases target with
  | symbol | subscript => exact hassign
  | number | string | boolean | binary | unary | conditional | call | member | array | dict =>
    exact hfail _

theorem matches_assignment (h : T.Beside s s') :
    T.Matches (.move T.move) limit 1 (assignment .full) (assignment .full) s s' := by
  apply (matches_operand .default h).bind
  intro target s₁ s₁' h
  apply Matches.kind
  rw [isAssignment_eq h]
  split
  next hk => exact matches_assignmentTo h hk target
  next => exact .unexpectedBecause (starts_of_strict h)

section Statements

variable {inner inner' : Reader Stmt}

theorem blockRound_eof {more : Reader (List Stmt)} (h : s.kind = .eof) :
    ∃ e : Error, e.OfForm ∧ blockRound inner more s = (.error e, s) := by
  refine ⟨s.unexpectedBecause "expected `end` to close the block", rfl, ?_⟩
  rw [blockRound, kind_bind, h, if_neg Kind.noConfusion, kind_bind, h, if_pos rfl]
  rfl

theorem matches_blockRound {more more' : Reader (List Stmt)}
    (hinner : T.Starts s s' → T.Matches (.move T.move) (limit + 1) 1 inner inner' s s')
    (hmore : ∀ s s', T.Beside s s' →
      T.Matches (List.map (.move T.move)) limit 1 more more' s s')
    (h : T.Beside s s') : T.Matches (List.map (.move T.move)) (limit + 1) 1 (blockRound inner more)
      (blockRound inner' more') s s' := by
  refine .of_starts h (fun hstarts => ?_) blockRound_eof
  apply Matches.kind
  rw [hstarts.kind]
  split
  next hk => exact .advance hstarts (hk ▸ Kind.noConfusion) fun h => .pure h rfl
  next =>
    apply Matches.kind
    rw [hstarts.kind]
    split
    next => exact .unexpectedBecause fun _ => hstarts
    next =>
      apply (hinner hstarts).onward
      intro stmt s₁ s₁' h
      apply (hmore s₁ s₁' h).bind
      intro stmts s₂ s₂' h
      exact .pure h rfl

variable (hinner : ∀ s s', T.Starts s s' → T.Matches (.move T.move) limit 1 inner inner' s s')

include hinner

theorem matches_blockWithin {run run' : Nat → Reader (List Stmt)}
    (hrun : Unfolds (blockRound inner) run)
    (hrun' : Unfolds (blockRound inner') run') (hn : limit ≤ n) (hn' : limit ≤ n')
    (h : T.Beside s s') : T.Matches (List.map (.move T.move)) limit 1 (run n) (run' n') s s' := by
  refine matches_of_unfolds hrun hrun' ?_ hn hn' h
  intro l hl more more' hmore s s' h
  exact matches_blockRound (fun h => (hinner s s' h).le hl) hmore h

theorem matches_block (h : T.Beside s s') :
    T.Matches (List.map (.move T.move)) limit 1 (block inner) (block inner') s s' := by
  intro hs hsize
  have hinner (s s' : Stream) (h : T.Starts s s') := (hinner s s' h).le hsize
  exact matches_blockWithin hinner unfolds_block unfolds_block (Nat.le_refl _) (T.size_le h) h hs
    (Nat.le_refl _)

theorem matches_functionDeclaration (h : T.Starts s s') (hk : s.kind ≠ .eof) :
    T.Matches (.move T.move) (limit + 1) 1 (functionDeclaration .full inner)
      (functionDeclaration .full inner') s s' := by
  apply Matches.advance h hk
  intro hbeside
  apply Matches.expect hbeside Kind.noConfusion
  intro hname hbeside
  apply Matches.expect hbeside Kind.noConfusion
  intro _ hbeside
  apply (matches_items Kind.noConfusion (fun _ => rfl) (fun _ _ => matches_parameter) hbeside).bind
  intro parameters s₁ s₁' hbeside
  apply (matches_ascriptionAfter Kind.noConfusion (fun _ => rfl) hbeside).bind
  intro result s₂ s₂' hbeside
  apply (matches_block hinner hbeside).bind
  intro body s₃ s₃' hbeside
  apply Matches.stream
  refine .expectOr (q := 0) hbeside Kind.noConfusion (by rfl)
    (fun hs => (starts_of_strict hbeside hs).unexpectedBecause _) ?_
  intro hclosing hbeside
  apply Matches.pure hbeside
  rw [Stmt.move_function, hname.value, hclosing.value, hclosing.span, h.span]
  rfl

theorem matches_loop (h : T.Starts s s') (hk : s.kind ≠ .eof) :
    T.Matches (.move T.move) (limit + 1) 1 (loop .full inner) (loop .full inner') s s' := by
  apply Matches.advance h hk
  intro hbeside
  apply Matches.of_starts hbeside
  · intro hstarts
    apply Matches.kind
    rw [hstarts.kind]
    split
    next hopen =>
      apply Matches.pass hbeside (hopen ▸ Kind.noConfusion)
      intro _ hbeside
      apply (matches_assignment hbeside).bind
      intro init s₁ s₁' hbeside
      apply Matches.expect hbeside Kind.noConfusion
      intro _ hbeside
      apply (matches_assignment hbeside).bind
      intro update s₂ s₂' hbeside
      apply Matches.expect hbeside Kind.noConfusion
      intro _ hbeside
      apply (matches_block hinner hbeside).bind
      intro body s₃ s₃' hbeside
      apply (matches_operand .default hbeside).bind
      intro test s₄ s₄' hbeside
      apply Matches.pure hbeside
      rw [Stmt.move_rangeFor, h.span, Expr.span_move]
      rfl
    next =>
      apply Matches.expect hbeside Kind.noConfusion
      intro hname hbeside
      apply Matches.expect hbeside Kind.noConfusion
      intro _ hbeside
      apply (matches_operand .default hbeside).bind
      intro collection s₁ s₁' hbeside
      apply (matches_block hinner hbeside).bind
      intro body s₂ s₂' hbeside
      apply Matches.expect hbeside Kind.noConfusion
      intro hclosing hbeside
      apply Matches.pure hbeside
      rw [Stmt.move_collectionFor, hname.value, hname.span, hclosing.span, h.span]
      rfl
  · intro heof
    refine ⟨s.advance.unexpected, rfl, ?_⟩
    rw [kind_bind, heof, if_neg Kind.noConfusion]
    exact expectOr_bind_of_ne (heof ▸ Kind.noConfusion)

omit hinner in
theorem matches_returnStatement (h : T.Starts s s') (hk : s.kind ≠ .eof) :
    T.Matches (.move T.move) (limit + 1) 1 (returnStatement .full)
      (returnStatement .full) s s' := by
  apply Matches.advance (q := 0) h hk
  intro hbeside
  apply Matches.stream
  -- a new line ends the statement just as the end of the text does
  have hends : (s'.advance.current.newlineBefore || s'.advance.current.kind = .endWord ||
      s'.advance.current.kind = .eof) = (s.advance.current.newlineBefore ||
      s.advance.current.kind = .endWord || s.advance.current.kind = .eof) := by
    rcases starts_or hbeside with ⟨hstarts, hnewline⟩ | ⟨-, heof, hnewline, -⟩
    · have hkind : s'.advance.current.kind = s.advance.current.kind := hstarts.kind
      rw [hnewline, hkind]
    · have heof : s.advance.current.kind = .eof := heof
      simp [heof, hnewline]
  dsimp only
  rw [hends]
  split
  next => exact .pure hbeside (congrArg (Stmt.ret none) h.span)
  next =>
    apply Matches.weaken
    apply (matches_operand .default hbeside).bind
    intro value s₁ s₁' hbeside
    apply Matches.pure hbeside
    rw [h.span, Expr.span_move]
    rfl

omit hinner in
theorem matches_plainStatement (h : T.Starts s s') :
    T.Matches (.move T.move) limit 1 (plainStatement .full) (plainStatement .full) s s' := by
  apply (matches_expression .default h).bind (q := 0)
  intro e s₁ s₁' h
  apply Matches.kind
  rw [isAssignment_eq h]
  split
  next hk =>
    apply Matches.weaken
    apply (matches_assignmentTo h hk e).bind
    intro a s₂ s₂' h
    exact .pure h rfl
  next =>
    cases e with
    | call callee args span =>
      exact .pure h (congrArg (Stmt.call _ · _) (Expr.mapSpansAll_eq_map _ args))
    | number | string | boolean | symbol | binary | unary | conditional | subscript | member | array
    | dict => exact .unexpectedBecause (starts_of_strict h)

theorem matches_statementOver (h : T.Starts s s') :
    T.Matches (.move T.move) (limit + 1) 1 (statementOver .full inner)
      (statementOver .full inner') s s' := by
  apply Matches.kind
  rw [h.kind]
  cases hform : Grammar.full.opening s.kind with
  | none => exact matches_plainStatement h
  | some form =>
    have hk := Grammar.ne_eof_of_opening hform
    cases form with
    | function => exact matches_functionDeclaration hinner h hk
    | loop => exact matches_loop hinner h hk
    | ret => exact matches_returnStatement h hk
    | brk => exact .token h hk (congrArg Stmt.brk h.span)

end Statements

theorem matches_statementWithin {run run' : Nat → Reader Stmt}
    (hrun : Unfolds (statementOver .full) run)
    (hrun' : Unfolds (statementOver .full) run') (hn : limit ≤ n) (hn' : limit ≤ n')
    (h : T.Starts s s') : T.Matches (.move T.move) limit 1 (run n) (run' n') s s' := by
  refine hrun.related
    (R := fun l r r' => ∀ s s', T.Starts s s' → T.Matches (.move T.move) l 1 r r' s s')
    hrun' (fun _ _ _ _ _ => .zero) ?_ hn hn' s s' h
  intro l _ inner inner' hinner s s' h
  exact matches_statementOver hinner h

/-- Both runs read the same statement, and at least one token of it. -/
theorem matches_statement (h : T.Starts s s') :
    T.Matches (.move T.move) limit 1 (statement .full) (statement .full) s s' :=
  .bounded h.size_le fun _ _ _ hn hn' =>
    matches_statementWithin unfolds_statement unfolds_statement hn hn' h

section Programs

variable (hs : T.strict)

include hs

theorem matches_statementsRound {more more' : Reader (List Stmt)}
    (hmore : ∀ s s', T.Beside s s' →
      T.Matches (List.map (.move T.move)) limit 0 more more' s s')
    (h : T.Beside s s') :
      T.Matches (List.map (.move T.move)) (limit + 1) 0 (statementsRound .full more)
      (statementsRound .full more') s s' := by
  have hstarts := starts_of_strict h hs
  apply Matches.kind
  rw [hstarts.kind]
  split
  next => exact .pure h rfl
  next =>
    apply Matches.weaken
    apply (matches_statement hstarts).onward
    intro stmt s₁ s₁' h
    apply (hmore s₁ s₁' h).bind
    intro stmts s₂ s₂' h
    exact .pure h rfl

theorem matches_statementsWithin {run run' : Nat → Reader (List Stmt)}
    (hrun : Unfolds (statementsRound .full) run)
    (hrun' : Unfolds (statementsRound .full) run') (hn : limit ≤ n) (hn' : limit ≤ n')
    (h : T.Beside s s') : T.Matches (List.map (.move T.move)) limit 0 (run n) (run' n') s s' := by
  refine matches_of_unfolds hrun hrun' ?_ hn hn' h
  intro l _ more more' hmore s s' h
  exact matches_statementsRound hs hmore h

theorem matches_program (h : T.Beside s s') :
    T.Matches (.move T.move) limit 0 program program s s' := by
  have hstatements : T.Matches (List.map (.move T.move)) limit 0
      (bounded (statementsWithin .full)) (bounded (statementsWithin .full)) s s' :=
    .bounded (T.size_le h) fun _ _ _ hn hn' =>
      matches_statementsWithin hs unfolds_statements unfolds_statements hn hn' h
  apply hstatements.bind
  intro stmts s₁ s₁' h
  exact .pure h rfl

end Programs

end Tandem
end Scriptor
