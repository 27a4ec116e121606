import Scriptor.Proofs.Reading.Derivation
import Scriptor.Reader.Expression

namespace Scriptor

namespace Power

/-- The layer of the expressions read at a power. The operand of a prefix operator is of the layer
of the operator. -/
def operand : Power → Power
  | .unary => .unary
  | p => p.tighter

/-- The power at which the last part of an expression of the layer is read. -/
def bound : Power → Power
  | .conditional => .default
  | .exponent => .unary
  | q => q

theorem operand_rank_le {p q : Power} (h : p.rank < q.rank) : p.operand.rank ≤ q.rank := by
  cases p with
  | unary => exact Nat.le_of_lt h
  | primary => exact Nat.le_of_lt h
  | _ => exact h

theorem operand_rank_le_unary {p : Power} (h : p.rank ≤ Power.unary.rank) :
    p.operand.rank ≤ Power.unary.rank := by
  revert h
  cases p <;> decide

theorem logicalOr_rank_le {q : Power} (h : Power.conditional.rank ≤ q.bound.rank) :
    Power.logicalOr.rank ≤ q.rank := by
  revert h
  cases q <;> decide

theorem call_rank_le {q : Power} (h : Power.call.rank ≤ q.bound.rank) :
    Power.call.rank ≤ q.rank := by
  revert h
  cases q <;> decide

end Power

namespace BinaryOp

theorem layer_rank_le (op : BinaryOp) : op.layer.rank ≤ Power.call.rank := by
  cases op <;> decide

theorem leftLayer_rank_le {op : BinaryOp} {q : Power} (h : op.layer.rank ≤ q.bound.rank) :
    op.leftLayer.rank ≤ q.rank := by
  revert h
  cases op <;> cases q <;> decide

theorem operand_bound_layer (op : BinaryOp) : op.layer.bound.operand = op.rightLayer := by
  cases op <;> rfl

theorem bound_layer_rank_le (op : BinaryOp) : op.layer.bound.rank ≤ Power.unary.rank := by
  cases op <;> decide

end BinaryOp

def Leading.kind : Leading → Kind
  | .number => .number
  | .string => .string
  | .boolean value => .ofBool value
  | .symbol => .identifier
  | .unary op => op.kind
  | .group => .openParen
  | .array => .openBracket
  | .dict => .openDict

def Trailing.kind : Trailing → Kind
  | .binary op _ => op.kind
  | .conditional => .question
  | .call => .openParen
  | .subscript => .openBracket
  | .member => .dot

def Trailing.layer : Trailing → Power
  | .binary op _ => op.layer
  | .conditional => .conditional
  | .call | .subscript | .member => .call

theorem Trailing.layer_rank_le (form : Trailing) : form.layer.rank ≤ Power.call.rank := by
  cases form with
  | binary op right => exact op.layer_rank_le
  | _ => decide

namespace Grammar

theorem kind_of_leading {k : Kind} {form : Leading} (h : full.leading k = some form) :
    k = form.kind := by
  cases k <;> cases h <;> rfl

theorem layer_of_trailing {k : Kind} {p : Power} {form : Trailing}
    (h : full.trailing k = some (p, form)) : p = form.layer := by
  cases k <;> cases h <;> rfl

theorem kind_of_trailing {k : Kind} {p : Power} {form : Trailing}
    (h : full.trailing k = some (p, form)) : k = form.kind := by
  cases k <;> cases h <;> rfl

theorem right_of_trailing {k : Kind} {p right : Power} {op : BinaryOp}
    (h : full.trailing k = some (p, .binary op right)) : right = op.layer.bound := by
  cases k <;> cases h <;> rfl

end Grammar

namespace Reader

section Continuation

variable {p q : Power} {t : Token} {form : Trailing}

theorem continuation?_eq_some_iff : continuation? .full p t = some form ↔
    t.newlineBefore = false ∧ Grammar.full.trailing t.kind = some (form.layer, form) ∧
    p.rank < form.layer.rank := by
  constructor
  · intro h
    rw [continuation?] at h
    split at h
    next => cases h
    next hline =>
      split at h
      next layer form' htable =>
        obtain ⟨hlt, hform⟩ := Option.ite_none_right_eq_some.1 h
        cases hform
        obtain rfl := Grammar.layer_of_trailing htable
        exact ⟨Bool.not_eq_true _ ▸ hline, htable, hlt⟩
      next => cases h
  · intro h
    obtain ⟨hline, htable, hlt⟩ := h
    simp only [continuation?, hline, htable, hlt, if_true, Bool.false_eq_true, if_false]

/-- A token that does not continue an expression at one power continues it only at a looser one. -/
theorem layer_rank_le_of_continuation? (hq : continuation? .full q t = none)
    (hp : continuation? .full p t = some form) : form.layer.rank ≤ q.rank := by
  by_contra hlt
  obtain ⟨hline, htable, -⟩ := continuation?_eq_some_iff.1 hp
  rw [continuation?_eq_some_iff.2 ⟨hline, htable, Nat.lt_of_not_le hlt⟩] at hq
  cases hq

theorem continuation?_eq_none_of_le (hp : continuation? .full p t = none)
    (hpq : p.rank ≤ q.rank) : continuation? .full q t = none := by
  apply Option.eq_none_iff_forall_ne_some.2
  intro form h
  have hle := layer_rank_le_of_continuation? hp h
  have hlt := (continuation?_eq_some_iff.1 h).2.2
  omega

theorem continuation?_eq_none_of_call_le (hq : Power.call.rank ≤ q.rank) :
    continuation? .full q t = none := by
  apply Option.eq_none_iff_forall_ne_some.2
  intro form h
  have hle := form.layer_rank_le
  have hlt := (continuation?_eq_some_iff.1 h).2.2
  omega

end Continuation

/-- Whether what is read at a power is derived in the layer of that power, and ends where nothing
continues it. -/
def Sound (inner : Power → Reader Expr) : Prop :=
  ∀ (p : Power) (s : Stream) (e : Expr) (s' : Stream), p.rank ≤ Power.unary.rank → s.Ends →
    Reads (inner p) s e s' →
    ∃ w, s.Passed w s' ∧ DerivesAt Eq p.operand w e ∧ continuation? .full p s'.current = none

section Forms

variable {inner : Power → Reader Expr} {s s' : Stream} {e : Expr}

theorem Sound.phrase (h : Sound inner) (s : Stream) (e : Expr) (s' : Stream) (hs : s.Ends)
    (he : Reads (inner .default) s e s') :
    ∃ p : Phrase, DerivesAt Eq .conditional p.tokens p.value ∧ p.value = e ∧
      s.Passed p.tokens s' := by
  obtain ⟨w, hw, hd, -⟩ := h .default s e s' (by decide) hs he
  exact ⟨⟨w, e⟩, hd, rfl, hw⟩

theorem Sound.entryPhrase (h : Sound inner) (s : Stream) (e : Expr × Expr)
    (s' : Stream) (hs : s.Ends) (he : Reads (entry inner) s e s') :
    ∃ p : EntryPhrase,
      (DerivesAt Eq .conditional p.key.tokens p.key.value ∧ p.colon.kind = .colon ∧
      DerivesAt Eq .conditional p.value.tokens p.value.value) ∧
        (p.key.value, p.value.value) = e ∧
      s.Passed p.tokens s' := by
  obtain ⟨key, s₁, hkey, he⟩ := reads_bind.1 he
  obtain ⟨hcolon, he⟩ := reads_expect_bind.1 he
  obtain ⟨value, s₂, hvalue, he⟩ := reads_bind.1 he
  obtain ⟨rfl, rfl⟩ := reads_pure.1 he
  obtain ⟨k, hk, rfl, hks⟩ := h.phrase _ _ _ hs hkey
  have hpassed := Stream.Passed.advance (hks.ends hs) (hcolon ▸ Kind.noConfusion)
  obtain ⟨v, hv, rfl, hvs⟩ := h.phrase _ _ _ (hpassed.ends (hks.ends hs)) hvalue
  exact ⟨⟨k, s₁.current, v⟩, ⟨hk, hcolon, hv⟩, rfl, hks.trans (hpassed.trans hvs)⟩

theorem Sound.leading (h : Sound inner) {form : Leading} (hs : s.Ends)
    (hform : Grammar.full.leading s.kind = some form) (he : Reads (leading inner form) s e s') :
    ∃ w q, s.Passed w s' ∧ DerivesAt Eq q w e ∧ Power.unary.rank ≤ q.rank ∧
      continuation? .full q.bound s'.current = none := by
  have hkind := Grammar.kind_of_leading hform
  have hne : s.kind ≠ .eof := by
    intro heof
    rw [heof] at hform
    cases hform
  have hpassed := Stream.Passed.advance hs hne
  have hs₁ := hpassed.ends hs
  have hprimary {w : List Token} (hw : s.Passed w s') (hd : DerivesAt Eq .primary w e) :
      ∃ w q, s.Passed w s' ∧ DerivesAt Eq q w e ∧ Power.unary.rank ≤ q.rank ∧
        continuation? .full q.bound s'.current = none :=
    ⟨w, .primary, hw, hd, by decide, continuation?_eq_none_of_call_le (by decide)⟩
  cases form with
  | number =>
    rw [Reader.leading, reads_advance_bind, reads_pure] at he
    obtain ⟨rfl, rfl⟩ := he
    exact hprimary hpassed (.number hkind rfl)
  | string =>
    rw [Reader.leading, reads_advance_bind, reads_pure] at he
    obtain ⟨rfl, rfl⟩ := he
    exact hprimary hpassed (.string hkind rfl)
  | boolean value =>
    rw [Reader.leading, reads_advance_bind, reads_pure] at he
    obtain ⟨rfl, rfl⟩ := he
    exact hprimary hpassed (.boolean hkind rfl)
  | symbol =>
    rw [Reader.leading, reads_advance_bind, reads_pure] at he
    obtain ⟨rfl, rfl⟩ := he
    exact hprimary hpassed (.symbol hkind rfl)
  | unary op =>
    obtain ⟨operand, s₂, ho, he⟩ := reads_bind.1 (reads_advance_bind.1 he)
    obtain ⟨rfl, rfl⟩ := reads_pure.1 he
    obtain ⟨w, hw, hd, hstop⟩ := h .unary _ _ _ (by decide) hs₁ ho
    exact ⟨s.current :: w, .unary, hpassed.trans hw, .unary hkind hd rfl, by decide, hstop⟩
  | group =>
    obtain ⟨e', s₂, he', he⟩ := reads_bind.1 (reads_advance_bind.1 he)
    obtain ⟨hclose, he⟩ := reads_expect_bind.1 he
    obtain ⟨rfl, rfl⟩ := reads_pure.1 he
    obtain ⟨w, hw, hd, -⟩ := h .default _ _ _ (by decide) hs₁ he'
    have hlast := Stream.Passed.advance (hw.ends hs₁) (hclose ▸ Kind.noConfusion)
    exact hprimary (hpassed.trans (hw.trans hlast)) (.group hkind hd hclose)
  | array =>
    obtain ⟨elements, s₂, hitems, he⟩ := reads_bind.1 (reads_advance_bind.1 he)
    rw [reads_previousEnd_bind, reads_pure] at he
    obtain ⟨rfl, rfl⟩ := he
    obtain ⟨ps, ws, t, rfl, hps, hsep, ht, hws⟩ :=
      reads_itemsWithin (by decide) h.phrase hs₁ hitems
    have hspan := congrArg (Span.mk s.current.span.start) hws.previousEnd_concat
    exact hprimary (hpassed.trans hws) (.array hkind hps hsep ht hspan)
  | dict =>
    obtain ⟨entries, s₂, hitems, he⟩ := reads_bind.1 (reads_advance_bind.1 he)
    rw [reads_previousEnd_bind, reads_pure] at he
    obtain ⟨rfl, rfl⟩ := he
    obtain ⟨ps, ws, t, rfl, hps, hsep, ht, hws⟩ :=
      reads_itemsWithin (by decide) h.entryPhrase hs₁ hitems
    have hspan := congrArg (Span.mk s.current.span.start) hws.previousEnd_concat
    exact hprimary (hpassed.trans hws)
      (.dict hkind (fun p hp => (hps p hp).1) (fun p hp => (hps p hp).2.1)
      (fun p hp => (hps p hp).2.2) hsep ht hspan)

theorem Sound.trailing (h : Sound inner) {left : Expr} {form : Trailing} {p q : Power}
    {w : List Token} (hs : s.Ends)
    (hleft : DerivesAt Eq q w left) (hstop : continuation? .full q.bound s.current = none)
    (hform : continuation? .full p s.current = some form)
    (he : Reads (trailing inner left form) s e s') :
    ∃ w' q', s.Passed w' s' ∧ w' ≠ [] ∧ DerivesAt Eq q' (w ++ w') e ∧
      p.operand.rank ≤ q'.rank ∧ continuation? .full q'.bound s'.current = none := by
  obtain ⟨hline, htable, hlt⟩ := continuation?_eq_some_iff.1 hform
  have hkind := Grammar.kind_of_trailing htable
  -- no form of the layer of `left` goes on here, so this one is of a looser layer
  have hlayer := layer_rank_le_of_continuation? hstop hform
  have hne : s.kind ≠ .eof := by
    intro heof
    rw [← Stream.kind, heof] at htable
    cases htable
  have hpassed := Stream.Passed.advance hs hne
  have hs₁ := hpassed.ends hs
  have hoperand := Power.operand_rank_le hlt
  have hpostfix {w' : List Token} (hw' : s.Passed (s.current :: w') s')
      (hp : p.operand.rank ≤ Power.call.rank) (hd : DerivesAt Eq .call (w ++ s.current :: w') e) :
      ∃ w' q', s.Passed w' s' ∧ w' ≠ [] ∧ DerivesAt Eq q' (w ++ w') e ∧
        p.operand.rank ≤ q'.rank ∧ continuation? .full q'.bound s'.current = none :=
    ⟨_, .call, hw', List.cons_ne_nil _ _, hd, hp,
      continuation?_eq_none_of_call_le (Nat.le_refl _)⟩
  cases form with
  | binary op right =>
    obtain rfl := Grammar.right_of_trailing htable
    obtain ⟨e', s₂, he', he⟩ := reads_bind.1 (reads_advance_bind.1 he)
    obtain ⟨rfl, rfl⟩ := reads_pure.1 he
    obtain ⟨w', hw', hd, hstop⟩ := h _ _ _ _ op.bound_layer_rank_le hs₁ he'
    rw [op.operand_bound_layer] at hd
    exact ⟨s.current :: w', op.layer, hpassed.trans hw', List.cons_ne_nil _ _,
      .binary (hleft.loosen (op.leftLayer_rank_le hlayer)) hkind hline hd rfl, hoperand, hstop⟩
  | conditional =>
    obtain ⟨consequent, s₂, hc, he⟩ := reads_bind.1 (reads_advance_bind.1 he)
    obtain ⟨hcolon, he⟩ := reads_expect_bind.1 he
    obtain ⟨alternate, s₃, ha, he⟩ := reads_bind.1 he
    obtain ⟨rfl, rfl⟩ := reads_pure.1 he
    obtain ⟨w₁, hw₁, hd₁, -⟩ := h .default _ _ _ (by decide) hs₁ hc
    have hmark := Stream.Passed.advance (hw₁.ends hs₁) (hcolon ▸ Kind.noConfusion)
    obtain ⟨w₂, hw₂, hd₂, hstop₂⟩ :=
      h .default _ _ _ (by decide) (hmark.ends (hw₁.ends hs₁)) ha
    have htest : DerivesAt Eq .logicalOr w left := hleft.loosen (Power.logicalOr_rank_le hlayer)
    exact ⟨s.current :: (w₁ ++ s₂.current :: w₂), .conditional,
      hpassed.trans (hw₁.trans (hmark.trans hw₂)), List.cons_ne_nil _ _,
      .conditional htest hkind hline hd₁ hcolon hd₂ rfl, hoperand, hstop₂⟩
  | call =>
    obtain ⟨arguments, s₂, hitems, he⟩ := reads_bind.1 (reads_advance_bind.1 he)
    rw [reads_previousEnd_bind, reads_pure] at he
    obtain ⟨rfl, rfl⟩ := he
    obtain ⟨ps, ws, t, rfl, hps, hsep, ht, hws⟩ :=
      reads_itemsWithin (by decide) h.phrase hs₁ hitems
    have hcallee := hleft.loosen (Power.call_rank_le hlayer)
    have hspan := congrArg (Span.mk left.start) hws.previousEnd_concat
    exact hpostfix (hpassed.trans hws) hoperand (.call hcallee hkind hline hps hsep ht hspan)
  | subscript =>
    obtain ⟨index, s₂, hi, he⟩ := reads_bind.1 (reads_advance_bind.1 he)
    obtain ⟨hclose, he⟩ := reads_expect_bind.1 he
    rw [reads_previousEnd_bind, reads_pure] at he
    obtain ⟨rfl, rfl⟩ := he
    obtain ⟨w', hw', hd, -⟩ := h .default _ _ _ (by decide) hs₁ hi
    have hlast := hw'.trans (.advance (hw'.ends hs₁) (hclose ▸ Kind.noConfusion))
    have hindexed := hleft.loosen (Power.call_rank_le hlayer)
    have hspan := congrArg (Span.mk left.start) hlast.previousEnd_concat
    exact hpostfix (hpassed.trans hlast) hoperand (.subscript hindexed hkind hline hd hclose hspan)
  | member =>
    obtain ⟨hname, he⟩ := reads_expect_bind.1 (reads_advance_bind.1 he)
    obtain ⟨rfl, rfl⟩ := reads_pure.1 he
    have hobject := hleft.loosen (Power.call_rank_le hlayer)
    have hlast := Stream.Passed.advance hs₁ (hname ▸ Kind.noConfusion)
    exact hpostfix (hpassed.trans hlast) hoperand (.member hobject hkind hline hname rfl rfl)

end Forms

section Loop

variable {inner : Power → Reader Expr} {s s' : Stream} {e left : Expr} {p q : Power}
  {w : List Token}

/-- Each round passes a token, so the bound is never reached. -/
theorem Sound.continueWithin (h : Sound inner) {bound : Nat} (hs : s.Ends)
    (hbound : s.size ≤ bound) (hleft : DerivesAt Eq q w left) (hq : p.operand.rank ≤ q.rank)
    (hstop : continuation? .full q.bound s.current = none)
    (he : Reads (continueWithin .full inner p bound left) s e s') :
    ∃ w', s.Passed w' s' ∧ DerivesAt Eq p.operand (w ++ w') e ∧
      continuation? .full p s'.current = none := by
  -- the layer of `left` changes from round to round; nothing of that layer ever continues `left`
  induction bound generalizing s left w q with
  | zero => cases hbound
  | succ bound ih =>
    rw [Reader.continueWithin, Reader.continueRound, reads_stream_bind] at he
    split at he
    next form hform =>
      obtain ⟨left', s₁, hleft', he⟩ := reads_bind.1 he
      obtain ⟨w₁, q₁, hw₁, hne, hd₁, hq₁, hstop₁⟩ :=
        h.trailing hs hleft hstop hform hleft'
      have hsize : s₁.size ≤ bound :=
        Nat.le_of_lt_succ (Nat.lt_of_lt_of_le (hw₁.size_lt hne) hbound)
      obtain ⟨w₂, hw₂, hd₂, hstop₂⟩ := ih (hw₁.ends hs) hsize hd₁ hq₁ hstop₁ he
      refine ⟨w₁ ++ w₂, hw₁.trans hw₂, ?_, hstop₂⟩
      rwa [← List.append_assoc]
    next hform =>
      obtain ⟨rfl, rfl⟩ := reads_pure.1 he
      refine ⟨[], .refl s', ?_, hform⟩
      rw [List.append_nil]
      exact hleft.loosen hq

theorem Sound.expressionOver (h : Sound inner) : Sound (expressionOver .full inner) := by
  intro p s e s' hp hs he
  rw [Reader.expressionOver, reads_kind_bind] at he
  split at he
  next form hform =>
    obtain ⟨left, s₁, hleft, he⟩ := reads_bind.1 he
    obtain ⟨w, q, hw, hd, hq, hstop⟩ := h.leading hs hform hleft
    have hpq : p.operand.rank ≤ q.rank := Nat.le_trans (Power.operand_rank_le_unary hp) hq
    obtain ⟨w', hw', hd', hstop'⟩ :=
      h.continueWithin (hw.ends hs) (Nat.le_refl _) hd hpq hstop he
    exact ⟨w ++ w', hw.trans hw', hd', hstop'⟩
  next => exact absurd he not_reads_unexpected

theorem sound_expressionWithin (depth : Nat) : Sound (expressionWithin .full depth) := by
  induction depth with
  | zero =>
    intro p s e s' _ _ he
    exact absurd he not_reads_unexpected
  | succ depth ih => exact ih.expressionOver

end Loop

end Reader
end Scriptor
