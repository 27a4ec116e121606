import Scriptor.Proofs.Reading.Soundness
import Scriptor.Proofs.Spans

namespace Scriptor

theorem map_eq_map_of_forall₂ {α β γ : Type} {f : α → γ} {g : β → γ}
    {as : List α} {bs : List β}
    (h : List.Forall₂ (fun a b => g b = f a) as bs) : as.map f = bs.map g := by
  induction h with
  | nil => rfl
  | cons hab _ ih => rw [List.map_cons, List.map_cons, hab, ih]

namespace Power

theorem rank_le_bound {p q : Power} (hp : p.rank ≤ Power.unary.rank)
    (h : p.operand.rank ≤ q.rank) : p.rank ≤ q.bound.rank := by
  revert hp h
  cases p <;> cases q <;> decide

theorem rank_lt_of_operand_rank_le {p q : Power} (hp : p.rank ≤ Power.unary.rank)
    (hq : q ≠ .unary) (h : p.operand.rank ≤ q.rank) : p.rank < q.rank := by
  revert hp hq h
  cases p <;> cases q <;> decide

theorem rank_le_tighter (q : Power) : q.rank ≤ q.tighter.rank := by
  cases q <;> decide

theorem bound_rank_le_tighter (q : Power) : q.bound.rank ≤ q.tighter.bound.rank := by
  cases q <;> decide

end Power

namespace BinaryOp

theorem layer_ne_unary (op : BinaryOp) : op.layer ≠ .unary := by
  cases op <;> decide

theorem layer_rank_le_leftLayer (op : BinaryOp) : op.layer.rank ≤ op.leftLayer.rank := by
  cases op <;> decide

theorem layer_rank_le_bound_leftLayer (op : BinaryOp) :
    op.layer.rank ≤ op.leftLayer.bound.rank := by
  cases op <;> decide

end BinaryOp

theorem Trailing.default_rank_lt (form : Trailing) : Power.default.rank < form.layer.rank := by
  cases form with
  | binary op right => exact op.default_rank_lt
  | _ => decide

namespace Grammar

theorem trailing_kind (op : BinaryOp) :
    full.trailing op.kind = some (op.layer, .binary op op.layer.bound) := by
  cases op <;> rfl

theorem leading_kind (form : Leading) : full.leading form.kind = some form := by
  cases form with
  | boolean value => cases value <;> rfl
  | unary op => cases op <;> rfl
  | _ => rfl

end Grammar

namespace Reader

/-- Whether reading at `p` comes to the end of `w`, before `next`, with the expression `e` up to
spans. -/
def Arrives (depth : Nat) (p : Power) (w : List Token) (next : Token) (e : Expr) : Prop :=
  ∀ s rest, s.tokens = w ++ next :: rest →
    ∃ form left s₁ rounds e' s',
      Grammar.full.leading s.kind = some form ∧
      Reads (leading (expressionWithin .full depth) form) s left s₁ ∧
      -- the loop takes `left` to `e'` in some rounds, for which the bound is large enough
      (∀ bound e₁ s₂, Reads (continueWithin .full (expressionWithin .full depth) p bound e')
        s' e₁ s₂ →
        Reads (continueWithin .full (expressionWithin .full depth) p (bound + rounds) left) s₁
        e₁ s₂) ∧
      rounds + s'.size ≤ s₁.size ∧ s'.tokens = next :: rest ∧ e'.bare = e.bare

section Arrival

variable {depth : Nat} {p : Power} {w w' : List Token} {t next : Token} {e e' : Expr}

theorem Arrives.start (form : Leading) (ht : t.kind = form.kind)
    (h : Takes (leading (expressionWithin .full depth) form) (t :: w) next (·.bare = e.bare)) :
    Arrives depth p (t :: w) next e := by
  intro s rest hs
  obtain ⟨e', s', he, hs', hbare⟩ := h s rest hs
  have hform : Grammar.full.leading s.kind = some form := by
    rw [Stream.kind, current_eq hs, lead, ht, Grammar.leading_kind]
  exact ⟨form, e', s', 0, e', s', hform, he, fun _ _ _ h =>
    h, Nat.le_of_eq (Nat.zero_add _), hs', hbare⟩

theorem Arrives.step (form : Trailing) (h : Arrives depth p w t e)
    (hform : continuation? .full p t = some form) (hr : ∀ left : Expr, left.bare = e.bare →
      Takes (trailing (expressionWithin .full depth) left form)
        (t :: w') next (·.bare = e'.bare)) :
    Arrives depth p (w ++ t :: w') next e' := by
  intro s rest hs
  rw [List.append_assoc, List.cons_append] at hs
  obtain ⟨leading, left, s₁, rounds, e₁, s₂, hleading, hleft, hrun, hsize, hs₂,
    hbare⟩ := h s _ hs
  obtain ⟨e₂, s₃, he₂, hs₃, hbare₂⟩ := hr e₁ hbare s₂ rest hs₂
  refine ⟨leading, left, s₁, rounds + 1, e₂, s₃, hleading, hleft, ?_, ?_, hs₃, hbare₂⟩
  · intro bound e₃ s₄ h
    have hround : Reads (continueWithin .full (expressionWithin .full depth) p (bound + 1) e₁)
        s₂ e₃ s₄ := by
      rw [continueWithin, continueRound, reads_stream_bind, current_eq (w := []) hs₂, lead, hform]
      exact reads_bind.2 ⟨e₂, s₃, he₂, h⟩
    have hrounds := hrun (bound + 1) e₃ s₄ hround
    rwa [Nat.add_right_comm, Nat.add_assoc] at hrounds
  · have h₂ := congrArg List.length hs₂
    have h₃ := congrArg List.length hs₃
    rw [Stream.length_tokens] at h₂ h₃
    rw [List.length_cons, List.length_append, List.length_cons] at h₂
    rw [List.length_cons] at h₃
    omega

theorem Arrives.takes (h : Arrives depth p w next e) (hstop : continuation? .full p next = none) :
    Takes (expressionWithin .full (depth + 1) p) w next (·.bare = e.bare) := by
  intro s rest hs
  obtain ⟨leading, left, s₁, rounds, e', s', hleading, hleft, hrun, hsize, hs', hbare⟩ :=
    h s rest hs
  refine ⟨e', s', ?_, hs', hbare⟩
  have hend (bound : Nat) :
      Reads (continueWithin .full (expressionWithin .full depth) p (bound + 1) e') s' e' s' := by
    rw [continueWithin, continueRound, reads_stream_bind, current_eq (w := []) hs', lead, hstop]
    exact reads_pure.2 ⟨rfl, rfl⟩
  -- the rounds leave some of the bound for the round that stops
  have hbound : s'.rest.length + (s₁.size - (rounds + s'.size)) + 1 + rounds = s₁.size := by
    have hs' : s'.size = s'.rest.length + 1 := rfl
    omega
  have hloop := hrun _ e' s' (hend (s'.rest.length + (s₁.size - (rounds + s'.size))))
  rw [hbound] at hloop
  rw [expressionWithin, expressionOver, reads_kind_bind, hleading]
  exact reads_bind.2 ⟨left, s₁, hleft, hloop⟩

end Arrival

/-- Whether reading at every power at which the layer is read arrives at the expression. -/
def Reached (q : Power) (w : List Token) (e : Expr) : Prop :=
  ∀ depth p next, w.length ≤ depth + 1 → p.rank ≤ Power.unary.rank →
    p.operand.rank ≤ q.rank →
    continuation? .full q.bound next = none → Arrives depth p w next e

section Phrases

variable {depth : Nat} {p q : Power} {w ws : List Token} {t next : Token} {e : Expr}

theorem continuation?_eq_none_of_trailing (h : Grammar.full.trailing t.kind = none) :
    continuation? .full p t = none := by
  apply Option.eq_none_iff_forall_ne_some.2
  intro form hform
  rw [(continuation?_eq_some_iff.1 hform).2.1] at h
  cases h

theorem Reached.step (h : Reached q w e) (form : Trailing) {w' : List Token} {e' : Expr}
    (hform : Grammar.full.trailing t.kind = some (form.layer, form))
    (hline : t.newlineBefore = false)
    (hw : w.length ≤ depth + 1) (hp : p.rank ≤ Power.unary.rank)
    (hpq : p.operand.rank ≤ q.rank)
    (hlt : p.rank < form.layer.rank) (hle : form.layer.rank ≤ q.bound.rank)
    (hr : ∀ left : Expr, left.bare = e.bare →
      Takes (trailing (expressionWithin .full depth) left form)
        (t :: w') next (·.bare = e'.bare)) :
    Arrives depth p (w ++ t :: w') next e' := by
  have hstop : continuation? .full q.bound t = none := by
    apply Option.eq_none_iff_forall_ne_some.2
    intro form' hform'
    obtain ⟨-, htable, hlt'⟩ := continuation?_eq_some_iff.1 hform'
    obtain rfl : form = form' := congrArg Prod.snd (Option.some.inj (hform.symm.trans htable))
    exact Nat.not_lt_of_le hle hlt'
  exact (h depth p t hw hp hpq hstop).step form
    (continuation?_eq_some_iff.2 ⟨hline, hform, hlt⟩) hr

theorem Reached.takes (h : Reached q w e) (hd : Derives q w e) (hw : w.length ≤ depth)
    (hp : p.rank ≤ Power.unary.rank) (hpq : p.operand.rank ≤ q.rank)
    (hstop : continuation? .full p next = none) :
    Takes (expressionWithin .full depth p) w next (·.bare = e.bare) := by
  cases depth with
  | zero => exact absurd (List.eq_nil_of_length_eq_zero (Nat.le_zero.1 hw)) hd.ne_nil
  | succ depth =>
    have hstop' := continuation?_eq_none_of_le hstop (Power.rank_le_bound hp hpq)
    exact (h depth p next hw hp hpq hstop').takes hstop

/-- Whether a token of this kind neither opens nor continues an expression. -/
def Closes (k : Kind) : Prop :=
  Grammar.full.leading k = none ∧ Grammar.full.trailing k = none ∧ k ≠ .comma

theorem Closes.continuation? {k : Kind} (hk : Closes k) (h : t.kind = .comma ∨ t.kind = k) :
    continuation? .full p t = none := by
  apply continuation?_eq_none_of_trailing
  rcases h with h | h
  · rw [h]
    rfl
  · rw [h, hk.2.1]

theorem takes_items {α γ : Type} {item : Reader α} {tokensOf : γ → List Token}
    {good : γ → α → Prop} {closing : Kind}
    {message : String} {cs : List γ} (hclosing : Closes closing)
    (hsep : Separated (cs.map tokensOf) ws) (ht : t.kind = closing)
    (hlead : ∀ c ∈ cs, ∀ next, Grammar.full.leading (lead (tokensOf c) next).kind ≠ none)
    (hitem : ∀ c ∈ cs, ∀ next, continuation? .full .default next = none →
      Takes item (tokensOf c) next (good c)) :
    Takes (items item closing message) (ws ++ [t]) next (List.Forall₂ good cs) := by
  apply Takes.bounded
  intro bound hbound
  rw [List.length_append] at hbound
  apply takes_itemsWithin hclosing.2.2 hsep ht
  · intro c hc
    constructor
    · intro next hk
      exact hlead c hc next (hk ▸ hclosing.1)
    · intro next hnext
      exact hitem c hc next (hclosing.continuation? hnext)
  · omega

theorem takes_phrases {closing : Kind} (hclosing : Closes closing) {message : String}
    {ps : List Phrase} (hd : ∀ p ∈ ps, Derives .conditional p.tokens p.value)
    (hps : ∀ p ∈ ps, Reached .conditional p.tokens p.value)
    (hsep : Separated (ps.map Phrase.tokens) ws) (ht : t.kind = closing)
    (hdepth : ws.length ≤ depth) :
    Takes (items (expressionWithin .full depth .default) closing message) (ws ++ [t]) next
      (·.map Expr.bare = (ps.map Phrase.value).map Expr.bare) := by
  have hitem : ∀ p ∈ ps, ∀ next, continuation? .full .default next = none →
      Takes (expressionWithin .full depth .default) p.tokens next (·.bare = p.value.bare) := by
    intro p hp next hnext
    have hle := hsep.length_le (List.mem_map_of_mem hp)
    exact (hps p hp).takes (hd p hp) (Nat.le_trans hle hdepth) (by decide) (by decide) hnext
  apply (takes_items hclosing hsep ht (fun p hp => (hd p hp).leading_ne_none) hitem).imp
  intro es hes
  rw [List.map_map]
  exact (map_eq_map_of_forall₂ hes).symm

theorem takes_entryPhrases {message : String} {ps : List EntryPhrase}
    (hkeys : ∀ p ∈ ps, Derives .conditional p.key.tokens p.key.value)
    (hcolons : ∀ p ∈ ps, p.colon.kind = .colon)
    (hvalues : ∀ p ∈ ps, Derives .conditional p.value.tokens p.value.value)
    (hks : ∀ p ∈ ps, Reached .conditional p.key.tokens p.key.value)
    (hvs : ∀ p ∈ ps, Reached .conditional p.value.tokens p.value.value)
    (hsep : Separated (ps.map EntryPhrase.tokens) ws) (ht : t.kind = .closeDict)
    (hdepth : ws.length ≤ depth) :
    Takes (items (entry (expressionWithin .full depth)) .closeDict message) (ws ++ [t]) next
      (fun es => es.map (fun p => (p.1.bare, p.2.bare)) =
        (ps.map fun p => (p.key.value, p.value.value)).map fun p => (p.1.bare, p.2.bare)) := by
  have hitem : ∀ p ∈ ps, ∀ next, continuation? .full .default next = none →
      Takes (entry (expressionWithin .full depth)) p.tokens next
        (fun e => (e.1.bare, e.2.bare) = (p.key.value.bare, p.value.value.bare)) := by
    intro p hp next hnext
    have hle := hsep.length_le (List.mem_map_of_mem hp)
    rw [EntryPhrase.tokens, List.length_append, List.length_cons] at hle
    have hcolon : continuation? .full .default p.colon = none := by
      apply continuation?_eq_none_of_trailing
      rw [hcolons p hp]
      rfl
    apply Takes.bind ((hks p hp).takes (hkeys p hp) (by omega) (by decide) (by decide) hcolon)
    intro key hkey
    apply Takes.expect (hcolons p hp)
    apply Takes.last ((hvs p hp).takes (hvalues p hp) (by omega) (by decide) (by decide) hnext)
    intro value hvalue
    apply Takes.pure
    rw [hkey, hvalue]
  have hlead : ∀ p ∈ ps, ∀ next, Grammar.full.leading (lead p.tokens next).kind ≠ none := by
    intro p hp next
    rw [EntryPhrase.tokens, lead_append]
    exact (hkeys p hp).leading_ne_none _
  apply (takes_items ⟨rfl, rfl, by decide⟩ hsep ht hlead hitem).imp
  intro es hes
  rw [List.map_map]
  exact (map_eq_map_of_forall₂ hes).symm

end Phrases

/-- Reading follows every derivation. -/
theorem reached_of_derives {q : Power} {w : List Token} {e : Expr} (h : Derives q w e) :
    Reached q w e := by
  -- a form that opens with a token of its own starts the reading; the others go on from their
  -- first part
  induction h with
  | number ht =>
    intro depth p next _ _ _ _
    exact .start .number ht (.advance (.pure rfl))
  | string ht =>
    intro depth p next _ _ _ _
    exact .start .string ht (.advance (.pure rfl))
  | boolean ht =>
    intro depth p next _ _ _ _
    exact .start (.boolean _) ht (.advance (.pure rfl))
  | symbol ht =>
    intro depth p next _ _ _ _
    exact .start .symbol ht (.advance (.pure rfl))
  | group hl hd hr ih =>
    intro depth p next hw _ _ _
    rw [List.length_cons, List.length_append] at hw
    have hstop :=
      continuation?_eq_none_of_trailing (p := .default) (congrArg Grammar.full.trailing hr)
    apply Arrives.start .group hl
    apply Takes.advance
    apply Takes.bind (ih.takes hd (by omega) (by decide) (by decide) hstop)
    intro e he
    exact .expect hr (.pure he)
  | array hl hd hsep hr _ ih =>
    intro depth p next hw _ _ _
    rw [List.length_cons, List.length_append] at hw
    apply Arrives.start .array hl
    apply Takes.advance
    apply Takes.last (takes_phrases ⟨rfl, rfl, by decide⟩ hd ih hsep hr (by omega))
    intro es hes
    apply Takes.previousEnd
    intro stop
    apply Takes.pure
    rw [Expr.bare_array, Expr.bare_array, hes]
  | dict hl hks hcs hvs hsep hr _ ihk ihv =>
    intro depth p next hw _ _ _
    rw [List.length_cons, List.length_append] at hw
    apply Arrives.start .dict hl
    apply Takes.advance
    apply Takes.last (takes_entryPhrases hks hcs hvs ihk ihv hsep hr (by omega))
    intro es hes
    apply Takes.previousEnd
    intro stop
    apply Takes.pure
    rw [Expr.bare_dict, Expr.bare_dict, hes]
  | call hd hl hline hds hsep hr _ ih ihs =>
    intro depth p next hw hp hpq _
    rw [List.length_append, List.length_cons, List.length_append] at hw
    have hform := congrArg Grammar.full.trailing hl
    apply ih.step .call hform hline (by omega) hp hpq
      (Nat.lt_of_le_of_lt hp (by decide)) (Nat.le_refl _)
    intro left hleft
    apply Takes.advance
    apply Takes.last (takes_phrases ⟨rfl, rfl, by decide⟩ hds ihs hsep hr (by omega))
    intro es hes
    apply Takes.previousEnd
    intro stop
    apply Takes.pure
    rw [Expr.bare_call, Expr.bare_call, hleft, hes]
  | subscript hd hl hline hd' hr _ ih ih' =>
    intro depth p next hw hp hpq _
    rw [List.length_append, List.length_cons, List.length_append] at hw
    have hform := congrArg Grammar.full.trailing hl
    have hstop :=
      continuation?_eq_none_of_trailing (p := .default) (congrArg Grammar.full.trailing hr)
    apply ih.step .subscript hform hline (by omega) hp hpq
      (Nat.lt_of_le_of_lt hp (by decide)) (Nat.le_refl _)
    intro left hleft
    apply Takes.advance
    apply Takes.bind (ih'.takes hd' (by omega) (by decide) (by decide) hstop)
    intro index hindex
    apply Takes.expect hr
    apply Takes.previousEnd
    intro stop
    apply Takes.pure
    rw [Expr.bare_subscript, Expr.bare_subscript, hleft, hindex]
  | member hd hdot hline hname _ _ ih =>
    intro depth p next hw hp hpq _
    rw [List.length_append] at hw
    have hform := congrArg Grammar.full.trailing hdot
    apply ih.step .member hform hline (by omega) hp hpq
      (Nat.lt_of_le_of_lt hp (by decide)) (Nat.le_refl _)
    intro left hleft
    apply Takes.advance
    apply Takes.expect hname
    apply Takes.pure
    rw [Expr.bare_member, Expr.bare_member, hleft]
  | unary ht hd _ ih =>
    intro depth p next hw _ _ hstop
    rw [List.length_cons] at hw
    apply Arrives.start (.unary _) ht
    apply Takes.advance
    apply Takes.last (ih.takes hd (by omega) (by decide) (by decide) hstop)
    intro operand hoperand
    apply Takes.pure
    rw [Expr.bare_unary, Expr.bare_unary, hoperand]
  | @binary t op w w' e e' span hd ht hline hd' _ ih ih' =>
    intro depth p next hw hp hpq hstop
    rw [List.length_append, List.length_cons] at hw
    have hform := (congrArg Grammar.full.trailing ht).trans (Grammar.trailing_kind op)
    have hpq' := Nat.le_trans hpq op.layer_rank_le_leftLayer
    have hlt := Power.rank_lt_of_operand_rank_le hp op.layer_ne_unary hpq
    have hright := Nat.le_of_eq (congrArg Power.rank op.operand_bound_layer)
    apply ih.step (.binary op op.layer.bound) hform hline (by omega) hp hpq' hlt
      op.layer_rank_le_bound_leftLayer
    intro left hleft
    apply Takes.advance
    apply Takes.last (ih'.takes hd' (by omega) op.bound_layer_rank_le hright hstop)
    intro right hright
    apply Takes.pure
    rw [Expr.bare_binary, Expr.bare_binary, hleft, hright]
  | conditional hd hmark hline hd₁ hcolon hd₂ _ ih ih₁ ih₂ =>
    intro depth p next hw hp hpq hstop
    rw [List.length_append, List.length_cons, List.length_append, List.length_cons] at hw
    have hform := congrArg Grammar.full.trailing hmark
    have hcolon' :=
      continuation?_eq_none_of_trailing (p := .default) (congrArg Grammar.full.trailing hcolon)
    have hlt := Power.rank_lt_of_operand_rank_le hp (by decide) hpq
    apply ih.step .conditional hform hline (by omega) hp
      (Nat.le_trans hpq (by decide)) hlt (by decide)
    intro test htest
    apply Takes.advance
    apply Takes.bind (ih₁.takes hd₁ (by omega) (by decide) (by decide) hcolon')
    intro consequent hconsequent
    apply Takes.expect hcolon
    apply Takes.last (ih₂.takes hd₂ (by omega) (by decide) (by decide) hstop)
    intro alternate halternate
    apply Takes.pure
    rw [Expr.bare_conditional, Expr.bare_conditional, htest, hconsequent, halternate]
  | @tighten q w e hd ih =>
    intro depth p next hw hp hpq hstop
    exact ih depth p next hw hp (Nat.le_trans hpq q.rank_le_tighter)
      (continuation?_eq_none_of_le hstop q.bound_rank_le_tighter)

theorem takes_expression {w : List Token} {e : Expr} {next : Token} (h : Derives .conditional w e)
    (hstop : continuation? .full .default next = none) :
    Takes (expression .full .default) w next (·.bare = e.bare) := by
  apply Takes.bounded
  intro depth hdepth
  exact (reached_of_derives h).takes h (Nat.le_of_lt hdepth) (by decide) (by decide) hstop

theorem continuation?_default_eq_none_iff {t : Token} :
    continuation? .full .default t = none ↔ t.newlineBefore = true ∨
    t.kind.isTrailing = false := by
  have htable : Grammar.full.trailing t.kind = none ↔ t.kind.isTrailing = false := by
    cases t.kind <;> decide
  constructor
  · intro h
    cases hline : t.newlineBefore with
    | true => exact .inl rfl
    | false =>
      refine .inr (htable.1 ?_)
      apply Option.eq_none_iff_forall_ne_some.2
      intro entry hentry
      obtain ⟨layer, form⟩ := entry
      obtain rfl := Grammar.layer_of_trailing hentry
      rw [continuation?_eq_some_iff.2 ⟨hline, hentry, form.default_rank_lt⟩] at h
      cases h
  · intro h
    rcases h with hline | hkind
    · rw [continuation?, if_pos hline]
    · exact continuation?_eq_none_of_trailing (htable.2 hkind)

/-- The expressions that are read are those of the grammar: what is passed derives what is yielded,
and what is derived before a token that does not continue it is yielded. -/
theorem expression_recognises (s : Stream) (hs : s.Ends) :
    (∀ e s', expression .full .default s = (.ok e, s') →
      ∃ w, s.tokens = w ++ s'.tokens ∧ Derives .conditional w e ∧
        (s'.current.newlineBefore = true ∨ s'.current.kind.isTrailing = false)) ∧
    ∀ w e next rest, s.tokens = w ++ next :: rest → Derives .conditional w e →
      next.newlineBefore = true ∨ next.kind.isTrailing = false →
      ∃ e' s', expression .full .default s = (.ok e', s') ∧ s'.tokens = next :: rest ∧
        e'.bare = e.bare := by
  constructor
  · intro e s' he
    obtain ⟨w, hw, hd, hstop⟩ := sound_expressionWithin s.size .default s e s' (by decide) hs he
    exact ⟨w, hw.tokens_eq, hd.derives, continuation?_default_eq_none_iff.1 hstop⟩
  · intro w e next rest hw hd hnext
    exact takes_expression hd (continuation?_default_eq_none_iff.2 hnext) s rest hw

/-- A sign before a power applies to the whole of it. -/
theorem expression_recognises_power :
    ∃ e' s', expression .full .default (.ofTokens
        [⟨.dash, "-", .nowhere, true⟩, ⟨.identifier, "a", .nowhere, false⟩,
          ⟨.starStar, "**", .nowhere, false⟩, ⟨.dash, "-", .nowhere, false⟩,
          ⟨.number, "2", .nowhere, false⟩] "") = (.ok e', s') ∧
      s'.tokens = [.eof .nowhere false] ∧
      e'.bare = .unary .negate (.binary (.symbol "a" .nowhere) .power
        (.unary .negate (.number "2" .nowhere) .nowhere) .nowhere) .nowhere := by
  have hnumber : Derives .primary [⟨.number, "2", .nowhere, false⟩] (.number "2" .nowhere) :=
    .number rfl trivial
  have hsymbol : Derives .primary [⟨.identifier, "a", .nowhere, false⟩]
      (.symbol "a" .nowhere) :=
    .symbol rfl trivial
  have hexponent :
      Derives .unary [⟨.dash, "-", .nowhere, false⟩, ⟨.number, "2", .nowhere, false⟩]
      (.unary .negate (.number "2" .nowhere) .nowhere) :=
    .unary rfl (hnumber.loosen (by decide)) trivial
  have hpower :=
    @DerivesAt.binary (fun _ _ => True) ⟨.starStar, "**", .nowhere, false⟩ .power
      _ _ _ _ .nowhere
    (hsymbol.loosen (by decide)) rfl rfl hexponent trivial
  have hsigned :=
    @DerivesAt.unary (fun _ _ => True) ⟨.dash, "-", .nowhere, true⟩ .negate _ _ .nowhere rfl
    (hpower.loosen (by decide)) trivial
  exact (expression_recognises _ (Stream.ofTokens_ends _ _)).2 _ _ _ _ rfl
    (hsigned.loosen (by decide)) (.inr rfl)

end Reader
end Scriptor
