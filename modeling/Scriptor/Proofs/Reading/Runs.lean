import Mathlib.Data.List.Forall2
import Scriptor.Reader.Stream

namespace Scriptor

namespace Stream

def tokens (s : Stream) : List Token := s.current :: s.rest

def Ends (s : Stream) : Prop := s.tokens.getLast?.map Token.kind = some .eof

variable {s s' : Stream} {k : Kind}

theorem length_tokens (s : Stream) : s.tokens.length = s.size := rfl

theorem Ends.tokens_eq (h : s.Ends) (hk : s.kind = k) (hne : k ≠ .eof) :
    s.tokens = s.current :: s.advance.tokens := by
  rw [tokens, Stream.advance]
  cases hrest : s.rest with
  | nil =>
    rw [Ends, tokens, hrest, List.getLast?_singleton] at h
    exact absurd (hk.symm.trans (Option.some.inj h)) hne
  | cons t ts => rfl

theorem Ends.of_append {w : List Token} (h : s.Ends) (hw : s.tokens = w ++ s'.tokens) :
    s'.Ends := by
  have hne : s'.tokens ≠ [] := List.cons_ne_nil _ _
  rwa [Ends, hw, List.getLast?_append_of_ne_nil _ hne] at h

theorem Ends.advance (h : s.Ends) (hk : s.kind = k) (hne : k ≠ .eof) : s.advance.Ends :=
  h.of_append (w := [s.current]) (h.tokens_eq hk hne)

theorem closed_of_eof {t : Token} {ts : List Token}
    (h : (t :: ts).getLast?.map Token.kind = some .eof) : closed t ts = ts := by
  induction ts generalizing t with
  | nil => exact if_pos (Option.some.inj h)
  | cons u us ih =>
    rw [List.getLast?_cons_cons] at h
    rw [closed, ih h]

theorem closed_of_ne_eof {t : Token} {ts : List Token}
    (h : (t :: ts).getLast?.map Token.kind ≠ some .eof) :
    ∃ e : Token, e.kind = .eof ∧ closed t ts = ts ++ [e] := by
  induction ts generalizing t with
  | nil => exact ⟨_, rfl, if_neg fun hk => h (congrArg some hk)⟩
  | cons u us ih =>
    rw [List.getLast?_cons_cons] at h
    obtain ⟨e, he, hclosed⟩ := ih h
    exact ⟨e, he, congrArg (u :: ·) hclosed⟩

theorem tokens_ofTokens_of_eof {ts : List Token} (h : ts.getLast?.map Token.kind = some .eof)
    (file : String) : (ofTokens ts file).tokens = ts := by
  cases ts with
  | nil => cases h
  | cons t ts => exact congrArg (t :: ·) (closed_of_eof h)

theorem tokens_ofTokens_of_ne_eof {ts : List Token} (h : ts.getLast?.map Token.kind ≠ some .eof)
    (file : String) : ∃ e : Token, e.kind = .eof ∧ (ofTokens ts file).tokens = ts ++ [e] := by
  cases ts with
  | nil => exact ⟨_, rfl, rfl⟩
  | cons t ts =>
    obtain ⟨e, he, hclosed⟩ := closed_of_ne_eof h
    exact ⟨e, he, congrArg (t :: ·) hclosed⟩

theorem ofTokens_ends (ts : List Token) (file : String) : (ofTokens ts file).Ends := by
  by_cases h : ts.getLast?.map Token.kind = some .eof
  · rwa [Ends, tokens_ofTokens_of_eof h]
  · obtain ⟨e, he, htokens⟩ := tokens_ofTokens_of_ne_eof h file
    rw [Ends, htokens, List.getLast?_concat, Option.map_some, he]

/-- Whether the stream `s'` is left once `s` has passed the tokens `w`. -/
structure Passed (s : Stream) (w : List Token) (s' : Stream) : Prop where
  tokens_eq : s.tokens = w ++ s'.tokens
  previousEnd_eq : s'.previousEnd = (w.getLast?.map fun t => t.span.stop).getD s.previousEnd

section Passed

variable {s'' : Stream} {w w' read : List Token} {t : Token}

theorem Passed.refl (s : Stream) : s.Passed [] s := ⟨rfl, rfl⟩

theorem Passed.trans (h : s.Passed w s') (h' : s'.Passed w' s'') : s.Passed (w ++ w') s'' where
  tokens_eq := by rw [h.tokens_eq, h'.tokens_eq, List.append_assoc]
  previousEnd_eq := by
    rw [h'.previousEnd_eq, h.previousEnd_eq, List.getLast?_append]
    cases w'.getLast? <;> rfl

theorem Passed.advance (hs : s.Ends) (hk : s.kind ≠ .eof) : s.Passed [s.current] s.advance where
  tokens_eq := hs.tokens_eq rfl hk
  previousEnd_eq := by
    have htokens := hs.tokens_eq rfl hk
    rw [Stream.advance] at htokens ⊢
    cases hrest : s.rest with
    | nil =>
      rw [hrest, tokens, hrest] at htokens
      cases (List.cons.inj htokens).2
    | cons t ts => rfl

theorem Passed.ends (h : s.Passed w s') (hs : s.Ends) : s'.Ends := hs.of_append h.tokens_eq

theorem Passed.head?_eq (h : s.Passed w s') (hw : w ≠ []) : w.head? = some s.current := by
  have htokens := congrArg List.head? h.tokens_eq
  rw [List.head?_append_of_ne_nil _ hw] at htokens
  exact htokens.symm

theorem Passed.previousEnd_concat (h : s.Passed (w ++ [t]) s') : s'.previousEnd = t.span.stop := by
  rw [h.previousEnd_eq, List.getLast?_concat]
  rfl

theorem Passed.size_lt (h : s.Passed w s') (hw : w ≠ []) : s'.size < s.size := by
  have hlength := congrArg List.length h.tokens_eq
  rw [List.length_append, s.length_tokens, s'.length_tokens] at hlength
  have hpos := List.length_pos_of_ne_nil hw
  omega

/-- Whether the stream stands behind the tokens `read`. -/
structure Behind (read : List Token) (s : Stream) : Prop where
  ends : s.Ends
  previousEnd_eq : ∀ t ∈ read.getLast?, s.previousEnd = t.span.stop

theorem Behind.passed (h : s.Behind read) (hw : s.Passed w s') : s'.Behind (read ++ w) where
  ends := hw.ends h.ends
  previousEnd_eq := by
    intro t ht
    rw [hw.previousEnd_eq]
    rw [List.getLast?_append] at ht
    cases hlast : w.getLast? with
    | some u =>
      rw [hlast] at ht
      cases ht
      rfl
    | none =>
      rw [hlast] at ht
      exact h.previousEnd_eq t ht

theorem Ends.behind (h : s.Ends) : s.Behind [] where
  ends := h
  previousEnd_eq := by
    intro t ht
    cases ht

end Passed

end Stream

/-- Whether the tokens are the given phrases with commas between them. A comma may follow the last
phrase. -/
inductive Separated : List (List Token) → List Token → Prop where
  | nil : Separated [] []
  | last (w : List Token) : Separated [w] w
  | cons {comma : Token} {ws : List (List Token)} {rest : List Token} (w : List Token) :
      comma.kind = .comma → Separated ws rest → Separated (w :: ws) (w ++ comma :: rest)

theorem Separated.generation {w : List Token} {ws : List (List Token)} {u : List Token}
    (h : Separated (w :: ws) u) : (ws = [] ∧ u = w) ∨
      ∃ comma rest, comma.kind = .comma ∧ Separated ws rest ∧ u = w ++ comma :: rest := by
  cases h with
  | last => exact .inl ⟨rfl, rfl⟩
  | cons _ hk h => exact .inr ⟨_, _, hk, h, rfl⟩

theorem Separated.length_le {ws : List (List Token)} {u w : List Token}
    (h : Separated ws u) (hw : w ∈ ws) : w.length ≤ u.length := by
  induction h with
  | nil => cases hw
  | last w' => exact Nat.le_of_eq (congrArg _ (List.mem_singleton.1 hw))
  | cons w' _ _ ih =>
    rw [List.length_append, List.length_cons]
    rcases List.mem_cons.1 hw with rfl | hw
    · exact Nat.le_add_right _ _
    · have := ih hw
      omega

namespace Reader

variable {α β : Type} {r : Reader α} {f : α → Reader β} {s s' : Stream} {a : α} {b : β}
  {t : Token} {k : Kind}

/-- Whether the reader succeeds with the value `a` and stops at `s'`. -/
def Reads (r : Reader α) (s : Stream) (a : α) (s' : Stream) : Prop := r s = (.ok a, s')

theorem reads_pure {a' : α} : Reads (pure a) s a' s' ↔ a' = a ∧ s' = s := by
  have hpure : (pure a : Reader α) s = (.ok a, s) := rfl
  rw [Reads, hpure, Prod.mk.injEq, Except.ok.injEq, eq_comm, eq_comm (a := s)]

theorem reads_bind :
    Reads (r >>= f) s b s' ↔ ∃ a s₁, Reads r s a s₁ ∧ Reads (f a) s₁ b s' := by
  rcases hr : r s with ⟨e | a, s₁⟩
  · have hbind : (r >>= f) s = (.error e, s₁) := by simp only [bind, hr]
    simp [Reads, hbind, hr]
  · have hbind : (r >>= f) s = f a s₁ := by simp only [bind, hr]
    simp [Reads, hbind, hr]

theorem reads_stream_bind {f : Stream → Reader α} :
    Reads (stream >>= f) s a s' ↔ Reads (f s) s a s' := Iff.rfl

theorem kind_bind {f : Kind → Reader α} : (kind >>= f) s = f s.kind s := rfl

theorem reads_kind_bind {f : Kind → Reader α} :
    Reads (kind >>= f) s a s' ↔ Reads (f s.kind) s a s' := Iff.rfl

theorem reads_previousEnd_bind {f : Position → Reader α} :
    Reads (previousEnd >>= f) s a s' ↔ Reads (f s.previousEnd) s a s' := Iff.rfl

theorem reads_advance_bind {f : Token → Reader α} :
    Reads (advance >>= f) s a s' ↔ Reads (f s.current) s.advance a s' := Iff.rfl

theorem expectOr_bind_of_eq {e : Error} {f : Token → Reader α} (hk : s.kind = k) :
    (expectOr k e >>= f) s = (advance >>= f) s := by
  have hrun : expectOr k e s = advance s := if_pos hk
  simp only [bind, hrun]

theorem expectOr_bind_of_ne {e : Error} {f : Token → Reader α} (hk : s.kind ≠ k) :
    (expectOr k e >>= f) s = (.error e, s) := by
  have hrun : expectOr k e s = (.error e, s) := if_neg hk
  simp only [bind, hrun]

theorem reads_expectOr_bind {e : Error} {f : Token → Reader α} :
    Reads (expectOr k e >>= f) s a s' ↔ s.kind = k ∧ Reads (f s.current) s.advance a s' := by
  by_cases hk : s.kind = k
  · rw [Reads, expectOr_bind_of_eq hk, and_iff_right hk]
    exact reads_advance_bind
  · simp [Reads, expectOr_bind_of_ne hk, hk]

theorem reads_expect_bind {f : Token → Reader α} :
    Reads (expect k >>= f) s a s' ↔ s.kind = k ∧ Reads (f s.current) s.advance a s' :=
  reads_expectOr_bind (e := s.unexpected)

theorem not_reads_unexpected : ¬Reads unexpected s a s' := by
  intro h
  cases h

theorem not_reads_unexpectedBecause {message : String} :
    ¬Reads (unexpectedBecause message) s a s' := by
  intro h
  cases h

/-- Whether the reader fails with the error `e`. -/
def Fails (r : Reader α) (s : Stream) (e : Error) : Prop := (r s).1 = .error e

theorem fails_bind {e : Error} :
    Fails (r >>= f) s e ↔ Fails r s e ∨ ∃ a s₁, Reads r s a s₁ ∧
    Fails (f a) s₁ e := by
  rcases hr : r s with ⟨e' | a, s₁⟩
  · have hbind : (r >>= f) s = (.error e', s₁) := by simp only [bind, hr]
    simp [Fails, Reads, hbind, hr]
  · have hbind : (r >>= f) s = f a s₁ := by simp only [bind, hr]
    simp [Fails, Reads, hbind, hr]

def lead : List Token → Token → Token
  | [], next => next
  | t :: _, _ => t

theorem lead_append (w w' : List Token) (next : Token) :
    lead (w ++ w') next = lead w (lead w' next) := by
  cases w <;> rfl

theorem current_eq {w : List Token} {next : Token} {rest : List Token}
    (h : s.tokens = w ++ next :: rest) : s.current = lead w next := by
  cases w with
  | nil => exact (List.cons.inj h).1
  | cons t w => exact (List.cons.inj h).1

/-- Whether the reader, at the tokens `w` before `next`, succeeds with a good value and passes
exactly `w`. -/
def Takes (r : Reader α) (w : List Token) (next : Token) (good : α → Prop) : Prop :=
  ∀ s rest, s.tokens = w ++ next :: rest → ∃ a s', Reads r s a s' ∧
    s'.tokens = next :: rest ∧ good a

section

variable {w w' : List Token} {next : Token} {good : α → Prop} {good' : β → Prop}

theorem Takes.pure (h : good a) : Takes (pure a) [] next good := by
  intro s rest hs
  exact ⟨a, s, reads_pure.2 ⟨rfl, rfl⟩, hs, h⟩

theorem Takes.imp {good' : α → Prop} (h : Takes r w next good)
    (himp : ∀ a, good a → good' a) : Takes r w next good' := by
  intro s rest hs
  obtain ⟨a, s', hr, hs', ha⟩ := h s rest hs
  exact ⟨a, s', hr, hs', himp a ha⟩

theorem Takes.bind (h : Takes r w (lead w' next) good)
    (hf : ∀ a, good a → Takes (f a) w' next good') : Takes (r >>= f) (w ++ w') next good' := by
  intro s rest hs
  have hsplit : ∃ rest', w' ++ next :: rest = lead w' next :: rest' := by
    cases w' with
    | nil => exact ⟨rest, rfl⟩
    | cons t w' => exact ⟨w' ++ next :: rest, rfl⟩
  obtain ⟨rest', hrest⟩ := hsplit
  rw [List.append_assoc, hrest] at hs
  obtain ⟨a, s₁, hr, hs₁, ha⟩ := h s rest' hs
  rw [← hrest] at hs₁
  obtain ⟨b, s₂, hb, hs₂, hgood⟩ := hf a ha s₁ rest hs₁
  exact ⟨b, s₂, reads_bind.2 ⟨a, s₁, hr, hb⟩, hs₂, hgood⟩

/-- The reader passes all tokens, and what it yields is worked on. -/
theorem Takes.last (h : Takes r w next good) (hf : ∀ a, good a → Takes (f a) [] next good') :
    Takes (r >>= f) w next good' := by
  have hbind : Takes (r >>= f) (w ++ []) next good' := Takes.bind h hf
  rwa [List.append_nil] at hbind

theorem Takes.advance {f : Token → Reader α} (h : Takes (f t) w next good) :
    Takes (Reader.advance >>= f) (t :: w) next good := by
  intro s rest hs
  have hrest : s.rest = w ++ next :: rest := (List.cons.inj hs).2
  have hs' : s.advance.tokens = w ++ next :: rest := by
    rw [← hrest, Stream.advance]
    cases hcons : s.rest with
    | nil =>
      rw [hcons] at hrest
      cases w <;> cases hrest
    | cons u us => rfl
  obtain ⟨a, s₁, hr, hs₁, ha⟩ := h s.advance rest hs'
  rw [← (List.cons.inj hs).1] at hr
  exact ⟨a, s₁, reads_advance_bind.2 hr, hs₁, ha⟩

theorem Takes.expectOr {e : Error} {f : Token → Reader α} (hk : t.kind = k)
    (h : Takes (f t) w next good) : Takes (Reader.expectOr k e >>= f) (t :: w) next good := by
  intro s rest hs
  obtain ⟨a, s₁, hr, hs₁, ha⟩ := Takes.advance h s rest hs
  have hkind : s.kind = k := by rw [Stream.kind, current_eq hs, lead, hk]
  exact ⟨a, s₁, reads_expectOr_bind.2 ⟨hkind, reads_advance_bind.1 hr⟩, hs₁, ha⟩

theorem Takes.expect {f : Token → Reader α} (hk : t.kind = k) (h : Takes (f t) w next good) :
    Takes (Reader.expect k >>= f) (t :: w) next good := by
  intro s rest hs
  exact Takes.expectOr (e := s.unexpected) hk h s rest hs

theorem Takes.stream {f : Stream → Reader α}
    (h : ∀ s, s.current = lead w next → Takes (f s) w next good) :
    Takes (Reader.stream >>= f) w next good := by
  intro s rest hs
  exact h s (current_eq hs) s rest hs

theorem Takes.kind {f : Kind → Reader α} (h : Takes (f (lead w next).kind) w next good) :
    Takes (Reader.kind >>= f) w next good := by
  intro s rest hs
  obtain ⟨a, s₁, hr, hs₁, ha⟩ := h s rest hs
  rw [← current_eq hs] at hr
  exact ⟨a, s₁, reads_kind_bind.2 hr, hs₁, ha⟩

theorem Takes.previousEnd {f : Position → Reader α} (h : ∀ p, Takes (f p) w next good) :
    Takes (Reader.previousEnd >>= f) w next good := by
  intro s rest hs
  exact h s.previousEnd s rest hs

theorem Takes.bounded {r : Nat → Reader α}
    (h : ∀ n, w.length < n → Takes (r n) w next good) : Takes (bounded r) w next good := by
  intro s rest hs
  have hsize : w.length < s.size := by
    rw [← s.length_tokens, hs, List.length_append, List.length_cons]
    omega
  exact h s.size hsize s rest hs

end

section Items

variable {γ : Type} {tokensOf : γ → List Token} {item : Reader α} {closing : Kind}
  {message : String}

/-- What is read up to the closing token are phrases with commas between them. -/
theorem reads_itemsWithin {value : γ → α} {good : γ → Prop} (hclosing : closing ≠ .eof)
    (hitem : ∀ s a s', s.Ends → Reads item s a s' →
      ∃ c, good c ∧ value c = a ∧ s.Passed (tokensOf c) s')
    {bound : Nat} {as : List α} (hs : s.Ends)
    (h : Reads (itemsWithin item closing message bound) s as s') :
    ∃ (cs : List γ) (ws : List Token) (t : Token), as = cs.map value ∧
      (∀ c ∈ cs, good c) ∧
      Separated (cs.map tokensOf) ws ∧ t.kind = closing ∧ s.Passed (ws ++ [t]) s' := by
  induction bound generalizing s as with
  | zero =>
    rw [itemsWithin] at h
    exact absurd h not_reads_unexpectedBecause
  | succ bound ih =>
    rw [itemsWithin, itemsRound, reads_kind_bind] at h
    split at h
    next hk =>
      rw [reads_advance_bind, reads_pure] at h
      obtain ⟨rfl, rfl⟩ := h
      exact ⟨[], [], s.current, rfl, List.forall_mem_nil _, .nil, hk,
        .advance hs (hk ▸ hclosing)⟩
    next =>
      obtain ⟨a, s₁, ha, h⟩ := reads_bind.1 h
      obtain ⟨c, hc, rfl, hpassed⟩ := hitem s a s₁ hs ha
      have hs₁ := hpassed.ends hs
      rw [reads_kind_bind] at h
      split at h
      next hk =>
        rw [reads_advance_bind] at h
        obtain ⟨as, s₂, has, h⟩ := reads_bind.1 h
        obtain ⟨rfl, rfl⟩ := reads_pure.1 h
        have hcomma := Stream.Passed.advance hs₁ (hk ▸ Kind.noConfusion)
        obtain ⟨cs, ws, t, rfl, hcs, hsep, ht, hrest⟩ := ih (hcomma.ends hs₁) has
        refine ⟨c :: cs, tokensOf c ++ s₁.current :: ws, t, rfl,
          List.forall_mem_cons.2 ⟨hc, hcs⟩, .cons _ hk hsep, ht, ?_⟩
        have hall := hpassed.trans (hcomma.trans hrest)
        rwa [List.singleton_append, ← List.cons_append, ← List.append_assoc] at hall
      next =>
        rw [reads_kind_bind] at h
        split at h
        next hk =>
          rw [reads_advance_bind, reads_pure] at h
          obtain ⟨rfl, rfl⟩ := h
          exact ⟨[c], tokensOf c, s₁.current, rfl, List.forall_mem_singleton.2 hc, .last _, hk,
            hpassed.trans (.advance hs₁ (hk ▸ hclosing))⟩
        next => exact absurd h not_reads_unexpectedBecause

/-- Phrases with commas between them are read one by one. -/
theorem takes_itemsWithin {good : γ → α → Prop} (hclosing : closing ≠ .comma) {cs : List γ}
    {ws : List Token}
    {next : Token} {bound : Nat} (hsep : Separated (cs.map tokensOf) ws) (ht : t.kind = closing)
    (hitem : ∀ c ∈ cs, (∀ next : Token, (lead (tokensOf c) next).kind ≠ closing) ∧
      ∀ next : Token, next.kind = .comma ∨ next.kind = closing →
        Takes item (tokensOf c) next (good c))
    (hbound : ws.length < bound) :
    Takes (itemsWithin item closing message bound) (ws ++ [t]) next (List.Forall₂ good cs) := by
  induction cs generalizing ws bound with
  | nil =>
    obtain ⟨bound, rfl⟩ := Nat.exists_eq_add_one_of_ne_zero (Nat.ne_zero_of_lt hbound)
    cases hsep
    rw [itemsWithin, itemsRound]
    apply Takes.kind
    rw [List.nil_append, lead, if_pos ht]
    exact .advance (.pure .nil)
  | cons c cs ih =>
    obtain ⟨bound, rfl⟩ := Nat.exists_eq_add_one_of_ne_zero (Nat.ne_zero_of_lt hbound)
    obtain ⟨⟨hlead, htakes⟩, hcs⟩ := List.forall_mem_cons.1 hitem
    rw [itemsWithin, itemsRound]
    apply Takes.kind
    rcases hsep.generation with ⟨hnil, rfl⟩ | ⟨comma, rest, hk, hrest, rfl⟩
    · rw [lead_append, if_neg (hlead _), List.map_eq_nil_iff.1 hnil]
      apply Takes.bind (htakes t (.inr ht))
      intro a ha
      apply Takes.kind
      rw [lead, ht, if_neg hclosing]
      apply Takes.kind
      rw [lead, if_pos ht]
      exact .advance (.pure (.cons ha .nil))
    · have hlt : rest.length < bound := by
        rw [List.length_append, List.length_cons] at hbound
        omega
      rw [List.append_assoc, List.cons_append, lead_append, if_neg (hlead _)]
      apply Takes.bind (htakes comma (.inl hk))
      intro a ha
      apply Takes.kind
      rw [lead, if_pos hk]
      apply Takes.advance
      apply Takes.last (ih hrest hcs hlt)
      intro as has
      exact .pure (.cons ha has)

end Items

section Passes

variable {read : List Token} {good : List Token → α → Prop}
  {good' : List Token → β → Prop}

/-- Whether a run that succeeds passes tokens that suit what it yields, behind those that were read
before. -/
def Passes (r : Reader α) (read : List Token) (good : List Token → α → Prop) (s : Stream) :
    Prop :=
  s.Behind read → ∀ a s', Reads r s a s' → ∃ w, s.Passed w s' ∧ good (read ++ w) a

namespace Passes

theorem pure (h : good read a) : Passes (pure a) read good s := by
  intro _ b s' hr
  obtain ⟨rfl, rfl⟩ := reads_pure.1 hr
  exact ⟨[], .refl s', (List.append_nil read).symm ▸ h⟩

theorem bind (h : Passes r [] good s)
    (hf : ∀ w a s', good w a → Passes (f a) (read ++ w) good' s') :
    Passes (r >>= f) read good' s := by
  intro hs b s' hr
  obtain ⟨a, s₁, ha, hb⟩ := reads_bind.1 hr
  obtain ⟨w, hw, hgood⟩ := h hs.ends.behind a s₁ ha
  obtain ⟨w', hw', hgood'⟩ := hf w a s₁ hgood (hs.passed hw) b s' hb
  refine ⟨w ++ w', hw.trans hw', ?_⟩
  rwa [← List.append_assoc]

theorem behind {good' : List Token → α → Prop} (h : Passes r [] good s)
    (himp : ∀ w a, good w a → good' (read ++ w) a) : Passes r read good' s := by
  intro hs a s' hr
  obtain ⟨w, hw, hgood⟩ := h hs.ends.behind a s' hr
  exact ⟨w, hw, himp w a hgood⟩

theorem stream {f : Stream → Reader α} (h : Passes (f s) read good s) :
    Passes (Reader.stream >>= f) read good s := h

theorem kind {f : Kind → Reader α} (h : Passes (f s.kind) read good s) :
    Passes (Reader.kind >>= f) read good s := h

theorem previousEnd {f : Position → Reader α} (hlast : read.getLast? = some t)
    (h : Passes (f t.span.stop) read good s) : Passes (Reader.previousEnd >>= f) read good s := by
  intro hs
  rw [← hs.previousEnd_eq t hlast] at h
  exact h hs

theorem advance {f : Token → Reader α} (hk : s.kind ≠ .eof)
    (h : Passes (f s.current) (read ++ [s.current]) good s.advance) :
    Passes (Reader.advance >>= f) read good s := by
  intro hs a s' hr
  have hpassed := Stream.Passed.advance hs.ends hk
  obtain ⟨w, hw, hgood⟩ := h (hs.passed hpassed) a s' (reads_advance_bind.1 hr)
  refine ⟨[s.current] ++ w, hpassed.trans hw, ?_⟩
  rwa [← List.append_assoc]

theorem expectOr {k : Kind} {e : Error} {f : Token → Reader α} (hk : k ≠ .eof)
    (h : s.current.kind = k → Passes (f s.current) (read ++ [s.current]) good s.advance) :
    Passes (Reader.expectOr k e >>= f) read good s := by
  intro hs a s' hr
  obtain ⟨hkind, hr⟩ := reads_expectOr_bind.1 hr
  exact advance (hkind ▸ hk) (h hkind) hs a s' (reads_advance_bind.2 hr)

theorem expect {k : Kind} {f : Token → Reader α} (hk : k ≠ .eof)
    (h : s.current.kind = k → Passes (f s.current) (read ++ [s.current]) good s.advance) :
    Passes (Reader.expect k >>= f) read good s :=
  expectOr (e := s.unexpected) hk h

theorem unexpected : Passes Reader.unexpected read good s := by
  intro _ a s' h
  exact absurd h not_reads_unexpected

theorem unexpectedBecause {message : String} :
    Passes (Reader.unexpectedBecause message) read good s := by
  intro _ a s' h
  exact absurd h not_reads_unexpectedBecause

theorem bounded {r : Nat → Reader α} (h : ∀ n, Passes (r n) read good s) :
    Passes (Reader.bounded r) read good s := h s.size

theorem head? (h : Passes r [] (fun w a => w ≠ [] ∧ good w a) s) :
    Passes r [] (fun w a => w.head? = some s.current ∧ good w a) s := by
  intro hs a s' hr
  obtain ⟨w, hw, hne, hgood⟩ := h hs a s' hr
  exact ⟨w, hw, hw.head?_eq hne, hgood⟩

theorem items {item : Reader α} {closing : Kind} {message : String} (hclosing : closing ≠ .eof)
    (h : ∀ s, Passes item [] good s) :
    Passes (Reader.items item closing message) [] (fun w as => ∃ (cs : List (List Token × α))
      (ws : List Token) (t : Token), w = ws ++ [t] ∧ as = cs.map Prod.snd ∧
        (∀ c ∈ cs, good c.1 c.2) ∧
        Separated (cs.map Prod.fst) ws ∧ t.kind = closing) s := by
  intro hs as s' hr
  have hitem : ∀ s a s', s.Ends → Reads item s a s' →
      ∃ c : List Token × α, good c.1 c.2 ∧ c.2 = a ∧ s.Passed c.1 s' := by
    intro s a s' hs ha
    obtain ⟨w, hw, hgood⟩ := h s hs.behind a s' ha
    exact ⟨(w, a), hgood, rfl, hw⟩
  obtain ⟨cs, ws, t, has, hcs, hsep, ht, hpassed⟩ := reads_itemsWithin hclosing hitem hs.ends hr
  exact ⟨ws ++ [t], hpassed, cs, ws, t, rfl, has, hcs, hsep, ht⟩

end Passes

end Passes

end Reader
end Scriptor
