import Scriptor.Proofs.Moving
import Scriptor.Reader.Statement

namespace Scriptor

def Kind.opens (k : Kind) : Bool :=
  (Grammar.full.leading k).isSome || (Grammar.full.opening k).isSome || k = .eof

theorem Kind.ne_of_opens {k k' : Kind} (h : k.opens = true) (h' : k'.opens = false) : k ≠ k' := by
  rintro rfl
  cases h.symm.trans h'

theorem Kind.isAssignment_of_opens {k : Kind} (h : k.opens = true) :
    Reader.isAssignment k = false := by
  revert h
  cases k <;> decide

def Error.OfForm (e : Error) : Prop := e.cause.family = .form

namespace Stream

variable {s s' s'' : Stream} {m n : Nat}

/-- Whether a stream is another one moved on past so many tokens, none of which ends the text. -/
inductive Past : Nat → Stream → Stream → Prop where
  | refl (s : Stream) : Past 0 s s
  | step {n : Nat} {s s' : Stream} : s.kind ≠ .eof → Past n s.advance s' → Past (n + 1) s s'

theorem Past.trans (h : Past m s s') (h' : Past n s' s'') : Past (m + n) s s'' := by
  induction h with
  | refl => rwa [Nat.zero_add]
  | step hk _ ih =>
    rw [Nat.add_right_comm]
    exact .step hk (ih h')

theorem Past.ends (h : Past n s s') (hs : s.Ends) : s'.Ends := by
  induction h with
  | refl => exact hs
  | step hk _ ih => exact ih (hs.advance rfl hk)

theorem Past.size (h : Past n s s') (hs : s.Ends) : s'.size + n = s.size := by
  induction h with
  | refl => rfl
  | step hk _ ih =>
    have hsize := congrArg List.length (hs.tokens_eq rfl hk)
    rw [length_tokens, List.length_cons, length_tokens] at hsize
    rw [hsize, ← ih (hs.advance rfl hk)]
    rfl

end Stream

/-- Whether each level of a recursion is a step over the one below it. -/
def Unfolds {ρ : Type} (step : ρ → ρ) (run : Nat → ρ) : Prop :=
  ∀ k, run (k + 1) = step (run k)

/-- Two recursions are related as far as both of them go, whatever they are cut off with. -/
theorem Unfolds.related {ρ : Type} {R : Nat → ρ → ρ → Prop} {step step' : ρ → ρ}
    {run run' : Nat → ρ} {limit n n' : Nat} (hrun : Unfolds step run)
    (hrun' : Unfolds step' run') (hzero : ∀ a a', R 0 a a')
    (hstep : ∀ l < limit, ∀ a a', R l a a' → R (l + 1) (step a) (step' a')) (hn : limit ≤ n)
    (hn' : limit ≤ n') : R limit (run n) (run' n') := by
  induction limit generalizing n n' with
  | zero => exact hzero _ _
  | succ limit ih =>
    obtain ⟨n, rfl⟩ := Nat.exists_eq_add_one_of_ne_zero (Nat.ne_zero_of_lt hn)
    obtain ⟨n', rfl⟩ := Nat.exists_eq_add_one_of_ne_zero (Nat.ne_zero_of_lt hn')
    -- one call of each is made, and those within it go one level less far
    rw [hrun, hrun']
    apply hstep limit (Nat.lt_succ_self limit)
    exact ih (fun l hl => hstep l (Nat.lt_succ_of_lt hl)) (Nat.le_of_succ_le_succ hn)
      (Nat.le_of_succ_le_succ hn')

/-- What two runs keep between their streams. -/
structure Tandem where
  move : Position → Position
  /-- Whether the second run has to fail where the first one does. -/
  strict : Prop
  Beside : Stream → Stream → Prop
  size_le {s s' : Stream} : Beside s s' → s.size ≤ s'.size
  previousEnd {s s' : Stream} : Beside s s' → s'.previousEnd = move s.previousEnd
  /-- The current tokens say the same, unless the first text ends here. -/
  current {s s' : Stream} : Beside s s' → s'.current = s.current.move move ∨
    ¬strict ∧ s.kind = .eof ∧ s'.current.newlineBefore = true ∧ s'.kind.opens = true
  advance {s s' : Stream} : Beside s s' → s.kind ≠ .eof → Beside s.advance s'.advance

namespace Tandem

open Reader

/-- Whether both runs read a statement or an expression that starts here alike. What stands before
it, be it a line break, does not matter. -/
structure Starts (T : Tandem) (s s' : Stream) : Prop where
  kind : s'.kind = s.kind
  value : s'.current.value = s.current.value
  span : s'.current.span = s.current.span.move T.move
  size_le : s.size ≤ s'.size
  advance : s.kind ≠ .eof → T.Beside s.advance s'.advance
  beside : T.strict → T.Beside s s'

/-- Whether the second run ends as the first one does, which passes only tokens that do not end the
text, and at least `least` of them if it succeeds. A run that fails blames the form of the text. -/
inductive Matched (T : Tandem) {α : Type} (m : α → α) (least : Nat) (s : Stream) :
    Except Error α × Stream → Except Error α × Stream → Prop where
  | ok {n : Nat} {a : α} {s₁ s₁' : Stream} :
      s.Past n s₁ → least ≤ n → T.Beside s₁ s₁' →
      Matched T m least s (.ok a, s₁) (.ok (m a), s₁')
  | error {n : Nat} {e : Error} {s₁ : Stream} {run' : Except Error α × Stream} :
      s.Past n s₁ → e.OfForm →
      (T.strict → ∃ s₁', run' = (.error (e.move T.move), s₁') ∧ T.Beside s₁ s₁') →
      Matched T m least s (.error e, s₁) run'

/-- Whether the second reader does what the first one does at a stream of at most `limit` tokens. -/
def Matches (T : Tandem) {α : Type} (m : α → α) (limit least : Nat) (r r' : Reader α)
    (s s' : Stream) : Prop :=
  s.Ends → s.size ≤ limit → T.Matched m least s (r s) (r' s')

variable {T : Tandem} {α β : Type} {m : α → α} {m' : β → β} {limit least q : Nat}
  {r r' : Reader α} {f f' : α → Reader β} {s s' : Stream} {k : Kind}

/-- Either both runs are at the same token, or the first one is at the end and the second one at a
new line. -/
theorem starts_or (h : T.Beside s s') :
    (T.Starts s s' ∧ s'.current.newlineBefore = s.current.newlineBefore) ∨
      ¬T.strict ∧ s.kind = .eof ∧ s'.current.newlineBefore = true ∧
      s'.kind.opens = true := by
  rcases T.current h with hc | hseam
  · have hkind : s'.kind = s.kind := by rw [Stream.kind, hc]; rfl
    refine .inl ⟨⟨hkind, ?_, ?_, T.size_le h, T.advance h, fun _ => h⟩, ?_⟩
    all_goals
      rw [hc]
      rfl
  · exact .inr hseam

theorem starts_of_strict (h : T.Beside s s') (hs : T.strict) : T.Starts s s' := by
  rcases starts_or h with h | h
  · exact h.1
  · exact absurd hs h.1

theorem starts_of_ne_eof (h : T.Beside s s') (hk : s.kind ≠ .eof) : T.Starts s s' := by
  rcases starts_or h with h | h
  · exact h.1
  · exact absurd h.2.1 hk

/-- Kinds that open nothing are told apart by both runs. -/
theorem kind_eq_iff (h : T.Beside s s') (hk : ¬T.strict → k.opens = false) :
    s'.kind = k ↔ s.kind = k := by
  rcases starts_or h with ⟨h, -⟩ | ⟨hs, heof, -, hopens⟩
  · rw [h.kind]
  · rw [heof]
    exact iff_of_false (Kind.ne_of_opens hopens (hk hs)) (Kind.ne_of_opens rfl (hk hs))

theorem isAssignment_eq (h : T.Beside s s') : isAssignment s'.kind = isAssignment s.kind := by
  rcases starts_or h with ⟨h, -⟩ | ⟨-, heof, -, hopens⟩
  · rw [h.kind]
  · rw [heof, Kind.isAssignment_of_opens hopens]
    rfl

theorem Starts.unexpected (h : T.Starts s s') : s'.unexpected = s.unexpected.move T.move := by
  rw [Stream.unexpected, h.value, Stream.position, h.span]
  rfl

theorem Starts.unexpectedBecause (h : T.Starts s s') (message : String) :
    s'.unexpectedBecause message = (s.unexpectedBecause message).move T.move := by
  rw [Stream.unexpectedBecause, h.value, Stream.position, h.span]
  rfl

theorem Matched.behind {n : Nat} {s₁ : Stream} {run run' : Except Error α × Stream}
    (h : T.Matched m q s₁ run run') (hpast : s.Past n s₁) (hleast : least ≤ n) :
    T.Matched m least s run run' := by
  cases h with
  | ok hpast' _ hbeside =>
    exact .ok (hpast.trans hpast') (Nat.le_trans hleast (Nat.le_add_right _ _)) hbeside
  | error hpast' hform hstrict => exact .error (hpast.trans hpast') hform hstrict

namespace Matches

theorem zero : T.Matches m 0 least r r' s s' := fun _ hsize => absurd hsize (Nat.not_succ_le_zero _)

theorem le {l : Nat} (h : T.Matches m limit least r r' s s') (hl : l ≤ limit) :
    T.Matches m l least r r' s s' :=
  fun hs hsize => h hs (Nat.le_trans hsize hl)

theorem weaken (h : T.Matches m limit least r r' s s') : T.Matches m limit 0 r r' s s' :=
  fun hs hsize => (h hs hsize).behind (.refl s) (Nat.le_refl 0)

theorem reads {a : α} {s₁ : Stream} (h : T.Matches m limit least r r' s s') (hs : s.Ends)
    (hsize : s.size ≤ limit) (hr : Reads r s a s₁) :
    ∃ n s₁', s.Past n s₁ ∧ least ≤ n ∧ Reads r' s' (m a) s₁' ∧
      T.Beside s₁ s₁' := by
  have h := h hs hsize
  rw [hr] at h
  generalize hr' : r' s' = run' at h
  cases h with
  | @ok n _ _ s₁' hpast hleast hbeside => exact ⟨n, s₁', hpast, hleast, hr', hbeside⟩

theorem past (h : T.Matches m limit least r r' s s') (hs : s.Ends) (hsize : s.size ≤ limit) :
    ∃ n, s.Past n (r s).2 ∧ ∀ a, (r s).1 = .ok a → least ≤ n := by
  have h := h hs hsize
  generalize r s = run, r' s' = run' at h ⊢
  cases h with
  | @ok n _ _ _ hpast hleast _ => exact ⟨n, hpast, fun _ _ => hleast⟩
  | @error n _ _ _ hpast => exact ⟨n, hpast, fun a ha => nomatch ha⟩

theorem ofForm {e : Error} (h : T.Matches m limit least r r' s s') (hs : s.Ends)
    (hsize : s.size ≤ limit) (he : Fails r s e) : e.OfForm := by
  have h := h hs hsize
  rw [Fails] at he
  generalize r s = run, r' s' = run' at h he
  cases h with
  | ok => cases he
  | error _ hform _ =>
    cases he
    exact hform

theorem congr {p p' : Reader α} (h : T.Matches m limit least p p' s s') (hr : r s = p s)
    (hr' : r' s' = p' s') : T.Matches m limit least r r' s s' := by
  rw [Matches, hr, hr']
  exact h

theorem pure {a a' : α} (h : T.Beside s s') (ha : a' = m a) :
    T.Matches m limit 0 (pure a) (pure a') s s' := by
  subst ha
  exact fun _ _ => .ok (.refl s) (Nat.le_refl 0) h

theorem fail {e e' : Error} (hform : e.OfForm)
    (he : T.strict → e' = e.move T.move ∧ T.Beside s s') :
    T.Matches m limit least (Reader.fail e) (Reader.fail e') s s' := by
  refine fun _ _ => .error (.refl s) hform fun hs => ?_
  obtain ⟨rfl, hbeside⟩ := he hs
  exact ⟨s', rfl, hbeside⟩

theorem unexpected (h : T.Starts s s') :
    T.Matches m limit least Reader.unexpected Reader.unexpected s s' :=
  (fail (e := s.unexpected) rfl fun hs => ⟨h.unexpected, h.beside hs⟩).congr rfl rfl

theorem unexpectedBecause {message : String} (h : T.strict → T.Starts s s') :
    T.Matches m limit least (Reader.unexpectedBecause message)
      (Reader.unexpectedBecause message) s s' :=
  (fail (e := s.unexpectedBecause message) rfl fun hs =>
    ⟨(h hs).unexpectedBecause message, (h hs).beside hs⟩).congr rfl rfl

/-- The tokens that the first reader passes are no longer there for the second one. -/
theorem bindWithin {l : Nat} (h : T.Matches m limit least r r' s s') (hl : limit ≤ l + least)
    (hf : ∀ a s₁ s₁', T.Beside s₁ s₁' → T.Matches m' l q (f a) (f' (m a)) s₁ s₁') :
    T.Matches m' limit least (r >>= f) (r' >>= f') s s' := by
  intro hs hsize
  have h := h hs hsize
  generalize hr : r s = run, hr' : r' s' = run' at h
  cases h with
  | @ok n a s₁ s₁' hpast hleast hbeside =>
    have hrun : (r >>= f) s = f a s₁ := by simp only [Bind.bind, hr]
    have hrun' : (r' >>= f') s' = f' (m a) s₁' := by simp only [Bind.bind, hr']
    have hsize' := hpast.size hs
    rw [hrun, hrun']
    exact (hf a s₁ s₁' hbeside (hpast.ends hs) (by omega)).behind hpast hleast
  | @error n e s₁ _ hpast hform hstrict =>
    have hrun : (r >>= f) s = (.error e, s₁) := by simp only [Bind.bind, hr]
    rw [hrun]
    refine .error hpast hform fun hs => ?_
    obtain ⟨s₁', rfl, hbeside⟩ := hstrict hs
    exact ⟨s₁', by simp only [Bind.bind, hr'], hbeside⟩

theorem bind (h : T.Matches m limit least r r' s s')
    (hf : ∀ a s₁ s₁', T.Beside s₁ s₁' →
      T.Matches m' limit q (f a) (f' (m a)) s₁ s₁') :
    T.Matches m' limit least (r >>= f) (r' >>= f') s s' :=
  h.bindWithin (Nat.le_add_right limit least) hf

theorem onward (h : T.Matches m (limit + 1) 1 r r' s s')
    (hf : ∀ a s₁ s₁', T.Beside s₁ s₁' →
      T.Matches m' limit q (f a) (f' (m a)) s₁ s₁') :
    T.Matches m' (limit + 1) 1 (r >>= f) (r' >>= f') s s' :=
  h.bindWithin (Nat.le_refl _) hf

theorem stream {f f' : Stream → Reader α} (h : T.Matches m limit least (f s) (f' s') s s') :
    T.Matches m limit least (Reader.stream >>= f) (Reader.stream >>= f') s s' := h

theorem kind {f f' : Kind → Reader α}
    (h : T.Matches m limit least (f s.kind) (f' s'.kind) s s') :
    T.Matches m limit least (Reader.kind >>= f) (Reader.kind >>= f') s s' := h

theorem previousEnd {f f' : Position → Reader α} (hbeside : T.Beside s s')
    (h : ∀ p, T.Matches m limit least (f p) (f' (T.move p)) s s') :
    T.Matches m limit least (Reader.previousEnd >>= f) (Reader.previousEnd >>= f') s s' := by
  have h := h s.previousEnd
  rw [← T.previousEnd hbeside] at h
  exact h

theorem advance {f f' : Token → Reader α} (h : T.Starts s s') (hk : s.kind ≠ .eof)
    (hf : T.Beside s.advance s'.advance →
      T.Matches m limit q (f s.current) (f' s'.current) s.advance s'.advance) :
    T.Matches m (limit + 1) 1 (Reader.advance >>= f) (Reader.advance >>= f') s s' := by
  intro hs hsize
  have hpast : s.Past 1 s.advance := .step hk (.refl _)
  have hsize' := hpast.size hs
  exact (hf (h.advance hk) (hpast.ends hs) (by omega)).behind hpast (Nat.le_refl 1)

theorem token {make : Token → α} (h : T.Starts s s') (hk : s.kind ≠ .eof)
    (hmake : make s'.current = m (make s.current)) :
    T.Matches m (limit + 1) 1 (do return make (← Reader.advance))
      (do return make (← Reader.advance)) s s' :=
  advance h hk fun h => pure h hmake

theorem pass {f f' : Token → Reader α} (h : T.Beside s s') (hk : s.kind ≠ .eof)
    (hf : T.Starts s s' → T.Beside s.advance s'.advance →
      T.Matches m limit q (f s.current) (f' s'.current) s.advance s'.advance) :
    T.Matches m limit 1 (Reader.advance >>= f) (Reader.advance >>= f') s s' := by
  have hstarts := starts_of_ne_eof h hk
  exact (advance hstarts hk (hf hstarts)).le (Nat.le_succ limit)

theorem expectOr {e e' : Error} {f f' : Token → Reader α} (h : T.Beside s s') (hk : k ≠ .eof)
    (hform : e.OfForm) (he : T.strict → e' = e.move T.move)
    (hf : T.Starts s s' → T.Beside s.advance s'.advance →
      T.Matches m limit q (f s.current) (f' s'.current) s.advance s'.advance) :
    T.Matches m limit 1 (Reader.expectOr k e >>= f) (Reader.expectOr k e' >>= f') s s' := by
  by_cases hkind : s.kind = k
  · have hne : s.kind ≠ .eof := hkind ▸ hk
    have hkind' : s'.kind = k := (starts_of_ne_eof h hne).kind.trans hkind
    exact (pass h hne hf).congr (expectOr_bind_of_eq hkind) (expectOr_bind_of_eq hkind')
  · intro _ _
    rw [expectOr_bind_of_ne hkind]
    refine .error (.refl s) hform fun hs => ?_
    have hkind' : s'.kind ≠ k := (starts_of_strict h hs).kind ▸ hkind
    rw [expectOr_bind_of_ne hkind', he hs]
    exact ⟨s', rfl, h⟩

theorem expect {f f' : Token → Reader α} (h : T.Beside s s') (hk : k ≠ .eof)
    (hf : T.Starts s s' → T.Beside s.advance s'.advance →
      T.Matches m limit q (f s.current) (f' s'.current) s.advance s'.advance) :
    T.Matches m limit 1 (Reader.expect k >>= f) (Reader.expect k >>= f') s s' :=
  expectOr (e := s.unexpected) h hk rfl (fun hs => (starts_of_strict h hs).unexpected) hf

/-- A reader that fails where the text ends only has to be matched where the second run goes on
alike. -/
theorem of_starts (h : T.Beside s s')
    (hstarts : T.Starts s s' → T.Matches m limit least r r' s s')
    (heof : s.kind = .eof → ∃ e, e.OfForm ∧ r s = (.error e, s)) :
    T.Matches m limit least r r' s s' := by
  rcases starts_or h with ⟨h, -⟩ | ⟨hs, hk, -⟩
  · exact hstarts h
  · obtain ⟨e, hform, hrun⟩ := heof hk
    intro _ _
    rw [hrun]
    exact .error (.refl s) hform fun hstrict => absurd hstrict hs

theorem bounded {r r' : Nat → Reader α} (hsize : s.size ≤ s'.size)
    (h : ∀ l n n', l ≤ n → l ≤ n' → T.Matches m l least (r n) (r' n') s s') :
    T.Matches m limit least (bounded r) (bounded r') s s' :=
  fun hs _ => h s.size s.size s'.size (Nat.le_refl _) hsize hs (Nat.le_refl _)

end Matches

theorem matches_of_unfolds {step step' : Reader α → Reader α}
    {run run' : Nat → Reader α} {n n' : Nat}
    (hrun : Unfolds step run) (hrun' : Unfolds step' run')
    (hstep : ∀ l < limit, ∀ p p',
      (∀ s s', T.Beside s s' → T.Matches m l least p p' s s') →
      ∀ s s', T.Beside s s' → T.Matches m (l + 1) least (step p) (step' p') s s')
    (hn : limit ≤ n) (hn' : limit ≤ n') (h : T.Beside s s') :
    T.Matches m limit least (run n) (run' n') s s' :=
  hrun.related (R := fun l p p' => ∀ s s', T.Beside s s' → T.Matches m l least p p' s s') hrun'
    (fun _ _ _ _ _ => .zero) hstep hn hn' s s' h

/-- Streams of the same tokens in other places. -/
def moved (g : Position → Position) (strict : Prop) : Tandem where
  move := g
  strict := strict
  Beside s s' := s' = s.move g
  size_le h := Nat.le_of_eq (by rw [h, Stream.size_move])
  previousEnd h := by rw [h]; rfl
  current h := by
    rw [h]
    exact .inl rfl
  advance h _ := by rw [h, Stream.advance_move]

theorem beside_self (s : Stream) : (moved id True).Beside s s := s.move_id.symm

theorem starts_self (s : Stream) : (moved id True).Starts s s :=
  starts_of_strict (beside_self s) trivial

theorem Matches.eq (h : (moved id True).Matches m s.size least r r' s s)
    (hm : ∀ a, m a = a) (hs : s.Ends) : r' s = r s := by
  have h := h hs (Nat.le_refl _)
  generalize r s = run, r' s = run' at h
  cases h with
  | @ok _ a s₁ s₁' _ _ hbeside =>
    obtain rfl : s₁' = s₁ := hbeside.trans s₁.move_id
    rw [hm]
  | @error _ e s₁ _ _ _ hstrict =>
    obtain ⟨s₁', rfl, hbeside⟩ := hstrict trivial
    obtain rfl : s₁' = s₁ := hbeside.trans s₁.move_id
    rfl

end Tandem
end Scriptor
