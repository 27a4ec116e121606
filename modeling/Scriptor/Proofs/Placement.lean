import Scriptor.Proofs.Equivariance
import Scriptor.Proofs.Reading.Lockstep
import Scriptor.Proofs.Safety

namespace Scriptor

namespace Stream

theorem map_move_closed (g : Position → Position) (t : Token) (ts : List Token) :
    (closed t ts).map (Token.move g) = closed (t.move g) (ts.map (Token.move g)) := by
  induction ts generalizing t with
  | nil =>
    rw [List.map_nil, closed, closed, apply_ite (List.map (Token.move g))]
    rfl
  | cons u us ih => exact congrArg (u.move g :: ·) (ih u)

theorem ofTokens_move_nowhere {ts us : List Token} (h : ts.map Token.bare = us.map Token.bare)
    (file file' : String) :
    (ofTokens ts file).move (fun _ => .nowhere) = (ofTokens us file').move fun _ => .nowhere := by
  have hclosed (t : Token) (ts : List Token) :
      (closed t ts).map (Token.move fun _ => .nowhere) = closed t.bare (ts.map Token.bare) :=
    map_move_closed _ t ts
  cases ts with
  | nil =>
    cases us with
    | nil => rfl
    | cons u us => cases h
  | cons t ts =>
    cases us with
    | nil => cases h
    | cons u us =>
      obtain ⟨ht, hts⟩ := List.cons.inj h
      have hcurrent : t.move (fun _ => .nowhere) = u.move fun _ => .nowhere := ht
      rw [ofTokens, ofTokens, move, move, hclosed, hclosed, hcurrent, ht, hts]

end Stream

/-- Whether two stages end alike, in errors with the same cause or in values that are the same in a
given sense. -/
inductive Concurs {α : Type} (same : α → α → Prop) :
    Except Error α → Except Error α → Prop where
  | ok {a b : α} : same a b → Concurs same (.ok a) (.ok b)
  | error {e e' : Error} : e'.cause = e.cause → Concurs same (.error e) (.error e')

theorem Concurs.bind {α β : Type} {same : α → α → Prop} {same' : β → β → Prop}
    {x y : Except Error α} {f : α → Except Error β} (h : Concurs same x y)
    (hf : ∀ a b, same a b → Concurs same' (f a) (f b)) :
    Concurs same' (x >>= f) (y >>= f) := by
  cases h with
  | ok h => exact hf _ _ h
  | error h => exact .error h

/-- Errors that differ in their places only have the same cause. -/
theorem Concurs.of_bare {α : Type} {f : α → α} {x y : Except Error α}
    (h : (x.map f).mapError (Error.move fun _ => .nowhere) =
      (y.map f).mapError (Error.move fun _ => .nowhere)) :
    Concurs (fun a b => f a = f b) x y := by
  cases x with
  | ok a =>
    cases y with
    | ok b => exact .ok (Except.ok.inj h)
    | error e' => cases h
  | error e =>
    cases y with
    | ok b => cases h
    | error e' =>
      have hmove : e.move (fun _ => .nowhere) = e'.move fun _ => .nowhere := Except.error.inj h
      exact .error (congrArg Error.cause hmove).symm

/-- Reading tokens and then moving what comes of them is reading moved tokens. -/
theorem parse_moved (g : Position → Position) (ts : List Token) (file : String) :
    (Reader.program ((Stream.ofTokens ts file).move g)).1 =
      ((parse ts file).map (Program.move g)).mapError (Error.move g) := by
  have h :=
    Tandem.matches_program (T := .moved g True) trivial rfl
      (Stream.ofTokens_ends ts file) (Nat.le_refl _)
  rw [parse]
  generalize Reader.program (.ofTokens ts file) = run,
    Reader.program ((Stream.ofTokens ts file).move g) = run' at h ⊢
  cases h with
  | ok => rfl
  | error _ _ hstrict =>
    obtain ⟨s', rfl, -⟩ := hstrict trivial
    rfl

theorem parse_concurs {ts us : List Token} (h : ts.map Token.bare = us.map Token.bare)
    (file file' : String) :
    Concurs (fun p q => p.bare = q.bare) (parse ts file) (parse us file') := by
  apply Concurs.of_bare
  change ((parse ts file).map (Program.move fun _ => .nowhere)).mapError _ =
    ((parse us file').map (Program.move fun _ => .nowhere)).mapError _
  rw [← parse_moved _ ts file, Stream.ofTokens_move_nowhere h file file', parse_moved _ us file']

theorem Relabeling.Carried.eq {block : Bool} {c c' : Cause} (h : bare.Carried block c c') :
    c' = c := by
  cases h <;> rfl

theorem Relabeling.Carries.bare {x y : Except Error Typed.Program}
    (h : bare.Carries true (fun t => ⟨t.statements, t.entities.rename id⟩) x y) :
    y = (x.map id).mapError (Error.move fun _ => .nowhere) := by
  cases h with
  | ok t =>
    rw [t.entities.rename_id]
    rfl
  | error p hc =>
    rw [hc.eq]
    rfl

theorem check_concurs {p q : Program} (h : p.bare = q.bare) : Concurs Eq p.check q.check := by
  have hrelabel : p.relabel .bare = q.relabel .bare := congrArg (Program.rename id) h
  have hbare := (Relabeling.carries_program p).bare
  rw [hrelabel, (Relabeling.carries_program q).bare] at hbare
  exact .of_bare hbare.symm

/-- Two lists of tokens that differ in places only make the same typed program, which has a script,
or are rejected for the same cause. -/
theorem check_of_same_tokens {ts us : List Token}
    (h : List.Forall₂ (fun t u => t.kind = u.kind ∧ t.value = u.value ∧
      t.newlineBefore = u.newlineBefore) ts us)
    (file file' : String) :
    (∃ t, (parse ts file >>= Program.check) = .ok t ∧
      (parse us file' >>= Program.check) = .ok t ∧
      ∀ simplify, ∃ text, (t.simplifyIf simplify).script = .ok text) ∨
    ∃ e e', (parse ts file >>= Program.check) = .error e ∧
      (parse us file' >>= Program.check) = .error e' ∧ e'.cause = e.cause := by
  have hbare : ts.map Token.bare = us.map Token.bare := by
    induction h with
    | nil => rfl
    | @cons t u ts us ht _ ih =>
      obtain ⟨hkind, hvalue, hline⟩ := ht
      rw [List.map_cons, List.map_cons, ih, Token.bare, Token.bare, hkind, hvalue, hline]
  have hconcurs := (parse_concurs hbare file file').bind fun p q hpq => check_concurs hpq
  generalize hx : (parse ts file >>= Program.check) = x,
    (parse us file' >>= Program.check) = y at hconcurs ⊢
  cases hconcurs with
  | @ok t t' ht =>
    subst ht
    obtain ⟨p, -, hcheck⟩ := bind_eq_ok_iff.1 hx
    refine .inl ⟨t, rfl, rfl, fun simplify => ?_⟩
    exact ((Program.check_wellFormed hcheck).simplifyIf simplify).script
  | @error e e' hcause => exact .inr ⟨e, e', rfl, rfl, hcause⟩

def Token.printing (span : Span) : List Token :=
  [⟨.identifier, "x", span, false⟩, ⟨.assignment, "=", span, false⟩,
   ⟨.number, "1", span, false⟩, ⟨.identifier, "print", span, true⟩,
   ⟨.openParen, "(", span, false⟩, ⟨.identifier, "x", span, false⟩,
   ⟨.closeParen, ")", span, false⟩, .eof span.stop false]

theorem check_of_same_tokens_printing :
    ∃ t, (parse (Token.printing .nowhere) "" >>= Program.check) = .ok t ∧
      (parse (Token.printing ⟨⟨3, 7, "a"⟩, ⟨2, 1, "b"⟩⟩) "a" >>= Program.check) =
        .ok t := by
  have hsame : List.Forall₂
      (fun t u => t.kind = u.kind ∧ t.value = u.value ∧ t.newlineBefore = u.newlineBefore)
      (Token.printing .nowhere) (Token.printing ⟨⟨3, 7, "a"⟩, ⟨2, 1, "b"⟩⟩) := by
    simp [Token.printing, Token.eof]
  obtain ⟨t, ht⟩ : ∃ t, (parse (Token.printing .nowhere) "" >>= Program.check) = .ok t :=
    ⟨_, rfl⟩
  rcases check_of_same_tokens hsame "" "a" with ⟨t, h, h', -⟩ | ⟨e, e', h, -⟩
  · exact ⟨t, h, h'⟩
  · cases ht.symm.trans h

end Scriptor
