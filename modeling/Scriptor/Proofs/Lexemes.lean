import Scriptor.Token.Cursor

namespace Scriptor

namespace Pattern

theorem run_append (p : Char → Bool) (cs : List Char) : (run p cs).1 ++ (run p cs).2 = cs :=
  List.takeWhile_append_dropWhile

theorem Split.after_append (front : List Char) (s : Split) :
    (s.after front).1 ++ (s.after front).2 = front ++ (s.1 ++ s.2) :=
  List.append_assoc _ _ _

theorem fraction_append (cs : List Char) : (fraction cs).1 ++ (fraction cs).2 = cs := by
  fun_cases fraction cs with
  | case1 => rfl
  | case2 cs => rw [Split.after_append, run_append]; rfl
  | case3 => rfl

theorem sign_append (cs : List Char) : (sign cs).1 ++ (sign cs).2 = cs := by
  fun_cases sign cs <;> rfl

theorem exponent_append (cs : List Char) : (exponent cs).1 ++ (exponent cs).2 = cs := by
  fun_cases exponent cs with
  | case1 => rfl
  | case2 mark cs =>
    rw [Split.after_append, run_append, List.cons_append, sign_append]
  | case3 => rfl

theorem stringTail_append {quote : Char} {cs : List Char} {s : Split}
    (h : stringTail quote cs = some s) : s.1 ++ s.2 = cs ∧ ∃ inner, s.1 = inner ++ [quote] := by
  have hafter {front cs : List Char} {s : Split}
      (hs : s.1 ++ s.2 = cs ∧ ∃ inner, s.1 = inner ++ [quote]) :
      (s.after front).1 ++ (s.after front).2 = front ++ cs ∧
      ∃ inner, (s.after front).1 = inner ++ [quote] := by
    obtain ⟨happ, inner, hi⟩ := hs
    rw [Split.after_append, happ, Split.after, hi]
    exact ⟨rfl, front ++ inner, (List.append_assoc _ _ _).symm⟩
  fun_induction stringTail quote cs generalizing s with
  | case1 | case2 | case3 | case6 => cases h
  | case4 c cs _ ih =>
    obtain ⟨t, ht, rfl⟩ := Option.map_eq_some_iff.1 h
    exact hafter (ih ht)
  | case5 cs => cases h; exact ⟨rfl, [], rfl⟩
  | case7 c cs _ _ _ _ ih =>
    obtain ⟨t, ht, rfl⟩ := Option.map_eq_some_iff.1 h
    exact hafter (ih ht)

theorem literal_append {spelling cs : List Char} {s : Split} (h : literal spelling cs = some s) :
    s.1 = spelling ∧ spelling ++ s.2 = cs := by
  induction spelling generalizing cs s with
  | nil => cases h; exact ⟨rfl, rfl⟩
  | cons a as ih =>
    cases cs with
    | nil => cases h
    | cons c cs =>
      obtain ⟨rfl, h⟩ := Option.ite_none_right_eq_some.1 h
      obtain ⟨t, ht, rfl⟩ := Option.map_eq_some_iff.1 h
      obtain ⟨rfl, happ⟩ := ih ht
      exact ⟨rfl, congrArg (a :: ·) happ⟩

theorem split?_append {p : Pattern} {cs : List Char} {s : Split} (h : p.split? cs = some s) :
    s.1 ++ s.2 = cs := by
  cases cs with
  | nil => cases p <;> cases h
  | cons c cs =>
    cases p with
    | word | blank =>
      obtain ⟨-, h⟩ := Option.ite_none_right_eq_some.1 h
      cases h
      rw [Split.after_append, run_append]
      rfl
    | number =>
      obtain ⟨-, h⟩ := Option.ite_none_right_eq_some.1 h
      cases h
      rw [List.append_assoc, exponent_append, List.append_assoc, fraction_append, run_append]
    | string quote =>
      obtain ⟨-, h⟩ := Option.ite_none_right_eq_some.1 h
      obtain ⟨t, ht, rfl⟩ := Option.map_eq_some_iff.1 h
      rw [Split.after_append, (stringTail_append ht).1]
      rfl
    | comment =>
      obtain ⟨t, ht, rfl⟩ := Option.map_eq_some_iff.1 h
      obtain ⟨h₁, h₂⟩ := literal_append ht
      rw [Split.after_append, run_append, h₁, h₂]
    | symbol kind spelling value =>
      obtain ⟨h₁, h₂⟩ := literal_append h
      rw [h₁, h₂]

theorem split?_string {quote : Char} {cs : List Char} {s : Split}
    (h : (Pattern.string quote).split? cs = some s) :
    ∃ inner, s.1 = quote :: (inner ++ [quote]) := by
  cases cs with
  | nil => cases h
  | cons c cs =>
    obtain ⟨rfl, h⟩ := Option.ite_none_right_eq_some.1 h
    obtain ⟨t, ht, rfl⟩ := Option.map_eq_some_iff.1 h
    obtain ⟨-, inner, hi⟩ := stringTail_append ht
    refine ⟨inner, ?_⟩
    rw [Split.after, hi]
    rfl

theorem first?_generation {cs : List Char} {p : Pattern} {s : Split} (h : first? cs = some (p, s)) :
    p ∈ all ∧ p.split? cs = some s := by
  obtain ⟨q, hq, h⟩ := List.exists_of_findSome?_eq_some h
  obtain ⟨t, ht, h⟩ := Option.map_eq_some_iff.1 h
  cases h
  exact ⟨hq, ht⟩

/-- Whether the pattern is no symbol that is passed by another text than it matches. -/
def isPassedAsSpelled : Pattern → Bool
  | .symbol _ spelling value => value = spelling
  | _ => true

theorem value_eq_spelling {kind : Kind} {spelling value : String}
    (h : .symbol kind spelling value ∈ all) : value = spelling := by
  have hall : all.all isPassedAsSpelled = true := by decide +kernel
  exact of_decide_eq_true (List.all_eq_true.1 hall _ h)

theorem split?_symbol {kind : Kind} {spelling value : String} {cs : List Char} {s : Split}
    (h : (symbol kind spelling value).split? cs = some s) : s.1 = spelling.toList := by
  cases cs with
  | nil => cases h
  | cons c cs => exact (literal_append h).1

/-- What is passed is what has been matched. -/
theorem first?_consumed {cs lexeme rest : List Char} {p : Pattern}
    (h : first? cs = some (p, lexeme, rest)) : p.consumed lexeme = lexeme := by
  obtain ⟨hp, hs⟩ := first?_generation h
  cases p with
  | symbol kind spelling value =>
    rw [consumed, value_eq_spelling hp]
    exact (split?_symbol hs).symm
  | word | number | blank | string quote | comment => rfl

end Pattern

theorem dropBytes_append (text rest : List Char) :
    dropBytes (byteCount text) (text ++ rest) = rest := by
  induction text with
  | nil => simp only [byteCount, List.foldr_nil, List.nil_append, dropBytes]
  | cons c cs ih =>
    have hc := Char.utf8Size_pos c
    obtain ⟨n, hn⟩ : ∃ n, c.utf8Size + byteCount cs = n + 1 :=
      ⟨c.utf8Size + byteCount cs - 1, by omega⟩
    change dropBytes (c.utf8Size + byteCount cs) (c :: (cs ++ rest)) = rest
    rw [hn, dropBytes, ← hn, Nat.add_sub_cancel_left, ih]

namespace Cursor

theorem advance_rest {c : Cursor} {p : Pattern} {lexeme rest : List Char}
    (h : Pattern.first? c.rest = some (p, lexeme, rest)) : (c.advance lexeme).rest = rest := by
  have happ := Pattern.split?_append (Pattern.first?_generation h).2
  rw [advance, ← happ, dropBytes_append]

/-- The cursors that reading comes to. -/
inductive Reaches (c : Cursor) : Cursor → Prop where
  | refl : Reaches c c
  | skip {d : Cursor} {p : Pattern} {lexeme rest : List Char} : Reaches c d →
      Pattern.first? d.rest = some (p, lexeme, rest) → p.token? lexeme = none →
      Reaches c (d.advance (p.consumed lexeme))
  | take {d : Cursor} {p : Pattern} {lexeme rest : List Char} {t : Kind × String} : Reaches c d →
      Pattern.first? d.rest = some (p, lexeme, rest) → p.token? lexeme = some t →
      Reaches c (d.pass (p.consumed lexeme))

theorem Reaches.append {c d : Cursor} (h : c.Reaches d) : ∃ read, read ++ d.rest = c.rest := by
  have hstep {d : Cursor} {p : Pattern} {lexeme rest : List Char}
      (hf : Pattern.first? d.rest = some (p, lexeme, rest))
      (hd : ∃ read, read ++ d.rest = c.rest) :
      ∃ read, read ++ (d.advance (p.consumed lexeme)).rest = c.rest := by
    obtain ⟨read, hr⟩ := hd
    refine ⟨read ++ lexeme, ?_⟩
    rw [Pattern.first?_consumed hf, advance_rest hf, List.append_assoc,
      Pattern.split?_append (Pattern.first?_generation hf).2, hr]
  induction h with
  | refl => exact ⟨[], rfl⟩
  | skip _ hf _ ih => exact hstep hf ih
  | take _ hf _ ih => exact hstep hf ih

end Cursor
end Scriptor
