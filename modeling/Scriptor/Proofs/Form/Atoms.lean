import Scriptor.Proofs.Form.Basic
import Scriptor.Proofs.Numerals

namespace Scriptor.Script.Form

open Pattern (Split isWordPart isWordStart run)

@[simp] theorem skip_blank {cs : List Char} : skip (' ' :: cs) = skip cs := rfl

theorem skip_cons {c : Char} {cs : List Char} (hc : c ≠ ' ') : skip (c :: cs) = c :: cs := by
  simp [skip, hc]

/-- Where a word ends. -/
def EndsWord (rest : List Char) : Prop := ∀ c ∈ rest.head?, isWordPart c = false

/-- Where an operand ends. -/
def EndsOperand (rest : List Char) : Prop :=
  EndsWord rest ∧ ∀ c ∈ (skip rest).head?, c ∉ ['(', '[', '.']

theorem EndsWord.not_isDigit {rest : List Char} (h : EndsWord rest) :
    ∀ c ∈ rest.head?, c.isDigit = false := by
  intro c hc
  have hpart := h c hc
  simp only [isWordPart, Char.isAlphanum, Bool.or_eq_false_iff] at hpart
  exact hpart.1.2

theorem EndsOperand.head?_ne_point {rest : List Char} (h : EndsOperand rest) :
    rest.head? ≠ some '.' := by
  intro hpoint
  obtain ⟨cs, rfl⟩ : ∃ cs, rest = '.' :: cs := by
    cases rest with
    | nil => cases hpoint
    | cons c cs =>
      cases hpoint
      exact ⟨cs, rfl⟩
  exact h.2 '.' rfl (by decide)

section Words

variable {word rest : List Char}

theorem word_append (h : Pattern.word.split? word = some (word, [])) (hrest : EndsWord rest) :
    Pattern.word.split? (word ++ rest) = some (word, rest) := by
  cases word with
  | nil => cases h
  | cons c cs =>
    obtain ⟨hc, h⟩ := Option.ite_none_right_eq_some.1 h
    have hparts : ∀ d ∈ cs, isWordPart d = true := by
      have htake : cs.takeWhile isWordPart = cs :=
        (List.cons.inj (Prod.mk.inj (Option.some.inj h)).1).2
      intro d hd
      rw [← htake] at hd
      exact List.mem_takeWhile_imp hd
    have hrun : run isWordPart (cs ++ rest) = (cs, rest) := Pattern.run_of_head? hparts hrest
    rw [List.cons_append, Pattern.split?, if_pos hc, hrun]
    rfl

theorem name_append (h : name? word = some (word, [])) (hrest : EndsWord rest) :
    name? (word ++ rest) = some (word, rest) := by
  obtain ⟨hsplit, hfree⟩ := Option.filter_eq_some_iff.1 h
  exact Option.filter_eq_some_iff.2 ⟨word_append hsplit hrest, hfree⟩

theorem name?_cons (h : name? word = some (word, [])) :
    ∃ c cs, word = c :: cs ∧ isWordStart c = true := by
  obtain ⟨hsplit, -⟩ := Option.filter_eq_some_iff.1 h
  cases word with
  | nil => cases hsplit
  | cons c cs => exact ⟨c, cs, rfl, (Option.ite_none_right_eq_some.1 hsplit).1⟩

end Words

/-- Digits, perhaps with a point. A leading zero stands alone. -/
inductive IsNumber : List Char → Prop where
  | whole {digits : List Char} :
      IsDigits digits → (∀ cs, digits = '0' :: cs → cs = []) → IsNumber digits
  | fraction {digits fraction : List Char} :
      IsDigits digits → (∀ cs, digits = '0' :: cs → cs = []) →
      (∀ c ∈ fraction, c.isDigit = true) → IsNumber (digits ++ '.' :: fraction)

section Numbers

variable {number rest : List Char}

theorem fraction_of_head? (h : rest.head? ≠ some '.') : fraction rest = ([], rest) := by
  rw [fraction]
  rintro cs rfl
  exact h rfl

theorem fraction_append {digits : List Char} (hd : ∀ c ∈ digits, c.isDigit = true)
    (hrest : ∀ c ∈ rest.head?, c.isDigit = false) :
    fraction ('.' :: (digits ++ rest)) = ('.' :: digits, rest) := by
  rw [fraction, Pattern.run_of_head? hd hrest]
  rfl

theorem EndsWord.any_eq_false (h : EndsWord rest) : rest.head?.any isWordPart = false := by
  cases rest with
  | nil => rfl
  | cons c cs => exact h c rfl

theorem IsNumber.number?_append (h : IsNumber number) (hrest : EndsOperand rest) :
    number? (number ++ rest) = some (number, rest) := by
  have hdigit := hrest.1.not_isDigit
  cases h with
  | whole hd hzero =>
    obtain ⟨c, cs, rfl, hc⟩ := hd.exists_cons
    have hlead : c = '0' → cs = [] := fun hz => hzero cs (hz ▸ rfl)
    have hrun : run Char.isDigit (c :: (cs ++ rest)) = (c :: cs, rest) :=
      Pattern.run_of_head? hd.2 hdigit
    simpa [number?, hrun, fraction_of_head? hrest.head?_ne_point, hc, hrest.1.any_eq_false,
      Split.after] using hlead
  | @fraction digits fraction hd hzero hf =>
    obtain ⟨c, cs, rfl, hc⟩ := hd.exists_cons
    have hlead : c = '0' → cs = [] := fun hz => hzero cs (hz ▸ rfl)
    have hpoint : ∀ c ∈ ('.' :: (fraction ++ rest)).head?, c.isDigit = false := by
      rintro c ⟨⟩
      rfl
    have hrun : run Char.isDigit (c :: (cs ++ '.' :: (fraction ++ rest))) =
        (c :: cs, '.' :: (fraction ++ rest)) :=
      Pattern.run_of_head? hd.2 hpoint
    simpa [number?, hrun, fraction_append hf hdigit, hc, hrest.1.any_eq_false,
      Split.after] using hlead

theorem fraction_generation (cs : List Char) :
    (fraction cs).1 = [] ∨ ∃ digits, (fraction cs).1 = '.' :: digits ∧
    ∀ c ∈ digits, c.isDigit = true := by
  fun_cases fraction cs with
  | case1 cs =>
    refine .inr ⟨(run Char.isDigit cs).1, rfl, ?_⟩
    intro c hc
    exact List.mem_takeWhile_imp hc
  | case2 => exact .inl rfl

theorem isNumber_of_number? {cs : List Char} (h : number? cs = some (number, rest)) :
    IsNumber number := by
  cases cs with
  | nil => cases h
  | cons c cs =>
    obtain ⟨hcond, h⟩ := Option.ite_none_right_eq_some.1 h
    simp only [Bool.and_eq_true, Bool.or_eq_true, bne_iff_ne, beq_iff_eq] at hcond
    obtain ⟨⟨hc, hlead⟩, -⟩ := hcond
    have hwhole : (run Char.isDigit (c :: cs)).1 = c :: cs.takeWhile Char.isDigit := by
      simp [run, hc]
    have hdigits : IsDigits (run Char.isDigit (c :: cs)).1 :=
      Pattern.run_isDigits (by simp [hwhole])
    have hzero : ∀ ds, (run Char.isDigit (c :: cs)).1 = '0' :: ds → ds = [] := by
      intro ds hds
      rcases hlead with hne | hlength
      · exact absurd (List.cons.inj (hwhole.symm.trans hds)).1 hne
      · rw [hds] at hlength
        simpa using hlength
    obtain rfl := (Prod.mk.inj (Option.some.inj h)).1
    rcases fraction_generation (run Char.isDigit (c :: cs)).2 with hnone | ⟨digits, hsome, hall⟩
    · rw [hnone, List.append_nil]
      exact .whole hdigits hzero
    · rw [hsome]
      exact .fraction hdigits hzero hall

end Numbers

section Strings

variable {string rest : List Char}

theorem stringTail_escape {c : Char} {cs : List Char} (hc : c ∈ ['"', '\\', 'n', 'r', 't']) :
    stringTail ('\\' :: c :: cs) = (stringTail cs).map (Split.after ['\\', c]) := by
  rw [stringTail, if_pos hc]
  · rintro a b ds rfl
    exact absurd hc (by decide)
  · rintro a b d e ds rfl
    exact absurd hc (by decide)

theorem stringTail_plain {c : Char} {cs : List Char} (hc : c ∉ ['"', '\\', '\n', '\r']) :
    stringTail (c :: cs) = (stringTail cs).map (Split.after [c]) := by
  rw [List.mem_cons, not_or] at hc
  have hslash : c ≠ '\\' := by
    rintro rfl
    exact hc.2 (by decide)
  rw [stringTail, if_neg hc.2]
  · exact hc.1
  · rintro a b ds rfl
    exact absurd rfl hslash
  · rintro a b d e ds rfl
    exact absurd rfl hslash
  · rintro d ds rfl
    exact absurd rfl hslash

theorem stringTail_append {cs : List Char} {s : Split} (h : stringTail cs = some s)
    (rest : List Char) : stringTail (cs ++ rest) = some (s.1, s.2 ++ rest) := by
  fun_induction stringTail cs generalizing s with
  | case1 cs => cases h; rfl
  | case2 a b cs hhex ih =>
    obtain ⟨t, ht, rfl⟩ := Option.map_eq_some_iff.1 h
    simp [stringTail, hhex, ih ht, Split.after]
  | case4 a b c d cs hhex ih =>
    obtain ⟨t, ht, rfl⟩ := Option.map_eq_some_iff.1 h
    simp [stringTail, hhex, ih ht, Split.after]
  | case6 c cs _ _ hc ih =>
    obtain ⟨t, ht, rfl⟩ := Option.map_eq_some_iff.1 h
    rw [List.cons_append, List.cons_append, stringTail_escape hc, ih ht]
    rfl
  | case9 c cs hquote _ _ _ hc ih =>
    obtain ⟨t, ht, rfl⟩ := Option.map_eq_some_iff.1 h
    rw [List.cons_append, stringTail_plain (List.mem_cons.not.2 (not_or.2 ⟨hquote, hc⟩)), ih ht]
    rfl
  | _ => cases h

theorem string?_cons {text : List Char} {s : Split} (h : string? text = some s) :
    ∃ cs, text = '"' :: cs := by
  revert h
  fun_cases string? text with
  | case1 cs => exact fun _ => ⟨cs, rfl⟩
  | case2 => exact nofun

theorem string?_append (h : string? string = some (string, [])) (rest : List Char) :
    string? (string ++ rest) = some (string, rest) := by
  revert h
  fun_cases string? string with
  | case1 cs =>
    intro h
    obtain ⟨⟨front, back⟩, ht, heq⟩ := Option.map_eq_some_iff.1 h
    obtain ⟨hfront, rfl⟩ := Prod.mk.inj heq
    obtain rfl : front = cs := (List.cons.inj hfront).2
    rw [List.cons_append, string?, stringTail_append ht rest]
    rfl
  | case2 => exact nofun

end Strings

theorem number?_eq_none {c : Char} {cs : List Char} (hc : c.isDigit = false) :
    number? (c :: cs) = none := by
  simp [number?, hc]

theorem string?_eq_none {c : Char} {cs : List Char} (hc : c ≠ '"') :
    string? (c :: cs) = none := by
  rw [string?]
  intro ds heq
  exact hc (List.cons.inj heq).1

section Atoms

variable {text rest : List Char}

theorem atom?_generation (h : atom? text = some (text, [])) :
    IsNumber text ∨ string? text = some (text, []) ∨ name? text = some (text, []) := by
  rcases Option.or_eq_some_iff.1 h with hnumber | ⟨-, h⟩
  · exact .inl (isNumber_of_number? hnumber)
  · rcases Option.or_eq_some_iff.1 h with hstring | ⟨-, hname⟩
    · exact .inr (.inl hstring)
    · exact .inr (.inr hname)

theorem IsNumber.atom?_append (h : IsNumber text) (hrest : EndsOperand rest) :
    atom? (text ++ rest) = some (text, rest) := by
  rw [atom?, h.number?_append hrest, Option.some_or]

theorem string_atom?_append (h : string? text = some (text, [])) (rest : List Char) :
    atom? (text ++ rest) = some (text, rest) := by
  obtain ⟨cs, rfl⟩ := string?_cons h
  have hnumber : number? ('"' :: cs ++ rest) = none := number?_eq_none rfl
  rw [atom?, hnumber, string?_append h rest]
  rfl

theorem name_atom?_append (h : name? text = some (text, [])) (hrest : EndsWord rest) :
    atom? (text ++ rest) = some (text, rest) := by
  obtain ⟨c, cs, rfl, hc⟩ := name?_cons h
  have hquote : c ≠ '"' := by
    rintro rfl
    exact absurd hc (by decide)
  have hnumber : number? (c :: cs ++ rest) = none :=
    number?_eq_none (Pattern.not_isDigit_of_isWordStart hc)
  have hstring : string? (c :: cs ++ rest) = none := string?_eq_none hquote
  rw [atom?, hnumber, hstring, name_append h hrest]
  rfl

theorem atom?_of_name? (h : name? text = some (text, [])) : atom? text = some (text, []) := by
  have hends : EndsWord [] := nofun
  have happend := name_atom?_append h hends
  rwa [List.append_nil] at happend

theorem atom?_append (h : atom? text = some (text, [])) (hrest : EndsOperand rest) :
    atom? (text ++ rest) = some (text, rest) := by
  rcases atom?_generation h with hnumber | hstring | hname
  · exact hnumber.atom?_append hrest
  · exact string_atom?_append hstring rest
  · exact name_atom?_append hname hrest.1

theorem IsNumber.exists_cons (h : IsNumber text) :
    ∃ c cs, text = c :: cs ∧ c.isDigit = true := by
  cases h with
  | whole hd => exact hd.exists_cons
  | fraction hd =>
    obtain ⟨c, cs, rfl, hc⟩ := hd.exists_cons
    exact ⟨c, _, rfl, hc⟩

theorem atom?_cons (h : atom? text = some (text, [])) :
    ∃ c cs, text = c :: cs ∧ (c.isDigit = true ∨ c = '"' ∨ isWordStart c = true) := by
  rcases atom?_generation h with hnumber | hstring | hname
  · obtain ⟨c, cs, rfl, hc⟩ := hnumber.exists_cons
    exact ⟨c, cs, rfl, .inl hc⟩
  · obtain ⟨cs, rfl⟩ := string?_cons hstring
    exact ⟨'"', cs, rfl, .inr (.inl rfl)⟩
  · obtain ⟨c, cs, rfl, hc⟩ := name?_cons hname
    exact ⟨c, cs, rfl, .inr (.inr hc)⟩

theorem atom_append_ne_new (h : atom? text = some (text, [])) (hrest : EndsWord rest)
    (cs : List Char) : text ++ rest ≠ 'n' :: 'e' :: 'w' :: ' ' :: cs := by
  intro heq
  rcases atom?_generation h with hnumber | hstring | hname
  · obtain ⟨c, ds, rfl, hc⟩ := hnumber.exists_cons
    rw [(List.cons.inj heq).1] at hc
    exact absurd hc (by decide)
  · obtain ⟨ds, rfl⟩ := string?_cons hstring
    exact absurd (List.cons.inj heq).1 (by decide)
  · have hread := name_append hname hrest
    have hnone : name? ('n' :: 'e' :: 'w' :: ' ' :: cs) = none := rfl
    rw [heq, hnone] at hread
    cases hread

end Atoms

end Scriptor.Script.Form
