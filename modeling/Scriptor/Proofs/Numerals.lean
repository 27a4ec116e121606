import Mathlib.Data.List.TakeWhile
import Mathlib.Data.Nat.Digits.Defs
import Scriptor.Check.Expression
import Scriptor.Proofs.Lexemes

namespace Scriptor

def IsDigits (cs : List Char) : Prop := cs ≠ [] ∧ ∀ c ∈ cs, c.isDigit = true

inductive IsFraction : List Char → Prop where
  | none : IsFraction []
  | some {digits : List Char} : IsDigits digits → IsFraction ('.' :: digits)

inductive IsExponent : List Char → Prop where
  | none : IsExponent []
  | some {mark : Char} {sign digits : List Char} :
      mark ∈ ['e', 'E'] → sign ∈ [[], ['+'], ['-']] → IsDigits digits →
      IsExponent (mark :: (sign ++ digits))

inductive Numeral : List Char → Prop where
  | mk {whole fraction exponent : List Char} :
      IsDigits whole → IsFraction fraction → IsExponent exponent →
      Numeral (whole ++ fraction ++ exponent)

theorem IsFraction.mem {cs : List Char} (h : IsFraction cs) {c : Char} (hc : c ∈ cs) :
    c.isDigit = true ∨ c = '.' := by
  cases h with
  | none => cases hc
  | some hd =>
    rcases List.mem_cons.1 hc with rfl | hc
    · exact .inr rfl
    · exact .inl (hd.2 c hc)

theorem IsExponent.mem {cs : List Char} (h : IsExponent cs) {c : Char} (hc : c ∈ cs) :
    c.isDigit = true ∨ c ∈ ['e', 'E', '+', '-'] := by
  cases h with
  | none => cases hc
  | @some mark sign digits hm hs hd =>
    have hsign : c ∈ sign → c ∈ ['+', '-'] := by
      intro h
      simp only [List.mem_cons, List.not_mem_nil, or_false] at hs
      rcases hs with rfl | rfl | rfl <;> simp_all
    rcases List.mem_cons.1 hc with rfl | hc
    · exact .inr (List.mem_append_left ['+', '-'] hm)
    · rcases List.mem_append.1 hc with hc | hc
      · exact .inr (List.mem_append_right ['e', 'E'] (hsign hc))
      · exact .inl (hd.2 c hc)

theorem Numeral.mem {cs : List Char} (h : Numeral cs) {c : Char} (hc : c ∈ cs) :
    c.isDigit = true ∨ c ∈ ['.', 'e', 'E', '+', '-'] := by
  obtain ⟨hw, hf, he⟩ := h
  rcases List.mem_append.1 hc with hc | hc
  · rcases List.mem_append.1 hc with hc | hc
    · exact .inl (hw.2 c hc)
    · exact (hf.mem hc).imp_right fun h => List.mem_cons.2 (.inl h)
  · exact (he.mem hc).imp_right (List.mem_cons_of_mem _)

namespace Pattern

theorem not_isDigit_of_isWordStart {c : Char} (h : isWordStart c = true) : c.isDigit = false := by
  have halpha : c.isAlpha =
    (decide (65 ≤ c.val ∧ c.val ≤ 90) || (97 ≤ c.val && c.val ≤ 122)) := rfl
  simp only [isWordStart, halpha, Bool.or_eq_true, Bool.and_eq_true, decide_eq_true_eq, beq_iff_eq,
    UInt32.le_iff_toNat_le] at h
  rw [Bool.eq_false_iff]
  intro hdigit
  simp only [Char.isDigit, Bool.and_eq_true, decide_eq_true_eq, ge_iff_le,
    UInt32.le_iff_toNat_le] at hdigit
  rcases h with (h | h) | rfl
  · exact absurd (Nat.le_trans h.1 hdigit.2) (by decide)
  · exact absurd (Nat.le_trans h.1 hdigit.2) (by decide)
  · exact absurd hdigit (by decide)

theorem run_isDigits {cs : List Char} (h : (run Char.isDigit cs).1 ≠ []) :
    IsDigits (run Char.isDigit cs).1 := by
  refine ⟨h, ?_⟩
  intro c hc
  exact List.mem_takeWhile_imp hc

theorem fraction_isFraction (cs : List Char) : IsFraction (fraction cs).1 := by
  fun_cases fraction cs with
  | case1 => exact .none
  | case2 cs digits hne =>
    have hdigits : (run Char.isDigit cs).1 ≠ [] := by simpa [digits] using hne
    exact .some (run_isDigits hdigits)
  | case3 => exact .none

theorem sign_mem (cs : List Char) : (sign cs).1 ∈ [[], ['+'], ['-']] := by
  fun_cases sign cs <;> simp

theorem exponent_isExponent (cs : List Char) : IsExponent (exponent cs).1 := by
  fun_cases exponent cs with
  | case1 => exact .none
  | case2 mark cs signed digits h =>
    rw [Bool.and_eq_true, Bool.or_eq_true, beq_iff_eq, beq_iff_eq] at h
    have hmark : mark ∈ ['e', 'E'] := by simpa using h.1
    have hdigits : (run Char.isDigit signed.2).1 ≠ [] := by simpa [digits] using h.2
    exact .some hmark (sign_mem cs) (run_isDigits hdigits)
  | case3 => exact .none

/-- The lexeme of a number is a numeral. -/
theorem split?_numeral {cs : List Char} {s : Split} (h : Pattern.number.split? cs = some s) :
    Numeral s.1 := by
  cases cs with
  | nil => cases h
  | cons c cs =>
    obtain ⟨hc, h⟩ := Option.ite_none_right_eq_some.1 h
    cases h
    have hwhole : (run Char.isDigit (c :: cs)).1 ≠ [] := by simp [run, hc]
    exact .mk (run_isDigits hwhole) (fraction_isFraction _) (exponent_isExponent _)

end Pattern

/-- What makes a numeral floating-point. -/
def IsMarked (cs : List Char) : Prop := '.' ∈ cs ∨ 'e' ∈ cs ∨ 'E' ∈ cs

def decimal (cs : List Char) : Nat := Nat.ofDigits 10 (cs.reverse.map fun c => c.toNat - '0'.toNat)

theorem IsDigits.exists_cons {cs : List Char} (h : IsDigits cs) :
    ∃ c rest, cs = c :: rest ∧ c.isDigit = true := by
  obtain ⟨c, rest, rfl⟩ := List.exists_cons_of_ne_nil h.1
  exact ⟨c, rest, rfl, h.2 c List.mem_cons_self⟩

theorem Numeral.isDigits {cs : List Char} (h : Numeral cs) (hmark : ¬IsMarked cs) :
    IsDigits cs := by
  obtain ⟨hw, hf, he⟩ := h
  cases hf with
  | some hd => simp [IsMarked] at hmark
  | none =>
    cases he with
    | some hm hs hd =>
      simp only [List.mem_cons, List.not_mem_nil, or_false] at hm
      rcases hm with rfl | rfl <;> simp [IsMarked] at hmark
    | none =>
      rw [List.append_nil, List.append_nil]
      exact hw

theorem Pattern.run_of_head? {p : Char → Bool} {cs rest : List Char}
    (h : ∀ c ∈ cs, p c = true)
    (hrest : ∀ c ∈ rest.head?, p c = false) : run p (cs ++ rest) = (cs, rest) := by
  rw [run, List.takeWhile_append_of_pos h, List.dropWhile_append_of_pos h]
  cases rest with
  | nil => rw [List.takeWhile_nil, List.append_nil, List.dropWhile_nil]
  | cons c rest =>
    have hc : ¬p c = true := by simp [hrest c rfl]
    rw [List.takeWhile_cons_of_neg hc, List.dropWhile_cons_of_neg hc, List.append_nil]

namespace Number

theorem digitsValue_eq_decimal (cs : List Char) : digitsValue cs = decimal cs := by
  rw [digitsValue, decimal, List.map_reverse, Nat.ofDigits_eq_foldr,
    List.foldr_reverse, List.foldl_map]
  simp [Nat.add_comm]

theorem splitSign_of_isDigit {c : Char} {rest : List Char} (h : c.isDigit = true) :
    splitSign (c :: rest) = (false, c :: rest) := by
  rw [splitSign]
  · rintro cs ⟨⟩
    exact absurd h (by decide)
  · rintro cs ⟨⟩
    exact absurd h (by decide)

theorem natural?_of_isDigits {cs : List Char} (h : IsDigits cs) :
    natural? cs = some (decimal cs) := by
  obtain ⟨c, rest, rfl, hc⟩ := h.exists_cons
  have hrest : ∀ d ∈ rest, d.isDigit = true := fun d hd => h.2 d (List.mem_cons_of_mem c hd)
  have hall : (rest.all fun d => d.isDigit || d == '_') = true := by
    rw [List.all_eq_true]
    intro d hd
    rw [hrest d hd, Bool.true_or]
  have hfilter : rest.filter (· != '_') = rest := by
    rw [List.filter_eq_self]
    rintro d hd
    have hne : d ≠ '_' := by
      rintro rfl
      exact absurd (hrest _ hd) (by decide)
    simpa using hne
  rw [natural?, hc, hall, Bool.true_and, if_pos rfl, hfilter, digitsValue_eq_decimal]

theorem integer?_of_isDigits {cs : List Char} (h : IsDigits cs) :
    integer? (String.ofList cs) = some (decimal cs : Int) := by
  obtain ⟨c, rest, rfl, hc⟩ := h.exists_cons
  rw [integer?, String.toList_ofList]
  split
  next hsign =>
    cases hsign
    exact absurd hc (by decide)
  next hsign =>
    cases hsign
    exact absurd hc (by decide)
  next =>
    rw [natural?_of_isDigits h]
    rfl

theorem exponent?_isSome {cs : List Char} (h : IsExponent cs) : (exponent? cs).isSome = true := by
  cases h with
  | none => rfl
  | @some mark sign digits hm hs hd =>
    obtain ⟨c, rest, rfl, hc⟩ := hd.exists_cons
    have hmark : (mark == 'e' || mark == 'E') = true := by simpa using hm
    have hsplit : ∃ negative, splitSign (sign ++ c :: rest) = (negative, c :: rest) := by
      simp only [List.mem_cons, List.not_mem_nil, or_false] at hs
      rcases hs with rfl | rfl | rfl
      · exact ⟨false, splitSign_of_isDigit hc⟩
      · exact ⟨false, rfl⟩
      · exact ⟨true, rfl⟩
    obtain ⟨negative, hsplit⟩ := hsplit
    have hall : (c :: rest).all Char.isDigit = true := List.all_eq_true.2 hd.2
    rw [exponent?, hsplit]
    simp [hmark, hall]

theorem exponent_head? {cs : List Char} (h : IsExponent cs) :
    ∀ c ∈ cs.head?, c ∈ ['e', 'E'] := by
  rintro c hc
  cases h with
  | none => cases hc
  | some hm =>
    cases hc
    exact hm

theorem exponent_head?_not_isDigit {cs : List Char} (h : IsExponent cs) :
    ∀ c ∈ cs.head?, c.isDigit = false := by
  intro c hc
  have hmark := exponent_head? h c hc
  simp only [List.mem_cons, List.not_mem_nil, or_false] at hmark
  rcases hmark with rfl | rfl <;> rfl

theorem splitSign_append {whole rest : List Char} (h : IsDigits whole) :
    splitSign (whole ++ rest) = (false, whole ++ rest) := by
  obtain ⟨c, digits, rfl, hc⟩ := h.exists_cons
  exact splitSign_of_isDigit hc

theorem float?_isSome {cs : List Char} (h : Numeral cs) :
    (float? (String.ofList cs)).isSome = true := by
  obtain @⟨whole, fraction, exponent, hw, hf, he⟩ := h
  obtain ⟨x, hx⟩ := Option.isSome_iff_exists.1 (exponent?_isSome he)
  have hdigit := exponent_head?_not_isDigit he
  rw [float?, String.toList_ofList, List.append_assoc, splitSign_append hw]
  dsimp only
  cases hf with
  | none =>
    obtain ⟨htake, hdrop⟩ := Prod.mk.inj (Pattern.run_of_head? hw.2 hdigit)
    rw [List.nil_append, htake, hdrop]
    split
    next => exact absurd (exponent_head? he '.' rfl) (by decide)
    next => simp [hw.1, hx]
  | @some digits hd =>
    have hpoint : ∀ c ∈ ('.' :: (digits ++ exponent)).head?, c.isDigit = false := by
      rintro c ⟨⟩
      rfl
    obtain ⟨htake, hdrop⟩ := Prod.mk.inj (Pattern.run_of_head? hw.2 hpoint)
    obtain ⟨htake', hdrop'⟩ := Prod.mk.inj (Pattern.run_of_head? hd.2 hdigit)
    rw [List.cons_append, htake, hdrop]
    simp [hw.1, htake', hdrop', hx]

end Number

namespace Check

theorem any_mark_iff {cs : List Char} :
    (cs.any fun c => c == '.' || c == 'e' || c == 'E') = true ↔ IsMarked cs := by
  simp only [List.any_eq_true, Bool.or_eq_true, beq_iff_eq, IsMarked]
  constructor
  · rintro ⟨c, hc, (rfl | rfl) | rfl⟩
    · exact .inl hc
    · exact .inr (.inl hc)
    · exact .inr (.inr hc)
  · rintro (hc | hc | hc)
    · exact ⟨_, hc, .inl (.inl rfl)⟩
    · exact ⟨_, hc, .inl (.inr rfl)⟩
    · exact ⟨_, hc, .inr rfl⟩

/-- A numeral with a point or an exponent is read as a floating-point number. -/
theorem number_of_isMarked {text : String} (h : Numeral text.toList) (hmark : IsMarked text.toList)
    (start : Position) : ∃ x, number text start = .ok (.float x) := by
  obtain ⟨x, hx⟩ := Option.isSome_iff_exists.1 (Number.float?_isSome h)
  rw [String.ofList_toList] at hx
  refine ⟨x, ?_⟩
  rw [number, if_pos (any_mark_iff.2 hmark), hx]
  rfl

/-- Any other numeral is read as the integer of its digits. -/
theorem number_of_not_isMarked {text : String} (h : Numeral text.toList)
    (hmark : ¬IsMarked text.toList)
    (start : Position) : number text start = .ok (.int (decimal text.toList)) := by
  have hx := Number.integer?_of_isDigits (h.isDigits hmark)
  rw [String.ofList_toList] at hx
  rw [number, if_neg (mt any_mark_iff.1 hmark), hx]
  rfl

end Check
end Scriptor
