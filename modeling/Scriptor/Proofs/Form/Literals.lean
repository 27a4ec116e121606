import Mathlib.Tactic.IntervalCases
import Mathlib.Tactic.Positivity
import Scriptor.Proofs.Form.Roundtrip
import Scriptor.Proofs.Naming
import Scriptor.Proofs.Reading.Spelling

namespace Scriptor.Number

structure Leads (digits : List Char) : Prop where
  first : ∃ c cs, digits = c :: cs ∧ c ≠ '0'
  all : ∀ c ∈ digits, c.isDigit = true

theorem Leads.append {digits more : List Char} (h : Leads digits)
    (hmore : ∀ c ∈ more, c.isDigit = true) : Leads (digits ++ more) := by
  obtain ⟨⟨c, cs, rfl, hc⟩, hall⟩ := h
  exact ⟨⟨c, cs ++ more, rfl, hc⟩, List.forall_mem_append.2 ⟨hall, hmore⟩⟩

theorem Leads.take {digits : List Char} (h : Leads digits) {n : Nat} (hn : 0 < n) :
    Leads (digits.take n) := by
  obtain ⟨⟨c, cs, rfl, hc⟩, hall⟩ := h
  obtain ⟨n, rfl⟩ : ∃ k, n = k + 1 := ⟨n - 1, by omega⟩
  exact ⟨⟨c, cs.take n, rfl, hc⟩, fun d hd => hall d (List.mem_of_mem_take hd)⟩

theorem toDigits_leads {n : Nat} (hn : 0 < n) : Leads (Nat.toDigits 10 n) := by
  refine ⟨?_, fun c hc => Nat.isDigit_of_mem_toDigits (by decide) (by decide) hc⟩
  induction n using Nat.strong_induction_on with
  | h n ih =>
    by_cases hlt : n < 10
    · rw [Nat.toDigits_of_lt_base hlt]
      refine ⟨_, [], rfl, ?_⟩
      interval_cases n <;> decide
    · obtain ⟨c, cs, hcs, hc⟩ := ih (n / 10) (by omega) (by omega)
      rw [Nat.toDigits_of_base_le (by decide) (Nat.le_of_not_lt hlt), hcs]
      exact ⟨c, _, rfl, hc⟩

theorem Digits.leads_ofScaled {coefficient : Nat} (h : 0 < coefficient) (exponent : Int) :
    Leads (Digits.ofScaled coefficient exponent).digits := by
  obtain ⟨⟨c, cs, hcs, hc⟩, hall⟩ := toDigits_leads h
  refine ⟨⟨c, (cs.reverse.dropWhile (· == '0')).reverse, ?_, hc⟩, ?_⟩
  · have hkeep : List.dropWhile (· == '0') [c] = [c] := by simp [hc]
    simp only [ofScaled, hcs, List.reverse_cons, List.dropWhile_append, hkeep]
    cases hdrop : cs.reverse.dropWhile (· == '0') with
    | nil => rfl
    | cons d ds => simp
  · intro d hd
    have hmem := List.mem_reverse.1 ((List.dropWhile_suffix _).subset (List.mem_reverse.1 hd))
    exact hall d hmem

namespace Rounding

variable {r : Rounding}

/-- Zero does not round to a number whose interval lies above it. -/
theorem holds_zero (hlow : 0 < r.low) (hup : 0 < r.up) (exponent : Int) :
    r.holds 0 exponent = false := by
  have hpos : 0 < r.low * (r.up * Nat.pow 10 (-exponent).toNat) := by
    have hpow : 0 < Nat.pow 10 (-exponent).toNat := Nat.pow_pos (by decide)
    positivity
  simp only [holds, Nat.zero_mul]
  split
  · rw [decide_eq_false (Nat.not_le.2 hpos), Bool.false_and]
  · rw [decide_eq_false (Nat.not_lt_zero _), Bool.false_and]

theorem onGrid?_pos (hlow : 0 < r.low) (hup : 0 < r.up) {exponent : Int} {coefficient : Nat}
    (h : r.onGrid? exponent = some coefficient) : 0 < coefficient := by
  by_contra hzero
  obtain rfl := Nat.eq_zero_of_not_pos hzero
  have hbelow := holds_zero hlow hup exponent
  simp only [onGrid?] at h
  split at h
  next hfloor _ =>
    split at h
    · rw [Option.some.inj h, hbelow] at hfloor
      cases hfloor
    · cases h
  next hfloor _ =>
    rw [Option.some.inj h, hbelow] at hfloor
    cases hfloor
  next => cases h
  next => cases h

/-- The number has a digit on a grid that is as fine as its first digit. -/
theorem floor_pos (hvalue : 0 < r.value) (hup : 0 < r.up) (hdown : 0 < r.down) {exponent : Int}
    (h : exponent < r.point) : 0 < r.floor exponent := by
  have hscaled : 0 < r.value * r.up := Nat.mul_pos hvalue hup
  have hpow (n : Nat) : 0 < Nat.pow 10 n := Nat.pow_pos (by decide)
  apply Nat.div_pos _ (Nat.mul_pos hdown (hpow _))
  simp only [point] at h
  split at h
  next =>
    -- below one the digits before the first are zeros
    generalize hq : Nat.toDigits 10 (r.down / (r.value * r.up)) = digits at h
    have hlength : digits.length ≤ (-exponent).toNat := by omega
    have hquotient : r.down / (r.value * r.up) < 10 ^ digits.length := by
      have hpos : 0 < digits.length := hq ▸ Nat.length_toDigits_pos
      exact (Nat.length_toDigits_le_iff (by decide) hpos).1 (hq ▸ Nat.le_refl _)
    have hdown := (Nat.div_lt_iff_lt_mul hscaled).1 hquotient
    have hexponent : exponent.toNat = 0 := by
      have hpos : 0 < digits.length := hq ▸ Nat.length_toDigits_pos
      omega
    calc r.down * Nat.pow 10 exponent.toNat = r.down := by rw [hexponent]; exact Nat.mul_one _
      _ ≤ 10 ^ digits.length * (r.value * r.up) := hdown.le
      _ ≤ 10 ^ (-exponent).toNat * (r.value * r.up) :=
        Nat.mul_le_mul_right _ (Nat.pow_le_pow_right (by decide) hlength)
      _ = r.value * r.up * Nat.pow 10 (-exponent).toNat := Nat.mul_comm _ _
  next hwhole =>
    generalize hq : Nat.toDigits 10 (r.value * r.up / r.down) = digits at h
    have hfirst : 10 ^ exponent.toNat ≤ r.value * r.up / r.down := by
      by_contra hlt
      have hlt := Nat.lt_of_not_le hlt
      by_cases hexponent : exponent.toNat = 0
      · rw [hexponent] at hlt
        exact hwhole (Nat.lt_one_iff.1 hlt)
      · have hle := (Nat.length_toDigits_le_iff (by decide) (Nat.pos_of_ne_zero hexponent)).2 hlt
        rw [hq] at hle
        omega
    calc r.down * Nat.pow 10 exponent.toNat ≤ r.down * (r.value * r.up / r.down) :=
      Nat.mul_le_mul_left _ hfirst
      _ ≤ r.value * r.up := Nat.mul_div_le _ _
      _ ≤ r.value * r.up * Nat.pow 10 (-exponent).toNat := Nat.le_mul_of_pos_right _ (hpow _)

end Rounding

theorem shortest_leads {mantissa : Nat} (h : mantissa ≠ 0) (exponent : Int) :
    Leads (shortest mantissa exponent).digits := by
  have hpow (n : Nat) : 0 < Nat.pow 2 n := Nat.pow_pos (by decide)
  have hlow : 0 < (Rounding.of mantissa exponent).low := by
    change 0 < 4 * mantissa - _
    split <;> omega
  have hvalue : 0 < (Rounding.of mantissa exponent).value := by
    change 0 < 4 * mantissa
    omega
  have hup : 0 < (Rounding.of mantissa exponent).up := hpow _
  have hdown : 0 < (Rounding.of mantissa exponent).down := hpow _
  simp only [shortest, h, if_false]
  generalize Rounding.of mantissa exponent = r at hlow hvalue hup hdown
  generalize hfound : (List.range' 1 17).findSome? _ = found
  cases found with
  | none =>
    exact Digits.leads_ofScaled
      (Rounding.floor_pos hvalue hup hdown (Int.sub_lt_self _ (by decide))) _
  | some d =>
    obtain ⟨count, -, hgrid⟩ := List.exists_of_findSome?_eq_some hfound
    obtain ⟨c, hc, rfl⟩ := Option.map_eq_some_iff.1 hgrid
    exact Digits.leads_ofScaled (Rounding.onGrid?_pos hlow hup hc) _

end Scriptor.Number

namespace Scriptor.Script.Form

open Pattern (Split isWordPart isWordStart run)
open Number (Leads Digits)

section Numbers

theorem isDigits_of_leads {digits : List Char} (h : Leads digits) :
    IsDigits digits ∧ ∀ cs, digits = '0' :: cs → cs = [] := by
  obtain ⟨⟨c, cs, rfl, hc⟩, hall⟩ := h
  refine ⟨⟨List.cons_ne_nil c cs, hall⟩, ?_⟩
  intro ds hds
  exact absurd (List.cons.inj hds).1 hc

theorem isDigits_zero : IsDigits ['0'] ∧ ∀ cs, ['0'] = '0' :: cs → cs = [] := by
  simp [IsDigits]

theorem isNumber_of_leads {digits : List Char} (h : Leads digits) : IsNumber digits := by
  obtain ⟨hdigits, hzero⟩ := isDigits_of_leads h
  exact .whole hdigits hzero

theorem isNumber_zero : IsNumber ['0'] := .whole isDigits_zero.1 isDigits_zero.2

theorem isNumber_toDigits (n : Nat) : IsNumber (Nat.toDigits 10 n) := by
  rcases Nat.eq_zero_or_pos n with rfl | hn
  · exact isNumber_zero
  · exact isNumber_of_leads (Number.toDigits_leads hn)

/-- Digits with a decimal point are a number wherever the point stands. -/
theorem isNumber_positionalText {d : Digits} (h : Leads d.digits) :
    IsNumber (floatLayout.positionalText d).toList := by
  have hzeros (n : Nat) : ∀ c ∈ List.replicate n '0', c.isDigit = true := by
    intro c hc
    rw [(List.mem_replicate.1 hc).2]
    rfl
  simp only [Number.Layout.positionalText, floatLayout]
  split
  next =>
    have hfraction := List.forall_mem_append.2 ⟨hzeros (-d.point).toNat, h.all⟩
    have hnumber := IsNumber.fraction isDigits_zero.1 isDigits_zero.2 hfraction
    simpa using hnumber
  next hpoint =>
    split
    next =>
      have hnumber := isNumber_of_leads (h.append (hzeros (d.point - d.digits.length).toNat))
      simpa using hnumber
    next =>
      obtain ⟨hdigits, hzero⟩ := isDigits_of_leads (h.take (n := d.point.toNat) (by omega))
      have hfraction : ∀ c ∈ d.digits.drop d.point.toNat, c.isDigit = true := fun c hc =>
        h.all c (List.mem_of_mem_drop hc)
      have hnumber := IsNumber.fraction hdigits hzero hfraction
      simpa using hnumber

theorem isNumber_shortest (mantissa : Nat) (exponent : Int) :
    IsNumber (floatLayout.positionalText (Number.shortest mantissa exponent)).toList := by
  by_cases hm : mantissa = 0
  · have htext : floatLayout.positionalText (Number.shortest mantissa exponent) = "0" := by
      rw [Number.shortest, if_pos hm]
      rfl
    rw [htext]
    exact isNumber_zero
  · exact isNumber_positionalText (Number.shortest_leads hm exponent)

end Numbers

section Strings

theorem isHexDigit_digitChar {n : Nat} (h : n < 16) : isHexDigit n.digitChar = true := by
  interval_cases n <;> rfl

theorem stringTail_quotedChar (c : Char) (cs : List Char) :
    stringTail (quotedChar c ++ cs) = (stringTail cs).map (Split.after (quotedChar c)) := by
  rw [quotedChar]
  split
  next => exact stringTail_escape (by decide)
  next hquote =>
  split
  next => exact stringTail_escape (by decide)
  next hslash =>
  split
  next => exact stringTail_escape (by decide)
  next hline =>
  split
  next => exact stringTail_escape (by decide)
  next =>
  split
  next => exact stringTail_escape (by decide)
  next hreturn =>
  split
  next hcontrol =>
    simp only [Bool.or_eq_true, decide_eq_true_eq] at hcontrol
    have hhigh := isHexDigit_digitChar (n := c.toNat / 16) (by omega)
    have hlow := isHexDigit_digitChar (n := c.toNat % 16) (by omega)
    simp only [hexPair, List.cons_append, List.nil_append, stringTail, hhigh, hlow,
      Bool.and_self, if_true]
  next =>
  split
  next => rfl
  next =>
  split
  next => rfl
  next => exact stringTail_plain (by simp [hquote, hslash, hline, hreturn])

theorem stringTail_quoted (cs : List Char) :
    stringTail (cs.flatMap quotedChar ++ ['"']) = some (cs.flatMap quotedChar ++ ['"'], []) := by
  induction cs with
  | nil => rfl
  | cons c cs ih =>
    rw [List.flatMap_cons, List.append_assoc, stringTail_quotedChar, ih]
    rfl

theorem string?_quote (text : String) :
    string? (quote text).toList = some ((quote text).toList, []) := by
  rw [quote, String.toList_ofList, List.cons_append, string?, stringTail_quoted]
  rfl

end Strings

section Literals

def IsAtom (text : List Char) : Prop := atom? text = some (text, [])

theorem endsOperand_nil : EndsOperand [] := ⟨nofun, nofun⟩

theorem IsNumber.isAtom {text : List Char} (h : IsNumber text) : IsAtom text := by
  have happend := h.atom?_append endsOperand_nil
  rwa [List.append_nil] at happend

theorem isAtom_quote (text : String) : IsAtom (quote text).toList := by
  have happend := string_atom?_append (string?_quote text) []
  rwa [List.append_nil] at happend

theorem isAtom_bool (b : Bool) : IsAtom (toString b).toList := by
  cases b <;> (unfold IsAtom; decide +kernel)

def signedAtom : List Char → Form
  | '-' :: cs => .unary .negate (.atom cs)
  | cs => .atom cs

def ofLiteral (value : Typed.Literal) : Form := signedAtom (literal value).toList

/-- A literal is an atom, with a sign before it if it may not be the base of a power. -/
inductive Signed : Bool → List Char → Prop where
  | negative {cs : List Char} : IsAtom cs → Signed true ('-' :: cs)
  | plain {cs : List Char} : IsAtom cs → Signed false cs

theorem isAtom_nat (n : Nat) : IsAtom n.repr.toList := by
  rw [Nat.repr_eq_ofList_toDigits, String.toList_ofList]
  exact (isNumber_toDigits n).isAtom

theorem signed_int (n : Int) : Signed (decide (n < 0)) (toString n).toList := by
  rw [Int.toString_eq_repr, Int.repr_eq_if]
  split
  next hn =>
    rw [decide_eq_false (Int.not_lt.2 hn)]
    exact .plain (isAtom_nat _)
  next hn =>
    rw [decide_eq_true (Int.not_le.1 hn), String.toList_append]
    exact .negative (isAtom_nat _)

theorem signed_ite {negative : Bool} {text : String} (h : IsAtom text.toList) :
    Signed negative (if negative then "-" ++ text else text).toList := by
  cases negative with
  | false => exact .plain h
  | true =>
    rw [if_pos rfl, String.toList_append]
    exact .negative h

theorem signed_float (x : Float) : Signed (Number.isNegative x) (floatLayout.text x).toList := by
  rw [Number.isNegative, Number.Layout.text]
  cases Number.Binary64.ofFloat x with
  | nan => exact .plain (by unfold IsAtom; decide +kernel)
  | infinite negative => exact signed_ite (by unfold IsAtom; decide +kernel)
  | finite negative mantissa exponent =>
    exact signed_ite (isNumber_shortest mantissa exponent).isAtom

theorem signed_literal (value : Typed.Literal) :
    Signed (needsParens (.literal value)) (literal value).toList := by
  cases value with
  | int n => exact signed_int n
  | float x => exact signed_float x
  | string s => exact .plain (isAtom_quote s)
  | bool b => exact .plain (isAtom_bool b)

theorem IsAtom.signedAtom_eq {text : List Char} (h : IsAtom text) :
    signedAtom text = .atom text := by
  rw [signedAtom]
  rintro cs rfl
  obtain ⟨c, ds, heq, hc⟩ := atom?_cons h
  cases heq
  simp [isWordStart] at hc

theorem text_signedAtom (cs : List Char) : (signedAtom cs).text = cs := by
  fun_cases signedAtom cs with
  | case1 cs => rfl
  | case2 => rfl

theorem bare_signedAtom (cs : List Char) : (signedAtom cs).bare = signedAtom cs := by
  fun_cases signedAtom cs with
  | case1 cs => rfl
  | case2 => rfl

theorem isSound_signedAtom (cs : List Char) : (signedAtom cs).isSound = true := by
  fun_cases signedAtom cs with
  | case1 cs => rfl
  | case2 => rfl

theorem isOperand_signedAtom (cs : List Char) : (signedAtom cs).isOperand = true := by
  fun_cases signedAtom cs with
  | case1 cs => rfl
  | case2 => rfl

theorem Signed.isProper {negative : Bool} {cs : List Char} (h : Signed negative cs) :
    (signedAtom cs).isProper = true := by
  cases h with
  | negative h => exact Bool.and_eq_true_iff.2 ⟨rfl, decide_eq_true h⟩
  | plain h =>
    rw [h.signedAtom_eq]
    exact decide_eq_true h

theorem Signed.isUnary {negative : Bool} {cs : List Char} (h : Signed negative cs) :
    (signedAtom cs).isUnary = negative := by
  cases h with
  | negative h => rfl
  | plain h =>
    rw [h.signedAtom_eq]
    rfl

end Literals

section Names

theorem underscore_not_mem_reserved : ∀ word ∈ reserved, '_' ∉ word.toList := by
  decide +kernel

theorem word_of_isWord {word : List Char} (h : IsWord word) :
    Pattern.word.split? word = some (word, []) := by
  obtain ⟨c, cs, rfl, hc, hcs⟩ := h
  have hrun : run isWordPart (cs ++ []) = (cs, []) := Pattern.run_of_head? hcs nofun
  rw [List.append_nil] at hrun
  simp only [Pattern.split?, hc, if_true, hrun]
  rfl

theorem isWord_numbered {name : String} (h : IsWord name.toList) (n : Nat) :
    IsWord (name ++ "_" ++ toString n).toList := by
  obtain ⟨c, cs, hname, hc, hcs⟩ := h
  refine ⟨c, cs ++ '_' :: (toString n).toList, by simp [hname], hc, ?_⟩
  intro d hd
  rcases List.mem_append.1 hd with hd | hd
  · exact hcs d hd
  · rcases List.mem_cons.1 hd with rfl | hd
    · rfl
    · simp [isWordPart, Char.isAlphanum, isDigit_of_mem_toString hd]

/-- A name with a number is no reserved word. -/
theorem name?_numbered {name : String} (h : IsWord name.toList) (n : Nat) :
    name? (name ++ "_" ++ toString n).toList = some ((name ++ "_" ++ toString n).toList, []) := by
  rw [name?, word_of_isWord (isWord_numbered h n), Option.filter_some, if_pos]
  rw [decide_eq_true_eq, String.ofList_toList]
  intro hmem
  have hnot := underscore_not_mem_reserved _ hmem
  simp at hnot

end Names

end Scriptor.Script.Form
