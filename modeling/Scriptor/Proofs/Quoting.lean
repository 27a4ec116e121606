import Mathlib.Tactic.IntervalCases
import Scriptor.Script.Literal
import Scriptor.Token.Escape

namespace Scriptor.Script

def lineEnds : List Char := ['\n', '\r', '\u2028', '\u2029']

/-- The characters that do not stand for themselves between quotes. -/
def special : List Char := '"' :: '\\' :: lineEnds

/-- Text between the quotes of a literal: it stays on its line, a quote stands there only behind a
backslash, and behind every backslash stands the character that it escapes. -/
inductive Enclosed : List Char → Prop where
  | nil : Enclosed []
  | plain {c : Char} {cs : List Char} : c ∉ special → Enclosed cs → Enclosed (c :: cs)
  | escape {c : Char} {cs : List Char} :
      c ∉ lineEnds → Enclosed cs → Enclosed ('\\' :: c :: cs)

def escaped? : Char → Option Char
  | '"' => some '"'
  | '\\' => some '\\'
  | 'n' => some '\n'
  | 't' => some '\t'
  | 'r' => some '\r'
  | _ => none

def hexNumber? (digits : List Char) : Option Nat :=
  digits.foldlM (fun n c => (Token.hexValue? c).map (16 * n + ·)) 0

/-- The character whose code has the given digits. Half of a surrogate pair is none. -/
def coded? (digits : List Char) : Option Char :=
  (hexNumber? digits).bind fun n => if n.isValidChar then some (Char.ofNat n) else none

/-- The string that is meant by the text between the quotes of a literal. Behind `\x` stand two
digits, behind `\u` four. -/
def decode? : List Char → Option (List Char)
  | [] => some []
  | '\\' :: 'x' :: a :: b :: cs => (coded? [a, b]).bind fun c => (decode? cs).map (c :: ·)
  | '\\' :: 'u' :: a :: b :: c :: d :: cs =>
    (coded? [a, b, c, d]).bind fun e => (decode? cs).map (e :: ·)
  | '\\' :: c :: cs => (escaped? c).bind fun d => (decode? cs).map (d :: ·)
  | c :: cs => if c ∈ special then none else (decode? cs).map (c :: ·)

section Decoding

variable {c d : Char} {cs v : List Char}

theorem decode?_escape (h : escaped? d = some c) :
    decode? ('\\' :: d :: cs) = (decode? cs).map (c :: ·) := by
  rw [decode?, h, Option.bind_some]
  · rintro a b ds rfl
    cases h
  · rintro a b d e ds rfl
    cases h

theorem decode?_plain (h : c ∉ special) : decode? (c :: cs) = (decode? cs).map (c :: ·) := by
  have hslash : c ≠ '\\' := by
    rintro rfl
    exact h (by decide)
  rw [decode?, if_neg h]
  · rintro a b ds rfl
    exact absurd rfl hslash
  · rintro a b d e ds rfl
    exact absurd rfl hslash
  · rintro d ds rfl
    exact absurd rfl hslash

theorem digit_of_hexValue? {n : Nat} (h : Token.hexValue? c = some n) : c ∉ special := by
  have hnone : (special.all fun c => Token.hexValue? c = none) = true := rfl
  intro hc
  cases h.symm.trans (of_decide_eq_true (List.all_eq_true.1 hnone c hc))

theorem lineEnds_of_escaped? (h : escaped? d = some c) : d ∉ lineEnds := by
  have hnone : (lineEnds.all fun d => escaped? d = none) = true := rfl
  intro hd
  cases h.symm.trans (of_decide_eq_true (List.all_eq_true.1 hnone d hd))

theorem digits_of_foldlM {digits : List Char} {m n : Nat}
    (h : digits.foldlM (fun n c => (Token.hexValue? c).map (16 * n + ·)) m = some n) :
    ∀ d ∈ digits, d ∉ special := by
  induction digits generalizing m with
  | nil => exact List.forall_mem_nil _
  | cons d ds ih =>
    rw [List.foldlM_cons] at h
    obtain ⟨k, hk, h⟩ := Option.bind_eq_some_iff.1 h
    obtain ⟨value, hvalue, -⟩ := Option.map_eq_some_iff.1 hk
    exact List.forall_mem_cons.2 ⟨digit_of_hexValue? hvalue, ih h⟩

theorem digits_of_coded? {digits : List Char} (h : coded? digits = some c) :
    ∀ d ∈ digits, d ∉ special := by
  obtain ⟨n, hn, -⟩ := Option.bind_eq_some_iff.1 h
  exact digits_of_foldlM hn

theorem Enclosed.append {digits : List Char} (h : ∀ d ∈ digits, d ∉ special)
    (hcs : Enclosed cs) : Enclosed (digits ++ cs) := by
  induction digits with
  | nil => exact hcs
  | cons d ds ih =>
    rw [List.forall_mem_cons] at h
    exact .plain h.1 (ih h.2)

theorem Enclosed.not_mem_lineEnds (h : Enclosed cs) : ∀ c ∈ cs, c ∉ lineEnds := by
  induction h with
  | nil => exact List.forall_mem_nil _
  | plain hc _ ih =>
    refine List.forall_mem_cons.2 ⟨fun hmem => hc ?_, ih⟩
    exact List.mem_cons_of_mem _ (List.mem_cons_of_mem _ hmem)
  | escape hc _ ih =>
    exact List.forall_mem_cons.2 ⟨by decide, List.forall_mem_cons.2 ⟨hc, ih⟩⟩

/-- Only what can stand between quotes can be decoded. -/
theorem enclosed_of_decode? (h : decode? cs = some v) : Enclosed cs := by
  fun_induction decode? cs generalizing v with
  | case1 => exact .nil
  | case2 a b cs ih =>
    obtain ⟨c, hc, h⟩ := Option.bind_eq_some_iff.1 h
    obtain ⟨w, hw, -⟩ := Option.map_eq_some_iff.1 h
    exact .escape (by decide) (.append (digits_of_coded? hc) (ih hw))
  | case3 a b c d cs ih =>
    obtain ⟨e, he, h⟩ := Option.bind_eq_some_iff.1 h
    obtain ⟨w, hw, -⟩ := Option.map_eq_some_iff.1 h
    exact .escape (by decide) (.append (digits_of_coded? he) (ih hw))
  | case4 c cs _ _ ih =>
    obtain ⟨d, hd, h⟩ := Option.bind_eq_some_iff.1 h
    obtain ⟨w, hw, -⟩ := Option.map_eq_some_iff.1 h
    exact .escape (lineEnds_of_escaped? hd) (ih hw)
  | case5 => cases h
  | case6 c cs _ _ _ hc ih =>
    obtain ⟨w, hw, -⟩ := Option.map_eq_some_iff.1 h
    exact .plain hc (ih hw)

end Decoding

section Quoting

variable (c : Char) (cs : List Char)

theorem hexValue?_digitChar {n : Nat} (h : n < 16) : Token.hexValue? n.digitChar = some n := by
  interval_cases n <;> rfl

theorem coded?_hexPair {c : Char} (h : c.toNat < 256) : coded? (hexPair c.toNat) = some c := by
  have hhigh := hexValue?_digitChar (n := c.toNat / 16) (by omega)
  have hlow := hexValue?_digitChar (n := c.toNat % 16) (by omega)
  have hnumber : hexNumber? (hexPair c.toNat) = some c.toNat := by
    simp [hexNumber?, hexPair, hhigh, hlow, Nat.div_add_mod]
  have hvalid : c.toNat.isValidChar := c.valid
  rw [coded?, hnumber, Option.bind_some, if_pos hvalid, Char.ofNat_toNat]

theorem eq_of_toNat_eq {c : Char} {n : Nat} (h : c.toNat = n) : c = Char.ofNat n := by
  rw [← h, Char.ofNat_toNat]

theorem decode?_quotedChar : decode? (quotedChar c ++ cs) = (decode? cs).map (c :: ·) := by
  fun_cases quotedChar c with
  | case1 h | case2 _ h | case3 _ _ h | case4 _ _ _ h | case5 _ _ _ _ h =>
    subst h
    exact decode?_escape rfl
  | case6 _ _ _ _ _ hcontrol =>
    rw [Bool.or_eq_true, decide_eq_true_iff, decide_eq_true_iff] at hcontrol
    have hcode : coded? (hexPair c.toNat) = some c := coded?_hexPair (by omega)
    exact congrArg (Option.bind · fun c => (decode? cs).map (c :: ·)) hcode
  | case7 _ _ _ _ _ _ h | case8 _ _ _ _ _ _ _ h =>
    cases eq_of_toNat_eq h
    rfl
  | case9 hquote hslash hline _ hreturn _ hseparator hparagraph =>
    have hends : c ∉ lineEnds := by
      intro hc
      simp only [lineEnds, List.mem_cons, List.not_mem_nil, or_false] at hc
      rcases hc with rfl | rfl | rfl | rfl
      · exact hline rfl
      · exact hreturn rfl
      · exact hseparator rfl
      · exact hparagraph rfl
    exact decode?_plain (by simp [special, hquote, hslash, hends])

-- the digit behind the escape is not one of its two digits
example : decode? (quotedChar '\x01' ++ ['b']) = some ['\x01', 'b'] := rfl

theorem decode?_quoted : decode? (cs.flatMap quotedChar) = some cs := by
  induction cs with
  | nil => rfl
  | cons c cs ih => rw [List.flatMap_cons, decode?_quotedChar, ih, Option.map_some]

theorem toList_quote (text : String) :
    (quote text).toList = '"' :: text.toList.flatMap quotedChar ++ ['"'] :=
  String.toList_ofList

theorem quote_injective : Function.Injective quote := by
  intro s t h
  have hlist := congrArg String.toList h
  rw [toList_quote, toList_quote] at hlist
  have hinside := (List.cons.inj (List.append_cancel_right hlist)).2
  have hdecode := decode?_quoted s.toList
  rw [hinside, decode?_quoted] at hdecode
  exact String.toList_injective (Option.some.inj hdecode).symm

end Quoting

/-- A quoted string is a literal of the string: it starts and ends with a quote, has no other that
is not escaped, no backslash without what it escapes and no line end, and decodes to the string. No
two strings are quoted alike. -/
theorem quote_decodes :
    (∀ text : String, ∃ inside, (quote text).toList = '"' :: inside ++ ['"'] ∧
      Enclosed inside ∧ (∀ c ∈ inside, c ∉ lineEnds) ∧
      decode? inside = some text.toList) ∧
    Function.Injective quote := by
  refine ⟨?_, quote_injective⟩
  intro text
  have hdecode := decode?_quoted text.toList
  have henclosed := enclosed_of_decode? hdecode
  exact ⟨_, toList_quote text, henclosed, henclosed.not_mem_lineEnds, hdecode⟩

end Scriptor.Script
