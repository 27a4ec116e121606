import Scriptor.Proofs.LongestMatch
import Scriptor.Proofs.Quoting

namespace Scriptor

namespace Script

/-- The characters with an escape in scripts that tokens do not know. -/
def separators : List Char := ['\u2028', '\u2029']

/-- What a token makes of a quoted character. -/
def recovered (c : Char) : List Char := if c ∈ separators then quotedChar c else [c]

theorem recovered_separator {c : Char} (h : c ∈ separators) : recovered c = quotedChar c :=
  if_pos h

theorem recovered_plain {c : Char} (h : c ∉ separators) : recovered c = [c] := if_neg h

theorem length_recovered (cs : List Char) :
    (cs.flatMap recovered).length = cs.length + 5 * cs.countP (· ∈ separators) := by
  induction cs with
  | nil => rfl
  | cons c cs ih =>
    rw [List.flatMap_cons, List.length_append, ih, List.length_cons]
    by_cases hc : c ∈ separators
    · have hlength : (separators.all fun c => (quotedChar c).length = 6) = true := rfl
      have hsix : (recovered c).length = 6 := by
        rw [recovered_separator hc]
        exact of_decide_eq_true (List.all_eq_true.1 hlength c hc)
      rw [List.countP_cons_of_pos (by simpa using hc), hsix]
      omega
    · rw [List.countP_cons_of_neg (by simpa using hc), recovered_plain hc, List.length_singleton]
      omega

/-- Only separators are not taken back from their escapes. -/
theorem flatMap_recovered_iff {cs : List Char} :
    cs.flatMap recovered = cs ↔ ∀ c ∈ cs, c ∉ separators := by
  constructor
  · intro h
    have hlength := length_recovered cs
    rw [h] at hlength
    have hcount : cs.countP (· ∈ separators) = 0 := by omega
    simpa [List.countP_eq_zero] using hcount
  · intro h
    rw [List.flatMap_congr fun c hc => recovered_plain (h c hc), List.flatMap_singleton']

open Computability in
theorem Enclosed.pieces {inside : List Char} (h : Enclosed inside) :
    inside ∈ (Pattern.piece '"')∗ := by
  induction h with
  | nil => exact Language.nil_mem_kstar _
  | @plain c cs hc _ ih =>
    have hplain : c ∉ ['"', '\\', '\n'] :=
      fun h => hc (List.mem_append_left ['\r', '\u2028', '\u2029'] h)
    exact Pattern.append_mem_kstar (Pattern.mem_piece.2 (.inl ⟨c, hplain, rfl⟩)) ih
  | @escape c cs hc _ ih =>
    have hline : c ≠ '\n' := by
      rintro rfl
      exact hc (by decide)
    exact Pattern.append_mem_kstar (Pattern.mem_piece.2 (.inr ⟨c, hline, rfl⟩)) ih

end Script

open Script (quote quotedChar recovered separators)

namespace Token

variable {c d : Char} (cs : List Char)

theorem unescape_escape (h : simpleEscape? d = some c) :
    unescape ('\\' :: d :: cs) = c :: unescape cs := by
  rw [unescape, h]
  · rintro a b ds rfl
    cases h
  · rintro a rfl
    cases h

theorem unescape_code (h : c.toNat < 256) :
    unescape ('\\' :: 'x' :: Script.hexPair c.toNat ++ cs) = c :: unescape cs := by
  have hhigh := Script.hexValue?_digitChar (n := c.toNat / 16) (by omega)
  have hlow := Script.hexValue?_digitChar (n := c.toNat % 16) (by omega)
  change unescape ('\\' :: 'x' :: (c.toNat / 16).digitChar :: (c.toNat % 16).digitChar :: cs) = _
  rw [unescape, hhigh, hlow]
  dsimp only
  rw [Nat.div_add_mod, Char.ofNat_toNat]

theorem unescape_plain (h : c ≠ '\\') : unescape (c :: cs) = c :: unescape cs := by
  rw [unescape]
  all_goals
    intros
    contradiction

theorem unescape_quotedChar (c : Char) :
    unescape (quotedChar c ++ cs) = recovered c ++ unescape cs := by
  by_cases hseparator : c ∈ separators
  · rw [Script.recovered_separator hseparator]
    simp only [separators, List.mem_cons, List.not_mem_nil, or_false] at hseparator
    rcases hseparator with rfl | rfl <;> rfl
  · rw [Script.recovered_plain hseparator]
    fun_cases quotedChar c with
    | case1 h | case2 _ h | case3 _ _ h | case4 _ _ _ h | case5 _ _ _ _ h =>
      subst h
      exact unescape_escape cs rfl
    | case6 _ _ _ _ _ hcontrol =>
      rw [Bool.or_eq_true, decide_eq_true_iff, decide_eq_true_iff] at hcontrol
      exact unescape_code cs (by omega)
    | case7 _ _ _ _ _ _ h | case8 _ _ _ _ _ _ _ h =>
      cases Script.eq_of_toNat_eq h
      exact absurd (by decide) hseparator
    | case9 _ hslash => exact unescape_plain cs hslash

theorem unescape_quoted : unescape (cs.flatMap quotedChar) = cs.flatMap recovered := by
  induction cs with
  | nil => rfl
  | cons c cs ih => rw [List.flatMap_cons, unescape_quotedChar, ih, List.flatMap_cons]

end Token

theorem Pattern.first?_quote {cs : List Char} {s : Split} (h : stringTail '"' cs = some s) :
    first? ('"' :: cs) = some (.string '"', s.after ['"']) := by
  have hword : Pattern.word.split? ('"' :: cs) = none := rfl
  have hnumber : Pattern.number.split? ('"' :: cs) = none := rfl
  have hblank : Pattern.blank.split? ('"' :: cs) = none := rfl
  have hstring : (Pattern.string '"').split? ('"' :: cs) = some (s.after ['"']) := by
    rw [split?, if_pos rfl, h, Option.map_some]
  simp only [first?, all, List.findSome?_cons, hword, hnumber, hblank, hstring, Option.map_none,
    Option.map_some]

theorem Position.start_after (file : String) (text : List Char) :
    (start file).after text = behind file text :=
  behind_after file [] text

theorem tokenize_quote (text file : String) :
    tokenize (quote text) file = .ok
      [⟨.string, String.ofList (text.toList.flatMap recovered),
        ⟨.start file, .behind file (quote text).toList⟩, false⟩,
          .eof (.behind file (quote text).toList) false] := by
  have henclosed := Script.enclosed_of_decode? (Script.decode?_quoted text.toList)
  have hfirst : Pattern.first? (quote text).toList =
      some (.string '"', (quote text).toList, []) := by
    rw [Script.toList_quote]
    exact Pattern.first?_quote (Pattern.stringTail_of_pieces (by decide) henclosed.pieces [])
  have htoken : (Pattern.string '"').token? (quote text).toList =
      some (.string, String.ofList (text.toList.flatMap recovered)) := by
    rw [Pattern.token?, Script.toList_quote, List.cons_append, List.drop_succ_cons, List.drop_zero,
      List.dropLast_concat, Token.unescape_quoted]
  have hline : (quote text).toList.contains '\n' = false := by
    have hinside : '\n' ∉ text.toList.flatMap quotedChar :=
      fun h => henclosed.not_mem_lineEnds _ h (by decide)
    simp [Script.toList_quote, hinside]
  have hlexes : Cursor.Lexes (quote text).toList (.start file) false _ := .take hfirst htoken .nil
  rw [Position.start_after, hline] at hlexes
  exact Cursor.tokens_of_lexes hlexes

/-- A quoted string is a single token. The token has the string as its value exactly if the string
holds no separator. -/
theorem tokenize_quote_iff (text file : String) :
    tokenize (quote text) file = .ok
      [⟨.string, text, ⟨.start file, .behind file (quote text).toList⟩, false⟩,
        .eof (.behind file (quote text).toList) false] ↔
      ∀ c ∈ text.toList, c ∉ separators := by
  have hvalue : String.ofList (text.toList.flatMap recovered) = text ↔
      text.toList.flatMap recovered = text.toList := by
    rw [← String.toList_inj, String.toList_ofList]
  rw [tokenize_quote, ← Script.flatMap_recovered_iff, ← hvalue]
  simp

end Scriptor
