import Mathlib.Computability.Language
import Scriptor.Proofs.Lines

namespace Scriptor

namespace Pattern

open Computability

def single (p : Char → Bool) : Language Char := {t | ∃ c, p c = true ∧ t = [c]}

def digits : Language Char := single Char.isDigit * (single Char.isDigit)∗

/-- What a string is made of: characters that stand for themselves, and escapes. -/
def piece (quote : Char) : Language Char :=
  single (· ∉ [quote, '\\', '\n']) + {['\\']} * single (· ≠ '\n')

/-- The texts that the pattern matches as a whole. -/
def language : Pattern → Language Char
  | .word => single isWordStart * (single isWordPart)∗
  | .number =>
    digits * (1 + {['.']} * digits) *
      (1 + single (· ∈ ['e', 'E']) * (1 + single (· ∈ ['+', '-'])) * digits)
  | .blank => single Text.isBlank * (single Text.isBlank)∗
  | .string quote => {[quote]} * (piece quote)∗ * {[quote]}
  | .comment => {['/', '/']} * (single (· ≠ '\n'))∗
  | .symbol _ spelling _ => {spelling.toList}

section Languages

variable {p q : Char → Bool} {t cs rest : List Char} {c : Char}

theorem mem_kstar_single : t ∈ (single p)∗ ↔ ∀ c ∈ t, p c = true := by
  rw [Language.mem_kstar]
  constructor
  · rintro ⟨ts, rfl, hts⟩ c hc
    obtain ⟨t, ht, hc⟩ := List.mem_flatten.1 hc
    obtain ⟨d, hd, rfl⟩ := hts t ht
    rwa [List.mem_singleton.1 hc]
  · intro h
    refine ⟨t.map ([·]), ?_, List.forall_mem_map.2 fun c hc => ⟨c, h c hc, rfl⟩⟩
    rw [← List.flatMap_def, List.flatMap_singleton']

theorem mem_single_mul {l : Language Char} :
    t ∈ single p * l ↔ ∃ c cs, t = c :: cs ∧ p c = true ∧ cs ∈ l := by
  rw [Language.mem_mul]
  constructor
  · rintro ⟨_, ⟨c, hc, rfl⟩, cs, hcs, rfl⟩
    exact ⟨c, cs, rfl, hc, hcs⟩
  · rintro ⟨c, cs, rfl, hc, hcs⟩
    exact ⟨[c], ⟨c, hc, rfl⟩, cs, hcs, rfl⟩

theorem mem_singleton_mul {front : List Char} {l : Language Char} :
    t ∈ {front} * l ↔ ∃ cs ∈ l, front ++ cs = t := by
  rw [Language.mem_mul]
  constructor
  · rintro ⟨_, rfl, cs, hcs, rfl⟩
    exact ⟨cs, hcs, rfl⟩
  · rintro ⟨cs, hcs, rfl⟩
    exact ⟨front, rfl, cs, hcs, rfl⟩

theorem mem_digits : t ∈ digits ↔ IsDigits t := by
  rw [digits, mem_single_mul]
  constructor
  · rintro ⟨c, cs, rfl, hc, hcs⟩
    exact ⟨List.cons_ne_nil c cs, List.forall_mem_cons.2 ⟨hc, mem_kstar_single.1 hcs⟩⟩
  · intro h
    obtain ⟨c, cs, rfl, hc⟩ := h.exists_cons
    exact ⟨c, cs, rfl, hc, mem_kstar_single.2 (List.forall_mem_cons.1 h.2).2⟩

theorem mem_fraction : t ∈ (1 + {['.']} * digits : Language Char) ↔ IsFraction t := by
  rw [Language.mem_add, Language.mem_one, mem_singleton_mul]
  constructor
  · rintro (rfl | ⟨ds, hds, rfl⟩)
    · exact .none
    · exact .some (mem_digits.1 hds)
  · rintro (_ | hds)
    · exact .inl rfl
    · exact .inr ⟨_, mem_digits.2 hds, rfl⟩

theorem mem_sign :
    t ∈ (1 + single (· ∈ ['+', '-']) : Language Char) ↔ t ∈ [[], ['+'], ['-']] := by
  rw [Language.mem_add, Language.mem_one]
  constructor
  · rintro (rfl | ⟨c, hc, rfl⟩)
    · exact List.mem_cons_self
    · simpa using hc
  · intro h
    simp only [List.mem_cons, List.not_mem_nil, or_false] at h
    rcases h with rfl | rfl | rfl
    · exact .inl rfl
    · exact .inr ⟨'+', rfl, rfl⟩
    · exact .inr ⟨'-', rfl, rfl⟩

theorem mem_exponent :
    t ∈ (1 + single (· ∈ ['e', 'E']) * (1 + single (· ∈ ['+', '-'])) * digits :
      Language Char) ↔ IsExponent t := by
  rw [Language.mem_add, Language.mem_one, mul_assoc, mem_single_mul]
  constructor
  · rintro (rfl | ⟨mark, _, rfl, hmark, ⟨sign, hsign, ds, hds, rfl⟩⟩)
    · exact .none
    · exact .some (of_decide_eq_true hmark) (mem_sign.1 hsign) (mem_digits.1 hds)
  · rintro (_ | ⟨hmark, hsign, hds⟩)
    · exact .inl rfl
    · exact .inr ⟨_, _, rfl, decide_eq_true hmark, Language.append_mem_mul (mem_sign.2 hsign)
        (mem_digits.2 hds)⟩

theorem mem_number : t ∈ language .number ↔ Numeral t := by
  constructor
  · rintro ⟨_, ⟨whole, hw, fraction, hf, rfl⟩, exponent, he, rfl⟩
    exact .mk (mem_digits.1 hw) (mem_fraction.1 hf) (mem_exponent.1 he)
  · rintro ⟨hw, hf, he⟩
    exact Language.append_mem_mul (Language.append_mem_mul (mem_digits.2 hw) (mem_fraction.2 hf))
      (mem_exponent.2 he)

end Languages

section Strings

variable {quote : Char} {body cs : List Char} {s : Split}

theorem append_mem_kstar {l : Language Char} {front : List Char} (hf : front ∈ l)
    (hb : body ∈ l∗) : front ++ body ∈ l∗ := by
  obtain ⟨ts, rfl, hts⟩ := hb
  exact ⟨front :: ts, rfl, List.forall_mem_cons.2 ⟨hf, hts⟩⟩

theorem mem_piece : cs ∈ piece quote ↔
    (∃ c, c ∉ [quote, '\\', '\n'] ∧ cs = [c]) ∨ ∃ c, c ≠ '\n' ∧ cs = ['\\', c] := by
  rw [piece, Language.mem_add, mem_singleton_mul]
  constructor
  · rintro (⟨c, hc, rfl⟩ | ⟨_, ⟨c, hc, rfl⟩, rfl⟩)
    · exact .inl ⟨c, of_decide_eq_true hc, rfl⟩
    · exact .inr ⟨c, of_decide_eq_true hc, rfl⟩
  · rintro (⟨c, hc, rfl⟩ | ⟨c, hc, rfl⟩)
    · exact .inl ⟨c, decide_eq_true hc, rfl⟩
    · exact .inr ⟨[c], ⟨c, decide_eq_true hc, rfl⟩, rfl⟩

theorem stringTail_pieces (h : stringTail quote cs = some s) :
    ∃ body ∈ (piece quote)∗, s.1 = body ++ [quote] := by
  fun_induction stringTail quote cs generalizing s with
  | case1 | case2 | case3 | case6 => cases h
  | case4 c cs hc ih =>
    obtain ⟨t, ht, rfl⟩ := Option.map_eq_some_iff.1 h
    obtain ⟨body, hbody, heq⟩ := ih ht
    refine ⟨'\\' :: c :: body, append_mem_kstar (mem_piece.2 (.inr ⟨c, hc, rfl⟩)) hbody, ?_⟩
    rw [Split.after, heq]
    rfl
  | case5 cs =>
    cases h
    exact ⟨[], Language.nil_mem_kstar _, rfl⟩
  | case7 c cs hend hescape hquote hline ih =>
    obtain ⟨t, ht, rfl⟩ := Option.map_eq_some_iff.1 h
    obtain ⟨body, hbody, heq⟩ := ih ht
    have hc : c ∉ [quote, '\\', '\n'] := by
      have hslash : c ≠ '\\' := by
        rintro rfl
        cases cs with
        | nil => exact hend rfl rfl
        | cons d ds => exact hescape d ds rfl rfl
      simp [hquote, hslash, hline]
    refine ⟨c :: body, append_mem_kstar (mem_piece.2 (.inl ⟨c, hc, rfl⟩)) hbody, ?_⟩
    rw [Split.after, heq]
    rfl

/-- Pieces go up to the first quote that stands alone. -/
theorem stringTail_of_pieces (hq : quote ≠ '\\') (h : body ∈ (piece quote)∗)
    (rest : List Char) :
    stringTail quote (body ++ quote :: rest) = some (body ++ [quote], rest) := by
  obtain ⟨pieces, rfl, hpieces⟩ := h
  induction pieces with
  | nil =>
    rw [List.flatten_nil, List.nil_append, stringTail_cons hq, if_pos rfl]
    rfl
  | cons front pieces ih =>
    rw [List.forall_mem_cons] at hpieces
    rw [List.flatten_cons, List.append_assoc]
    rcases mem_piece.1 hpieces.1 with ⟨c, hc, rfl⟩ | ⟨c, hc, rfl⟩
    · simp only [List.mem_cons, List.not_mem_nil, or_false, not_or] at hc
      rw [List.cons_append, List.nil_append, stringTail_cons hc.2.1, if_neg hc.1,
        if_neg hc.2.2, ih hpieces.2]
      rfl
    · rw [List.cons_append, List.cons_append, List.nil_append, stringTail, if_neg hc, ih hpieces.2]
      rfl

end Strings

section Runs

variable {p : Char → Bool} {front t : List Char} (rest : List Char)

theorem length_le_run (h : ∀ c ∈ front, p c = true) :
    front.length ≤ (run p (front ++ rest)).1.length := by
  rw [run, List.takeWhile_append_of_pos h, List.length_append]
  exact Nat.le_add_right _ _

theorem run_stops (h : ∀ c ∈ front, p c = true) {c : Char} (hc : p c = false) :
    run p (front ++ c :: rest) = (front, c :: rest) := by
  rw [run, List.takeWhile_append_of_pos h, List.dropWhile_append_of_pos h,
    List.takeWhile_cons_of_neg (Bool.eq_false_iff.1 hc),
    List.dropWhile_cons_of_neg (Bool.eq_false_iff.1 hc), List.append_nil]

theorem run_ne_nil (h : IsDigits front) : (run Char.isDigit (front ++ rest)).1 ≠ [] := by
  rw [← List.length_pos_iff]
  exact Nat.lt_of_lt_of_le (List.length_pos_iff.2 h.1) (length_le_run rest h.2)

theorem isDigit_mark {mark : Char} (h : mark ∈ ['e', 'E']) : mark.isDigit = false := by
  simp only [List.mem_cons, List.not_mem_nil, or_false] at h
  rcases h with rfl | rfl <;> rfl

theorem fraction_point (cs : List Char) (h : (run Char.isDigit cs).1 ≠ []) :
    fraction ('.' :: cs) = (run Char.isDigit cs).after ['.'] := by
  rw [fraction, if_neg (by simpa using h)]

theorem fraction_reaches (h : IsFraction t) : t.length ≤ (fraction (t ++ rest)).1.length := by
  cases h with
  | none => exact Nat.zero_le _
  | @some ds hds =>
    rw [List.cons_append, fraction_point _ (run_ne_nil rest hds)]
    exact Nat.succ_le_succ (length_le_run rest hds.2)

theorem fraction_stops (h : IsFraction t) {mark : Char} (hmark : mark ∈ ['e', 'E']) :
    fraction (t ++ mark :: rest) = (t, mark :: rest) := by
  cases h with
  | none =>
    rw [List.nil_append, fraction]
    rintro cs ⟨⟩
    exact absurd hmark (by decide)
  | @some ds hds =>
    have hrun := run_stops rest hds.2 (isDigit_mark hmark)
    rw [List.cons_append, fraction_point _ (by rw [hrun]; exact hds.1), hrun]
    rfl

theorem sign_stops {plus ds : List Char} (hs : plus ∈ [[], ['+'], ['-']]) (hds : IsDigits ds) :
    sign (plus ++ (ds ++ rest)) = (plus, ds ++ rest) := by
  simp only [List.mem_cons, List.not_mem_nil, or_false] at hs
  rcases hs with rfl | rfl | rfl
  · obtain ⟨d, ds, rfl, hd⟩ := hds.exists_cons
    rw [List.nil_append, List.cons_append, sign]
    · rintro cs ⟨⟩
      cases hd
    · rintro cs ⟨⟩
      cases hd
  · rfl
  · rfl

theorem exponent_reaches (h : IsExponent t) : t.length ≤ (exponent (t ++ rest)).1.length := by
  cases h with
  | none => exact Nat.zero_le _
  | @some mark plus ds hmark hplus hds =>
    have hle := length_le_run rest hds.2
    have hdigits : ((mark == 'e' || mark == 'E') && !(run Char.isDigit (ds ++ rest)).1.isEmpty) =
        true := by
      simpa [run_ne_nil rest hds] using hmark
    rw [List.cons_append, List.append_assoc, exponent, sign_stops rest hplus hds,
      if_pos hdigits, Split.after]
    simp only [List.length_cons, List.length_append]
    omega

theorem split?_digits (h : IsDigits front) :
    number.split? (front ++ rest) =
      some ((run Char.isDigit (front ++ rest)).1 ++
        (fraction (run Char.isDigit (front ++ rest)).2).1 ++
        (exponent (fraction (run Char.isDigit (front ++ rest)).2).2).1,
        (exponent (fraction (run Char.isDigit (front ++ rest)).2).2).2) := by
  obtain ⟨c, cs, rfl, hc⟩ := h.exists_cons
  exact if_pos hc

/-- The number at the start of a text is at least as long as any numeral there. -/
theorem number_reaches (h : Numeral t) :
    ∃ s, number.split? (t ++ rest) = some s ∧ t.length ≤ s.1.length := by
  cases h with
  | @mk whole f e hw hf he =>
  rw [List.append_assoc, List.append_assoc]
  refine ⟨_, split?_digits _ hw, ?_⟩
  simp only [List.length_append]
  cases he with
  | none =>
    rw [List.nil_append, List.length_nil]
    cases hf with
    | none =>
      have hle := length_le_run rest hw.2
      rw [List.nil_append, List.length_nil]
      omega
    | @some ds hds =>
      have hle : ('.' :: ds).length ≤ (fraction ('.' :: (ds ++ rest))).1.length :=
        fraction_reaches rest (.some hds)
      rw [List.cons_append, run_stops _ hw.2 rfl]
      dsimp only
      omega
  | @some mark plus ds hmark hplus hds =>
    have hle : (mark :: (plus ++ ds)).length ≤
        (exponent (mark :: (plus ++ ds ++ rest))).1.length :=
      exponent_reaches rest (.some hmark hplus hds)
    -- the digits end where the fraction starts, and that ends where the exponent starts
    have hrun : run Char.isDigit (whole ++ (f ++ mark :: (plus ++ ds ++ rest))) =
        (whole, f ++ mark :: (plus ++ ds ++ rest)) := by
      cases hf with
      | none => exact run_stops _ hw.2 (isDigit_mark hmark)
      | some => exact run_stops _ hw.2 rfl
    rw [List.cons_append, hrun]
    dsimp only
    rw [fraction_stops _ hf hmark]
    dsimp only
    omega

end Runs

section Matches

variable {p q : Pattern} {cs t : List Char} {s : Split}

theorem split?_mem_language (h : p.split? cs = some s) : s.1 ∈ p.language := by
  cases cs with
  | nil => cases p <;> cases h
  | cons c cs =>
    cases p with
    | word | blank =>
      obtain ⟨hc, h⟩ := Option.ite_none_right_eq_some.1 h
      cases h
      exact mem_single_mul.2
        ⟨c, _, rfl, hc, mem_kstar_single.2 fun _ hd => List.mem_takeWhile_imp hd⟩
    | number => exact mem_number.2 (split?_numeral h)
    | string quote =>
      obtain ⟨rfl, h⟩ := Option.ite_none_right_eq_some.1 h
      obtain ⟨tail, htail, rfl⟩ := Option.map_eq_some_iff.1 h
      obtain ⟨body, hbody, heq⟩ := stringTail_pieces htail
      rw [language, mul_assoc, mem_singleton_mul, Split.after, heq]
      exact ⟨body ++ [c], Language.append_mem_mul hbody rfl, rfl⟩
    | comment =>
      obtain ⟨tail, htail, rfl⟩ := Option.map_eq_some_iff.1 h
      rw [language, mem_singleton_mul, Split.after, (literal_append htail).1]
      exact ⟨_, mem_kstar_single.2 fun _ hd => by simpa using List.mem_takeWhile_imp hd, rfl⟩
    | symbol kind spelling value => exact (literal_append h).1

theorem literal_self (spelling rest : List Char) :
    literal spelling (spelling ++ rest) = some (spelling, rest) := by
  induction spelling with
  | nil => rfl
  | cons c spelling ih =>
    rw [List.cons_append, literal, if_pos rfl, ih]
    rfl

def starts : Pattern → Char → Bool
  | .word, c => isWordStart c
  | .number, c => c.isDigit
  | .blank, c => Text.isBlank c
  | .string quote, c => c = quote
  | .comment, c => c = '/'
  | .symbol _ spelling _, c => spelling.toList.head? = some c

theorem starts_of_mem_language (hp : p ∈ all) (h : t ∈ p.language) :
    ∃ c cs, t = c :: cs ∧ p.starts c = true := by
  cases p with
  | word | blank =>
    obtain ⟨c, cs, rfl, hc, -⟩ := mem_single_mul.1 h
    exact ⟨c, cs, rfl, hc⟩
  | number =>
    obtain ⟨hw, -, -⟩ := mem_number.1 h
    obtain ⟨c, cs, rfl, hc⟩ := hw.exists_cons
    exact ⟨c, _, rfl, hc⟩
  | string quote =>
    rw [language, mul_assoc, mem_singleton_mul] at h
    obtain ⟨cs, -, rfl⟩ := h
    exact ⟨quote, cs, rfl, decide_eq_true rfl⟩
  | comment =>
    obtain ⟨cs, -, rfl⟩ := mem_singleton_mul.1 h
    exact ⟨'/', '/' :: cs, rfl, rfl⟩
  | symbol kind spelling value =>
    obtain ⟨c, cs, hcs⟩ := List.exists_cons_of_ne_nil (spelling_ne_nil hp).1
    exact ⟨c, cs, h.trans hcs, by simp [starts, hcs]⟩

/-- A pattern matches wherever a text of its language stands, and takes at least that text. -/
theorem reaches_of_mem_language (hp : p ∈ all) (h : t ∈ p.language) (rest : List Char) :
    ∃ s, p.split? (t ++ rest) = some s ∧ t.length ≤ s.1.length := by
  cases p with
  | word | blank =>
    obtain ⟨c, cs, rfl, hc, hcs⟩ := mem_single_mul.1 h
    exact ⟨_, if_pos hc, Nat.succ_le_succ (length_le_run rest (mem_kstar_single.1 hcs))⟩
  | number => exact number_reaches rest (mem_number.1 h)
  | string quote =>
    have hquote : quote ≠ '\\' := by
      rintro rfl
      exact absurd (quote_mem hp) (by decide)
    rw [language, mul_assoc, mem_singleton_mul] at h
    obtain ⟨_, ⟨body, hbody, _, rfl, rfl⟩, rfl⟩ := h
    have hsplit : (string quote).split? (quote :: (body ++ quote :: rest)) =
        some (quote :: (body ++ [quote]), rest) := by
      rw [split?, if_pos rfl, stringTail_of_pieces hquote hbody, Option.map_some]
      rfl
    have hwhole : [quote] ++ (body ++ [quote]) ++ rest = quote :: (body ++ quote :: rest) := by simp
    exact ⟨_, hwhole ▸ hsplit, Nat.le_refl _⟩
  | comment =>
    obtain ⟨body, hbody, rfl⟩ := mem_singleton_mul.1 h
    have hbody : ∀ c ∈ body, (c != '\n') = true := by simpa using mem_kstar_single.1 hbody
    exact ⟨_, rfl, Nat.succ_le_succ (Nat.succ_le_succ (length_le_run rest hbody))⟩
  | symbol kind spelling value =>
    obtain ⟨c, cs, hcs⟩ := List.exists_cons_of_ne_nil (spelling_ne_nil hp).1
    have hsplit : (symbol kind spelling value).split? (c :: (cs ++ rest)) =
        literal spelling.toList (c :: (cs ++ rest)) := rfl
    rw [show t = c :: cs from h.trans hcs, List.cons_append, hsplit, ← List.cons_append,
      ← hcs, literal_self]
    exact ⟨_, rfl, Nat.le_refl _⟩

/-- Whether no text of `q` is longer than what the pattern takes at the same place. -/
def precedes : Pattern → Pattern → Bool
  | .symbol _ short _, .symbol _ long _ =>
    !short.toList.isPrefixOf long.toList || long.toList.length ≤ short.toList.length
  | .comment, .symbol _ spelling _ => spelling.toList.length ≤ 2
  | .comment, _ | .symbol _ _ _, _ => false
  | .word, .number | .word, .blank | .number, .blank => true
  | _, .word | _, .number | _, .blank => false
  | p, .string quote => !p.starts quote
  | p, .comment => !p.starts '/'
  | p, .symbol _ spelling _ => !spelling.toList.head?.any p.starts

theorem all_pairwise_precedes : all.Pairwise fun p q => p.precedes q = true := by
  decide +kernel

/-- A longer spelling never stands behind one that it starts with. -/
theorem length_le_of_precedes (hp : p ∈ all) (hq : q ∈ all) (hpq : p.precedes q = true)
    (hs : p.split? cs = some s)
    (ht : t ∈ q.language) (hcs : t <+: cs) : t.length ≤ s.1.length := by
  have hmem := split?_mem_language hs
  have hstart : s.1 <+: cs := ⟨s.2, split?_append hs⟩
  -- both start with the character at which the input starts
  obtain ⟨c, hpc, hqc⟩ : ∃ c, p.starts c = true ∧ q.starts c = true := by
    obtain ⟨c, _, hfirst, hpc⟩ := starts_of_mem_language hp hmem
    obtain ⟨d, _, hfirst', hqd⟩ := starts_of_mem_language hq ht
    rw [hfirst] at hstart
    rw [hfirst'] at hcs
    obtain ⟨rest, rfl⟩ := hstart
    obtain ⟨rfl, -⟩ := List.cons_prefix_cons.1 hcs
    exact ⟨d, hpc, hqd⟩
  revert hpq
  fun_cases precedes p q with
  | case1 kind short _ kind' long =>
    have hshort : s.1 = short.toList := hmem
    have hlong : t = long.toList := ht
    rw [← hshort, ← hlong, Bool.or_eq_true, decide_eq_true_iff]
    rintro (hpq | hle)
    · by_contra hlt
      have hprefix := List.prefix_of_prefix_length_le hstart hcs (Nat.le_of_not_le hlt)
      rw [List.isPrefixOf_iff_prefix.2 hprefix] at hpq
      cases hpq
    · exact hle
  | case2 kind spelling =>
    have hspelling : t = spelling.toList := ht
    obtain ⟨body, -, hbody⟩ := mem_singleton_mul.1 hmem
    rw [← hspelling, ← hbody, decide_eq_true_iff]
    intro hle
    exact Nat.le_trans hle (Nat.le_add_left 2 body.length)
  | case3 | case4 | case8 | case9 | case10 => exact nofun
  | case5 => exact absurd hqc (Bool.eq_false_iff.1 (not_isDigit_of_isWordStart hpc))
  | case6 => exact absurd hpc (Bool.eq_false_iff.1 (isBlank_disjoint hqc).1)
  | case7 => exact absurd hpc (Bool.eq_false_iff.1 (isBlank_disjoint hqc).2)
  | case11 p quote =>
    rw [← of_decide_eq_true hqc, hpc]
    exact nofun
  | case12 p =>
    rw [← of_decide_eq_true hqc, hpc]
    exact nofun
  | case13 p kind spelling =>
    rw [of_decide_eq_true hqc, Option.any_some, hpc]
    exact nofun

/-- The pattern takes `lexeme` off the start of the text: it is the first in the table with a text
there, and no pattern of the table has a longer one there. -/
structure TakesLongest (p : Pattern) (cs lexeme rest : List Char) : Prop where
  whole : lexeme ++ rest = cs
  lexeme_ne_nil : lexeme ≠ []
  mem_language : lexeme ∈ p.language
  first : ∃ before behind, all = before ++ p :: behind ∧
    ∀ q ∈ before, ∀ t ∈ q.language, ¬t <+: cs
  longest : ∀ q ∈ all, ∀ t ∈ q.language, t <+: cs → t.length ≤ lexeme.length

theorem split?_isSome_of_mem_language (hp : p ∈ all) (h : t ∈ p.language) (hcs : t <+: cs) :
    ∃ s, p.split? cs = some s ∧ t.length ≤ s.1.length := by
  obtain ⟨rest, rfl⟩ := hcs
  exact reaches_of_mem_language hp h rest

theorem first?_takesLongest {lexeme rest : List Char} (h : first? cs = some (p, lexeme, rest)) :
    p.TakesLongest cs lexeme rest := by
  obtain ⟨hp, hsplit⟩ := first?_generation h
  obtain ⟨before, q, behind, hall, hq, hbefore⟩ := List.findSome?_eq_some_iff.1 h
  obtain ⟨s, -, hqs⟩ := Option.map_eq_some_iff.1 hq
  cases hqs
  have hnone : ∀ q ∈ before, ∀ t ∈ q.language, ¬t <+: cs := by
    intro q hq t ht hcs
    obtain ⟨s, hs, -⟩ :=
      split?_isSome_of_mem_language (hall ▸ List.mem_append_left _ hq) ht hcs
    have hsplits := hbefore q hq
    rw [hs] at hsplits
    cases hsplits
  refine ⟨split?_append hsplit, first?_ne_nil h, split?_mem_language hsplit,
    ⟨before, behind, hall, hnone⟩, ?_⟩
  intro q hq t ht hcs
  rw [hall, List.mem_append, List.mem_cons] at hq
  have hbehind : ∀ q ∈ behind, p.precedes q = true := by
    have hpairs := all_pairwise_precedes
    rw [hall] at hpairs
    exact (List.pairwise_cons.1 (List.pairwise_append.1 hpairs).2.1).1
  rcases hq with hq | rfl | hq
  · exact absurd hcs (hnone q hq t ht)
  · obtain ⟨s, hs, hle⟩ := split?_isSome_of_mem_language hp ht hcs
    cases hs.symm.trans hsplit
    exact hle
  · have hmem : q ∈ all := hall ▸ List.mem_append_right _ (List.mem_cons_of_mem _ hq)
    exact length_le_of_precedes hp hmem (hbehind q hq) hsplit ht hcs

end Matches

end Pattern

/-- Wherever some pattern matches, the first one of the table takes the longest text that any of
them matches there. A symbol is passed by the text of its token, and that is what the pattern has
matched. -/
theorem Cursor.takes_longest (c : Cursor)
    (h : ∃ q ∈ Pattern.all, ∃ t ∈ q.language, t <+: c.rest) :
    ∃ p lexeme rest, Pattern.first? c.rest = some (p, lexeme, rest) ∧
      p.TakesLongest c.rest lexeme rest ∧
      ∀ kind spelling value, p = .symbol kind spelling value →
        c.tokens = (c.pass value.toList).tokens.map (c.token kind value value.toList :: ·) ∧
          value.toList = lexeme ∧ (c.pass value.toList).rest = rest := by
  obtain ⟨q, hq, t, ht, hcs⟩ := h
  obtain ⟨s, hs, -⟩ := Pattern.split?_isSome_of_mem_language hq ht hcs
  cases hfirst : Pattern.first? c.rest with
  | none => cases hs.symm.trans (Pattern.first?_eq_none_iff.1 hfirst q hq)
  | some found =>
    obtain ⟨p, lexeme, rest⟩ := found
    refine ⟨p, lexeme, rest, rfl, Pattern.first?_takesLongest hfirst, ?_⟩
    rintro kind spelling value rfl
    have hvalue : value.toList = lexeme := Pattern.first?_consumed hfirst
    have hrest : (c.pass lexeme).rest = rest := advance_rest hfirst
    have hpass : c.pass lexeme = ⟨rest, c.position.after lexeme, false⟩ := by
      rw [← hrest]
      rfl
    rw [hvalue]
    refine ⟨?_, rfl, hrest⟩
    rw [hpass]
    exact tokens_take hfirst rfl

theorem Cursor.takes_longest_power :
    (∃ q ∈ Pattern.all, ∃ t ∈ q.language, t <+: (Cursor.start "**=x" "").rest) ∧
      ∃ p lexeme rest, Pattern.first? (Cursor.start "**=x" "").rest = some (p, lexeme, rest) ∧
        p.TakesLongest (Cursor.start "**=x" "").rest lexeme rest ∧ lexeme = ['*', '*'] ∧
        ((Cursor.start "**=x" "").pass "**".toList).rest = ['=', 'x'] := by
  have hsome : ∃ q ∈ Pattern.all, ∃ t ∈ q.language, t <+: (Cursor.start "**=x" "").rest :=
    ⟨.symbol .star "*" "*", by simp [Pattern.all], ['*'], rfl, by decide⟩
  obtain ⟨p, lexeme, rest, hfirst, hlongest, hpassed⟩ := Cursor.takes_longest _ hsome
  have hpower : Pattern.first? (Cursor.start "**=x" "").rest =
      some (.symbol .starStar "**" "**", ['*', '*'], ['=', 'x']) := rfl
  cases hfirst.symm.trans hpower
  exact ⟨hsome, _, _, _, hfirst, hlongest, rfl, (hpassed _ _ _ rfl).2.2⟩

end Scriptor
