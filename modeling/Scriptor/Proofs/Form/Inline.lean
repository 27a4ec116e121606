import Scriptor.Proofs.Form.Grouping

namespace Scriptor.Script.Form

open Pattern (isWordPart)

variable {text : List Char}

theorem newline_not_mem_word (h : Pattern.word.split? text = some (text, [])) : '\n' ∉ text := by
  cases text with
  | nil => cases h
  | cons c cs =>
    obtain ⟨hc, h⟩ := Option.ite_none_right_eq_some.1 h
    have hparts : ∀ d ∈ cs, isWordPart d = true :=
      List.dropWhile_eq_nil_iff.1 (Prod.mk.inj (Option.some.inj h)).2
    rw [List.mem_cons, not_or]
    refine ⟨?_, fun hmem => absurd (hparts _ hmem) (by decide)⟩
    rintro rfl
    cases hc

theorem newline_not_mem_name (h : name? text = some (text, [])) : '\n' ∉ text :=
  newline_not_mem_word (Option.filter_eq_some_iff.1 h).1

theorem IsNumber.newline_not_mem (h : IsNumber text) : '\n' ∉ text := by
  have hdigits {cs : List Char} (hcs : ∀ c ∈ cs, c.isDigit = true) : '\n' ∉ cs :=
    fun hmem => absurd (hcs _ hmem) (by decide)
  cases h with
  | whole h => exact hdigits h.2
  | fraction h _ hfraction => simp [hdigits h.2, hdigits hfraction]

theorem isHexDigit_ne_newline {c : Char} (h : isHexDigit c = true) : c ≠ '\n' := by
  rintro rfl
  cases h

/-- A line break within a string has an escape. -/
theorem newline_not_mem_stringTail {cs : List Char} {s : Pattern.Split}
    (h : stringTail cs = some s) : '\n' ∉ s.1 := by
  fun_induction stringTail cs generalizing s with
  | case1 cs =>
    cases h
    exact mt List.mem_singleton.1 (by decide)
  | case2 a b cs hhex ih =>
    obtain ⟨t, ht, rfl⟩ := Option.map_eq_some_iff.1 h
    rw [Bool.and_eq_true] at hhex
    simp [Pattern.Split.after, (isHexDigit_ne_newline hhex.1).symm,
      (isHexDigit_ne_newline hhex.2).symm, ih ht]
  | case4 a b c d cs hhex ih =>
    obtain ⟨t, ht, rfl⟩ := Option.map_eq_some_iff.1 h
    simp only [Bool.and_eq_true] at hhex
    simp [Pattern.Split.after, (isHexDigit_ne_newline hhex.1.1.1).symm,
      (isHexDigit_ne_newline hhex.1.1.2).symm, (isHexDigit_ne_newline hhex.1.2).symm,
      (isHexDigit_ne_newline hhex.2).symm, ih ht]
  | case6 c cs _ _ hc ih =>
    obtain ⟨t, ht, rfl⟩ := Option.map_eq_some_iff.1 h
    have hline : c ≠ '\n' := by
      rintro rfl
      exact absurd hc (by decide)
    simp [Pattern.Split.after, hline.symm, ih ht]
  | case9 c cs _ _ _ _ hc ih =>
    obtain ⟨t, ht, rfl⟩ := Option.map_eq_some_iff.1 h
    have hline : c ≠ '\n' := by
      rintro rfl
      exact hc (by decide)
    simp [Pattern.Split.after, hline.symm, ih ht]
  | _ => cases h

theorem newline_not_mem_atom (h : atom? text = some (text, [])) : '\n' ∉ text := by
  rcases atom?_generation h with hnumber | hstring | hname
  · exact hnumber.newline_not_mem
  · obtain ⟨cs, rfl⟩ := string?_cons hstring
    obtain ⟨s, hs, heq⟩ := Option.map_eq_some_iff.1 hstring
    rw [← (Prod.mk.inj heq).1]
    simp [newline_not_mem_stringTail hs]
  · exact newline_not_mem_name hname

theorem newline_not_mem_symbol (op : BinaryOp) : '\n' ∉ (symbol op).toList := by
  cases op <;> decide

theorem newline_not_mem_sign (op : UnaryOp) : '\n' ∉ op.symbol.toList := by
  cases op <;> decide

theorem newline_not_mem_textAll {fs : List Form} (h : ∀ f ∈ fs, '\n' ∉ f.text) :
    '\n' ∉ textAll fs := by
  induction fs with
  | nil => exact List.not_mem_nil
  | cons f fs ih =>
    rw [List.forall_mem_cons] at h
    cases fs with
    | nil => exact h.1
    | cons g fs => simp [textAll, h.1, ih h.2]

theorem newline_not_mem_text {f : Form} (h : f.isProper = true) : '\n' ∉ f.text := by
  induction f with
  | atom text => exact newline_not_mem_atom (of_decide_eq_true h)
  | group inner ih =>
    rw [isProper, Bool.and_eq_true] at h
    simp [ih h.2]
  | unary op operand ih =>
    rw [isProper, Bool.and_eq_true] at h
    simp [newline_not_mem_sign, ih h.2]
  | binary left op right ihl ihr =>
    simp only [isProper, Bool.and_eq_true] at h
    simp [newline_not_mem_symbol, ihl h.1.2, ihr h.2]
  | conditional test consequent alternate iht ihc iha =>
    simp only [isProper, Bool.and_eq_true] at h
    simp [iht h.1.1.2, ihc h.1.2, iha h.2]
  | call callee args ih ihs =>
    simp only [isProper, Bool.and_eq_true, areProper_iff] at h
    simp [ih h.1.2, newline_not_mem_textAll fun f hf => ihs f hf (h.2 f hf)]
  | subscript indexed index ihx ihi =>
    simp only [isProper, Bool.and_eq_true] at h
    simp [ihx h.1.2, ihi h.2]
  | member object property ih =>
    simp only [isProper, Bool.and_eq_true, decide_eq_true_eq] at h
    simp [ih h.1.2, newline_not_mem_word h.2]
  | array elements ihs =>
    rw [isProper, areProper_iff] at h
    simp [newline_not_mem_textAll fun f hf => ihs f hf (h f hf)]
  | construct name args ihs =>
    simp only [isProper, Bool.and_eq_true, decide_eq_true_eq, areProper_iff] at h
    simp [newline_not_mem_name h.1, newline_not_mem_textAll fun f hf => ihs f hf (h.2 f hf)]
  | arrow parameter body ih =>
    simp only [isProper, Bool.and_eq_true, decide_eq_true_eq] at h
    simp [newline_not_mem_name h.1.1, ih h.2]
  | spread list ih =>
    rw [isProper, Bool.and_eq_true] at h
    simp [ih h.2]

end Scriptor.Script.Form
