import Mathlib.Data.List.Basic
import Scriptor.Text.Lines

namespace Scriptor.Text

/-- Whether a line stands whole between what is before it and what is behind it, which starts with
its ending. -/
structure Cut (front line rest : List Char) : Prop where
  starts : ∀ c ∈ front.getLast?, c = '\n'
  inline : '\n' ∉ line
  ends : (rest = [] ∧ line ≠ []) ∨
    (∃ below, rest = '\n' :: below ∧ line.getLast? ≠ some '\r') ∨
    ∃ below, rest = '\r' :: '\n' :: below

/-- Whether the text has the line under the given number, counted from one. -/
def IsLine (text : List Char) (number : Nat) (line : List Char) : Prop :=
  ∃ front rest, text = front ++ (line ++ rest) ∧ number = front.count '\n' + 1 ∧
    Cut front line rest

variable {text front line rest cs l : List Char} {ls : List (List Char)} {c : Char} {number : Nat}

theorem IsLine.newline_not_mem (h : IsLine text number line) : '\n' ∉ line := by
  obtain ⟨_, _, -, -, hcut⟩ := h
  exact hcut.inline

theorem starts_nil : ∀ c ∈ ([] : List Char).getLast?, c = '\n' := by
  intro c hc
  cases hc

/-- A carriage return belongs to its line, unless the line feed is next. -/
theorem cut_cons_iff : Cut [] (c :: line) rest ↔ c ≠ '\n' ∧
    (line ++ rest = [] ∨ Cut [] line rest ∧
      (c = '\r' → (line ++ rest).head? ≠ some '\n')) := by
  constructor
  · intro h
    obtain ⟨hc, hline⟩ := not_or.1 (mt List.mem_cons.2 h.inline)
    refine ⟨Ne.symm hc, ?_⟩
    cases line with
    | nil =>
      rcases h.ends with ⟨rfl, -⟩ | ⟨below, rfl, hlast⟩ | ⟨below, rfl⟩
      · exact .inl rfl
      · refine .inr
          ⟨⟨starts_nil, hline, .inr (.inl ⟨below, rfl, (Option.some_ne_none _).symm⟩)⟩,
            ?_⟩
        rintro rfl
        exact absurd rfl hlast
      · exact .inr ⟨⟨starts_nil, hline, .inr (.inr ⟨below, rfl⟩)⟩, fun _ => by simp⟩
    | cons d line =>
      refine .inr ⟨⟨starts_nil, hline, ?_⟩, fun _ hd => hline ?_⟩
      · simpa using h.ends
      · rw [List.cons_append, List.head?_cons, Option.some.injEq] at hd
        rw [hd]
        exact List.mem_cons_self
  · rintro ⟨hc, h⟩
    rcases h with hnil | ⟨h, hcr⟩
    · obtain ⟨rfl, rfl⟩ := List.append_eq_nil_iff.1 hnil
      exact ⟨starts_nil, mt List.mem_singleton.1 hc.symm, .inl ⟨rfl, List.cons_ne_nil _ _⟩⟩
    · refine ⟨starts_nil, mt List.mem_cons.1 (not_or.2 ⟨hc.symm, h.inline⟩), ?_⟩
      rcases h.ends with ⟨rfl, -⟩ | ⟨below, rfl, hlast⟩ | hends
      · exact .inl ⟨rfl, List.cons_ne_nil _ _⟩
      · refine .inr (.inl ⟨below, rfl, ?_⟩)
        cases line with
        | nil =>
          intro heq
          exact hcr (Option.some.inj heq) rfl
        | cons d line => rwa [List.getLast?_cons_cons]
      · exact .inr (.inr hends)

theorem lines_singleton (hc : c ≠ '\n') : lines [c] = [[c]] := by
  rw [lines]
  · rfl
  · exact hc
  · rintro ds - hds
    cases hds

theorem lines_eq_nil_iff : lines text = [] ↔ text = [] := by
  fun_cases lines text <;> simp [*]

theorem lines_cons (hc : c ≠ '\n') (hcr : c = '\r' → cs.head? ≠ some '\n')
    (h : lines cs = l :: ls) : lines (c :: cs) = (c :: l) :: ls := by
  rw [lines, h]
  · exact hc
  · rintro ds rfl rfl
    exact hcr rfl rfl

inductive Generation (c : Char) (text : List Char) : List (List Char) → Prop where
  | newline : c = '\n' → Generation c text ([] :: lines text)
  | carriage {below : List Char} :
      c = '\r' → text = '\n' :: below → Generation c text (lines text)
  | single : c ≠ '\n' → text = [] → Generation c text [[c]]
  | cons {l : List Char} {ls : List (List Char)} :
      c ≠ '\n' → (c = '\r' → text.head? ≠ some '\n') →
      lines text = l :: ls → Generation c text ((c :: l) :: ls)

theorem lines_generation (c : Char) (text : List Char) : Generation c text (lines (c :: text)) := by
  by_cases hc : c = '\n'
  · subst hc
    exact .newline rfl
  · by_cases hcr : c = '\r' ∧ text.head? = some '\n'
    · obtain ⟨rfl, below, rfl⟩ := hcr.imp_right List.head?_eq_some_iff.1
      exact .carriage rfl rfl
    · cases hls : lines text with
      | nil =>
        obtain rfl := lines_eq_nil_iff.1 hls
        rw [lines_singleton hc]
        exact .single hc rfl
      | cons l ls =>
        rw [lines_cons hc (not_and.1 hcr) hls]
        exact .cons hc (not_and.1 hcr) hls

/-- A text starts with its first line. -/
theorem Cut.lines_eq (h : Cut [] line rest) : ∃ ls, lines (line ++ rest) = line :: ls := by
  induction line with
  | nil =>
    rcases h.ends with ⟨-, hne⟩ | ⟨below, rfl, -⟩ | ⟨below, rfl⟩
    · exact absurd rfl hne
    · exact ⟨lines below, rfl⟩
    · exact ⟨lines below, rfl⟩
  | cons c line ih =>
    obtain ⟨hc, hnil | ⟨h, hcr⟩⟩ := cut_cons_iff.1 h
    · obtain ⟨rfl, rfl⟩ := List.append_eq_nil_iff.1 hnil
      exact ⟨[], lines_singleton hc⟩
    · obtain ⟨ls, hls⟩ := ih h
      exact ⟨ls, lines_cons hc hcr hls⟩

theorem cut_of_head? (h : (lines text).head? = some line) :
    ∃ rest, text = line ++ rest ∧ Cut [] line rest := by
  induction text generalizing line with
  | nil => cases h
  | cons c text ih =>
    have hlines := lines_generation c text
    generalize lines (c :: text) = ls at h hlines
    cases hlines with
    | newline hc =>
      subst hc
      cases h
      exact ⟨'\n' :: text, rfl, starts_nil, List.not_mem_nil,
        .inr (.inl ⟨text, rfl, (Option.some_ne_none _).symm⟩)⟩
    | @carriage below hc htext =>
      subst hc htext
      cases h
      exact ⟨'\r' :: '\n' :: below, rfl, starts_nil, List.not_mem_nil,
        .inr (.inr ⟨below, rfl⟩)⟩
    | single hc htext =>
      subst htext
      cases h
      exact ⟨[], rfl, cut_cons_iff.2 ⟨hc, .inl rfl⟩⟩
    | cons hc hcr hls =>
      cases h
      obtain ⟨rest, rfl, hcut⟩ := ih (congrArg List.head? hls)
      exact ⟨rest, rfl, cut_cons_iff.2 ⟨hc, .inr ⟨hcut, hcr⟩⟩⟩

theorem lines_append_newline (front below : List Char) :
    ∃ ls, ls.length = front.count '\n' + 1 ∧
      lines (front ++ '\n' :: below) = ls ++ lines below := by
  induction front with
  | nil => exact ⟨[[]], rfl, rfl⟩
  | cons c front ih =>
    obtain ⟨ls, hlength, hls⟩ := ih
    have hlines := lines_generation c (front ++ '\n' :: below)
    rw [List.cons_append]
    generalize lines (c :: (front ++ '\n' :: below)) = ls' at hlines ⊢
    cases hlines with
    | newline hc =>
      refine ⟨[] :: ls, ?_, by rw [hls, List.cons_append]⟩
      rw [List.length_cons, hlength, hc, List.count_cons_self]
    | carriage hc htext =>
      subst hc
      exact ⟨ls, hlength, hls⟩
    | single hc htext =>
      exact absurd htext (List.append_ne_nil_of_right_ne_nil _ (List.cons_ne_nil _ _))
    | @cons l ls' hc hcr hl =>
      obtain ⟨m, ms, rfl⟩ := List.exists_cons_of_length_eq_add_one hlength
      obtain ⟨rfl, rfl⟩ := List.cons.inj (hl.symm.trans hls)
      exact ⟨(c :: l) :: ms, by rwa [List.count_cons_of_ne hc], rfl⟩

theorem isLine_one_iff :
    IsLine text 1 line ↔ ∃ rest, text = line ++ rest ∧ Cut [] line rest := by
  constructor
  · rintro ⟨front, rest, htext, hcount, hcut⟩
    obtain rfl : front = [] := by
      by_contra hne
      have hlast : front.getLast hne = '\n' := hcut.starts _ (List.getLast?_eq_some_getLast hne)
      have hpos : 0 < front.count '\n' := List.count_pos_iff.2 (hlast ▸ List.getLast_mem hne)
      omega
    exact ⟨rest, htext, hcut⟩
  · rintro ⟨rest, htext, hcut⟩
    exact ⟨[], rest, htext, rfl, hcut⟩

theorem IsLine.newline (h : IsLine text number line) : IsLine ('\n' :: text) (number + 1) line := by
  obtain ⟨front, rest, rfl, rfl, hcut⟩ := h
  refine ⟨'\n' :: front, rest, rfl, by rw [List.count_cons_self], ?_, hcut.inline, hcut.ends⟩
  cases front with
  | nil => simp
  | cons d front =>
    rw [List.getLast?_cons_cons]
    exact hcut.starts

theorem IsLine.cons (h : IsLine text number line) (hnumber : number ≠ 1) (hc : c ≠ '\n') :
    IsLine (c :: text) number line := by
  obtain ⟨front, rest, rfl, rfl, hcut⟩ := h
  cases front with
  | nil => exact absurd rfl hnumber
  | cons d front =>
    refine ⟨c :: d :: front, rest, rfl,
      by rw [List.count_cons_of_ne hc], ?_, hcut.inline, hcut.ends⟩
    rw [List.getLast?_cons_cons]
    exact hcut.starts

theorem isLine_of_getElem? (h : (lines text)[number]? = some line) :
    IsLine text (number + 1) line := by
  induction text generalizing number with
  | nil => cases h
  | cons c text ih =>
    cases number with
    | zero => exact isLine_one_iff.2 (cut_of_head? (List.head?_eq_getElem?.trans h))
    | succ n =>
      have hlines := lines_generation c text
      generalize lines (c :: text) = ls at h hlines
      cases hlines with
      | newline hc =>
        subst hc
        exact (ih h).newline
      | carriage hc htext =>
        subst hc
        exact (ih h).cons (by omega) (by decide)
      | single hc htext => cases h
      | cons hc hcr hls =>
        rw [hls] at ih
        exact (ih h).cons (by omega) hc

/-- The line that is looked up is the line that has the number. -/
theorem line?_eq_some_iff {source line : String} :
    line? source number = some line ↔ IsLine source.toList number line.toList := by
  constructor
  · intro h
    cases number with
    | zero => cases h
    | succ n =>
      obtain ⟨l, hl, rfl⟩ := Option.map_eq_some_iff.1 h
      rw [String.toList_ofList]
      exact isLine_of_getElem? hl
  · rintro ⟨front, rest, htext, rfl, hcut⟩
    obtain ⟨ls, hls⟩ := Cut.lines_eq ⟨starts_nil, hcut.inline, hcut.ends⟩
    have hline : (lines source.toList)[front.count '\n']? = some line.toList := by
      rw [htext]
      rcases List.eq_nil_or_concat' front with rfl | ⟨above, c, rfl⟩
      · rw [List.nil_append, hls]
        rfl
      · obtain rfl : c = '\n' := hcut.starts c List.getLast?_concat
        obtain ⟨ls', hlength, hls'⟩ := lines_append_newline above (line.toList ++ rest)
        have hcount : (above ++ ['\n']).count '\n' = ls'.length := by
          rw [hlength, List.count_append, List.count_singleton_self]
        rw [List.append_assoc, List.singleton_append, hls', hcount, hls,
          List.getElem?_append_right (Nat.le_refl _), Nat.sub_self]
        rfl
    rw [line?, hline, Option.map_some, String.ofList_toList]

end Scriptor.Text
