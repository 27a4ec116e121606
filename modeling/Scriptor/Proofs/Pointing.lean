import Scriptor.Diagnostic
import Scriptor.Proofs.Blame
import Scriptor.Proofs.LineBreaks
import Scriptor.Proofs.Naming

namespace Scriptor

variable {line before after front tail rest : List Char}

/-- What a line holds before a place is what the column of the place counts. -/
theorem Position.column_behind (hfront : ∀ c ∈ front.getLast?, c = '\n') (htail : '\n' ∉ tail)
    (file : String) : (behind file (front ++ tail)).column = tail.length + 1 := by
  induction tail using List.reverseRecOn with
  | nil =>
    have hnil : front.rtakeWhile (· != '\n') = [] := by
      rw [List.rtakeWhile_eq_nil_iff]
      intro hne
      simp [hfront _ (List.getLast?_eq_some_getLast hne)]
    rw [List.append_nil, behind, hnil]
    rfl
  | append_singleton tail c ih =>
    rw [List.mem_append, List.mem_singleton, not_or] at htail
    rw [← List.append_assoc, behind_concat, next, if_neg (Ne.symm htail.2), ih htail.1,
      List.length_append]
    rfl

theorem eq_nil_of_starts (hfront : ∀ c ∈ (front ++ tail).getLast?, c = '\n')
    (htail : '\n' ∉ tail) : tail = [] := by
  by_contra hne
  have hlast : tail.getLast hne = '\n' := by
    apply hfront
    rw [List.getLast?_append_of_ne_nil _ hne]
    exact List.getLast?_eq_some_getLast hne
  exact htail (hlast ▸ List.getLast_mem hne)

/-- A place that is counted to a line stands on it or behind its end. -/
theorem Text.IsLine.place (h : IsLine (before ++ after) (before.count '\n' + 1) line) :
    ∃ front tail rest, before = front ++ tail ∧
      line ++ rest = tail ++ after ∧ '\n' ∉ tail ∧ ∀ c ∈ front.getLast?, c = '\n' := by
  obtain ⟨front, rest, htext, hcount, hcut⟩ := h
  rcases List.append_eq_append_iff.1 htext with ⟨tail, rfl, rfl⟩ | ⟨tail, rfl, hline⟩
  · rw [List.count_append] at hcount
    have htail : '\n' ∉ tail := List.count_eq_zero.1 (by omega)
    obtain rfl := eq_nil_of_starts hcut.starts htail
    rw [List.append_nil] at hcut
    exact ⟨before, [], rest, (List.append_nil _).symm, rfl, htail, hcut.starts⟩
  · rw [List.count_append] at hcount
    have htail : '\n' ∉ tail := List.count_eq_zero.1 (by omega)
    exact ⟨front, tail, rest, rfl, hline, htail, hcut.starts⟩

theorem Abuts.visible (h : Abuts before after) (hbefore : before = front ++ tail)
    (hfront : ∀ c ∈ front.getLast?, c = '\n') :
    after = [] ∨ ∃ first c rest, tail ++ after = first ++ c :: rest ∧
      first.length ≤ tail.length ∧ Text.isBlank c = false := by
  cases h with
  | ends => exact .inl rfl
  | @before _ rest c hc => exact .inr ⟨tail, c, rest, rfl, Nat.le_refl _, hc⟩
  | @behind front' lexeme _ c hline hmem hc =>
    have htail : c ∈ tail := by
      rcases List.append_eq_append_iff.1 hbefore with ⟨mid, rfl, rfl⟩ | ⟨mid, -, rfl⟩
      · obtain rfl := eq_nil_of_starts hfront fun hmid => hline (List.mem_append_left _ hmid)
        exact hmem
      · exact List.mem_append_right mid hmem
    obtain ⟨first, last, rfl⟩ := List.append_of_mem htail
    refine .inr ⟨first, c, last ++ after, ?_, ?_, hc⟩
    · rw [List.append_assoc, List.cons_append]
    · rw [List.length_append]
      exact Nat.le_add_right _ _

theorem length_takeWhile_le {p : Char → Bool} {first : List Char} {c : Char} (hc : p c = false)
    (h : line ++ rest = first ++ c :: tail) : (line.takeWhile p).length ≤ first.length := by
  induction line generalizing first with
  | nil => exact Nat.zero_le _
  | cons d line ih =>
    cases first with
    | nil =>
      obtain rfl : d = c := (List.cons.inj h).1
      rw [List.takeWhile_cons_of_neg (Bool.not_eq_true _ ▸ hc)]
    | cons f first =>
      have hle := ih (List.cons.inj h).2
      rw [List.takeWhile_cons]
      split
      next => exact Nat.succ_le_succ hle
      next => exact Nat.zero_le _

/-- On its line, a place that abuts something stands behind the first blanks. -/
theorem Abuts.length_blanks_le (h : Abuts before after) (hbefore : before = front ++ tail)
    (hfront : ∀ c ∈ front.getLast?, c = '\n') (hline : line ++ rest = tail ++ after) :
    (line.takeWhile Text.isBlank).length ≤ tail.length := by
  rcases h.visible hbefore hfront with rfl | ⟨first, c, last, hsplit, hle, hc⟩
  · have hlength := congrArg List.length hline
    have hblanks := (List.takeWhile_sublist (l := line) Text.isBlank).length_le
    rw [List.length_append, List.append_nil] at hlength
    omega
  · exact (length_takeWhile_le hc (hline.trans hsplit)).trans hle

/-- Where the place of an error stands on its line: `tail` is what the line has before it, and this
holds the first blanks of the line. -/
theorem Position.IsBy.on_line {p : Position} {text : List Char} {file : String}
    (h : p.IsBy text file) :
    ∃ before after, text = before ++ after ∧ p = .behind file before ∧
      ∀ line, Text.IsLine text p.line line →
      ∃ tail rest, p.column = tail.length + 1 ∧ line ++ rest = tail ++ after ∧
        (line.takeWhile Text.isBlank).length ≤ tail.length := by
  obtain ⟨before, after, rfl, rfl, habuts⟩ := h
  refine ⟨before, after, rfl, rfl, ?_⟩
  intro line hline
  rw [behind, Nat.add_comm] at hline
  obtain ⟨front, tail, rest, rfl, hsplit, htail, hfront⟩ := hline.place
  exact ⟨tail, rest, column_behind hfront htail file, hsplit,
    habuts.length_blanks_le rfl hfront hsplit⟩

namespace Diagnostic

/-- Whether a line is shown behind a margin and without the blanks around it, and a caret behind
`front` stands below its column with the given number. -/
structure Points (line margin shown front : List Char) (column : Nat) : Prop where
  shown_eq : ∃ trail, line = line.takeWhile Text.isBlank ++ (shown ++ trail) ∧
    ∀ c ∈ trail, Text.isBlank c = true
  trimmed : ∀ c ∈ shown.getLast?, Text.isBlank c = false
  newline_not_mem : '\n' ∉ margin ++ shown ∧ '\n' ∉ front
  caret_not_mem : '^' ∉ front
  below : front.length + (line.takeWhile Text.isBlank).length + 1 = margin.length + column

theorem shownLine_eq (line : List Char) :
    ∃ trail, line = line.takeWhile Text.isBlank ++ (shownLine line ++ trail) ∧
      ∀ c ∈ trail, Text.isBlank c = true := by
  refine ⟨(line.dropWhile Text.isBlank).rtakeWhile Text.isBlank, ?_, fun c hc =>
    List.mem_rtakeWhile_imp hc⟩
  have hshown : shownLine line = (line.dropWhile Text.isBlank).rdropWhile Text.isBlank := rfl
  rw [hshown, List.rdropWhile_append_rtakeWhile, List.takeWhile_append_dropWhile]

theorem shownLine_trimmed (line : List Char) :
    ∀ c ∈ (shownLine line).getLast?, Text.isBlank c = false := by
  intro c hc
  obtain ⟨hne, rfl⟩ := List.mem_getLast?_eq_getLast hc
  exact Bool.eq_false_iff.2
    (List.rdropWhile_last_not Text.isBlank (line.dropWhile Text.isBlank) hne)

/-- The caret stands below the character that the place is in front of. -/
theorem Points.getElem?_front {margin shown : List Char} {column : Nat}
    (h : Points line margin shown front column)
    (hle : (line.takeWhile Text.isBlank).length ≤ tail.length)
    (hcolumn : column = tail.length + 1) (hline : line ++ rest = tail ++ after) :
    (margin ++ shown)[front.length]? =
      if column ≤ (line.takeWhile Text.isBlank).length + shown.length then after.head?
      else none := by
  obtain ⟨trail, htrail, -⟩ := h.shown_eq
  have hbelow := h.below
  generalize line.takeWhile Text.isBlank = blanks at *
  obtain ⟨i, hi⟩ := Nat.exists_eq_add_of_le hle
  have hfront : front.length = margin.length + i := by omega
  rw [hfront, List.getElem?_append_right (Nat.le_add_right _ _), Nat.add_sub_cancel_left]
  split
  next hin =>
    have hshown : i < shown.length := by omega
    calc shown[i]? = (line ++ rest)[blanks.length + i]? := by
          rw [htrail, List.append_assoc, List.getElem?_append_right (Nat.le_add_right _ _),
            Nat.add_sub_cancel_left, List.append_assoc, List.getElem?_append_left hshown]
      _ = after.head? := by
          rw [hline, ← hi, List.getElem?_append_right (Nat.le_refl _), Nat.sub_self,
            List.head?_eq_getElem?]
  next hout => exact List.getElem?_eq_none (by omega)

theorem newline_not_mem_number (n : Nat) : '\n' ∉ (toString n).toList := by
  intro h
  exact absurd (Script.isDigit_of_mem_toString h) (by decide)

theorem excerpt_points {p : Position} {line : String} (hline : '\n' ∉ line.toList)
    (hcolumn : (line.toList.takeWhile Text.isBlank).length < p.column) :
    ∃ gutter margin shown front, Points line.toList margin shown front p.column ∧
      excerpt p line =
        [gutter, String.ofList (margin ++ shown), String.ofList (front ++ ['^'])] := by
  obtain ⟨trail, htrail, hblank⟩ := shownLine_eq line.toList
  have hshown : '\n' ∉ shownLine line.toList := by
    intro h
    rw [htrail] at hline
    exact hline (List.mem_append_right _ (List.mem_append_left _ h))
  have hnumber := newline_not_mem_number p.line
  rw [excerpt]
  generalize toString p.line = number at hnumber ⊢
  refine ⟨pad ' ' (number.length + 2) "|", number.toList ++ [' ', '|', ' '],
    shownLine line.toList, List.replicate (number.length + 1) ' ' ++ '|' :: ' ' ::
      List.replicate (caretColumn p.column line.toList - 1) '-', ?_, ?_⟩
  · constructor
    · exact ⟨trail, htrail, hblank⟩
    · exact shownLine_trimmed line.toList
    · simp [hnumber, hshown]
    · simp
    · simp only [caretColumn, List.length_append, List.length_replicate, List.length_cons,
        List.length_nil, String.length_toList]
      omega
  · simp [pad, ← String.toList_inj]

theorem diagnostic_points {e : Error} {source line : String}
    (h : Text.line? source e.position.line = some line) (hline : '\n' ∉ line.toList)
    (hcolumn : (line.toList.takeWhile Text.isBlank).length < e.position.column) :
    ∃ head margin shown front,
      (e.diagnostic source).toList = head ++ '\n' :: (margin ++ shown) ++ '\n' ::
        (front ++ ['^', '\n']) ∧
      Points line.toList margin shown front e.position.column := by
  obtain ⟨gutter, margin, shown, front, hpoints, hexcerpt⟩ := excerpt_points hline hcolumn
  refine ⟨(header e ++ "\n" ++ place e.position ++ "\n" ++ gutter).toList, margin, shown,
    front, ?_, hpoints⟩
  simp [Error.diagnostic, lines, h, hexcerpt, String.join]

end Diagnostic

/-- An error stands at a place in the source text, and the diagnostic points there. The line under
the number of the place is the one that is looked up, and the place stands behind its first blanks.
The caret stands below the character at that place, or where it would stand if the place is behind
what is shown of the line. -/
theorem compile_error_pointed {source file : String} {simplify : Bool} {e : Error}
    (h : compile source file simplify = .error (.error e)) :
    (∀ line, Text.line? source e.position.line = some line ↔
      Text.IsLine source.toList e.position.line line.toList) ∧
    ∃ before after, source.toList = before ++ after ∧ e.position = .behind file before ∧
      ∀ line : String, Text.IsLine source.toList e.position.line line.toList →
        (line.toList.takeWhile Text.isBlank).length < e.position.column ∧
        ∃ head margin shown front,
          (e.diagnostic source).toList = head ++ '\n' :: (margin ++ shown) ++ '\n' ::
            (front ++ ['^', '\n']) ∧
          Diagnostic.Points line.toList margin shown front e.position.column ∧
          (margin ++ shown)[front.length]? =
            if e.position.column ≤
              (line.toList.takeWhile Text.isBlank).length + shown.length then after.head?
            else none := by
  refine ⟨fun line => Text.line?_eq_some_iff, ?_⟩
  obtain ⟨e', he, hanalyze⟩ := compile_eq_error h
  cases he
  obtain ⟨before, after, htext, hposition, hplace⟩ := (analyze_error_isBy hanalyze).on_line
  refine ⟨before, after, htext, hposition, ?_⟩
  intro line hline
  obtain ⟨tail, rest, hcolumn, hsplit, hle⟩ := hplace line.toList hline
  have hlt : (line.toList.takeWhile Text.isBlank).length < e.position.column := by omega
  obtain ⟨head, margin, shown, front, hdiagnostic, hpoints⟩ :=
    Diagnostic.diagnostic_points (Text.line?_eq_some_iff.2 hline) hline.newline_not_mem hlt
  exact ⟨hlt, head, margin, shown, front, hdiagnostic, hpoints,
    hpoints.getElem?_front hle hcolumn hsplit⟩

def indented : String := "x = 1\r\n   y = z \r\n"

theorem compile_error_pointed_indented :
    compile indented "a" true = .error (.error ⟨.notDeclared "z", ⟨2, 8, "a"⟩⟩) ∧
    Text.IsLine indented.toList 2 "   y = z ".toList ∧
    ∃ head margin shown front,
      (Error.diagnostic ⟨.notDeclared "z", ⟨2, 8, "a"⟩⟩ indented).toList =
        head ++ '\n' :: (margin ++ shown) ++ '\n' :: (front ++ ['^', '\n']) ∧
      Diagnostic.Points "   y = z ".toList margin shown front 8 := by
  have hcompile : compile indented "a" true =
      .error (.error ⟨.notDeclared "z", ⟨2, 8, "a"⟩⟩) := by
    decide +kernel
  have hlookup : Text.line? indented 2 = some "   y = z " := by
    decide +kernel
  obtain ⟨hlines, before, after, -, -, hpoint⟩ := compile_error_pointed hcompile
  have hline := (hlines _).1 hlookup
  obtain ⟨-, head, margin, shown, front, hdiagnostic, hpoints, -⟩ := hpoint _ hline
  exact ⟨hcompile, hline, head, margin, shown, front, hdiagnostic, hpoints⟩

end Scriptor
