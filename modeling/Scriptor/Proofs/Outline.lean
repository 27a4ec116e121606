import Scriptor.Proofs.Form.Inline
import Scriptor.Proofs.Form.Programs
import Scriptor.Proofs.Safety

namespace Scriptor.Script

open Form

/-- A line of a script and the depth at which it stands. -/
structure Line where
  depth : Nat
  text : String

def Line.string (l : Line) : String := indented l.depth l.text

/-- Whether the text starts with no blank and holds no line break. -/
structure Inline (text : String) : Prop where
  starts : ∃ c cs, text.toList = c :: cs ∧ c ≠ ' '
  unbroken : '\n' ∉ text.toList

def exprText (f : EntityId → String) (e : Typed.Expr) : String := (written (nameForm f) e).string

def assignmentText (f : EntityId → String) : Typed.Stmt → String
  | .declaration id value => "let " ++ f id ++ " = " ++ exprText f value
  | .assignment target value => exprText f target ++ " = " ++ exprText f value
  | _ => ""

def updateText (f : EntityId → String) (s : Typed.Stmt) : String :=
  match step? s with
  | some (id, op) => f id ++ op
  | none => assignmentText f s

/-- The text of a statement, without its body and without what ends its line. -/
def headline (f : EntityId → String) : Typed.Stmt → String
  | .declaration id value => assignmentText f (.declaration id value)
  | .assignment target value => assignmentText f (.assignment target value)
  | .function id parameters _ =>
    "function " ++ f id ++ "(" ++ commaSeparated (parameters.map f) ++ ")"
  | .rangeFor init updating test _ =>
    "for (" ++ assignmentText f init ++ "; " ++ exprText f test ++ "; " ++
      updateText f updating ++ ")"
  | .collectionFor id collection _ =>
    "for (let " ++ f id ++ " of " ++ iterated collection.ty (exprText f collection) ++ ")"
  | .ret none => "return"
  | .ret (some value) => "return " ++ exprText f value
  | .brk => "break"
  | .call callee arguments => exprText f (.call callee arguments .void)
  | .print arguments => "console.log(" ++ commaSeparated (arguments.map (exprText f)) ++ ")"
  | .method object m arguments =>
    ((written (nameForm f) object).continued (applied m (writtenAll (nameForm f) arguments))).string

mutual

/-- The lines of a statement at the given depth. -/
@[simp] def outline (f : EntityId → String) (depth : Nat) : Typed.Stmt → List Line
  | .function id parameters body =>
    ⟨depth, headline f (.function id parameters body) ++ " \x7b"⟩ ::
      (outlineAll f (depth + 1) body ++ [⟨depth, "\x7d"⟩])
  | .rangeFor init update test body =>
    ⟨depth, headline f (.rangeFor init update test body) ++ " \x7b"⟩ ::
      (outlineAll f (depth + 1) body ++ [⟨depth, "\x7d"⟩])
  | .collectionFor id collection body =>
    ⟨depth, headline f (.collectionFor id collection body) ++ " \x7b"⟩ ::
      (outlineAll f (depth + 1) body ++ [⟨depth, "\x7d"⟩])
  | s => [⟨depth, headline f s ++ ";"⟩]

@[simp] def outlineAll (f : EntityId → String) (depth : Nat) : List Typed.Stmt → List Line
  | [] => []
  | s :: ss => outline f depth s ++ outlineAll f depth ss

end

section Prints

/-- The action writes the lines that the spellings give which hold after it, and leaves the writer
at the depth at which it was. -/
def Prints (a : Arena) (action : Write Unit) (lines : (EntityId → String) → Nat → List Line) :
    Prop :=
  ∀ (w : Writer) (named : List EntityId), w.entities = a → w.Names named →
    ∃ more w', action.run w = .ok ((), w') ∧ w'.Names (named ++ more) ∧ w'.entities = a ∧
      w'.indent = w.indent ∧
      w'.lines.toList = w.lines.toList ++
      (lines (spelled a (named ++ more)) w.indent).map Line.string ∧
      ∀ later, lines (spelled a (named ++ more ++ later)) = lines (spelled a (named ++ more))

variable {α : Type} {a : Arena} {action next : Write Unit}
  {lines lines' : (EntityId → String) → Nat → List Line}

theorem Prints.nothing : Prints a (pure ()) fun _ _ => [] := by
  intro w named hw h
  refine ⟨[], w, rfl, ?_, hw, rfl, ?_, fun _ => rfl⟩
  · rwa [List.append_nil]
  · rw [List.map_nil, List.append_nil]

theorem emit_prints (text : String) : Prints a (emit text) fun _ depth => [⟨depth, text⟩] := by
  intro w named hw h
  refine ⟨[], { w with lines := w.lines.push (indented w.indent text) }, rfl, ?_, hw, rfl,
    ?_, fun _ => rfl⟩
  · rw [List.append_nil]
    exact ⟨h.names_eq, h.count_eq, h.nodup, h.own⟩
  · rw [Array.toList_push]
    rfl

theorem Prints.append (h : Prints a action lines) (h' : Prints a next lines') :
    Prints a (action >>= fun _ => next) fun f depth => lines f depth ++ lines' f depth := by
  intro w named hw hnames
  obtain ⟨more, w₁, hrun, h₁, ha₁, hdepth, hlines, hstable⟩ := h w named hw hnames
  obtain ⟨more', w₂, hrun', h₂, ha₂, hdepth', hlines', hstable'⟩ :=
    h' w₁ (named ++ more) ha₁ h₁
  refine ⟨more ++ more', w₂, ?_, ?_, ha₂, hdepth'.trans hdepth, ?_, ?_⟩
  · rw [StateT.run_bind, hrun]
    exact hrun'
  · rwa [← List.append_assoc]
  · dsimp only
    rw [hlines', hlines, hdepth, ← List.append_assoc, hstable more', List.map_append,
      List.append_assoc]
  · intro later
    have hfirst := hstable (more' ++ later)
    rw [← List.append_assoc] at hfirst
    simp only [← List.append_assoc, hfirst, hstable more', hstable' later]

theorem Prints.deeper (h : Prints a action lines) :
    Prints a (deeper action) fun f depth => lines f (depth + 1) := by
  intro w named hw hnames
  obtain ⟨more, w', hrun, h', ha, hdepth, hlines, hstable⟩ :=
    h { w with indent := w.indent + 1 } named hw
      ⟨hnames.names_eq, hnames.count_eq, hnames.nodup, hnames.own⟩
  refine ⟨more, { w' with indent := w'.indent - 1 }, ?_,
    ⟨h'.names_eq, h'.count_eq, h'.nodup, h'.own⟩, ha, ?_, hlines, ?_⟩
  · rw [Script.deeper, StateT.run_bind]
    change (action >>= fun _ => _).run { w with indent := w.indent + 1 } = _
    rw [StateT.run_bind, hrun]
    rfl
  · change w'.indent - 1 = w.indent
    rw [hdepth]
    rfl
  · intro later
    dsimp only
    rw [hstable later]

/-- Writes texts for the lines that follow. -/
theorem Writes.prints {action : Write α} {value : (EntityId → String) → α}
    {next : α → Write Unit}
    {lines : α → (EntityId → String) → Nat → List Line} (h : Writes a action value)
    (hnext : ∀ r, Prints a (next r) (lines r)) :
    Prints a (action >>= next) fun f => lines (value f) f := by
  intro w named hw hnames
  obtain ⟨more, w₁, hrun, h₁, hlike, hstable⟩ := h w named hw hnames
  obtain ⟨more', w₂, hrun', h₂, ha₂, hdepth, hlines, hstable'⟩ :=
    hnext (value (spelled a (named ++ more))) w₁ (named ++ more) (hlike.entities_eq.trans hw) h₁
  refine ⟨more ++ more', w₂, ?_, ?_, ha₂, hdepth.trans hlike.indent_eq, ?_, ?_⟩
  · rw [StateT.run_bind, hrun]
    exact hrun'
  · rwa [← List.append_assoc]
  · dsimp only
    rw [hlines, hlike.lines_eq, hlike.indent_eq, ← List.append_assoc, hstable more']
  · intro later
    have hvalue := hstable (more' ++ later)
    rw [← List.append_assoc] at hvalue
    dsimp only
    rw [← List.append_assoc, hvalue, hstable more', hstable' later]

theorem Prints.congr (h : Prints a action lines)
    (heq : ∀ f depth, lines f depth = lines' f depth) : Prints a action lines' := by
  obtain rfl : lines = lines' := funext fun f => funext (heq f)
  exact h

end Prints

section Statements

variable {a : Arena}

theorem names_writes {ids : List EntityId} (h : ∀ id ∈ ids, id.index < a.size) :
    Writes a (names ids) fun f => ids.map f := by
  induction ids with
  | nil => exact .pure []
  | cons id ids ih =>
    rw [List.forall_mem_cons] at h
    exact (nameOf_writes h.1).bind fun n => (ih h.2).bind fun ns => .pure (n :: ns)

theorem exprs_writes_texts (hw : a.Worded) {es : List Typed.Expr}
    (h : ∀ e ∈ es, e.Names fun id => id.index < a.size) :
    Writes a (exprs es) fun f => es.map (exprText f) := by
  refine (exprs_writes fun e he => expr_writes hw (h e he)).congr fun named => ?_
  rw [writtenAll_eq_map, List.map_map]
  rfl

theorem assignment_writes (hw : a.Worded) {s : Typed.Stmt} (hs : s.IsStart)
    (h : s.WellFormed a.size) : Writes a (assignment s) fun f => assignmentText f s := by
  cases s with
  | declaration id value =>
    exact (nameOf_writes h.1).bind fun n => (expr_writes hw h.2).bind fun v => .pure _
  | assignment target value =>
    exact (expr_writes hw h.1).bind fun t => (expr_writes hw h.2).bind fun v => .pure _
  | _ => exact hs.elim

theorem update_writes (hw : a.Worded) {s : Typed.Stmt} (hs : s.IsStep) (h : s.WellFormed a.size) :
    Writes a (update s) fun f => updateText f s := by
  cases hstep : step? s with
  | none =>
    simp only [update, updateText, hstep]
    exact assignment_writes hw hs.isStart h
  | some step =>
    obtain ⟨id, op⟩ := step
    simp only [update, updateText, hstep]
    obtain ⟨ty, value, rfl⟩ := step?_eq_some hstep
    exact (nameOf_writes (Typed.Expr.names_var.1 h.1)).bind fun n => .pure _

mutual

theorem stmt_prints (hw : a.Worded) : (s : Typed.Stmt) → s.WellFormed a.size →
    Prints a (stmt s) fun f depth => outline f depth s
  | .declaration id value, h => by
    exact (assignment_writes hw (s := .declaration id value) trivial h).prints fun t =>
      emit_prints _
  | .assignment target value, h => by
    exact (assignment_writes hw (s := .assignment target value) trivial h).prints fun t =>
      emit_prints _
  | .function id parameters body, ⟨hid, hps, hb⟩ => by
    have hprints := (nameOf_writes hid).prints fun name => (names_writes hps).prints fun ps =>
      (emit_prints ("function " ++ name ++ "(" ++ commaSeparated ps ++ ") \x7b")).append
        ((stmts_prints hw body hb).deeper.append (emit_prints "\x7d"))
    exact hprints.congr fun f depth => by simp [headline, String.append_assoc]
  | .rangeFor init updating test body, ⟨his, hi, hus, hu, ht, hb⟩ => by
    have hprints :=
      (assignment_writes hw his hi).prints fun i => (expr_writes hw ht).prints fun t =>
      (update_writes hw hus hu).prints fun u =>
        (emit_prints ("for (" ++ i ++ "; " ++ t ++ "; " ++ u ++ ") \x7b")).append
          ((stmts_prints hw body hb).deeper.append (emit_prints "\x7d"))
    exact hprints.congr fun f depth => by simp [headline, exprText, String.append_assoc]
  | .collectionFor id collection body, ⟨hid, hc, hb⟩ => by
    have hprints := (nameOf_writes hid).prints fun name => (expr_writes hw hc).prints fun c =>
      (emit_prints ("for (let " ++ name ++ " of " ++ iterated collection.ty c ++ ") \x7b")).append
        ((stmts_prints hw body hb).deeper.append (emit_prints "\x7d"))
    exact hprints.congr fun f depth => by simp [headline, exprText, String.append_assoc]
  | .ret none, _ => emit_prints _
  | .ret (some value), h => (expr_writes hw (h value rfl)).prints fun v => emit_prints _
  | .brk, _ => emit_prints _
  | .call callee args, ⟨hf, has⟩ => by
    rw [stmt_call]
    exact (expr_writes hw (Typed.Expr.names_call.2 ⟨hf, has⟩)).prints fun t => emit_prints _
  | .print args, has => by
    have hprints := (exprs_writes_texts hw has).prints fun ts =>
      emit_prints ("console.log(" ++ commaSeparated ts ++ ");")
    exact hprints.congr fun f depth => by simp [headline, String.append_assoc]
  | .method object m args, ⟨ho, has, hm⟩ => by
    rw [stmt_method]
    exact (methodExpr_writes hw ho has hm).prints fun t => emit_prints _

theorem stmts_prints (hw : a.Worded) :
    (ss : List Typed.Stmt) → Typed.Stmt.WellFormedAll a.size ss →
    Prints a (stmts ss) fun f depth => outlineAll f depth ss
  | [], _ => .nothing
  | s :: ss, ⟨hs, hss⟩ => (stmt_prints hw s hs).append (stmts_prints hw ss hss)

end

end Statements

section Texts

theorem inline_of_all {text : String} (hstart : text.toList.head?.any (· != ' ') = true)
    (hline : text.toList.contains '\n' = false) : Inline text where
  starts := by
    obtain ⟨c, hc, hne⟩ := (Option.any_eq_true _ _).1 hstart
    obtain ⟨cs, hcs⟩ := List.head?_eq_some_iff.1 hc
    exact ⟨c, cs, hcs, bne_iff_ne.1 hne⟩
  unbroken := by
    rw [← List.contains_iff_mem, hline]
    exact Bool.false_ne_true

theorem Inline.append {t u : String} (h : Inline t) (hu : '\n' ∉ u.toList) : Inline (t ++ u) where
  starts := by
    obtain ⟨c, cs, ht, hc⟩ := h.starts
    exact ⟨c, cs ++ u.toList, by rw [String.toList_append, ht, List.cons_append], hc⟩
  unbroken := by
    rw [String.toList_append, List.mem_append, not_or]
    exact ⟨h.unbroken, hu⟩

theorem Form.inline {f : Form} (hp : f.isProper = true) (hc : f.isContent = true) :
    Inline f.string where
  starts := by
    obtain ⟨c, cs, htext, hopens⟩ := text_cons_of_isContent hp hc
    refine ⟨c, cs, (toList_string f).trans htext, ?_⟩
    rintro rfl
    revert hopens
    decide
  unbroken := by
    rw [toList_string]
    exact newline_not_mem_text hp

theorem newline_not_mem_commaSeparated {ts : List String} (h : ∀ t ∈ ts, '\n' ∉ t.toList) :
    '\n' ∉ (commaSeparated ts).toList := by
  induction ts with
  | nil => exact List.not_mem_nil
  | cons t ts ih =>
    rw [List.forall_mem_cons] at h
    cases ts with
    | nil =>
      rw [commaSeparated, String.intercalate_singleton]
      exact h.1
    | cons u us =>
      rw [commaSeparated, String.intercalate_cons_cons, String.toList_append, String.toList_append,
        List.mem_append, List.mem_append, not_or, not_or]
      exact ⟨⟨h.1, by decide⟩, ih h.2⟩

theorem newline_not_mem_iterated (ty : Ty) {text : String} (h : '\n' ∉ text.toList) :
    '\n' ∉ (iterated ty text).toList := by
  cases ty with
  | dict base =>
    rw [iterated, String.toList_append, List.mem_append, not_or]
    exact ⟨h, by decide⟩
  | _ => exact h

theorem newline_not_mem_step {s : Typed.Stmt} {id : EntityId} {op : String}
    (h : step? s = some (id, op)) : '\n' ∉ op.toList := by
  revert h
  fun_cases step? s
  all_goals
    rintro ⟨⟩
    try decide

variable {a : Arena} (hw : a.Worded) (named : List EntityId)

include hw

theorem newline_not_mem_spelled {id : EntityId} (hid : id.index < a.size) :
    '\n' ∉ (spelled a named id).toList := by
  obtain ⟨hname, htext⟩ := nameForm_isName hw hid named
  rw [← htext]
  exact newline_not_mem_text hname.isProper

theorem inline_exprText {e : Typed.Expr} (h : e.Ready fun id => id.index < a.size) :
    Inline (exprText (spelled a named) e) := by
  have hstands := stands_of_ready (isName_of_ready hw h named)
  exact Form.inline hstands.isProper hstands.isContent

theorem inline_assignmentText {s : Typed.Stmt} (hs : s.IsStart) (h : s.WellFormed a.size)
    (hr : ∀ e ∈ s.exprs, e.Ready fun id => id.index < a.size) :
    Inline (assignmentText (spelled a named) s) := by
  cases s with
  | declaration id value =>
    have hvalue := inline_exprText hw named (hr value (List.mem_singleton_self value))
    exact (((inline_of_all rfl rfl).append (newline_not_mem_spelled hw named h.1)).append
      (by decide)).append hvalue.unbroken
  | assignment target value =>
    obtain ⟨htarget, hvalue⟩ := List.forall_mem_cons.1 hr
    exact ((inline_exprText hw named htarget).append (by decide)).append
      (inline_exprText hw named (List.forall_mem_singleton.1 hvalue)).unbroken
  | _ => exact hs.elim

theorem newline_not_mem_updateText {s : Typed.Stmt} (hs : s.IsStep) (h : s.WellFormed a.size)
    (hr : ∀ e ∈ s.exprs, e.Ready fun id => id.index < a.size) :
    '\n' ∉ (updateText (spelled a named) s).toList := by
  rw [updateText]
  split
  next id op hstep =>
    obtain ⟨ty, value, rfl⟩ := step?_eq_some hstep
    rw [String.toList_append, List.mem_append, not_or]
    exact ⟨newline_not_mem_spelled hw named (Typed.Expr.names_var.1 h.1),
      newline_not_mem_step hstep⟩
  next => exact (inline_assignmentText hw named hs.isStart h hr).unbroken

theorem inline_headline {s : Typed.Stmt} (h : s.WellFormed a.size) (hr : s.Ready a) :
    Inline (headline (spelled a named) s) := by
  cases s with
  | declaration id value =>
    exact inline_assignmentText hw named (s := .declaration id value) trivial h hr.exprs
  | assignment target value =>
    exact inline_assignmentText hw named (s := .assignment target value) trivial h hr.exprs
  | function id parameters body =>
    obtain ⟨hid, hps, -⟩ := h
    have hparameters := newline_not_mem_commaSeparated
      (List.forall_mem_map.2 fun p hp => newline_not_mem_spelled hw named (hps p hp))
    exact ((((inline_of_all rfl rfl).append (newline_not_mem_spelled hw named hid)).append
      (by decide)).append hparameters).append (by decide)
  | rangeFor init updating test body =>
    obtain ⟨his, hi, hus, hu, -, -⟩ := h
    obtain ⟨hheader, htest⟩ := List.forall_mem_append.1 hr.exprs
    obtain ⟨hinit, hupdate⟩ := List.forall_mem_append.1 hheader
    have hfirst := (inline_assignmentText hw named his hi hinit).unbroken
    have hsecond := (inline_exprText hw named (List.forall_mem_singleton.1 htest)).unbroken
    have hthird := newline_not_mem_updateText hw named hus hu hupdate
    exact ((((((inline_of_all rfl rfl).append hfirst).append (by decide)).append hsecond).append
      (by decide)).append hthird).append (by decide)
  | collectionFor id collection body =>
    have hcollection := inline_exprText hw named (List.forall_mem_singleton.1 hr.exprs)
    exact ((((inline_of_all rfl rfl).append (newline_not_mem_spelled hw named h.1)).append
      (by decide)).append (newline_not_mem_iterated _ hcollection.unbroken)).append (by decide)
  | ret value =>
    cases value with
    | none =>
      have hword : Inline "return" := inline_of_all rfl rfl
      exact hword
    | some value =>
      have hvalue := inline_exprText hw named (List.forall_mem_singleton.1 hr.exprs)
      exact (inline_of_all rfl rfl).append hvalue.unbroken
  | brk =>
    have hword : Inline "break" := inline_of_all rfl rfl
    exact hword
  | print args =>
    have hargs := newline_not_mem_commaSeparated
      (List.forall_mem_map.2 fun e he => (inline_exprText hw named (hr.exprs e he)).unbroken)
    exact ((inline_of_all rfl rfl).append hargs).append (by decide)
  | call callee args => exact inline_exprText hw named (hr.application _ rfl)
  | method object m args =>
    obtain ⟨hproper, hcontent⟩ :=
      isProper_method (isName_of_ready hw (hr.application _ rfl) named)
    exact Form.inline hproper hcontent

end Texts

section Outlines

variable {a : Arena}

theorem inline_block {depth : Nat} {head : String} {ls : List Line} (hhead : Inline head)
    (hls : ∀ l ∈ ls, Inline l.text) :
    ∀ l ∈ (⟨depth, head ++ " \x7b"⟩ : Line) :: (ls ++ [⟨depth, "\x7d"⟩]),
      Inline l.text := by
  have hclosing : Inline "\x7d" := inline_of_all rfl rfl
  rw [List.forall_mem_cons, List.forall_mem_append, List.forall_mem_singleton]
  exact ⟨hhead.append (by decide), hls, hclosing⟩

mutual

theorem inline_outline (hw : a.Worded) (named : List EntityId) (depth : Nat) : (s : Typed.Stmt) →
    s.WellFormed a.size → s.Each (Typed.Stmt.Ready a) →
    ∀ l ∈ outline (spelled a named) depth s, Inline l.text
  | .function _ _ body, h, ⟨hs, hb⟩ =>
    inline_block (inline_headline hw named h hs)
      (inline_outlineAll hw named (depth + 1) body h.2.2 hb)
  | .rangeFor _ _ _ body, h, ⟨hs, hb⟩ =>
    inline_block (inline_headline hw named h hs)
      (inline_outlineAll hw named (depth + 1) body h.2.2.2.2.2 hb)
  | .collectionFor _ _ body, h, ⟨hs, hb⟩ =>
    inline_block (inline_headline hw named h hs)
      (inline_outlineAll hw named (depth + 1) body h.2.2 hb)
  | .declaration _ _, h, hs | .assignment _ _, h, hs | .ret _, h, hs | .brk, h, hs
  | .call _ _, h, hs | .print _, h, hs
  | .method _ _ _, h, hs =>
    List.forall_mem_singleton.2 ((inline_headline hw named h hs).append (by decide))

theorem inline_outlineAll (hw : a.Worded) (named : List EntityId) (depth : Nat) :
    (ss : List Typed.Stmt) →
    Typed.Stmt.WellFormedAll a.size ss → Typed.Stmt.EachOf (Typed.Stmt.Ready a) ss →
      ∀ l ∈ outlineAll (spelled a named) depth ss, Inline l.text
  | [], _, _ => List.forall_mem_nil _
  | s :: ss, ⟨hs, hss⟩, ⟨hr, hrs⟩ => List.forall_mem_append.2
    ⟨inline_outline hw named depth s hs hr, inline_outlineAll hw named depth ss hss hrs⟩

end

theorem outlineAll_ne_nil (f : EntityId → String)
    (depth : Nat) {ss : List Typed.Stmt} (h : ss ≠ []) : outlineAll f depth ss ≠ [] := by
  cases ss with
  | nil => exact absurd rfl h
  | cons s ss => cases s <;> simp

theorem splitOn_lines {ls : List Line} (h : ∀ l ∈ ls, Inline l.text) (hls : ls ≠ []) :
    List.splitOn '\n' ("\n".intercalate (ls.map Line.string)).toList = ls.map fun l =>
      l.string.toList := by
  rw [String.toList_intercalate, List.map_map]
  apply List.splitOn_intercalate
  · rw [List.forall_mem_map]
    intro l hl
    have hblank : '\n' ∉ List.replicate (2 * l.depth) ' ' := by
      rw [List.mem_replicate]
      exact fun hmem => absurd hmem.2 (by decide)
    rw [Function.comp_apply, Line.string, indented, String.toList_append, String.toList_ofList,
      List.mem_append, not_or]
    exact ⟨hblank, (h l hl).unbroken⟩
  · exact mt List.map_eq_nil_iff.1 hls

end Outlines

end Scriptor.Script

namespace Scriptor

namespace Typed.Stmt

mutual

theorem WellFormed.each {n : Nat} : (s : Stmt) → s.WellFormed n → s.Each (WellFormed n)
  | .function _ _ body, h => ⟨h, wellFormedAll_each body h.2.2⟩
  | .rangeFor _ _ _ body, h => ⟨h, wellFormedAll_each body h.2.2.2.2.2⟩
  | .collectionFor _ _ body, h => ⟨h, wellFormedAll_each body h.2.2⟩
  | .declaration _ _, h | .assignment _ _, h | .ret _, h | .brk, h | .call _ _, h | .print _, h
  | .method _ _ _, h => h

theorem wellFormedAll_each {n : Nat} :
    (ss : List Stmt) → WellFormedAll n ss → EachOf (WellFormed n) ss
  | [], _ => trivial
  | s :: ss, ⟨hs, hss⟩ => ⟨WellFormed.each s hs, wellFormedAll_each ss hss⟩

end

end Typed.Stmt

open Script

theorem Typed.Program.entities_simplifyIf (t : Typed.Program) (simplify : Bool) :
    (t.simplifyIf simplify).entities = t.entities := by
  cases simplify <;> rfl

theorem compile_eq_ok {source file text : String} {simplify : Bool}
    (h : compile source file simplify = .ok text) :
    ∃ t, analyze source file = .ok t ∧ (t.simplifyIf simplify).script = .ok text := by
  rw [compile] at h
  cases hanalyze : analyze source file with
  | error e =>
    rw [hanalyze] at h
    cases h
  | ok t =>
    rw [hanalyze] at h
    change (t.simplifyIf simplify).script.mapError Failure.fault = _ at h
    cases hscript : (t.simplifyIf simplify).script with
    | error f =>
      rw [hscript] at h
      cases h
    | ok text' =>
      rw [hscript] at h
      cases h
      exact ⟨t, rfl, hscript⟩

/-- The script of a program with statements has exactly the lines of their outline, each indented by
two blanks for each block around it and then without blanks before its text. Each statement,
wherever it stands, is written as its outline says and leaves the writer at the depth at which it
was. -/
theorem compile_lines {source file text : String} {simplify : Bool}
    (h : compile source file simplify = .ok text) :
    ∃ t, analyze source file = .ok t ∧
      ((t.simplifyIf simplify).statements ≠ [] → ∃ named,
        (List.splitOn '\n' text.toList =
          (outlineAll (spelled t.entities named) 0 (t.simplifyIf simplify).statements).map fun l =>
            l.string.toList) ∧
        ∀ l ∈ outlineAll (spelled t.entities named) 0 (t.simplifyIf simplify).statements,
          Inline l.text) ∧
      Typed.Stmt.EachOf (fun s => Prints t.entities (stmt s) fun f depth => outline f depth s)
        (t.simplifyIf simplify).statements := by
  obtain ⟨t, hanalyze, hscript⟩ := compile_eq_ok h
  have hw := worded_of_analyze hanalyze
  have hwellFormed := (analyze_wellFormed hanalyze).simplifyIf simplify
  rw [Typed.Program.WellFormed, t.entities_simplifyIf] at hwellFormed
  refine ⟨t, hanalyze, ?_, ?_⟩
  · intro hne
    obtain ⟨more, w, hrun, -, -, -, hlines, -⟩ :=
      stmts_prints hw _ hwellFormed (.start t.entities) [] rfl (Writer.start_names _)
    have hinline := inline_outlineAll hw more 0 _ hwellFormed (ready_of_analyze hanalyze simplify)
    refine ⟨more, ?_, hinline⟩
    rw [Typed.Program.script, t.entities_simplifyIf, hrun] at hscript
    obtain rfl : w.text = text := Except.ok.inj hscript
    rw [Writer.text, hlines]
    exact splitOn_lines hinline (outlineAll_ne_nil _ _ hne)
  · refine Typed.Stmt.EachOf.imp ?_ _ (Typed.Stmt.wellFormedAll_each _ hwellFormed)
    intro s hs
    exact stmt_prints hw s hs

def nested : String :=
  "Function f(x: int)\n  for (i = 0, i += 1)\n    print(\"a\\nb\")\n  end i < x\nend f\nf(2)"

def nestedScript : String :=
  "function f_1(x_2) \x7b\n  for (let i_3 = 0; (i_3 < x_2); i_3++) \x7b\n" ++
    "    console.log(\"a\\nb\");\n  \x7d\n\x7d\nf_1(2);"

theorem compile_lines_nested :
    compile nested "" true = .ok nestedScript ∧ ∃ t, analyze nested "" = .ok t ∧
      (t.simplifyIf true).statements ≠ [] ∧ ∃ named, (List.splitOn '\n' nestedScript.toList =
          (outlineAll (spelled t.entities named) 0 (t.simplifyIf true).statements).map fun l =>
            l.string.toList) ∧
        ∀ l ∈ outlineAll (spelled t.entities named) 0 (t.simplifyIf true).statements,
          Inline l.text := by
  have hcompile : compile nested "" true = .ok nestedScript := by decide +kernel
  have hprogram :
      ((analyze nested "").toOption.any fun t => !(t.simplifyIf true).statements.isEmpty) =
      true := by
    decide +kernel
  obtain ⟨t, ht, hlines, -⟩ := compile_lines hcompile
  rw [ht, Except.toOption, Option.any_some, Bool.not_eq_true',
    List.isEmpty_eq_false_iff] at hprogram
  exact ⟨hcompile, t, ht, hprogram, hlines hprogram⟩

end Scriptor
