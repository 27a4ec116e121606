import Scriptor.Proofs.Form.Grouping
import Scriptor.Proofs.Stages

namespace Scriptor.Script

open Form

def nameForm (spelling : EntityId → String) (id : EntityId) : Form :=
  (read? (spelling id)).getD (.atom [])

section Names

variable {a : Arena} {id : EntityId}

theorem target_reads (b : Builtin) : (read? b.target).any (fun f =>
    f.isProper && f.isTight && f.isSound && f.text = b.target.toList) = true := by
  cases b <;> decide +kernel

theorem nameForm_isName (hw : a.Worded) (hid : id.index < a.size) (named : List EntityId) :
    (nameForm (spelled a named) id).IsName ∧
    (nameForm (spelled a named) id).text = (spelled a named id).toList := by
  obtain ⟨e, he⟩ := Arena.lt_size_iff.1 hid
  cases hb : e.builtin with
  | some b =>
    obtain ⟨f, hf, hall⟩ := (Option.any_eq_true _ _).1 (target_reads b)
    simp only [Bool.and_eq_true, decide_eq_true_eq] at hall
    obtain ⟨⟨⟨hp, ht⟩, hs⟩, htext⟩ := hall
    rw [nameForm, spelled_of_builtin he hb, hf]
    exact ⟨⟨hp, ht, hs⟩, htext⟩
  | none =>
    have hname := name?_numbered (hw id e he hb) (named.idxOf id + 1)
    rw [← spelled_of_own he hb] at hname
    have hproper : (Form.atom (spelled a named id).toList).isProper = true :=
      decide_eq_true (atom?_of_name? hname)
    have hread := read?_string hproper rfl
    rw [Form.string, text, String.ofList_toList] at hread
    rw [nameForm, hread]
    exact ⟨⟨hproper, decide_eq_true hname, rfl⟩, rfl⟩

end Names

section Writes

/-- The action yields `value` of the spellings that hold after it. It may name further entities, and
later names do not change the value. -/
def Writes {α : Type} (a : Arena) (action : Write α) (value : (EntityId → String) → α) :
    Prop :=
  ∀ (w : Writer) (named : List EntityId), w.entities = a → w.Names named →
    ∃ more w', action.run w = .ok (value (spelled a (named ++ more)), w') ∧
      w'.Names (named ++ more) ∧ w.Alike w' ∧
      ∀ later, value (spelled a (named ++ more ++ later)) = value (spelled a (named ++ more))

variable {α β : Type} {a : Arena} {action : Write α} {value : (EntityId → String) → α}

theorem Writes.pure (r : α) : Writes a (pure r) fun _ => r := by
  intro w named hw h
  refine ⟨[], w, rfl, ?_, .refl w, fun _ => rfl⟩
  rwa [List.append_nil]

theorem Writes.bind_of {next : α → Write β} {value' : α → (EntityId → String) → β}
    (h : Writes a action value) {Q : α → Prop} (hQ : ∀ f, Q (value f))
    (hnext : ∀ r, Q r → Writes a (next r) (value' r)) :
    Writes a (action >>= next) fun f => value' (value f) f := by
  intro w named hw hnames
  obtain ⟨more, w₁, hrun, h₁, hlike, hstable⟩ := h w named hw hnames
  obtain ⟨more', w₂, hrun', h₂, hlike', hstable'⟩ :=
    hnext (value (spelled a (named ++ more))) (hQ _) w₁ (named ++ more)
      (hlike.entities_eq.trans hw) h₁
  refine ⟨more ++ more', w₂, ?_, ?_, hlike.trans hlike', ?_⟩
  · rw [StateT.run_bind, hrun, ← List.append_assoc]
    dsimp only
    rw [hstable more']
    exact hrun'
  · rwa [← List.append_assoc]
  · intro later
    have hvalue := hstable (more' ++ later)
    rw [← List.append_assoc] at hvalue
    dsimp only
    rw [← List.append_assoc, hvalue, hstable more', hstable' later]

theorem Writes.bind {next : α → Write β} {value' : α → (EntityId → String) → β}
    (h : Writes a action value) (hnext : ∀ r, Writes a (next r) (value' r)) :
    Writes a (action >>= next) fun f => value' (value f) f :=
  h.bind_of (Q := fun _ => True) (fun _ => trivial) fun r _ => hnext r

theorem Writes.congr {value' : (EntityId → String) → α} (h : Writes a action value)
    (heq : ∀ named, value (spelled a named) = value' (spelled a named)) :
    Writes a action value' := by
  intro w named hw hnames
  obtain ⟨more, w', hrun, h', hlike, hstable⟩ := h w named hw hnames
  refine ⟨more, w', ?_, h', hlike, ?_⟩
  · rw [← heq, hrun]
  · intro later
    rw [← heq, ← heq, hstable]

theorem nameOf_writes {id : EntityId} (hid : id.index < a.size) :
    Writes a (nameOf id) fun f => f id := by
  rintro w named rfl h
  obtain ⟨w', hrun, h', hlike⟩ := nameOf_run h hid
  obtain ⟨more, hmore⟩ := visit_append w.entities named id
  have hmem : w.entities.isOwn id = true → id ∈ named ++ more :=
    fun hown => hmore ▸ mem_visit hown
  rw [hmore] at hrun h'
  exact ⟨more, w', hrun, h', hlike, fun later => spelled_append hmem later⟩

end Writes

section Expressions

variable {a : Arena} {e : Typed.Expr}

theorem toList_commaSeparated (fs : List Form) :
    (commaSeparated (fs.map Form.string)).toList = textAll fs := by
  induction fs with
  | nil => rfl
  | cons f fs ih =>
    cases fs with
    | nil =>
      rw [commaSeparated, List.map_singleton, String.intercalate_singleton, toList_string, textAll]
    | cons g fs =>
      rw [commaSeparated, List.map_cons] at ih
      simp only [commaSeparated, List.map_cons, String.intercalate_cons_cons, String.toList_append,
        ih, toList_string, textAll]
      simp

theorem exprs_writes {es : List Typed.Expr}
    (h : ∀ e ∈ es, Writes a (expr e) fun f => (written (nameForm f) e).string) :
    Writes a (exprs es) fun f => (writtenAll (nameForm f) es).map Form.string := by
  induction es with
  | nil => exact .pure []
  | cons e es ih =>
    rw [List.forall_mem_cons] at h
    exact h.1.bind fun t => (ih h.2).bind fun ts => .pure (t :: ts)

theorem entries_writes {ps : List (Typed.Expr × Typed.Expr)}
    (h : ∀ p ∈ ps, Writes a (expr p.1) (fun f => (written (nameForm f) p.1).string) ∧
      Writes a (expr p.2) fun f => (written (nameForm f) p.2).string) :
    Writes a (entries ps) fun f => (writtenEntries (nameForm f) ps).map Form.string := by
  induction ps with
  | nil => exact .pure []
  | cons p ps ih =>
    rw [List.forall_mem_cons] at h
    have hbind := h.1.1.bind fun k => h.1.2.bind fun v => (ih h.2).bind fun ts =>
      Writes.pure (a := a) (("[" ++ k ++ ", " ++ v ++ "]") :: ts)
    refine hbind.congr fun named => ?_
    rw [writtenEntries, List.map_cons]
    congr 1
    apply String.toList_inj.1
    simp [toList_string, text, textAll]

theorem expr_writes (hw : a.Worded) (h : e.Names fun id => id.index < a.size) :
    Writes a (expr e) fun f => (written (nameForm f) e).string := by
  induction e with
  | literal value =>
    have hpure : Writes a (expr (.literal value)) fun _ => literal value := .pure (literal value)
    refine hpure.congr fun named => ?_
    rw [Form.string, written, ofLiteral, text_signedAtom, String.ofList_toList]
  | var id ty =>
    have hid : id.index < a.size := Typed.Expr.names_var.1 h
    refine (nameOf_writes hid).congr fun named => ?_
    rw [Form.string, written, (nameForm_isName hw hid named).2, String.ofList_toList]
  | binary left op right ty ihl ihr =>
    obtain ⟨hl, hr⟩ := Typed.Expr.names_binary.1 h
    have hbind := (ihl hl).bind fun l => (ihr hr).bind fun r =>
      Writes.pure (a := a) ("(" ++ base op left l ++ " " ++ symbol op ++ " " ++ r ++ ")")
    refine hbind.congr fun named => ?_
    apply String.toList_inj.1
    rw [base, written, baseForm]
    split <;> simp [toList_string, text]
  | unary op operand ty ih =>
    have hbind :=
      (ih (Typed.Expr.names_unary.1 h)).bind fun t =>
        Writes.pure (a := a) (op.symbol ++ "(" ++ t ++ ")")
    refine hbind.congr fun named => ?_
    apply String.toList_inj.1
    simp [toList_string, written, text]
  | conditional test consequent alternate ty iht ihc iha =>
    obtain ⟨ht, hc, ha⟩ := Typed.Expr.names_conditional.1 h
    have hbind := (iht ht).bind fun t => (ihc hc).bind fun c => (iha ha).bind fun e =>
      Writes.pure (a := a) ("((" ++ t ++ ") ? (" ++ c ++ ") : (" ++ e ++ "))")
    refine hbind.congr fun named => ?_
    apply String.toList_inj.1
    simp [toList_string, written, text]
  | call callee args ty ihf ihs =>
    obtain ⟨hf, has⟩ := Typed.Expr.names_call.1 h
    have hargs := exprs_writes fun e he => ihs e he (has e he)
    have hbind :=
      (ihf hf).bind fun f => hargs.bind fun ts =>
        Writes.pure (a := a) (f ++ "(" ++ commaSeparated ts ++ ")")
    refine hbind.congr fun named => ?_
    apply String.toList_inj.1
    rw [toList_string, written, text_continued fun _ => rfl]
    simp [toList_string, toList_commaSeparated]
  | subscript indexed index ty iha ihi =>
    obtain ⟨ha, hi⟩ := Typed.Expr.names_subscript.1 h
    have hbind :=
      (iha ha).bind fun t => (ihi hi).bind fun i => Writes.pure (a := a) (t ++ "[" ++ i ++ "]")
    refine hbind.congr fun named => ?_
    apply String.toList_inj.1
    rw [toList_string, written, text_continued fun _ => rfl]
    simp [toList_string]
  | array elements ty ihs =>
    have hes := exprs_writes fun e he => ihs e he (Typed.Expr.names_array.1 h e he)
    have hbind := hes.bind fun ts => Writes.pure (a := a) ("[" ++ commaSeparated ts ++ "]")
    refine hbind.congr fun named => ?_
    apply String.toList_inj.1
    simp [toList_string, toList_commaSeparated, written, text]
  | dict entries ty ihs =>
    have hps := entries_writes fun p hp =>
      ⟨(ihs p hp).1 (Typed.Expr.names_dict.1 h p hp).1,
        (ihs p hp).2 (Typed.Expr.names_dict.1 h p hp).2⟩
    have hbind := hps.bind fun ts => Writes.pure (a := a) ("new Map([" ++ commaSeparated ts ++ "])")
    refine hbind.congr fun named => ?_
    apply String.toList_inj.1
    simp [toList_string, toList_commaSeparated, written, text, textAll]

end Expressions

section Statements

variable {a : Arena} {object : Typed.Expr} {args : List Typed.Expr} {m : Typed.Method}

def methodText (m : Typed.Method) (args : List String) : String :=
  String.ofList (methodName m) ++ "(" ++ commaSeparated (methodArgs "0" "1" m args) ++ ")"

theorem methodCall_eq {texts : List String} (h : texts.length = m.arity) :
    methodCall m texts = pure (methodText m texts) := by
  cases m with
  | arrayAdd | arrayDelete | dictDelete =>
    obtain ⟨t, rfl⟩ := List.length_eq_one_iff.1 h
    refine congrArg pure (String.toList_inj.1 ?_)
    simp [methodText, methodName, methodArgs, commaSeparated]
  | arrayInsert | dictSet =>
    obtain ⟨t, u, rfl⟩ := List.length_eq_two.1 h
    refine congrArg pure (String.toList_inj.1 ?_)
    simp [methodText, methodName, methodArgs, commaSeparated]

theorem toList_methodText (m : Typed.Method) (fs : List Form) :
    (methodText m (fs.map Form.string)).toList =
      methodName m ++ '(' :: (textAll (methodArgs (.atom ['0']) (.atom ['1']) m fs) ++ [')']) := by
  have hargs : methodArgs "0" "1" m (fs.map Form.string) =
      (methodArgs (.atom ['0']) (.atom ['1']) m fs).map Form.string := by
    rw [map_methodArgs]
    rfl
  rw [methodText, hargs]
  simp [toList_commaSeparated]

def methodExpr (object : Typed.Expr) (m : Typed.Method) (args : List Typed.Expr) :
    Write String := do
  let o ← expr object
  let as ← exprs args
  let call ← methodCall m as
  return o ++ "." ++ call

theorem stmt_call (callee : Typed.Expr) (args : List Typed.Expr) :
    stmt (.call callee args) = expr (.call callee args .void) >>= fun t => emit (t ++ ";") := by
  simp only [stmt, expr, bind_assoc, pure_bind, String.append_assoc]
  rfl

theorem stmt_method (object : Typed.Expr) (m : Typed.Method) (args : List Typed.Expr) :
    stmt (.method object m args) = methodExpr object m args >>= fun t => emit (t ++ ";") := by
  simp only [stmt, methodExpr, bind_assoc, pure_bind]

theorem length_writtenAll (name : EntityId → Form) (es : List Typed.Expr) :
    (writtenAll name es).length = es.length := by
  rw [writtenAll_eq_map, List.length_map]

theorem methodExpr_writes (hw : a.Worded) (ho : object.Names fun id => id.index < a.size)
    (has : ∀ e ∈ args, e.Names fun id => id.index < a.size) (hm : args.length = m.arity) :
    Writes a (methodExpr object m args) fun f =>
      ((written (nameForm f) object).continued
        (applied m (writtenAll (nameForm f) args))).string := by
  have hargs := exprs_writes fun e he => expr_writes hw (has e he)
  have hlength (f : EntityId → String) :
      ((writtenAll (nameForm f) args).map Form.string).length = m.arity := by
    rw [List.length_map, length_writtenAll, hm]
  have hcall (o : String) : Writes a (do
      let as ← exprs args
      let call ← methodCall m as
      pure (o ++ "." ++ call)) fun f =>
        o ++ "." ++ methodText m ((writtenAll (nameForm f) args).map Form.string) := by
    have hnext (ts : List String) (hts : ts.length = m.arity) :
        Writes a (methodCall m ts >>= fun call => pure (o ++ "." ++ call)) fun _ =>
        o ++ "." ++ methodText m ts := by
      rw [methodCall_eq hts, pure_bind]
      exact .pure _
    exact hargs.bind_of (Q := fun ts => ts.length = m.arity) hlength hnext
  have happlied (fs : List Form) (x : Form) : (applied m fs x).text = x.text ++
      '.' :: (methodName m ++ '(' ::
        (textAll (methodArgs (.atom ['0']) (.atom ['1']) m fs) ++ [')'])) := by
    simp [applied, text]
  refine ((expr_writes hw ho).bind hcall).congr fun named => ?_
  apply String.toList_inj.1
  rw [toList_string, text_continued (happlied _)]
  simp [toList_string, toList_methodText]

end Statements

end Scriptor.Script
