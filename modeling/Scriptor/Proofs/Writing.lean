import Scriptor.Proofs.WellFormed
import Scriptor.Script.Statement

namespace Scriptor

namespace Script

/-- The action succeeds for every writer with the entities `a`, keeps the entities and yields a
value with `Q`. -/
def Yields {α : Type} (a : Arena) (action : Write α) (Q : α → Prop) : Prop :=
  ∀ w : Writer, w.entities = a → ∃ r w', action.run w = .ok (r, w') ∧
    w'.entities = a ∧ Q r

variable {α β : Type} {a : Arena} {Q : α → Prop} {R : β → Prop}

theorem Yields.pure {r : α} (h : Q r) : Yields a (pure r) Q := by
  intro w hw
  exact ⟨r, w, rfl, hw, h⟩

theorem Yields.bind {action : Write α} {next : α → Write β} (h : Yields a action Q)
    (hn : ∀ r, Q r → Yields a (next r) R) : Yields a (action >>= next) R := by
  intro w hw
  obtain ⟨r, w', hr, hw', hq⟩ := h w hw
  obtain ⟨s, w'', hs, hw'', hq'⟩ := hn r hq w' hw'
  refine ⟨s, w'', ?_, hw'', hq'⟩
  rw [StateT.run_bind, hr]
  exact hs

theorem modify_yields {f : Writer → Writer} (hf : ∀ w, (f w).entities = w.entities) :
    Yields a (modify f : Write Unit) fun _ => True := by
  intro w hw
  exact ⟨(), f w, rfl, (hf w).trans hw, trivial⟩

theorem emit_yields (line : String) : Yields a (emit line) fun _ => True :=
  modify_yields fun _ => rfl

theorem Yields.deeper {action : Write Unit} (h : Yields a action fun _ => True) :
    Yields a (deeper action) fun _ => True := by
  rw [Script.deeper]
  refine Yields.bind (modify_yields fun w => ?_) fun _ _ => h.bind fun _ _ =>
    modify_yields fun w => ?_
  all_goals rfl

theorem nameOf_yields {id : EntityId} (h : id.index < a.size) :
    Yields a (nameOf id) fun _ => True := by
  rintro w rfl
  obtain ⟨e, he⟩ := Arena.lt_size_iff.1 h
  rw [nameOf, StateT.run_bind, StateT.run_get, pure_bind]
  dsimp only
  rw [he]
  dsimp only
  cases e.builtin with
  | some b => exact ⟨_, _, rfl, rfl, trivial⟩
  | none =>
    dsimp only
    cases w.names.lookup id with
    | some name => exact ⟨_, _, rfl, rfl, trivial⟩
    | none => exact ⟨_, _, rfl, rfl, trivial⟩

theorem names_yields {ids : List EntityId} (h : ∀ id ∈ ids, id.index < a.size) :
    Yields a (names ids) fun _ => True := by
  induction ids with
  | nil => exact .pure trivial
  | cons id ids ih =>
    rw [List.forall_mem_cons] at h
    exact (nameOf_yields h.1).bind fun _ _ => (ih h.2).bind fun _ _ => .pure trivial

theorem exprs_yields {es : List Typed.Expr} (h : ∀ e ∈ es, Yields a (expr e) fun _ => True) :
    Yields a (exprs es) fun texts => texts.length = es.length := by
  induction es with
  | nil => exact .pure rfl
  | cons e es ih =>
    rw [List.forall_mem_cons] at h
    refine h.1.bind fun _ _ => (ih h.2).bind fun texts hlen => .pure ?_
    rw [List.length_cons, List.length_cons, hlen]

theorem entries_yields {ps : List (Typed.Expr × Typed.Expr)}
    (h : ∀ p ∈ ps, Yields a (expr p.1) (fun _ => True) ∧ Yields a (expr p.2) fun _ => True) :
    Yields a (entries ps) fun _ => True := by
  induction ps with
  | nil => exact .pure trivial
  | cons p ps ih =>
    rw [List.forall_mem_cons] at h
    exact h.1.1.bind fun _ _ => h.1.2.bind fun _ _ => (ih h.2).bind fun _ _ => .pure trivial

theorem expr_yields {e : Typed.Expr} (h : e.Names (·.index < a.size)) :
    Yields a (expr e) fun _ => True := by
  induction e with
  | literal value => exact .pure trivial
  | var id ty => exact nameOf_yields (Typed.Expr.names_var.1 h)
  | binary left op right ty ihl ihr =>
    obtain ⟨hl, hr⟩ := Typed.Expr.names_binary.1 h
    exact (ihl hl).bind fun _ _ => (ihr hr).bind fun _ _ => .pure trivial
  | unary op operand ty ih =>
    exact (ih (Typed.Expr.names_unary.1 h)).bind fun _ _ => .pure trivial
  | conditional test consequent alternate ty iht ihc iha =>
    obtain ⟨ht, hc, ha⟩ := Typed.Expr.names_conditional.1 h
    exact (iht ht).bind fun _ _ => (ihc hc).bind fun _ _ => (iha ha).bind fun _ _ => .pure trivial
  | call callee args ty ihf ihs =>
    obtain ⟨hf, has⟩ := Typed.Expr.names_call.1 h
    exact (ihf hf).bind fun _ _ => (exprs_yields fun e he => ihs e he (has e he)).bind fun _ _ =>
      .pure trivial
  | subscript indexed index ty iha ihi =>
    obtain ⟨ha, hi⟩ := Typed.Expr.names_subscript.1 h
    exact (iha ha).bind fun _ _ => (ihi hi).bind fun _ _ => .pure trivial
  | array elements ty ihs =>
    have hes := Typed.Expr.names_array.1 h
    exact (exprs_yields fun e he => ihs e he (hes e he)).bind fun _ _ => .pure trivial
  | dict ps ty ihs =>
    have hps := Typed.Expr.names_dict.1 h
    refine (entries_yields fun p hp => ?_).bind fun _ _ => .pure trivial
    exact ⟨(ihs p hp).1 (hps p hp).1, (ihs p hp).2 (hps p hp).2⟩

theorem assignment_yields {s : Typed.Stmt} (hs : s.IsStart) (h : s.WellFormed a.size) :
    Yields a (assignment s) fun _ => True := by
  cases s with
  | declaration id value =>
    exact (nameOf_yields h.1).bind fun _ _ => (expr_yields h.2).bind fun _ _ => .pure trivial
  | assignment target value =>
    exact (expr_yields h.1).bind fun _ _ => (expr_yields h.2).bind fun _ _ => .pure trivial
  | _ => exact hs.elim

theorem step?_eq_some {s : Typed.Stmt} {id : EntityId} {op : String} (h : step? s = some (id, op)) :
    ∃ ty value, s = .assignment (.var id ty) value := by
  revert h
  fun_cases step? s
  all_goals rintro ⟨⟩
  · exact ⟨_, _, rfl⟩
  · exact ⟨_, _, rfl⟩

theorem update_yields {s : Typed.Stmt} (hs : s.IsStep) (h : s.WellFormed a.size) :
    Yields a (update s) fun _ => True := by
  rw [update]
  split
  next id op hstep =>
    obtain ⟨ty, value, rfl⟩ := step?_eq_some hstep
    exact (nameOf_yields (Typed.Expr.names_var.1 h.1)).bind fun _ _ => .pure trivial
  next => exact assignment_yields hs.isStart h

/-- A method gets as many texts as it has arguments. -/
theorem methodCall_yields {m : Typed.Method} {texts : List String} (h : texts.length = m.arity) :
    Yields a (methodCall m texts) fun _ => True := by
  cases m with
  | arrayAdd | arrayDelete | dictDelete =>
    obtain ⟨x, rfl⟩ := List.length_eq_one_iff.1 h
    exact .pure trivial
  | arrayInsert | dictSet =>
    obtain ⟨x, y, rfl⟩ := List.length_eq_two.1 h
    exact .pure trivial

mutual

theorem stmt_yields : (s : Typed.Stmt) → s.WellFormed a.size → Yields a (stmt s) fun _ => True
  | .declaration id value, h => by
    refine (assignment_yields (s := .declaration id value) trivial h).bind fun _ _ => ?_
    exact emit_yields _
  | .assignment target value, h => by
    refine (assignment_yields (s := .assignment target value) trivial h).bind fun _ _ => ?_
    exact emit_yields _
  | .function id parameters body, ⟨hid, hps, hb⟩ => by
    refine (nameOf_yields hid).bind fun _ _ => ?_
    refine (names_yields hps).bind fun _ _ => ?_
    refine (emit_yields _).bind fun _ _ => ?_
    refine (stmts_yields body hb).deeper.bind fun _ _ => ?_
    exact emit_yields _
  | .rangeFor init updating test body, ⟨his, hi, hus, hu, ht, hb⟩ => by
    refine (assignment_yields his hi).bind fun _ _ => ?_
    refine (expr_yields ht).bind fun _ _ => ?_
    refine (update_yields hus hu).bind fun _ _ => ?_
    refine (emit_yields _).bind fun _ _ => ?_
    refine (stmts_yields body hb).deeper.bind fun _ _ => ?_
    exact emit_yields _
  | .collectionFor id collection body, ⟨hid, hc, hb⟩ => by
    refine (nameOf_yields hid).bind fun _ _ => ?_
    refine (expr_yields hc).bind fun _ _ => ?_
    refine (emit_yields _).bind fun _ _ => ?_
    refine (stmts_yields body hb).deeper.bind fun _ _ => ?_
    exact emit_yields _
  | .ret none, _ => emit_yields _
  | .ret (some value), h => by
    refine (expr_yields (h value rfl)).bind fun _ _ => ?_
    exact emit_yields _
  | .brk, _ => emit_yields _
  | .call callee args, ⟨hf, has⟩ => by
    refine (expr_yields hf).bind fun _ _ => ?_
    refine (exprs_yields fun e he => expr_yields (has e he)).bind fun _ _ => ?_
    exact emit_yields _
  | .print args, has => by
    refine (exprs_yields fun e he => expr_yields (has e he)).bind fun _ _ => ?_
    exact emit_yields _
  | .method object m args, ⟨ho, has, hm⟩ => by
    refine (expr_yields ho).bind fun _ _ => ?_
    refine (exprs_yields fun e he => expr_yields (has e he)).bind fun _ hlen => ?_
    refine (methodCall_yields (hlen.trans hm)).bind fun _ _ => ?_
    exact emit_yields _

theorem stmts_yields :
    (ss : List Typed.Stmt) → Typed.Stmt.WellFormedAll a.size ss →
    Yields a (stmts ss) fun _ => True
  | [], _ => .pure trivial
  | s :: ss, ⟨hs, hss⟩ => (stmt_yields s hs).bind fun _ _ => stmts_yields ss hss

end

end Script

theorem Typed.Program.WellFormed.script {p : Typed.Program} (h : p.WellFormed) :
    ∃ text, p.script = .ok text := by
  obtain ⟨u, w, hw, -⟩ := Script.stmts_yields p.statements h (.start p.entities) rfl
  rw [Typed.Program.script, hw]
  exact ⟨w.text, rfl⟩

end Scriptor
