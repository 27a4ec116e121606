import Scriptor.Proofs.Form.Texts
import Scriptor.Proofs.Precision
import Scriptor.Proofs.Typing

namespace Scriptor.Typed

namespace Expr

variable {a : Arena} {e : Expr}

theorem Rule.base_ty_ne (h : e.Rule a) {b : Expr} (hb : e.base? = some b) (value : Literal) :
    b.ty ≠ value.ty := by
  intro hty
  cases e with
  | call callee args ty =>
    cases hb
    obtain ⟨hany, -⟩ | ⟨parameters, hfunction, -⟩ := h
    · rw [hany] at hty
      cases value <;> cases hty
    · rw [hfunction] at hty
      cases value <;> cases hty
  | subscript indexed index ty =>
    cases hb
    obtain ⟨harray | ⟨hany, -⟩, -⟩ := h
    · rw [harray] at hty
      cases value <;> cases hty
    · rw [hany] at hty
      cases value <;> cases hty
  | _ => cases hb

theorem ne_literal_of_ty_ne (h : ∀ value : Literal, e.ty ≠ value.ty) (value : Literal) :
    e ≠ .literal value := by
  rintro rfl
  exact h value rfl

/-- The type of a literal is never forgotten, so nothing else becomes one. -/
theorem simplify_ne_literal (hw : e.WellTyped a) (h : ∀ value : Literal, e.ty ≠ value.ty)
    (value : Literal) : e.simplify ≠ .literal value := by
  intro he
  have hbelow := simplify_ty_below hw
  rw [he] at hbelow
  exact h value (Literal.eq_of_below hbelow)

theorem WellTyped.ready (h : e.WellTyped a) : e.Ready fun id => id.index < a.size := by
  refine h.within fun x hx => ⟨(WellTyped.names hx).self, ?_⟩
  intro b hb
  exact ne_literal_of_ty_ne (hx.self.base_ty_ne hb)

theorem WellTyped.ready_simplify (h : e.WellTyped a) :
    e.simplify.Ready fun id => id.index < a.size := by
  refine every_simplify ?_ (h.within ?_)
  · intro x hid hbase
    constructor
    · intro id h
      cases hid.symm.trans h
    · intro b h
      cases hbase.symm.trans h
  · intro x hx hkept
    cases x with
    | var id ty => exact ⟨(WellTyped.names hx).self, nofun⟩
    | call callee args ty =>
      refine ⟨nofun, ?_⟩
      rintro b ⟨⟩
      exact simplify_ne_literal hx.2.1 (hx.1.base_ty_ne rfl)
    | subscript indexed index ty =>
      refine ⟨nofun, ?_⟩
      rintro b ⟨⟩
      exact simplify_ne_literal hx.2.1 (hx.1.base_ty_ne rfl)
    | _ => simp [entity?, base?] at hkept

end Expr

namespace Stmt

def exprs : Stmt → List Expr
  | .declaration _ value => [value]
  | .assignment target value => [target, value]
  | .rangeFor init update test _ => init.exprs ++ update.exprs ++ [test]
  | .collectionFor _ collection _ => [collection]
  | .ret value => value.toList
  | .call callee args => callee :: args
  | .print args => args
  | .method object _ args => object :: args
  | .function _ _ _ | .brk => []

/-- What a call or a method is applied to, and its arguments, as one expression. -/
def application? : Stmt → Option Expr
  | .call callee args => some (.call callee args .void)
  | .method object _ args => some (.call object args .void)
  | _ => none

mutual

/-- Whether the statement and every statement of the blocks within it satisfy `P`. -/
def Each (P : Stmt → Prop) : Stmt → Prop
  | .function id parameters body => P (.function id parameters body) ∧ EachOf P body
  | .rangeFor init update test body => P (.rangeFor init update test body) ∧ EachOf P body
  | .collectionFor id collection body => P (.collectionFor id collection body) ∧ EachOf P body
  | s => P s

def EachOf (P : Stmt → Prop) : List Stmt → Prop
  | [] => True
  | s :: ss => s.Each P ∧ EachOf P ss

end

section Each

variable {P Q : Stmt → Prop}

theorem Each.of_remains? {s t : Stmt} (h : s.remains? = some t) (ht : P t) : t.Each P := by
  cases s with
  | assignment target value =>
    cases h
    exact ht
  | _ => cases h

mutual

theorem Each.imp (hPQ : ∀ s, P s → Q s) : (s : Stmt) → s.Each P → s.Each Q
  | .function _ _ body, ⟨hs, hb⟩ => ⟨hPQ _ hs, EachOf.imp hPQ body hb⟩
  | .rangeFor _ _ _ body, ⟨hs, hb⟩ => ⟨hPQ _ hs, EachOf.imp hPQ body hb⟩
  | .collectionFor _ _ body, ⟨hs, hb⟩ => ⟨hPQ _ hs, EachOf.imp hPQ body hb⟩
  | .declaration _ _, h | .assignment _ _, h | .ret _, h | .brk, h | .call _ _, h | .print _, h
  | .method _ _ _, h =>
    hPQ _ h

theorem EachOf.imp (hPQ : ∀ s, P s → Q s) : (ss : List Stmt) → EachOf P ss → EachOf Q ss
  | [], _ => trivial
  | s :: ss, ⟨hs, hss⟩ => ⟨Each.imp hPQ s hs, EachOf.imp hPQ ss hss⟩

end

mutual

theorem Each.simplify? (hPQ : ∀ s t, P s → s.simplify? = some t → Q t) :
    (s : Stmt) → {t : Stmt} → s.Each P → s.simplify? = some t → t.Each Q
  | .function _ _ body, _, ⟨hs, hb⟩, ht => by
    have hq := hPQ _ _ hs ht
    cases ht
    exact ⟨hq, eachOf_simplifyAll hPQ body hb⟩
  | .rangeFor _ _ _ body, _, ⟨hs, hb⟩, ht => by
    have hq := hPQ _ _ hs ht
    rw [Stmt.simplify?] at ht
    split at ht
    next => exact Each.of_remains? ht hq
    next =>
      cases ht
      exact ⟨hq, eachOf_simplifyAll hPQ body hb⟩
  | .collectionFor _ _ body, _, ⟨hs, hb⟩, ht => by
    have hq := hPQ _ _ hs ht
    cases ht
    exact ⟨hq, eachOf_simplifyAll hPQ body hb⟩
  | .assignment _ _, _, h, ht => by
    have hq := hPQ _ _ h ht
    rw [Stmt.simplify?, Option.ite_none_left_eq_some] at ht
    cases ht.2
    exact hq
  | .declaration _ _, _, h, ht | .ret _, _, h, ht | .brk, _, h, ht | .call _ _, _, h, ht
  | .print _, _, h, ht
  | .method _ _ _, _, h, ht => by
    have hq := hPQ _ _ h ht
    cases ht
    exact hq

theorem eachOf_simplifyAll (hPQ : ∀ s t, P s → s.simplify? = some t → Q t) :
    (ss : List Stmt) → EachOf P ss → EachOf Q (simplifyAll ss)
  | [], _ => trivial
  | s :: ss, ⟨hs, hss⟩ => by
    rw [simplifyAll]
    split
    next t ht => exact ⟨Each.simplify? hPQ s hs ht, eachOf_simplifyAll hPQ ss hss⟩
    next => exact eachOf_simplifyAll hPQ ss hss

end

end Each

mutual

theorem WellTyped.each {a : Arena} :
    (s : Stmt) → {result : Option Ty} → s.WellTyped a result →
    s.Each fun s => ∃ result, s.WellTyped a result
  | .function _ _ body, _, h =>
    ⟨⟨_, h⟩, have ⟨_, _, _, _, _, hb⟩ := h; wellTypedAll_each body hb⟩
  | .rangeFor _ _ _ body, _, h => ⟨⟨_, h⟩, wellTypedAll_each body h.2.2.2.2.2.2⟩
  | .collectionFor _ _ body, _, h => ⟨⟨_, h⟩, wellTypedAll_each body h.2.2⟩
  | .declaration _ _, _, h | .assignment _ _, _, h | .ret _, _, h | .brk, _, h | .call _ _, _, h
  | .print _, _, h
  | .method _ _ _, _, h => ⟨_, h⟩

theorem wellTypedAll_each {a : Arena} :
    (ss : List Stmt) → {result : Option Ty} → WellTypedAll a result ss →
    EachOf (fun s => ∃ result, s.WellTyped a result) ss
  | [], _, _ => trivial
  | s :: ss, _, ⟨hs, hss⟩ => ⟨WellTyped.each s hs, wellTypedAll_each ss hss⟩

end

/-- What a writer relies on to write the expressions and calls of a statement. -/
structure Ready (a : Arena) (s : Stmt) : Prop where
  exprs : ∀ e ∈ s.exprs, e.Ready fun id => id.index < a.size
  application : ∀ x, s.application? = some x → x.Ready fun id => id.index < a.size
  arity : ∀ object m args, s = .method object m args → args.length = m.arity

theorem WellTyped.exprs {a : Arena} :
    (s : Stmt) → {result : Option Ty} → s.WellTyped a result →
    ∀ e ∈ s.exprs, e.WellTyped a
  | .declaration _ _, _, h => List.forall_mem_singleton.2 h.1
  | .assignment _ _, _, h => List.forall_mem_cons.2 ⟨h.1, List.forall_mem_singleton.2 h.2.1⟩
  | .rangeFor init update _ _, _, ⟨hi, _, hu, _, ht, _⟩ => by
    rw [Stmt.exprs, List.forall_mem_append, List.forall_mem_append]
    exact ⟨⟨WellTyped.exprs init hi, WellTyped.exprs update hu⟩,
      List.forall_mem_singleton.2 ht⟩
  | .collectionFor _ _ _, _, h => List.forall_mem_singleton.2 h.1
  | .ret _, _, h => fun e he => h.1 e (Option.mem_toList.1 he)
  | .call _ _, _, h => List.forall_mem_cons.2 ⟨h.1, h.2.1⟩
  | .print _, _, h => h
  | .method _ _ _, _, h => List.forall_mem_cons.2 ⟨h.1, h.2.1⟩
  | .function _ _ _, _, _ | .brk, _, _ => List.forall_mem_nil _

variable {a : Arena} {s t : Stmt} {result : Option Ty}

theorem exprs_simplifyHeader (h : s.IsStart) :
    s.simplifyHeader.exprs = s.exprs.map Expr.simplify := by
  cases s with
  | declaration | assignment => rfl
  | _ => exact h.elim

theorem WellTyped.exprs_simplify? (h : s.WellTyped a result) (ht : s.simplify? = some t) :
    t.exprs ⊆ s.exprs.map Expr.simplify := by
  cases s with
  | assignment target value =>
    rw [Stmt.simplify?, Option.ite_none_left_eq_some] at ht
    cases ht.2
    exact fun _ he => he
  | rangeFor init update test body =>
    obtain ⟨-, hi, -, hu, -⟩ := h
    rw [Stmt.simplify?] at ht
    rw [Stmt.exprs, List.map_append, List.map_append, ← exprs_simplifyHeader hi.isStart,
      ← exprs_simplifyHeader hu.isStep.isStart]
    split at ht
    next =>
      cases remains?_eq_some ht
      exact fun _ he => List.mem_append_left _ (List.mem_append_left _ he)
    next =>
      cases ht
      exact fun _ he => he
  | ret value =>
    cases ht
    cases value <;> exact fun _ he => he
  | call | print | method =>
    cases ht
    simp [Stmt.exprs, Expr.simplifyAll_eq_map]
  | _ =>
    cases ht
    exact fun _ he => he

theorem ready_application {base : Expr} {args : List Expr} (hb : base.WellTyped a)
    (hty : ∀ value : Literal, base.ty ≠ value.ty) (has : ∀ e ∈ args, e.WellTyped a) :
    ((Expr.call base args .void).Ready fun id => id.index < a.size) ∧
      (Expr.call base args .void).simplify.Ready fun id => id.index < a.size := by
  constructor
  · refine ⟨⟨nofun, ?_⟩, hb.ready, Expr.everyOf_iff.2 fun e he => (has e he).ready⟩
    rintro b ⟨⟩
    exact Expr.ne_literal_of_ty_ne hty
  · refine ⟨⟨nofun, ?_⟩, hb.ready_simplify, ?_⟩
    · rintro b ⟨⟩
      exact Expr.simplify_ne_literal hb hty
    · rw [Expr.simplifyAll_eq_map, Expr.everyOf_iff, List.forall_mem_map]
      exact fun e he => (has e he).ready_simplify

theorem WellTyped.application (h : s.WellTyped a result) {x : Expr} (hx : s.application? = some x) :
    (x.Ready fun id => id.index < a.size) ∧ x.simplify.Ready fun id => id.index < a.size := by
  cases s with
  | call callee args =>
    cases hx
    obtain ⟨hf, has, ty, happlies⟩ := h
    have hrule : (Expr.call callee args ty).Rule a := happlies
    exact ready_application hf (hrule.base_ty_ne rfl) has
  | method object m args =>
    cases hx
    obtain ⟨ho, has, parameters, htakes, -⟩ := h
    refine ready_application ho ?_ has
    intro value hty
    rw [hty] at htakes
    cases value <;> cases htakes
  | _ => cases hx

theorem application?_of_remains? (h : s.remains? = some t) : t.application? = none := by
  cases s with
  | assignment target value =>
    cases h
    rfl
  | _ => cases h

theorem application?_simplify? (h : s.simplify? = some t) :
    t.application? = s.application?.map Expr.simplify := by
  cases s with
  | assignment target value =>
    rw [Stmt.simplify?, Option.ite_none_left_eq_some] at h
    cases h.2
    rfl
  | rangeFor init update test body =>
    rw [Stmt.simplify?] at h
    split at h
    next => exact application?_of_remains? h
    next =>
      cases h
      rfl
  | _ =>
    cases h
    rfl

theorem WellTyped.ready (h : s.WellTyped a result) : s.Ready a where
  exprs e he := (WellTyped.exprs s h e he).ready
  application _ hx := (h.application hx).1
  arity object m args hs := by
    subst hs
    exact (WellTyped.wellFormed _ h).2.2

theorem WellTyped.ready_simplify? (h : s.WellTyped a result) (ht : s.simplify? = some t) :
    t.Ready a where
  exprs e he := by
    obtain ⟨e, hmem, rfl⟩ := List.mem_map.1 (h.exprs_simplify? ht he)
    exact (WellTyped.exprs s h e hmem).ready_simplify
  application x hx := by
    rw [application?_simplify? ht] at hx
    obtain ⟨x, hmem, rfl⟩ := Option.map_eq_some_iff.1 hx
    exact (h.application hmem).2
  arity object m args hs := by
    subst hs
    exact (WellFormed.simplify? s (WellTyped.wellFormed _ h) ht).2.2

end Stmt
end Scriptor.Typed

namespace Scriptor

namespace Script

open Form

variable {a : Arena}

/-- The expression can be written, and what is written is read with the structure of the expression
exactly if nothing within it is applied to a prefix expression. -/
def Grouped (a : Arena) (e : Typed.Expr) : Prop :=
  ∀ (w : Writer) (named : List EntityId), w.entities = a → w.Names named →
    ∃ text more w', (expr e).run w = .ok (text, w') ∧
      w'.Names (named ++ more) ∧ w.Alike w' ∧
      ((read? text).map bare = some (shape (nameForm (spelled a (named ++ more))) e) ↔ e.Plain)

/-- The statement is written on one line, and what stands on it is read with the structure `form`
exactly if nothing is applied to a prefix expression. -/
def GroupedLine (a : Arena) (s : Typed.Stmt) (form : (EntityId → Form) → Form) (plain : Prop) :
    Prop :=
  ∀ (w : Writer) (named : List EntityId), w.entities = a → w.Names named →
    ∃ text more w', (stmt s).run w = .ok ((), w') ∧ w'.Names (named ++ more) ∧
      w'.lines = w.lines.push (indented w.indent (text ++ ";")) ∧
      ((read? text).map bare = some (form (nameForm (spelled a (named ++ more)))) ↔ plain)

def GroupedCall (a : Arena) : Typed.Stmt → Prop
  | .call callee args =>
    GroupedLine a (.call callee args) (fun name => shape name (.call callee args .void))
      (Typed.Expr.call callee args .void).Plain
  | .method object m args =>
    GroupedLine a (.method object m args)
      (fun name => applied m (shapes name args) (shape name object))
      (Typed.Expr.call object args .void).Plain
  | _ => True

theorem isName_of_ready (hw : a.Worded) {e : Typed.Expr} (h : e.Ready fun id => id.index < a.size)
    (named : List EntityId) : e.Ready fun id => (nameForm (spelled a named) id).IsName :=
  Typed.Expr.Every.imp h fun _ hx =>
    ⟨fun id hid => (nameForm_isName hw (hx.1 id hid) named).1, hx.2⟩

theorem names_of_ready {q : EntityId → Prop} {e : Typed.Expr} (h : e.Ready q) : e.Names q :=
  Typed.Expr.Every.imp h fun _ hx => hx.1

theorem grouped_of_ready (hw : a.Worded) {e : Typed.Expr}
    (h : e.Ready fun id => id.index < a.size) : e.Every (Grouped a) := by
  refine Typed.Expr.Every.within h fun x (hx : x.Ready _) => ?_
  intro w named hwriter hnames
  obtain ⟨more, w', hrun, h', hlike, -⟩ :=
    expr_writes hw (names_of_ready hx) w named hwriter hnames
  exact ⟨_, more, w', hrun, h', hlike, read?_written_iff (isName_of_ready hw hx _)⟩

theorem Writes.groupedLine {action : Write String} {value : (EntityId → String) → String}
    (h : Writes a action value) {s : Typed.Stmt} (hs : stmt s = action >>= fun t => emit (t ++ ";"))
    {form : (EntityId → Form) → Form} {plain : Prop}
    (hread : ∀ named, (read? (value (spelled a named))).map bare =
      some (form (nameForm (spelled a named))) ↔ plain) :
    GroupedLine a s form plain := by
  intro w named hwriter hnames
  obtain ⟨more, w', hrun, h', hlike, -⟩ := h w named hwriter hnames
  refine ⟨_, more,
    { w' with lines :=
      w'.lines.push (indented w'.indent (value (spelled a (named ++ more)) ++ ";")) }, ?_,
        ⟨h'.names_eq, h'.count_eq, h'.nodup, h'.own⟩, ?_, hread _⟩
  · rw [hs, StateT.run_bind, hrun]
    rfl
  · rw [hlike.lines_eq, hlike.indent_eq]

theorem groupedCall_of_ready (hw : a.Worded) {s : Typed.Stmt} (h : s.Ready a) :
    GroupedCall a s := by
  cases s with
  | call callee args =>
    have hx := h.application _ rfl
    rw [GroupedCall]
    apply (expr_writes hw (names_of_ready hx)).groupedLine (stmt_call callee args)
    intro named
    exact read?_written_iff (isName_of_ready hw hx named)
  | method object m args =>
    have hx := h.application _ rfl
    obtain ⟨ho, has⟩ := Typed.Expr.names_call.1 (names_of_ready hx)
    rw [GroupedCall]
    apply (methodExpr_writes hw ho has (h.arity _ _ _ rfl)).groupedLine (stmt_method object m args)
    intro named
    exact read?_method_iff (isName_of_ready hw hx named)
  | _ => exact trivial

end Script

section Programs

variable {source file : String} {t p : Typed.Program}

theorem analyze_generation (h : analyze source file = .ok t) :
    ∃ program : Program, program.Spelled ∧ program.check = .ok t := by
  obtain ⟨tokens, htokens, h⟩ := bind_eq_ok_iff.1 h
  obtain ⟨program, hprogram, hcheck⟩ := bind_eq_ok_iff.1 h
  exact ⟨program, spelled_of_parse htokens hprogram, hcheck⟩

theorem worded_of_analyze (h : analyze source file = .ok t) : t.entities.Worded := by
  obtain ⟨program, hspelled, hcheck⟩ := analyze_generation h
  have hout := hspelled.checks
  rwa [hcheck] at hout

theorem wellTyped_of_analyze (h : analyze source file = .ok t) : t.WellTyped := by
  obtain ⟨program, -, hcheck⟩ := analyze_generation h
  obtain ⟨env, hss, henv⟩ := Program.check_generation hcheck
  rw [Typed.Program.WellTyped, henv]
  exact checkBlock_wellTyped _ Env.initial_closed hss (.refl _)

theorem ready_of_analyze (h : analyze source file = .ok t) (simplify : Bool) :
    Typed.Stmt.EachOf (Typed.Stmt.Ready t.entities) (t.simplifyIf simplify).statements := by
  have heach := Typed.Stmt.wellTypedAll_each t.statements (wellTyped_of_analyze h)
  cases simplify with
  | false =>
    refine Typed.Stmt.EachOf.imp ?_ t.statements heach
    rintro s ⟨result, hs⟩
    exact hs.ready
  | true =>
    refine Typed.Stmt.eachOf_simplifyAll ?_ t.statements heach
    rintro s s' ⟨result, hs⟩ ht
    exact hs.ready_simplify? ht

/-- Whether the program is simplified or not, each of its expressions, calls and methods can be
written. It is read with the structure it has in the program exactly if no prefix expression within
it is called, subscripted or asked for a member. -/
theorem analyze_grouped (h : analyze source file = .ok t) (simplify : Bool) :
    Typed.Stmt.EachOf (fun s => (∀ e ∈ s.exprs, e.Every (Script.Grouped t.entities)) ∧
      Script.GroupedCall t.entities s) (t.simplifyIf simplify).statements := by
  have hw := worded_of_analyze h
  refine Typed.Stmt.EachOf.imp ?_ _ (ready_of_analyze h simplify)
  intro s hs
  exact ⟨fun e he => Script.grouped_of_ready hw (hs.exprs e he),
    Script.groupedCall_of_ready hw hs⟩

theorem analyze_grouped_signs :
    ∃ t, analyze "a = []\na.add((-a[0]) ** 2)\ny = (-a[0])[1]" "" = .ok t ∧
      Typed.Stmt.EachOf (fun s => (∀ e ∈ s.exprs, e.Every (Script.Grouped t.entities)) ∧
        Script.GroupedCall t.entities s) (t.simplifyIf true).statements := by
  have haccepted : (analyze "a = []\na.add((-a[0]) ** 2)\ny = (-a[0])[1]" "").toOption.isSome =
      true := by
    decide +kernel
  cases h : analyze "a = []\na.add((-a[0]) ** 2)\ny = (-a[0])[1]" "" with
  | error e =>
    rw [h] at haccepted
    cases haccepted
  | ok t => exact ⟨t, rfl, analyze_grouped h true⟩

/-- A subscript of a negation is written as the negation of a subscript. -/
theorem subscript_of_sign_read :
    ∃ t, analyze "a = []\ny = (-a[0])[0]" "" = .ok t ∧
      (∃ s ∈ t.statements, ∃ e ∈ s.exprs, e.base?.any Typed.Expr.isSigned = true) ∧
      t.script = .ok "let a_1 = [];\nlet y_2 = -(a_1[0])[0];" ∧
      (Script.Form.read? "-(a_1[0])[0]").any Script.Form.isUnary = true := by
  have hread : (Script.Form.read? "-(a_1[0])[0]").any Script.Form.isUnary = true := by
    decide +kernel
  have hprogram : (analyze "a = []\ny = (-a[0])[0]" "").toOption.any (fun t =>
      (t.statements.any fun s => s.exprs.any fun e => e.base?.any Typed.Expr.isSigned) &&
        t.script = .ok "let a_1 = [];\nlet y_2 = -(a_1[0])[0];") = true := by
    decide +kernel
  cases h : analyze "a = []\ny = (-a[0])[0]" "" with
  | error e =>
    rw [h] at hprogram
    cases hprogram
  | ok t =>
    rw [h, Except.toOption, Option.any_some, Bool.and_eq_true, List.any_eq_true] at hprogram
    obtain ⟨⟨s, hs, hsigned⟩, hscript⟩ := hprogram
    exact ⟨t, rfl, ⟨s, hs, List.any_eq_true.1 hsigned⟩, of_decide_eq_true hscript, hread⟩

end Programs

end Scriptor
