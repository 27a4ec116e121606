import Mathlib.Logic.Function.Basic
import Scriptor.Proofs.Evaluation
import Scriptor.Proofs.Scoping

namespace Scriptor.Typed

def Stmt.store? (σ : Store) : Stmt → Option Store
  | .declaration id value | .assignment (.var id _) value =>
    (value.eval σ).map fun v => Function.update σ id (some v)
  | _ => none

/-- What is run: a statement, a block, or a loop whose header is done. -/
inductive Code where
  | stmt (s : Stmt)
  | block (ss : List Stmt)
  | loop (update : Stmt) (test : Expr) (body : List Stmt)

inductive Ending where
  | next
  /-- The innermost loop is left. -/
  | brk

/-- Whether the code runs from the first store to the second one and prints the given lines. -/
inductive Runs : Code → Store → List (List Value) → Ending → Store → Prop where
  | assign {s : Stmt} {σ σ' : Store} : s.store? σ = some σ' → Runs (.stmt s) σ [] .next σ'
  | print {args : List Expr} {σ : Store} {line : List Value} :
      Expr.evalAll σ args = some line → Runs (.stmt (.print args)) σ [line] .next σ
  | brk {σ : Store} : Runs (.stmt .brk) σ [] .brk σ
  | rangeFor {init update : Stmt} {test : Expr} {body : List Stmt} {σ σ₁ σ₂ : Store}
      {out : List (List Value)} :
      init.store? σ = some σ₁ → Runs (.loop update test body) σ₁ out .next σ₂ →
      Runs (.stmt (.rangeFor init update test body)) σ out .next σ₂
  | nil {σ : Store} : Runs (.block []) σ [] .next σ
  | cons {s : Stmt} {ss : List Stmt} {σ σ₁ σ₂ : Store} {out out' : List (List Value)}
      {ending : Ending} :
      Runs (.stmt s) σ out .next σ₁ → Runs (.block ss) σ₁ out' ending σ₂ →
      Runs (.block (s :: ss)) σ (out ++ out') ending σ₂
  | leave {s : Stmt} {ss : List Stmt} {σ σ₁ : Store} {out : List (List Value)} :
      Runs (.stmt s) σ out .brk σ₁ → Runs (.block (s :: ss)) σ out .brk σ₁
  | stop {update : Stmt} {test : Expr} {body : List Stmt} {σ : Store} :
      test.eval σ = some (.bool false) → Runs (.loop update test body) σ [] .next σ
  | again {update : Stmt} {test : Expr} {body : List Stmt} {σ σ₁ σ₂ σ₃ : Store}
      {out out' : List (List Value)} :
      test.eval σ = some (.bool true) → Runs (.block body) σ out .next σ₁ →
      update.store? σ₁ = some σ₂ →
      Runs (.loop update test body) σ₂ out' .next σ₃ →
      Runs (.loop update test body) σ (out ++ out') .next σ₃
  | quit {update : Stmt} {test : Expr} {body : List Stmt} {σ σ₁ : Store}
      {out : List (List Value)} :
      test.eval σ = some (.bool true) → Runs (.block body) σ out .brk σ₁ →
      Runs (.loop update test body) σ out .next σ₁

/-- Whether the program runs to its end and prints the given lines. -/
def Program.Prints (p : Program) (out : List (List Value)) : Prop :=
  ∃ σ, Runs (.block p.statements) (fun _ => none) out .next σ

section Blocks

variable {as bs : List Stmt} {s : Stmt} {σ σ₁ σ₂ : Store} {out out' : List (List Value)}
  {ending : Ending}

theorem Runs.single (h : Runs (.stmt s) σ out .next σ₁) :
    Runs (.block [s]) σ out .next σ₁ := by
  have hrun := Runs.cons h .nil
  rwa [List.append_nil] at hrun

theorem Runs.append (ha : Runs (.block as) σ out .next σ₁)
    (hb : Runs (.block bs) σ₁ out' ending σ₂) :
    Runs (.block (as ++ bs)) σ (out ++ out') ending σ₂ := by
  induction as generalizing σ out with
  | nil =>
    cases ha
    exact hb
  | cons s as ih =>
    cases ha with
    | cons hs has =>
      rw [List.append_assoc]
      exact .cons hs (ih has)

theorem Runs.append_left (ha : Runs (.block as) σ out .brk σ₁) (bs : List Stmt) :
    Runs (.block (as ++ bs)) σ out .brk σ₁ := by
  induction as generalizing σ out with
  | nil => cases ha
  | cons s as ih =>
    cases ha with
    | cons hs has => exact .cons hs (ih has)
    | leave hs => exact .leave hs

end Blocks

def Agree (visible : List EntityId) (σ τ : Store) : Prop :=
  ∀ id ∈ visible, σ id = τ id

section Agreement

variable {visible : List EntityId} {σ τ : Store} {id : EntityId}

theorem Agree.update (h : Agree visible σ τ) (id : EntityId) (v : Option Value) :
    Agree (id :: visible) (Function.update σ id v) (Function.update τ id v) := by
  intro x hx
  by_cases hxid : x = id
  · rw [hxid, Function.update_self, Function.update_self]
  · rw [Function.update_of_ne hxid, Function.update_of_ne hxid]
    exact h x (List.mem_of_ne_of_mem hxid hx)

theorem Agree.mono {others : List EntityId} (h : Agree (others ++ visible) σ τ) :
    Agree visible σ τ := by
  intro x hx
  exact h x (List.mem_append_right _ hx)

theorem Agree.eval {e : Expr} {v : Value} (h : Agree visible σ τ) (hn : e.Names (· ∈ visible))
    (hv : e.eval σ = some v) : e.simplify.eval τ = some v := by
  apply Expr.eval_simplify
  rwa [← Expr.Names.eval_eq (hn.imp fun x hx id hid => h id (hx id hid))]

theorem Agree.evalAll {es : List Expr} {vs : List Value} (h : Agree visible σ τ)
    (hn : ∀ e ∈ es, e.Names (· ∈ visible)) (hvs : Expr.evalAll σ es = some vs) :
    Expr.evalAll τ (Expr.simplifyAll es) = some vs := by
  rw [Expr.evalAll_eq_some_iff] at hvs
  rw [Expr.simplifyAll_eq_map, Expr.evalAll_eq_some_iff, List.forall₂_map_left_iff]
  exact forall₂_imp_of_mem hvs fun e he _ => h.eval (hn e he)

end Agreement

section Header

variable {a : Arena} {visible : List EntityId} {σ σ' τ τ' : Store} {s : Stmt}

theorem Expr.entity?_eq_some {e : Expr} {id : EntityId} (h : e.entity? = some id) :
    ∃ ty, e = .var id ty := by
  cases e with
  | var id ty =>
    cases h
    exact ⟨ty, rfl⟩
  | _ => cases h

theorem Agree.store? (hag : Agree visible σ τ) (hs : s.Scoped a visible)
    (h : s.store? σ = some σ') :
    ∃ τ', s.simplifyHeader.store? τ = some τ' ∧ Agree (s.binds ++ visible) σ' τ' := by
  cases s with
  | declaration id value =>
    obtain ⟨v, hv, rfl⟩ := Option.map_eq_some_iff.1 h
    refine ⟨Function.update τ id (some v), ?_, hag.update id (some v)⟩
    rw [Stmt.simplifyHeader, Stmt.store?, hag.eval hs hv, Option.map_some]
  | assignment target value =>
    cases target with
    | var id ty =>
      obtain ⟨v, hv, rfl⟩ := Option.map_eq_some_iff.1 h
      refine ⟨Function.update τ id (some v), ?_, fun x hx =>
        hag.update id (some v) x (List.mem_cons_of_mem id hx)⟩
      rw [Stmt.simplifyHeader, Expr.simplify, Stmt.store?, hag.eval hs.2 hv, Option.map_some]
    | _ => cases h
  | _ => cases h

theorem Stmt.store?_of_isSelfAssignment (hself : s.isSelfAssignment = true)
    (h : s.store? τ = some τ') : τ' = τ := by
  cases s with
  | assignment target value =>
    rw [isSelfAssignment, Bool.and_eq_true, decide_eq_true_iff, Option.isSome_iff_exists] at hself
    obtain ⟨⟨id, hid⟩, hsame⟩ := hself
    obtain ⟨ty, rfl⟩ := Expr.entity?_eq_some hid
    obtain ⟨ty', rfl⟩ := Expr.entity?_eq_some (hsame.symm.trans hid)
    obtain ⟨v, hv, rfl⟩ := Option.map_eq_some_iff.1 h
    have hv : τ id = some v := hv
    rw [← hv, Function.update_eq_self]
  | _ => cases hself

theorem Stmt.store?_of_start? {id : EntityId} {n : Int} (hstart : s.start? = some (id, n))
    (h : s.store? τ = some τ') : τ' id = some (.int n) := by
  revert hstart
  fun_cases start? s with
  | case1 id n =>
    rintro ⟨⟩
    cases h
    exact Function.update_self ..
  | case2 target n =>
    intro hstart
    obtain ⟨id, hid, ⟨⟩⟩ := Option.map_eq_some_iff.1 hstart
    obtain ⟨ty, rfl⟩ := Expr.entity?_eq_some hid
    cases h
    exact Function.update_self ..
  | case3 =>
    intro hstart
    cases hstart

theorem Expr.eval_of_failsAt {id : EntityId} {n : Int} {test : Expr} {v : Value}
    (hf : test.failsAt id n = true)
    (hn : τ id = some (.int n)) (hv : test.eval τ = some v) : v = .bool false := by
  revert hf
  fun_cases failsAt id n test with
  | case1 left op bound ty =>
    intro hf
    rw [Bool.and_eq_true, decide_eq_true_iff] at hf
    obtain ⟨ty', rfl⟩ := entity?_eq_some hf.1
    simp only [eval, hn] at hv
    cases op with
    | less =>
      have hle := of_decide_eq_true hf.2
      cases hv
      rw [decide_eq_false (Int.not_lt.2 hle)]
    | lessEquals =>
      have hlt := of_decide_eq_true hf.2
      cases hv
      rw [decide_eq_false (Int.not_le.2 hlt)]
    | _ => cases hf.2
  | case2 =>
    intro hf
    cases hf

/-- The test of a dead loop yields nothing but false. -/
theorem Stmt.eval_of_isDead {test : Expr} {v : Value} (hd : s.isDead test = true)
    (h : s.store? τ = some τ') (hv : test.eval τ' = some v) : v = .bool false := by
  rw [isDead, Bool.or_eq_true] at hd
  rcases hd with hfalse | hd
  · rw [Expr.eval_of_isBool hfalse] at hv
    exact (Option.some.inj hv).symm
  · split at hd
    next id n hstart => exact Expr.eval_of_failsAt hd (store?_of_start? hstart h) hv
    next => cases hd

end Header

/-- Whether entities are declared once and are not visible before. -/
def Fresh (visible declared : List EntityId) : Prop :=
  declared.Nodup ∧ declared.Disjoint visible

theorem Fresh.append {visible xs ys bound : List EntityId} (h : Fresh visible (xs ++ ys))
    (hb : bound ⊆ xs) : Fresh visible xs ∧ Fresh (bound ++ visible) ys := by
  obtain ⟨hnodup, hdisjoint⟩ := h
  have hparts := List.nodup_append.1 hnodup
  rw [List.disjoint_append_left] at hdisjoint
  refine ⟨⟨hparts.1, hdisjoint.1⟩, hparts.2.1, ?_⟩
  rw [List.disjoint_append_right]
  refine ⟨?_, hdisjoint.2⟩
  intro id hy hbound
  exact hparts.2.2 id (hb hbound) id hy rfl

namespace Code

def simplify : Code → Code
  | .stmt s => .block s.simplify?.toList
  | .block ss => .block (Stmt.simplifyAll ss)
  | .loop update test body => .loop update.simplifyHeader test.simplify (Stmt.simplifyAll body)

def binds : Code → List EntityId
  | .stmt s => s.binds
  | _ => []

def Placed (a : Arena) (visible : List EntityId) : Code → Prop
  | .stmt s => s.Scoped a visible ∧ Fresh visible s.declared
  | .block ss => Stmt.ScopedAll a visible ss ∧ Fresh visible (Stmt.declaredAll ss)
  | .loop update test body =>
    update.Scoped a visible ∧ test.Names (· ∈ visible) ∧ Stmt.ScopedAll a visible body ∧
      Fresh visible (Stmt.declaredAll body)

end Code

theorem Stmt.simplifyAll_cons (s : Stmt) (ss : List Stmt) :
    simplifyAll (s :: ss) = s.simplify?.toList ++ simplifyAll ss := by
  rw [simplifyAll]
  cases s.simplify? <;> rfl

theorem Stmt.binds_subset_declared (s : Stmt) : s.binds ⊆ s.declared := by
  cases s with
  | declaration id value => exact List.Subset.refl _
  | function id parameters body => exact List.cons_subset_cons _ (List.nil_subset _)
  | _ => exact List.nil_subset _

section Simulation

variable {a : Arena} {visible : List EntityId} {σ σ' τ : Store} {c : Code}
  {out : List (List Value)} {ending : Ending}

theorem Runs.simplify_dead {init update : Stmt} {test : Expr} {body : List Stmt} {σ₁ : Store}
    (hplaced : (Code.stmt (.rangeFor init update test body)).Placed a visible)
    (hag : Agree visible σ τ)
    (hi : init.store? σ = some σ₁) (hloop : Runs (.loop update test body) σ₁ out .next σ')
    (hd : init.simplifyHeader.isDead test.simplify = true) :
    ∃ τ', Runs (.block init.simplifyHeader.remains?.toList) τ out .next τ' ∧
      Agree visible σ' τ' := by
  obtain ⟨⟨hinit, -, htest, -⟩, -, hdisjoint⟩ := hplaced
  obtain ⟨τ₁, hτ, hag₁⟩ := hag.store? hinit hi
  have hfalse {v : Value} (hv : test.eval σ₁ = some v) : v = .bool false :=
    Stmt.eval_of_isDead hd hτ (hag₁.eval htest hv)
  cases hloop with
  | again hv => cases hfalse hv
  | quit hv => cases hfalse hv
  | stop =>
    cases init with
    | assignment target value => exact ⟨τ₁, .single (.assign hτ), hag₁⟩
    | declaration id value =>
      -- the variable is not visible outside of the loop
      refine ⟨τ, .nil, ?_⟩
      obtain ⟨v, -, rfl⟩ := Option.map_eq_some_iff.1 hi
      intro x hx
      rw [Function.update_of_ne, hag x hx]
      rintro rfl
      exact hdisjoint List.mem_cons_self hx
    | _ => cases hi

/-- Simplified code runs from a store that agrees on the visible variables to one that agrees on
them, and prints the same. -/
theorem Runs.simplify (h : Runs c σ out ending σ') (hplaced : c.Placed a visible)
    (hag : Agree visible σ τ) :
    ∃ τ', Runs c.simplify τ out ending τ' ∧ Agree (c.binds ++ visible) σ' τ' := by
  induction h generalizing visible τ with
  | @assign s σ σ' hs =>
    obtain ⟨τ', hτ, hag'⟩ := hag.store? hplaced.1 hs
    cases s with
    | declaration id value => exact ⟨τ', .single (.assign hτ), hag'⟩
    | assignment target value =>
      rw [Code.simplify, Stmt.simplify?]
      split
      next hself =>
        cases Stmt.store?_of_isSelfAssignment hself hτ
        exact ⟨τ, .nil, hag'⟩
      next => exact ⟨τ', .single (.assign hτ), hag'⟩
    | _ => cases hs
  | print hline => exact ⟨τ, .single (.print (hag.evalAll hplaced.1 hline)), hag⟩
  | brk => exact ⟨τ, .leave .brk, hag⟩
  | @rangeFor init update test body σ σ₁ σ₂ out hi hloop ih =>
    rw [Code.simplify, Stmt.simplify?]
    by_cases hd : init.simplifyHeader.isDead test.simplify = true
    · rw [if_pos hd]
      exact simplify_dead hplaced hag hi hloop hd
    · rw [if_neg hd]
      obtain ⟨⟨hinit, hupdate, htest, hbody⟩, hfresh⟩ := hplaced
      obtain ⟨τ₁, hτ, hag₁⟩ := hag.store? hinit hi
      have hinner := (hfresh.append init.binds_subset_declared).2
      have hinner := (hinner.append (List.nil_subset _)).2
      obtain ⟨τ₂, hrun, hag₂⟩ := ih ⟨hupdate, htest, hbody, hinner⟩ hag₁
      exact ⟨τ₂, .single (.rangeFor hτ hrun), hag₂.mono.mono⟩
  | nil => exact ⟨τ, .nil, hag⟩
  | @cons s ss σ σ₁ σ₂ out out' ending hs hss ihs ihss =>
    obtain ⟨⟨-, hscoped, hrest⟩, hfresh⟩ := hplaced
    have hfresh := hfresh.append s.binds_subset_declared
    obtain ⟨τ₁, hrun, hag₁⟩ := ihs ⟨hscoped, hfresh.1⟩ hag
    obtain ⟨τ₂, hruns, hag₂⟩ := ihss ⟨hrest, hfresh.2⟩ hag₁
    rw [Code.simplify, Stmt.simplifyAll_cons]
    exact ⟨τ₂, hrun.append hruns, hag₂.mono.mono⟩
  | @leave s ss σ σ₁ out hs ih =>
    obtain ⟨⟨-, hscoped, -⟩, hfresh⟩ := hplaced
    have hfresh := hfresh.append s.binds_subset_declared
    obtain ⟨τ₁, hrun, hag₁⟩ := ih ⟨hscoped, hfresh.1⟩ hag
    rw [Code.simplify, Stmt.simplifyAll_cons]
    exact ⟨τ₁, hrun.append_left _, hag₁.mono⟩
  | stop hv => exact ⟨τ, .stop (hag.eval hplaced.2.1 hv), hag⟩
  | again hv hbody hu hloop ihb ihl =>
    obtain ⟨hupdate, htest, hscoped, hfresh⟩ := hplaced
    obtain ⟨τ₁, hrun, hag₁⟩ := ihb ⟨hscoped, hfresh⟩ hag
    obtain ⟨τ₂, hτ, hag₂⟩ := Agree.store? hag₁ hupdate hu
    obtain ⟨τ₃, hruns, hag₃⟩ := ihl ⟨hupdate, htest, hscoped, hfresh⟩ hag₂.mono
    exact ⟨τ₃, .again (hag.eval htest hv) hrun hτ hruns, hag₃⟩
  | quit hv hbody ih =>
    obtain ⟨-, htest, hscoped, hfresh⟩ := hplaced
    obtain ⟨τ₁, hrun, hag₁⟩ := ih ⟨hscoped, hfresh⟩ hag
    exact ⟨τ₁, .quit (hag.eval htest hv) hrun, hag₁⟩

end Simulation

end Scriptor.Typed

namespace Scriptor

variable {p : Program} {t : Typed.Program}

theorem Program.check_placed (h : p.check = .ok t) :
    (Typed.Code.block t.statements).Placed t.entities t.entities.builtins := by
  obtain ⟨env, hss, he⟩ := Program.check_generation h
  have hgrows : Env.initial.entities.Grows t.entities := he ▸ (checkBlock_follows _ hss).grows
  have hlast : env.entities.Grows t.entities := he ▸ .refl _
  have hmakes : Env.initial.entities.Makes t.entities (Typed.Stmt.declaredAll t.statements) :=
    he ▸ checkBlock_makes _ hss
  refine ⟨checkBlock_scoped _ Env.initial_closed (Env.initial_sees hgrows) hss hlast,
    hmakes.nodup, ?_⟩
  intro id hid hbuiltin
  obtain ⟨e, he, hb⟩ := Arena.mem_builtins.1 hbuiltin
  have hcount := hmakes.count_eq (Arena.lt_size_iff.2 ⟨e, he⟩)
  rw [if_pos ((Env.initial_lt_size_iff hgrows he).2 hb)] at hcount
  exact List.count_eq_zero.1 hcount hid

/-- Whatever a checked program prints when it runs to its end, its simplification prints as well. -/
theorem Program.prints_simplify {out : List (List Typed.Value)} (h : p.check = .ok t)
    (hrun : t.Prints out) : t.simplify.Prints out := by
  obtain ⟨σ, hrun⟩ := hrun
  obtain ⟨τ, hrun, -⟩ := hrun.simplify (Program.check_placed h) fun _ _ => rfl
  exact ⟨τ, hrun⟩

def Program.leaving (span : Span) : Program where
  statements :=
    [.assignment ⟨.symbol "x" span, none, .number "3" span, span⟩,
     .rangeFor ⟨.symbol "i" span, none, .number "0" span, span⟩
       ⟨.symbol "i" span, some .add, .number "1" span, span⟩
       [.call (.symbol "print" span) [.binary (.symbol "x" span) .multiply (.number "1" span) span]
         span, .brk span]
       (.boolean true span) span,
     .rangeFor ⟨.symbol "x" span, none, .number "5" span, span⟩
       ⟨.symbol "x" span, some .add, .number "1" span, span⟩
       [] (.binary (.symbol "x" span) .less (.number "5" span) span) span,
     .call (.symbol "print" span) [.symbol "x" span] span]

theorem Program.prints_simplify_leaving :
    ∃ t, (Program.leaving (.empty .nowhere)).check = .ok t ∧ t.Prints [[.int 3], [.int 5]] ∧
      t.simplify.Prints [[.int 3], [.int 5]] := by
  obtain ⟨t, ht, hs⟩ : ∃ t, (Program.leaving (.empty .nowhere)).check = .ok t ∧
      t.statements = [.declaration ⟨11⟩ (.int 3),
       .rangeFor (.declaration ⟨12⟩ (.int 0))
         (.assignment (.var ⟨12⟩ .int) (.binary (.var ⟨12⟩ .int) .add (.int 1) .int))
         (.bool true) [.print [.binary (.var ⟨11⟩ .int) .multiply (.int 1) .int], .brk],
       .rangeFor (.assignment (.var ⟨11⟩ .int) (.int 5))
         (.assignment (.var ⟨11⟩ .int) (.binary (.var ⟨11⟩ .int) .add (.int 1) .int))
         (.binary (.var ⟨11⟩ .int) .less (.int 5) .bool) [],
       .print [.var ⟨11⟩ .int]] := ⟨_, rfl, rfl⟩
  obtain ⟨out, σ, hrun, rfl⟩ : ∃ out σ, Typed.Runs (.block t.statements)
      (fun _ => none) out .next σ ∧ out = [[.int 3], [.int 5]] := by
    rw [hs]
    exact ⟨_, _,
      .cons (.assign rfl) (.cons (.rangeFor rfl (.quit rfl (.cons (.print rfl) (.leave .brk))))
      (.cons (.rangeFor rfl (.stop rfl)) (.cons (.print rfl) .nil))), rfl⟩
  exact ⟨t, ht, ⟨σ, hrun⟩, Program.prints_simplify ht ⟨σ, hrun⟩⟩

end Scriptor
