import Scriptor.Proofs.Growth
import Scriptor.Proofs.Simplification
import Scriptor.Proofs.Trees

namespace Scriptor

namespace Typed.Expr

variable {a b : Arena} {e : Expr}

theorem Applies.grow {args : List Expr} {ty : Ty} (h : e.Applies a args ty) (hab : a.Grows b) :
    e.Applies b args ty := by
  rcases h with h | ⟨parameters, hty, harity, haccepted⟩
  · exact .inl h
  · refine .inr ⟨parameters, hty, fun hv => harity ?_, haccepted⟩
    rintro ⟨id, x, hid, hx, hxv⟩
    exact hv ⟨id, x, hid, hab.get? hx, hxv⟩

theorem Rule.grow (h : e.Rule a) (hab : a.Grows b) : e.Rule b := by
  cases e with
  | var id ty =>
    obtain ⟨x, hx, hty⟩ := h
    exact ⟨x, hab.get? hx, hty⟩
  | call callee args ty => exact Applies.grow h hab
  | unary op operand ty => cases op <;> exact h
  | _ => exact h

theorem WellTyped.grow (h : e.WellTyped a) (hab : a.Grows b) : e.WellTyped b :=
  Every.imp h fun _ hr => hr.grow hab

theorem Assignable.grow (h : e.Assignable a) (hab : a.Grows b) : e.Assignable b := by
  cases e with
  | var id ty =>
    obtain ⟨x, hx, hw⟩ := h
    exact ⟨x, hab.get? hx, hw⟩
  | _ => exact h

theorem unify_eq_void {s t : Ty} (h : s.unify t = some .void) : s = .void ∨ t = .void := by
  cases s <;> cases t <;> simp_all [Ty.unify]

/-- An operator always yields a value: only comparisons take operands that yield none. -/
theorem Rule.binary_ty_ne_void {left right : Expr} {op : BinaryOp} {ty : Ty}
    (h : (Expr.binary left op right ty).Rule a) : ty ≠ .void := by
  obtain ⟨hl, hr, common, hu, rfl⟩ := h
  rintro hv
  cases op with
  | add | subtract | multiply | modulo | power =>
    cases hv
    rcases unify_eq_void hu with hv | hv
    · rw [hv] at hl
      simp [BinaryOp.Takes] at hl
    · rw [hv] at hr
      simp [BinaryOp.Takes] at hr
  | _ => cases hv

end Typed.Expr

variable {env env' : Env} {a : Arena}

theorem Expr.check_wellTyped {e : Expr} {t : Typed.Expr} (h : e.check env = .ok t) :
    t.WellTyped env.entities :=
  Expr.check_every (fun _ _ ht => (Expr.check_generation ht).2) h

theorem checks_wellTyped {es : List Expr} {ts : List Typed.Expr}
    (h : List.Forall₂ (fun e t => Expr.check env e = .ok t) es ts) (ha : env.entities.Grows a) :
    ∀ t ∈ ts, t.WellTyped a :=
  forall_mem_of_forall₂ h fun _ _ _ ht => (Expr.check_wellTyped ht).grow ha

theorem Assignment.Generation.wellTyped {s : Assignment} {t : Typed.Stmt}
    (h : s.Generation env t env')
    (ha : env'.entities.Grows a) (result : Option Ty) : t.WellTyped a result := by
  cases h with
  | @declares name _ value _ _ _ hv hn =>
    have hx := ha.get? (Arena.get?_add_next env.entities (.ofVariable name value.ty))
    have hv := (Expr.check_wellTyped hv).grow (Arena.Grows.trans (.add _ rfl) ha)
    exact ⟨hv, hn, name, hx⟩
  | assigns _ ht hw hv hn hacc =>
    exact ⟨(Expr.check_wellTyped ht).grow ha, (Expr.check_wellTyped hv).grow ha,
      hw.grow ha, hn, hacc⟩
  | computes _ ht hw hv hrule hacc =>
    have ht := (Expr.check_wellTyped ht).grow ha
    have hv := (Expr.check_wellTyped hv).grow ha
    exact ⟨ht, ⟨hrule.grow ha, ht, hv⟩, hw.grow ha, hrule.binary_ty_ne_void, hacc⟩

theorem Check.Parameters.wellTyped {ps : List Parameter} {ids : List EntityId}
    (h : Check.Parameters env ps ids env') (ha : env'.entities.Grows a) :
    List.Forall₂ (fun id ty => ∃ name, a.get? id = some (.ofVariable name ty)) ids
      (ps.map Parameter.ty) := by
  induction h with
  | nil => exact .nil
  | @cons env _ p _ _ _ hps ih =>
    have hx := hps.follows.grows.get? (Arena.get?_add_next env.entities (.ofVariable p.name p.ty))
    exact .cons ⟨p.name, ha.get? hx⟩ (ih ha)

mutual

theorem Stmt.check_wellTyped :
    (s : Stmt) → {env env' : Env} → {t : Typed.Stmt} → env.Closed →
    s.check env = .ok (t, env') → env'.entities.Grows a → t.WellTyped a env.result?
  | .assignment _, _, _, _, _, h, ha => by
    cases Stmt.check_generation h with
    | assignment hs => exact hs.wellTyped ha _
  | .function name params result body _ _ _, env, _, _, hc, h, ha => by
    cases Stmt.check_generation h with
    | function hn hps hb =>
      have hc :=
        hc.parametersOf (.ofFunction name (params.map Parameter.ty) (Ascription.typeOf result))
      have hlast := (checkBlock_follows body hb).grows.trans ha
      have hbody := checkBlock_wellTyped body (hps.follows.closed hc) hb ha
      rw [hps.follows.result?_eq hc, Env.result?_parametersOf] at hbody
      refine ⟨name, params.map Parameter.ty, Ascription.typeOf result, ?_,
        hps.wellTyped hlast, hbody⟩
      exact (hps.follows.grows.trans hlast).get? (Arena.get?_add_next _ _)
  | .rangeFor _ _ body _ _, env, _, _, hc, h, ha => by
    cases Stmt.check_generation h with
    | rangeFor hi his hu hus ht htb hb =>
      have hlast := (checkBlock_follows body hb).grows.trans ha
      have hbody := checkBlock_wellTyped body (hi.follows.closed hc.inLoop) hb ha
      rw [hi.follows.result?_eq hc.inLoop] at hbody
      exact ⟨hi.wellTyped hlast _, his, hu.wellTyped hlast _, hus,
        (Expr.check_wellTyped ht).grow hlast, htb, hbody⟩
  | .collectionFor name _ _ body _, env, _, _, hc, h, ha => by
    cases Stmt.check_generation h with
    | @collectionFor _ _ _ _ _ c ty b last hcol hty hn hb =>
      have hdeclare := Env.Follows.declare env.inLoop (e := .ofVariable name ty) rfl
      have hlast := (checkBlock_follows body hb).grows.trans ha
      have hbody := checkBlock_wellTyped body (hdeclare.closed hc.inLoop) hb ha
      rw [hdeclare.result?_eq hc.inLoop] at hbody
      refine ⟨(Expr.check_wellTyped hcol).grow (hdeclare.grows.trans hlast),
        ⟨name, ty, hty, ?_⟩, hbody⟩
      exact hlast.get? (Arena.get?_add_next _ _)
  | .ret _ _, _, _, _, _, h, ha => by
    cases Stmt.check_generation h with
    | ret hv hr =>
      refine ⟨?_, hr⟩
      cases hv with
      | none => exact nofun
      | some hv =>
        rintro e ⟨⟩
        exact (Expr.check_wellTyped hv).grow ha
  | .brk _, _, _, _, _, h, _ => by
    cases Stmt.check_generation h with
    | brk => exact trivial
  | .call _ _ _, _, _, _, _, h, ha => by
    cases Stmt.check_generation h with
    | call hf has happly =>
      exact ⟨(Expr.check_wellTyped hf).grow ha, checks_wellTyped has ha, _, happly.grow ha⟩
    | print hf hid hx hp has => exact checks_wellTyped has ha
    | method ho hm has hfits =>
      exact ⟨(Expr.check_wellTyped ho).grow ha, checks_wellTyped has ha, _, hm, hfits⟩

theorem checkBlock_wellTyped :
    (ss : List Stmt) → {env env' : Env} → {ts : List Typed.Stmt} → env.Closed →
    checkBlock env ss = .ok (ts, env') → env'.entities.Grows a →
    Typed.Stmt.WellTypedAll a env.result? ts
  | [], _, _, _, _, h, _ => by
    cases h
    exact trivial
  | s :: ss, _, _, _, hc, h, ha => by
    obtain ⟨t, rest, next, hs, hss, rfl⟩ := checkBlock_cons h
    have hnext := s.check_follows hs
    have hrest := checkBlock_wellTyped ss (hnext.closed hc) hss ha
    rw [hnext.result?_eq hc] at hrest
    exact ⟨s.check_wellTyped hc hs ((checkBlock_follows ss hss).grows.trans ha), hrest⟩

end

mutual

theorem Typed.Stmt.WellTyped.holds {P : Typed.Expr → Prop} (hP : ∀ e, e.WellTyped a → P e) :
    (s : Typed.Stmt) → {result : Option Ty} → s.WellTyped a result → s.Holds P
  | .declaration _ _, _, ⟨hv, _⟩ => hP _ hv
  | .assignment _ _, _, ⟨ht, hv, _⟩ => ⟨hP _ ht, hP _ hv⟩
  | .function _ _ body, _, ⟨_, _, _, _, _, hb⟩ => Typed.Stmt.wellTypedAll_holds hP body hb
  | .rangeFor init update _ body, _, ⟨hi, _, hu, _, ht, _, hb⟩ =>
    ⟨Typed.Stmt.WellTyped.holds hP init hi, Typed.Stmt.WellTyped.holds hP update hu, hP _ ht,
      Typed.Stmt.wellTypedAll_holds hP body hb⟩
  | .collectionFor _ _ body, _, ⟨hc, _, hb⟩ =>
    ⟨hP _ hc, Typed.Stmt.wellTypedAll_holds hP body hb⟩
  | .ret _, _, ⟨hv, _⟩ => fun e he => hP e (hv e he)
  | .brk, _, _ => trivial
  | .call _ _, _, ⟨hf, has, _⟩ => ⟨hP _ hf, fun e he => hP e (has e he)⟩
  | .print _, _, has => fun e he => hP e (has e he)
  | .method _ _ _, _, ⟨ho, has, _⟩ => ⟨hP _ ho, fun e he => hP e (has e he)⟩

theorem Typed.Stmt.wellTypedAll_holds {P : Typed.Expr → Prop}
    (hP : ∀ e, e.WellTyped a → P e) :
    (ss : List Typed.Stmt) →
    {result : Option Ty} → Typed.Stmt.WellTypedAll a result ss → Typed.Stmt.HoldsAll P ss
  | [], _, _ => trivial
  | s :: ss, _, ⟨hs, hss⟩ =>
    ⟨Typed.Stmt.WellTyped.holds hP s hs, Typed.Stmt.wellTypedAll_holds hP ss hss⟩

end

/-- What follows from the static rules holds of every expression of a checked program. -/
theorem Program.check_holds {p : Program} {t : Typed.Program} {P : Typed.Expr → Prop}
    (h : p.check = .ok t)
    (hP : ∀ e, e.WellTyped t.entities → P e) : Typed.Stmt.HoldsAll P t.statements := by
  obtain ⟨env, hss, he⟩ := Program.check_generation h
  have hwt := checkBlock_wellTyped p.statements Env.initial_closed hss (.refl _)
  rw [← he] at hwt
  exact Typed.Stmt.wellTypedAll_holds hP t.statements hwt

/-- Every node of a checked program obeys its static rule. -/
theorem Program.wellTyped_of_check {p : Program} {t : Typed.Program} (h : p.check = .ok t) :
    t.WellTyped := by
  obtain ⟨env, hss, he⟩ := Program.check_generation h
  have hwt := checkBlock_wellTyped p.statements Env.initial_closed hss (.refl _)
  rw [Typed.Program.WellTyped, he]
  exact hwt

def Program.counting (span : Span) : Program where
  statements :=
    [.function "square" [⟨"x", some ⟨.int, span⟩, span⟩] (some ⟨.int, span⟩)
       [.ret (some (.binary (.symbol "x" span) .multiply (.symbol "x" span) span)) span]
       "square" span span,
     .assignment ⟨.symbol "limit" span, none,
       .call (.symbol "square" span) [.number "3" span] span, span⟩,
     .rangeFor ⟨.symbol "i" span, none, .number "0" span, span⟩
       ⟨.symbol "i" span, some .add, .number "1" span, span⟩
       [.call (.symbol "print" span) [.symbol "i" span] span]
       (.binary (.symbol "i" span) .less (.symbol "limit" span) span) span]

theorem Program.check_counting :
    ∃ t, (Program.counting (.empty .nowhere)).check = .ok t ∧ t.statements =
      [.function ⟨11⟩ [⟨12⟩]
         [.ret (some (.binary (.var ⟨12⟩ .int) .multiply (.var ⟨12⟩ .int) .int))],
       .declaration ⟨13⟩ (.call (.var ⟨11⟩ (.function [.int] .int)) [.int 3] .int),
       .rangeFor (.declaration ⟨14⟩ (.int 0))
         (.assignment (.var ⟨14⟩ .int) (.binary (.var ⟨14⟩ .int) .add (.int 1) .int))
         (.binary (.var ⟨14⟩ .int) .less (.var ⟨13⟩ .int) .bool)
           [.print [.var ⟨14⟩ .int]]] :=
  ⟨_, rfl, rfl⟩

theorem Program.wellTyped_counting :
    ∃ t, (Program.counting (.empty .nowhere)).check = .ok t ∧ t.statements =
      [.function ⟨11⟩ [⟨12⟩]
         [.ret (some (.binary (.var ⟨12⟩ .int) .multiply (.var ⟨12⟩ .int) .int))],
       .declaration ⟨13⟩ (.call (.var ⟨11⟩ (.function [.int] .int)) [.int 3] .int),
       .rangeFor (.declaration ⟨14⟩ (.int 0))
         (.assignment (.var ⟨14⟩ .int) (.binary (.var ⟨14⟩ .int) .add (.int 1) .int))
         (.binary (.var ⟨14⟩ .int) .less (.var ⟨13⟩ .int) .bool)
           [.print [.var ⟨14⟩ .int]]] ∧
      t.WellTyped := by
  obtain ⟨t, ht, hs⟩ := Program.check_counting
  exact ⟨t, ht, hs, Program.wellTyped_of_check ht⟩

end Scriptor
