import Scriptor.Proofs.Generation.Statement

namespace Scriptor

/-- The second environment can come after the first one in the same block. -/
structure Env.Follows (env env' : Env) : Prop where
  grows : env.entities.Grows env'.entities
  inLoop : env'.scope.frame.inLoop = env.scope.frame.inLoop
  function : env'.scope.frame.function = env.scope.frame.function
  closed : env.Closed → env'.Closed

theorem Env.Follows.refl (env : Env) : env.Follows env :=
  ⟨.refl _, rfl, rfl, id⟩

theorem Env.Follows.trans {env env' env'' : Env} (h : env.Follows env') (h' : env'.Follows env'') :
    env.Follows env'' :=
  ⟨h.grows.trans h'.grows, h'.inLoop.trans h.inLoop, h'.function.trans h.function,
    fun hc => h'.closed (h.closed hc)⟩

theorem Env.Follows.declare (env : Env) {e : Entity} (he : e.builtin = none) :
    env.Follows (env.declare e) :=
  ⟨.add _ he, rfl, rfl, fun hc => hc.declare e⟩

theorem Env.Follows.grow {env : Env} {a : Arena} (h : env.entities.Grows a) :
    env.Follows { env with entities := a } :=
  ⟨h, rfl, rfl, fun hc => hc.grow h⟩

theorem Assignment.Generation.follows {env env' : Env} {a : Assignment} {t : Typed.Stmt}
    (h : a.Generation env t env') : env.Follows env' := by
  cases h with
  | declares => exact .declare env rfl
  | assigns => exact .refl env
  | computes => exact .refl env

theorem Check.Parameters.follows {env env' : Env} {ps : List Parameter} {ids : List EntityId}
    (h : Check.Parameters env ps ids env') : env.Follows env' := by
  induction h with
  | nil => exact .refl _
  | cons _ _ ih => exact (Env.Follows.declare _ rfl).trans ih

mutual

theorem Stmt.check_follows : (s : Stmt) → {env env' : Env} → {t : Typed.Stmt} →
    s.check env = .ok (t, env') → env.Follows env'
  | .assignment a, _, _, _, h => by
    cases Stmt.check_generation h with
    | assignment ha => exact ha.follows
  | .function _ _ _ body _ _ _, env, _, _, h => by
    cases Stmt.check_generation h with
    | function hn hps hb =>
      refine (Env.Follows.declare env rfl).trans (.grow ?_)
      exact hps.follows.grows.trans (checkBlock_follows body hb).grows
  | .rangeFor _ _ body _ _, _, _, _, h => by
    cases Stmt.check_generation h with
    | rangeFor hi his hu hus ht htb hb =>
      exact .grow (hi.follows.grows.trans (checkBlock_follows body hb).grows)
  | .collectionFor _ _ _ body _, env, _, _, h => by
    cases Stmt.check_generation h with
    | collectionFor hc hty hn hb =>
      refine .grow (.trans ?_ (checkBlock_follows body hb).grows)
      exact (Env.Follows.declare env.inLoop rfl).grows
  | .ret _ _, _, _, _, h => by
    cases Stmt.check_generation h with
    | ret => exact .refl _
  | .brk _, _, _, _, h => by
    cases Stmt.check_generation h with
    | brk => exact .refl _
  | .call _ _ _, _, _, _, h => by
    cases Stmt.check_generation h with
    | call => exact .refl _
    | print => exact .refl _
    | method => exact .refl _

theorem checkBlock_follows : (ss : List Stmt) → {env env' : Env} → {ts : List Typed.Stmt} →
    checkBlock env ss = .ok (ts, env') → env.Follows env'
  | [], _, _, _, h => by
    cases h
    exact .refl _
  | s :: ss, _, _, _, h => by
    obtain ⟨t, rest, next, hs, hss, rfl⟩ := checkBlock_cons h
    exact (s.check_follows hs).trans (checkBlock_follows ss hss)

end

/-- The result type of the function around a place stays the same in its block. -/
theorem Env.Follows.result?_eq {env env' : Env} (h : env.Follows env') (hc : env.Closed) :
    env'.result? = env.result? := by
  rw [Env.result?, Env.result?, h.function]
  cases hf : env.scope.frame.function with
  | none => rfl
  | some id =>
    obtain ⟨e, he⟩ := hc.function id hf
    rw [Option.map_some, Option.map_some, Check.declaredResult, Check.declaredResult, he,
      h.grows.get? he]

theorem Env.Closed.inLoop {env : Env} (h : env.Closed) : env.inLoop.Closed :=
  h.enter true h.function

theorem Env.Closed.parametersOf {env : Env} (h : env.Closed) (f : Entity) :
    (env.parametersOf f).Closed := by
  apply (h.declare f).enter
  intro id hid
  cases hid
  exact ⟨f, Arena.get?_add_next _ _⟩

theorem Check.declaredResult_eq {env : Env} {id : EntityId} {e : Entity}
    {types : List Ty} {result : Ty}
    (he : env.entities.get? id = some e) (hty : e.ty = .function types result) :
    Check.declaredResult env id = result := by
  simp only [Check.declaredResult, he, Option.map_some, hty]

theorem Env.result?_parametersOf (env : Env) (name : String) (types : List Ty) (result : Ty) :
    (env.parametersOf (.ofFunction name types result)).result? = some result :=
  congrArg some (Check.declaredResult_eq (Arena.get?_add_next _ _) rfl)

end Scriptor
