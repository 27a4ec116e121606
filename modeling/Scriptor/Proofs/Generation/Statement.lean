import Scriptor.Proofs.Generation.Expression

namespace Scriptor

variable {env : Env}

theorem Expr.unbound?_eq_some {target : Expr} {name : String}
    (h : target.unbound? env = some name) :
    (∃ span, target = .symbol name span) ∧ env.resolve? name = none := by
  cases target with
  | symbol bound span =>
    rw [Expr.unbound?, Option.ite_none_right_eq_some, Option.some.injEq] at h
    obtain ⟨hn, rfl⟩ := h
    exact ⟨⟨span, rfl⟩, Option.isNone_iff_eq_none.1 hn⟩
  | _ => cases h

/-- Targets are expressions that can get a new value. -/
theorem Expr.checkTarget_generation {target : Expr} {t : Typed.Expr}
    (h : target.checkTarget env = .ok t) :
    target.check env = .ok t ∧ t.Assignable env.entities := by
  cases target with
  | symbol name span =>
    rw [Expr.checkTarget] at h
    split at h
    next id x hx =>
      obtain ⟨_, hw, h⟩ := bind_eq_ok_iff.1 h
      cases h
      rw [Expr.check, hx]
      exact ⟨rfl, x, (Env.resolve?_eq_some_iff.1 hx).2, Check.require_eq_ok.1 hw⟩
    next => cases h
  | subscript indexed index span =>
    obtain ⟨x, i, ty, -, -, rfl⟩ := (Expr.check_generation h).1
    exact ⟨h, trivial⟩
  | _ => cases h

/-- An assignment declares a name that stands for nothing, gives a target a new value, or computes
one from the old value. -/
inductive Assignment.Generation (env : Env) (a : Assignment) : Typed.Stmt → Env → Prop where
  | declares {name : String} {span : Span} {value : Typed.Expr} :
      a.operator = none → a.target = .symbol name span → env.resolve? name = none →
      a.value.check env = .ok value → value.ty ≠ .void →
      Generation env a (.declaration env.entities.next value)
      (env.declare (.ofVariable name value.ty))
  | assigns {target value : Typed.Expr} :
      a.operator = none → a.target.check env = .ok target → target.Assignable env.entities →
      a.value.check env = .ok value → value.ty ≠ .void → target.ty.accepts value.ty = true →
      Generation env a (.assignment target value) env
  | computes {op : BinaryOp} {target operand : Typed.Expr} {ty : Ty} :
      a.operator = some op → a.target.check env = .ok target →
      target.Assignable env.entities →
      a.value.check env = .ok operand →
      (Typed.Expr.binary target op operand ty).Rule env.entities →
      target.ty.accepts ty = true →
      Generation env a (.assignment target (.binary target op operand ty)) env

theorem Assignment.check_generation {a : Assignment} {t : Typed.Stmt} {env' : Env}
    (h : a.check env = .ok (t, env')) : a.Generation env t env' := by
  rw [Assignment.check] at h
  cases ho : a.operator with
  | some op =>
    rw [ho] at h
    obtain ⟨target, ht, h⟩ := bind_eq_ok_iff.1 h
    obtain ⟨operand, hv, h⟩ := bind_eq_ok_iff.1 h
    obtain ⟨value, hb, h⟩ := bind_eq_ok_iff.1 h
    obtain ⟨_, ha, h⟩ := bind_eq_ok_iff.1 h
    cases h
    obtain ⟨ht, hw⟩ := Expr.checkTarget_generation ht
    obtain ⟨ty, rfl, hrule⟩ := Check.binary_generation hb
    exact .computes ho ht hw hv (hrule _) (Check.require_eq_ok.1 ha)
  | none =>
    rw [ho] at h
    obtain ⟨value, hv, h⟩ := bind_eq_ok_iff.1 h
    obtain ⟨_, hn, h⟩ := bind_eq_ok_iff.1 h
    have hn := Check.requireValue_eq_ok.1 hn
    split at h
    next name hu =>
      cases h
      obtain ⟨⟨span, htarget⟩, hr⟩ := Expr.unbound?_eq_some hu
      exact .declares ho htarget hr hv hn
    next =>
      obtain ⟨target, ht, h⟩ := bind_eq_ok_iff.1 h
      obtain ⟨_, ha, h⟩ := bind_eq_ok_iff.1 h
      cases h
      obtain ⟨ht, hw⟩ := Expr.checkTarget_generation ht
      exact .assigns ho ht hw hv hn (Check.require_eq_ok.1 ha)

def Env.result? (env : Env) : Option Ty :=
  env.scope.frame.function.map (Check.declaredResult env)

theorem Check.method_generation {name : String} {object : Ty} {objectStart nameStart : Position}
    {m : Typed.Method} (h : Check.method name object objectStart nameStart = .ok m) :
    m.Takes object (Check.methodParameters m object) := by
  unfold Check.method at h
  split at h
  all_goals cases h
  all_goals constructor

theorem Scope.requireFresh_eq_ok {s : Scope} {name : String} {position : Position} {u : Unit} :
    s.requireFresh name position = .ok u ↔ s.lookup? name = none := by
  rw [Scope.requireFresh]
  cases s.lookup? name with
  | none => exact iff_of_true rfl rfl
  | some id => exact iff_of_false nofun nofun

/-- Each parameter has a name that was not visible before it. -/
inductive Check.Parameters : Env → List Parameter → List EntityId → Env → Prop where
  | nil {env : Env} : Parameters env [] [] env
  | cons {env env' : Env} {p : Parameter} {ps : List Parameter} {ids : List EntityId} :
      env.scope.lookup? p.name = none →
      Parameters (env.declare (.ofVariable p.name p.ty)) ps ids env' →
      Parameters env (p :: ps) (env.entities.next :: ids) env'

theorem Check.parameters_generation {ps : List Parameter} {ids : List EntityId} {env' : Env}
    (h : Check.parameters env ps = .ok (ids, env')) : Parameters env ps ids env' := by
  induction ps generalizing env ids with
  | nil => cases h; exact .nil
  | cons p ps ih =>
    obtain ⟨_, hf, h⟩ := bind_eq_ok_iff.1 h
    obtain ⟨⟨rest, last⟩, hps, h⟩ := bind_eq_ok_iff.1 h
    cases h
    exact .cons (Scope.requireFresh_eq_ok.1 hf) (ih hps)

/-- The update of a loop cannot declare, so that it leaves the environment as it is. -/
theorem Check.rangeHeader_generation {init update : Assignment} {test : Expr} {i u : Typed.Stmt}
    {t : Typed.Expr} {env' : Env}
    (h : Check.rangeHeader env init update test = .ok ((i, u, t), env')) :
    init.Generation env i env' ∧ i.StartsNumber ∧
      update.Generation env' u env' ∧ u.StepsNumber ∧
      test.check env' = .ok t ∧ t.ty ∈ [.bool, .any] := by
  obtain ⟨⟨i, env₁⟩, hi, h⟩ := bind_eq_ok_iff.1 h
  obtain ⟨_, hin, h⟩ := bind_eq_ok_iff.1 h
  have hi := Assignment.check_generation hi
  have hin := Check.isNumeric_iff.1 (Check.require_eq_ok.1 hin)
  cases hb : update.target.unbound? env₁ with
  | some name =>
    rw [hb] at h
    cases h
  | none =>
    rw [hb] at h
    obtain ⟨⟨u, env₂⟩, hu, h⟩ := bind_eq_ok_iff.1 h
    obtain ⟨_, hun, h⟩ := bind_eq_ok_iff.1 h
    obtain ⟨t, ht, h⟩ := bind_eq_ok_iff.1 h
    obtain ⟨_, htn, h⟩ := bind_eq_ok_iff.1 h
    cases h
    have hun := Check.isNumeric_iff.1 (Check.require_eq_ok.1 hun)
    have htn := Check.isBoolean_iff.1 (Check.require_eq_ok.1 htn)
    have hstart : i.StartsNumber := by
      cases hi with
      | declares => exact hin
      | assigns => exact hin
      | computes => exact hin
    have hu := Assignment.check_generation hu
    cases hu with
    | declares ho htarget hr hv hn =>
      rw [htarget, Expr.unbound?, hr] at hb
      cases hb
    | assigns ho ht' hw hv hn ha =>
      exact ⟨hi, hstart, .assigns ho ht' hw hv hn ha, hun, ht, htn⟩
    | computes ho ht' hw hv hn ha =>
      exact ⟨hi, hstart, .computes ho ht' hw hv hn ha, hun, ht, htn⟩

def Env.parametersOf (env : Env) (f : Entity) : Env :=
  { env.declare f with scope := (env.declare f).scope.body env.entities.next }

def Env.inLoop (env : Env) : Env :=
  { env with scope := env.scope.loop }

/-- What the typed tree of a statement is made of, and what is declared after it. -/
inductive Stmt.Generation (env : Env) : Stmt → Typed.Stmt → Env → Prop where
  | assignment {a : Assignment} {t : Typed.Stmt} {env' : Env} :
      a.Generation env t env' → Generation env (.assignment a) t env'
  | function {name : String} {params : List Parameter} {result : Option Ascription}
      {body : List Stmt}
      {endSpan span : Span} {ids : List EntityId} {b : List Typed.Stmt} {inner last : Env} :
      env.scope.lookup? name = none →
      Check.Parameters
        (env.parametersOf (.ofFunction name (params.map Parameter.ty) (Ascription.typeOf result)))
        params ids inner →
      checkBlock inner body = .ok (b, last) →
      Generation env (.function name params result body name endSpan span)
        (.function env.entities.next ids b)
        { env.declare (.ofFunction name (params.map Parameter.ty) (Ascription.typeOf result)) with
          entities := last.entities }
  | rangeFor {init update : Assignment} {body : List Stmt} {test : Expr} {span : Span}
      {i u : Typed.Stmt} {t : Typed.Expr} {b : List Typed.Stmt} {inner last : Env} :
      init.Generation env.inLoop i inner → i.StartsNumber →
      update.Generation inner u inner → u.StepsNumber →
      test.check inner = .ok t → t.ty ∈ [.bool, .any] →
      checkBlock inner body = .ok (b, last) →
      Generation env (.rangeFor init update body test span) (.rangeFor i u t b)
        { env with entities := last.entities }
  | collectionFor {name : String} {nameSpan : Span} {collection : Expr}
      {body : List Stmt} {span : Span}
      {c : Typed.Expr} {ty : Ty} {b : List Typed.Stmt} {last : Env} :
      collection.check env = .ok c → c.ty.element? = some ty → env.scope.lookup? name = none →
      checkBlock (env.inLoop.declare (.ofVariable name ty)) body = .ok (b, last) →
      Generation env (.collectionFor name nameSpan collection body span)
        (.collectionFor env.entities.next c b) { env with entities := last.entities }
  | ret {value : Option Expr} {span : Span} {v : Option Typed.Expr} :
      Option.Rel (fun e t => e.check env = .ok t) value v → Typed.Stmt.Returns v env.result? →
      Generation env (.ret value span) (.ret v) env
  | brk {span : Span} : env.scope.frame.inLoop = true → Generation env (.brk span) .brk env
  | call {callee : Expr} {args : List Expr} {span : Span} {f : Typed.Expr}
      {as : List Typed.Expr} {ty : Ty} :
      callee.check env = .ok f → List.Forall₂ (fun e t => e.check env = .ok t) args as →
      f.Applies env.entities as ty → Generation env (.call callee args span) (.call f as) env
  | print {callee : Expr} {args : List Expr} {span : Span} {id : EntityId} {x : Entity}
      {f : Typed.Expr} {as : List Typed.Expr} :
      callee.check env = .ok f → f.entity? = some id → env.entities.get? id = some x →
      x.builtin = some .print → List.Forall₂ (fun e t => e.check env = .ok t) args as →
      Generation env (.call callee args span) (.print as) env
  | method {object : Expr} {property : String} {propertySpan memberSpan : Span}
      {args : List Expr} {span : Span}
      {o : Typed.Expr} {m : Typed.Method} {as : List Typed.Expr} {parameters : List Ty} :
      object.check env = .ok o → m.Takes o.ty parameters →
      List.Forall₂ (fun e t => e.check env = .ok t) args as → Typed.Fits False parameters as →
      Generation env (.call (.member object property propertySpan memberSpan) args span)
      (.method o m as) env

theorem Check.returned_generation {value : Option Expr} {span : Span} {t : Typed.Stmt}
    (h : Check.returned env value span.start = .ok t) :
    Stmt.Generation env (.ret value span) t env := by
  unfold Check.returned at h
  split at h
  next => cases h
  next id hid =>
    obtain ⟨_, hr, h⟩ := bind_eq_ok_iff.1 h
    cases h
    have hr := Check.require_eq_ok.1 hr
    rw [Bool.or_eq_true, decide_eq_true_iff, decide_eq_true_iff] at hr
    refine .ret .none ?_
    rw [Env.result?, hid]
    exact List.mem_pair.2 hr
  next id e hid =>
    obtain ⟨v, hv, h⟩ := bind_eq_ok_iff.1 h
    obtain ⟨_, hn, h⟩ := bind_eq_ok_iff.1 h
    obtain ⟨_, hr, h⟩ := bind_eq_ok_iff.1 h
    cases h
    have hr := Check.require_eq_ok.1 hr
    rw [Bool.and_eq_true, decide_eq_true_iff] at hr
    refine .ret (.some hv) ?_
    rw [Env.result?, hid]
    exact ⟨hr.1, Check.requireValue_eq_ok.1 hn, hr.2⟩

theorem Check.called_generation {callee : Expr} {args : List Expr} {span : Span} {t : Typed.Stmt}
    (h : Check.called env callee args span.stop = .ok t) :
    Stmt.Generation env (.call callee args span) t env := by
  have hstarts {as : List Typed.Expr}
      (h : List.Forall₂ (fun e t => Expr.check env e = .ok t) args as) :
      (args.map Expr.start).length = as.length := by
    rw [List.length_map, h.length_eq]
  unfold Check.called at h
  split at h
  next object property propertySpan memberSpan =>
    obtain ⟨o, ho, h⟩ := bind_eq_ok_iff.1 h
    obtain ⟨m, hm, h⟩ := bind_eq_ok_iff.1 h
    obtain ⟨as, has, h⟩ := bind_eq_ok_iff.1 h
    obtain ⟨_, hargs, h⟩ := bind_eq_ok_iff.1 h
    cases h
    have has := checkAll_generation has
    obtain ⟨harity, haccepted⟩ := Check.arguments_generation (hstarts has) hargs
    exact .method ho (Check.method_generation hm) has ⟨fun _ => harity nofun, haccepted⟩
  next =>
    obtain ⟨f, hf, h⟩ := bind_eq_ok_iff.1 h
    obtain ⟨_, hfun, h⟩ := bind_eq_ok_iff.1 h
    obtain ⟨as, has, h⟩ := bind_eq_ok_iff.1 h
    obtain ⟨ty, hty, h⟩ := bind_eq_ok_iff.1 h
    have has := checkAll_generation has
    have happly := Check.callResult_generation (hstarts has) (Check.require_eq_ok.1 hfun) hty
    cases h
    split
    next hp =>
      obtain ⟨x, hx, hp⟩ := Option.bind_eq_some_iff.1 hp
      obtain ⟨id, hid, hx⟩ := Option.bind_eq_some_iff.1 hx
      exact .print hf hid hx hp has
    next => exact .call hf has happly

theorem Stmt.check_generation {s : Stmt} {t : Typed.Stmt} {env' : Env}
    (h : s.check env = .ok (t, env')) : Stmt.Generation env s t env' := by
  cases s with
  | assignment a => exact .assignment (Assignment.check_generation h)
  | function name params result body endName endSpan span =>
    obtain ⟨_, hname, h⟩ := bind_eq_ok_iff.1 h
    obtain ⟨_, hfresh, h⟩ := bind_eq_ok_iff.1 h
    obtain ⟨⟨ids, inner⟩, hps, h⟩ := bind_eq_ok_iff.1 h
    obtain ⟨⟨b, last⟩, hb, h⟩ := bind_eq_ok_iff.1 h
    cases h
    cases of_decide_eq_true (Check.require_eq_ok.1 hname)
    exact .function (Scope.requireFresh_eq_ok.1 hfresh) (Check.parameters_generation hps) hb
  | rangeFor init update body test span =>
    obtain ⟨⟨⟨i, u, t⟩, inner⟩, hheader, h⟩ := bind_eq_ok_iff.1 h
    obtain ⟨⟨b, last⟩, hb, h⟩ := bind_eq_ok_iff.1 h
    cases h
    obtain ⟨hi, his, hu, hus, ht, htb⟩ := Check.rangeHeader_generation hheader
    exact .rangeFor hi his hu hus ht htb hb
  | collectionFor name nameSpan collection body span =>
    obtain ⟨c, hc, h⟩ := bind_eq_ok_iff.1 h
    split at h
    next => cases h
    next ty hty =>
      obtain ⟨_, hfresh, h⟩ := bind_eq_ok_iff.1 h
      obtain ⟨⟨b, last⟩, hb, h⟩ := bind_eq_ok_iff.1 h
      cases h
      have hfresh := Scope.requireFresh_eq_ok.1 hfresh
      rw [Scope.loop, Scope.lookup?_enter] at hfresh
      exact .collectionFor hc hty hfresh hb
  | ret value span =>
    obtain ⟨t, ht, h⟩ := bind_eq_ok_iff.1 h
    cases h
    exact Check.returned_generation ht
  | brk span =>
    obtain ⟨_, hl, h⟩ := bind_eq_ok_iff.1 h
    cases h
    exact .brk (Check.require_eq_ok.1 hl)
  | call callee args span =>
    obtain ⟨t, ht, h⟩ := bind_eq_ok_iff.1 h
    cases h
    exact Check.called_generation ht

theorem checkBlock_cons {s : Stmt} {ss : List Stmt} {ts : List Typed.Stmt} {env' : Env}
    (h : checkBlock env (s :: ss) = .ok (ts, env')) :
    ∃ t rest next, s.check env = .ok (t, next) ∧ checkBlock next ss = .ok (rest, env') ∧
      ts = t :: rest := by
  obtain ⟨⟨t, next⟩, ht, h⟩ := bind_eq_ok_iff.1 h
  obtain ⟨⟨rest, last⟩, hrest, h⟩ := bind_eq_ok_iff.1 h
  cases h
  exact ⟨t, rest, next, ht, hrest, rfl⟩

theorem Program.check_generation {p : Program} {t : Typed.Program} (h : p.check = .ok t) :
    ∃ env, checkBlock .initial p.statements = .ok (t.statements, env) ∧
      t.entities = env.entities := by
  obtain ⟨⟨statements, env⟩, hs, h⟩ := bind_eq_ok_iff.1 h
  cases h
  exact ⟨env, hs, rfl⟩

end Scriptor
