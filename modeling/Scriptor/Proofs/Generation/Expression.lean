import Scriptor.Proofs.Environment
import Scriptor.Proofs.Rules

namespace Scriptor

theorem bind_eq_ok_iff {ε α β : Type} {x : Except ε α} {f : α → Except ε β} {b : β} :
    x >>= f = .ok b ↔ ∃ a, x = .ok a ∧ f a = .ok b := by
  cases x with
  | error e =>
    refine iff_of_false ?_ ?_
    · intro h
      cases h
    · rintro ⟨a, h, -⟩
      cases h
  | ok a =>
    constructor
    · intro h
      exact ⟨a, rfl, h⟩
    · rintro ⟨a', h, h'⟩
      cases h
      exact h'

theorem bind_eq_error_iff {ε α β : Type} {x : Except ε α} {f : α → Except ε β} {e : ε} :
    x >>= f = .error e ↔ x = .error e ∨ ∃ a, x = .ok a ∧ f a = .error e := by
  cases x with
  | error e' =>
    constructor
    · intro h
      cases h
      exact .inl rfl
    · rintro (h | ⟨a, h, -⟩)
      · cases h
        rfl
      · cases h
  | ok a =>
    constructor
    · intro h
      exact .inr ⟨a, rfl, h⟩
    · rintro (h | ⟨b, h, hf⟩)
      · cases h
      · cases h
        exact hf

namespace Check

variable {cause : Cause} {position start leftStart rightStart : Position}
  {e t : Typed.Expr} {u : Unit}

theorem require_eq_ok {condition : Bool} :
    require condition cause position = .ok u ↔ condition = true := by
  cases condition with
  | false => exact iff_of_false nofun nofun
  | true => exact iff_of_true rfl rfl

theorem require_eq_error {condition : Bool} {e : Error} :
    require condition cause position = .error e ↔ condition = false ∧
    e = ⟨cause, position⟩ := by
  cases condition with
  | false => exact ⟨fun h => ⟨rfl, (Except.error.inj h).symm⟩, fun h => congrArg _ h.2.symm⟩
  | true => exact iff_of_false nofun nofun

theorem requireValue_eq_ok : requireValue e position = .ok u ↔ e.ty ≠ .void := by
  rw [requireValue, require_eq_ok, decide_eq_true_iff]

theorem unify_eq_ok {left right ty : Ty} :
    Check.unify left right position = .ok ty ↔ left.unify right = some ty := by
  rw [Check.unify]
  cases left.unify right with
  | none => exact iff_of_false nofun nofun
  | some common => exact ⟨fun h => by cases h; rfl, fun h => by cases h; rfl⟩

theorem isNumeric_iff {ty : Ty} : ty.isNumeric = true ↔ ty ∈ [.int, .float, .any] := by
  cases ty <;> simp [Ty.isNumeric]

theorem isBoolean_iff {ty : Ty} : ty.isBoolean = true ↔ ty ∈ [.bool, .any] := by
  cases ty <;> simp [Ty.isBoolean]

theorem isInteger_iff {ty : Ty} : ty.isInteger = true ↔ ty ∈ [.int, .any] := by
  cases ty <;> simp [Ty.isInteger]

theorem requireOperand_eq_ok {op : BinaryOp} :
    requireOperand op e position = .ok u ↔ op.Takes e.ty := by
  cases op <;>
    simp [requireOperand, requireType, require_eq_ok, BinaryOp.isLogical, BinaryOp.isOrdering,
      BinaryOp.isEquality, BinaryOp.Takes, Ty.isNumericOrString, isNumeric_iff,
      isBoolean_iff, or_comm, or_left_comm]

theorem resultType_eq (op : BinaryOp) (ty : Ty) : resultType op ty = op.result ty := by
  cases op <;> rfl

theorem binary_generation {op : BinaryOp} {left right : Typed.Expr}
    (h : Check.binary op left right leftStart rightStart = .ok t) :
    ∃ ty, t = .binary left op right ty ∧ ∀ a, t.Rule a := by
  obtain ⟨_, hl, h⟩ := bind_eq_ok_iff.1 h
  obtain ⟨_, hr, h⟩ := bind_eq_ok_iff.1 h
  obtain ⟨common, hu, h⟩ := bind_eq_ok_iff.1 h
  cases h
  refine ⟨_, rfl, fun a =>
    ⟨requireOperand_eq_ok.1 hl, requireOperand_eq_ok.1 hr, common, unify_eq_ok.1 hu, ?_⟩⟩
  exact resultType_eq op common

theorem unary_generation {op : UnaryOp} (h : Check.unary op e start = .ok t) :
    ∃ ty, t = .unary op e ty ∧ ∀ a, t.Rule a := by
  cases op with
  | negate =>
    obtain ⟨_, hc, h⟩ := bind_eq_ok_iff.1 h
    cases h
    exact ⟨_, rfl, fun a => ⟨isNumeric_iff.1 (require_eq_ok.1 hc), rfl⟩⟩
  | not =>
    obtain ⟨_, hc, h⟩ := bind_eq_ok_iff.1 h
    cases h
    exact ⟨_, rfl, fun a => ⟨isBoolean_iff.1 (require_eq_ok.1 hc), rfl⟩⟩

/-- The two refusals leave as many arguments as parameters. -/
theorem arguments_generation {parameters : List Ty} {args : List Typed.Expr}
    {starts : List Position} {stop : Position} {variadic : Bool} (hs : starts.length = args.length)
    (h : Check.arguments parameters args starts stop variadic = .ok u) :
    Typed.Fits (variadic = true) parameters args := by
  have hzip {parameters : List Ty} {args : List Typed.Expr} {starts : List Position}
      (hs : starts.length = args.length) (h : argumentTypes parameters args starts = .ok u) :
      ∀ p ∈ parameters.zip args, p.1.accepts p.2.ty = true ∧ p.2.ty ≠ .void := by
    induction parameters generalizing args starts with
    | nil => exact List.forall_mem_nil _
    | cons p ps ih =>
      cases args with
      | nil => exact List.forall_mem_nil _
      | cons e es =>
        cases starts with
        | nil => cases hs
        | cons start starts =>
          obtain ⟨_, hc, h⟩ := bind_eq_ok_iff.1 h
          have hc := require_eq_ok.1 hc
          rw [Bool.and_eq_true, decide_eq_true_iff] at hc
          rw [List.zip_cons_cons, List.forall_mem_cons]
          exact ⟨hc, ih (Nat.succ.inj hs) h⟩
  cases variadic with
  | true =>
    exact ⟨fun hv => absurd rfl hv, hzip hs h⟩
  | false =>
    obtain ⟨_, hle, h⟩ := bind_eq_ok_iff.1 h
    obtain ⟨_, hge, h⟩ := bind_eq_ok_iff.1 h
    have hle := of_decide_eq_true (require_eq_ok.1 hle)
    have hge := of_decide_eq_true (require_eq_ok.1 hge)
    exact ⟨fun _ => Nat.le_antisymm hle hge, hzip hs h⟩

theorem callResult_generation {env : Env} {callee : Typed.Expr} {args : List Typed.Expr}
    {starts : List Position} {stop : Position} {ty : Ty} (hs : starts.length = args.length)
    (hf : callee.ty.isFunction = true) (h : callResult env callee args starts stop = .ok ty) :
    callee.Applies env.entities args ty := by
  rw [callResult] at h
  cases hc : callee.ty with
  | any =>
    rw [hc] at h
    cases h
    exact .inl ⟨hc, rfl⟩
  | function parameters result =>
    rw [hc] at h
    obtain ⟨_, ha, h⟩ := bind_eq_ok_iff.1 h
    cases h
    obtain ⟨harity, haccepted⟩ := arguments_generation hs ha
    refine .inr ⟨parameters, hc, fun hv => harity ?_, haccepted⟩
    intro hany
    obtain ⟨x, hx, hxv⟩ := (Option.any_eq_true _ _).1 hany
    obtain ⟨id, hid, hx⟩ := Option.bind_eq_some_iff.1 hx
    exact hv ⟨id, x, hid, hx, hxv⟩
  | _ => rw [hc] at hf; cases hf

end Check

variable {env : Env}

theorem checkAll_generation {es : List Expr} {ts : List Typed.Expr} (h : checkAll env es = .ok ts) :
    List.Forall₂ (fun e t => e.check env = .ok t) es ts := by
  induction es generalizing ts with
  | nil => cases h; exact .nil
  | cons e es ih =>
    obtain ⟨t, ht, h⟩ := bind_eq_ok_iff.1 h
    obtain ⟨ts, hts, h⟩ := bind_eq_ok_iff.1 h
    cases h
    exact .cons ht (ih hts)

theorem checkElements_generation {es : List Expr} {ts : List Typed.Expr} {ty common : Ty}
    (h : checkElements env ty es = .ok (ts, common)) :
    List.Forall₂ (fun e t => e.check env = .ok t) es ts ∧ (∀ t ∈ ts, t.ty ≠ .void) ∧
      (ts.map Typed.Expr.ty).foldlM Ty.unify ty = some common := by
  induction es generalizing ts ty with
  | nil => cases h; exact ⟨.nil, List.forall_mem_nil _, rfl⟩
  | cons e es ih =>
    obtain ⟨t, ht, h⟩ := bind_eq_ok_iff.1 h
    obtain ⟨_, hv, h⟩ := bind_eq_ok_iff.1 h
    obtain ⟨next, hu, h⟩ := bind_eq_ok_iff.1 h
    obtain ⟨⟨ts, last⟩, hts, h⟩ := bind_eq_ok_iff.1 h
    cases h
    obtain ⟨hts, hvs, hus⟩ := ih hts
    refine ⟨.cons ht hts, List.forall_mem_cons.2 ⟨Check.requireValue_eq_ok.1 hv, hvs⟩, ?_⟩
    rw [List.map_cons, List.foldlM_cons, Check.unify_eq_ok.1 hu]
    exact hus

theorem checkEntries_generation {ps : List (Expr × Expr)} {ts : List (Typed.Expr × Typed.Expr)}
    {ty common : Ty} (h : checkEntries env ty ps = .ok (ts, common)) :
    List.Forall₂ (fun p t => p.1.check env = .ok t.1 ∧ p.2.check env = .ok t.2) ps ts ∧
      (∀ t ∈ ts, t.1.ty ≠ .void ∧ t.2.ty ≠ .void) ∧
      (ts.flatMap fun t => [t.1.ty, t.2.ty]).foldlM Ty.unify ty = some common := by
  induction ps generalizing ts ty with
  | nil => cases h; exact ⟨.nil, List.forall_mem_nil _, rfl⟩
  | cons p ps ih =>
    obtain ⟨k, hk, h⟩ := bind_eq_ok_iff.1 h
    obtain ⟨v, hv, h⟩ := bind_eq_ok_iff.1 h
    obtain ⟨_, hkv, h⟩ := bind_eq_ok_iff.1 h
    obtain ⟨_, hvv, h⟩ := bind_eq_ok_iff.1 h
    obtain ⟨next, hku, h⟩ := bind_eq_ok_iff.1 h
    obtain ⟨last, hvu, h⟩ := bind_eq_ok_iff.1 h
    obtain ⟨⟨ts, common⟩, hts, h⟩ := bind_eq_ok_iff.1 h
    cases h
    obtain ⟨hts, hvs, hus⟩ := ih hts
    refine ⟨.cons ⟨hk, hv⟩ hts, List.forall_mem_cons.2 ⟨⟨?_, ?_⟩, hvs⟩, ?_⟩
    · exact Check.requireValue_eq_ok.1 hkv
    · exact Check.requireValue_eq_ok.1 hvv
    · simp only [List.flatMap_cons, List.cons_append, List.nil_append, List.foldlM_cons,
        Check.unify_eq_ok.1 hku, Check.unify_eq_ok.1 hvu, Option.bind_eq_bind,
        Option.bind_some, hus]

/-- What the typed tree of an expression is made of. -/
def Expr.Generation (env : Env) (e : Expr) (t : Typed.Expr) : Prop :=
  match e with
  | .number _ _ => ∃ value, t = .literal value
  | .string value _ => t = .literal (.string value)
  | .boolean value _ => t = .literal (.bool value)
  | .symbol name _ => ∃ id x, env.resolve? name = some (id, x) ∧ t = .var id x.ty
  | .binary left op right _ =>
    ∃ l r ty, left.check env = .ok l ∧ right.check env = .ok r ∧ t = .binary l op r ty
  | .unary op operand _ => ∃ x ty, operand.check env = .ok x ∧ t = .unary op x ty
  | .conditional test consequent alternate _ => ∃ x c d ty, test.check env = .ok x ∧
      consequent.check env = .ok c ∧ alternate.check env = .ok d ∧ t = .conditional x c d ty
  | .call callee args _ => ∃ f as ty, callee.check env = .ok f ∧
      List.Forall₂ (fun e t => e.check env = .ok t) args as ∧ t = .call f as ty
  | .subscript indexed index _ =>
    ∃ x i ty, indexed.check env = .ok x ∧ index.check env = .ok i ∧
      t = .subscript x i ty
  | .member _ _ _ _ => False
  | .array elements _ =>
    ∃ es ty, List.Forall₂ (fun e t => e.check env = .ok t) elements es ∧ t = .array es ty
  | .dict entries _ => ∃ ps ty,
      List.Forall₂ (fun p t => p.1.check env = .ok t.1 ∧ p.2.check env = .ok t.2) entries ps ∧
      t = .dict ps ty

theorem Check.number_generation {text : String} {start : Position} {t : Typed.Expr}
    (h : Check.number text start = .ok t) : ∃ value, t = .literal value := by
  simp only [Check.number] at h
  split at h
  next e he =>
    cases h
    split at he
    all_goals
      obtain ⟨x, -, rfl⟩ := Option.map_eq_some_iff.1 he
      exact ⟨_, rfl⟩
  next => cases h

theorem Expr.check_generation {e : Expr} {t : Typed.Expr} (h : e.check env = .ok t) :
    e.Generation env t ∧ t.Rule env.entities := by
  cases e with
  | number text span =>
    obtain ⟨value, rfl⟩ := Check.number_generation h
    exact ⟨⟨value, rfl⟩, trivial⟩
  | string value span => cases h; exact ⟨rfl, trivial⟩
  | boolean value span => cases h; exact ⟨rfl, trivial⟩
  | symbol name span =>
    rw [Expr.check] at h
    split at h
    next id x hx =>
      cases h
      exact ⟨⟨id, x, hx, rfl⟩, x, (Env.resolve?_eq_some_iff.1 hx).2, rfl⟩
    next => cases h
  | binary left op right span =>
    obtain ⟨l, hl, h⟩ := bind_eq_ok_iff.1 h
    obtain ⟨r, hr, h⟩ := bind_eq_ok_iff.1 h
    obtain ⟨ty, rfl, hrule⟩ := Check.binary_generation h
    exact ⟨⟨l, r, ty, hl, hr, rfl⟩, hrule _⟩
  | unary op operand span =>
    obtain ⟨x, hx, h⟩ := bind_eq_ok_iff.1 h
    obtain ⟨ty, rfl, hrule⟩ := Check.unary_generation h
    exact ⟨⟨x, ty, hx, rfl⟩, hrule _⟩
  | conditional test consequent alternate span =>
    obtain ⟨x, hx, h⟩ := bind_eq_ok_iff.1 h
    obtain ⟨_, hb, h⟩ := bind_eq_ok_iff.1 h
    obtain ⟨c, hc, h⟩ := bind_eq_ok_iff.1 h
    obtain ⟨d, hd, h⟩ := bind_eq_ok_iff.1 h
    obtain ⟨ty, hu, h⟩ := bind_eq_ok_iff.1 h
    cases h
    exact ⟨⟨x, c, d, ty, hx, hc, hd, rfl⟩, Check.isBoolean_iff.1 (Check.require_eq_ok.1 hb),
      Check.unify_eq_ok.1 hu⟩
  | call callee args span =>
    obtain ⟨f, hf, h⟩ := bind_eq_ok_iff.1 h
    obtain ⟨_, hfun, h⟩ := bind_eq_ok_iff.1 h
    obtain ⟨as, has, h⟩ := bind_eq_ok_iff.1 h
    obtain ⟨ty, hty, h⟩ := bind_eq_ok_iff.1 h
    cases h
    have has := checkAll_generation has
    have hlen : (args.map Expr.start).length = as.length := by rw [List.length_map, has.length_eq]
    exact ⟨⟨f, as, ty, hf, has, rfl⟩,
      Check.callResult_generation hlen (Check.require_eq_ok.1 hfun) hty⟩
  | subscript indexed index span =>
    obtain ⟨x, hx, h⟩ := bind_eq_ok_iff.1 h
    obtain ⟨_, ha, h⟩ := bind_eq_ok_iff.1 h
    obtain ⟨i, hi, h⟩ := bind_eq_ok_iff.1 h
    obtain ⟨_, hn, h⟩ := bind_eq_ok_iff.1 h
    cases h
    refine ⟨⟨x, i, _, hx, hi, rfl⟩, ?_, Check.isInteger_iff.1 (Check.require_eq_ok.1 hn)⟩
    have ha := Check.require_eq_ok.1 ha
    cases hty : x.ty with
    | array base => exact .inl rfl
    | any => exact .inr ⟨rfl, rfl⟩
    | _ => rw [hty] at ha; cases ha
  | member object property propertySpan span =>
    obtain ⟨x, hx, h⟩ := bind_eq_ok_iff.1 h
    cases h
  | array elements span =>
    obtain ⟨⟨es, ty⟩, hes, h⟩ := bind_eq_ok_iff.1 h
    cases h
    obtain ⟨hes, hv, hu⟩ := checkElements_generation hes
    exact ⟨⟨es, _, hes, rfl⟩, hv, ty, hu, rfl⟩
  | dict entries span =>
    obtain ⟨⟨ps, ty⟩, hps, h⟩ := bind_eq_ok_iff.1 h
    cases h
    obtain ⟨hps, hv, hu⟩ := checkEntries_generation hps
    exact ⟨⟨ps, _, hps, rfl⟩, hv, ty, hu, rfl⟩

/-- What holds of the typed tree of every expression holds of every node of such a tree. -/
theorem Expr.check_every {P : Typed.Expr → Prop}
    (hP : ∀ (e : Expr) t, e.check env = .ok t → P t) {e : Expr}
    {t : Typed.Expr} (h : e.check env = .ok t) : t.Every P := by
  induction e generalizing t with
  | number text span =>
    obtain ⟨value, rfl⟩ := (Expr.check_generation h).1
    exact hP _ _ h
  | string value span => cases h; exact hP (.string value span) _ rfl
  | boolean value span => cases h; exact hP (.boolean value span) _ rfl
  | symbol name span =>
    obtain ⟨id, x, -, rfl⟩ := (Expr.check_generation h).1
    exact hP _ _ h
  | binary left op right span ihl ihr =>
    obtain ⟨l, r, ty, hl, hr, rfl⟩ := (Expr.check_generation h).1
    exact ⟨hP _ _ h, ihl hl, ihr hr⟩
  | unary op operand span ih =>
    obtain ⟨x, ty, hx, rfl⟩ := (Expr.check_generation h).1
    exact ⟨hP _ _ h, ih hx⟩
  | conditional test consequent alternate span iht ihc iha =>
    obtain ⟨x, c, d, ty, hx, hc, hd, rfl⟩ := (Expr.check_generation h).1
    exact ⟨hP _ _ h, iht hx, ihc hc, iha hd⟩
  | call callee args span ihf ihs =>
    obtain ⟨f, as, ty, hf, has, rfl⟩ := (Expr.check_generation h).1
    exact ⟨hP _ _ h, ihf hf,
      Typed.Expr.everyOf_iff.2 (forall_mem_of_forall₂ has fun e he _ => ihs e he)⟩
  | subscript indexed index span iha ihi =>
    obtain ⟨x, i, ty, hx, hi, rfl⟩ := (Expr.check_generation h).1
    exact ⟨hP _ _ h, iha hx, ihi hi⟩
  | member object property propertySpan span ih => exact (Expr.check_generation h).1.elim
  | array elements span ihs =>
    obtain ⟨es, ty, hes, rfl⟩ := (Expr.check_generation h).1
    exact ⟨hP _ _ h,
      Typed.Expr.everyOf_iff.2 (forall_mem_of_forall₂ hes fun e he _ => ihs e he)⟩
  | dict entries span ihs =>
    obtain ⟨ps, ty, hps, rfl⟩ := (Expr.check_generation h).1
    refine ⟨hP _ _ h, Typed.Expr.everyEntry_iff.2 (forall_mem_of_forall₂ hps ?_)⟩
    intro p hp q hq
    exact ⟨(ihs p hp).1 hq.1, (ihs p hp).2 hq.2⟩

end Scriptor
