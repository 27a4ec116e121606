import Scriptor.Proofs.ExactIntegers
import Scriptor.Proofs.Precision

namespace Scriptor

namespace Typed

inductive Datum where
  | int (n : Int)
  | float (x : Float)
  | bool (b : Bool)
  | string (s : String)
  | array (elements : List Datum)
  | dict (entries : List (Datum × Datum))
  | function (id : EntityId)

def Literal.datum : Literal → Datum
  | .int n => .int n
  | .float x => .float x
  | .string s => .string s
  | .bool b => .bool b

namespace Datum

mutual

def same : Datum → Datum → Bool
  | .int a, .int b => a = b
  | .float a, .float b => a == b
  | .bool a, .bool b => a = b
  | .string a, .string b => a = b
  | .array as, .array bs => sameAll as bs
  | .dict ps, .dict qs => sameEntries ps qs
  | .function f, .function g => f = g
  | _, _ => false

def sameAll : List Datum → List Datum → Bool
  | [], [] => true
  | a :: as, b :: bs => a.same b && sameAll as bs
  | _, _ => false

def sameEntries : List (Datum × Datum) → List (Datum × Datum) → Bool
  | [], [] => true
  | (k, v) :: ps, (l, w) :: qs => k.same l && (v.same w && sameEntries ps qs)
  | _, _ => false

end

end Datum

/-- What expressions are evaluated with: the values of the variables that have one, and the
arithmetic of floating-point numbers. Simplification keeps the values of expressions whatever the
latter is. -/
structure Setting where
  value? : EntityId → Option Datum
  float? : BinaryOp → Float → Float → Option Datum

end Typed

open Typed (Datum Literal Setting)

/-- What an operator makes of two values. Arithmetic and orderings take values of one kind; there is
no remainder of a division by zero and no power with a negative exponent. -/
inductive BinaryOp.Maps (σ : Setting) : BinaryOp → Datum → Datum → Datum → Prop where
  | equals (a b : Datum) : Maps σ .equals a b (.bool (a.same b))
  | notEquals (a b : Datum) : Maps σ .notEquals a b (.bool !a.same b)
  | and (a b : Bool) : Maps σ .and (.bool a) (.bool b) (.bool (a && b))
  | or (a b : Bool) : Maps σ .or (.bool a) (.bool b) (.bool (a || b))
  | add (m n : Int) : Maps σ .add (.int m) (.int n) (.int (m + n))
  | subtract (m n : Int) : Maps σ .subtract (.int m) (.int n) (.int (m - n))
  | multiply (m n : Int) : Maps σ .multiply (.int m) (.int n) (.int (m * n))
  | divide (m n : Int) : Maps σ .divide (.int m) (.int n) (.float (Float.ofInt m / Float.ofInt n))
  | modulo {m n : Int} : n ≠ 0 → Maps σ .modulo (.int m) (.int n) (.int (m.tmod n))
  | power {m n : Int} : 0 ≤ n → Maps σ .power (.int m) (.int n) (.int (Int.pow m n.toNat))
  | less (m n : Int) : Maps σ .less (.int m) (.int n) (.bool (m < n))
  | lessEquals (m n : Int) : Maps σ .lessEquals (.int m) (.int n) (.bool (m ≤ n))
  | greater (m n : Int) : Maps σ .greater (.int m) (.int n) (.bool (n < m))
  | greaterEquals (m n : Int) : Maps σ .greaterEquals (.int m) (.int n) (.bool (n ≤ m))
  | append (s t : String) : Maps σ .add (.string s) (.string t) (.string (s ++ t))
  | before (s t : String) : Maps σ .less (.string s) (.string t) (.bool (s < t))
  | notAfter (s t : String) : Maps σ .lessEquals (.string s) (.string t) (.bool (s ≤ t))
  | after (s t : String) : Maps σ .greater (.string s) (.string t) (.bool (t < s))
  | notBefore (s t : String) : Maps σ .greaterEquals (.string s) (.string t) (.bool (t ≤ s))
  | floats {op : BinaryOp} {x y : Float} {v : Datum} : (op.isLogical || op.isEquality) = false →
      σ.float? op x y = some v → Maps σ op (.float x) (.float y) v

inductive UnaryOp.Maps : UnaryOp → Datum → Datum → Prop where
  | negate (n : Int) : Maps .negate (.int n) (.int (-n))
  | negateFloat (x : Float) : Maps .negate (.float x) (.float (-x))
  | not (b : Bool) : Maps .not (.bool b) (.bool !b)

theorem BinaryOp.Maps.unique {σ : Setting} {op : BinaryOp} {a b v w : Datum} (h : op.Maps σ a b v)
    (h' : op.Maps σ a b w) : v = w := by
  cases h with
  | equals | notEquals =>
    cases h' with
    | floats hop => cases hop
    | _ => rfl
  | floats hop hv =>
    cases h' with
    | floats _ hv' => exact Option.some.inj (hv.symm.trans hv')
    | equals | notEquals => cases hop
  | _ =>
    cases h'
    rfl

theorem UnaryOp.Maps.unique {op : UnaryOp} {a v w : Datum} (h : op.Maps a v) (h' : op.Maps a w) :
    v = w := by
  cases h <;> cases h' <;> rfl

namespace Typed.Expr

/-- The value of an expression. A logical operator looks at its right operand only if the left one
does not decide, and a choice only at the branch that it takes. Calls have no value here. -/
inductive Evaluates (σ : Setting) : Expr → Datum → Prop where
  | literal (value : Literal) : Evaluates σ (.literal value) value.datum
  | var {id : EntityId} {ty : Ty} {v : Datum} :
      σ.value? id = some v → Evaluates σ (.var id ty) v
  | andFalse {left right : Expr} {ty : Ty} : Evaluates σ left (.bool false) →
      Evaluates σ (.binary left .and right ty) (.bool false)
  | orTrue {left right : Expr} {ty : Ty} : Evaluates σ left (.bool true) →
      Evaluates σ (.binary left .or right ty) (.bool true)
  | binary {left right : Expr} {op : BinaryOp} {ty : Ty} {a b v : Datum} : Evaluates σ left a →
      Evaluates σ right b → op.Maps σ a b v → Evaluates σ (.binary left op right ty) v
  | unary {op : UnaryOp} {operand : Expr} {ty : Ty} {a v : Datum} :
      Evaluates σ operand a → op.Maps a v → Evaluates σ (.unary op operand ty) v
  | consequent {test consequent alternate : Expr} {ty : Ty} {v : Datum} :
      Evaluates σ test (.bool true) →
      Evaluates σ consequent v → Evaluates σ (.conditional test consequent alternate ty) v
  | alternate {test consequent alternate : Expr} {ty : Ty} {v : Datum} :
      Evaluates σ test (.bool false) →
      Evaluates σ alternate v → Evaluates σ (.conditional test consequent alternate ty) v
  | subscript {indexed index : Expr} {ty : Ty} {vs : List Datum} {n : Int} {v : Datum} :
      Evaluates σ indexed (.array vs) → Evaluates σ index (.int n) → 0 ≤ n →
      vs[n.toNat]? = some v →
      Evaluates σ (.subscript indexed index ty) v
  | array {elements : List Expr} {ty : Ty} {vs : List Datum} :
      List.Forall₂ (Evaluates σ) elements vs → Evaluates σ (.array elements ty) (.array vs)
  | dict {entries : List (Expr × Expr)} {ty : Ty} {vs : List (Datum × Datum)} :
      List.Forall₂ (Evaluates σ) (entries.map Prod.fst) (vs.map Prod.fst) →
      List.Forall₂ (Evaluates σ) (entries.map Prod.snd) (vs.map Prod.snd) →
      Evaluates σ (.dict entries ty) (.dict vs)

variable {a : Arena} {σ : Setting} {left right l r e : Expr} {op : BinaryOp}
  {ty : Ty} {v w : Datum}

theorem Evaluates.literal_eq {value : Literal} (h : (Expr.literal value).Evaluates σ v) :
    v = value.datum := by
  cases h
  rfl

theorem Evaluates.forall₂_unique {es : List Expr} {vs ws : List Datum}
    (h : List.Forall₂ (Evaluates σ) es vs) (h' : List.Forall₂ (Evaluates σ) es ws)
    (hes : ∀ e ∈ es, ∀ v w, e.Evaluates σ v → e.Evaluates σ w → v = w) : vs = ws := by
  induction h generalizing ws with
  | nil =>
    cases h'
    rfl
  | cons he _ ih =>
    cases h' with
    | cons he' h' =>
      rw [List.forall_mem_cons] at hes
      rw [hes.1 _ _ he he', ih h' hes.2]

/-- An expression has at most one value. -/
theorem Evaluates.unique (h : e.Evaluates σ v) (h' : e.Evaluates σ w) : v = w := by
  -- on the expression and not on `h`, which lies within lists for arrays and dictionaries
  induction e generalizing v w with
  | literal value => exact h.literal_eq.trans h'.literal_eq.symm
  | var id ty =>
    cases h with
    | var h =>
      cases h' with
      | var h' => exact Option.some.inj (h.symm.trans h')
  | binary left op right ty ihl ihr =>
    cases h with
    | andFalse hl =>
      cases h' with
      | andFalse => rfl
      | binary hl' _ hm =>
        cases ihl hl hl'
        cases hm
        rfl
    | orTrue hl =>
      cases h' with
      | orTrue => rfl
      | binary hl' _ hm =>
        cases ihl hl hl'
        cases hm
        rfl
    | binary hl hr hm =>
      cases h' with
      | andFalse hl' | orTrue hl' =>
        cases ihl hl hl'
        cases hm
        rfl
      | binary hl' hr' hm' =>
        cases ihl hl hl'
        cases ihr hr hr'
        exact hm.unique hm'
  | unary op operand ty ih =>
    cases h with
    | unary ho hm =>
      cases h' with
      | unary ho' hm' =>
        cases ih ho ho'
        exact hm.unique hm'
  | conditional test consequent alternate ty iht ihc iha =>
    cases h with
    | consequent ht hc =>
      cases h' with
      | consequent _ hc' => exact ihc hc hc'
      | alternate ht' => cases iht ht ht'
    | alternate ht ha =>
      cases h' with
      | consequent ht' => cases iht ht ht'
      | alternate _ ha' => exact iha ha ha'
  | call callee args ty => cases h
  | subscript indexed index ty ihx ihi =>
    cases h with
    | subscript hx hi _ hv =>
      cases h' with
      | subscript hx' hi' _ hv' =>
        cases ihx hx hx'
        cases ihi hi hi'
        exact Option.some.inj (hv.symm.trans hv')
  | array elements ty ihs =>
    cases h with
    | array h =>
      cases h' with
      | array h' => rw [forall₂_unique h h' fun e he _ _ => ihs e he]
  | dict entries ty ihs =>
    cases h with
    | dict hk hv =>
      cases h' with
      | dict hk' hv' =>
        have hkeys := forall₂_unique hk hk' (List.forall_mem_map.2 fun p hp _ _ => (ihs p hp).1)
        have hvalues := forall₂_unique hv hv' (List.forall_mem_map.2 fun p hp _ _ => (ihs p hp).2)
        rw [List.zip_of_prod hkeys hvalues, ← List.zip_of_prod rfl rfl]

theorem ne_float_of_ty (h : e.ty ≠ .float) : ∀ x, e ≠ .float x := by
  rintro x rfl
  exact h rfl

theorem exact_of_maps {m n : Int} (hop : op ≠ .divide) (h : op.Maps σ (.int m) (.int n) v) :
    ∃ w, op.exactly? m n = some w ∧ v = w.datum := by
  cases h with
  | divide => exact absurd rfl hop
  | modulo hn => exact ⟨_, if_neg hn, rfl⟩
  | power hn => exact ⟨_, if_neg (Int.not_lt.2 hn), rfl⟩
  | _ => exact ⟨_, rfl, rfl⟩

section Arithmetic

variable {k : Int} (hop : op.result .int = .int)
include hop

/-- Arithmetic takes an integer on both sides or on none. -/
theorem int_iff_of_maps {a b : Datum} (h : op.Maps σ a b v) :
    (∃ m, a = .int m) ↔ ∃ n, b = .int n := by
  cases h with
  | equals | notEquals | and | or => cases hop
  | append | floats => exact iff_of_false nofun nofun
  | before | notAfter | after | notBefore => cases hop
  | _ => exact iff_of_true ⟨_, rfl⟩ ⟨_, rfl⟩

theorem Evaluates.left_int (h : (Expr.binary (.int k) op r ty).Evaluates σ v) :
    ∃ n w, r.Evaluates σ (.int n) ∧ op.exactly? k n = some w ∧ v = w.datum := by
  cases h with
  | andFalse | orTrue => cases hop
  | binary ha hb hm =>
    cases ha.literal_eq
    obtain ⟨n, rfl⟩ := (int_iff_of_maps hop hm).1 ⟨k, rfl⟩
    obtain ⟨w, hw, hv⟩ := exact_of_maps (BinaryOp.ne_divide_of_result hop) hm
    exact ⟨n, w, hb, hw, hv⟩

theorem Evaluates.right_int (h : (Expr.binary l op (.int k) ty).Evaluates σ v) :
    ∃ m w, l.Evaluates σ (.int m) ∧ op.exactly? m k = some w ∧ v = w.datum := by
  cases h with
  | andFalse | orTrue => cases hop
  | binary ha hb hm =>
    cases hb.literal_eq
    obtain ⟨m, rfl⟩ := (int_iff_of_maps hop hm).2 ⟨k, rfl⟩
    obtain ⟨w, hw, hv⟩ := exact_of_maps (BinaryOp.ne_divide_of_result hop) hm
    exact ⟨m, w, ha, hw, hv⟩

end Arithmetic

theorem Evaluates.logical {d : Bool} (hop : op.decider? = some d)
    (h : (Expr.binary l op r ty).Evaluates σ v) :
    l.Evaluates σ (.bool d) ∧ v = .bool d ∨ l.Evaluates σ (.bool !d) ∧
    r.Evaluates σ v := by
  cases h with
  | andFalse hl | orTrue hl =>
    cases hop
    exact .inl ⟨hl, rfl⟩
  | binary hl hr hm =>
    cases hm with
    | and a b =>
      cases hop
      cases a with
      | true => exact .inr ⟨hl, hr⟩
      | false => exact .inl ⟨hl, rfl⟩
    | or a b =>
      cases hop
      cases a with
      | true => exact .inl ⟨hl, rfl⟩
      | false => exact .inr ⟨hl, hr⟩
    | floats hlogical =>
      cases op with
      | and | or => cases hlogical
      | _ => cases hop
    | _ => cases hop

theorem Follows.evaluates {f : Int → Int} {n : Int} (h : Follows l ty f e)
    (hn : l.Evaluates σ (.int n)) : e.Evaluates σ (.int (f n)) := by
  cases h with
  | same => exact hn
  | constant k => exact .literal (.int k)
  | negated => exact .unary hn (.negate n)

theorem Neutral.evaluates (h : Neutral ty l op r e) (hv : (binary l op r ty).Evaluates σ v) :
    e.Evaluates σ v := by
  cases h with
  | @undecidedLeft _ _ d hop =>
    rcases hv.logical hop with ⟨hd, -⟩ | ⟨-, hr⟩
    · cases d <;> cases hd.literal_eq
    · exact hr
  | undecidedRight hop =>
    rcases hv.logical hop with ⟨hl, rfl⟩ | ⟨hl, hr⟩
    · exact hl
    · cases hr.literal_eq
      exact hl
  | integerLeft hop hexact hf =>
    obtain ⟨n, w, hn, hw, rfl⟩ := hv.left_int hop
    rw [hexact n w hw]
    exact hf.evaluates hn
  | integerRight hop hexact hf =>
    obtain ⟨m, w, hm, hw, rfl⟩ := hv.right_int hop
    rw [hexact m w hw]
    exact hf.evaluates hm

theorem evaluates_of_fold? {x y z : Literal} (hf : Literal.fold? op x y = some z)
    (hop : op ≠ .divide)
    (hx : x.ty ≠ .float) (hv : (binary (.literal x) op (.literal y) ty).Evaluates σ v) :
    (literal z).Evaluates σ v := by
  cases x with
  | int m =>
    cases y with
    | int n =>
      cases hv with
      | andFalse ha | orTrue ha => cases ha.literal_eq
      | binary ha hb hm =>
        cases ha.literal_eq
        cases hb.literal_eq
        obtain ⟨w, hw, rfl⟩ := exact_of_maps hop hm
        rw [BinaryOp.eq_of_foldInt? hf hw]
        exact .literal w
    | _ => cases hf
  | float x => exact absurd rfl hx
  | _ => cases hf

theorem Reduces.evaluates (h : Reduces l op r ty e) (hop : op ≠ .divide) (hl : l.ty ≠ .float)
    (hr : r.ty ≠ .float) (hv : (binary l op r ty).Evaluates σ v) : e.Evaluates σ v := by
  cases h with
  | folds hf =>
    obtain ⟨x, y, rfl, rfl, hf⟩ := fold?_eq_some hf
    exact evaluates_of_fold? hf hop hl hv
  | cancels _ hi =>
    exact (hi.neutral hop (fun _ => ne_float_of_ty hl) fun _ => ne_float_of_ty hr).evaluates hv
  | stays => exact hv

theorem evaluates_simplifyUnary {op : UnaryOp} (h : (unary op e ty).Evaluates σ v) :
    (simplifyUnary op e ty).Evaluates σ v := by
  fun_cases simplifyUnary op e ty with
  | case1 n =>
    cases h with
    | unary ho hm =>
      cases ho.literal_eq
      cases hm
      exact .literal (.int (-n))
  | case2 x =>
    cases h with
    | unary ho hm =>
      cases ho.literal_eq
      cases hm
      exact .literal (.float (-x))
  | case3 b =>
    cases h with
    | unary ho hm =>
      cases ho.literal_eq
      cases hm
      exact .literal (.bool !b)
  | case4 => exact h

theorem evaluates_simplifyConditional {test : Expr}
    (h : (conditional test left right ty).Evaluates σ v) :
    (simplifyConditional test left right ty).Evaluates σ v := by
  fun_cases simplifyConditional test left right ty with
  | case1 =>
    cases h with
    | consequent _ hc => exact hc
    | alternate ht => cases ht.literal_eq
  | case2 =>
    cases h with
    | consequent ht => cases ht.literal_eq
    | alternate _ ha => exact ha
  | case3 => exact h

theorem Rule.op_ne_divide (h : (binary left op right ty).Rule a) (hty : ty ≠ .float) :
    op ≠ .divide := by
  rintro rfl
  obtain ⟨-, -, common, -, rfl⟩ := h
  exact hty rfl

theorem simplify_ty_ne_float (h : e.WellTyped a) (hty : e.ty ≠ .float) :
    e.simplify.ty ≠ .float := by
  intro hs
  have hbelow := simplify_ty_below h
  rw [hs] at hbelow
  exact hty (hbelow.eq_of_known trivial).symm

theorem Evaluates.forall₂_map_simplify {es : List Expr} {vs : List Datum}
    (h : List.Forall₂ (Evaluates σ) es vs)
    (hes : ∀ e ∈ es, ∀ v, e.Evaluates σ v → e.simplify.Evaluates σ v) :
    List.Forall₂ (Evaluates σ) (es.map simplify) vs :=
  List.forall₂_map_left_iff.2 (forall₂_imp_of_mem h hes)

theorem WellTyped.evaluates_simplify (h : e.WellTyped a) (hfloat : e.Every (·.ty ≠ .float))
    (hv : e.Evaluates σ v) : e.simplify.Evaluates σ v := by
  induction e generalizing v with
  | literal value => exact hv
  | var id ty => exact hv
  | binary left op right ty ihl ihr =>
    obtain ⟨hrule, hl, hr⟩ := h
    obtain ⟨hty, hfl, hfr⟩ := hfloat
    -- the operands are simplified already: their types may be less precise, but none of them is
    -- a floating-point type
    apply (simplifyBinary_reduces _ _ _ _).evaluates (hrule.op_ne_divide hty)
      (simplify_ty_ne_float hl hfl.self) (simplify_ty_ne_float hr hfr.self)
    cases hv with
    | andFalse ha => exact .andFalse (ihl hl hfl ha)
    | orTrue ha => exact .orTrue (ihl hl hfl ha)
    | binary ha hb hm => exact .binary (ihl hl hfl ha) (ihr hr hfr hb) hm
  | unary op operand ty ih =>
    cases hv with
    | unary ho hm => exact evaluates_simplifyUnary (.unary (ih h.2 hfloat.2 ho) hm)
  | conditional test consequent alternate ty iht ihc iha =>
    obtain ⟨-, ht, hc, ha⟩ := h
    obtain ⟨-, hft, hfc, hfa⟩ := hfloat
    apply evaluates_simplifyConditional
    cases hv with
    | consequent htest hv => exact .consequent (iht ht hft htest) (ihc hc hfc hv)
    | alternate htest hv => exact .alternate (iht ht hft htest) (iha ha hfa hv)
  | call callee args ty => cases hv
  | subscript indexed index ty ihx ihi =>
    cases hv with
    | subscript hx hi hn hv =>
      exact .subscript (ihx h.2.1 hfloat.2.1 hx) (ihi h.2.2 hfloat.2.2 hi) hn hv
  | array elements ty ihs =>
    cases hv with
    | array hvs =>
      rw [simplify, simplifyAll_eq_map]
      apply Evaluates.array
      apply Evaluates.forall₂_map_simplify hvs
      intro x hx _
      exact ihs x hx (everyOf_iff.1 h.2 x hx) (everyOf_iff.1 hfloat.2 x hx)
  | dict entries ty ihs =>
    cases hv with
    | dict hks hvs =>
      have hkeys := Evaluates.forall₂_map_simplify hks <| List.forall_mem_map.2 fun p hp _ =>
        (ihs p hp).1 (everyEntry_iff.1 h.2 p hp).1 (everyEntry_iff.1 hfloat.2 p hp).1
      have hvalues := Evaluates.forall₂_map_simplify hvs <| List.forall_mem_map.2 fun p hp _ =>
        (ihs p hp).2 (everyEntry_iff.1 h.2 p hp).2 (everyEntry_iff.1 hfloat.2 p hp).2
      rw [List.map_map] at hkeys hvalues
      rw [simplify, simplifyEntries_eq_map]
      apply Evaluates.dict
      · rw [List.map_map]
        exact hkeys
      · rw [List.map_map]
        exact hvalues

end Typed.Expr

open Typed (Expr)

/-- Whatever value an expression of a checked program has, its simplification has that value and no
other one, unless a part of it is of a floating-point type. -/
theorem Program.simplified_value {p : Program} {t : Typed.Program} (h : p.check = .ok t) :
    Typed.Stmt.HoldsAll (Expr.Every fun e => e.Every (·.ty ≠ .float) →
      ∀ σ v, e.Evaluates σ v → ∀ w, e.simplify.Evaluates σ w ↔ w = v) t.statements := by
  apply Program.check_holds h
  intro e he
  apply he.within
  intro e he hfloat σ v hv
  have hv' := Expr.WellTyped.evaluates_simplify he hfloat hv
  intro w
  constructor
  · intro hw
    exact hw.unique hv'
  · rintro rfl
    exact hv'

def Typed.Setting.sevens : Setting where
  value? _ := some (.array [.int 7])
  float? _ _ _ := none

theorem Program.simplified_value_sharpening :
    ∃ t e, (Program.sharpening (.empty .nowhere)).check = .ok t ∧
      t.statements = [.declaration ⟨11⟩ (.array [] (.array .any)), .declaration ⟨12⟩ e] ∧
      e.Evaluates .sevens (.int 7) ∧ e.simplify.Evaluates .sevens (.int 7) := by
  obtain ⟨t, ht, hs⟩ := Program.check_sharpening
  have hvalue := Program.simplified_value ht
  rw [hs] at hvalue
  have hv : Expr.Evaluates .sevens
      (.binary (.int 0) .add (.binary .sharpened .multiply (.int 1) .int) .int) (.int 7) :=
    .binary (.literal (.int 0))
      (.binary (.consequent (.literal (.bool true))
        (.subscript (.var rfl) (.literal (.int 0)) (Int.le_refl 0) rfl))
        (.literal (.int 1)) (.multiply 7 1))
      (.add 0 7)
  refine ⟨t, _, ht, hs, hv, (hvalue.2.1.self ?_ _ _ hv _).2 rfl⟩
  simp [Expr.Every, Expr.sharpened, Expr.ty, Expr.int, Expr.bool, Literal.ty]

end Scriptor
