import Scriptor.Proofs.Form.Literals
import Scriptor.Proofs.WellFormed

namespace Scriptor.Typed.Expr

def isSigned : Expr → Bool
  | .unary _ _ _ => true
  | _ => false

/-- Whether nothing within the expression is applied to a prefix expression. -/
def Plain (e : Expr) : Prop :=
  e.Every fun x => ∀ b, x.base? = some b → b.isSigned = false

/-- Whether every entity that the expression names satisfies `q` and nothing within is applied to a
literal. -/
def Ready (q : EntityId → Prop) (e : Expr) : Prop :=
  e.Every fun x => (∀ id, x.entity? = some id → q id) ∧ ∀ b, x.base? = some b →
    ∀ value, b ≠ .literal value

end Scriptor.Typed.Expr

namespace Scriptor.Script

open Form

mutual

/-- The structure of an expression. Entities stand for the forms of their names. -/
@[simp] def shape (name : EntityId → Form) : Typed.Expr → Form
  | .literal value => ofLiteral value
  | .var id _ => (name id).bare
  | .binary left op right _ => .binary (shape name left) op (shape name right)
  | .unary op operand _ => .unary op (shape name operand)
  | .conditional test consequent alternate _ =>
    .conditional (shape name test) (shape name consequent) (shape name alternate)
  | .call callee args _ => .call (shape name callee) (shapes name args)
  | .subscript indexed index _ => .subscript (shape name indexed) (shape name index)
  | .array elements _ => .array (shapes name elements)
  | .dict entries _ => .construct ['M', 'a', 'p'] [.array (shapeEntries name entries)]

@[simp] def shapes (name : EntityId → Form) : List Typed.Expr → List Form
  | [] => []
  | e :: es => shape name e :: shapes name es

@[simp] def shapeEntries (name : EntityId → Form) : List (Typed.Expr × Typed.Expr) → List Form
  | [] => []
  | (key, value) :: ps => .array [shape name key, shape name value] :: shapeEntries name ps

end

/-- The form of a text that continues the text of `f`. Behind a prefix expression it continues the
operand. -/
def Form.continued (f : Form) (next : Form → Form) : Form :=
  match f with
  | .unary op operand => .unary op (next operand)
  | f => next f

def baseForm (op : BinaryOp) (left : Typed.Expr) (f : Form) : Form :=
  if op = .power && needsParens left then .group f else f

mutual

/-- The form of an expression as it is written. -/
@[simp] def written (name : EntityId → Form) : Typed.Expr → Form
  | .literal value => ofLiteral value
  | .var id _ => name id
  | .binary left op right _ =>
    .group (.binary (baseForm op left (written name left)) op (written name right))
  | .unary op operand _ => .unary op (.group (written name operand))
  | .conditional test consequent alternate _ =>
    .group (.conditional (.group (written name test)) (.group (written name consequent))
      (.group (written name alternate)))
  | .call callee args _ => (written name callee).continued (.call · (writtenAll name args))
  | .subscript indexed index _ =>
    (written name indexed).continued (.subscript · (written name index))
  | .array elements _ => .array (writtenAll name elements)
  | .dict entries _ => .construct ['M', 'a', 'p'] [.array (writtenEntries name entries)]

@[simp] def writtenAll (name : EntityId → Form) : List Typed.Expr → List Form
  | [] => []
  | e :: es => written name e :: writtenAll name es

@[simp] def writtenEntries (name : EntityId → Form) :
    List (Typed.Expr × Typed.Expr) → List Form
  | [] => []
  | (key, value) :: ps => .array [written name key, written name value] :: writtenEntries name ps

end

section Lists

variable {name : EntityId → Form}

theorem shapes_eq_map (es : List Typed.Expr) : shapes name es = es.map (shape name) := by
  induction es with
  | nil => rfl
  | cons e es ih => rw [shapes, ih, List.map_cons]

theorem shapeEntries_eq_map (ps : List (Typed.Expr × Typed.Expr)) :
    shapeEntries name ps = ps.map fun p => .array [shape name p.1, shape name p.2] := by
  induction ps with
  | nil => rfl
  | cons p ps ih => rw [shapeEntries, ih, List.map_cons]

theorem writtenAll_eq_map (es : List Typed.Expr) : writtenAll name es = es.map (written name) := by
  induction es with
  | nil => rfl
  | cons e es ih => rw [writtenAll, ih, List.map_cons]

theorem writtenEntries_eq_map (ps : List (Typed.Expr × Typed.Expr)) :
    writtenEntries name ps = ps.map fun p => .array [written name p.1, written name p.2] := by
  induction ps with
  | nil => rfl
  | cons p ps ih => rw [writtenEntries, ih, List.map_cons]

theorem Form.bareAll_eq_map (fs : List Form) : bareAll fs = fs.map bare := by
  induction fs with
  | nil => rfl
  | cons f fs ih => rw [bareAll, ih, List.map_cons]

theorem Form.areSound_iff {fs : List Form} :
    areSound fs = true ↔ ∀ f ∈ fs, f.isSound = true := by
  induction fs with
  | nil => exact iff_of_true rfl (List.forall_mem_nil _)
  | cons f fs ih => rw [areSound, Bool.and_eq_true, ih, List.forall_mem_cons]

theorem bareAll_writtenAll {es : List Typed.Expr} :
    bareAll (writtenAll name es) = shapes name es ↔
    ∀ e ∈ es, (written name e).bare = shape name e := by
  rw [bareAll_eq_map, writtenAll_eq_map, shapes_eq_map, List.map_map]
  exact List.map_inj_left

theorem bareAll_writtenEntries {ps : List (Typed.Expr × Typed.Expr)} :
    bareAll (writtenEntries name ps) = shapeEntries name ps ↔
      ∀ p ∈ ps, (written name p.1).bare = shape name p.1 ∧
        (written name p.2).bare = shape name p.2 := by
  rw [bareAll_eq_map, writtenEntries_eq_map, shapeEntries_eq_map, List.map_map, List.map_inj_left]
  simp [bare, bareAll]

end Lists

section Continued

variable {f g : Form} {next : Form → Form}

theorem Form.continued_of_isUnary (h : f.isUnary = false) : f.continued next = next f := by
  cases f with
  | unary op operand => cases h
  | _ => rfl

/-- A text that continues a prefix expression is a prefix expression itself. -/
theorem Form.isUnary_of_bare_continued (h : (f.continued next).bare = g) (hg : g.isUnary = false) :
    f.isUnary = false := by
  cases f with
  | unary op operand =>
    rw [← h] at hg
    cases hg
  | _ => rfl

theorem Form.bare_continued (h : (f.continued next).bare = g) (hg : g.isUnary = false) :
    (next f).bare = g := by
  have hplain : f.continued next = next f := continued_of_isUnary (isUnary_of_bare_continued h hg)
  rw [← hplain, h]

theorem Form.text_continued {rest : List Char} (hnext : ∀ x, (next x).text = x.text ++ rest) :
    (f.continued next).text = f.text ++ rest := by
  cases f with
  | unary op operand => simp only [continued, text, hnext, List.append_assoc]
  | _ => exact hnext _

def Form.isContinuable : Form → Bool
  | .unary _ operand => operand.isTight
  | f => f.isTight

theorem Form.isContinuable_of_isTight (h : f.isTight = true) : f.isContinuable = true := by
  cases f with
  | unary op operand => cases h
  | _ => exact h

theorem Form.isUnary_of_isTight (h : f.isTight = true) : f.isUnary = false := by
  cases f with
  | unary op operand => cases h
  | _ => rfl

theorem Form.isOperand_of_isContinuable (h : f.isContinuable = true) : f.isOperand = true := by
  cases f with
  | unary op operand => rfl
  | _ => exact isOperand_of_isSimple (isSimple_of_isTight h)

theorem Form.isContinuable_continued (hnext : ∀ x, (next x).isTight = true) :
    (f.continued next).isContinuable = true := by
  cases f with
  | unary op operand => exact hnext operand
  | _ => exact isContinuable_of_isTight (hnext _)

theorem Form.isProper_continued (hf : f.isProper = true) (hc : f.isContinuable = true)
    (htight : ∀ x, (next x).isTight = true)
    (hnext : ∀ x, x.isTight = true → x.isProper = true → (next x).isProper = true) :
    (f.continued next).isProper = true := by
  cases f with
  | unary op operand =>
    rw [isProper, Bool.and_eq_true] at hf
    exact Bool.and_eq_true_iff.2 ⟨isSimple_of_isTight (htight operand), hnext operand hc hf.2⟩
  | _ => exact hnext _ hc hf

end Continued

structure Form.IsName (f : Form) : Prop where
  isProper : f.isProper = true
  isTight : f.isTight = true
  isSound : f.isSound = true

section Grouping

variable {name : EntityId → Form} {e : Typed.Expr}

theorem bare_baseForm (op : BinaryOp) (left : Typed.Expr) (f : Form) :
    (baseForm op left f).bare = f.bare := by
  rw [baseForm]
  split <;> rfl

theorem isSigned_of_isUnary_written (h : (written name e).isUnary = false) :
    e.isSigned = false := by
  cases e with
  | unary op operand ty => cases h
  | _ => rfl

theorem plain_of_bare_written (h : (written name e).bare = shape name e) : e.Plain := by
  induction e with
  | literal value => exact nofun
  | var id ty => exact nofun
  | binary left op right ty ihl ihr =>
    simp only [written, shape, bare, bare_baseForm, binary.injEq] at h
    exact ⟨nofun, ihl h.1, ihr h.2.2⟩
  | unary op operand ty ih =>
    simp only [written, shape, bare, unary.injEq] at h
    exact ⟨nofun, ih h.2⟩
  | conditional test consequent alternate ty iht ihc iha =>
    simp only [written, shape, bare, conditional.injEq] at h
    exact ⟨nofun, iht h.1, ihc h.2.1, iha h.2.2⟩
  | call callee args ty ihf ihs =>
    rw [written, shape] at h
    have hsigned := isSigned_of_isUnary_written (isUnary_of_bare_continued h rfl)
    have hbare := bare_continued h rfl
    simp only [bare, call.injEq, bareAll_writtenAll] at hbare
    refine ⟨?_, ihf hbare.1, Typed.Expr.everyOf_iff.2 fun e he => ihs e he (hbare.2 e he)⟩
    rintro b ⟨⟩
    exact hsigned
  | subscript indexed index ty iha ihi =>
    rw [written, shape] at h
    have hsigned := isSigned_of_isUnary_written (isUnary_of_bare_continued h rfl)
    have hbare := bare_continued h rfl
    simp only [bare, subscript.injEq] at hbare
    refine ⟨?_, iha hbare.1, ihi hbare.2⟩
    rintro b ⟨⟩
    exact hsigned
  | array elements ty ihs =>
    simp only [written, shape, bare, array.injEq, bareAll_writtenAll] at h
    exact ⟨nofun, Typed.Expr.everyOf_iff.2 fun e he => ihs e he (h e he)⟩
  | dict entries ty ihs =>
    simp only [written, shape, bare, bareAll, construct.injEq, List.cons.injEq, array.injEq,
      bareAll_writtenEntries, true_and, and_true] at h
    exact ⟨nofun, Typed.Expr.everyEntry_iff.2 fun p hp =>
      ⟨(ihs p hp).1 (h p hp).1, (ihs p hp).2 (h p hp).2⟩⟩

structure Groups (name : EntityId → Form) (e : Typed.Expr) : Prop where
  isSound : (written name e).isSound = true
  bare_eq : (written name e).bare = shape name e
  isUnary_eq : (written name e).isUnary = needsParens e

theorem needsParens_eq_false (hsigned : e.isSigned = false)
    (hliteral : ∀ value, e ≠ .literal value) : needsParens e = false := by
  cases e with
  | literal value => exact absurd rfl (hliteral value)
  | unary op operand ty => cases hsigned
  | _ => rfl

theorem Groups.continued (h : Groups name e) (hsigned : e.isSigned = false)
    (hliteral : ∀ value, e ≠ .literal value)
    (next : Form → Form) : (written name e).continued next = next (written name e) :=
  continued_of_isUnary (h.isUnary_eq.trans (needsParens_eq_false hsigned hliteral))

theorem isSound_baseForm {left : Typed.Expr} (h : Groups name left) (op : BinaryOp) :
    (baseForm op left (written name left)).isSound = true ∧
      (op = .power && (baseForm op left (written name left)).isUnary) = false := by
  have hsound := h.isSound
  have hunary := h.isUnary_eq
  rw [baseForm]
  split
  next => exact ⟨hsound, Bool.and_false _⟩
  next hparens =>
    rw [hunary]
    exact ⟨hsound, Bool.eq_false_iff.2 hparens⟩

theorem areSound_writtenAll {es : List Typed.Expr} (h : ∀ e ∈ es, Groups name e) :
    areSound (writtenAll name es) = true := by
  rw [areSound_iff, writtenAll_eq_map, List.forall_mem_map]
  intro e he
  exact (h e he).isSound

theorem areSound_writtenEntries {ps : List (Typed.Expr × Typed.Expr)}
    (h : ∀ p ∈ ps, Groups name p.1 ∧ Groups name p.2) :
    areSound (writtenEntries name ps) = true := by
  rw [areSound_iff, writtenEntries_eq_map, List.forall_mem_map]
  intro p hp
  simp only [isSound, areSound, (h p hp).1.isSound, (h p hp).2.isSound, Bool.and_self]

theorem groups_of_plain (hp : e.Plain) (hr : e.Ready fun id => (name id).IsName) :
    Groups name e := by
  induction e with
  | literal value =>
    exact ⟨isSound_signedAtom _, bare_signedAtom _, (signed_literal value).isUnary⟩
  | var id ty =>
    have hname := hr.1 id rfl
    exact ⟨hname.isSound, rfl, isUnary_of_isTight hname.isTight⟩
  | binary left op right ty ihl ihr =>
    have hl := ihl hp.2.1 hr.2.1
    have hr := ihr hp.2.2 hr.2.2
    obtain ⟨hbase, hpower⟩ := isSound_baseForm hl op
    refine ⟨?_, ?_, rfl⟩
    · simp only [written, isSound, hpower, hbase, hr.isSound, Bool.not_false, Bool.and_self]
    · simp only [written, shape, bare, bare_baseForm, hl.bare_eq, hr.bare_eq]
  | unary op operand ty ih =>
    have ho := ih hp.2 hr.2
    refine ⟨ho.isSound, ?_, rfl⟩
    simp only [written, shape, bare, ho.bare_eq]
  | conditional test consequent alternate ty iht ihc iha =>
    have ht := iht hp.2.1 hr.2.1
    have hc := ihc hp.2.2.1 hr.2.2.1
    have ha := iha hp.2.2.2 hr.2.2.2
    refine ⟨?_, ?_, rfl⟩
    · simp only [written, isSound, ht.isSound, hc.isSound, ha.isSound, Bool.and_self]
    · simp only [written, shape, bare, ht.bare_eq, hc.bare_eq, ha.bare_eq]
  | call callee args ty ihf ihs =>
    have hc := ihf hp.2.1 hr.2.1
    have has : ∀ e ∈ args, Groups name e := fun e he =>
      ihs e he (Typed.Expr.everyOf_iff.1 hp.2.2 e he) (Typed.Expr.everyOf_iff.1 hr.2.2 e he)
    have hform := hc.continued (hp.1 callee rfl) (hr.1.2 callee rfl)
    refine ⟨?_, ?_, ?_⟩
    · simp only [written, hform, isSound, hc.isSound, areSound_writtenAll has, Bool.and_self]
    · simp only [written, hform, shape, bare, hc.bare_eq, bareAll_writtenAll.2 fun e he =>
        (has e he).bare_eq]
    · simp only [written, hform]
      rfl
  | subscript indexed index ty iha ihi =>
    have ha := iha hp.2.1 hr.2.1
    have hi := ihi hp.2.2 hr.2.2
    have hform := ha.continued (hp.1 indexed rfl) (hr.1.2 indexed rfl)
    refine ⟨?_, ?_, ?_⟩
    · simp only [written, hform, isSound, ha.isSound, hi.isSound, Bool.and_self]
    · simp only [written, hform, shape, bare, ha.bare_eq, hi.bare_eq]
    · simp only [written, hform]
      rfl
  | array elements ty ihs =>
    have hes : ∀ e ∈ elements, Groups name e := fun e he =>
      ihs e he (Typed.Expr.everyOf_iff.1 hp.2 e he) (Typed.Expr.everyOf_iff.1 hr.2 e he)
    refine ⟨areSound_writtenAll hes, ?_, rfl⟩
    simp only [written, shape, bare, bareAll_writtenAll.2 fun e he => (hes e he).bare_eq]
  | dict entries ty ihs =>
    have hps : ∀ p ∈ entries, Groups name p.1 ∧ Groups name p.2 := by
      intro p hmem
      obtain ⟨hpk, hpv⟩ := Typed.Expr.everyEntry_iff.1 hp.2 p hmem
      obtain ⟨hrk, hrv⟩ := Typed.Expr.everyEntry_iff.1 hr.2 p hmem
      exact ⟨(ihs p hmem).1 hpk hrk, (ihs p hmem).2 hpv hrv⟩
    refine ⟨?_, ?_, rfl⟩
    · simp only [written, isSound, areSound, areSound_writtenEntries hps, Bool.and_self]
    · have hbare :=
        bareAll_writtenEntries.2 fun p hp => ⟨(hps p hp).1.bare_eq, (hps p hp).2.bare_eq⟩
      simp only [written, shape, bare, bareAll, hbare]

/-- The text of an expression has its structure exactly if nothing within is applied to a prefix
expression. -/
theorem written_iff (hr : e.Ready fun id => (name id).IsName) :
    (written name e).isSound = true ∧ (written name e).bare = shape name e ↔ e.Plain := by
  constructor
  · intro h
    exact plain_of_bare_written h.2
  · intro hp
    have h := groups_of_plain hp hr
    exact ⟨h.isSound, h.bare_eq⟩

structure Stands (name : EntityId → Form) (e : Typed.Expr) : Prop where
  isProper : (written name e).isProper = true
  isOperand : (written name e).isOperand = true
  isContinuable : (∀ value, e ≠ .literal value) → (written name e).isContinuable = true

theorem Stands.ofContinuable (hp : (written name e).isProper = true)
    (hc : (written name e).isContinuable = true) : Stands name e :=
  ⟨hp, isOperand_of_isContinuable hc, fun _ => hc⟩

theorem Stands.isContent (h : Stands name e) : (written name e).isContent = true :=
  isContent_of_isOperand h.isOperand

theorem Stands.isProper_group (h : Stands name e) : (Form.group (written name e)).isProper = true :=
  Bool.and_eq_true_iff.2 ⟨h.isContent, h.isProper⟩

theorem areProper_writtenAll {es : List Typed.Expr} (h : ∀ e ∈ es, Stands name e) :
    areProper (writtenAll name es) = true := by
  rw [areProper_iff, writtenAll_eq_map, List.forall_mem_map]
  intro e he
  exact (h e he).isProper

theorem isProper_baseForm {left : Typed.Expr} (h : Stands name left) (op : BinaryOp) :
    (baseForm op left (written name left)).isOperand = true ∧
      (baseForm op left (written name left)).isProper = true := by
  rw [baseForm]
  split
  next => exact ⟨rfl, h.isProper_group⟩
  next => exact ⟨h.isOperand, h.isProper⟩

theorem stands_of_ready (hr : e.Ready fun id => (name id).IsName) : Stands name e := by
  induction e with
  | literal value =>
    exact ⟨(signed_literal value).isProper, isOperand_signedAtom _,
      fun h => absurd rfl (h value)⟩
  | var id ty =>
    have hname := hr.1 id rfl
    exact .ofContinuable hname.isProper (isContinuable_of_isTight hname.isTight)
  | binary left op right ty ihl ihr =>
    have hl := isProper_baseForm (ihl hr.2.1) op
    have hr := ihr hr.2.2
    refine .ofContinuable ?_ rfl
    simp only [written, isProper, isContent, hl.1, hl.2, hr.isOperand, hr.isProper, Bool.and_self]
  | unary op operand ty ih =>
    have ho := ih hr.2
    refine .ofContinuable ?_ rfl
    exact Bool.and_eq_true_iff.2 ⟨rfl, ho.isProper_group⟩
  | conditional test consequent alternate ty iht ihc iha =>
    have ht := (iht hr.2.1).isProper_group
    have hc := (ihc hr.2.2.1).isProper_group
    have ha := (iha hr.2.2.2).isProper_group
    refine .ofContinuable ?_ rfl
    have hproper : (Form.conditional (.group (written name test)) (.group (written name consequent))
        (.group (written name alternate))).isProper = true := by
      rw [isProper, ht, hc, ha]
      rfl
    exact Bool.and_eq_true_iff.2 ⟨rfl, hproper⟩
  | call callee args ty ihf ihs =>
    have hc := ihf hr.2.1
    have has : ∀ e ∈ args, Stands name e :=
      fun e he => ihs e he (Typed.Expr.everyOf_iff.1 hr.2.2 e he)
    have hcallee := hc.isContinuable (hr.1.2 callee rfl)
    refine .ofContinuable (isProper_continued hc.isProper hcallee (fun _ => rfl) ?_)
      (isContinuable_continued fun _ => rfl)
    intro x ht hx
    rw [isProper, ht, hx, areProper_writtenAll has]
    rfl
  | subscript indexed index ty iha ihi =>
    have ha := iha hr.2.1
    have hi := ihi hr.2.2
    have hindexed := ha.isContinuable (hr.1.2 indexed rfl)
    refine .ofContinuable (isProper_continued ha.isProper hindexed (fun _ => rfl) ?_)
      (isContinuable_continued fun _ => rfl)
    intro x ht hx
    rw [isProper, ht, hx, hi.isContent, hi.isProper]
    rfl
  | array elements ty ihs =>
    have hes : ∀ e ∈ elements, Stands name e :=
      fun e he => ihs e he (Typed.Expr.everyOf_iff.1 hr.2 e he)
    exact .ofContinuable (areProper_writtenAll hes) rfl
  | dict entries ty ihs =>
    have hps : areProper (writtenEntries name entries) = true := by
      rw [areProper_iff, writtenEntries_eq_map, List.forall_mem_map]
      intro p hp
      obtain ⟨hk, hv⟩ := Typed.Expr.everyEntry_iff.1 hr.2 p hp
      simp only [isProper, areProper, ((ihs p hp).1 hk).isProper,
        ((ihs p hp).2 hv).isProper, Bool.and_self]
    have hmap : name? ['M', 'a', 'p'] = some (['M', 'a', 'p'], []) := by decide +kernel
    refine .ofContinuable ?_ rfl
    simp only [written, isProper, areProper, hps, hmap, decide_true, Bool.and_self]

/-- The text of an expression is read with its structure exactly if nothing within is applied to a
prefix expression. -/
theorem read?_written_iff (hr : e.Ready fun id => (name id).IsName) :
    (read? (written name e).string).map bare = some (shape name e) ↔ e.Plain := by
  have h := stands_of_ready hr
  rw [read?_string h.isProper h.isContent, ← written_iff hr]
  cases (written name e).isSound <;> simp

end Grouping

section Methods

def methodName : Typed.Method → List Char
  | .arrayAdd => ['p', 'u', 's', 'h']
  | .arrayInsert | .arrayDelete => ['s', 'p', 'l', 'i', 'c', 'e']
  | .dictSet => ['s', 'e', 't']
  | .dictDelete => ['d', 'e', 'l', 'e', 't', 'e']

/-- What a method is called with. An element is inserted in place of none, and one is deleted. -/
def methodArgs {α : Type} (none one : α) : Typed.Method → List α → List α
  | .arrayInsert, index :: values => index :: none :: values
  | .arrayDelete, indices => indices ++ [one]
  | _, args => args

def applied (m : Typed.Method) (args : List Form) (object : Form) : Form :=
  .call (.member object (methodName m)) (methodArgs (.atom ['0']) (.atom ['1']) m args)

section Args

variable {α β : Type} {none one : α} {xs ys : List α} {m : Typed.Method}

theorem map_methodArgs (f : α → β) :
    (methodArgs none one m xs).map f = methodArgs (f none) (f one) m (xs.map f) := by
  cases m with
  | arrayInsert => cases xs <;> rfl
  | arrayDelete => simp [methodArgs]
  | _ => rfl

theorem methodArgs_inj : methodArgs none one m xs = methodArgs none one m ys ↔ xs = ys := by
  cases m with
  | arrayInsert => cases xs <;> cases ys <;> simp [methodArgs]
  | arrayDelete => simp [methodArgs]
  | _ => rfl

theorem forall_mem_methodArgs {P : α → Prop} (hnone : P none) (hone : P one) :
    (∀ x ∈ methodArgs none one m xs, P x) ↔ ∀ x ∈ xs, P x := by
  cases m with
  | arrayInsert => cases xs <;> simp [methodArgs, hnone]
  | arrayDelete =>
    rw [methodArgs, List.forall_mem_append]
    exact and_iff_left (List.forall_mem_singleton.2 hone)
  | _ => rfl

end Args

variable {name : EntityId → Form} {object : Typed.Expr} {args : List Typed.Expr}
  {m : Typed.Method} {fs gs : List Form}

theorem bare_applied (m : Typed.Method) (fs : List Form) (f : Form) :
    (applied m fs f).bare = applied m (bareAll fs) f.bare := by
  simp only [applied, bare, bareAll_eq_map, map_methodArgs]

theorem isSound_applied (m : Typed.Method) (fs : List Form) (f : Form) :
    (applied m fs f).isSound = (f.isSound && areSound fs) := by
  have hargs : areSound (methodArgs (.atom ['0']) (.atom ['1']) m fs) = areSound fs := by
    rw [Bool.eq_iff_iff, areSound_iff, areSound_iff]
    exact forall_mem_methodArgs rfl rfl
  rw [applied, isSound, isSound, hargs]

theorem isProper_applied {f : Form} (ht : f.isTight = true) (hf : f.isProper = true)
    (hfs : areProper fs = true) : (applied m fs f).isProper = true := by
  have hword : Pattern.word.split? (methodName m) = some (methodName m, []) := by
    cases m <;> decide +kernel
  have hargs : areProper (methodArgs (.atom ['0']) (.atom ['1']) m fs) = true := by
    rw [areProper_iff] at hfs ⊢
    exact (forall_mem_methodArgs (by decide +kernel) (by decide +kernel)).2 hfs
  simp only [applied, isProper, ht, hf, hword, hargs, decide_true, Bool.and_self]
  rfl

theorem applied_inj {f g : Form} : applied m fs f = applied m gs g ↔ f = g ∧ fs = gs := by
  simp only [applied, call.injEq, member.injEq, and_true, methodArgs_inj]

theorem continued_applied_iff {f g : Form} :
    (f.continued (applied m fs)).isSound = true ∧
      (f.continued (applied m fs)).bare = applied m gs g ↔
      (f.continued (.call · fs)).isSound = true ∧
      (f.continued (.call · fs)).bare = .call g gs := by
  cases hf : f.isUnary with
  | true =>
    refine iff_of_false ?_ ?_
    all_goals
      rintro ⟨-, h⟩
      have hplain := isUnary_of_bare_continued h rfl
      rw [hf] at hplain
      cases hplain
  | false =>
    rw [continued_of_isUnary hf, continued_of_isUnary hf, bare_applied, applied_inj, bare,
      call.injEq, isSound_applied, isSound]

theorem isProper_method
    (hr : (Typed.Expr.call object args .void).Ready fun id => (name id).IsName) :
    ((written name object).continued (applied m (writtenAll name args))).isProper = true ∧
      ((written name object).continued (applied m (writtenAll name args))).isContent = true := by
  have ho : Stands name object := stands_of_ready hr.2.1
  have has : ∀ e ∈ args, Stands name e :=
    fun e he => stands_of_ready (Typed.Expr.everyOf_iff.1 hr.2.2 e he)
  have hobject := ho.isContinuable (hr.1.2 object rfl)
  have hcontinuable :
      ((written name object).continued (applied m (writtenAll name args))).isContinuable = true :=
    isContinuable_continued fun _ => rfl
  refine ⟨isProper_continued ho.isProper hobject (fun _ => rfl) ?_,
    isContent_of_isOperand (isOperand_of_isContinuable hcontinuable)⟩
  intro x ht hx
  exact isProper_applied ht hx (areProper_writtenAll has)

theorem read?_method_iff
    (hr : (Typed.Expr.call object args .void).Ready fun id => (name id).IsName) :
    (read? ((written name object).continued (applied m (writtenAll name args))).string).map bare =
        some (applied m (shapes name args) (shape name object)) ↔
        (Typed.Expr.call object args .void).Plain := by
  obtain ⟨hproper, hcontent⟩ := isProper_method (m := m) hr
  rw [read?_string hproper hcontent, ← written_iff hr, written, shape, ← continued_applied_iff]
  cases ((written name object).continued (applied m (writtenAll name args))).isSound <;> simp

end Methods

end Scriptor.Script
