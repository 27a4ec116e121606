import Scriptor.Proofs.Form.Atoms

namespace Scriptor.Script.Form

open Pattern (Split isWordPart isWordStart run)

@[elab_as_elim, induction_eliminator]
theorem induct {motive : Form → Prop}
    (atom : ∀ text, motive (.atom text))
    (group : ∀ inner, motive inner → motive (.group inner))
    (unary : ∀ op operand, motive operand → motive (.unary op operand))
    (binary : ∀ left op right, motive left → motive right → motive (.binary left op right))
    (conditional : ∀ test consequent alternate, motive test → motive consequent →
      motive alternate → motive (.conditional test consequent alternate))
    (call : ∀ callee args, motive callee → (∀ f ∈ args, motive f) →
      motive (.call callee args))
    (subscript : ∀ indexed index, motive indexed → motive index →
      motive (.subscript indexed index))
    (member : ∀ object property, motive object → motive (.member object property))
    (array : ∀ elements, (∀ f ∈ elements, motive f) → motive (.array elements))
    (construct : ∀ name args, (∀ f ∈ args, motive f) → motive (.construct name args))
    (arrow : ∀ parameter body, motive body → motive (.arrow parameter body))
    (spread : ∀ list, motive list → motive (.spread list))
    (f : Form) : motive f :=
  @Form.rec motive (fun fs => ∀ f ∈ fs, motive f) atom group unary binary conditional call
    subscript member array construct arrow spread (List.forall_mem_nil _)
    (fun _ _ h hs => List.forall_mem_cons.2 ⟨h, hs⟩) f

mutual

@[simp] def text : Form → List Char
  | .atom text => text
  | .group inner => '(' :: (inner.text ++ [')'])
  | .unary op operand => op.symbol.toList ++ operand.text
  | .binary left op right => left.text ++ ' ' :: ((symbol op).toList ++ ' ' :: right.text)
  | .conditional test consequent alternate =>
    test.text ++ ' ' :: '?' :: ' ' :: (consequent.text ++ ' ' :: ':' :: ' ' :: alternate.text)
  | .call callee args => callee.text ++ '(' :: (textAll args ++ [')'])
  | .subscript indexed index => indexed.text ++ '[' :: (index.text ++ [']'])
  | .member object property => object.text ++ '.' :: property
  | .array elements => '[' :: (textAll elements ++ [']'])
  | .construct name args => 'n' :: 'e' :: 'w' :: ' ' :: (name ++ '(' :: (textAll args ++ [')']))
  | .arrow parameter body => '(' :: (parameter ++ ')' :: ' ' :: '=' :: '>' :: ' ' :: body.text)
  | .spread list => '.' :: '.' :: '.' :: list.text

@[simp] def textAll : List Form → List Char
  | [] => []
  | [f] => f.text
  | f :: fs => f.text ++ ',' :: ' ' :: textAll fs

end

def string (f : Form) : String := String.ofList f.text

theorem toList_string (f : Form) : f.string.toList = f.text := String.toList_ofList

/-- Whether the form can be continued by a call, a subscript or a member. -/
def isTight : Form → Bool
  | .atom text => name? text = some (text, [])
  | .group _ | .call _ _ | .subscript _ _ | .member _ _ | .array _ | .construct _ _ => true
  | _ => false

/-- Whether the form can be the operand of a prefix operator. -/
def isSimple : Form → Bool
  | .atom _ => true
  | f => f.isTight

/-- Whether the form can be the operand of any other operator. -/
def isOperand : Form → Bool
  | .unary _ _ => true
  | f => f.isSimple

def isContent : Form → Bool
  | .spread _ => false
  | _ => true

mutual

/-- Whether all parts of the form may stand where they stand. -/
@[simp] def isProper : Form → Bool
  | .atom text => atom? text = some (text, [])
  | .group inner => inner.isContent && inner.isProper
  | .unary _ operand => operand.isSimple && operand.isProper
  | .binary left _ right => left.isOperand && right.isOperand && left.isProper && right.isProper
  | .conditional test consequent alternate =>
    test.isOperand && consequent.isOperand && alternate.isOperand && test.isProper &&
      consequent.isProper && alternate.isProper
  | .call callee args => callee.isTight && callee.isProper && areProper args
  | .subscript indexed index =>
    indexed.isTight && index.isContent && indexed.isProper && index.isProper
  | .member object property =>
    object.isTight && object.isProper && Pattern.word.split? property = some (property, [])
  | .array elements => areProper elements
  | .construct name args => name? name = some (name, []) && areProper args
  | .arrow parameter body =>
    name? parameter = some (parameter, []) && body.isContent && body.isProper
  | .spread list => list.isContent && list.isProper

@[simp] def areProper : List Form → Bool
  | [] => true
  | f :: fs => f.isProper && areProper fs

end

theorem areProper_iff {fs : List Form} :
    areProper fs = true ↔ ∀ f ∈ fs, f.isProper = true := by
  induction fs with
  | nil => exact iff_of_true rfl (List.forall_mem_nil _)
  | cons f fs ih => rw [areProper, Bool.and_eq_true, ih, List.forall_mem_cons]

section Rules

variable {n least : Nat} {cs cs₁ cs₂ rest : List Char} {f g h : Form}
  {fs : List Form} {op : BinaryOp}

/-- Where operators end. -/
def EndsOperation (rest : List Char) : Prop :=
  EndsWord rest ∧ ∀ c ∈ (skip rest).head?, c ∈ ['?', ':', ')', ']', ',']

def EndsContent (rest : List Char) : Prop :=
  EndsWord rest ∧ ∀ c ∈ (skip rest).head?, c ∈ [':', ')', ']', ',']

theorem EndsContent.operation (h : EndsContent rest) : EndsOperation rest :=
  ⟨h.1, fun c hc => List.mem_cons_of_mem _ (h.2 c hc)⟩

theorem EndsOperation.operand (h : EndsOperation rest) : EndsOperand rest := by
  refine ⟨h.1, ?_⟩
  intro c hc hmem
  have hend := h.2 c hc
  simp only [List.mem_cons, List.not_mem_nil, or_false] at hend hmem
  rcases hmem with rfl | rfl | rfl <;> simp at hend

theorem EndsOperation.operator?_eq_none (h : EndsOperation rest) :
    operator? (skip rest) = none := by
  cases hrest : skip rest with
  | nil => decide
  | cons c cs =>
    have hend := h.2 c (by rw [hrest]; rfl)
    simp only [List.mem_cons, List.not_mem_nil, or_false] at hend
    rcases hend with rfl | rfl | rfl | rfl | rfl <;> rfl

theorem EndsOperation.literal_eq_none (h : EndsOperation rest) :
    Pattern.literal [' ', '=', '>', ' '] rest = none := by
  rcases rest with - | ⟨c, rest⟩
  · rfl
  · by_cases hc : ' ' = c
    · subst hc
      rcases rest with - | ⟨d, rest⟩
      · rfl
      · have hd : '=' ≠ d := by
          rintro rfl
          exact absurd (h.2 '=' rfl) (by decide)
        simp [Pattern.literal, hd]
    · simp [Pattern.literal, hc]

theorem content_of_operation (h : operation n 0 cs = some (f, rest)) (hrest : EndsContent rest) :
    content (n + 1) cs = some (f, rest) := by
  have hquestion : ∀ cs, skip rest ≠ '?' :: cs := by
    intro cs hcs
    exact absurd (hrest.2 '?' (by rw [hcs]; rfl)) (by decide)
  simp only [content, h, hrest.operation.literal_eq_none, Option.bind_eq_bind, Option.bind_some]
  split
  next => contradiction
  next => rfl

theorem content_conditional (hf : operation n 0 cs = some (f, ' ' :: '?' :: cs₁))
    (hg : content n cs₁ = some (g, ' ' :: ':' :: cs₂)) (hh : content n cs₂ = some (h, rest)) :
    content (n + 1) cs = some (.conditional f g h, rest) := by
  have harrow : Pattern.literal [' ', '=', '>', ' '] (' ' :: '?' :: cs₁) = none := rfl
  have hcolon : skip (' ' :: ':' :: cs₂) = ':' :: cs₂ := rfl
  have hquestion : skip (' ' :: '?' :: cs₁) = '?' :: cs₁ := rfl
  simp only [content, hf, harrow, hquestion, Option.bind_eq_bind, Option.bind_some, hg, hcolon, hh]
  cases parameter? f <;> rfl

theorem content_arrow {parameter : List Char} (hname : name? parameter = some (parameter, []))
    (hf : operation n 0 cs = some (.group (.atom parameter), ' ' :: '=' :: '>' :: ' ' :: cs₁))
    (hg : content n cs₁ = some (g, rest)) :
    content (n + 1) cs = some (.arrow parameter g, rest) := by
  have hparameter : parameter? (.group (.atom parameter)) = some parameter := by
    rw [parameter?, hname]
    rfl
  have harrow : Pattern.literal [' ', '=', '>', ' '] (' ' :: '=' :: '>' :: ' ' :: cs₁) =
      some ([' ', '=', '>', ' '], cs₁) := rfl
  simp only [content, hf, hparameter, harrow, Option.bind_eq_bind, Option.bind_some, hg]
  rfl

theorem operation_of_operand (h : operand n cs = some (f, cs₁)) :
    operation (n + 1) least cs = operate n least f cs₁ := by
  simp only [operation, h, Option.bind_eq_bind, Option.bind_some]

theorem operate_of_endsOperation (h : EndsOperation rest) :
    operate (n + 1) least f rest = some (f, rest) := by
  simp only [operate, h.operator?_eq_none]

theorem operate_binary (hop : operator? (skip cs) = some (op, cs₁)) (hle : least ≤ rank op)
    (hg : operation n (rightRank op) cs₁ = some (g, cs₂)) :
    operate (n + 1) least f cs = operate n least (.binary f op g) cs₂ := by
  simp only [operate, hop, hle, if_true, hg, Option.bind_eq_bind, Option.bind_some]

theorem operand_sign {sign : UnaryOp} (hs : sign? (skip cs) = some (sign, cs₁))
    (hf : operand n cs₁ = some (f, rest)) : operand (n + 1) cs = some (.unary sign f, rest) := by
  simp only [operand, hs, hf, Option.bind_eq_bind, Option.bind_some]
  rfl

theorem operand_tight (hs : sign? (skip cs) = none) : operand (n + 1) cs = tight n cs := by
  simp only [operand, hs]

theorem tight_of_primary (h : primary n cs = some (f, cs₁)) :
    tight (n + 1) cs = extend n f cs₁ := by
  simp only [tight, h, Option.bind_eq_bind, Option.bind_some]

theorem extend_call (h : items n ')' cs = some (fs, rest)) :
    extend (n + 1) f ('(' :: cs) = extend n (.call f fs) rest := by
  have hskip : skip ('(' :: cs) = '(' :: cs := rfl
  simp only [extend, hskip, h, Option.bind_eq_bind, Option.bind_some]

theorem extend_subscript (h : content n cs = some (g, ']' :: rest)) :
    extend (n + 1) f ('[' :: cs) = extend n (.subscript f g) rest := by
  have hskip : skip ('[' :: cs) = '[' :: cs := rfl
  have hclose : skip (']' :: rest) = ']' :: rest := rfl
  simp only [extend, hskip, h, hclose, Option.bind_eq_bind, Option.bind_some]

theorem extend_member {property : List Char} (h : Pattern.word.split? cs = some (property, rest)) :
    extend (n + 1) f ('.' :: cs) = extend n (.member f property) rest := by
  have hskip : skip ('.' :: cs) = '.' :: cs := rfl
  simp only [extend, hskip, h, Option.bind_eq_bind, Option.bind_some]

theorem extend_of_endsOperand (h : EndsOperand rest) : extend (n + 1) f rest = some (f, rest) := by
  simp only [extend]
  split
  next hskip => exact absurd (h.2 '(' (by rw [hskip]; rfl)) (by decide)
  next hskip => exact absurd (h.2 '[' (by rw [hskip]; rfl)) (by decide)
  next hskip => exact absurd (h.2 '.' (by rw [hskip]; rfl)) (by decide)
  next => rfl

theorem primary_group (h : content n cs = some (f, ')' :: rest)) :
    primary (n + 1) ('(' :: cs) = some (.group f, rest) := by
  have hskip : skip ('(' :: cs) = '(' :: cs := rfl
  have hclose : skip (')' :: rest) = ')' :: rest := rfl
  simp only [primary, hskip, h, hclose, Option.bind_eq_bind, Option.bind_some]
  rfl

theorem primary_array (h : items n ']' cs = some (fs, rest)) :
    primary (n + 1) ('[' :: cs) = some (.array fs, rest) := by
  have hskip : skip ('[' :: cs) = '[' :: cs := rfl
  simp only [primary, hskip, h, Option.bind_eq_bind, Option.bind_some]
  rfl

theorem primary_construct {name : List Char} (hname : name? cs = some (name, '(' :: cs₁))
    (h : items n ')' cs₁ = some (fs, rest)) :
    primary (n + 1) ('n' :: 'e' :: 'w' :: ' ' :: cs) = some (.construct name fs, rest) := by
  have hskip : skip ('n' :: 'e' :: 'w' :: ' ' :: cs) = 'n' :: 'e' :: 'w' :: ' ' :: cs := rfl
  simp only [primary, hskip, hname, h, Option.bind_eq_bind, Option.bind_some]
  rfl

theorem primary_atom {c : Char} {atom : List Char} (hc : c ∉ [' ', '(', '['])
    (hnew : ∀ cs₁, c :: cs ≠ 'n' :: 'e' :: 'w' :: ' ' :: cs₁)
    (h : atom? (c :: cs) = some (atom, rest)) :
    primary (n + 1) (c :: cs) = some (.atom atom, rest) := by
  simp only [List.mem_cons, List.not_mem_nil, or_false, not_or] at hc
  simp only [primary, skip_cons hc.1]
  split
  next heq => exact absurd (List.cons.inj heq).1 hc.2.1
  next heq => exact absurd (List.cons.inj heq).1 hc.2.2
  next heq => exact absurd heq (hnew _)
  next => rw [h]; rfl

theorem items_nil {closing : Char} (hc : closing ≠ ' ') :
    items (n + 1) closing (closing :: rest) = some ([], rest) := by
  simp only [items, skip_cons hc, List.head?_cons, if_true, List.drop_succ_cons, List.drop_zero]

theorem items_last {c closing : Char} (hc : c ∉ [' ', closing])
    (hclosing : closing ∉ [' ', ',']) (h : item n (c :: cs) = some (f, closing :: rest)) :
    items (n + 1) closing (c :: cs) = some ([f], rest) := by
  simp only [List.mem_cons, List.not_mem_nil, or_false, not_or] at hc hclosing
  have hhead : ¬(c :: cs).head? = some closing := fun heq => hc.2 (Option.some.inj heq)
  simp only [items, skip_cons hc.1, hhead, if_false, h, skip_cons hclosing.1, Option.bind_eq_bind,
    Option.bind_some]
  split
  next heq => exact absurd (List.cons.inj heq).1 hclosing.2
  next heq =>
    cases heq
    exact if_pos rfl
  next heq => cases heq

theorem items_cons {c closing : Char} (hc : c ∉ [' ', closing])
    (h : item n (c :: cs) = some (f, ',' :: cs₁))
    (hfs : items n closing cs₁ = some (fs, rest)) :
    items (n + 1) closing (c :: cs) = some (f :: fs, rest) := by
  simp only [List.mem_cons, List.not_mem_nil, or_false, not_or] at hc
  have hhead : ¬(c :: cs).head? = some closing := fun heq => hc.2 (Option.some.inj heq)
  have hcomma : skip (',' :: cs₁) = ',' :: cs₁ := rfl
  simp only [items, skip_cons hc.1, hhead, if_false, h, hcomma, hfs, Option.bind_eq_bind,
    Option.bind_some]
  rfl

theorem item_spread (h : content n cs = some (f, rest)) :
    item (n + 1) ('.' :: '.' :: '.' :: cs) = some (.spread f, rest) := by
  simp only [item, h, Option.bind_eq_bind, Option.bind_some]
  rfl

theorem item_content {c : Char} (hc : c ≠ '.') :
    item (n + 1) (c :: cs) = content n (c :: cs) := by
  rw [item]
  intro cs₁ heq
  exact hc (List.cons.inj heq).1

end Rules

section Blanks

variable {n least : Nat} {cs : List Char}

theorem primary_blank : primary n (' ' :: cs) = primary n cs := by
  cases n <;> simp only [primary, skip_blank]

theorem tight_blank : tight n (' ' :: cs) = tight n cs := by
  cases n <;> simp only [tight, primary_blank]

theorem operand_blank : operand n (' ' :: cs) = operand n cs := by
  cases n <;> simp only [operand, skip_blank, tight_blank]

theorem operation_blank : operation n least (' ' :: cs) = operation n least cs := by
  cases n <;> simp only [operation, operand_blank]

theorem content_blank : content n (' ' :: cs) = content n cs := by
  cases n <;> simp only [content, operation_blank]

theorem items_blank {closing : Char} : items n closing (' ' :: cs) = items n closing cs := by
  cases n <;> rfl

end Blanks

def opens (c : Char) : Bool :=
  c.isDigit || c == '"' || isWordStart c || c == '(' || c == '['

theorem opens_of_atom? {text : List Char} (h : atom? text = some (text, [])) :
    ∃ c cs, text = c :: cs ∧ opens c = true ∧ c ∉ ['(', '['] := by
  obtain ⟨c, cs, rfl, hc⟩ := atom?_cons h
  refine ⟨c, cs, rfl, ?_, ?_⟩
  · rcases hc with hc | rfl | hc
    · simp [opens, hc]
    · rfl
    · simp [opens, hc]
  · simp only [List.mem_cons, List.not_mem_nil, or_false]
    rintro (rfl | rfl) <;> simp [isWordStart] at hc

theorem ne_of_opens {c d : Char} (h : opens c = true) (hd : opens d = false) : c ≠ d := by
  rintro rfl
  rw [h] at hd
  cases hd

theorem sign?_eq_none {c : Char} {cs : List Char} (h : opens c = true) :
    sign? (c :: cs) = none := by
  rw [sign?]
  · intro ds heq
    exact ne_of_opens h (by decide) (List.cons.inj heq).1
  · intro ds heq
    exact ne_of_opens h (by decide) (List.cons.inj heq).1

theorem isSimple_of_isTight {f : Form} (h : f.isTight = true) : f.isSimple = true := by
  cases f with
  | atom text => rfl
  | _ => exact h

theorem isOperand_of_isSimple {f : Form} (h : f.isSimple = true) : f.isOperand = true := by
  cases f with
  | unary op operand => rfl
  | _ => exact h

theorem isContent_of_isOperand {f : Form} (h : f.isOperand = true) : f.isContent = true := by
  cases f with
  | spread list => cases h
  | _ => rfl

theorem text_cons_of_isSimple {f : Form} (hp : f.isProper = true) (hs : f.isSimple = true) :
    ∃ c cs, f.text = c :: cs ∧ opens c = true := by
  induction f with
  | atom text =>
    obtain ⟨c, cs, rfl, hc, -⟩ := opens_of_atom? (of_decide_eq_true hp)
    exact ⟨c, cs, rfl, hc⟩
  | group inner => exact ⟨_, _, rfl, rfl⟩
  | call callee args ih =>
    simp only [isProper, Bool.and_eq_true] at hp
    obtain ⟨c, cs, hcs, hc⟩ := ih hp.1.2 (isSimple_of_isTight hp.1.1)
    exact ⟨c, _, by rw [text, hcs]; rfl, hc⟩
  | subscript indexed index ih =>
    simp only [isProper, Bool.and_eq_true] at hp
    obtain ⟨c, cs, hcs, hc⟩ := ih hp.1.2 (isSimple_of_isTight hp.1.1.1)
    exact ⟨c, _, by rw [text, hcs]; rfl, hc⟩
  | member object property ih =>
    simp only [isProper, Bool.and_eq_true] at hp
    obtain ⟨c, cs, hcs, hc⟩ := ih hp.1.2 (isSimple_of_isTight hp.1.1)
    exact ⟨c, _, by rw [text, hcs]; rfl, hc⟩
  | array elements => exact ⟨_, _, rfl, rfl⟩
  | construct name args => exact ⟨_, _, rfl, rfl⟩
  | unary | binary | conditional | arrow | spread => cases hs

theorem text_cons_of_isOperand {f : Form} (hp : f.isProper = true) (hs : f.isOperand = true) :
    ∃ c cs, f.text = c :: cs ∧ (opens c = true ∨ c ∈ ['-', '!']) := by
  cases f with
  | unary op operand =>
    cases op with
    | negate => exact ⟨'-', _, rfl, .inr (by decide)⟩
    | not => exact ⟨'!', _, rfl, .inr (by decide)⟩
  | _ =>
    obtain ⟨c, cs, hcs, hc⟩ := text_cons_of_isSimple hp hs
    exact ⟨c, cs, hcs, .inl hc⟩

theorem text_cons_of_isContent {f : Form} (hp : f.isProper = true) (hs : f.isContent = true) :
    ∃ c cs, f.text = c :: cs ∧ (opens c = true ∨ c ∈ ['-', '!']) := by
  cases f with
  | binary left op right =>
    simp only [isProper, Bool.and_eq_true] at hp
    obtain ⟨c, cs, hcs, hc⟩ := text_cons_of_isOperand hp.1.2 hp.1.1.1
    exact ⟨c, _, by rw [text, hcs]; rfl, hc⟩
  | conditional test consequent alternate =>
    simp only [isProper, Bool.and_eq_true] at hp
    obtain ⟨c, cs, hcs, hc⟩ := text_cons_of_isOperand hp.1.1.2 hp.1.1.1.1.1
    exact ⟨c, _, by rw [text, hcs]; rfl, hc⟩
  | arrow parameter body => exact ⟨'(', _, rfl, .inl rfl⟩
  | spread list => cases hs
  | unary op operand => exact text_cons_of_isOperand hp rfl
  | _ => exact text_cons_of_isOperand hp hs

section Reads

variable {f g h : Form}

/-- The reader comes to the end of a tight form and may continue it. The bounds leave room for the
steps between. -/
def TightReads (f : Form) : Prop :=
  ∀ n rest, EndsWord rest → 8 * f.text.length ≤ n + 4 →
    ∃ m, n ≤ m + f.text.length ∧ tight n (f.text ++ rest) = extend m f rest

def OperandReads (f : Form) : Prop :=
  ∀ n rest, EndsOperand rest → 8 * f.text.length ≤ n + 3 →
    operand n (f.text ++ rest) = some (f, rest)

def ContentReads (f : Form) : Prop :=
  ∀ n rest, EndsContent rest → 8 * f.text.length ≤ n →
    content n (f.text ++ rest) = some (f, rest)

theorem TightReads.operand (hf : TightReads f) (hp : f.isProper = true) (hs : f.isTight = true) :
    OperandReads f := by
  intro n rest hrest hn
  obtain ⟨c, cs, hcs, hc⟩ := text_cons_of_isSimple hp (isSimple_of_isTight hs)
  have hlength : 0 < f.text.length := by simp [hcs]
  obtain ⟨n, rfl⟩ : ∃ k, n = k + 1 := ⟨n - 1, by omega⟩
  have hsign : sign? (skip (f.text ++ rest)) = none := by
    rw [hcs, List.cons_append, skip_cons (ne_of_opens hc (by decide)), sign?_eq_none hc]
  obtain ⟨m, hm, hread⟩ := hf n rest hrest.1 (by omega)
  obtain ⟨m, rfl⟩ : ∃ k, m = k + 1 := ⟨m - 1, by omega⟩
  rw [operand_tight hsign, hread, extend_of_endsOperand hrest]

theorem OperandReads.operation (hf : OperandReads f) (hlength : 0 < f.text.length) (n least : Nat)
    (rest : List Char) (hrest : EndsOperand rest) (hop : operator? (skip rest) = none)
    (hn : 8 * f.text.length ≤ n + 2) :
    Form.operation n least (f.text ++ rest) = some (f, rest) := by
  obtain ⟨n, rfl⟩ : ∃ k, n = k + 1 := ⟨n - 1, by omega⟩
  rw [operation_of_operand (hf n rest hrest (by omega))]
  obtain ⟨n, rfl⟩ : ∃ k, n = k + 1 := ⟨n - 1, by omega⟩
  simp only [operate, hop]

theorem OperandReads.content (hf : OperandReads f) (hlength : 0 < f.text.length) :
    ContentReads f := by
  intro n rest hrest hn
  obtain ⟨n, rfl⟩ : ∃ k, n = k + 1 := ⟨n - 1, by omega⟩
  have hoperation := hrest.operation
  exact content_of_operation
    (hf.operation hlength n 0 rest hoperation.operand hoperation.operator?_eq_none (by omega)) hrest

theorem primary_atom_append {n : Nat} {text rest : List Char} (h : atom? text = some (text, []))
    (hread : atom? (text ++ rest) = some (text, rest)) (hrest : EndsWord rest) :
    primary (n + 1) (text ++ rest) = some (.atom text, rest) := by
  have hnew := atom_append_ne_new h hrest
  obtain ⟨c, cs, rfl, hc, hopen⟩ := opens_of_atom? h
  have hstart : c ∉ [' ', '(', '['] :=
    List.not_mem_cons_of_ne_of_not_mem (ne_of_opens hc (by decide)) hopen
  exact primary_atom hstart hnew hread

theorem tightReads_atom {name : List Char} (h : name? name = some (name, [])) :
    TightReads (.atom name) := by
  intro n rest hrest hn
  obtain ⟨c, cs, hcs, -⟩ := name?_cons h
  have hlength : 0 < name.length := by simp [hcs]
  simp only [text] at hn ⊢
  obtain ⟨n, rfl⟩ : ∃ k, n = k + 2 := ⟨n - 2, by omega⟩
  have hprimary := primary_atom_append (n := n) (atom?_of_name? h) (name_atom?_append h hrest) hrest
  exact ⟨n + 1, by omega, tight_of_primary hprimary⟩

theorem operandReads_atom {atom : List Char} (h : atom? atom = some (atom, [])) :
    OperandReads (.atom atom) := by
  intro n rest hrest hn
  obtain ⟨c, cs, hcs, hc⟩ := text_cons_of_isSimple (f := .atom atom) (decide_eq_true h) rfl
  have hlength : 0 < atom.length := by simp [show atom = c :: cs from hcs]
  simp only [text] at hn hcs ⊢
  obtain ⟨n, rfl⟩ : ∃ k, n = k + 3 := ⟨n - 3, by omega⟩
  have hsign : sign? (skip (atom ++ rest)) = none := by
    rw [hcs, List.cons_append, skip_cons (ne_of_opens hc (by decide)), sign?_eq_none hc]
  rw [operand_tight hsign, tight_of_primary (primary_atom_append h (atom?_append h hrest) hrest.1),
    extend_of_endsOperand hrest]

theorem endsContent_of_mem {c : Char} {cs : List Char} (hc : c ∈ [':', ')', ']', ',']) :
    EndsContent (c :: cs) := by
  have hblank : c ≠ ' ' := by
    rintro rfl
    exact absurd hc (by decide)
  constructor
  · intro d hd
    cases hd
    simp only [List.mem_cons, List.not_mem_nil, or_false] at hc
    rcases hc with rfl | rfl | rfl | rfl <;> rfl
  · intro d hd
    rw [skip_cons hblank] at hd
    cases hd
    exact hc

theorem endsOperand_blank {c : Char} {cs : List Char} (hc : c ∉ [' ', '(', '[', '.']) :
    EndsOperand (' ' :: c :: cs) := by
  rw [List.mem_cons, not_or] at hc
  constructor
  · rintro d ⟨⟩
    rfl
  · rw [skip_blank, skip_cons hc.1]
    rintro d ⟨⟩
    exact hc.2

theorem tightReads_group (hf : ContentReads f) : TightReads (.group f) := by
  intro n rest hrest hn
  simp only [text, List.length_cons, List.length_append, List.length_nil, List.cons_append,
    List.append_assoc, List.nil_append] at hn ⊢
  obtain ⟨n, rfl⟩ : ∃ k, n = k + 2 := ⟨n - 2, by omega⟩
  have hinner := hf n (')' :: rest) (endsContent_of_mem (by decide)) (by omega)
  exact ⟨n + 1, by omega, tight_of_primary (primary_group hinner)⟩

def ItemReads (f : Form) : Prop :=
  ∀ n rest, EndsContent rest → 8 * f.text.length < n →
    item n (f.text ++ rest) = some (f, rest)

theorem ContentReads.item (hf : ContentReads f) (hp : f.isProper = true) (hs : f.isContent = true) :
    ItemReads f := by
  intro n rest hrest hn
  obtain ⟨c, cs, hcs, hc⟩ := text_cons_of_isContent hp hs
  have hpoint : c ≠ '.' := by
    rintro rfl
    simp [opens, isWordStart] at hc
  obtain ⟨n, rfl⟩ : ∃ k, n = k + 1 := ⟨n - 1, by omega⟩
  have hread := hf n rest hrest (by omega)
  rw [hcs, List.cons_append] at hread ⊢
  rw [item_content hpoint, hread]

theorem itemReads_spread (hf : ContentReads f) : ItemReads (.spread f) := by
  intro n rest hrest hn
  simp only [text, List.length_cons, List.cons_append] at hn ⊢
  obtain ⟨n, rfl⟩ : ∃ k, n = k + 1 := ⟨n - 1, by omega⟩
  exact item_spread (hf n rest hrest (by omega))

theorem text_cons_of_isProper (hp : f.isProper = true) :
    ∃ c cs, f.text = c :: cs ∧ c ∉ [' ', ')', ']'] := by
  have hcontent {c : Char} (hc : opens c = true ∨ c ∈ ['-', '!']) : c ∉ [' ', ')', ']'] := by
    simp only [List.mem_cons, List.not_mem_nil, or_false]
    rintro (rfl | rfl | rfl) <;> simp [opens, isWordStart] at hc
  cases f with
  | spread list => exact ⟨'.', _, rfl, by decide⟩
  | _ =>
    obtain ⟨c, cs, hcs, hc⟩ := text_cons_of_isContent hp rfl
    exact ⟨c, cs, hcs, hcontent hc⟩

theorem items_append {fs : List Form} (hfs : ∀ f ∈ fs, ItemReads f) (hp : areProper fs = true)
    {closing : Char} (hclosing : closing ∈ [')', ']']) (n : Nat) (rest : List Char)
    (hn : 8 * (textAll fs).length + 2 ≤ n) :
    items n closing (textAll fs ++ closing :: rest) = some (fs, rest) := by
  have hends : EndsContent (closing :: rest) := by
    apply endsContent_of_mem
    simp only [List.mem_cons, List.not_mem_nil, or_false] at hclosing
    rcases hclosing with rfl | rfl <;> decide
  have hclose : closing ∉ [' ', ','] := by
    simp only [List.mem_cons, List.not_mem_nil, or_false] at hclosing
    rcases hclosing with rfl | rfl <;> decide
  induction fs generalizing n with
  | nil =>
    obtain ⟨n, rfl⟩ : ∃ k, n = k + 1 := ⟨n - 1, by omega⟩
    exact items_nil fun heq => hclose (heq ▸ List.mem_cons_self)
  | cons f fs ih =>
    obtain ⟨hf, hfs⟩ := List.forall_mem_cons.1 hfs
    rw [areProper, Bool.and_eq_true] at hp
    obtain ⟨c, cs, hcs, hc⟩ := text_cons_of_isProper hp.1
    have hstart : c ∉ [' ', closing] := by
      simp only [List.mem_cons, List.not_mem_nil, or_false, not_or] at hc hclosing ⊢
      rcases hclosing with rfl | rfl
      · exact ⟨hc.1, hc.2.1⟩
      · exact ⟨hc.1, hc.2.2⟩
    obtain ⟨n, rfl⟩ : ∃ k, n = k + 1 := ⟨n - 1, by omega⟩
    cases fs with
    | nil =>
      simp only [textAll] at hn ⊢
      have hitem := hf n (closing :: rest) hends (by omega)
      rw [hcs, List.cons_append] at hitem ⊢
      exact items_last hstart hclose hitem
    | cons g fs =>
      simp only [textAll, List.length_append, List.length_cons, List.append_assoc,
        List.cons_append] at hn ⊢
      have hitem :=
        hf n (',' :: ' ' :: (textAll (g :: fs) ++ closing :: rest))
          (endsContent_of_mem (by decide)) (by omega)
      have hitems := ih hfs hp.2 n (by omega)
      rw [hcs, List.cons_append] at hitem ⊢
      exact items_cons hstart hitem (items_blank.trans hitems)

section Tight

variable {fs : List Form} (hfs : ∀ f ∈ fs, ItemReads f) (hp : areProper fs = true)

include hfs hp

theorem tightReads_array : TightReads (.array fs) := by
  intro n rest hrest hn
  simp only [text, List.length_cons, List.length_append, List.length_nil, List.cons_append,
    List.append_assoc, List.nil_append] at hn ⊢
  obtain ⟨n, rfl⟩ : ∃ k, n = k + 2 := ⟨n - 2, by omega⟩
  have hitems := items_append hfs hp (by decide : ']' ∈ [')', ']']) n rest (by omega)
  exact ⟨n + 1, by omega, tight_of_primary (primary_array hitems)⟩

theorem tightReads_construct {name : List Char} (hname : name? name = some (name, [])) :
    TightReads (.construct name fs) := by
  intro n rest hrest hn
  simp only [text, List.length_cons, List.length_append, List.length_nil, List.cons_append,
    List.append_assoc, List.nil_append] at hn ⊢
  obtain ⟨n, rfl⟩ : ∃ k, n = k + 2 := ⟨n - 2, by omega⟩
  have hitems := items_append hfs hp (by decide : ')' ∈ [')', ']']) n rest (by omega)
  have hparen : EndsWord ('(' :: (textAll fs ++ ')' :: rest)) := by
    rintro c ⟨⟩
    rfl
  have hread := name_append hname hparen
  exact ⟨n + 1, by omega, tight_of_primary (primary_construct hread hitems)⟩

theorem TightReads.call (hf : TightReads f) : TightReads (.call f fs) := by
  intro n rest hrest hn
  simp only [text, List.length_cons, List.length_append, List.length_nil, List.cons_append,
    List.append_assoc, List.nil_append] at hn ⊢
  obtain ⟨m, hm, hread⟩ :=
    hf n ('(' :: (textAll fs ++ ')' :: rest)) (by rintro c ⟨⟩; rfl) (by omega)
  obtain ⟨m, rfl⟩ : ∃ k, m = k + 1 := ⟨m - 1, by omega⟩
  have hitems := items_append hfs hp (by decide : ')' ∈ [')', ']']) m rest (by omega)
  exact ⟨m, by omega, hread.trans (extend_call hitems)⟩

end Tight

theorem TightReads.subscript (hf : TightReads f) (hg : ContentReads g) :
    TightReads (.subscript f g) := by
  intro n rest hrest hn
  simp only [text, List.length_cons, List.length_append, List.length_nil, List.cons_append,
    List.append_assoc, List.nil_append] at hn ⊢
  obtain ⟨m, hm, hread⟩ :=
    hf n ('[' :: (g.text ++ ']' :: rest)) (by rintro c ⟨⟩; rfl) (by omega)
  obtain ⟨m, rfl⟩ : ∃ k, m = k + 1 := ⟨m - 1, by omega⟩
  have hindex := hg m (']' :: rest) (endsContent_of_mem (by decide)) (by omega)
  exact ⟨m, by omega, hread.trans (extend_subscript hindex)⟩

theorem TightReads.member (hf : TightReads f) {property : List Char}
    (hproperty : Pattern.word.split? property = some (property, [])) :
    TightReads (.member f property) := by
  intro n rest hrest hn
  simp only [text, List.length_cons, List.length_append, List.cons_append,
    List.append_assoc] at hn ⊢
  obtain ⟨m, hm, hread⟩ := hf n ('.' :: (property ++ rest)) (by rintro c ⟨⟩; rfl) (by omega)
  obtain ⟨m, rfl⟩ : ∃ k, m = k + 1 := ⟨m - 1, by omega⟩
  exact ⟨m, by omega, hread.trans (extend_member (word_append hproperty hrest))⟩

theorem sign?_symbol (op : UnaryOp) {c : Char} {cs : List Char} (hc : opens c = true) :
    sign? (skip (op.symbol.toList ++ c :: cs)) = some (op, c :: cs) := by
  cases op with
  | negate =>
    have hsign : (c :: cs).head? ≠ some '-' :=
      fun heq => ne_of_opens hc (by decide) (Option.some.inj heq)
    exact if_neg hsign
  | not =>
    have hequals : (c :: cs).head? ≠ some '=' :=
      fun heq => ne_of_opens hc (by decide) (Option.some.inj heq)
    exact if_neg hequals

theorem OperandReads.unary (hf : OperandReads f) (hp : f.isProper = true) (hs : f.isSimple = true)
    (op : UnaryOp) : OperandReads (.unary op f) := by
  intro n rest hrest hn
  have hlength : op.symbol.toList.length = 1 := by cases op <;> rfl
  simp only [text, List.length_append, hlength, List.append_assoc] at hn ⊢
  obtain ⟨n, rfl⟩ : ∃ k, n = k + 1 := ⟨n - 1, by omega⟩
  have hread := hf n rest hrest (by omega)
  obtain ⟨c, cs, hcs, hc⟩ := text_cons_of_isSimple hp hs
  rw [hcs, List.cons_append] at hread ⊢
  exact operand_sign (sign?_symbol op hc) hread

theorem operator?_symbol (op : BinaryOp) (cs : List Char) :
    operator? ((symbol op).toList ++ ' ' :: cs) = some (op, cs) := by
  cases op <;> rfl

theorem endsOperand_symbol (op : BinaryOp) (cs : List Char) :
    EndsOperand (' ' :: ((symbol op).toList ++ ' ' :: cs)) := by
  cases op <;> exact endsOperand_blank (by decide)

theorem skip_symbol (op : BinaryOp) (cs : List Char) :
    skip ((symbol op).toList ++ cs) = (symbol op).toList ++ cs := by
  cases op <;> rfl

theorem OperandReads.binary (hf : OperandReads f) (hg : OperandReads g)
    (hlength : 0 < f.text.length)
    (hlength' : 0 < g.text.length) (op : BinaryOp) : ContentReads (.binary f op g) := by
  intro n rest hrest hn
  simp only [text, List.length_append, List.length_cons, List.append_assoc,
    List.cons_append] at hn ⊢
  obtain ⟨n, rfl⟩ : ∃ k, n = k + 4 := ⟨n - 4, by omega⟩
  have hend := hrest.operation
  have hleft := hf (n + 2) _ (endsOperand_symbol op (g.text ++ rest)) (by omega)
  have hop : operator? (skip (' ' :: ((symbol op).toList ++ ' ' :: (g.text ++ rest)))) =
      some (op, g.text ++ rest) := by
    rw [skip_blank, skip_symbol, operator?_symbol]
  have hright :=
    hg.operation hlength' (n + 1) (rightRank op) rest hend.operand hend.operator?_eq_none (by omega)
  have hoperation : Form.operation (n + 3) 0
      (f.text ++ ' ' :: ((symbol op).toList ++ ' ' :: (g.text ++ rest))) =
      some (.binary f op g, rest) := by
    rw [operation_of_operand hleft, operate_binary hop (Nat.zero_le _) hright,
      operate_of_endsOperation hend]
  exact content_of_operation hoperation hrest

theorem OperandReads.conditional (hf : OperandReads f) (hg : ContentReads g) (hh : ContentReads h)
    (hlength : 0 < f.text.length) : ContentReads (.conditional f g h) := by
  intro n rest hrest hn
  simp only [text, List.length_append, List.length_cons, List.append_assoc,
    List.cons_append] at hn ⊢
  obtain ⟨n, rfl⟩ : ∃ k, n = k + 1 := ⟨n - 1, by omega⟩
  have hcolon (cs : List Char) : EndsContent (' ' :: ':' :: cs) := by
    constructor
    · rintro c ⟨⟩
      rfl
    · rintro c ⟨⟩
      decide
  have htest :=
    hf.operation hlength n 0
      (' ' :: '?' :: ' ' :: (g.text ++ ' ' :: ':' :: ' ' :: (h.text ++ rest)))
    (endsOperand_blank (by decide)) rfl (by omega)
  have hconsequent := hg n _ (hcolon (' ' :: (h.text ++ rest))) (by omega)
  have halternate := hh n rest hrest (by omega)
  exact content_conditional htest (content_blank.trans hconsequent) (content_blank.trans halternate)

theorem ContentReads.arrow (hf : ContentReads f) {parameter : List Char}
    (hname : name? parameter = some (parameter, [])) : ContentReads (.arrow parameter f) := by
  intro n rest hrest hn
  simp only [text, List.length_append, List.length_cons, List.append_assoc,
    List.cons_append] at hn ⊢
  obtain ⟨n, rfl⟩ : ∃ k, n = k + 1 := ⟨n - 1, by omega⟩
  have hatom := atom?_of_name? hname
  have hgroup : OperandReads (.group (.atom parameter)) := by
    obtain ⟨c, cs, hcs, -⟩ := name?_cons hname
    have hlength : 0 < (Form.atom parameter).text.length := by simp [text, hcs]
    exact (tightReads_group ((operandReads_atom hatom).content hlength)).operand
      (by simp [isProper, isContent, hatom]) rfl
  have harrow : EndsOperand (' ' :: '=' :: '>' :: ' ' :: (f.text ++ rest)) :=
    endsOperand_blank (by decide)
  have hparameter := hgroup.operation (by simp [text]) n 0 _ harrow rfl (by simp [text]; omega)
  simp only [text, List.append_assoc, List.cons_append, List.nil_append] at hparameter
  exact content_arrow hname hparameter (hf n rest hrest (by omega))

structure Reads (f : Form) : Prop where
  tight : f.isTight = true → TightReads f
  operand : f.isOperand = true → OperandReads f
  content : f.isContent = true → ContentReads f
  item : ItemReads f

theorem length_text_pos (hp : f.isProper = true) : 0 < f.text.length := by
  obtain ⟨c, cs, hcs, -⟩ := text_cons_of_isProper hp
  simp [hcs]

theorem TightReads.reads (hf : TightReads f) (hp : f.isProper = true) (hs : f.isTight = true) :
    Reads f := by
  have hoperand := hf.operand hp hs
  have hcontent := hoperand.content (length_text_pos hp)
  have hs := isContent_of_isOperand (isOperand_of_isSimple (isSimple_of_isTight hs))
  exact ⟨fun _ => hf, fun _ => hoperand, fun _ => hcontent, hcontent.item hp hs⟩

theorem ContentReads.reads (hf : ContentReads f) (hp : f.isProper = true) (hs : f.isContent = true)
    (hoperand : f.isOperand = false) : Reads f := by
  have hno : f.isOperand ≠ true := Bool.eq_false_iff.1 hoperand
  exact ⟨fun h => absurd (isOperand_of_isSimple (isSimple_of_isTight h)) hno,
    fun h => absurd h hno, fun _ => hf, hf.item hp hs⟩

theorem reads (hp : f.isProper = true) : Reads f := by
  induction f with
  | atom atom =>
    have hoperand := operandReads_atom (of_decide_eq_true hp)
    have hcontent := hoperand.content (length_text_pos hp)
    exact ⟨fun hname => tightReads_atom (of_decide_eq_true hname), fun _ => hoperand,
      fun _ => hcontent, hcontent.item hp rfl⟩
  | group inner ih =>
    have hproper := hp
    simp only [isProper, Bool.and_eq_true] at hproper
    have hinner := (ih hproper.2).content hproper.1
    exact (tightReads_group hinner).reads hp rfl
  | unary op operand ih =>
    have hproper := hp
    simp only [isProper, Bool.and_eq_true] at hproper
    have hinner := (ih hproper.2).operand (isOperand_of_isSimple hproper.1)
    have hoperand := hinner.unary hproper.2 hproper.1 op
    have hcontent := hoperand.content (length_text_pos hp)
    exact ⟨nofun, fun _ => hoperand, fun _ => hcontent, hcontent.item hp rfl⟩
  | binary left op right ihl ihr =>
    have hproper := hp
    simp only [isProper, Bool.and_eq_true] at hproper
    obtain ⟨⟨⟨hl, hr⟩, hpl⟩, hpr⟩ := hproper
    have hleft := (ihl hpl).operand hl
    have hright := (ihr hpr).operand hr
    exact (hleft.binary hright (length_text_pos hpl) (length_text_pos hpr) op).reads hp rfl rfl
  | conditional test consequent alternate iht ihc iha =>
    have hproper := hp
    simp only [isProper, Bool.and_eq_true] at hproper
    obtain ⟨⟨⟨⟨⟨ht, hc⟩, ha⟩, hpt⟩, hpc⟩, hpa⟩ := hproper
    have htest := (iht hpt).operand ht
    have hconsequent := (ihc hpc).content (isContent_of_isOperand hc)
    have halternate := (iha hpa).content (isContent_of_isOperand ha)
    exact (htest.conditional hconsequent halternate (length_text_pos hpt)).reads hp rfl rfl
  | call callee args ih ihs =>
    have hproper := hp
    simp only [isProper, Bool.and_eq_true] at hproper
    have hall := areProper_iff.1 hproper.2
    have hcallee := (ih hproper.1.2).tight hproper.1.1
    have hargs : ∀ f ∈ args, ItemReads f := fun f hf => (ihs f hf (hall f hf)).item
    exact (hcallee.call hargs hproper.2).reads hp rfl
  | subscript indexed index ih ihi =>
    have hproper := hp
    simp only [isProper, Bool.and_eq_true] at hproper
    obtain ⟨⟨⟨hs, hi⟩, hps⟩, hpi⟩ := hproper
    have hindexed := (ih hps).tight hs
    have hindex := (ihi hpi).content hi
    exact (hindexed.subscript hindex).reads hp rfl
  | member object property ih =>
    have hproper := hp
    simp only [isProper, Bool.and_eq_true] at hproper
    have hobject := (ih hproper.1.2).tight hproper.1.1
    exact (hobject.member (of_decide_eq_true hproper.2)).reads hp rfl
  | array elements ihs =>
    have hall := areProper_iff.1 hp
    have helements : ∀ f ∈ elements, ItemReads f := fun f hf => (ihs f hf (hall f hf)).item
    exact (tightReads_array helements hp).reads hp rfl
  | construct name args ihs =>
    have hproper := hp
    simp only [isProper, Bool.and_eq_true] at hproper
    have hall := areProper_iff.1 hproper.2
    have hargs : ∀ f ∈ args, ItemReads f := fun f hf => (ihs f hf (hall f hf)).item
    exact (tightReads_construct hargs hproper.2 (of_decide_eq_true hproper.1)).reads hp rfl
  | arrow parameter body ih =>
    have hproper := hp
    simp only [isProper, Bool.and_eq_true] at hproper
    obtain ⟨⟨hname, hb⟩, hpb⟩ := hproper
    have hbody := (ih hpb).content hb
    exact (hbody.arrow (of_decide_eq_true hname)).reads hp rfl rfl
  | spread list ih =>
    have hproper := hp
    simp only [isProper, Bool.and_eq_true] at hproper
    have hlist := (ih hproper.2).content hproper.1
    exact ⟨nofun, nofun, nofun, itemReads_spread hlist⟩

/-- The text of a proper form is read as the form itself, unless a power in it has no base. -/
theorem read?_string (hp : f.isProper = true) (hs : f.isContent = true) :
    read? f.string = if f.isSound then some f else none := by
  have hends : EndsContent [] := ⟨nofun, nofun⟩
  have hread := (reads hp).content hs (8 * f.text.length + 8) [] hends (by omega)
  rw [List.append_nil] at hread
  simp only [read?, string, String.length_ofList, String.toList_ofList, hread]

end Reads

end Scriptor.Script.Form
