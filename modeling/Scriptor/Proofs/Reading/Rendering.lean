import Scriptor.Proofs.Reading.Derivation
import Scriptor.Proofs.Spans
import Scriptor.Proofs.Trees
import Scriptor.Token.Pattern

namespace Scriptor

def Kind.spelling : Kind → String
  | .eof => "EOF"
  | .number | .string | .identifier => ""
  | .openBracket => "["
  | .closeBracket => "]"
  | .openParen => "("
  | .closeParen => ")"
  | .openDict => "<<"
  | .closeDict => ">>"
  | .assignment => "="
  | .equals => "=="
  | .not => "!"
  | .notEquals => "!="
  | .less => "<"
  | .lessEquals => "<="
  | .greater => ">"
  | .greaterEquals => ">="
  | .or => "||"
  | .and => "&&"
  | .colon => ":"
  | .question => "?"
  | .comma => ","
  | .dot => "."
  | .arrow => "->"
  | .plusEquals => "+="
  | .minusEquals => "-="
  | .starEquals => "*="
  | .slashEquals => "/="
  | .percentEquals => "%="
  | .plus => "+"
  | .dash => "-"
  | .slash => "/"
  | .star => "*"
  | .starStar => "**"
  | .percent => "%"
  | .functionWord => "Function"
  | .endWord => "end"
  | .forWord => "for"
  | .inWord => "in"
  | .returnWord => "return"
  | .breakWord => "break"
  | .trueWord => "true"
  | .falseWord => "false"

example : (Pattern.all.all fun | .symbol kind spelling _ => kind.spelling = spelling | _ => true) =
    true := by
  decide +kernel

def Token.written (kind : Kind) (value : String) (line : Bool) : Token :=
  ⟨kind, value, .nowhere, line⟩

def Token.mark (kind : Kind) (line : Bool) : Token := .written kind kind.spelling line

theorem Token.kind_mark (kind : Kind) (line : Bool) : (Token.mark kind line).kind = kind := rfl

def separate : List (List Token) → List Token
  | [] => []
  | [w] => w
  | w :: ws => w ++ .mark .comma false :: separate ws

namespace Expr

/-- The tightest layer in which the expression stands without parentheses. -/
def layer : Expr → Power
  | .number _ _ | .string _ _ | .boolean _ _ | .symbol _ _ | .array _ _ | .dict _ _ => .primary
  | .call _ _ _ | .subscript _ _ _ | .member _ _ _ _ => .call
  | .unary _ _ _ => .unary
  | .binary _ op _ _ => op.layer
  | .conditional _ _ _ _ => .conditional

/-- The expression in a place of the given layer; `tokens` are those of the expression by itself. -/
def place (q : Power) (e : Expr) (tokens : Bool → List Token) (line : Bool) : List Token :=
  if e.layer.rank < q.rank then .mark .openParen line ::
    (tokens false ++ [.mark .closeParen false]) else tokens line

mutual

/-- The tokens of an expression, on one line. -/
def render : Expr → Bool → List Token
  | .number text _, line => [.written .number text line]
  | .string value _, line => [.written .string value line]
  | .boolean value _, line => [.mark (.ofBool value) line]
  | .symbol name _, line => [.written .identifier name line]
  | .binary left op right _, line =>
    place op.leftLayer left left.render line ++
      .mark op.kind false :: place op.rightLayer right right.render false
  | .unary op operand _, line => .mark op.kind line :: place .unary operand operand.render false
  | .conditional test consequent alternate _, line =>
    place .logicalOr test test.render line ++
      .mark .question false ::
        (consequent.render false ++ .mark .colon false :: alternate.render false)
  | .call callee arguments _, line =>
    place .call callee callee.render line ++
      .mark .openParen false :: (separate (renderAll arguments) ++ [.mark .closeParen false])
  | .subscript indexed index _, line =>
    place .call indexed indexed.render line ++
      .mark .openBracket false :: (index.render false ++ [.mark .closeBracket false])
  | .member object property _ _, line =>
    place .call object object.render line ++ [.mark .dot false, .written .identifier property false]
  | .array elements _, line =>
    .mark .openBracket line :: (separate (renderAll elements) ++ [.mark .closeBracket false])
  | .dict entries _, line =>
    .mark .openDict line :: (separate (renderEntries entries) ++ [.mark .closeDict false])

def renderAll : List Expr → List (List Token)
  | [] => []
  | e :: es => e.render false :: renderAll es

def renderEntries : List (Expr × Expr) → List (List Token)
  | [] => []
  | (key, value) :: ps =>
    (key.render false ++ .mark .colon false :: value.render false) :: renderEntries ps

end

theorem renderAll_eq_map (es : List Expr) : renderAll es = es.map (render · false) := by
  induction es with
  | nil => rfl
  | cons e es ih => rw [renderAll, ih, List.map_cons]

theorem renderEntries_eq_map (ps : List (Expr × Expr)) :
    renderEntries ps = ps.map fun p => p.1.render false ++ .mark .colon false ::
      p.2.render false := by
  induction ps with
  | nil => rfl
  | cons p ps ih => rw [renderEntries, ih, List.map_cons]

theorem conditional_rank_le_layer (e : Expr) : Power.conditional.rank ≤ e.layer.rank := by
  cases e with
  | binary left op right span => exact op.default_rank_lt
  | _ => exact Nat.le_of_ble_eq_true rfl

end Expr

theorem Token.bare_eq_written {t : Token} {kind : Kind} {value : String} {line : Bool}
    (h : t.bare = .written kind value line) :
    t.kind = kind ∧ t.value = value ∧ t.newlineBefore = line := by
  obtain ⟨k, v, span, l⟩ := t
  cases h
  exact ⟨rfl, rfl, rfl⟩

theorem map_bare_eq_enclosed {w ts : List Token} {l r : Token}
    (h : w.map Token.bare = l :: (ts ++ [r])) :
    ∃ l' w' r', w = l' :: (w' ++ [r']) ∧ l'.bare = l ∧ w'.map Token.bare = ts ∧
      r'.bare = r := by
  obtain ⟨l', w, rfl, hl, h⟩ := List.map_eq_cons_iff.1 h
  obtain ⟨w', rs, rfl, hw, h⟩ := List.map_eq_append_iff.1 h
  obtain ⟨r', rfl, hr⟩ := List.map_eq_singleton_iff.1 h
  exact ⟨l', w', r', rfl, hl, hw, hr⟩

/-- Tokens that are written as phrases with commas between them consist of such phrases. -/
theorem exists_separated {α γ : Type} {render : α → List Token}
    {tokensOf : γ → List Token} {value : γ → α}
    {good : γ → Prop} {as : List α} {u : List Token}
    (hu : u.map Token.bare = separate (as.map render))
    (h : ∀ a ∈ as, ∀ w : List Token, w.map Token.bare = render a → ∃ c, value c = a ∧
      tokensOf c = w ∧ good c) :
    ∃ cs : List γ, cs.map value = as ∧ Separated (cs.map tokensOf) u ∧
      ∀ c ∈ cs, good c := by
  induction as generalizing u with
  | nil =>
    obtain rfl := List.map_eq_nil_iff.1 hu
    exact ⟨[], rfl, .nil, List.forall_mem_nil _⟩
  | cons a as ih =>
    obtain ⟨ha, has⟩ := List.forall_mem_cons.1 h
    cases as with
    | nil =>
      obtain ⟨c, rfl, rfl, hc⟩ := ha u hu
      exact ⟨[c], rfl, .last _, List.forall_mem_singleton.2 hc⟩
    | cons b bs =>
      obtain ⟨w, rest, rfl, hw, hrest⟩ := List.map_eq_append_iff.1 hu
      obtain ⟨comma, rest, rfl, hcomma, hrest⟩ := List.map_eq_cons_iff.1 hrest
      obtain ⟨c, rfl, rfl, hc⟩ := ha w hw
      obtain ⟨cs, hcs, hsep, hgood⟩ := ih hrest has
      refine ⟨c :: cs, ?_, .cons _ (Token.bare_eq_written hcomma).1 hsep,
        List.forall_mem_cons.2 ⟨hc, hgood⟩⟩
      rw [List.map_cons, hcs]

namespace Expr

/-- The parentheses that a place asks for make the expression fit it. -/
theorem derives_place {q : Power} {e : Expr} {line : Bool} {w : List Token}
    (he : ∀ (line : Bool) (w : List Token), w.map Token.bare = e.render line →
      Derives e.layer w e)
    (h : w.map Token.bare = place q e e.render line) : Derives q w e := by
  rw [place] at h
  split at h
  next =>
    obtain ⟨l, w, r, rfl, hl, hw, hr⟩ := map_bare_eq_enclosed h
    have hd := (he false w hw).loosen e.conditional_rank_le_layer
    have hgroup := DerivesAt.group (Token.bare_eq_written hl).1 hd (Token.bare_eq_written hr).1
    exact hgroup.loosen q.rank_le
  next hle => exact (he line w h).loosen (Nat.le_of_not_lt hle)

theorem exists_phrases {es : List Expr} {u : List Token}
    (hes : ∀ e ∈ es, ∀ (line : Bool) (w : List Token), w.map Token.bare = e.render line →
      Derives e.layer w e)
    (hu : u.map Token.bare = separate (renderAll es)) :
    ∃ ps : List Phrase, ps.map Phrase.value = es ∧ Separated (ps.map Phrase.tokens) u ∧
      ∀ p ∈ ps, Derives .conditional p.tokens p.value := by
  rw [renderAll_eq_map] at hu
  apply exists_separated hu
  intro e he w hw
  exact ⟨⟨w, e⟩, rfl, rfl, (hes e he false w hw).loosen e.conditional_rank_le_layer⟩

theorem derives_render (e : Expr) (line : Bool) (w : List Token)
    (h : w.map Token.bare = e.render line) : Derives e.layer w e := by
  induction e generalizing line w with
  | number text span =>
    obtain ⟨t, rfl, ht⟩ := List.map_eq_singleton_iff.1 h
    obtain ⟨hk, rfl, -⟩ := Token.bare_eq_written ht
    exact .number hk trivial
  | string value span =>
    obtain ⟨t, rfl, ht⟩ := List.map_eq_singleton_iff.1 h
    obtain ⟨hk, rfl, -⟩ := Token.bare_eq_written ht
    exact .string hk trivial
  | boolean value span =>
    obtain ⟨t, rfl, ht⟩ := List.map_eq_singleton_iff.1 h
    exact .boolean (Token.bare_eq_written ht).1 trivial
  | symbol name span =>
    obtain ⟨t, rfl, ht⟩ := List.map_eq_singleton_iff.1 h
    obtain ⟨hk, rfl, -⟩ := Token.bare_eq_written ht
    exact .symbol hk trivial
  | binary left op right span ihl ihr =>
    obtain ⟨w, w', rfl, hl, h⟩ := List.map_eq_append_iff.1 h
    obtain ⟨t, w', rfl, ht, hr⟩ := List.map_eq_cons_iff.1 h
    obtain ⟨hk, -, hline⟩ := Token.bare_eq_written ht
    exact .binary (derives_place ihl hl) hk hline (derives_place ihr hr) trivial
  | unary op operand span ih =>
    obtain ⟨t, w, rfl, ht, ho⟩ := List.map_eq_cons_iff.1 h
    exact .unary (Token.bare_eq_written ht).1 (derives_place ih ho) trivial
  | conditional test consequent alternate span iht ihc iha =>
    obtain ⟨w, w', rfl, ht, h⟩ := List.map_eq_append_iff.1 h
    obtain ⟨mark, w', rfl, hm, h⟩ := List.map_eq_cons_iff.1 h
    obtain ⟨w₁, w₂, rfl, hc, h⟩ := List.map_eq_append_iff.1 h
    obtain ⟨colon, w₂, rfl, hcolon, ha⟩ := List.map_eq_cons_iff.1 h
    obtain ⟨hk, -, hline⟩ := Token.bare_eq_written hm
    exact .conditional (derives_place iht ht) hk hline
      ((ihc false _ hc).loosen consequent.conditional_rank_le_layer)
      (Token.bare_eq_written hcolon).1
      ((iha false _ ha).loosen alternate.conditional_rank_le_layer) trivial
  | call callee args span ihf ihs =>
    obtain ⟨w, w', rfl, hf, h⟩ := List.map_eq_append_iff.1 h
    obtain ⟨l, ws, r, rfl, hl, hws, hr⟩ := map_bare_eq_enclosed h
    obtain ⟨ps, rfl, hsep, hps⟩ := exists_phrases ihs hws
    obtain ⟨hk, -, hline⟩ := Token.bare_eq_written hl
    exact .call (derives_place ihf hf) hk hline hps hsep (Token.bare_eq_written hr).1 trivial
  | subscript indexed index span ihx ihi =>
    obtain ⟨w, w', rfl, hx, h⟩ := List.map_eq_append_iff.1 h
    obtain ⟨l, w', r, rfl, hl, hi, hr⟩ := map_bare_eq_enclosed h
    obtain ⟨hk, -, hline⟩ := Token.bare_eq_written hl
    exact .subscript (derives_place ihx hx) hk hline
      ((ihi false _ hi).loosen index.conditional_rank_le_layer) (Token.bare_eq_written hr).1 trivial
  | member object property propertySpan span ih =>
    obtain ⟨w, w', rfl, ho, h⟩ := List.map_eq_append_iff.1 h
    obtain ⟨dot, w', rfl, hdot, h⟩ := List.map_eq_cons_iff.1 h
    obtain ⟨name, rfl, hname⟩ := List.map_eq_singleton_iff.1 h
    obtain ⟨hk, -, hline⟩ := Token.bare_eq_written hdot
    obtain ⟨hn, rfl, -⟩ := Token.bare_eq_written hname
    exact .member (derives_place ih ho) hk hline hn trivial trivial
  | array elements span ihs =>
    obtain ⟨l, ws, r, rfl, hl, hws, hr⟩ := map_bare_eq_enclosed h
    obtain ⟨ps, rfl, hsep, hps⟩ := exists_phrases ihs hws
    exact .array (Token.bare_eq_written hl).1 hps hsep (Token.bare_eq_written hr).1 trivial
  | dict entries span ihs =>
    obtain ⟨l, ws, r, rfl, hl, hws, hr⟩ := map_bare_eq_enclosed h
    rw [renderEntries_eq_map] at hws
    have hentry : ∀ p ∈ entries, ∀ w : List Token,
        w.map Token.bare = p.1.render false ++ .mark .colon false :: p.2.render false →
        ∃ c : EntryPhrase, (c.key.value, c.value.value) = p ∧ c.tokens = w ∧
          Derives .conditional c.key.tokens c.key.value ∧ c.colon.kind = .colon ∧
          Derives .conditional c.value.tokens c.value.value := by
      intro p hp w hw
      obtain ⟨k, v, rfl, hk, h⟩ := List.map_eq_append_iff.1 hw
      obtain ⟨colon, v, rfl, hcolon, hv⟩ := List.map_eq_cons_iff.1 h
      exact ⟨⟨⟨k, p.1⟩, colon, ⟨v, p.2⟩⟩, rfl, rfl,
        ((ihs p hp).1 false _ hk).loosen p.1.conditional_rank_le_layer,
        (Token.bare_eq_written hcolon).1,
        ((ihs p hp).2 false _ hv).loosen p.2.conditional_rank_le_layer⟩
    obtain ⟨ps, rfl, hsep, hps⟩ := exists_separated hws hentry
    exact .dict (Token.bare_eq_written hl).1 (fun p hp => (hps p hp).1) (fun p hp => (hps p hp).2.1)
      (fun p hp => (hps p hp).2.2) hsep (Token.bare_eq_written hr).1 trivial

theorem lead_place {q : Power} {e : Expr} {line : Bool} {next : Token}
    (he : (Reader.lead (e.render line) next).newlineBefore = line ∧
      Grammar.full.leading (Reader.lead (e.render line) next).kind ≠ none) :
    (Reader.lead (place q e e.render line) next).newlineBefore = line ∧
      Grammar.full.leading (Reader.lead (place q e e.render line) next).kind ≠ none := by
  rw [place]
  split
  next => exact ⟨rfl, Option.some_ne_none _⟩
  next => exact he

theorem lead_render (e : Expr) (line : Bool) (next : Token) :
    (Reader.lead (e.render line) next).newlineBefore = line ∧
      Grammar.full.leading (Reader.lead (e.render line) next).kind ≠ none := by
  induction e generalizing next with
  | boolean value span => cases value <;> exact ⟨rfl, Option.some_ne_none _⟩
  | unary op operand span ih => cases op <;> exact ⟨rfl, Option.some_ne_none _⟩
  | binary left op right span ih _ | conditional test consequent alternate span ih _ _
  | call callee args span ih _
  | subscript indexed index span ih _ | member object property propertySpan span ih =>
    rw [render, Reader.lead_append]
    exact lead_place (ih _)
  | _ => exact ⟨rfl, Option.some_ne_none _⟩

end Expr

/-- Whether the type is written without arrows. -/
def Ty.IsPlain : Ty → Prop
  | .array base | .dict base => base.IsPlain
  | .function _ _ => False
  | _ => True

def Ty.render : Ty → List Token
  | .array base => .mark .openBracket false :: (base.render ++ [.mark .closeBracket false])
  | .dict base => .mark .openDict false :: (base.render ++ [.mark .closeDict false])
  | .function _ _ => []
  | ty => [.written .identifier ty.text false]

def Ascription.render (announcing : Kind) : Option Ascription → List Token
  | none => []
  | some a => .mark announcing false :: a.ty.render

def Ascription.IsPlain (a : Option Ascription) : Prop := (typeOf a).IsPlain

def Parameter.render (p : Parameter) : List Token :=
  .written .identifier p.name false :: Ascription.render .colon p.ascription

def Expr.isTarget : Expr → Bool
  | .symbol _ _ | .subscript _ _ _ => true
  | _ => false

namespace Assignment

def markOf : Option BinaryOp → Kind
  | some .add => .plusEquals
  | some .subtract => .minusEquals
  | some .multiply => .starEquals
  | some .divide => .slashEquals
  | some .modulo => .percentEquals
  | _ => .assignment

structure Writable (a : Assignment) : Prop where
  target : a.target.isTarget = true
  operator : a.operator ∈ [none, some .add, some .subtract, some .multiply,
    some .divide, some .modulo]

def render (a : Assignment) (line : Bool) : List Token :=
  a.target.render line ++ .mark (markOf a.operator) false :: a.value.render false

theorem lead_render (a : Assignment) (line : Bool) (next : Token) :
    (Reader.lead (a.render line) next).newlineBefore = line ∧
      Grammar.full.leading (Reader.lead (a.render line) next).kind ≠ none := by
  rw [render, Reader.lead_append]
  exact a.target.lead_render line _

end Assignment

namespace Stmt

mutual

/-- The tokens of a statement; `closing` tells whether an `end` starts a line. -/
def render (closing : Bool) : Stmt → List Token
  | .assignment a => a.render true
  | .function name parameters result body endName _ _ =>
    .mark .functionWord true :: .written .identifier name false :: .mark .openParen false ::
      (separate (parameters.map Parameter.render) ++ [.mark .closeParen false] ++
        (Ascription.render .arrow result ++
          (renderAll closing body ++ [.mark .endWord closing] ++
            [.written .identifier endName false])))
  | .rangeFor init update body test _ =>
    .mark .forWord true :: .mark .openParen false ::
      (init.render false ++ .mark .comma false :: (update.render false ++ .mark .closeParen false ::
        (renderAll closing body ++ [.mark .endWord closing] ++ test.render false)))
  | .collectionFor name _ collection body _ =>
    .mark .forWord true :: .written .identifier name false :: .mark .inWord false ::
      (collection.render false ++
        (renderAll closing body ++ [.mark .endWord closing] ++ [.mark .forWord false]))
  | .ret none _ => [.mark .returnWord true]
  | .ret (some value) _ => .mark .returnWord true :: value.render false
  | .brk _ => [.mark .breakWord true]
  | .call callee arguments span => (Expr.call callee arguments span).render true

def renderAll (closing : Bool) : List Stmt → List Token
  | [] => []
  | s :: ss => s.render closing ++ renderAll closing ss

end

mutual

/-- Whether the statement can be written: only names and subscripts are assigned to, only some
operators are combined with an assignment, and types have no arrows. -/
def Writable : Stmt → Prop
  | .assignment a => a.Writable
  | .function _ parameters result body _ _ _ =>
    (∀ p ∈ parameters, Ascription.IsPlain p.ascription) ∧ Ascription.IsPlain result ∧
      WritableAll body
  | .rangeFor init update body _ _ => init.Writable ∧ update.Writable ∧ WritableAll body
  | .collectionFor _ _ _ body _ => WritableAll body
  | _ => True

def WritableAll : List Stmt → Prop
  | [] => True
  | s :: ss => s.Writable ∧ WritableAll ss

end

def inside : Stmt → List Stmt
  | .function _ _ _ body _ _ _ | .rangeFor _ _ body _ _ | .collectionFor _ _ _ body _ => body
  | _ => []

theorem writableAll_iff {ss : List Stmt} : WritableAll ss ↔ ∀ s ∈ ss, s.Writable := by
  induction ss with
  | nil => exact iff_of_true trivial (List.forall_mem_nil _)
  | cons s ss ih => rw [WritableAll, List.forall_mem_cons, ih]

theorem Writable.inside {s : Stmt} (h : s.Writable) : ∀ s' ∈ s.inside, s'.Writable := by
  cases s with
  | function name parameters result body endName endSpan span => exact writableAll_iff.1 h.2.2
  | rangeFor init update body test span => exact writableAll_iff.1 h.2.2
  | collectionFor name nameSpan collection body span => exact writableAll_iff.1 h
  | _ => exact List.forall_mem_nil _

/-- The first token starts a line and opens an expression or a statement with a word of its own. -/
theorem lead_render (s : Stmt) (closing : Bool) (next : Token) :
    (Reader.lead (s.render closing) next).newlineBefore = true ∧
      (Grammar.full.leading (Reader.lead (s.render closing) next).kind ≠ none ∨
        Grammar.full.opening (Reader.lead (s.render closing) next).kind ≠ none) := by
  cases s with
  | assignment a => exact (a.lead_render true next).imp_right .inl
  | call callee arguments span =>
    exact ((Expr.call callee arguments span).lead_render true next).imp_right .inl
  | ret value span => cases value <;> exact ⟨rfl, .inr (Option.some_ne_none _)⟩
  | _ => exact ⟨rfl, .inr (Option.some_ne_none _)⟩

theorem render_ne_nil (s : Stmt) (closing : Bool) : s.render closing ≠ [] := by
  intro h
  have hline := (s.lead_render closing (.mark .eof false)).1
  rw [h] at hline
  cases hline

theorem length_renderAll_inside (s : Stmt) (closing : Bool) :
    (renderAll closing s.inside).length < (s.render closing).length := by
  cases s with
  | function name parameters result body endName endSpan span =>
    simp only [render, Stmt.inside, List.length_cons, List.length_append]
    omega
  | rangeFor init update body test span =>
    simp only [render, Stmt.inside, List.length_cons, List.length_append]
    omega
  | collectionFor name nameSpan collection body span =>
    simp only [render, Stmt.inside, List.length_cons, List.length_append]
    omega
  | _ => exact List.length_pos_of_ne_nil (render_ne_nil _ closing)

theorem length_render_le {s : Stmt} {ss : List Stmt} (closing : Bool) (h : s ∈ ss) :
    (s.render closing).length ≤ (renderAll closing ss).length := by
  induction ss with
  | nil => cases h
  | cons s' ss ih =>
    rw [renderAll, List.length_append]
    rcases List.mem_cons.1 h with rfl | h
    · exact Nat.le_add_right _ _
    · exact Nat.le_trans (ih h) (Nat.le_add_left _ _)

end Stmt

def Program.render (closing : Bool) (p : Program) : List Token :=
  Stmt.renderAll closing p.statements

def Program.Writable (p : Program) : Prop := Stmt.WritableAll p.statements

/-- Whether the end of the text is not among the tokens. -/
def Unended (ts : List Token) : Prop := ∀ t ∈ ts, t.kind ≠ .eof

section Unended

variable {t : Token} {ts ts' : List Token}

theorem Unended.cons (ht : t.kind ≠ .eof) (hts : Unended ts) : Unended (t :: ts) :=
  List.forall_mem_cons.2 ⟨ht, hts⟩

theorem Unended.append (hts : Unended ts) (hts' : Unended ts') : Unended (ts ++ ts') :=
  List.forall_mem_append.2 ⟨hts, hts'⟩

theorem Unended.single (ht : t.kind ≠ .eof) : Unended [t] := List.forall_mem_singleton.2 ht

theorem Unended.separate {ws : List (List Token)} (h : ∀ w ∈ ws, Unended w) :
    Unended (separate ws) := by
  fun_induction Scriptor.separate ws with
  | case1 => exact List.forall_mem_nil _
  | case2 w => exact h w (List.mem_singleton_self w)
  | case3 w ws _ ih =>
    obtain ⟨hw, hws⟩ := List.forall_mem_cons.1 h
    exact hw.append (.cons Kind.noConfusion (ih hws))

theorem Unended.place {q : Power} {e : Expr} {line : Bool}
    (he : ∀ line, Unended (e.render line)) : Unended (e.place q e.render line) := by
  rw [Expr.place]
  split
  next => exact .cons Kind.noConfusion ((he false).append (.single Kind.noConfusion))
  next => exact he line

theorem Expr.unended_renderAll {es : List Expr}
    (hes : ∀ e ∈ es, ∀ line, Unended (e.render line)) :
    Unended (Scriptor.separate (renderAll es)) := by
  apply Unended.separate
  rw [renderAll_eq_map, List.forall_mem_map]
  intro e he
  exact hes e he false

theorem Expr.unended_render (e : Expr) (line : Bool) : Unended (e.render line) := by
  induction e generalizing line with
  | number text span => exact .single Kind.noConfusion
  | string value span => exact .single Kind.noConfusion
  | boolean value span => cases value <;> exact .single Kind.noConfusion
  | symbol name span => exact .single Kind.noConfusion
  | binary left op right span ihl ihr =>
    have hop : op.kind ≠ .eof := by cases op <;> decide
    exact .append (.place ihl) (.cons hop (.place ihr))
  | unary op operand span ih =>
    have hop : op.kind ≠ .eof := by cases op <;> decide
    exact .cons hop (.place ih)
  | conditional test consequent alternate span iht ihc iha =>
    exact .append (.place iht)
      (.cons Kind.noConfusion ((ihc false).append (.cons Kind.noConfusion (iha false))))
  | call callee args span ihf ihs =>
    exact .append (.place ihf)
      (.cons Kind.noConfusion ((unended_renderAll ihs).append (.single Kind.noConfusion)))
  | subscript indexed index span ihx ihi =>
    exact .append (.place ihx)
      (.cons Kind.noConfusion ((ihi false).append (.single Kind.noConfusion)))
  | member object property propertySpan span ih =>
    exact .append (.place ih) (.cons Kind.noConfusion (.single Kind.noConfusion))
  | array elements span ihs =>
    exact .cons Kind.noConfusion ((unended_renderAll ihs).append (.single Kind.noConfusion))
  | dict entries span ihs =>
    refine .cons Kind.noConfusion (.append (.separate ?_) (.single Kind.noConfusion))
    rw [renderEntries_eq_map, List.forall_mem_map]
    intro p hp
    exact ((ihs p hp).1 false).append (.cons Kind.noConfusion ((ihs p hp).2 false))

theorem Ty.unended_render : (ty : Ty) → Unended ty.render
  | .array base | .dict base =>
    .cons Kind.noConfusion (.append base.unended_render (.single Kind.noConfusion))
  | .function _ _ => List.forall_mem_nil _
  | .int | .float | .string | .bool | .void | .any => .single Kind.noConfusion

theorem Ascription.unended_render {announcing : Kind} (hk : announcing ≠ .eof)
    (a : Option Ascription) : Unended (Ascription.render announcing a) := by
  cases a with
  | none => exact List.forall_mem_nil _
  | some a => exact .cons hk a.ty.unended_render

theorem Parameter.unended_render (p : Parameter) : Unended p.render :=
  .cons Kind.noConfusion (Ascription.unended_render Kind.noConfusion p.ascription)

theorem Assignment.unended_render (a : Assignment) (line : Bool) : Unended (a.render line) := by
  have hmark : markOf a.operator ≠ .eof := by
    unfold markOf
    split <;> exact Kind.noConfusion
  exact (a.target.unended_render line).append (.cons hmark (a.value.unended_render false))

mutual

theorem Stmt.unended_render (closing : Bool) : (s : Stmt) → Unended (s.render closing)
  | .assignment a => a.unended_render true
  | .function _ parameters result body _ _ _ =>
    have hparameters : ∀ w ∈ parameters.map Parameter.render, Unended w :=
      List.forall_mem_map.2 fun p _ => p.unended_render
    .cons Kind.noConfusion (.cons Kind.noConfusion (.cons Kind.noConfusion (.append
      ((Unended.separate hparameters).append (.single Kind.noConfusion))
      (.append (Ascription.unended_render Kind.noConfusion result)
        (.append (.append (unended_renderAll closing body) (.single Kind.noConfusion))
          (.single Kind.noConfusion))))))
  | .rangeFor init update body test _ =>
    .cons Kind.noConfusion
      (.cons Kind.noConfusion (.append (init.unended_render false) (.cons Kind.noConfusion
      (.append (update.unended_render false) (.cons Kind.noConfusion
        (.append (.append (unended_renderAll closing body) (.single Kind.noConfusion))
          (test.unended_render false)))))))
  | .collectionFor _ _ collection body _ =>
    .cons Kind.noConfusion
      (.cons Kind.noConfusion (.cons Kind.noConfusion (.append (collection.unended_render false)
      (.append (.append (unended_renderAll closing body) (.single Kind.noConfusion))
        (.single Kind.noConfusion)))))
  | .ret none _ | .brk _ => .single Kind.noConfusion
  | .ret (some value) _ => .cons Kind.noConfusion (value.unended_render false)
  | .call callee arguments span => (Expr.call callee arguments span).unended_render true

theorem Stmt.unended_renderAll (closing : Bool) :
    (ss : List Stmt) → Unended (Stmt.renderAll closing ss)
  | [] => List.forall_mem_nil _
  | s :: ss => .append (Stmt.unended_render closing s) (Stmt.unended_renderAll closing ss)

end

end Unended

end Scriptor
