import Scriptor.Proofs.Reading.Runs
import Scriptor.Reader.Grammar
import Scriptor.Tree.Basic

namespace Scriptor

/-- The layer whose expressions are those of a layer without an operator of its own. -/
def Power.tighter : Power → Power
  | .default => .conditional
  | .conditional => .logicalOr
  | .logicalOr => .logicalAnd
  | .logicalAnd => .relational
  | .relational => .additive
  | .additive => .multiplicative
  | .multiplicative => .unary
  | .unary => .exponent
  | .exponent => .call
  | .call | .primary => .primary

namespace Power

theorem all_getElem? (q : Power) : all[q.rank]? = some q := by
  cases q <;> rfl

theorem rank_injective : Function.Injective rank := by
  intro p q h
  apply Option.some.inj
  rw [← all_getElem? p, h, all_getElem? q]

theorem rank_le (q : Power) : q.rank ≤ Power.primary.rank := by
  cases q <;> decide

theorem rank_tighter {q : Power} (h : q.rank < Power.primary.rank) :
    q.tighter.rank = q.rank + 1 := by
  cases q with
  | primary => exact absurd h (Nat.lt_irrefl _)
  | _ => rfl

end Power

namespace BinaryOp

def kind : BinaryOp → Kind
  | .or => .or
  | .and => .and
  | .equals => .equals
  | .notEquals => .notEquals
  | .less => .less
  | .lessEquals => .lessEquals
  | .greater => .greater
  | .greaterEquals => .greaterEquals
  | .add => .plus
  | .subtract => .dash
  | .multiply => .star
  | .divide => .slash
  | .modulo => .percent
  | .power => .starStar

def layer : BinaryOp → Power
  | .or => .logicalOr
  | .and => .logicalAnd
  | .equals | .notEquals | .less | .lessEquals | .greater | .greaterEquals => .relational
  | .add | .subtract => .additive
  | .multiply | .divide | .modulo => .multiplicative
  | .power => .exponent

/-- The layer of the left operand: a chain of operators groups to the left, but for powers. -/
def leftLayer : BinaryOp → Power
  | .power => .call
  | op => op.layer

def rightLayer : BinaryOp → Power
  | .power => .unary
  | op => op.layer.tighter

theorem default_rank_lt (op : BinaryOp) : Power.default.rank < op.layer.rank := by
  cases op <;> decide

end BinaryOp

def UnaryOp.kind : UnaryOp → Kind
  | .negate => .dash
  | .not => .not

def Kind.ofBool : Bool → Kind
  | true => .trueWord
  | false => .falseWord

/-- A part of a source text with the expression that it stands for. -/
structure Phrase where
  tokens : List Token
  value : Expr

structure EntryPhrase where
  key : Phrase
  colon : Token
  value : Phrase

def EntryPhrase.tokens (p : EntryPhrase) : List Token := p.key.tokens ++ p.colon :: p.value.tokens

/-- Whether the tokens stand for the expression in a place of the given layer. A token that
continues an expression stands on the line of the token before it. `Placed` compares the span of
each part with the one from its first mark to its last. -/
inductive DerivesAt (Placed : Span → Span → Prop) : Power → List Token → Expr → Prop where
  | number {t : Token} {span : Span} :
      t.kind = .number → Placed span t.span →
      DerivesAt Placed .primary [t] (.number t.value span)
  | string {t : Token} {span : Span} :
      t.kind = .string → Placed span t.span →
      DerivesAt Placed .primary [t] (.string t.value span)
  | boolean {t : Token} {value : Bool} {span : Span} :
      t.kind = .ofBool value → Placed span t.span →
      DerivesAt Placed .primary [t] (.boolean value span)
  | symbol {t : Token} {span : Span} :
      t.kind = .identifier → Placed span t.span →
      DerivesAt Placed .primary [t] (.symbol t.value span)
  | group {l r : Token} {w : List Token} {e : Expr} :
      l.kind = .openParen → DerivesAt Placed .conditional w e → r.kind = .closeParen →
      DerivesAt Placed .primary (l :: (w ++ [r])) e
  | array {l r : Token} {elements : List Phrase} {ws : List Token} {span : Span} :
      l.kind = .openBracket →
      (∀ p ∈ elements, DerivesAt Placed .conditional p.tokens p.value) →
      Separated (elements.map Phrase.tokens) ws → r.kind = .closeBracket →
      Placed span ⟨l.span.start, r.span.stop⟩ →
      DerivesAt Placed .primary (l :: (ws ++ [r])) (.array (elements.map Phrase.value) span)
  | dict {l r : Token} {entries : List EntryPhrase} {ws : List Token} {span : Span} :
      l.kind = .openDict →
      (∀ p ∈ entries, DerivesAt Placed .conditional p.key.tokens p.key.value) →
      (∀ p ∈ entries, p.colon.kind = .colon) →
      (∀ p ∈ entries, DerivesAt Placed .conditional p.value.tokens p.value.value) →
      Separated (entries.map EntryPhrase.tokens) ws → r.kind = .closeDict →
      Placed span ⟨l.span.start, r.span.stop⟩ →
      DerivesAt Placed .primary (l :: (ws ++ [r]))
        (.dict (entries.map fun p => (p.key.value, p.value.value)) span)
  | call {l r : Token} {w ws : List Token} {e : Expr} {arguments : List Phrase} {span : Span} :
      DerivesAt Placed .call w e → l.kind = .openParen → l.newlineBefore = false →
      (∀ p ∈ arguments, DerivesAt Placed .conditional p.tokens p.value) →
      Separated (arguments.map Phrase.tokens) ws → r.kind = .closeParen →
      Placed span ⟨e.start, r.span.stop⟩ →
      DerivesAt Placed .call (w ++ l :: (ws ++ [r])) (.call e (arguments.map Phrase.value) span)
  | subscript {l r : Token} {w w' : List Token} {e e' : Expr} {span : Span} :
      DerivesAt Placed .call w e → l.kind = .openBracket → l.newlineBefore = false →
      DerivesAt Placed .conditional w' e' → r.kind = .closeBracket →
      Placed span ⟨e.start, r.span.stop⟩ →
      DerivesAt Placed .call (w ++ l :: (w' ++ [r])) (.subscript e e' span)
  | member {dot name : Token} {w : List Token} {e : Expr} {nameSpan span : Span} :
      DerivesAt Placed .call w e → dot.kind = .dot → dot.newlineBefore = false →
      name.kind = .identifier →
      Placed nameSpan name.span → Placed span ⟨e.start, name.span.stop⟩ →
      DerivesAt Placed .call (w ++ [dot, name]) (.member e name.value nameSpan span)
  | unary {t : Token} {op : UnaryOp} {w : List Token} {e : Expr} {span : Span} :
      t.kind = op.kind → DerivesAt Placed .unary w e →
      Placed span ⟨t.span.start, e.span.stop⟩ →
      DerivesAt Placed .unary (t :: w) (.unary op e span)
  | binary {t : Token} {op : BinaryOp} {w w' : List Token} {e e' : Expr} {span : Span} :
      DerivesAt Placed op.leftLayer w e → t.kind = op.kind → t.newlineBefore = false →
      DerivesAt Placed op.rightLayer w' e' → Placed span ⟨e.start, e'.span.stop⟩ →
      DerivesAt Placed op.layer (w ++ t :: w') (.binary e op e' span)
  | conditional {mark colon : Token} {w w₁ w₂ : List Token}
      {test consequent alternate : Expr} {span : Span} :
      DerivesAt Placed .logicalOr w test → mark.kind = .question →
      mark.newlineBefore = false →
      DerivesAt Placed .conditional w₁ consequent → colon.kind = .colon →
      DerivesAt Placed .conditional w₂ alternate →
      Placed span ⟨test.start, alternate.span.stop⟩ →
      DerivesAt Placed .conditional (w ++ mark :: (w₁ ++ colon :: w₂))
        (.conditional test consequent alternate span)
  | tighten {q : Power} {w : List Token} {e : Expr} :
      DerivesAt Placed q.tighter w e → DerivesAt Placed q w e

abbrev Derives : Power → List Token → Expr → Prop := DerivesAt fun _ _ => True

def Kind.isTrailing (k : Kind) : Bool :=
  k.binaryOp?.isSome || k = .question || k = .openParen || k = .openBracket || k = .dot

namespace DerivesAt

variable {Placed Placed' : Span → Span → Prop} {q q' : Power} {w : List Token} {e : Expr}

theorem imp (h : DerivesAt Placed q w e)
    (himp : ∀ span span', Placed span span' → Placed' span span') :
    DerivesAt Placed' q w e := by
  induction h with
  | number ht hp => exact .number ht (himp _ _ hp)
  | string ht hp => exact .string ht (himp _ _ hp)
  | boolean ht hp => exact .boolean ht (himp _ _ hp)
  | symbol ht hp => exact .symbol ht (himp _ _ hp)
  | group hl _ hr ih => exact .group hl ih hr
  | array hl _ hsep hr hp ih => exact .array hl ih hsep hr (himp _ _ hp)
  | dict hl _ hcolon _ hsep hr hp ihk ihv => exact .dict hl ihk hcolon ihv hsep hr (himp _ _ hp)
  | call _ hl hline _ hsep hr hp ih ihs => exact .call ih hl hline ihs hsep hr (himp _ _ hp)
  | subscript _ hl hline _ hr hp ih ih' => exact .subscript ih hl hline ih' hr (himp _ _ hp)
  | member _ hdot hline hname hn hp ih =>
    exact .member ih hdot hline hname (himp _ _ hn) (himp _ _ hp)
  | unary ht _ hp ih => exact .unary ht ih (himp _ _ hp)
  | binary _ ht hline _ hp ih ih' => exact .binary ih ht hline ih' (himp _ _ hp)
  | conditional _ hmark hline _ hcolon _ hp ih ih₁ ih₂ =>
    exact .conditional ih hmark hline ih₁ hcolon ih₂ (himp _ _ hp)
  | tighten _ ih => exact .tighten ih

theorem derives (h : DerivesAt Placed q w e) : Derives q w e := h.imp fun _ _ _ => trivial

theorem ne_nil (h : DerivesAt Placed q w e) : w ≠ [] := by
  induction h with
  | tighten _ ih => exact ih
  | _ => simp

theorem leading_ne_none (h : DerivesAt Placed q w e) (next : Token) :
    Grammar.full.leading (Reader.lead w next).kind ≠ none := by
  induction h generalizing next with
  | number ht | string ht | symbol ht | group ht | array ht | dict ht =>
    rw [Reader.lead, ht]
    exact Option.some_ne_none _
  | @boolean _ value _ ht =>
    rw [Reader.lead, ht]
    cases value <;> exact Option.some_ne_none _
  | @unary _ op _ _ _ ht =>
    rw [Reader.lead, ht]
    cases op <;> exact Option.some_ne_none _
  | call _ _ _ _ _ _ _ ih | subscript _ _ _ _ _ _ ih | member _ _ _ _ _ _ ih | binary _ _ _ _ _ ih
  | conditional _ _ _ _ _ _ _ ih =>
    rw [Reader.lead_append]
    exact ih _
  | tighten _ ih => exact ih next

/-- An expression of one layer stands in every looser one. -/
theorem loosen (h : DerivesAt Placed q w e) (hq : q'.rank ≤ q.rank) :
    DerivesAt Placed q' w e := by
  obtain ⟨n, hn⟩ := Nat.exists_eq_add_of_le hq
  induction n generalizing q' with
  | zero =>
    obtain rfl : q = q' := Power.rank_injective hn
    exact h
  | succ n ih =>
    have hrank : q'.tighter.rank = q'.rank + 1 := by
      apply Power.rank_tighter
      have := q.rank_le
      omega
    apply tighten
    apply ih
    · omega
    · omega

end DerivesAt
end Scriptor
