import Scriptor.Reader.Grammar
import Scriptor.Reader.Stream
import Scriptor.Tree.Basic

namespace Scriptor.Reader

def entry (inner : Power → Reader Expr) : Reader (Expr × Expr) := do
  let key ← inner .default
  let _ ← expect .colon
  return (key, ← inner .default)

def leading (inner : Power → Reader Expr) : Leading → Reader Expr
  | .number => do
    let t ← advance
    return .number t.value t.span
  | .string => do
    let t ← advance
    return .string t.value t.span
  | .boolean value => do
    let t ← advance
    return .boolean value t.span
  | .symbol => do
    let t ← advance
    return .symbol t.value t.span
  | .unary op => do
    let t ← advance
    let operand ← inner .unary
    return .unary op operand ⟨t.span.start, operand.span.stop⟩
  | .group => do
    let _ ← advance
    let e ← inner .default
    let _ ← expect .closeParen
    return e
  | .array => do
    let t ← advance
    let elements ← items (inner .default) .closeBracket "expected `,` between items"
    return .array elements ⟨t.span.start, ← previousEnd⟩
  | .dict => do
    let t ← advance
    let entries ← items (entry inner) .closeDict "expected `,` between entries"
    return .dict entries ⟨t.span.start, ← previousEnd⟩

/-- Reads what the current token continues `left` with. -/
def trailing (inner : Power → Reader Expr) (left : Expr) : Trailing → Reader Expr
  | .binary op power => do
    let _ ← advance
    let right ← inner power
    return .binary left op right ⟨left.start, right.span.stop⟩
  | .conditional => do
    let _ ← advance
    let consequent ← inner .default
    let _ ← expect .colon
    let alternate ← inner .default
    return .conditional left consequent alternate ⟨left.start, alternate.span.stop⟩
  | .call => do
    let _ ← advance
    let arguments ← items (inner .default) .closeParen "expected `,` between items"
    return .call left arguments ⟨left.start, ← previousEnd⟩
  | .subscript => do
    let _ ← advance
    let index ← inner .default
    let _ ← expect .closeBracket
    return .subscript left index ⟨left.start, ← previousEnd⟩
  | .member => do
    let _ ← advance
    let property ← expect .identifier
    return .member left property.value property.span ⟨left.start, property.span.stop⟩

/-- The form that the current token continues an expression with, if it binds tighter than `power`
and stands on the same line. -/
def continuation? (g : Grammar) (power : Power) (t : Token) : Option Trailing :=
  if t.newlineBefore then none
  else
    match g.trailing t.kind with
    | some (p, form) => if power.rank < p.rank then some form else none
    | none => none

/-- Continues `left` with what the next token opens, if it binds tighter than `power`. -/
def continueRound (g : Grammar) (inner : Power → Reader Expr) (power : Power)
    (more : Expr → Reader Expr) (left : Expr) : Reader Expr := do
  match continuation? g power (← stream).current with
  | some form => more (← trailing inner left form)
  | none => return left

def continueWithin (g : Grammar) (inner : Power → Reader Expr) (power : Power) :
    Nat → Expr → Reader Expr
  | 0, left => return left
  | bound + 1, left => continueRound g inner power (continueWithin g inner power bound) left

/-- Reads an expression, given the reader for those within it. -/
def expressionOver (g : Grammar) (inner : Power → Reader Expr) (power : Power) : Reader Expr := do
  match g.leading (← kind) with
  | some form =>
    let left ← leading inner form
    bounded fun bound => continueWithin g inner power bound left
  | none => unexpected

def expressionWithin (g : Grammar) : Nat → Power → Reader Expr
  | 0, _ => unexpected
  | depth + 1, power => expressionOver g (expressionWithin g depth) power

/-- Reads an expression up to the first operator that does not bind tighter than `power`. -/
def expression (g : Grammar) (power : Power) : Reader Expr :=
  bounded fun bound => expressionWithin g bound power

end Scriptor.Reader
