import Scriptor.Reader.Ascription
import Scriptor.Reader.Expression

namespace Scriptor.Reader

def isAssignment (k : Kind) : Bool :=
  k = .assignment || k.compound?.isSome

def assignmentTo (g : Grammar) (target : Expr) : Reader Assignment := do
  match target with
  | .symbol _ _ | .subscript _ _ _ =>
    let t ← advance
    let value ← expression g .default
    return ⟨target, t.kind.compound?.bind Kind.binaryOp?, value, target.start, value.span.stop⟩
  | _ =>
    let message := "only names and subscripts can be assigned to"
    fail ⟨.unexpectedTokenDetailed (← stream).current.value message, target.start⟩

def assignment (g : Grammar) : Reader Assignment := do
  let target ← expression g .default
  if isAssignment (← kind) then assignmentTo g target
  else unexpectedBecause "expected an assignment"

/-- Reads a statement and `more` of them, or passes the `end` of the block. -/
def blockRound (inner : Reader Stmt) (more : Reader (List Stmt)) : Reader (List Stmt) := do
  if (← kind) = .endWord then
    let _ ← advance
    return []
  else if (← kind) = .eof then unexpectedBecause "expected `end` to close the block"
  else
    let s ← inner
    return s :: (← more)

def blockWithin (inner : Reader Stmt) : Nat → Reader (List Stmt)
  | 0 => unexpectedBecause "expected `end` to close the block"
  | bound + 1 => blockRound inner (blockWithin inner bound)

def block (inner : Reader Stmt) : Reader (List Stmt) :=
  bounded (blockWithin inner)

/-- Reads an ascription if the current token announces one. -/
def ascriptionAfter (g : Grammar) (announcing : Kind) : Reader (Option Ascription) := do
  if (← kind) = announcing then
    let _ ← advance
    return some (← ascription g)
  else return none

def parameter (g : Grammar) : Reader Parameter := do
  let t ← expect .identifier
  let a ← ascriptionAfter g .colon
  return ⟨t.value, a, t.span.start, ← previousEnd⟩

/-- `Function name(a: int, b) -> int … end name` -/
def functionDeclaration (g : Grammar) (inner : Reader Stmt) : Reader Stmt := do
  let start := (← advance).span.start
  let name ← expect .identifier
  let _ ← expect .openParen
  let parameters ← items (parameter g) .closeParen "expected `,` between parameters"
  let result ← ascriptionAfter g .arrow
  let body ← block inner
  let nameless := (← stream).unexpectedBecause "expected the function name after `end`"
  let closing ← expectOr .identifier nameless
  return .function name.value parameters result body closing.value closing.span
    ⟨start, closing.span.stop⟩

/-- `for (i = 0, i += 1) … end i < 10` or `for x in xs … end for` -/
def loop (g : Grammar) (inner : Reader Stmt) : Reader Stmt := do
  let start := (← advance).span.start
  if (← kind) = .openParen then
    let _ ← advance
    let init ← assignment g
    let _ ← expect .comma
    let update ← assignment g
    let _ ← expect .closeParen
    let body ← block inner
    let test ← expression g .default
    return .rangeFor init update body test ⟨start, test.span.stop⟩
  else
    let name ← expect .identifier
    let _ ← expect .inWord
    let collection ← expression g .default
    let body ← block inner
    let closing ← expect .forWord
    return .collectionFor name.value name.span collection body ⟨start, closing.span.stop⟩

/-- A returned value stands on the line of its `return`. -/
def returnStatement (g : Grammar) : Reader Stmt := do
  let t ← advance
  let next := (← stream).current
  if next.newlineBefore || next.kind = .endWord || next.kind = .eof then return .ret none t.span
  else
    let value ← expression g .default
    return .ret (some value) ⟨t.span.start, value.span.stop⟩

def plainStatement (g : Grammar) : Reader Stmt := do
  let e ← expression g .default
  if isAssignment (← kind) then return .assignment (← assignmentTo g e)
  else
    match e with
    | .call callee arguments span => return .call callee arguments span
    | _ => unexpectedBecause "expected an assignment or a call"

def statementOver (g : Grammar) (inner : Reader Stmt) : Reader Stmt := do
  match g.opening (← kind) with
  | some .function => functionDeclaration g inner
  | some .loop => loop g inner
  | some .ret => returnStatement g
  | some .brk => return .brk (← advance).span
  | none => plainStatement g

def statementWithin (g : Grammar) : Nat → Reader Stmt
  | 0 => unexpected
  | depth + 1 => statementOver g (statementWithin g depth)

def statement (g : Grammar) : Reader Stmt :=
  bounded (statementWithin g)

def statementsRound (g : Grammar) (more : Reader (List Stmt)) : Reader (List Stmt) := do
  if (← kind) = .eof then return []
  else
    let s ← statement g
    return s :: (← more)

def statementsWithin (g : Grammar) : Nat → Reader (List Stmt)
  | 0 => return []
  | bound + 1 => statementsRound g (statementsWithin g bound)

def program : Reader Program := do
  return ⟨← bounded (statementsWithin .full)⟩

end Scriptor.Reader

namespace Scriptor

/-- The program of a list of tokens; the first error ends the reading. -/
def parse (tokens : List Token) (file : String) : Except Error Program :=
  (Reader.program (.ofTokens tokens file)).1

end Scriptor
