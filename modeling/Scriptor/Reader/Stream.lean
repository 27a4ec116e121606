import Scriptor.Error
import Scriptor.Token.Basic

namespace Scriptor

structure Stream where
  current : Token
  /-- The tokens after the current one. -/
  rest : List Token
  /-- The end of the last token passed; at the start, the end of the current one. -/
  previousEnd : Position

namespace Stream

/-- The tokens after `last` and these, up to the end of the text. -/
def closed : Token → List Token → List Token
  | last, [] => if last.kind = .eof then [] else [.eof last.span.stop false]
  | _, t :: ts => t :: closed t ts

def ofTokens (tokens : List Token) (file : String) : Stream :=
  match tokens with
  | [] => ⟨.eof (.start file) false, [], .start file⟩
  | t :: ts => ⟨t, closed t ts, t.span.stop⟩

def size (s : Stream) : Nat := s.rest.length + 1

def kind (s : Stream) : Kind := s.current.kind

def position (s : Stream) : Position := s.current.span.start

def advance (s : Stream) : Stream :=
  match s.rest with
  | [] => s
  | t :: ts => ⟨t, ts, s.current.span.stop⟩

def unexpected (s : Stream) : Error :=
  ⟨.unexpectedToken s.current.value, s.position⟩

def unexpectedBecause (s : Stream) (message : String) : Error :=
  ⟨.unexpectedTokenDetailed s.current.value message, s.position⟩

end Stream

/-- A reader of a value from a stream. One that fails leaves the stream where it stopped. -/
def Reader (α : Type) := Stream → Except Error α × Stream

namespace Reader

instance : Monad Reader where
  pure a s := (.ok a, s)
  bind r f s :=
    match r s with
    | (.ok a, s') => f a s'
    | (.error e, s') => (.error e, s')

variable {α : Type}

def stream : Reader Stream := fun s => (.ok s, s)

def fail (e : Error) : Reader α := fun s => (.error e, s)

def kind : Reader Kind := fun s => (.ok s.kind, s)

def previousEnd : Reader Position := fun s => (.ok s.previousEnd, s)

/-- Moves to the next token and yields the one passed. -/
def advance : Reader Token := fun s => (.ok s.current, s.advance)

def unexpected : Reader α := fun s => (.error s.unexpected, s)

def unexpectedBecause (message : String) : Reader α :=
  fun s => (.error (s.unexpectedBecause message), s)

/-- Passes a token of the given kind, or fails with `e`. -/
def expectOr (kind : Kind) (e : Error) : Reader Token := fun s =>
  if s.kind = kind then (.ok s.current, s.advance) else (.error e, s)

def expect (kind : Kind) : Reader Token := fun s => expectOr kind s.unexpected s

/-- Runs a reader that is bounded by the number of tokens left. -/
def bounded (r : Nat → Reader α) : Reader α := fun s => r s.size s

/-- Reads an item and, behind a comma, `more` of them, or passes the closing token. A comma may
follow the last item. -/
def itemsRound (item : Reader α) (closing : Kind) (message : String) (more : Reader (List α)) :
    Reader (List α) := do
  if (← kind) = closing then
    let _ ← advance
    return []
  let a ← item
  if (← kind) = .comma then
    let _ ← advance
    return a :: (← more)
  else if (← kind) = closing then
    let _ ← advance
    return [a]
  else unexpectedBecause message

def itemsWithin (item : Reader α) (closing : Kind) (message : String) : Nat → Reader (List α)
  | 0 => unexpectedBecause message
  | bound + 1 => itemsRound item closing message (itemsWithin item closing message bound)

/-- Reads items with commas between them up to the closing token. -/
def items (item : Reader α) (closing : Kind) (message : String) : Reader (List α) :=
  bounded (itemsWithin item closing message)

end Reader
end Scriptor
