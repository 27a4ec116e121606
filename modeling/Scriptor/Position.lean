namespace Scriptor

/-- A place in a source file. Lines and columns count from one, each character takes one column, and
only a line feed ends a line. -/
structure Position where
  line : Nat
  column : Nat
  file : String
  deriving DecidableEq

def Position.nowhere : Position := ⟨0, 0, "<null>"⟩

def Position.start (file : String) : Position := ⟨1, 1, file⟩

def Position.next (p : Position) (c : Char) : Position :=
  if c = '\n' then { p with line := p.line + 1, column := 1 } else { p with column := p.column + 1 }

def Position.after (p : Position) (text : List Char) : Position :=
  text.foldl Position.next p

def Position.text (p : Position) : String :=
  toString p.line ++ ":" ++ toString p.column

/-- A stretch of source, from its first place to the place after it. -/
structure Span where
  start : Position
  stop : Position
  deriving DecidableEq

def Span.empty (p : Position) : Span := ⟨p, p⟩

end Scriptor
