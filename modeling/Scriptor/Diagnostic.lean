import Scriptor.Error
import Scriptor.Text.Blank
import Scriptor.Text.Lines

namespace Scriptor.Diagnostic

/-- Characters in front of a mark, so that it ends at column `width`. -/
def pad (fill : Char) (width : Nat) (mark : String) : String :=
  String.ofList (List.replicate (width - 1) fill) ++ mark

def header (e : Error) : String :=
  match e.cause.tip? with
  | some tip => "Error: " ++ e.cause.name ++ " (" ++ tip ++ ")"
  | none => "Error: " ++ e.cause.name

def place (p : Position) : String :=
  "-> " ++ p.file ++ ":" ++ p.text

/-- The column of the caret under a line shown without its leading blanks. -/
def caretColumn (column : Nat) (line : List Char) : Nat :=
  max (column - (line.takeWhile Text.isBlank).length) 1

def shownLine (line : List Char) : List Char :=
  Text.trimEnd (line.dropWhile Text.isBlank)

/-- The source line with a gutter on its left. -/
def excerpt (p : Position) (line : String) : List String :=
  let number := toString p.line
  let gutter := pad ' ' (number.length + 2) "|"
  [gutter,
   number ++ " | " ++ String.ofList (shownLine line.toList),
   gutter ++ " " ++ pad '-' (caretColumn p.column line.toList) "^"]

def lines (e : Error) (source : String) : List String :=
  header e :: place e.position ::
    match Text.line? source e.position.line with
    | some line => excerpt e.position line
    | none => []

end Scriptor.Diagnostic

namespace Scriptor

/-- The diagnostic of an error in a source text; each of its lines ends in a line feed. -/
def Error.diagnostic (e : Error) (source : String) : String :=
  String.join ((Diagnostic.lines e source).map (· ++ "\n"))

end Scriptor
