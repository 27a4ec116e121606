namespace Scriptor.Text

/-- A line feed ends a line, alone or after one carriage return; neither belongs to the line. What
follows the last line feed is a line only if it is not empty. -/
def lines : List Char → List (List Char)
  | [] => []
  | '\n' :: cs => [] :: lines cs
  | '\r' :: '\n' :: cs => [] :: lines cs
  | c :: cs =>
    match lines cs with
    | [] => [[c]]
    | l :: ls => (c :: l) :: ls

/-- The line with the given number, counted from one. -/
def line? (text : String) : Nat → Option String
  | 0 => none
  | n + 1 => (lines text.toList)[n]?.map String.ofList

end Scriptor.Text
