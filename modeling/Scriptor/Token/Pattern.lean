import Scriptor.Text.Blank
import Scriptor.Token.Basic
import Scriptor.Token.Escape

namespace Scriptor

inductive Pattern where
  /-- A reserved word or an identifier. -/
  | word
  | number
  | blank
  /-- A string between two of the given quotes, on one line. -/
  | string (quote : Char)
  /-- A comment, up to the end of its line. -/
  | comment
  /-- Punctuation or an operator: what the pattern matches, and the text of the token made of it. -/
  | symbol (kind : Kind) (spelling value : String)

namespace Pattern

def isWordStart (c : Char) : Bool :=
  c.isAlpha || c == '_'

def isWordPart (c : Char) : Bool :=
  c.isAlphanum || c == '_'

abbrev Split := List Char × List Char

def run (p : Char → Bool) (cs : List Char) : Split :=
  (cs.takeWhile p, cs.dropWhile p)

def Split.after (cs : List Char) (s : Split) : Split :=
  (cs ++ s.1, s.2)

def fraction : List Char → Split
  | '.' :: cs =>
    let digits := run Char.isDigit cs
    if digits.1.isEmpty then ([], '.' :: cs) else digits.after ['.']
  | cs => ([], cs)

def sign : List Char → Split
  | '+' :: cs => (['+'], cs)
  | '-' :: cs => (['-'], cs)
  | cs => ([], cs)

def exponent : List Char → Split
  | [] => ([], [])
  | mark :: cs =>
    let signed := sign cs
    let digits := run Char.isDigit signed.2
    if (mark == 'e' || mark == 'E') && !digits.1.isEmpty then digits.after (mark :: signed.1)
    else ([], mark :: cs)

/-- What is left of a string after its opening quote. A backslash takes the next character with
it. -/
def stringTail (quote : Char) : List Char → Option Split
  | [] => none
  | '\\' :: [] => none
  | '\\' :: c :: cs => if c = '\n' then none else (stringTail quote cs).map (Split.after ['\\', c])
  | c :: cs =>
    if c = quote then some ([c], cs)
    else if c = '\n' then none
    else (stringTail quote cs).map (Split.after [c])

def literal : List Char → List Char → Option Split
  | [], cs => some ([], cs)
  | s :: ss, c :: cs => if s = c then (literal ss cs).map (Split.after [c]) else none
  | _ :: _, [] => none

def split? : Pattern → List Char → Option Split
  | _, [] => none
  | .word, c :: cs => if isWordStart c then some ((run isWordPart cs).after [c]) else none
  | .number, c :: cs =>
    if c.isDigit then
      let whole := run Char.isDigit (c :: cs)
      let fractional := fraction whole.2
      let scaled := exponent fractional.2
      some (whole.1 ++ fractional.1 ++ scaled.1, scaled.2)
    else none
  | .blank, c :: cs => if Text.isBlank c then some ((run Text.isBlank cs).after [c]) else none
  | .string quote, c :: cs =>
    if c = quote then (stringTail quote cs).map (Split.after [c]) else none
  | .comment, c :: cs =>
    (literal ['/', '/'] (c :: cs)).map fun s => (run (· != '\n') s.2).after s.1
  | .symbol _ spelling _, c :: cs => literal spelling.toList (c :: cs)

/-- The kind and value of a lexeme, unless it is skipped. -/
def token? : Pattern → List Char → Option (Kind × String)
  | .word, lexeme => some (Kind.ofWord (String.ofList lexeme), String.ofList lexeme)
  | .number, lexeme => some (.number, String.ofList lexeme)
  | .string _, lexeme => some (.string, String.ofList (Token.unescape (lexeme.drop 1).dropLast))
  | .symbol kind _ value, _ => some (kind, value)
  | .blank, _ | .comment, _ => none

/-- The text that is passed where the pattern matches. A symbol is passed by the text of its token,
whatever the pattern has matched. -/
def consumed : Pattern → List Char → List Char
  | .symbol _ _ value, _ => value.toList
  | _, lexeme => lexeme

/-- All patterns. A spelling stands before those it starts with. -/
def all : List Pattern :=
  [.word, .number, .blank, .string '"', .string '\'', .comment,
   .symbol .openBracket "[" "[", .symbol .closeBracket "]" "]", .symbol .openParen "(" "(",
   .symbol .closeParen ")" ")", .symbol .openDict "<<" "<<", .symbol .closeDict ">>" ">>",
   .symbol .equals "==" "==", .symbol .notEquals "!=" "!=", .symbol .not "!" "!",
   .symbol .assignment "=" "=", .symbol .lessEquals "<=" "<=", .symbol .less "<" "<",
   .symbol .greaterEquals ">=" ">=", .symbol .greater ">" ">", .symbol .or "||" "||",
   .symbol .and "&&" "&&", .symbol .colon ":" ":", .symbol .question "?" "?",
   .symbol .comma "," ",", .symbol .dot "." ".", .symbol .arrow "->" "->",
   .symbol .plusEquals "+=" "+=", .symbol .minusEquals "-=" "-=", .symbol .starEquals "*=" "*=",
   .symbol .slashEquals "/=" "/=", .symbol .percentEquals "%=" "%=", .symbol .starStar "**" "**",
   .symbol .plus "+" "+", .symbol .dash "-" "-", .symbol .slash "/" "/", .symbol .star "*" "*",
   .symbol .percent "%" "%"]

/-- The first pattern that matches, with its split of the input. -/
def first? (cs : List Char) : Option (Pattern × Split) :=
  all.findSome? fun p => (p.split? cs).map fun s => (p, s)

theorem literal_ne_nil {spelling cs : List Char} {s : Split} (hs : spelling ≠ [])
    (h : literal spelling cs = some s) : s.1 ≠ [] := by
  cases spelling with
  | nil => exact absurd rfl hs
  | cons a as =>
    cases cs with
    | nil => simp [literal] at h
    | cons c cs =>
      simp only [literal] at h
      split at h
      · obtain ⟨t, _, rfl⟩ := Option.map_eq_some_iff.1 h
        simp [Split.after]
      · cases h

def isSpelled : Pattern → Bool
  | .symbol _ spelling value => !spelling.toList.isEmpty && !value.toList.isEmpty
  | _ => true

theorem spelling_ne_nil {kind : Kind} {spelling value : String}
    (h : .symbol kind spelling value ∈ all) : spelling.toList ≠ [] ∧ value.toList ≠ [] := by
  have hs : all.all isSpelled = true := by decide +kernel
  simpa [isSpelled] using List.all_eq_true.1 hs _ h

theorem split?_ne_nil {p : Pattern} (hp : p ∈ all) {cs : List Char} {s : Split}
    (h : p.split? cs = some s) : s.1 ≠ [] := by
  cases cs with
  | nil => cases p <;> cases h
  | cons c cs =>
    cases p with
    | word | blank =>
      simp only [split?, Option.ite_none_right_eq_some, Option.some.injEq] at h
      simp [← h.2, Split.after]
    | number =>
      simp only [split?, Option.ite_none_right_eq_some, Option.some.injEq] at h
      simp [← h.2, run, h.1]
    | string quote =>
      simp only [split?, Option.ite_none_right_eq_some] at h
      obtain ⟨t, _, rfl⟩ := Option.map_eq_some_iff.1 h.2
      simp [Split.after]
    | comment =>
      obtain ⟨t, ht, rfl⟩ := Option.map_eq_some_iff.1 h
      simp [Split.after, literal_ne_nil (by simp) ht]
    | symbol kind spelling value => exact literal_ne_nil (spelling_ne_nil hp).1 h

theorem first?_ne_nil {cs : List Char} {p : Pattern} {s : Split} (h : first? cs = some (p, s)) :
    s.1 ≠ [] := by
  obtain ⟨q, hq, h⟩ := List.exists_of_findSome?_eq_some h
  obtain ⟨t, ht, h⟩ := Option.map_eq_some_iff.1 h
  cases h
  exact split?_ne_nil hq ht

theorem consumed_ne_nil {cs : List Char} {p : Pattern} {s : Split} (h : first? cs = some (p, s)) :
    p.consumed s.1 ≠ [] := by
  obtain ⟨q, hq, hqs⟩ := List.exists_of_findSome?_eq_some h
  obtain ⟨t, -, hqs⟩ := Option.map_eq_some_iff.1 hqs
  cases hqs
  cases p with
  | symbol kind spelling value => exact (spelling_ne_nil hq).2
  | word | number | blank | string quote | comment => exact first?_ne_nil h

end Pattern
end Scriptor
