import Scriptor.Operator
import Scriptor.Position

namespace Scriptor

/-- The kinds of token; the last eight are reserved words. -/
inductive Kind where
  | eof
  | number
  | string
  | identifier
  | openBracket
  | closeBracket
  | openParen
  | closeParen
  | openDict
  | closeDict
  | assignment
  | equals
  | not
  | notEquals
  | less
  | lessEquals
  | greater
  | greaterEquals
  | or
  | and
  | colon
  | question
  | comma
  | dot
  | arrow
  | plusEquals
  | minusEquals
  | starEquals
  | slashEquals
  | percentEquals
  | plus
  | dash
  | slash
  | star
  | starStar
  | percent
  | functionWord
  | endWord
  | forWord
  | inWord
  | returnWord
  | breakWord
  | trueWord
  | falseWord
  deriving DecidableEq

namespace Kind

def all : List Kind :=
  [.eof, .number, .string, .identifier, .openBracket, .closeBracket, .openParen,
   .closeParen, .openDict, .closeDict, .assignment, .equals, .not, .notEquals, .less, .lessEquals,
   .greater, .greaterEquals, .or,
   .and, .colon, .question, .comma, .dot, .arrow, .plusEquals, .minusEquals,
   .starEquals, .slashEquals,
   .percentEquals, .plus, .dash, .slash, .star, .starStar, .percent, .functionWord,
   .endWord, .forWord, .inWord, .returnWord, .breakWord, .trueWord, .falseWord]

def name : Kind → String
  | .eof => "EOF"
  | .number => "Number"
  | .string => "String"
  | .identifier => "Identifier"
  | .openBracket => "OpenBracket"
  | .closeBracket => "CloseBracket"
  | .openParen => "OpenParen"
  | .closeParen => "CloseParen"
  | .openDict => "OpenDict"
  | .closeDict => "CloseDict"
  | .assignment => "Assignment"
  | .equals => "Equals"
  | .not => "Not"
  | .notEquals => "NotEquals"
  | .less => "Less"
  | .lessEquals => "LessEquals"
  | .greater => "Greater"
  | .greaterEquals => "GreaterEquals"
  | .or => "Or"
  | .and => "And"
  | .colon => "Colon"
  | .question => "Question"
  | .comma => "Comma"
  | .dot => "Dot"
  | .arrow => "Arrow"
  | .plusEquals => "PlusEquals"
  | .minusEquals => "MinusEquals"
  | .starEquals => "StarEquals"
  | .slashEquals => "SlashEquals"
  | .percentEquals => "PercentEquals"
  | .plus => "Plus"
  | .dash => "Dash"
  | .slash => "Slash"
  | .star => "Star"
  | .starStar => "StarStar"
  | .percent => "Percent"
  | .functionWord => "Function"
  | .endWord => "End"
  | .forWord => "For"
  | .inWord => "In"
  | .returnWord => "Return"
  | .breakWord => "Break"
  | .trueWord => "True"
  | .falseWord => "False"

def ofName? (name : String) : Option Kind :=
  all.find? fun k => k.name = name

def ofWord : String → Kind
  | "Function" => .functionWord
  | "end" => .endWord
  | "for" => .forWord
  | "in" => .inWord
  | "return" => .returnWord
  | "break" => .breakWord
  | "true" => .trueWord
  | "false" => .falseWord
  | _ => .identifier

/-- The operator within a compound assignment such as `+=`. -/
def compound? : Kind → Option Kind
  | .plusEquals => some .plus
  | .minusEquals => some .dash
  | .starEquals => some .star
  | .slashEquals => some .slash
  | .percentEquals => some .percent
  | _ => none

def binaryOp? : Kind → Option BinaryOp
  | .or => some .or
  | .and => some .and
  | .equals => some .equals
  | .notEquals => some .notEquals
  | .less => some .less
  | .lessEquals => some .lessEquals
  | .greater => some .greater
  | .greaterEquals => some .greaterEquals
  | .plus => some .add
  | .dash => some .subtract
  | .star => some .multiply
  | .slash => some .divide
  | .percent => some .modulo
  | .starStar => some .power
  | _ => none

end Kind

structure Token where
  kind : Kind
  value : String
  span : Span
  /-- Whether a line break stands between this token and the one before it. -/
  newlineBefore : Bool
  deriving DecidableEq

def Token.text (t : Token) : String :=
  let place := " @ " ++ t.span.start.text
  match t.kind with
  | .string | .identifier | .number => t.kind.name ++ " (" ++ t.value ++ ")" ++ place
  | _ => t.kind.name ++ place

def Token.eof (p : Position) (newlineBefore : Bool) : Token :=
  ⟨.eof, "EOF", .empty p, newlineBefore⟩

end Scriptor
