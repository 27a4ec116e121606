namespace Scriptor

inductive BinaryOp where
  | or
  | and
  | equals
  | notEquals
  | less
  | lessEquals
  | greater
  | greaterEquals
  | add
  | subtract
  | multiply
  | divide
  | modulo
  | power
  deriving DecidableEq

namespace BinaryOp

def all : List BinaryOp :=
  [.or, .and, .equals, .notEquals, .less, .lessEquals, .greater, .greaterEquals, .add,
   .subtract, .multiply, .divide, .modulo, .power]

def symbol : BinaryOp → String
  | .or => "||"
  | .and => "&&"
  | .equals => "=="
  | .notEquals => "!="
  | .less => "<"
  | .lessEquals => "<="
  | .greater => ">"
  | .greaterEquals => ">="
  | .add => "+"
  | .subtract => "-"
  | .multiply => "*"
  | .divide => "/"
  | .modulo => "%"
  | .power => "**"

def isLogical : BinaryOp → Bool
  | .or | .and => true
  | _ => false

def isEquality : BinaryOp → Bool
  | .equals | .notEquals => true
  | _ => false

def isOrdering : BinaryOp → Bool
  | .less | .lessEquals | .greater | .greaterEquals => true
  | _ => false

end BinaryOp

inductive UnaryOp where
  | negate
  | not
  deriving DecidableEq

def UnaryOp.symbol : UnaryOp → String
  | .negate => "-"
  | .not => "!"

end Scriptor
