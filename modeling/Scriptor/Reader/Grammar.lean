import Scriptor.Token.Basic
import Scriptor.Ty

namespace Scriptor

inductive Power where
  | default
  | conditional
  | logicalOr
  | logicalAnd
  | relational
  | additive
  | multiplicative
  | unary
  | exponent
  | call
  | primary
  deriving DecidableEq

def Power.all : List Power :=
  [.default, .conditional, .logicalOr, .logicalAnd, .relational, .additive, .multiplicative, .unary,
   .exponent, .call, .primary]

/-- A higher rank binds tighter. -/
def Power.rank : Power → Nat
  | .default => 0
  | .conditional => 1
  | .logicalOr => 2
  | .logicalAnd => 3
  | .relational => 4
  | .additive => 5
  | .multiplicative => 6
  | .unary => 7
  | .exponent => 8
  | .call => 9
  | .primary => 10

/-- Forms of expression that a token opens. -/
inductive Leading where
  | number
  | string
  | boolean (value : Bool)
  | symbol
  | unary (op : UnaryOp)
  | group
  | array
  | dict

/-- Forms of expression that a token after a complete expression continues. -/
inductive Trailing where
  /-- The right operand holds what binds tighter than `right`. -/
  | binary (op : BinaryOp) (right : Power)
  | conditional
  | call
  | subscript
  | member

inductive Opening where
  | function
  | loop
  | ret
  | brk

inductive TypeForm where
  | name
  | array
  | dict

structure Grammar where
  leading : Kind → Option Leading
  trailing : Kind → Option (Power × Trailing)
  opening : Kind → Option Opening
  typeForm : Kind → Option TypeForm

namespace Grammar

def full : Grammar where
  leading
    | .number => some .number
    | .string => some .string
    | .trueWord => some (.boolean true)
    | .falseWord => some (.boolean false)
    | .identifier => some .symbol
    | .dash => some (.unary .negate)
    | .not => some (.unary .not)
    | .openParen => some .group
    | .openBracket => some .array
    | .openDict => some .dict
    | _ => none
  trailing
    | .question => some (.conditional, .conditional)
    | .or => some (.logicalOr, .binary .or .logicalOr)
    | .and => some (.logicalAnd, .binary .and .logicalAnd)
    | .less => some (.relational, .binary .less .relational)
    | .lessEquals => some (.relational, .binary .lessEquals .relational)
    | .greater => some (.relational, .binary .greater .relational)
    | .greaterEquals => some (.relational, .binary .greaterEquals .relational)
    | .equals => some (.relational, .binary .equals .relational)
    | .notEquals => some (.relational, .binary .notEquals .relational)
    | .plus => some (.additive, .binary .add .additive)
    | .dash => some (.additive, .binary .subtract .additive)
    | .star => some (.multiplicative, .binary .multiply .multiplicative)
    | .slash => some (.multiplicative, .binary .divide .multiplicative)
    | .percent => some (.multiplicative, .binary .modulo .multiplicative)
    -- groups to the right
    | .starStar => some (.exponent, .binary .power .unary)
    | .openParen => some (.call, .call)
    | .openBracket => some (.call, .subscript)
    | .dot => some (.call, .member)
    | _ => none
  opening
    | .functionWord => some .function
    | .forWord => some .loop
    | .returnWord => some .ret
    | .breakWord => some .brk
    | _ => none
  typeForm
    | .identifier => some .name
    | .openBracket => some .array
    | .openDict => some .dict
    | _ => none

def empty : Grammar where
  leading _ := none
  trailing _ := none
  opening _ := none
  typeForm _ := none

end Grammar
end Scriptor
