import Scriptor.Script.Expression
import Scriptor.Token.Pattern

namespace Scriptor.Script

inductive Form where
  /-- A name, a number or a string. -/
  | atom (text : List Char)
  /-- An expression in parentheses. -/
  | group (inner : Form)
  | unary (op : UnaryOp) (operand : Form)
  | binary (left : Form) (op : BinaryOp) (right : Form)
  | conditional (test consequent alternate : Form)
  | call (callee : Form) (args : List Form)
  | subscript (indexed index : Form)
  | member (object : Form) (property : List Char)
  | array (elements : List Form)
  /-- `new name(args)` -/
  | construct (name : List Char) (args : List Form)
  /-- `(parameter) => body` -/
  | arrow (parameter : List Char) (body : Form)
  /-- `...list` -/
  | spread (list : Form)

namespace Form

mutual

@[simp] def bare : Form → Form
  | .atom text => .atom text
  | .group inner => inner.bare
  | .unary op operand => .unary op operand.bare
  | .binary left op right => .binary left.bare op right.bare
  | .conditional test consequent alternate => .conditional test.bare consequent.bare alternate.bare
  | .call callee args => .call callee.bare (bareAll args)
  | .subscript indexed index => .subscript indexed.bare index.bare
  | .member object property => .member object.bare property
  | .array elements => .array (bareAll elements)
  | .construct name args => .construct name (bareAll args)
  | .arrow parameter body => .arrow parameter body.bare
  | .spread list => .spread list.bare

@[simp] def bareAll : List Form → List Form
  | [] => []
  | f :: fs => f.bare :: bareAll fs

end

def isUnary : Form → Bool
  | .unary _ _ => true
  | _ => false

mutual

/-- Whether no power has a prefix expression without parentheses as its base. -/
@[simp] def isSound : Form → Bool
  | .atom _ => true
  | .group inner => inner.isSound
  | .unary _ operand => operand.isSound
  | .binary left op right => !(op = .power && left.isUnary) && left.isSound && right.isSound
  | .conditional test consequent alternate =>
    test.isSound && consequent.isSound && alternate.isSound
  | .call callee args => callee.isSound && areSound args
  | .subscript indexed index => indexed.isSound && index.isSound
  | .member object _ => object.isSound
  | .array elements => areSound elements
  | .construct _ args => areSound args
  | .arrow _ body => body.isSound
  | .spread list => list.isSound

@[simp] def areSound : List Form → Bool
  | [] => true
  | f :: fs => f.isSound && areSound fs

end

open Pattern (Split isWordPart run)

def skip (cs : List Char) : List Char := cs.dropWhile (· == ' ')

def reserved : List String :=
  ["break", "case", "catch", "class", "const", "continue", "debugger", "default", "delete",
   "do", "else", "enum", "export", "extends", "finally", "for", "function", "if", "import", "in",
   "instanceof", "let", "new", "return", "static", "super", "switch", "throw", "try", "typeof",
   "var", "void", "while", "with", "yield"]

def name? (cs : List Char) : Option Split :=
  (Pattern.word.split? cs).filter fun s => String.ofList s.1 ∉ reserved

def fraction : List Char → Split
  | '.' :: cs => (run Char.isDigit cs).after ['.']
  | cs => ([], cs)

/-- Digits, perhaps with a point. A leading zero stands alone, and no word follows at once. -/
def number? : List Char → Option Split
  | [] => none
  | c :: cs =>
    let whole := run Char.isDigit (c :: cs)
    let fractional := fraction whole.2
    if c.isDigit && (c != '0' || whole.1.length == 1) && !fractional.2.head?.any isWordPart then
      some (fractional.after whole.1)
    else none

def isHexDigit (c : Char) : Bool :=
  c.isDigit || c ∈ ['a', 'b', 'c', 'd', 'e', 'f', 'A', 'B', 'C', 'D', 'E', 'F']

def stringTail : List Char → Option Split
  | '"' :: cs => some (['"'], cs)
  | '\\' :: 'x' :: a :: b :: cs =>
    if isHexDigit a && isHexDigit b then
      (stringTail cs).map (Split.after ['\\', 'x', a, b])
    else none
  | '\\' :: 'u' :: a :: b :: c :: d :: cs =>
    if isHexDigit a && isHexDigit b && isHexDigit c && isHexDigit d then
      (stringTail cs).map (Split.after ['\\', 'u', a, b, c, d])
    else none
  | '\\' :: c :: cs =>
    if c ∈ ['"', '\\', 'n', 'r', 't'] then (stringTail cs).map (Split.after ['\\', c]) else none
  | c :: cs => if c ∈ ['\\', '\n', '\r'] then none else (stringTail cs).map (Split.after [c])
  | [] => none

def string? : List Char → Option Split
  | '"' :: cs => (stringTail cs).map (Split.after ['"'])
  | _ => none

def atom? (cs : List Char) : Option Split :=
  (number? cs).or ((string? cs).or (name? cs))

/-- A spelling stands before those it starts with. -/
def operators : List BinaryOp :=
  [.equals, .notEquals, .power, .lessEquals, .greaterEquals, .or, .and, .less, .greater, .add,
   .subtract, .multiply, .divide, .modulo]

def operator? (cs : List Char) : Option (BinaryOp × List Char) :=
  operators.findSome? fun op => (Pattern.literal ((symbol op).toList ++ [' ']) cs).map fun s =>
    (op, s.2)

/-- A prefix operator. Two signs in a row are another operator. -/
def sign? : List Char → Option (UnaryOp × List Char)
  | '-' :: cs => if cs.head? = some '-' then none else some (.negate, cs)
  | '!' :: cs => if cs.head? = some '=' then none else some (.not, cs)
  | _ => none

def rank : BinaryOp → Nat
  | .or => 1
  | .and => 2
  | .equals | .notEquals => 3
  | .less | .lessEquals | .greater | .greaterEquals => 4
  | .add | .subtract => 5
  | .multiply | .divide | .modulo => 6
  | .power => 7

/-- The rank from which on operators belong to the right operand. Powers group to the right. -/
def rightRank (op : BinaryOp) : Nat := if op = .power then rank op else rank op + 1

/-- The name in parentheses that an arrow may follow. -/
def parameter? : Form → Option (List Char)
  | .group (.atom text) => if (name? text).isSome then some text else none
  | _ => none

mutual

@[simp] def content : Nat → List Char → Option (Form × List Char)
  | 0, _ => none
  | n + 1, cs => do
    let (f, cs) ← operation n 0 cs
    match parameter? f, Pattern.literal [' ', '=', '>', ' '] cs with
    | some parameter, some (_, cs) =>
      let (body, cs) ← content n cs
      return (.arrow parameter body, cs)
    | _, _ =>
      match skip cs with
      | '?' :: cs =>
        let (consequent, cs) ← content n cs
        match skip cs with
        | ':' :: cs =>
          let (alternate, cs) ← content n cs
          return (.conditional f consequent alternate, cs)
        | _ => none
      | _ => return (f, cs)

@[simp] def operation : Nat → Nat → List Char → Option (Form × List Char)
  | 0, _, _ => none
  | n + 1, least, cs => do
    let (f, cs) ← operand n cs
    operate n least f cs

@[simp] def operate : Nat → Nat → Form → List Char → Option (Form × List Char)
  | 0, _, _, _ => none
  | n + 1, least, left, cs =>
    match operator? (skip cs) with
    | some (op, cs') =>
      if least ≤ rank op then do
        let (right, cs'') ← operation n (rightRank op) cs'
        operate n least (.binary left op right) cs''
      else some (left, cs)
    | none => some (left, cs)

@[simp] def operand : Nat → List Char → Option (Form × List Char)
  | 0, _ => none
  | n + 1, cs =>
    match sign? (skip cs) with
    | some (op, cs) => do
      let (f, cs) ← operand n cs
      return (.unary op f, cs)
    | none => tight n cs

@[simp] def tight : Nat → List Char → Option (Form × List Char)
  | 0, _ => none
  | n + 1, cs => do
    let (f, cs) ← primary n cs
    extend n f cs

@[simp] def extend : Nat → Form → List Char → Option (Form × List Char)
  | 0, _, _ => none
  | n + 1, left, cs =>
    match skip cs with
    | '(' :: cs => do
      let (args, cs) ← items n ')' cs
      extend n (.call left args) cs
    | '[' :: cs => do
      let (index, cs) ← content n cs
      match skip cs with
      | ']' :: cs => extend n (.subscript left index) cs
      | _ => none
    | '.' :: cs => do
      let (property, cs) ← Pattern.word.split? cs
      extend n (.member left property) cs
    | _ => some (left, cs)

@[simp] def primary : Nat → List Char → Option (Form × List Char)
  | 0, _ => none
  | n + 1, cs =>
    match skip cs with
    | '(' :: cs => do
      let (inner, cs) ← content n cs
      match skip cs with
      | ')' :: cs => return (.group inner, cs)
      | _ => none
    | '[' :: cs => do
      let (elements, cs) ← items n ']' cs
      return (.array elements, cs)
    | 'n' :: 'e' :: 'w' :: ' ' :: cs => do
      let (name, cs) ← name? cs
      match cs with
      | '(' :: cs =>
        let (args, cs) ← items n ')' cs
        return (.construct name args, cs)
      | _ => none
    | cs => (atom? cs).map fun s => (.atom s.1, s.2)

@[simp] def items : Nat → Char → List Char → Option (List Form × List Char)
  | 0, _, _ => none
  | n + 1, closing, cs =>
    if (skip cs).head? = some closing then some ([], (skip cs).drop 1)
    else do
      let (f, cs) ← item n (skip cs)
      match skip cs with
      | ',' :: cs =>
        let (fs, cs) ← items n closing cs
        return (f :: fs, cs)
      | c :: cs => if c = closing then return ([f], cs) else none
      | [] => none

@[simp] def item : Nat → List Char → Option (Form × List Char)
  | 0, _ => none
  | n + 1, '.' :: '.' :: '.' :: cs => do
    let (list, cs) ← content n cs
    return (.spread list, cs)
  | n + 1, cs => content n cs

end

/-- The form of a text that is an expression as a whole. -/
def read? (text : String) : Option Form :=
  match content (8 * text.length + 8) text.toList with
  | some (f, []) => if f.isSound then some f else none
  | _ => none

end Scriptor.Script.Form
