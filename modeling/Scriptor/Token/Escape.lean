namespace Scriptor.Token

def hexValue? (c : Char) : Option Nat :=
  if '0' ≤ c && c ≤ '9' then some (c.toNat - '0'.toNat)
  else if 'a' ≤ c && c ≤ 'f' then some (c.toNat - 'a'.toNat + 10)
  else if 'A' ≤ c && c ≤ 'F' then some (c.toNat - 'A'.toNat + 10)
  else none

def simpleEscape? : Char → Option Char
  | 'n' => some '\n'
  | 't' => some '\t'
  | 'r' => some '\r'
  | '0' => some '\x00'
  | '\\' => some '\\'
  | '"' => some '"'
  | '\'' => some '\''
  | _ => none

/-- The text that the inside of a string token stands for. After `\x` come up to two hexadecimal
digits, and an unknown escape stands for itself, backslash included. -/
def unescape : List Char → List Char
  | '\\' :: 'x' :: c :: d :: cs =>
    match hexValue? c, hexValue? d with
    | some a, some b => Char.ofNat (16 * a + b) :: unescape cs
    | some a, none => Char.ofNat a :: unescape (d :: cs)
    | none, _ => '\\' :: 'x' :: unescape (c :: d :: cs)
  | ['\\', 'x', c] =>
    match hexValue? c with
    | some a => [Char.ofNat a]
    | none => ['\\', 'x', c]
  | '\\' :: c :: cs =>
    match simpleEscape? c with
    | some d => d :: unescape cs
    | none => '\\' :: c :: unescape cs
  | c :: cs => c :: unescape cs
  | [] => []

end Scriptor.Token
