namespace Scriptor.Number

def digitsValue (digits : List Char) : Nat :=
  digits.foldl (fun n c => 10 * n + (c.toNat - '0'.toNat)) 0

/-- Digits of which the first is no underscore. -/
def natural? (cs : List Char) : Option Nat :=
  match cs with
  | [] => none
  | c :: rest =>
    if c.isDigit && rest.all fun d => d.isDigit || d == '_' then
      some (digitsValue (c :: rest.filter (· != '_')))
    else none

def integer? (text : String) : Option Int :=
  match text.toList with
  | '-' :: cs => (natural? cs).map fun n => -n
  | '+' :: cs => (natural? cs).map fun n => n
  | cs => (natural? cs).map fun n => n

def splitSign : List Char → Bool × List Char
  | '-' :: cs => (true, cs)
  | '+' :: cs => (false, cs)
  | cs => (false, cs)

def exponent? : List Char → Option Int
  | [] => some 0
  | mark :: cs =>
    let (negative, digits) := splitSign cs
    if (mark == 'e' || mark == 'E') && !digits.isEmpty && digits.all Char.isDigit then
      some (if negative then -(digitsValue digits : Int) else digitsValue digits)
    else none

/-- The double nearest to `coefficient * 10 ^ exponent`. Values of ten to 310 and more are infinite,
values below ten to minus 330 are zero. -/
def nearest (coefficient : Nat) (exponent : Int) : Float :=
  let point := (Nat.toDigits 10 coefficient).length + exponent
  if coefficient = 0 || point < -330 then .ofBits 0
  else if 310 < point then .ofBits 0x7ff0000000000000
  else .ofScientific coefficient (exponent < 0) exponent.natAbs

def float? (text : String) : Option Float := do
  let (negative, cs) := splitSign text.toList
  let whole := cs.takeWhile Char.isDigit
  let (fraction, rest) := match cs.dropWhile Char.isDigit with
    | '.' :: cs => (cs.takeWhile Char.isDigit, cs.dropWhile Char.isDigit)
    | cs => ([], cs)
  if whole.isEmpty && fraction.isEmpty then none
  else
    let exponent ← exponent? rest
    let x := nearest (digitsValue (whole ++ fraction)) (exponent - fraction.length)
    return if negative then -x else x

end Scriptor.Number
