import Scriptor.Number.Binary64
import Scriptor.Number.Shortest

namespace Scriptor.Number

/-- The choices in which written forms differ. -/
structure Layout where
  infinity : String
  /-- What a number without fraction ends in. -/
  whole : String
  /-- Whether a number with this decimal point is written without exponent. -/
  positional : Int → Bool

def Layout.positionalText (l : Layout) (d : Digits) : String :=
  let count := d.digits.length
  if d.point ≤ 0 then
    "0." ++ String.ofList (List.replicate (-d.point).toNat '0' ++ d.digits)
  else if count ≤ d.point then
    String.ofList (d.digits ++ List.replicate (d.point - count).toNat '0') ++ l.whole
  else
    String.ofList (d.digits.take d.point.toNat ++ '.' :: d.digits.drop d.point.toNat)

def exponentText (d : Digits) : String :=
  let fraction := d.digits.drop 1
  String.ofList (d.digits.take 1 ++ if fraction.isEmpty then [] else '.' :: fraction)
    ++ "e" ++ toString (d.point - 1)

def Layout.text (l : Layout) (x : Float) : String :=
  let signed (negative : Bool) (text : String) := if negative then "-" ++ text else text
  match Binary64.ofFloat x with
  | .nan => "NaN"
  | .infinite negative => signed negative l.infinity
  | .finite negative mantissa exponent =>
    let d := shortest mantissa exponent
    signed negative (if l.positional d.point then l.positionalText d else exponentText d)

end Scriptor.Number
