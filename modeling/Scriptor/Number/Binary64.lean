namespace Scriptor.Number

/-- A double-precision number; the finite one is the mantissa times two to the exponent. -/
inductive Binary64 where
  | nan
  | infinite (negative : Bool)
  | finite (negative : Bool) (mantissa : Nat) (exponent : Int)
  deriving DecidableEq

/-- The mantissa is below `2 ^ 53` and the exponent at least `-1074`. -/
def Binary64.ofFloat (x : Float) : Binary64 :=
  let bits := x.toBits.toNat
  let negative := decide (Nat.pow 2 63 ≤ bits)
  let biased : Nat := bits / Nat.pow 2 52 % 2048
  let fraction : Nat := bits % Nat.pow 2 52
  if biased = 2047 then
    if fraction = 0 then .infinite negative else .nan
  else if biased = 0 then .finite negative fraction (-1074)
  else .finite negative (fraction + Nat.pow 2 52) ((biased : Int) - 1075)

/-- The bits of `mantissa * 2 ^ exponent`, for a mantissa below `2 ^ 53` and a value that needs no
rounding. -/
def magnitudeBits (mantissa : Nat) (exponent : Int) : Nat :=
  if mantissa = 0 then 0
  else
    let shift := min (52 - mantissa.log2) (exponent + 1074).toNat
    let full := mantissa * Nat.pow 2 shift
    if full < Nat.pow 2 52 then full
    else (exponent - shift + 1075).toNat * Nat.pow 2 52 + (full - Nat.pow 2 52)

def Binary64.toFloat : Binary64 → Float
  | .nan => .ofBits 0x7ff8000000000000
  | .infinite negative => .ofBits (if negative then 0xfff0000000000000 else 0x7ff0000000000000)
  | .finite negative mantissa exponent =>
    let bits := magnitudeBits mantissa exponent
    .ofBits (UInt64.ofNat (if negative then Nat.pow 2 63 + bits else bits))

/-- Whether the sign bit is set, as it is for `-0`. What is not a number is one `Float`, whose sign
cannot be read. -/
def isNegative (x : Float) : Bool :=
  match Binary64.ofFloat x with
  | .nan => false
  | .infinite negative => negative
  | .finite negative _ _ => negative

/-- The remainder of a division whose quotient is cut off toward zero. It is exact and has the sign
of the dividend. -/
def remainder (x y : Float) : Float :=
  match Binary64.ofFloat x, Binary64.ofFloat y with
  | .finite negative m p, .finite _ n q =>
    if n = 0 then Binary64.nan.toFloat
    else
      let e := min p q
      let rest := (m * Nat.pow 2 (p - e).toNat) % (n * Nat.pow 2 (q - e).toNat)
      (Binary64.finite negative rest e).toFloat
  | .finite _ _ _, .infinite _ => x
  | _, _ => Binary64.nan.toFloat

end Scriptor.Number
