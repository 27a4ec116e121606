namespace Scriptor.Number

/-- Decimal digits with a decimal point: `0.d₁d₂…` times ten to `point`. -/
structure Digits where
  digits : List Char
  point : Int

def Digits.ofScaled (coefficient : Nat) (exponent : Int) : Digits :=
  let digits := Nat.toDigits 10 coefficient
  ⟨(digits.reverse.dropWhile (· == '0')).reverse, digits.length + exponent⟩

/-- A binary number `value` with the ends of the interval of reals that round to it, all in units of
`up / down`. -/
structure Rounding where
  value : Nat
  low : Nat
  high : Nat
  /-- Whether the ends themselves round to the number. -/
  closed : Bool
  up : Nat
  down : Nat

/-- The reals that round to `mantissa * 2 ^ exponent`, in quarters of the last place. Below a power
of two the numbers lie twice as dense, so the lower end is nearer. -/
def Rounding.of (mantissa : Nat) (exponent : Int) : Rounding where
  value := 4 * mantissa
  low := 4 * mantissa - (if mantissa = Nat.pow 2 52 ∧ -1074 < exponent then 1 else 2)
  high := 4 * mantissa + 2
  closed := mantissa % 2 = 0
  up := Nat.pow 2 (exponent - 2).toNat
  down := Nat.pow 2 (2 - exponent).toNat

/-- Whether `coefficient * 10 ^ exponent` rounds to the number. -/
def Rounding.holds (r : Rounding) (coefficient : Nat) (exponent : Int) : Bool :=
  let c := coefficient * Nat.pow 10 exponent.toNat * r.down
  let unit := r.up * Nat.pow 10 (-exponent).toNat
  if r.closed then r.low * unit ≤ c && c ≤ r.high * unit
  else r.low * unit < c && c < r.high * unit

/-- The `p` with `10 ^ (p - 1) ≤ value < 10 ^ p`. -/
def Rounding.point (r : Rounding) : Int :=
  let whole := r.value * r.up / r.down
  if whole = 0 then 1 - (Nat.toDigits 10 (r.down / (r.value * r.up))).length
  else (Nat.toDigits 10 whole).length

def Rounding.floor (r : Rounding) (exponent : Int) : Nat :=
  r.value * r.up * Nat.pow 10 (-exponent).toNat / (r.down * Nat.pow 10 exponent.toNat)

/-- Whether the number is nearer to `coefficient * 10 ^ exponent` than to the next multiple. -/
def Rounding.nearer (r : Rounding) (coefficient : Nat) (exponent : Int) : Bool :=
  2 * r.value * r.up * Nat.pow 10 (-exponent).toNat <
    (2 * coefficient + 1) * Nat.pow 10 exponent.toNat * r.down

/-- The coefficient of the nearest multiple of `10 ^ exponent` that rounds to the number. -/
def Rounding.onGrid? (r : Rounding) (exponent : Int) : Option Nat :=
  let below := r.floor exponent
  let above := below + 1
  match r.holds below exponent, r.holds above exponent with
  | true, true => some (if r.nearer below exponent then below else above)
  | true, false => some below
  | false, true => some above
  | false, false => none

/-- The fewest digits that read back as `mantissa * 2 ^ exponent`, and of several such digit strings
the nearest to it; a tie goes up. Seventeen digits are always enough. -/
def shortest (mantissa : Nat) (exponent : Int) : Digits :=
  if mantissa = 0 then ⟨['0'], 1⟩
  else
    let r := Rounding.of mantissa exponent
    let grid (count : Nat) : Int := r.point - count
    let found := (List.range' 1 17).findSome? fun count =>
      (r.onGrid? (grid count)).map fun c => Digits.ofScaled c (grid count)
    found.getD (Digits.ofScaled (r.floor (grid 17)) (grid 17))

end Scriptor.Number
