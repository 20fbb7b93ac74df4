/-! The fewest decimal digits that read back as the same binary number.
Everything is exact arithmetic on natural numbers. -/
namespace CodeAgent.Decimal

/-- The positive binary number `significand · 2 ^ exponent` among its neighbours.
`narrow` says that the gap to the neighbour below is half the gap to the one above. -/
structure Binary where
  significand : Nat
  exponent : Int
  narrow : Bool
deriving DecidableEq, Repr

/-- The decimal number `digits · 10 ^ exponent`. -/
structure Digits where
  digits : Nat
  exponent : Int
deriving DecidableEq, Repr, Inhabited

/-- A number and the two ends of the reals that round to it, over one denominator. -/
structure Rounding where
  low : Nat
  value : Nat
  high : Nat
  den : Nat
  closed : Bool

def Binary.rounding (b : Binary) : Rounding :=
  let shift := b.exponent - 2
  let up := Nat.pow 2 shift.toNat
  { low := (4 * b.significand - if b.narrow then 1 else 2) * up
    value := 4 * b.significand * up
    high := (4 * b.significand + 2) * up
    den := Nat.pow 2 (-shift).toNat
    closed := b.significand % 2 = 0 }

/-- `digits · 10 ^ exponent` rounds to the number. -/
def Rounding.holds (r : Rounding) (d : Digits) : Bool :=
  let left := d.digits * Nat.pow 10 d.exponent.toNat * r.den
  let scale := Nat.pow 10 (-d.exponent).toNat
  if r.closed then r.low * scale ≤ left && left ≤ r.high * scale
  else r.low * scale < left && left < r.high * scale

/-- Of the two multiples of `10 ^ exponent` around the value, the one that rounds to it,
and of two the nearer; a tie goes to the even one. -/
def Rounding.onGrid (r : Rounding) (exponent : Int) : Option Digits :=
  let num := r.value * Nat.pow 10 (-exponent).toNat
  let den := r.den * Nat.pow 10 exponent.toNat
  let below := num / den
  let twice := 2 * (num % den)
  let lower : Digits := ⟨below, exponent⟩
  let upper : Digits := ⟨below + 1, exponent⟩
  match r.holds lower && 0 < below, r.holds upper with
  | true, true => some (if twice < den || (twice = den && below % 2 = 0) then lower else upper)
  | true, false => some lower
  | false, true => some upper
  | false, false => none

/-- The number of decimal digits before the point, at most zero below one. -/
def Rounding.magnitude (r : Rounding) : Int :=
  if r.den ≤ r.value then (Nat.toDigits 10 (r.value / r.den)).length
  else 1 - (Nat.toDigits 10 ((r.den - 1) / r.value)).length

/-- Tries grids of ever finer step. -/
def Rounding.search (r : Rounding) : Nat → Int → Digits
  | 0, exponent => ⟨r.value * Nat.pow 10 (-exponent).toNat / (r.den * Nat.pow 10 exponent.toNat), exponent⟩
  | fuel + 1, exponent =>
    match r.onGrid exponent with
    | some d => d
    | none => r.search fuel (exponent - 1)

/-- Removes zeros at the end of the digits. -/
def Digits.trimZeros : Nat → Digits → Digits
  | 0, d => d
  | fuel + 1, d =>
    if d.digits % 10 = 0 && d.digits ≠ 0 then trimZeros fuel ⟨d.digits / 10, d.exponent + 1⟩ else d

/-- Seventeen digits tell all numbers of sixty-four bits apart. -/
def Binary.shortest (b : Binary) : Digits :=
  let r := b.rounding
  (r.search 18 r.magnitude).trimZeros 20

def Digits.text (d : Digits) : List Char := Nat.toDigits 10 d.digits

/-- Positional notation, without an exponent. -/
def Digits.positional (d : Digits) : List Char :=
  let cs := d.text
  let point := cs.length + d.exponent
  if d.exponent ≥ 0 then cs ++ List.replicate d.exponent.toNat '0'
  else if point > 0 then cs.take point.toNat ++ '.' :: cs.drop point.toNat
  else '0' :: '.' :: (List.replicate (-point).toNat '0' ++ cs)

/-- One digit, the others behind a point, and the exponent. -/
def Digits.scientific (d : Digits) : List Char :=
  let cs := d.text
  let e := d.exponent + (cs.length - 1 : Nat)
  let mantissa := match cs with
    | [] => []
    | [c] => [c]
    | c :: rest => c :: '.' :: rest
  mantissa ++ 'e' :: (toString e).toList

end CodeAgent.Decimal
