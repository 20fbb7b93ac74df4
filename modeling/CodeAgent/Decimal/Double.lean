import CodeAgent.Decimal.Shortest
import CodeAgent.Text.Digits

/-! Binary floating-point numbers by their bits.
A number is its bits, so that equality is decidable. One precision is turned into the other by the bits alone;
arithmetic goes through the machine's floats. -/
namespace CodeAgent

/-- Sixty-four bits: sign, eleven bits of exponent, fifty-two of fraction. -/
structure Double where
  bits : UInt64
deriving DecidableEq, Repr, Inhabited

/-- Thirty-two bits: sign, eight bits of exponent, twenty-three of fraction. -/
structure Single where
  bits : UInt32
deriving DecidableEq, Repr, Inhabited

namespace Decimal

/-- What the bits of a number say, apart from its sign. -/
inductive Magnitude where
  | zero
  | finite (b : Binary)
  | infinite
  | undefined
deriving DecidableEq, Repr

/-- `width` is that of the fraction, `bias` the exponent of one, `top` the greatest biased exponent. -/
def Magnitude.ofFields (width bias top biased fraction : Nat) : Magnitude :=
  if biased = top then if fraction = 0 then .infinite else .undefined
  else if biased = 0 then
    if fraction = 0 then .zero
    else .finite ⟨fraction, (1 : Int) - bias - width, false⟩
  else .finite ⟨Nat.pow 2 width + fraction, (biased : Int) - bias - width, fraction = 0 && biased > 1⟩

/-- A quotient to the nearest whole number; a half goes to the even one. -/
def nearest (num den : Nat) : Nat :=
  let below := num / den
  let twice := 2 * (num % den)
  if twice < den || (twice = den && below % 2 = 0) then below else below + 1

end Decimal

namespace Double

open Decimal

def ofFloat (f : Float) : Double := ⟨f.toBits⟩
def toFloat (d : Double) : Float := Float.ofBits d.bits

def zero : Double := ⟨0⟩

def ofNat (n : Nat) : Double := ofFloat (Float.ofNat n)
def ofInt (i : Int) : Double := ofFloat (Float.ofInt i)

def negative (d : Double) : Bool := d.bits.toNat ≥ Nat.pow 2 63

def magnitude (d : Double) : Magnitude :=
  let n := d.bits.toNat % Nat.pow 2 63
  .ofFields 52 1023 2047 (n / Nat.pow 2 52) (n % Nat.pow 2 52)

/-- The quotient of two counts. -/
def ratio (a b : Nat) : Double := ofFloat (Float.ofNat a / Float.ofNat b)

/-- The mean of counts with this sum, to one place; a half goes away from zero. -/
def meanToTenth (sum count : Nat) : Double :=
  if count = 0 then zero
  else ofFloat ((Float.ofNat sum / Float.ofNat count * 10.0).round / 10.0)

def timesHundred (d : Double) : Double := ofFloat (d.toFloat * 100.0)

/-- The whole number that is nearest to the number without its sign; a half goes to the even one. -/
def nearestWhole (d : Double) : Nat :=
  match d.magnitude with
  | .finite b =>
    Decimal.nearest (b.significand * Nat.pow 2 b.exponent.toNat) (Nat.pow 2 (-b.exponent).toNat)
  | _ => 0

/-- Sixteen hexadecimal digits of the bits. -/
def hex (d : Double) : String := String.ofList (Text.digitsIn 16 16 '0' d.bits.toNat)

/-- The shortest decimal that reads back: with a point from 0.00001 up to seventeen places,
with an exponent otherwise. -/
def text (d : Double) : String :=
  let sign := if d.negative then "-" else ""
  match d.magnitude with
  | .zero => sign ++ "0.0"
  | .infinite => sign ++ "inf"
  | .undefined => "NaN"
  | .finite b =>
    let s := b.shortest
    let point := s.text.length + s.exponent
    sign ++ String.ofList
      (if s.exponent ≥ 0 && point ≤ 16 then s.positional ++ ['.', '0']
       else if -5 < point && point ≤ 16 then s.positional
       else s.scientific)

end Double

namespace Single

open Decimal

/-- The bits of the same number as a double, apart from the sign. A number below the least exponent is
brought to a leading one, since a double's exponents reach further. -/
def widened (biased fraction : Nat) : Nat :=
  if biased = 255 then 2047 * Nat.pow 2 52 + fraction * Nat.pow 2 29
  else if biased = 0 then
    if fraction = 0 then 0
    else (873 + fraction.log2) * Nat.pow 2 52 + fraction * Nat.pow 2 (52 - fraction.log2)
  else (biased + 896) * Nat.pow 2 52 + fraction * Nat.pow 2 29

def toDouble (s : Single) : Double :=
  let n := s.bits.toNat
  ⟨.ofNat (n / Nat.pow 2 31 * Nat.pow 2 63
    + widened (n % Nat.pow 2 31 / Nat.pow 2 23) (n % Nat.pow 2 23))⟩

/-- The bits of the nearest number, apart from the sign; what is too large becomes infinite. Rounding up may
carry into the exponent. -/
def narrowed (biased fraction : Nat) : Nat :=
  if biased = 2047 then
    255 * Nat.pow 2 23 + if fraction = 0 then 0 else max (fraction / Nat.pow 2 29) 1
  else if biased ≤ 896 then
    nearest (if biased = 0 then fraction else Nat.pow 2 52 + fraction) (Nat.pow 2 (926 - max biased 1))
  else
    min ((biased - 897) * Nat.pow 2 23 + nearest (Nat.pow 2 52 + fraction) (Nat.pow 2 29))
      (255 * Nat.pow 2 23)

def ofDouble (d : Double) : Single :=
  let n := d.bits.toNat
  ⟨.ofNat (n / Nat.pow 2 63 * Nat.pow 2 31
    + narrowed (n % Nat.pow 2 63 / Nat.pow 2 52) (n % Nat.pow 2 52))⟩

def negative (s : Single) : Bool := s.bits.toNat ≥ Nat.pow 2 31

def magnitude (s : Single) : Magnitude :=
  let n := s.bits.toNat % Nat.pow 2 31
  .ofFields 23 127 255 (n / Nat.pow 2 23) (n % Nat.pow 2 23)

/-- The shortest decimal that reads back, never with an exponent, whole numbers without a point. -/
def text (s : Single) : String :=
  let sign := if s.negative then "-" else ""
  match s.magnitude with
  | .zero => sign ++ "0"
  | .infinite => sign ++ "inf"
  | .undefined => "NaN"
  | .finite b => sign ++ String.ofList b.shortest.positional

/-- The double that is written with the same digits. -/
def asWritten (s : Single) : Double :=
  match s.magnitude with
  | .finite b =>
    let d := b.shortest
    let f := Float.ofScientific d.digits (d.exponent < 0) d.exponent.natAbs
    .ofFloat (if s.negative then -f else f)
  | _ => s.toDouble

end Single

end CodeAgent
