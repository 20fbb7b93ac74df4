/-! Numbers and bytes as digits. -/
namespace CodeAgent.Text

/-- The digits of a number, filled up on the left to a width. -/
def digitsIn (base width : Nat) (fill : Char) (n : Nat) : List Char :=
  let cs := Nat.toDigits base n
  List.replicate (width - cs.length) fill ++ cs

/-- A number at the right end of a column. -/
def column (width n : Nat) : String := String.ofList (digitsIn 10 width ' ' n)

def zeroPadded (width n : Nat) : String := String.ofList (digitsIn 10 width '0' n)

/-! Hexadecimal digits -/

def hexValue (c : Char) : Option Nat :=
  if '0' ≤ c && c ≤ '9' then some (c.toNat - '0'.toNat)
  else if 'a' ≤ c && c ≤ 'f' then some (c.toNat - 'a'.toNat + 10)
  else if 'A' ≤ c && c ≤ 'F' then some (c.toNat - 'A'.toNat + 10)
  else none

def hexDigits (bytes : ByteArray) : String :=
  String.ofList (bytes.toList.flatMap fun b => digitsIn 16 2 '0' b.toNat)

/-- The bytes that pairs of digits stand for, up to the first pair that is none. -/
def bytesOfHex (cs : List Char) : List UInt8 :=
  match cs with
  | a :: b :: rest =>
    match hexValue a, hexValue b with
    | some a, some b => (a * 16 + b).toUInt8 :: bytesOfHex rest
    | _, _ => []
  | _ => []

def ofHexDigits (s : String) : ByteArray := ⟨(bytesOfHex s.toList).toArray⟩

end CodeAgent.Text
