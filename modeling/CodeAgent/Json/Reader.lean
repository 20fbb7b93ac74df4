import CodeAgent.Json.Basic
import CodeAgent.Text.Digits

/-! Reading documents from text.
Numbers without point and exponent are integers while sixty-four bits hold them;
all others are doubles, computed from at most nineteen or twenty digits and a power of ten. -/
namespace CodeAgent.Json

/-- The greatest integer of sixty-four bits. -/
def maxWord : Nat := Nat.pow 2 64 - 1

def digitValue (c : Char) : Nat := c.toNat - '0'.toNat

def skipBlanks : List Char → List Char
  | c :: rest =>
    if c = ' ' || c = '\n' || c = '\t' || c = '\r' then skipBlanks rest else c :: rest
  | [] => []

/-- `significand · 10 ^ exponent`, divided or multiplied in machine floats; `none` when infinite. -/
def scale (significand : Nat) (exponent : Int) : Option Double :=
  let rec small : Nat → Float → Int → Option Float
    | 0, f, _ => some f
    | fuel + 1, f, e =>
      if e.natAbs ≤ 308 then
        if 0 ≤ e then
          let g := f * Float.ofScientific 1 false e.natAbs
          if g.isInf then none else some g
        else some (f / Float.ofScientific 1 false e.natAbs)
      else if f == 0.0 then some f
      else if 0 ≤ e then none
      else small fuel (f / 1e308) (e + 308)
  (small 5 significand.toUInt64.toFloat exponent).map .ofFloat

def signed (negative : Bool) (d : Double) : Double :=
  if negative then .ofFloat (-d.toFloat) else d

/-- The digits at the front, as many as keep the number within sixty-four bits:
the number, the count of digits taken, and what follows. -/
def takeDigits (n count : Nat) : List Char → Nat × Nat × List Char
  | c :: rest =>
    if c.isDigit && n * 10 + digitValue c ≤ maxWord then
      takeDigits (n * 10 + digitValue c) (count + 1) rest
    else (n, count, c :: rest)
  | [] => (n, count, [])

def startsWithDigit : List Char → Bool
  | c :: _ => c.isDigit
  | [] => false

/-- An exponent's digits; one above thirty-one bits counts as that bound. -/
def exponentValue (digits : List Char) : Nat :=
  digits.foldl (fun n c => min (n * 10 + digitValue c) (Nat.pow 2 31)) 0

/-- What follows the letter of an exponent. -/
def readExponent (negative : Bool) (significand : Nat) (start : Int) (cs : List Char) :
    Option (Double × List Char) :=
  let (down, cs) := match cs with
    | '+' :: rest => (false, rest)
    | '-' :: rest => (true, rest)
    | _ => (false, cs)
  let digits := cs.takeWhile Char.isDigit
  let rest := cs.dropWhile Char.isDigit
  if digits.isEmpty then none
  else
    let e := exponentValue digits
    if e ≥ Nat.pow 2 31 then
      if significand ≠ 0 && !down then none else some (signed negative .zero, rest)
    else (scale significand (if down then start - e else start + e)).map
      fun d => (signed negative d, rest)

def finish (negative : Bool) (significand : Nat) (exponent : Int) (cs : List Char) :
    Option (Double × List Char) :=
  match cs with
  | 'e' :: rest => readExponent negative significand exponent rest
  | 'E' :: rest => readExponent negative significand exponent rest
  | _ => (scale significand exponent).map fun d => (signed negative d, cs)

/-- What follows the point of a fraction. -/
def readFraction (negative : Bool) (significand : Nat) (start : Int) (cs : List Char) :
    Option (Double × List Char) :=
  let (n, count, rest) := takeDigits significand 0 cs
  if startsWithDigit rest then
    finish negative n (start - count) (rest.dropWhile Char.isDigit)
  else if count = 0 then none
  else finish negative n (start - count) rest

/-- A number after its sign. -/
def readNumber (negative : Bool) (cs : List Char) : Option (Number × List Char) :=
  match cs with
  | [] => none
  | c :: rest =>
    if !c.isDigit then none
    else if c = '0' && startsWithDigit rest then none
    else
      let (n, _, rest) := takeDigits 0 0 cs
      if startsWithDigit rest then
        let more := rest.takeWhile Char.isDigit
        let rest := rest.dropWhile Char.isDigit
        match rest with
        | '.' :: fraction =>
          (readFraction negative n more.length fraction).map fun r => (.float r.1, r.2)
        | _ => (finish negative n more.length rest).map fun r => (.float r.1, r.2)
      else
        match rest with
        | '.' :: fraction => (readFraction negative n 0 fraction).map fun r => (.float r.1, r.2)
        | 'e' :: e => (readExponent negative n 0 e).map fun r => (.float r.1, r.2)
        | 'E' :: e => (readExponent negative n 0 e).map fun r => (.float r.1, r.2)
        | _ =>
          if !negative then some (.int n, rest)
          else if n = 0 || n > Nat.pow 2 63 then
            some (.float (signed true (.ofFloat n.toUInt64.toFloat)), rest)
          else some (.int (-(n : Int)), rest)

def hex4 (a b c d : Char) : Option Nat := do
  let a ← Text.hexValue a
  let b ← Text.hexValue b
  let c ← Text.hexValue c
  let d ← Text.hexValue d
  return ((a * 16 + b) * 16 + c) * 16 + d

/-- The rest of a quoted text, its characters gathered in reverse. A code unit of a pair
stands only before its partner. -/
def readQuoted (done : List Char) : List Char → Option (String × List Char)
  | [] => none
  | '"' :: rest => some (String.ofList done.reverse, rest)
  | '\\' :: 'u' :: a :: b :: c :: d :: rest =>
    match hex4 a b c d with
    | none => none
    | some n =>
      if 0xD800 ≤ n && n < 0xDC00 then
        match rest with
        | '\\' :: 'u' :: e :: f :: g :: h :: rest =>
          match hex4 e f g h with
          | none => none
          | some m =>
            if 0xDC00 ≤ m && m < 0xE000 then
              readQuoted (Char.ofNat (0x10000 + (n - 0xD800) * 0x400 + (m - 0xDC00)) :: done) rest
            else none
        | _ => none
      else if 0xDC00 ≤ n && n < 0xE000 then none
      else readQuoted (Char.ofNat n :: done) rest
  | '\\' :: c :: rest =>
    match c with
    | '"' => readQuoted ('"' :: done) rest
    | '\\' => readQuoted ('\\' :: done) rest
    | '/' => readQuoted ('/' :: done) rest
    | 'b' => readQuoted ('\x08' :: done) rest
    | 'f' => readQuoted ('\x0c' :: done) rest
    | 'n' => readQuoted ('\n' :: done) rest
    | 'r' => readQuoted ('\r' :: done) rest
    | 't' => readQuoted ('\t' :: done) rest
    | _ => none
  | c :: rest => if c.toNat < 0x20 then none else readQuoted (c :: done) rest

mutual

/-- A document at the front of the text. `depth` bounds the nesting, `fuel` the length. -/
def readValue : (fuel depth : Nat) → List Char → Option (Json × List Char)
  | 0, _, _ => none
  | fuel + 1, depth, cs =>
    match skipBlanks cs with
    | 'n' :: 'u' :: 'l' :: 'l' :: rest => some (.null, rest)
    | 't' :: 'r' :: 'u' :: 'e' :: rest => some (.bool true, rest)
    | 'f' :: 'a' :: 'l' :: 's' :: 'e' :: rest => some (.bool false, rest)
    | '"' :: rest => (readQuoted [] rest).map fun r => (.str r.1, r.2)
    | '-' :: rest => (readNumber true rest).map fun r => (.num r.1, r.2)
    | '[' :: rest =>
      if depth ≤ 1 then none
      else
        match skipBlanks rest with
        | ']' :: rest => some (.arr [], rest)
        | rest => (readItems fuel (depth - 1) [] rest).map fun r => (.arr r.1, r.2)
    | '\x7b' :: rest =>
      if depth ≤ 1 then none
      else
        match skipBlanks rest with
        | '\x7d' :: rest => some (.obj [], rest)
        | rest => (readMembers fuel (depth - 1) [] rest).map fun r => (.obj r.1, r.2)
    | rest => (readNumber false rest).map fun r => (.num r.1, r.2)

def readItems : (fuel depth : Nat) → List Json → List Char → Option (List Json × List Char)
  | 0, _, _, _ => none
  | fuel + 1, depth, done, cs =>
    match readValue fuel depth cs with
    | none => none
    | some (v, rest) =>
      match skipBlanks rest with
      | ',' :: rest => readItems fuel depth (v :: done) rest
      | ']' :: rest => some ((v :: done).reverse, rest)
      | _ => none

def readMembers : (fuel depth : Nat) → List (String × Json) → List Char →
    Option (List (String × Json) × List Char)
  | 0, _, _, _ => none
  | fuel + 1, depth, done, cs =>
    match skipBlanks cs with
    | '"' :: rest =>
      match readQuoted [] rest with
      | none => none
      | some (key, rest) =>
        match skipBlanks rest with
        | ':' :: rest =>
          match readValue fuel depth rest with
          | none => none
          | some (v, rest) =>
            match skipBlanks rest with
            | ',' :: rest => readMembers fuel depth ((key, v) :: done) rest
            | '\x7d' :: rest => some (((key, v) :: done).reverse, rest)
            | _ => none
        | _ => none
    | _ => none

end

/-- The deepest nesting read, plus one. -/
def maxDepth : Nat := 128

/-- A whole text as a document, members in source order. -/
def parse? (text : String) : Option Json :=
  let cs := text.toList
  match readValue (cs.length + 1) maxDepth cs with
  | some (v, rest) => if (skipBlanks rest).isEmpty then some v else none
  | none => none

end CodeAgent.Json
