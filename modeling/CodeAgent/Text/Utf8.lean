/-! Bytes as text. -/
namespace CodeAgent.Text

/-- The bytes at the front of a file that are searched for a zero. -/
def sniffLength : Nat := 8 * 1024

/-- The text of a file's bytes, unless they hold a zero near the front or are no UTF-8. -/
def ofFileBytes? (bytes : ByteArray) : Option String :=
  if (bytes.extract 0 sniffLength).toList.contains 0 then none else String.fromUTF8? bytes

theorem fromUTF8_toUTF8 (s : String) : String.fromUTF8? s.toUTF8 = some s := by
  unfold String.fromUTF8?
  split
  · rfl
  · rename_i broken
    exact absurd s.isValidUTF8 broken

theorem toUTF8_of_fromUTF8 {b : ByteArray} {s : String} (read : String.fromUTF8? b = some s) :
    s.toUTF8 = b := by
  unfold String.fromUTF8? at read
  split at read
  · obtain rfl := Option.some.inj read
    rfl
  · cases read

/-! Bytes that may be no text -/

/-- What a first byte promises: its own bits, and the range of each byte behind it. -/
def sequence? (first : UInt8) : Option (Nat × List (UInt8 × UInt8)) :=
  let any : UInt8 × UInt8 := (0x80, 0xbf)
  let n := first.toNat
  if n < 0x80 then some (n, [])
  else if 0xc2 ≤ n && n ≤ 0xdf then some (n % 32, [any])
  else if n = 0xe0 then some (n % 16, [(0xa0, 0xbf), any])
  else if n = 0xed then some (n % 16, [(0x80, 0x9f), any])
  else if 0xe1 ≤ n && n ≤ 0xef then some (n % 16, [any, any])
  else if n = 0xf0 then some (n % 8, [(0x90, 0xbf), any, any])
  else if n = 0xf4 then some (n % 8, [(0x80, 0x8f), any, any])
  else if 0xf1 ≤ n && n ≤ 0xf3 then some (n % 8, [any, any, any])
  else none

def replacement : Char := '\ufffd'

/-- Reads the bytes that were promised; a byte out of its range ends a broken character and starts the
next one. -/
def readSequence (code : Nat) : List (UInt8 × UInt8) → List UInt8 → Char × List UInt8
  | [], rest => (Char.ofNat code, rest)
  | _ :: _, [] => (replacement, [])
  | (low, high) :: ranges, b :: rest =>
    if low ≤ b && b ≤ high then readSequence (code * 64 + b.toNat % 64) ranges rest
    else (replacement, b :: rest)

/-- The characters, in reverse, each broken one replaced. -/
def mendFrom (done : List Char) : (fuel : Nat) → List UInt8 → List Char
  | 0, _ => done
  | _ + 1, [] => done
  | fuel + 1, b :: rest =>
    match sequence? b with
    | none => mendFrom (replacement :: done) fuel rest
    | some (code, ranges) =>
      let (c, rest) := readSequence code ranges rest
      mendFrom (c :: done) fuel rest

/-- Bytes as text, whatever they are. -/
def mend (bytes : ByteArray) : String :=
  String.ofList (mendFrom [] bytes.size bytes.toList).reverse

/-! Limits in bytes -/

/-- The longest front of whole characters that fits, in reverse. -/
def frontWithin (done : List Char) (max : Nat) : List Char → List Char
  | [] => done
  | c :: rest => if c.utf8Size ≤ max then frontWithin (c :: done) (max - c.utf8Size) rest else done

def cutMark : String := "\n\n... (output truncated)"

/-- The place behind so many bytes, unless it is inside a character or behind the end. -/
def place? (s : String) (n : Nat) : Option s.Pos :=
  if between : String.Pos.Raw.isValid s ⟨n⟩ = true then
    some ⟨⟨n⟩, String.Pos.Raw.isValid_eq_true_iff.mp between⟩
  else none

/-- Goes back byte by byte to a place between characters; there is none below the first byte. -/
def placeBefore? (s : String) : Nat → Option s.Pos
  | 0 => place? s 0
  | n + 1 => (place? s (n + 1)).or (placeBefore? s n)

theorem place_eq_some {s : String} {n : Nat} {p : s.Pos} : place? s n = some p ↔ p.offset = ⟨n⟩ := by
  rw [place?]
  split
  · rw [Option.some_inj, eq_comm]
    exact String.Pos.ext_iff
  · rename_i inside
    refine iff_of_false nofun fun here => inside ?_
    rw [← here]
    exact String.Pos.Raw.isValid_eq_true_iff.mpr p.isValid

/-- The start of a text is between characters. -/
theorem isSome_placeBefore (s : String) (n : Nat) : (placeBefore? s n).isSome := by
  induction n with
  | zero =>
    have start : place? s 0 = some s.startPos := place_eq_some.mpr rfl
    rw [placeBefore?, start]
    rfl
  | succ n ih => rw [placeBefore?, Option.isSome_or, ih, Bool.or_true]

/-- A text of at most `max` bytes as it is; of a longer one what fits, and a mark. -/
def capped (max : Nat) (s : String) : String × Bool :=
  if s.utf8ByteSize ≤ max then (s, false)
  else ((s.sliceTo ((placeBefore? s max).get (isSome_placeBefore s max))).copy ++ cutMark, true)

end CodeAgent.Text
