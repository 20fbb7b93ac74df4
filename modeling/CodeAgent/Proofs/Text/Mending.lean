import CodeAgent.Proofs.Text.Capping
import CodeAgent.Text.Lines
import CodeAgent.Text.Word
import Mathlib

/-! Text that passes as bytes: the bytes of a text are read as that text. -/
namespace CodeAgent.Text

/- Bytes -/

theorem toList_loop (bytes : ByteArray) (i : Nat) (front : List UInt8) :
    ByteArray.toList.loop bytes i front = front.reverse ++ bytes.data.toList.drop i := by
  induction i, front using ByteArray.toList.loop.induct bytes with
  | case1 i front inside ih =>
    have bound : i < bytes.data.toList.length := by simpa using inside
    have byte : bytes.get! i = bytes.data.toList[i] := by
      rw [Array.getElem_toList]
      exact getElem!_pos bytes.data i (by simpa using inside)
    rw [ByteArray.toList.loop, if_pos inside, ih, List.drop_eq_getElem_cons bound, byte]
    simp
  | case2 i front outside =>
    have bound : bytes.data.toList.length ≤ i := by simpa using outside
    rw [ByteArray.toList.loop, if_neg outside, List.drop_eq_nil_of_le bound, List.append_nil]

theorem toList_bytes (bytes : ByteArray) : bytes.toList = bytes.data.toList := by
  rw [ByteArray.toList, toList_loop]
  rfl

/-- The bytes of characters. -/
def encoded (cs : List Char) : List UInt8 := cs.flatMap String.utf8EncodeChar

theorem length_encoded (cs : List Char) : (encoded cs).length = String.utf8Len cs := by
  induction cs with
  | nil => rfl
  | cons c cs ih =>
    rw [encoded] at ih ⊢
    rw [List.flatMap_cons, List.length_append, ih, String.length_utf8EncodeChar, String.utf8Len_cons]
    omega

theorem length_le_utf8Len (cs : List Char) : cs.length ≤ String.utf8Len cs := by
  induction cs with
  | nil => exact Nat.le_refl _
  | cons c cs ih =>
    have one := c.utf8Size_pos
    rw [String.utf8Len_cons, List.length_cons]
    omega

theorem toList_toUTF8 (text : String) : text.toUTF8.data.toList = encoded text.toList := by
  rw [String.toUTF8_eq_toByteArray, ← String.utf8Encode_toList, List.utf8Encode,
    List.toList_data_toByteArray, encoded]

/- Reading -/

theorem sequence_one : ∀ n < 128, sequence? (UInt8.ofNat n) = some (n, []) := by decide

theorem sequence_two : ∀ n < 30, sequence? (UInt8.ofNat (n + 2 + 192)) = some (n + 2, [(0x80, 0xbf)]) := by
  decide

theorem sequence_three : ∀ n < 16, sequence? (UInt8.ofNat (n + 224)) = some (n,
    [if n = 0 then (0xa0, 0xbf) else if n = 13 then (0x80, 0x9f) else (0x80, 0xbf), (0x80, 0xbf)]) := by
  decide

theorem sequence_four : ∀ n < 5, sequence? (UInt8.ofNat (n + 240)) = some (n,
    [if n = 0 then (0x90, 0xbf) else if n = 4 then (0x80, 0x8f) else (0x80, 0xbf), (0x80, 0xbf),
      (0x80, 0xbf)]) := by
  decide

theorem readSequence_next {low high : UInt8} {n : Nat} (small : n < 64) (above : low.toNat ≤ n + 128)
    (below : n + 128 ≤ high.toNat) (code : Nat) (ranges : List (UInt8 × UInt8)) (rest : List UInt8) :
    readSequence code ((low, high) :: ranges) (UInt8.ofNat (n + 128) :: rest) =
      readSequence (code * 64 + n) ranges rest := by
  have value : (UInt8.ofNat (n + 128)).toNat = n + 128 := UInt8.toNat_ofNat_of_lt (by change _ < 256; omega)
  have inside : (low ≤ UInt8.ofNat (n + 128) && UInt8.ofNat (n + 128) ≤ high) = true := by
    simp only [UInt8.le_iff_toNat_le, value, above, below, decide_true, Bool.and_self]
  have bits : (n + 128) % 64 = n := by omega
  rw [readSequence, if_pos inside, value, bits]

theorem readSequence_any {n : Nat} (small : n < 64) (code : Nat) (ranges : List (UInt8 × UInt8))
    (rest : List UInt8) : readSequence code ((0x80, 0xbf) :: ranges) (UInt8.ofNat (n + 128) :: rest) =
      readSequence (code * 64 + n) ranges rest :=
  readSequence_next small (by simp) (by simp; omega) code ranges rest

/-- The first byte of a character promises the others, and they keep the promise. -/
theorem readSequence_encoded (c : Char) :
    ∃ first behind code ranges, String.utf8EncodeChar c = first :: behind ∧
      sequence? first = some (code, ranges) ∧
      ∀ rest, readSequence code ranges (behind ++ rest) = (c, rest) := by
  have valid : c.val.toNat < 0xd800 ∨ (0xdfff < c.val.toNat ∧ c.val.toNat < 0x110000) := c.valid
  have whole {n : Nat} (same : n = c.val.toNat) : Char.ofNat n = c := same ▸ Char.ofNat_toNat c
  rw [String.utf8EncodeChar]
  generalize c.val.toNat = v at valid whole
  split
  · refine ⟨_, [], v, [], rfl, sequence_one v (by omega), fun rest => ?_⟩
    rw [List.nil_append, readSequence, whole rfl]
  split
  · obtain ⟨n, high⟩ : ∃ n, v / 64 % 32 = n + 2 := ⟨v / 64 % 32 - 2, by omega⟩
    rw [high]
    refine ⟨_, _, _, _, rfl, sequence_two n (by omega), fun rest => ?_⟩
    rw [List.cons_append, readSequence_any (by omega), List.nil_append, readSequence, whole (by omega)]
  split
  · refine ⟨_, _, _, _, rfl, sequence_three (v / 4096 % 16) (by omega), fun rest => ?_⟩
    -- the range of the second byte leaves out what a shorter sequence tells, and the surrogates
    have next : readSequence (v / 4096 % 16) [if v / 4096 % 16 = 0 then (0xa0, 0xbf)
        else if v / 4096 % 16 = 13 then (0x80, 0x9f) else (0x80, 0xbf), (0x80, 0xbf)]
        (UInt8.ofNat (v / 64 % 64 + 128) :: UInt8.ofNat (v % 64 + 128) :: rest) =
        readSequence (v / 4096 % 16 * 64 + v / 64 % 64) [(0x80, 0xbf)]
          (UInt8.ofNat (v % 64 + 128) :: rest) := by
      split
      · exact readSequence_next (by omega) (by simp; omega) (by simp; omega) _ _ _
      split
      · exact readSequence_next (by omega) (by simp) (by simp; omega) _ _ _
      · exact readSequence_any (by omega) _ _ _
    rw [List.cons_append, List.cons_append, List.nil_append, next, readSequence_any (by omega),
      readSequence, whole (by omega)]
  · refine ⟨_, _, _, _, rfl, sequence_four (v / 262144 % 8) (by omega), fun rest => ?_⟩
    have next : readSequence (v / 262144 % 8) [if v / 262144 % 8 = 0 then (0x90, 0xbf)
        else if v / 262144 % 8 = 4 then (0x80, 0x8f) else (0x80, 0xbf), (0x80, 0xbf), (0x80, 0xbf)]
        (UInt8.ofNat (v / 4096 % 64 + 128) :: UInt8.ofNat (v / 64 % 64 + 128) ::
          UInt8.ofNat (v % 64 + 128) :: rest) =
        readSequence (v / 262144 % 8 * 64 + v / 4096 % 64) [(0x80, 0xbf), (0x80, 0xbf)]
          (UInt8.ofNat (v / 64 % 64 + 128) :: UInt8.ofNat (v % 64 + 128) :: rest) := by
      split
      · exact readSequence_next (by omega) (by simp; omega) (by simp; omega) _ _ _
      split
      · exact readSequence_next (by omega) (by simp) (by simp; omega) _ _ _
      · exact readSequence_any (by omega) _ _ _
    rw [List.cons_append, List.cons_append, List.cons_append, List.nil_append, next,
      readSequence_any (by omega), readSequence_any (by omega), readSequence, whole (by omega)]

/-- Characters that were read are kept. -/
theorem mendFrom_done (done : List Char) (fuel : Nat) (bytes : List UInt8) :
    ∃ more, mendFrom done fuel bytes = more ++ done := by
  induction fuel generalizing done bytes with
  | zero => exact ⟨[], rfl⟩
  | succ fuel ih =>
    cases bytes with
    | nil => exact ⟨[], rfl⟩
    | cons b rest =>
      have further (c : Char) (bytes : List UInt8) :
          ∃ more, mendFrom (c :: done) fuel bytes = more ++ done := by
        obtain ⟨more, same⟩ := ih (c :: done) bytes
        exact ⟨more ++ [c], by rw [same, List.append_assoc]; rfl⟩
      rw [mendFrom]
      split
      · exact further replacement rest
      · exact further _ _

theorem mendFrom_encoded (cs : List Char) (done : List Char) {fuel : Nat} (enough : cs.length ≤ fuel)
    (rest : List UInt8) :
    mendFrom done fuel (encoded cs ++ rest) = mendFrom (cs.reverse ++ done) (fuel - cs.length) rest := by
  induction cs generalizing done fuel with
  | nil => rfl
  | cons c cs ih =>
    obtain ⟨fuel, rfl⟩ : ∃ n, fuel = n + 1 := ⟨fuel - 1, by rw [List.length_cons] at enough; omega⟩
    obtain ⟨first, behind, code, ranges, bytes, promised, kept⟩ := readSequence_encoded c
    have front : encoded (c :: cs) ++ rest = first :: (behind ++ (encoded cs ++ rest)) := by
      rw [encoded, List.flatMap_cons, bytes, ← encoded, List.append_assoc, List.cons_append]
    rw [front, mendFrom, promised]
    dsimp only
    rw [kept, ih _ (by rw [List.length_cons] at enough; omega), List.reverse_cons, List.append_assoc,
      List.length_cons, Nat.add_sub_add_right]
    rfl

theorem mend_toUTF8 (text : String) : mend text.toUTF8 = text := by
  have bytes : text.toUTF8.toList = encoded text.toList ++ [] := by
    rw [toList_bytes, toList_toUTF8, List.append_nil]
  have enough : text.toList.length ≤ text.toUTF8.size := by
    rw [← ByteArray.size_data, ← Array.length_toList, toList_toUTF8, length_encoded]
    exact length_le_utf8Len _
  have nothing (done : List Char) (fuel : Nat) : mendFrom done fuel [] = done := by cases fuel <;> rfl
  rw [mend, bytes, mendFrom_encoded _ [] enough, nothing, List.append_nil, List.reverse_reverse,
    String.ofList_toList]

/-! Reports of lines that a program printed, whole and cut off.
The lines of a report are those that were printed. Where it was cut, a piece of one line is left, and the
mark of the cut adds two lines. -/

/-- Lines, each with the line feed that ends it. -/
def ended (ls : List (List Char)) : List Char := ls.flatMap (· ++ ['\n'])

@[simp] theorem ended_nil : ended [] = [] := rfl

@[simp] theorem ended_cons (line : List Char) (ls : List (List Char)) :
    ended (line :: ls) = line ++ '\n' :: ended ls := by simp [ended]

@[simp] theorem ended_append (xs ys : List (List Char)) : ended (xs ++ ys) = ended xs ++ ended ys :=
  List.flatMap_append

/-- The last line of the mark of a cut. -/
def markLine : List Char := "... (output truncated)".toList

theorem utf8Len_ended (ls : List (List Char)) :
    String.utf8Len (ended ls) = (ls.map fun line => String.utf8Len line + 1).sum := by
  induction ls with
  | nil => rfl
  | cons line ls ih =>
    have feed : '\n'.utf8Size = 1 := rfl
    rw [ended_cons, String.utf8Len_append, String.utf8Len_cons, ih, feed, List.map_cons, List.sum_cons]
    omega

/-- Characters without a line break. -/
def Unbroken (cs : List Char) : Prop := '\n' ∉ cs ∧ '\r' ∉ cs

instance (cs : List Char) : Decidable (Unbroken cs) := inferInstanceAs (Decidable (_ ∧ _))

section

variable {ls : List (List Char)} {last : List Char}

theorem toList_cutMark : cutMark.toList = '\n' :: '\n' :: markLine := by decide +kernel

theorem unbroken_markLine : Unbroken markLine := by decide +kernel

theorem pieces_ended (unbroken : ∀ line ∈ ls, Unbroken line) (rest : List Char) :
    pieces '\n' (ended ls ++ rest) = ls ++ pieces '\n' rest := by
  induction ls with
  | nil => rfl
  | cons line ls ih =>
    rw [ended_cons, List.append_assoc, List.cons_append,
      pieces_append (unbroken line List.mem_cons_self).1,
      ih fun other member => unbroken other (List.mem_cons_of_mem _ member), List.cons_append]

theorem map_unreturned (unbroken : ∀ line ∈ ls, Unbroken line) :
    ls.map (fun cs => String.ofList (if cs.getLast? = some '\r' then cs.dropLast else cs)) =
      ls.map String.ofList := by
  apply List.map_congr_left
  intro line member
  rw [if_neg]
  intro returned
  exact (unbroken line member).2 (List.mem_of_getLast? returned)

theorem reportLines_ended (unbroken : ∀ line ∈ ls, Unbroken line) :
    reportLines (String.ofList (ended ls)) = ls.map String.ofList := by
  have split : pieces '\n' (ended ls) = ls ++ [[]] := by
    simpa [pieces] using pieces_ended unbroken []
  rw [reportLines, String.toList_ofList, split, if_pos List.getLast?_concat, List.dropLast_concat,
    map_unreturned unbroken]

theorem reportLines_marked (unbroken : ∀ line ∈ ls, Unbroken line) (whole : Unbroken last) :
    reportLines (String.ofList (ended ls ++ last) ++ cutMark) =
      (ls ++ [last, [], markLine]).map String.ofList := by
  have text : (String.ofList (ended ls ++ last) ++ cutMark).toList =
      ended (ls ++ [last, []]) ++ markLine := by
    rw [String.toList_append, toList_cutMark]
    simp
  have before : ∀ line ∈ ls ++ [last, []], Unbroken line := by
    intro line member
    rcases List.mem_append.mp member with inside | final
    · exact unbroken line inside
    · rcases List.mem_cons.mp final with rfl | empty
      · exact whole
      · obtain rfl := List.mem_singleton.mp empty
        decide
  have all : ∀ line ∈ (ls ++ [last, []]) ++ [markLine], Unbroken line := by
    intro line member
    rcases List.mem_append.mp member with inside | mark
    · exact before line inside
    · obtain rfl := List.mem_singleton.mp mark
      exact unbroken_markLine
  have split : pieces '\n' (ended (ls ++ [last, []]) ++ markLine) = (ls ++ [last, []]) ++ [markLine] := by
    rw [pieces_ended before, pieces_of_not_mem unbroken_markLine.1]
  have shown : markLine ≠ [] := by decide +kernel
  rw [reportLines, text, split, List.getLast?_concat, if_neg (by simpa using shown), map_unreturned all,
    List.append_assoc]
  rfl

theorem trimStartChars_prefix (cs rest : List Char) :
    trimStartChars cs <+: trimStartChars (cs ++ rest) := by
  rw [trimStartChars, trimStartChars, List.dropWhile_append]
  split
  · rename_i none
    rw [List.isEmpty_iff.mp none]
    exact List.nil_prefix
  · exact List.prefix_append _ _

/-- A front of lines that is not all of them ends within one line, or with it. -/
theorem exists_line_of_front {front back : List Char} (whole : ended ls = front ++ back)
    (some : back ≠ []) : ∃ before line after cut more,
      ls = before ++ line :: after ∧ front = ended before ++ cut ∧ line = cut ++ more := by
  induction ls generalizing front with
  | nil => exact absurd (List.append_eq_nil_iff.mp whole.symm).2 some
  | cons line ls ih =>
    rw [ended_cons] at whole
    -- the front reaches behind the line, or it ends within it
    rcases List.append_eq_append_iff.mp whole with ⟨cut, rfl, rest⟩ | ⟨more, rfl, rest⟩
    · cases cut with
      | nil => exact ⟨[], line, ls, line, [], rfl, by simp, by simp⟩
      | cons c cut =>
        obtain ⟨rfl, further⟩ := List.cons.inj rest
        obtain ⟨before, next, after, part, more, rfl, rfl, rfl⟩ := ih further
        exact ⟨line :: before, _, after, part, more, rfl, by simp, rfl⟩
    · exact ⟨[], _, ls, front, more, rfl, rfl, rfl⟩

/-- A cut within a line, or behind it, is where the line does not fit any more. -/
theorem Cut.over_line {max : Nat} {before after : List (List Char)} {piece more front back : List Char}
    (cut : Cut max (ended (before ++ (piece ++ more) :: after)) front back)
    (place : front = ended before ++ piece) :
    max < String.utf8Len (ended (before ++ [piece ++ more])) := by
  obtain ⟨c, tail, rest⟩ := List.exists_cons_of_ne_nil (l := more ++ ['\n']) (by simp)
  have line : ended (before ++ [piece ++ more]) = front ++ c :: tail := by
    rw [place, ← rest]
    simp
  have behind : back = c :: (tail ++ ended after) := by
    refine List.append_cancel_left (?_ : front ++ _ = front ++ _)
    rw [← cut.whole, place, ← List.cons_append, ← rest]
    simp
  have full := cut.full c (by rw [behind]; rfl)
  rw [line, String.utf8Len_append, String.utf8Len_cons]
  omega

end

end CodeAgent.Text
