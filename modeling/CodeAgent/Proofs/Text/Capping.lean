import CodeAgent.Text.Utf8
import Mathlib.Data.String.Basic

/-! Texts cut to a limit in bytes.
The search for a place between characters finds the last one within the limit, so what is kept is the
longest front of whole characters. What is behind more bytes than the limit does not count. -/
namespace CodeAgent.Text

variable {max : Nat} {s : String}

/- The search -/

/-- The search ends, at the last place between characters that is not behind where it began. -/
theorem placeBefore_eq (s : String) (n : Nat) : placeBefore? s n = some (s.posLE ⟨n⟩) := by
  induction n with
  | zero =>
    rw [placeBefore?, place_eq_some]
    have first : (s.posLE ⟨0⟩).offset ≤ ⟨0⟩ := (String.posLE_eq_iff.mp rfl).1
    exact String.Pos.Raw.ext (Nat.le_zero.mp first)
  | succ n ih =>
    rw [placeBefore?, ih]
    cases here : place? s (n + 1) with
    | some p =>
      have stands := place_eq_some.mp here
      rw [Option.some_or, Option.some_inj, eq_comm, String.posLE_eq_iff, stands]
      refine ⟨String.Pos.Raw.le_refl, fun q within => ?_⟩
      rw [String.Pos.le_iff, stands]
      exact within
    | none =>
      rw [Option.none_or, Option.some_inj, eq_comm, String.posLE_eq_iff]
      obtain ⟨within, last⟩ := String.posLE_eq_iff.mp (rfl : s.posLE ⟨n⟩ = _)
      refine ⟨Nat.le_succ_of_le within, fun q near => last q ?_⟩
      -- no place is at `n + 1` itself
      rcases Nat.lt_or_eq_of_le near with before | there
      · exact Nat.le_of_lt_succ before
      · have found := (place_eq_some (p := q)).mpr (String.Pos.Raw.ext there)
        rw [here] at found
        cases found

/-- The front of a text that is within a limit of bytes and that no longer one is. -/
structure LongestFront (max : Nat) (s front : String) : Prop where
  starts : ∃ rest, s = front ++ rest
  fits : front.utf8ByteSize ≤ max
  longest (other rest : String) : s = other ++ rest → other.utf8ByteSize ≤ max →
    other.utf8ByteSize ≤ front.utf8ByteSize

theorem longestFront_posLE (max : Nat) (s : String) :
    LongestFront max s (s.sliceTo (s.posLE ⟨max⟩)).copy ∧
      (s.sliceTo (s.posLE ⟨max⟩)).copy.utf8ByteSize = (s.posLE ⟨max⟩).offset.byteIdx := by
  obtain ⟨within, last⟩ := String.posLE_eq_iff.mp (rfl : s.posLE ⟨max⟩ = _)
  have splits := (s.posLE ⟨max⟩).splits
  have size : (s.sliceTo (s.posLE ⟨max⟩)).copy.utf8ByteSize = (s.posLE ⟨max⟩).offset.byteIdx :=
    (congrArg String.Pos.Raw.byteIdx splits.offset_eq_rawEndPos).symm
  refine ⟨⟨⟨_, splits.eq_append⟩, ?_, fun other rest whole fits => ?_⟩, size⟩
  · rw [size]
    exact within
  · rw [size]
    exact last ⟨other.rawEndPos, String.Pos.Raw.isValid_iff_exists_append.mpr ⟨other, rest, whole, rfl⟩⟩ fits

/- Limits -/

/-- The front of characters that is within a limit of bytes, and what is behind it. -/
structure Cut (max : Nat) (cs front back : List Char) : Prop where
  whole : cs = front ++ back
  within : String.utf8Len front ≤ max
  full : ∀ c, back.head? = some c → max < String.utf8Len front + c.utf8Size

theorem LongestFront.exists_cut {front : String} (longest : LongestFront max s front) :
    ∃ back, Cut max s.toList front.toList back := by
  obtain ⟨rest, whole⟩ := longest.starts
  refine ⟨rest.toList, ⟨by rw [whole, String.toList_append], ?_, fun c next => ?_⟩⟩
  · rw [String.utf8Len_toList]
    exact longest.fits
  · obtain ⟨more, same⟩ := List.head?_eq_some_iff.mp next
    have further : s = String.ofList (front.toList ++ [c]) ++ String.ofList more := by
      rw [← String.toList_inj, whole]
      simp [same]
    by_contra fits
    have size : (String.ofList (front.toList ++ [c])).utf8ByteSize = front.utf8ByteSize + c.utf8Size := by
      rw [String.utf8ByteSize_ofList, String.utf8Len_append, String.utf8Len_toList, String.utf8Len_cons,
        String.utf8Len_nil, Nat.zero_add]
    rw [String.utf8Len_toList] at fits
    have longer := longest.longest _ _ further (by omega)
    have one := c.utf8Size_pos
    omega

/-- Less than one character of a limit is left. -/
theorem Cut.near {cs front back : List Char} (cut : Cut max cs front back) (some : back ≠ []) :
    max < String.utf8Len front + 4 := by
  obtain ⟨c, rest, rfl⟩ := List.exists_cons_of_ne_nil some
  have full := cut.full c rfl
  have size := c.utf8Size_le_four
  omega

/-- A front that is within the limit as well goes no further. -/
theorem Cut.unique {cs front back front' back' : List Char} (cut : Cut max cs front back)
    (cut' : Cut max cs front' back') : front = front' := by
  have further {f b f' b' more : List Char} (first : Cut max cs f b) (second : Cut max cs f' b')
      (same : f' = f ++ more) (rest : b = more ++ b') : f = f' := by
    cases more with
    | nil => rw [same, List.append_nil]
    | cons c more =>
      have full := first.full c (by rw [rest]; rfl)
      have within := second.within
      rw [same, String.utf8Len_append, String.utf8Len_cons] at within
      omega
  rcases List.append_eq_append_iff.mp (cut.whole.symm.trans cut'.whole) with ⟨more, same, rest⟩ | ⟨more, same, rest⟩
  · exact further cut cut' same rest
  · exact (further cut' cut same rest).symm

theorem Cut.ne_nil {front back : List Char} (cut : Cut max s.toList front back)
    (beyond : max < s.utf8ByteSize) : back ≠ [] := by
  rintro rfl
  have within := cut.within
  rw [← List.append_nil front, ← cut.whole, String.utf8Len_toList] at within
  omega

theorem LongestFront.near {front : String} (longest : LongestFront max s front)
    (beyond : max < s.utf8ByteSize) : max < front.utf8ByteSize + 4 := by
  obtain ⟨back, cut⟩ := longest.exists_cut
  rw [← String.utf8Len_toList]
  exact cut.near (cut.ne_nil beyond)

/- Texts with a limit -/

theorem capped_eq (beyond : max < s.utf8ByteSize) :
    capped max s = ((s.sliceTo (s.posLE ⟨max⟩)).copy ++ cutMark, true) := by
  rw [capped, if_neg (Nat.not_le_of_lt beyond)]
  simp only [placeBefore_eq, Option.get_some]

theorem capped_marked : (capped max s).2 = true ↔ max < s.utf8ByteSize := by
  by_cases fits : s.utf8ByteSize ≤ max
  · rw [capped, if_pos fits]
    exact iff_of_false Bool.false_ne_true (Nat.not_lt_of_le fits)
  · rw [capped, if_neg fits]
    exact iff_of_true rfl (Nat.lt_of_not_le fits)

theorem capped_whole : capped max s = (s, false) ↔ s.utf8ByteSize ≤ max := by
  constructor
  · intro same
    have unmarked : ¬ (capped max s).2 = true := by
      rw [same]
      exact Bool.false_ne_true
    exact Nat.le_of_not_lt (mt capped_marked.mpr unmarked)
  · intro fits
    rw [capped, if_pos fits]

theorem capped_unmarked (unmarked : (capped max s).2 = false) : (capped max s).1 = s := by
  have fits : s.utf8ByteSize ≤ max := by
    refine Nat.le_of_not_lt (mt capped_marked.mpr ?_)
    rw [unmarked]
    exact Bool.false_ne_true
  rw [capped_whole.mpr fits]

theorem capped_over (beyond : max < s.utf8ByteSize) :
    ∃ front back, Cut max s.toList front back ∧ back ≠ [] ∧
      capped max s = (String.ofList front ++ cutMark, true) := by
  obtain ⟨back, cut⟩ := (longestFront_posLE max s).1.exists_cut
  exact ⟨_, back, cut, cut.ne_nil beyond, by rw [capped_eq beyond, String.ofList_toList]⟩

/-- What is behind more bytes than the limit does not count. -/
theorem capped_append {front : List Char} (beyond : max < String.utf8Len front) (xs ys : List Char) :
    capped max (String.ofList (front ++ xs)) = capped max (String.ofList (front ++ ys)) := by
  have longer (zs : List Char) : max < (String.ofList (front ++ zs)).utf8ByteSize := by
    rw [String.utf8ByteSize_ofList, String.utf8Len_append]
    omega
  obtain ⟨kept, back, cut, -, same⟩ := capped_over (longer xs)
  obtain ⟨kept', back', cut', -, same'⟩ := capped_over (longer ys)
  rw [String.toList_ofList] at cut cut'
  rw [same, same']
  -- the limit falls into the common front, so the one cut is a cut of the other text
  have within := cut.within
  rcases List.append_eq_append_iff.mp cut.whole with ⟨more, rfl, -⟩ | ⟨more, rfl, rest⟩
  · rw [String.utf8Len_append] at within
    omega
  · cases more with
    | nil =>
      rw [List.append_nil] at beyond
      omega
    | cons c more =>
      have moved : Cut max (kept ++ c :: more ++ ys) kept (c :: more ++ ys) := by
        refine ⟨List.append_assoc .., within, ?_⟩
        rintro _ ⟨⟩
        exact cut.full c (by rw [rest]; rfl)
      rw [moved.unique cut']

end CodeAgent.Text
