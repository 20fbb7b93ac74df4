import CodeAgent.Proofs.Text.Mending

/-! Bytes that may be no text, read as text.
No character is read of more bytes than it takes itself, so the text is never shorter than the bytes. No
more than three bytes behind the first decide a character, so bytes that are cut off are read as the whole
is, but for their last three; a limit that is well below the cut does not see it. -/
namespace CodeAgent.Text

/- What promised bytes tell -/

/-- The value that bytes tell, six bits each, behind what the first one told. -/
def told (code : Nat) : List UInt8 → Nat
  | [] => code
  | b :: rest => told (code * 64 + b.toNat % 64) rest

/-- The least value that takes so many bytes behind the first. -/
def leastTold : Nat → Nat
  | 0 => 0
  | 1 => 0x80
  | 2 => 0x800
  | _ => 0x10000

/-- What the promised bytes can tell takes all of them, and is a character. -/
structure Promises (code : Nat) (ranges : List (UInt8 × UInt8)) : Prop where
  few : ranges.length ≤ 3
  aligned : ∀ r ∈ ranges, 0x80 ≤ r.1 ∧ r.2 ≤ 0xbf
  least : leastTold ranges.length ≤ told code (ranges.map Prod.fst)
  valid : told code (ranges.map Prod.snd) < 0xd800 ∨
    0xdfff < told code (ranges.map Prod.fst) ∧ told code (ranges.map Prod.snd) < 0x110000

theorem promises_of_sequence {first : UInt8} {code : Nat} {ranges : List (UInt8 × UInt8)}
    (promised : sequence? first = some (code, ranges)) : Promises code ranges := by
  have byte : first.toNat < 256 := first.toNat_lt
  unfold sequence? at promised
  generalize first.toNat = n at promised byte
  simp only [Bool.and_eq_true, decide_eq_true_eq] at promised
  -- for each kind of first byte, the least and the greatest that it leads to are numbers to compare
  split_ifs at promised <;> cases promised <;>
    refine ⟨by simp, by simp, ?_, ?_⟩ <;> simp [told, leastTold] <;> omega

theorem told_mono {xs ys : List UInt8} (each : List.Forall₂ (fun x y => x.toNat % 64 ≤ y.toNat % 64) xs ys)
    {code code' : Nat} (first : code ≤ code') : told code xs ≤ told code' ys := by
  induction each generalizing code code' with
  | nil => exact first
  | cons here _ ih =>
    rw [told, told]
    exact ih (by omega)

/-- A byte of each range. -/
abbrev Kept (used : List UInt8) (ranges : List (UInt8 × UInt8)) : Prop :=
  List.Forall₂ (fun b r => r.1 ≤ b ∧ b ≤ r.2) used ranges

theorem told_between {used : List UInt8} {ranges : List (UInt8 × UInt8)} (kept : Kept used ranges)
    (aligned : ∀ r ∈ ranges, 0x80 ≤ r.1 ∧ r.2 ≤ 0xbf) (code : Nat) :
    told code (ranges.map Prod.fst) ≤ told code used ∧ told code used ≤ told code (ranges.map Prod.snd) := by
  have bits : List.Forall₂ (fun (b : UInt8) (r : UInt8 × UInt8) =>
      r.1.toNat % 64 ≤ b.toNat % 64 ∧ b.toNat % 64 ≤ r.2.toNat % 64) used ranges := by
    induction kept with
    | nil => exact .nil
    | cons here _ ih =>
      refine .cons ?_ (ih fun r member => aligned r (List.mem_cons_of_mem _ member))
      obtain ⟨low, high⟩ := aligned _ List.mem_cons_self
      simp only [UInt8.le_iff_toNat_le] at here low high
      have bottom : (0x80 : UInt8).toNat = 128 := rfl
      have top : (0xbf : UInt8).toNat = 191 := rfl
      omega
  constructor
  · refine told_mono (List.forall₂_map_left_iff.mpr ?_) (Nat.le_refl code)
    exact (bits.flip).imp fun _ _ here => here.1
  · refine told_mono (List.forall₂_map_right_iff.mpr ?_) (Nat.le_refl code)
    exact bits.imp fun _ _ here => here.2

theorem utf8Size_eq (c : Char) : c.utf8Size =
    if c.toNat ≤ 0x7f then 1 else if c.toNat ≤ 0x7ff then 2 else if c.toNat ≤ 0xffff then 3 else 4 := by
  unfold Char.utf8Size
  simp only [UInt32.le_iff_toNat_le, UInt32.toNat_ofNatLT]
  rfl

/-- Promised bytes that all came tell a character that takes them. -/
theorem length_lt_told {code : Nat} {used : List UInt8} {ranges : List (UInt8 × UInt8)}
    (promises : Promises code ranges) (kept : Kept used ranges) :
    used.length < (Char.ofNat (told code used)).utf8Size := by
  obtain ⟨above, below⟩ := told_between kept promises.aligned code
  have least := Nat.le_trans promises.least above
  have valid : (told code used).isValidChar := by
    rcases promises.valid with low | ⟨high, top⟩
    · exact Or.inl (by omega)
    · exact Or.inr ⟨by omega, by omega⟩
  have few := promises.few
  rw [← kept.length_eq] at least few
  rw [utf8Size_eq, Char.toNat_ofNat, if_pos valid]
  generalize used.length = k at least few
  obtain rfl | rfl | rfl | rfl : k = 0 ∨ k = 1 ∨ k = 2 ∨ k = 3 := by omega
  all_goals
    simp only [leastTold] at least
    split_ifs <;> omega

/- One character -/

theorem readSequence_uses (code : Nat) (ranges : List (UInt8 × UInt8)) (rest : List UInt8) :
    ∃ used, rest = used ++ (readSequence code ranges rest).2 ∧
      ((readSequence code ranges rest).1 = replacement ∧ used.length < ranges.length ∨
        (readSequence code ranges rest).1 = Char.ofNat (told code used) ∧ Kept used ranges) := by
  induction ranges generalizing code rest with
  | nil => exact ⟨[], rfl, Or.inr ⟨rfl, .nil⟩⟩
  | cons r ranges ih =>
    cases rest with
    | nil => exact ⟨[], rfl, Or.inl ⟨rfl, Nat.succ_pos _⟩⟩
    | cons b rest =>
      rw [readSequence]
      split
      · rename_i inside
        rw [Bool.and_eq_true, decide_eq_true_eq, decide_eq_true_eq] at inside
        obtain ⟨used, whole, ends⟩ := ih (code * 64 + b.toNat % 64) rest
        refine ⟨b :: used, congrArg (b :: ·) whole, ends.imp ?_ ?_⟩
        · rintro ⟨broken, short⟩
          exact ⟨broken, Nat.succ_lt_succ short⟩
        · rintro ⟨same, kept⟩
          exact ⟨same, .cons inside kept⟩
      · exact ⟨[], rfl, Or.inl ⟨rfl, Nat.succ_pos _⟩⟩

theorem readSequence_append {ranges : List (UInt8 × UInt8)} {front : List UInt8}
    (enough : ranges.length ≤ front.length) (code : Nat) (xs : List UInt8) :
    readSequence code ranges (front ++ xs) =
      ((readSequence code ranges front).1, (readSequence code ranges front).2 ++ xs) := by
  induction ranges generalizing code front with
  | nil => rfl
  | cons r ranges ih =>
    cases front with
    | nil => cases enough
    | cons b front =>
      rw [List.cons_append, readSequence, readSequence]
      split
      · exact ih (Nat.le_of_succ_le_succ enough) _
      · rfl

/-- The character that is read first, and the bytes behind it. -/
def readChar (first : UInt8) (rest : List UInt8) : Char × List UInt8 :=
  match sequence? first with
  | none => (replacement, rest)
  | some (code, ranges) => readSequence code ranges rest

theorem mendFrom_cons (done : List Char) (fuel : Nat) (first : UInt8) (rest : List UInt8) :
    mendFrom done (fuel + 1) (first :: rest) =
      mendFrom ((readChar first rest).1 :: done) fuel (readChar first rest).2 := by
  rw [mendFrom, readChar]
  cases sequence? first <;> rfl

/-- A character is read of no more bytes than it takes itself; the mark of a broken one takes three. -/
theorem readChar_uses (first : UInt8) (rest : List UInt8) :
    ∃ used, rest = used ++ (readChar first rest).2 ∧ used.length < (readChar first rest).1.utf8Size := by
  have mark : replacement.utf8Size = 3 := by decide
  rw [readChar]
  split
  · exact ⟨[], rfl, Char.utf8Size_pos _⟩
  · rename_i code ranges promised
    have promises := promises_of_sequence promised
    obtain ⟨used, whole, ⟨broken, short⟩ | ⟨same, kept⟩⟩ := readSequence_uses code ranges rest
    · refine ⟨used, whole, ?_⟩
      rw [broken, mark]
      exact Nat.lt_of_lt_of_le short promises.few
    · refine ⟨used, whole, ?_⟩
      rw [same]
      exact length_lt_told promises kept

theorem readChar_append {front : List UInt8} (enough : 3 ≤ front.length) (first : UInt8) (xs : List UInt8) :
    readChar first (front ++ xs) = ((readChar first front).1, (readChar first front).2 ++ xs) := by
  rw [readChar, readChar]
  split
  · rfl
  · rename_i promised
    exact readSequence_append (Nat.le_trans (promises_of_sequence promised).few enough) _ xs

/- All characters -/

theorem length_le_mendFrom (done : List Char) {fuel : Nat} {bytes : List UInt8} (enough : bytes.length ≤ fuel) :
    ∃ cs, mendFrom done fuel bytes = cs ++ done ∧ bytes.length ≤ String.utf8Len cs := by
  induction fuel generalizing done bytes with
  | zero =>
    obtain rfl := List.eq_nil_of_length_eq_zero (Nat.le_zero.mp enough)
    exact ⟨[], rfl, Nat.le_refl _⟩
  | succ fuel ih =>
    cases bytes with
    | nil => exact ⟨[], rfl, Nat.le_refl _⟩
    | cons first rest =>
      obtain ⟨used, whole, takes⟩ := readChar_uses first rest
      have length := congrArg List.length whole
      rw [List.length_append] at length
      rw [List.length_cons] at enough ⊢
      have fewer : (readChar first rest).2.length ≤ fuel := by omega
      obtain ⟨cs, same, sized⟩ := ih ((readChar first rest).1 :: done) fewer
      refine ⟨cs ++ [(readChar first rest).1], ?_, ?_⟩
      · rw [mendFrom_cons, same, List.append_assoc, List.singleton_append]
      · rw [String.utf8Len_append, String.utf8Len_cons, String.utf8Len_nil]
        omega

/-- What is read of some bytes, but for the last three, does not depend on what follows. -/
theorem exists_front (front : List UInt8) : ∃ cs, front.length < String.utf8Len cs + 4 ∧
    ∀ done xs fuel, (front ++ xs).length ≤ fuel →
      ∃ more, mendFrom done fuel (front ++ xs) = more ++ (cs ++ done) := by
  -- each character leaves fewer bytes
  induction size : front.length using Nat.strongRecOn generalizing front with
  | ind size₀ ih =>
    obtain short | long : front.length ≤ 3 ∨ 3 < front.length := by omega
    · exact ⟨[], by rw [String.utf8Len_nil]; omega, fun done xs fuel _ => mendFrom_done done fuel _⟩
    · obtain ⟨first, rest, rfl⟩ := List.exists_cons_of_length_pos (Nat.zero_lt_of_lt long)
      rw [List.length_cons] at long size
      obtain ⟨used, whole, takes⟩ := readChar_uses first rest
      have length := congrArg List.length whole
      rw [List.length_append] at length
      obtain ⟨cs, near, reads⟩ := ih (readChar first rest).2.length (by omega) (readChar first rest).2 rfl
      refine ⟨cs ++ [(readChar first rest).1], ?_, fun done xs fuel enough => ?_⟩
      · rw [String.utf8Len_append, String.utf8Len_cons, String.utf8Len_nil]
        omega
      · rw [List.cons_append, List.length_cons, List.length_append] at enough
        obtain ⟨fuel, rfl⟩ : ∃ n, fuel = n + 1 := ⟨fuel - 1, by omega⟩
        obtain ⟨more, same⟩ := reads ((readChar first rest).1 :: done) xs fuel (by
          rw [List.length_append]
          omega)
        refine ⟨more, ?_⟩
        rw [List.cons_append, mendFrom_cons, readChar_append (by omega), same, List.append_assoc cs,
          List.singleton_append]

theorem length_bytes (bytes : ByteArray) : bytes.toList.length = bytes.size := by
  rw [toList_bytes, Array.length_toList, ByteArray.size_data]

/-- Bytes are no more than the text that is read of them. -/
theorem size_le_mend (bytes : ByteArray) : bytes.size ≤ (mend bytes).utf8ByteSize := by
  obtain ⟨cs, same, sized⟩ := length_le_mendFrom [] (Nat.le_of_eq (length_bytes bytes))
  rwa [mend, String.utf8ByteSize_ofList, same, List.append_nil, String.utf8Len_reverse, ← length_bytes]

/-- A limit on bytes does not show behind one on text that is well below it. -/
theorem capped_mend {limit max : Nat} (below : limit + 4 ≤ max) (bytes : ByteArray) :
    capped limit (mend (bytes.extract 0 max)) = capped limit (mend bytes) := by
  have front : (bytes.extract 0 max).toList = bytes.toList.take max := by
    simp [toList_bytes]
  obtain all | beyond : bytes.size ≤ max ∨ max < bytes.size := by omega
  · have same : bytes.extract 0 max = bytes := by
      refine ByteArray.ext (Array.toList_inj.mp ?_)
      rw [← toList_bytes, ← toList_bytes, front, List.take_of_length_le (by rwa [length_bytes])]
    rw [same]
  · obtain ⟨cs, near, reads⟩ := exists_front (bytes.toList.take max)
    rw [List.length_take, length_bytes, Nat.min_eq_left (Nat.le_of_lt beyond)] at near
    obtain ⟨more, same⟩ := reads [] [] (bytes.extract 0 max).size (by
      rw [List.append_nil, ← front, length_bytes])
    obtain ⟨more', same'⟩ := reads [] (bytes.toList.drop max) bytes.size (by
      rw [List.take_append_drop, length_bytes])
    rw [List.append_nil, List.append_nil] at same
    rw [List.append_nil, List.take_append_drop] at same'
    rw [mend, mend, front, same, same', List.reverse_append, List.reverse_append]
    exact capped_append (by rw [String.utf8Len_reverse]; omega) _ _

end CodeAgent.Text
