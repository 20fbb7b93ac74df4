import CodeAgent.Text.Find
import CodeAgent.Text.Lines
import CodeAgent.Text.Word
import Mathlib.Data.List.Basic

/-! Texts cut at the first or the last occurrence of a pattern, or into the pieces between separators. -/
namespace CodeAgent.Text

theorem append_of_cut {pattern cs before after : List Char}
    (cut : cut? pattern cs = some (before, after)) : cs = before ++ pattern ++ after := by
  induction cs generalizing before with
  | nil =>
    rw [cut?] at cut
    split at cut
    · rename_i empty
      obtain ⟨rfl, rfl⟩ := Prod.mk.inj (Option.some.inj cut)
      rw [List.isEmpty_iff.mp empty]
      rfl
    · cases cut
  | cons c cs ih =>
    rw [cut?] at cut
    split at cut
    · rename_i front
      obtain ⟨rfl, rfl⟩ := Prod.mk.inj (Option.some.inj cut)
      exact (List.prefix_iff_eq_append.mp (List.isPrefixOf_iff_prefix.mp front)).symm
    · obtain ⟨⟨before', after'⟩, inner, same⟩ := Option.map_eq_some_iff.mp cut
      obtain ⟨rfl, rfl⟩ := Prod.mk.inj same
      rw [ih inner, List.cons_append, List.cons_append]

theorem not_front {pattern cs : List Char} {c : Char} (nonempty : pattern.head? = some c)
    (other : cs.head? ≠ some c) : pattern.isPrefixOf cs = false := by
  cases pattern with
  | nil => cases nonempty
  | cons d p =>
    obtain rfl : d = c := Option.some.inj nonempty
    cases cs with
    | nil => rfl
    | cons e cs =>
      have differ : d ≠ e := fun same => other (congrArg some same.symm)
      simp [List.isPrefixOf, differ]

theorem cut_none {pattern cs : List Char} {c : Char} (nonempty : pattern.head? = some c)
    (free : c ∉ cs) : cut? pattern cs = none := by
  induction cs with
  | nil =>
    cases pattern with
    | nil => cases nonempty
    | cons d p => rfl
  | cons d cs ih =>
    obtain ⟨other, free⟩ := not_or.mp (mt List.mem_cons.mpr free)
    rw [cut?, not_front nonempty (by simpa using Ne.symm other), if_neg Bool.false_ne_true, ih free]
    rfl

theorem cut_behind {pattern front rest : List Char} {c : Char} (nonempty : pattern.head? = some c)
    (free : c ∉ front) : cut? pattern (front ++ (pattern ++ rest)) = some (front, rest) := by
  induction front with
  | nil =>
    obtain ⟨p, rfl⟩ : ∃ p, pattern = c :: p := by
      cases pattern with
      | nil => cases nonempty
      | cons d p => exact ⟨p, by rw [Option.some.inj nonempty]⟩
    have front : (c :: p).isPrefixOf (c :: p ++ rest) = true :=
      List.isPrefixOf_iff_prefix.mpr (List.prefix_append _ rest)
    rw [List.nil_append, List.cons_append, cut?, ← List.cons_append, if_pos front, List.drop_left]
  | cons d front ih =>
    obtain ⟨other, free⟩ := not_or.mp (mt List.mem_cons.mpr free)
    rw [List.cons_append, cut?, not_front nonempty (by simpa using Ne.symm other),
      if_neg Bool.false_ne_true, ih free]
    rfl

theorem not_mem_of_cut {c : Char} {cs before after : List Char} (cut : cut? [c] cs = some (before, after)) :
    c ∉ before := by
  induction cs generalizing before with
  | nil => cases cut
  | cons d cs ih =>
    rw [cut?] at cut
    split at cut
    · obtain ⟨rfl, -⟩ := Prod.mk.inj (Option.some.inj cut)
      exact List.not_mem_nil
    · rename_i other
      obtain ⟨⟨before', after'⟩, inner, same⟩ := Option.map_eq_some_iff.mp cut
      obtain ⟨rfl, rfl⟩ := Prod.mk.inj same
      intro inside
      rcases List.mem_cons.mp inside with rfl | later
      · simp [List.isPrefixOf] at other
      · exact ih inner later

theorem append_of_splitLast {s before after : String} (split : splitLast? s "." = some (before, after)) :
    s = before ++ "." ++ after := by
  obtain ⟨⟨front, back⟩, cut, same⟩ := Option.map_eq_some_iff.mp split
  obtain ⟨rfl, rfl⟩ := Prod.mk.inj same
  have whole := congrArg List.reverse (append_of_cut cut)
  rw [← String.toList_inj]
  simpa using whole

/-- The last dot of a text is the one that no other follows. -/
theorem splitLast_eq_some_iff {s stem ext : String} :
    splitLast? s "." = some (stem, ext) ↔ s = stem ++ "." ++ ext ∧ '.' ∉ ext.toList := by
  have dot : ".".toList.reverse = ['.'] := rfl
  constructor
  · intro split
    refine ⟨append_of_splitLast split, ?_⟩
    obtain ⟨⟨front, back⟩, cut, same⟩ := Option.map_eq_some_iff.mp split
    obtain ⟨-, rfl⟩ := Prod.mk.inj same
    rw [dot] at cut
    rw [String.toList_ofList, List.mem_reverse]
    exact not_mem_of_cut cut
  · rintro ⟨rfl, plain⟩
    have reversed : (stem ++ "." ++ ext).toList.reverse =
        ext.toList.reverse ++ (['.'] ++ stem.toList.reverse) := by simp
    rw [splitLast?, dot, reversed, cut_behind rfl (mt List.mem_reverse.mp plain)]
    simp

/- Pieces -/

theorem pieces_append_cons (sep : Char) (cs rest : List Char) :
    pieces sep (cs ++ sep :: rest) = pieces sep cs ++ pieces sep rest := by
  induction cs with
  | nil => simp [pieces]
  | cons c cs ih =>
    rw [List.cons_append, pieces, pieces]
    split
    · rw [ih, List.cons_append]
    · rw [ih]
      obtain ⟨p, ps, shape⟩ := List.exists_cons_of_ne_nil (pieces_ne_nil sep cs)
      rw [shape]
      rfl

theorem length_pieces (sep : Char) (cs : List Char) : (pieces sep cs).length = cs.count sep + 1 := by
  induction cs with
  | nil => rfl
  | cons c cs ih =>
    rw [pieces, List.count_cons]
    split
    · rename_i same
      rw [List.length_cons, ih, if_pos (beq_iff_eq.mpr same)]
    · rename_i other
      obtain ⟨p, ps, shape⟩ := List.exists_cons_of_ne_nil (pieces_ne_nil sep cs)
      rw [shape] at ih ⊢
      rw [if_neg (mt beq_iff_eq.mp other)]
      exact ih

/-- A list as far as a separator, if there is one. -/
theorem exists_until (sep : Char) (cs : List Char) :
    ∃ front, sep ∉ front ∧ (cs = front ∨ ∃ rest, cs = front ++ sep :: rest) := by
  by_cases inside : sep ∈ cs
  · obtain ⟨front, rest, whole, free⟩ := List.eq_append_cons_of_mem inside
    exact ⟨front, free, Or.inr ⟨rest, whole⟩⟩
  · exact ⟨cs, inside, Or.inl rfl⟩

/-- A list from its last separator on, if there is one. -/
theorem exists_behind (sep : Char) (cs : List Char) :
    ∃ back, sep ∉ back ∧ (cs = back ∨ ∃ above, cs = above ++ sep :: back) := by
  obtain ⟨front, free, whole⟩ := exists_until sep cs.reverse
  refine ⟨front.reverse, mt List.mem_reverse.mp free, whole.imp (fun same => ?_) fun ⟨rest, same⟩ => ?_⟩
  · rw [← same, List.reverse_reverse]
  · exact ⟨rest.reverse, by simpa using congrArg List.reverse same⟩

/-- What is free of the separator lies in one piece, with what is next to it up to the separators. -/
theorem exists_piece {sep : Char} {mid : List Char} (plain : sep ∉ mid) (front back : List Char) :
    ∃ left right, (pieces sep (front ++ mid ++ back))[front.count sep]? = some (left ++ mid ++ right) ∧
      (front = left ∨ ∃ above, front = above ++ sep :: left) ∧
      (back = right ∨ ∃ below, back = right ++ sep :: below) := by
  obtain ⟨left, unbroken, starts⟩ := exists_behind sep front
  obtain ⟨right, free, ends⟩ := exists_until sep back
  have whole : sep ∉ left ++ mid ++ right := by simp [unbroken, plain, free]
  have first : (pieces sep (left ++ mid ++ back))[0]? = some (left ++ mid ++ right) := by
    rcases ends with rfl | ⟨below, rfl⟩
    · rw [pieces_of_not_mem whole]
      rfl
    · rw [← List.append_assoc, pieces_append whole]
      rfl
  refine ⟨left, right, ?_, starts, ends⟩
  rcases starts with rfl | ⟨above, rfl⟩
  · rw [List.count_eq_zero.mpr unbroken, first]
  · have place : (above ++ sep :: left).count sep = (pieces sep above).length := by
      simp [length_pieces, List.count_eq_zero.mpr unbroken]
    rw [place, List.append_assoc, List.append_assoc, List.cons_append, pieces_append_cons,
      List.getElem?_append_right (Nat.le_refl _), Nat.sub_self, ← List.append_assoc, first]

/-! Whole words, and the search for them.
A search finds a word exactly when it stands somewhere in the text with a word boundary at both ends; and
what stands so in the text of a file stands so in one of its lines. -/

/-- Whether there is a character, and one of a word. -/
def inWord (c : Option Char) : Bool := (c.map isWordChar).getD false

theorem isBoundary_eq (before after : Option Char) :
    isBoundary before after = (inWord before != inWord after) := rfl

/-- Between these parts of a text a word has a word boundary at both ends. -/
structure Alone (front word back : List Char) : Prop where
  starts : isBoundary front.getLast? (word ++ back).head? = true
  ends : isBoundary (front ++ word).getLast? back.head? = true

/-- The word stands alone somewhere in the text. -/
def HoldsWord (word text : List Char) : Prop :=
  ∃ front back, text = front ++ word ++ back ∧ Alone front word back

variable {word text front back : List Char}

/-- What starts and ends with word characters stands alone unless there are others next to it. -/
theorem alone_of_inWord (first : inWord word.head? = true) (last : inWord word.getLast? = true)
    (before : inWord front.getLast? = false) (after : inWord back.head? = false) : Alone front word back := by
  have taken {a b : Option Char} (inside : inWord a = true) : inWord (a.or b) = true := by
    cases a with
    | none => cases inside
    | some c => exact inside
  constructor
  · rw [isBoundary_eq, List.head?_append, before, taken first]
    rfl
  · rw [isBoundary_eq, List.getLast?_append, after, taken last]
    rfl

/- The search -/

theorem alone_iff : Alone front word back ↔
    (isBoundary front.getLast? (word ++ back).head? &&
      isBoundary (word.getLast?.or front.getLast?) back.head?) = true := by
  rw [Bool.and_eq_true, ← List.getLast?_append]
  exact ⟨fun alone => ⟨alone.starts, alone.ends⟩, fun both => ⟨both.1, both.2⟩⟩

theorem isSome_wholeFront (done : List Char) :
    (wholeFront? word done.getLast? text).isSome ↔ ∃ back, text = word ++ back ∧ Alone done word back := by
  by_cases front : word <+: text
  · obtain ⟨back, rfl⟩ := front
    rw [wholeFront?, if_pos (List.isPrefixOf_iff_prefix.mpr (List.prefix_append word back)), List.drop_left]
    simp only [List.append_cancel_left_eq, exists_eq_left', alone_iff]
    split <;> simp_all
  · rw [wholeFront?, if_neg (mt List.isPrefixOf_iff_prefix.mp front)]
    exact iff_of_false Bool.false_ne_true fun ⟨back, same, _⟩ => front ⟨back, same.symm⟩

/-- The search goes on behind what it has passed. -/
theorem isSome_wordOffset_behind (done : List Char) :
    (wordOffset? word done.getLast? text).isSome ↔
      ∃ front back, text = front ++ word ++ back ∧ Alone (done ++ front) word back := by
  induction text generalizing done with
  | nil =>
    rw [wordOffset?, Option.isSome_map, isSome_wholeFront]
    constructor
    · rintro ⟨back, empty, alone⟩
      exact ⟨[], back, empty, by rwa [List.append_nil]⟩
    · rintro ⟨front, back, empty, alone⟩
      obtain ⟨rfl, rfl, rfl⟩ : front = [] ∧ word = [] ∧ back = [] := by simpa using empty.symm
      exact ⟨[], rfl, by rwa [List.append_nil] at alone⟩
  | cons c rest ih =>
    have onward : (wordOffset? word (some c) rest).isSome ↔
        ∃ front back, rest = front ++ word ++ back ∧ Alone (done ++ [c] ++ front) word back := by
      rw [← ih, List.getLast?_concat]
    have here : (wholeFront? word done.getLast? (c :: rest)).isSome ↔
        ∃ back, c :: rest = word ++ back ∧ Alone done word back := isSome_wholeFront done
    rw [wordOffset?]
    constructor
    · intro found
      split at found
      · rename_i front
        obtain ⟨back, same, alone⟩ := here.mp (by rw [front]; rfl)
        exact ⟨[], back, same, by rwa [List.append_nil]⟩
      · rw [Option.isSome_map] at found
        obtain ⟨front, back, rfl, alone⟩ := onward.mp found
        exact ⟨c :: front, back, rfl, by rwa [List.append_assoc] at alone⟩
    · rintro ⟨front, back, same, alone⟩
      split
      · rfl
      · rename_i none
        rw [Option.isSome_map]
        cases front with
        | nil =>
          have found := here.mpr ⟨back, same, by rwa [List.append_nil] at alone⟩
          rw [none] at found
          cases found
        | cons d front =>
          obtain ⟨rfl, rfl⟩ := List.cons.inj same
          exact onward.mpr ⟨front, back, rfl, by rwa [List.append_assoc]⟩

theorem isSome_wordOffset : (wordOffset? word none text).isSome ↔ HoldsWord word text :=
  isSome_wordOffset_behind []

instance (word text : List Char) : Decidable (HoldsWord word text) := decidable_of_iff _ isSome_wordOffset

/- The lines of a file -/

/-- A line feed counts as little in front of a word as the end of the text. -/
theorem inWord_behind (above cs : List Char) : inWord (above ++ '\n' :: cs).getLast? = inWord cs.getLast? := by
  rcases List.eq_nil_or_concat cs with rfl | ⟨cs, c, rfl⟩
  · rw [List.getLast?_concat]
    decide
  · rw [List.concat_eq_append, ← List.cons_append, ← List.append_assoc, List.getLast?_concat,
      List.getLast?_concat]

theorem inWord_before (cs below : List Char) : inWord (cs ++ '\n' :: below).head? = inWord cs.head? := by
  cases cs with
  | nil =>
    rw [List.nil_append, List.head?_cons]
    decide
  | cons c cs => rfl

theorem Alone.within_line {left right : List Char} (alone : Alone front word back)
    (starts : front = left ∨ ∃ above, front = above ++ '\n' :: left)
    (ends : back = right ∨ ∃ below, back = right ++ '\n' :: below) : Alone left word right := by
  have behind (cs : List Char) : inWord (front ++ cs).getLast? = inWord (left ++ cs).getLast? := by
    rcases starts with rfl | ⟨above, rfl⟩
    · rfl
    · rw [List.append_assoc, List.cons_append, inWord_behind]
  have before (cs : List Char) : inWord (cs ++ back).head? = inWord (cs ++ right).head? := by
    rcases ends with rfl | ⟨below, rfl⟩
    · rfl
    · rw [← List.append_assoc, inWord_before]
  have starting : inWord front.getLast? = inWord left.getLast? := by simpa using behind []
  have ending : inWord back.head? = inWord right.head? := before []
  constructor
  · rw [isBoundary_eq, ← starting, ← before]
    exact alone.starts
  · rw [isBoundary_eq, ← behind, ← ending]
    exact alone.ends

/-- A word of a file is a word of the line that it stands on. -/
theorem exists_line (plain : '\n' ∉ word) (alone : Alone front word back) :
    ∃ line, (pieces '\n' (front ++ word ++ back))[front.count '\n']? = some line ∧ HoldsWord word line := by
  obtain ⟨left, right, place, starts, ends⟩ := exists_piece plain front back
  exact ⟨_, place, left, right, rfl, alone.within_line starts ends⟩

end CodeAgent.Text
