import CodeAgent.CommandPolicy
import Mathlib.Data.List.Infix

/-! Text that is put together: patterns, lower case and words of the whole, from those of its parts. -/
namespace CodeAgent.Text

/- Patterns -/

theorem containsChars_iff {pattern cs : List Char} :
    containsChars pattern cs = true ↔ pattern <:+: cs := by
  induction cs with
  | nil =>
    rw [containsChars, cut?]
    cases pattern <;> simp
  | cons c cs ih =>
    rw [containsChars] at ih ⊢
    rw [cut?, List.infix_cons_iff, ← ih]
    split
    · rename_i front
      simp [List.isPrefixOf_iff_prefix.mp front]
    · rename_i apart
      have behind : ¬ pattern <+: c :: cs := fun front => apart (List.isPrefixOf_iff_prefix.mpr front)
      simp [behind]

theorem contains_iff {s pattern : String} :
    contains s pattern = true ↔ pattern.toList <:+: s.toList := containsChars_iff

/- Lower case -/

/-- A character that is its own lower case, and where the word around a sigma ends. -/
structure Still (c : Char) : Prop where
  same : lowerFrom [] [c] = [c]
  notSigma : c ≠ 'Σ'
  counts : inRanges caseIgnorable c.toNat = false
  uncased : inRanges cased c.toNat = false

/-- Whether a character is still. -/
def isStill (c : Char) : Bool :=
  lowerFrom [] [c] = [c] && c ≠ 'Σ' && !inRanges caseIgnorable c.toNat && !inRanges cased c.toNat

theorem still_of_isStill {c : Char} (still : isStill c = true) : Still c := by
  simp only [isStill, Bool.and_eq_true, decide_eq_true_eq, Bool.not_eq_true'] at still
  obtain ⟨⟨⟨same, notSigma⟩, counts⟩, uncased⟩ := still
  exact ⟨same, notSigma, counts, uncased⟩

theorem lowerFrom_cons {c : Char} (notSigma : c ≠ 'Σ') (before cs : List Char) :
    lowerFrom before (c :: cs) = lowerChar c ++ lowerFrom (c :: before) cs := by
  rw [lowerFrom, if_neg notSigma]

section

variable {c : Char} {cs xs ys before : List Char}

theorem Still.lowerChar (still : Still c) : lowerChar c = [c] := by
  have same := still.same
  rw [lowerFrom_cons still.notSigma, lowerFrom, List.append_nil] at same
  exact same

theorem meetsCased_still (still : Still c) (xs ys : List Char) :
    meetsCased (xs ++ c :: ys) = meetsCased xs := by
  induction xs with
  | nil => simp [meetsCased, still.counts, still.uncased]
  | cons x xs ih => simp only [List.cons_append, meetsCased, ih]

/-- What stands before a character where words end does not matter behind it. -/
theorem lowerFrom_still (still : Still c) (xs before ys : List Char) :
    lowerFrom (xs ++ c :: before) ys = lowerFrom xs ys := by
  induction ys generalizing xs with
  | nil => rfl
  | cons y ys ih =>
    have later := ih (y :: xs)
    rw [List.cons_append] at later
    rw [lowerFrom, lowerFrom, meetsCased_still still, later]

theorem lowerFrom_append (still : Still c) (xs before ys : List Char) :
    lowerFrom before (xs ++ c :: ys) = lowerFrom before xs ++ c :: lowerFrom [] ys := by
  induction xs generalizing before with
  | nil =>
    have onward := lowerFrom_still still [] before ys
    rw [List.nil_append] at onward
    rw [List.nil_append, lowerFrom_cons still.notSigma, still.lowerChar, onward]
    rfl
  | cons x xs ih =>
    rw [List.cons_append, lowerFrom, lowerFrom, meetsCased_still still, ih, List.append_assoc]

end

theorem lowerFrom_run {run : List Char} (still : ∀ c ∈ run, Still c) (some : run ≠ [])
    (before xs ys : List Char) :
    lowerFrom before (xs ++ (run ++ ys)) = lowerFrom before xs ++ (run ++ lowerFrom [] ys) := by
  induction run generalizing before xs with
  | nil => exact absurd rfl some
  | cons c run ih =>
    rw [List.cons_append, lowerFrom_append (still c List.mem_cons_self)]
    by_cases last : run = []
    · rw [last]
      rfl
    · have onward := ih (fun x member => still x (List.mem_cons_of_mem _ member)) last [] []
      rw [List.nil_append] at onward
      rw [onward]
      rfl

/- Blanks -/

def blankRanges : List (Nat × Nat) :=
  [(9, 13), (32, 32), (0x85, 0x85), (0xa0, 0xa0), (0x1680, 0x1680), (0x2000, 0x200a),
    (0x2028, 0x2029), (0x202f, 0x202f), (0x205f, 0x205f), (0x3000, 0x3000)]

theorem isBlank_eq (c : Char) : isBlank c = inRanges blankRanges c.toNat := by
  rw [Bool.eq_iff_iff]
  simp [isBlank, inRanges, blankRanges]
  omega

-- No range of capitals is shifted onto a blank.
theorem shifted_plain : ∀ r ∈ lowerShifts, ∀ b ∈ blankRanges,
    0 < b.1 ∧ (r.2.1 + r.2.2.2 < b.1 ∨ b.2 < r.1 + r.2.2.2) := by decide +kernel

theorem lowered_plain : ∀ n < 0x80, isBlank (Char.ofNat n) = false →
    isBlank (Char.ofNat n).toLower = false := by decide +kernel

theorem plain_ofNat {n : Nat} (plain : inRanges blankRanges n = false) :
    isBlank (Char.ofNat n) = false := by
  rw [isBlank_eq, Char.ofNat]
  by_cases valid : n.isValidChar
  · rw [dif_pos valid]
    exact plain
  · rw [dif_neg valid]
    decide

theorem plain_lowerShift {n : Nat} {d : Int} (shifts : lowerShift n = some d) :
    inRanges blankRanges (n + d).toNat = false := by
  obtain ⟨r, found, rfl⟩ := Option.map_eq_some_iff.mp shifts
  have bounds := List.find?_some found
  simp only [Bool.and_eq_true, decide_eq_true_eq] at bounds
  rw [inRanges, List.any_eq_false]
  intro b member
  obtain ⟨positive, apart⟩ := shifted_plain r (List.mem_of_find?_eq_some found) b member
  simp only [Bool.and_eq_true, decide_eq_true_eq]
  omega

theorem lowerChar_ne_nil (c : Char) : lowerChar c ≠ [] := by
  unfold lowerChar
  split
  · simp
  · split
    · simp
    · split <;> simp

theorem plain_lowerChar {c : Char} (plain : isBlank c = false) :
    ∀ d ∈ lowerChar c, isBlank d = false := by
  unfold lowerChar
  split
  · rename_i ascii
    have lowered := lowered_plain c.toNat ascii
    rw [Char.ofNat_toNat] at lowered
    simpa using lowered plain
  · split
    · simp [isBlank]
    · split
      · rename_i shifts
        simpa using plain_ofNat (plain_lowerShift shifts)
      · simpa using plain

/-- Something is left of a character in lower case, and no blank. -/
theorem lowerFrom_plain {c : Char} (plain : isBlank c = false) (before cs : List Char) :
    ∃ here, lowerFrom before (c :: cs) = here ++ lowerFrom (c :: before) cs ∧ here ≠ [] ∧
      ∀ d ∈ here, isBlank d = false := by
  by_cases sigma : c = 'Σ'
  · refine ⟨_, by rw [lowerFrom, if_pos sigma], by simp, ?_⟩
    split <;> simp [isBlank]
  · exact ⟨_, lowerFrom_cons sigma before cs, lowerChar_ne_nil c, plain_lowerChar plain⟩

/- Words -/

section

variable {xs ys word : List Char}

theorem wordsFrom_blank {c : Char} (blank : isBlank c = true) (word xs ys : List Char) :
    wordsFrom word (xs ++ c :: ys) = wordsFrom word xs ++ wordsFrom [] ys := by
  induction xs generalizing word with
  | nil =>
    simp only [List.nil_append, wordsFrom, if_pos blank]
    split <;> rfl
  | cons x xs ih =>
    rw [List.cons_append, wordsFrom, wordsFrom]
    split
    · split
      · exact ih []
      · rw [ih, List.cons_append]
    · exact ih (x :: word)

/-- A word goes on to the next blank. -/
theorem wordsFrom_begun (begun : word ≠ []) (ys : List Char) :
    ∃ more rest, wordsFrom word ys = (word.reverse ++ more) :: rest := by
  induction ys generalizing word with
  | nil => exact ⟨[], [], by simp [wordsFrom, begun]⟩
  | cons y ys ih =>
    rw [wordsFrom]
    split
    · exact ⟨[], wordsFrom [] ys, by simp [begun]⟩
    · obtain ⟨more, rest, same⟩ := ih (List.cons_ne_nil y word)
      exact ⟨y :: more, rest, by rw [same]; simp⟩

theorem wordsFrom_run {run : List Char} (plain : ∀ c ∈ run, isBlank c = false) (word ys : List Char) :
    wordsFrom word (run ++ ys) = wordsFrom (run.reverse ++ word) ys := by
  induction run generalizing word with
  | nil => rfl
  | cons c run ih =>
    have here := plain c List.mem_cons_self
    rw [List.cons_append, wordsFrom, if_neg (by simp [here]),
      ih fun x member => plain x (List.mem_cons_of_mem _ member)]
    simp

/-- Where no blank comes in, the last word of the one part and the first of the other become one. -/
theorem wordsFrom_fuse {run : List Char} (plain : ∀ c ∈ run, isBlank c = false) (some : run ≠ [])
    (word xs ys : List Char) :
    ∃ ws last more rest, wordsFrom word xs = ws ++ (if last = [] then [] else [last]) ∧
      wordsFrom word (xs ++ (run ++ ys)) = ws ++ (last ++ run ++ more) :: rest := by
  induction xs generalizing word with
  | nil =>
    have begun : run.reverse ++ word ≠ [] := by simp [some]
    obtain ⟨more, rest, same⟩ := wordsFrom_begun begun ys
    refine ⟨[], word.reverse, more, rest, by simp [wordsFrom], ?_⟩
    rw [List.nil_append, wordsFrom_run plain, same]
    simp
  | cons x xs ih =>
    rw [List.cons_append, wordsFrom, wordsFrom]
    split
    · split
      · exact ih []
      · obtain ⟨ws, last, more, rest, first, whole⟩ := ih []
        exact ⟨word.reverse :: ws, last, more, rest, by rw [first]; rfl, by rw [whole]; rfl⟩
    · exact ih (x :: word)

theorem wordsFrom_ne_nil {c : Char} (member : c ∈ xs) (plain : isBlank c = false) (word : List Char) :
    wordsFrom word xs ≠ [] := by
  obtain ⟨before, after, rfl⟩ := List.append_of_mem member
  have lone : ∀ d ∈ [c], isBlank d = false := by simpa using plain
  obtain ⟨ws, last, more, rest, -, whole⟩ := wordsFrom_fuse lone (by simp) word before after
  rw [List.singleton_append] at whole
  simp [whole]

end

/- No blanks around -/

/-- A text that is there, and neither begins nor ends with a blank. -/
structure Neat (s : String) : Prop where
  some : s ≠ ""
  front : ∀ c ∈ s.toList.head?, isBlank c = false
  back : ∀ c ∈ s.toList.getLast?, isBlank c = false

/-- Whether a text is neat. -/
def isNeat (s : String) : Bool :=
  s ≠ "" && s.toList.head?.all (!isBlank ·) && s.toList.getLast?.all (!isBlank ·)

theorem neat_of_isNeat {s : String} (neat : isNeat s = true) : Neat s := by
  simp only [isNeat, Bool.and_eq_true, decide_eq_true_eq, Option.all_eq_true] at neat
  obtain ⟨⟨some, front⟩, back⟩ := neat
  exact ⟨some, fun c member => by simpa using front c member, fun c member => by simpa using back c member⟩

theorem dropWhile_of_head {p : Char → Bool} {cs : List Char} (head : ∀ c ∈ cs.head?, p c = false) :
    cs.dropWhile p = cs := by
  cases cs with
  | nil => rfl
  | cons c cs => exact List.dropWhile_cons_of_neg (by simp [head c rfl])

theorem Neat.trim {s : String} (neat : Neat s) : Text.trim s = s := by
  have front : s.toList.dropWhile isBlank = s.toList := dropWhile_of_head neat.front
  have back : s.toList.reverse.dropWhile isBlank = s.toList.reverse :=
    dropWhile_of_head fun c member => neat.back c (by rwa [List.head?_reverse] at member)
  rw [Text.trim, trimChars, trimStartChars, trimEndChars, dropEndWhile, front, back,
    List.reverse_reverse, String.ofList_toList]

theorem Neat.append {a b : String} (first : Neat a) (second : Neat b) (s : String) :
    Neat (a ++ s ++ b) := by
  have letters : a.toList ≠ [] := by simpa using first.some
  have letters' : b.toList ≠ [] := by simpa using second.some
  constructor
  · intro none
    apply letters
    simpa using congrArg (·.toList.take a.toList.length) none
  · intro c member
    apply first.front
    rw [String.toList_append, String.toList_append, List.append_assoc,
      List.head?_append_of_ne_nil _ letters] at member
    exact member
  · intro c member
    apply second.back
    rw [String.toList_append, List.getLast?_append_of_ne_nil _ letters'] at member
    exact member

end CodeAgent.Text
