import CodeAgent.Proofs.Text.Parts

/-! White space and letter case.
Lower case leaves white space where it is, so it commutes with trimming and with taking words apart; and
a pattern without white space stands in a text exactly when it stands in one of its words. -/
namespace CodeAgent.Text

/- Lower case between blanks -/

theorem still_of_blank {c : Char} (blank : isBlank c = true) : Still c := by
  have all : ∀ r ∈ blankRanges, ∀ k < r.2 - r.1 + 1, isStill (Char.ofNat (r.1 + k)) = true := by
    decide +kernel
  rw [isBlank_eq, inRanges, List.any_eq_true] at blank
  obtain ⟨r, member, bounds⟩ := blank
  simp only [Bool.and_eq_true, decide_eq_true_eq] at bounds
  have here := all r member (c.toNat - r.1) (by omega)
  rw [Nat.add_sub_cancel' bounds.1, Char.ofNat_toNat] at here
  exact still_of_isStill here

theorem lowerFrom_blank {c : Char} (blank : isBlank c = true) (before xs ys : List Char) :
    lowerFrom before (xs ++ c :: ys) = lowerFrom before xs ++ c :: lowerFrom [] ys :=
  lowerFrom_append (still_of_blank blank) xs before ys

theorem plain_lowerFrom {cs : List Char} (plain : ∀ c ∈ cs, isBlank c = false) (before : List Char) :
    ∀ d ∈ lowerFrom before cs, isBlank d = false := by
  induction cs generalizing before with
  | nil => simp [lowerFrom]
  | cons c cs ih =>
    obtain ⟨here, same, -, letters⟩ := lowerFrom_plain (plain c List.mem_cons_self) before cs
    intro d member
    rw [same] at member
    rcases List.mem_append.mp member with first | later
    · exact letters d first
    · exact ih (fun x inside => plain x (List.mem_cons_of_mem c inside)) (c :: before) d later

theorem lowerFrom_eq_nil {before cs : List Char} (plain : ∀ c ∈ cs, isBlank c = false) :
    lowerFrom before cs = [] ↔ cs = [] := by
  cases cs with
  | nil => simp [lowerFrom]
  | cons c cs =>
    obtain ⟨here, same, some, -⟩ := lowerFrom_plain (plain c List.mem_cons_self) before cs
    simp [same, some]

theorem exists_last_lowerFrom {c : Char} (plain : isBlank c = false) (before xs : List Char) :
    ∃ ds d, lowerFrom before (xs ++ [c]) = ds ++ [d] ∧ isBlank d = false := by
  induction xs generalizing before with
  | nil =>
    obtain ⟨here, same, some, letters⟩ := lowerFrom_plain plain before []
    obtain ⟨ds, d, rfl⟩ := List.eq_nil_or_concat'  here |>.resolve_left some
    refine ⟨ds, d, ?_, letters d (by simp)⟩
    simpa [lowerFrom] using same
  | cons x xs ih =>
    obtain ⟨ds, d, same, last⟩ := ih (x :: before)
    rw [List.cons_append, lowerFrom, same, ← List.append_assoc]
    exact ⟨_, d, rfl, last⟩

/- The ends of a text -/

theorem dropEndWhile_concat_of_pos {p : Char → Bool} {c : Char} (pass : p c = true) (xs : List Char) :
    dropEndWhile p (xs ++ [c]) = dropEndWhile p xs := by
  simp [dropEndWhile, pass]

theorem dropEndWhile_concat_of_neg {p : Char → Bool} {c : Char} (stop : p c = false) (xs : List Char) :
    dropEndWhile p (xs ++ [c]) = xs ++ [c] := by
  simp [dropEndWhile, stop]

theorem trimStartChars_lowerFrom (cs : List Char) :
    trimStartChars (lowerFrom [] cs) = lowerFrom [] (trimStartChars cs) := by
  induction cs with
  | nil => rfl
  | cons c cs ih =>
    by_cases blank : isBlank c = true
    · have onward := lowerFrom_blank blank [] [] cs
      rw [List.nil_append] at onward
      rw [onward]
      simpa [trimStartChars, lowerFrom, blank] using ih
    · have plain : isBlank c = false := by simpa using blank
      obtain ⟨here, same, some, letters⟩ := lowerFrom_plain plain [] cs
      have kept : trimStartChars (c :: cs) = c :: cs := by simp [trimStartChars, plain]
      rw [kept, same]
      apply dropWhile_of_head
      intro d first
      rw [List.head?_append_of_ne_nil _ some] at first
      exact letters d (List.mem_of_head? first)

theorem trimEndChars_lowerFrom (cs : List Char) :
    trimEndChars (lowerFrom [] cs) = lowerFrom [] (trimEndChars cs) := by
  induction cs using List.reverseRecOn with
  | nil => rfl
  | append_singleton xs c ih =>
    by_cases blank : isBlank c = true
    · rw [lowerFrom_blank blank]
      simp only [trimEndChars, lowerFrom, dropEndWhile_concat_of_pos blank] at ih ⊢
      exact ih
    · have plain : isBlank c = false := by simpa using blank
      obtain ⟨ds, d, same, last⟩ := exists_last_lowerFrom plain [] xs
      simp only [trimEndChars, same, dropEndWhile_concat_of_neg plain, dropEndWhile_concat_of_neg last]

theorem trim_lower (s : String) : trim (lower s) = lower (trim s) := by
  simp only [trim, lower, trimChars, String.toList_ofList, trimStartChars_lowerFrom,
    trimEndChars_lowerFrom]

theorem trimChars_cons {c : Char} (blank : isBlank c = true) (cs : List Char) :
    trimChars (c :: cs) = trimChars cs := by
  simp [trimChars, trimStartChars, blank]

theorem trimChars_concat {c : Char} (blank : isBlank c = true) (cs : List Char) :
    trimChars (cs ++ [c]) = trimChars cs := by
  simp only [trimChars, trimEndChars, trimStartChars, List.dropWhile_append]
  split
  · rename_i none
    simp [List.isEmpty_iff.mp none, blank]
  · exact dropEndWhile_concat_of_pos blank _

/-- White space around a text goes with trimming. -/
theorem trim_surrounded {front back : String} (before : ∀ c ∈ front.toList, isBlank c = true)
    (behind : ∀ c ∈ back.toList, isBlank c = true) (s : String) :
    trim (front ++ s ++ back) = trim s := by
  have dropsFront (fs : List Char) (blank : ∀ c ∈ fs, isBlank c = true) (cs : List Char) :
      trimChars (fs ++ cs) = trimChars cs := by
    induction fs with
    | nil => rfl
    | cons c fs ih =>
      rw [List.cons_append, trimChars_cons (blank c List.mem_cons_self)]
      exact ih fun x member => blank x (List.mem_cons_of_mem c member)
  have dropsBack (bs : List Char) (blank : ∀ c ∈ bs, isBlank c = true) (cs : List Char) :
      trimChars (cs ++ bs) = trimChars cs := by
    induction bs generalizing cs with
    | nil => rw [List.append_nil]
    | cons c bs ih =>
      rw [List.append_cons, ih fun x member => blank x (List.mem_cons_of_mem c member)]
      exact trimChars_concat (blank c List.mem_cons_self) cs
  simp only [trim, String.toList_append]
  rw [dropsBack _ behind, dropsFront _ before]

theorem head?_dropEndWhile {p : Char → Bool} {cs : List Char} (some : dropEndWhile p cs ≠ []) :
    (dropEndWhile p cs).head? = cs.head? := by
  have front : dropEndWhile p cs <+: cs := by
    rw [dropEndWhile, ← List.reverse_suffix, List.reverse_reverse]
    exact List.dropWhile_suffix p
  obtain ⟨rest, same⟩ := front
  have first : (dropEndWhile p cs ++ rest).head? = (dropEndWhile p cs).head? :=
    List.head?_append_of_ne_nil _ some
  rw [same] at first
  exact first.symm

theorem plain_head?_dropWhile {cs : List Char} :
    ∀ c ∈ (cs.dropWhile isBlank).head?, isBlank c = false := by
  intro c first
  have stops := List.head?_dropWhile_not isBlank cs
  rw [Option.mem_def.mp first] at stops
  exact stops

theorem neat_trim {s : String} (some : trim s ≠ "") : Neat (trim s) := by
  have letters : trimChars s.toList ≠ [] := by
    intro none
    exact some (by rw [trim, none])
  refine ⟨some, ?_, ?_⟩
  · rw [trim, String.toList_ofList, trimChars, trimEndChars]
    rw [head?_dropEndWhile letters]
    exact plain_head?_dropWhile
  · rw [trim, String.toList_ofList, trimChars, trimEndChars, dropEndWhile, List.getLast?_reverse]
    exact plain_head?_dropWhile

/- Words -/

/-- A text is a run without blanks, or such a run, a blank and a text. -/
theorem blank_induction {motive : List Char → Prop}
    (run : ∀ xs, (∀ c ∈ xs, isBlank c = false) → motive xs)
    (blank : ∀ xs c ys, (∀ c ∈ xs, isBlank c = false) → isBlank c = true → motive ys →
      motive (xs ++ c :: ys)) (cs : List Char) : motive cs := by
  -- The run that is being read stands in front of the rest.
  have behind : ∀ xs, (∀ c ∈ xs, isBlank c = false) → motive (xs ++ cs) := by
    induction cs with
    | nil =>
      intro xs plain
      rw [List.append_nil]
      exact run xs plain
    | cons c cs ih =>
      intro xs plain
      by_cases ends : isBlank c = true
      · exact blank xs c cs plain ends (ih [] (by simp))
      · rw [List.append_cons]
        apply ih
        intro x member
        rcases List.mem_append.mp member with before | last
        · exact plain x before
        · rw [List.mem_singleton.mp last]
          simpa using ends
  exact behind [] (by simp)

theorem wordsFrom_plain {cs : List Char} (plain : ∀ c ∈ cs, isBlank c = false) :
    wordsFrom [] cs = if cs = [] then [] else [cs] := by
  have whole := wordsFrom_run plain [] []
  rw [List.append_nil, List.append_nil] at whole
  simp [whole, wordsFrom]

theorem wordsFrom_trimChars (cs : List Char) : wordsFrom [] (trimChars cs) = wordsFrom [] cs := by
  have first : wordsFrom [] (trimStartChars cs) = wordsFrom [] cs := by
    induction cs with
    | nil => rfl
    | cons c cs ih =>
      by_cases blank : isBlank c = true
      · simpa [trimStartChars, wordsFrom, blank] using ih
      · simp [trimStartChars, blank]
  rw [← first, trimChars]
  induction trimStartChars cs using List.reverseRecOn with
  | nil => rfl
  | append_singleton xs c ih =>
    by_cases blank : isBlank c = true
    · rw [wordsFrom_blank blank, ← ih, trimEndChars, dropEndWhile_concat_of_pos blank]
      simp [trimEndChars, wordsFrom]
    · rw [trimEndChars, dropEndWhile_concat_of_neg (by simpa using blank)]

theorem words_trim (s : String) : words (trim s) = words s := by
  simp [words, trim, wordsFrom_trimChars]

theorem wordsFrom_lowerFrom (cs : List Char) :
    wordsFrom [] (lowerFrom [] cs) = (wordsFrom [] cs).map (lowerFrom []) := by
  induction cs using blank_induction with
  | run xs plain =>
    rw [wordsFrom_plain plain, wordsFrom_plain (plain_lowerFrom plain [])]
    by_cases none : xs = []
    · simp [none, lowerFrom]
    · simp [none, lowerFrom_eq_nil plain]
  | blank xs c ys plain blank ih =>
    rw [lowerFrom_blank blank, wordsFrom_blank blank, wordsFrom_blank blank, List.map_append, ← ih,
      wordsFrom_plain plain, wordsFrom_plain (plain_lowerFrom plain [])]
    by_cases none : xs = []
    · simp [none, lowerFrom]
    · simp [none, lowerFrom_eq_nil plain]

theorem words_lower (s : String) : words (lower s) = (words s).map lower := by
  simp only [words, lower, String.toList_ofList, wordsFrom_lowerFrom, List.map_map]
  congr 1
  funext cs
  simp [lower]

/- Patterns between blanks -/

section

variable {pattern cs xs ys : List Char} {c : Char}

theorem infix_parted (some : pattern ≠ []) (apart : c ∉ pattern) :
    pattern <:+: xs ++ c :: ys ↔ pattern <:+: xs ∨ pattern <:+: ys := by
  have front : ∀ p : List Char, p <+: c :: ys → c ∉ p → p = [] := by
    intro p before free
    cases p with
    | nil => rfl
    | cons d p =>
      obtain ⟨rfl, -⟩ := List.cons_prefix_cons.mp before
      exact absurd List.mem_cons_self free
  rw [List.infix_append_iff, List.infix_cons_iff]
  constructor
  · rintro (first | (across | second) | ⟨l, r, rfl, ends, begins⟩)
    · exact Or.inl first
    · exact absurd (front pattern across apart) some
    · exact Or.inr second
    · have none := front r begins fun member => apart (List.mem_append_right l member)
      rw [none, List.append_nil]
      exact Or.inl ends.isInfix
  · rintro (first | second)
    · exact Or.inl first
    · exact Or.inr (Or.inl (Or.inr second))

/-- What has no blank stands in a text where it stands in a word. -/
theorem infix_iff_words (some : pattern ≠ []) (plain : ∀ c ∈ pattern, isBlank c = false)
    (cs : List Char) : pattern <:+: cs ↔ ∃ w ∈ wordsFrom [] cs, pattern <:+: w := by
  induction cs using blank_induction with
  | run xs clear =>
    rw [wordsFrom_plain clear]
    by_cases none : xs = []
    · simp [none, some]
    · simp [none]
  | blank xs c ys clear blank ih =>
    have apart : c ∉ pattern := by
      intro member
      rw [plain c member] at blank
      cases blank
    rw [infix_parted some apart, ih, wordsFrom_blank blank, wordsFrom_plain clear]
    by_cases none : xs = []
    · simp [none, some]
    · simp [none]

end

theorem contains_iff_words {s pattern : String} (plain : ∀ c ∈ pattern.toList, isBlank c = false) :
    contains s pattern = true ↔ pattern = "" ∨ ∃ w ∈ words s, contains w pattern = true := by
  by_cases none : pattern = ""
  · simp [none, contains_iff]
  · have letters : pattern.toList ≠ [] := mt String.toList_eq_nil_iff.mp none
    simp only [none, false_or, contains_iff, words, List.mem_map]
    rw [infix_iff_words letters plain]
    constructor
    · rintro ⟨w, member, found⟩
      exact ⟨_, ⟨w, member, rfl⟩, by rwa [String.toList_ofList]⟩
    · rintro ⟨_, ⟨w, member, rfl⟩, found⟩
      exact ⟨w, member, by rwa [String.toList_ofList] at found⟩

/- Patterns in a trimmed text -/

section

variable {pattern cs : List Char}

theorem infix_trimStartChars (some : pattern ≠ []) (front : ∀ c ∈ pattern.head?, isBlank c = false) :
    pattern <:+: trimStartChars cs ↔ pattern <:+: cs := by
  induction cs with
  | nil => rfl
  | cons c cs ih =>
    by_cases blank : isBlank c = true
    · have apart : ¬ pattern <+: c :: cs := by
        intro before
        obtain ⟨d, p, rfl⟩ := List.exists_cons_of_ne_nil some
        obtain ⟨rfl, -⟩ := List.cons_prefix_cons.mp before
        rw [front d rfl] at blank
        cases blank
      rw [trimStartChars, List.dropWhile_cons_of_pos blank, List.infix_cons_iff]
      simp only [apart, false_or]
      exact ih
    · simp [trimStartChars, blank]

theorem infix_trimEndChars (some : pattern ≠ [])
    (back : ∀ c ∈ pattern.getLast?, isBlank c = false) :
    pattern <:+: trimEndChars cs ↔ pattern <:+: cs := by
  have reversed := @infix_trimStartChars pattern.reverse cs.reverse (by simpa using some)
    (by simpa using back)
  rw [← List.reverse_infix, ← @List.reverse_infix _ pattern cs, trimEndChars, dropEndWhile,
    List.reverse_reverse]
  exact reversed

/-- A pattern that ends in one more character is kept as well, or what stands before that character is
where the text ends now. -/
theorem infix_of_cut {word : List Char} {b : Char} (some : word ≠ [])
    (back : ∀ c ∈ word.getLast?, isBlank c = false) (found : word ++ [b] <:+: cs) :
    word ++ [b] <:+: trimEndChars cs ∨ word <:+ trimEndChars cs := by
  induction cs using List.reverseRecOn with
  | nil => simp at found
  | append_singleton xs c ih =>
    by_cases blank : isBlank c = true
    · rw [trimEndChars, dropEndWhile_concat_of_pos blank]
      rcases List.infix_concat_iff.mp found with ends | before
      · obtain none | ⟨t, same, ends⟩ := List.suffix_concat_iff.mp ends
        · simp at none
        obtain ⟨rfl, -⟩ := List.append_inj' same rfl
        obtain ⟨pre, rfl⟩ := ends
        obtain ⟨w, d, rfl⟩ := (List.eq_nil_or_concat' word).resolve_left some
        have last : isBlank d = false := back d (by simp)
        rw [← List.append_assoc, dropEndWhile_concat_of_neg last, List.append_assoc]
        exact Or.inr ⟨pre, by simp⟩
      · exact ih before
    · rw [trimEndChars, dropEndWhile_concat_of_neg (by simpa using blank)]
      exact Or.inl found

end

theorem Neat.contains_trim {pattern : String} (neat : Neat pattern) (s : String) :
    contains (Text.trim s) pattern = contains s pattern := by
  have letters : pattern.toList ≠ [] := mt String.toList_eq_nil_iff.mp neat.some
  rw [Bool.eq_iff_iff, contains_iff, contains_iff, Text.trim, String.toList_ofList, trimChars,
    infix_trimEndChars letters neat.back, infix_trimStartChars letters neat.front]

/-- A blank behind the last word of a text is lost with trimming, and the word is not. -/
theorem Neat.contains_spaced {word : String} (neat : Neat word) {s : String}
    (found : contains s (word ++ " ") = true) :
    contains (Text.trim s) (word ++ " ") = true ∨ endsWith (Text.trim s) word = true := by
  have letters : word.toList ≠ [] := mt String.toList_eq_nil_iff.mp neat.some
  have pattern : (word ++ " ").toList = word.toList ++ [' '] := by simp
  rw [contains_iff, pattern] at found
  have spaced : word.toList ++ [' '] <:+: trimStartChars s.toList := by
    rw [infix_trimStartChars (by simp)]
    · exact found
    · intro c first
      rw [List.head?_append_of_ne_nil _ letters] at first
      exact neat.front c first
  rw [contains_iff, pattern, endsWith, List.isSuffixOf_iff_suffix, Text.trim,
    String.toList_ofList, trimChars]
  exact infix_of_cut letters neat.back spaced

end CodeAgent.Text
