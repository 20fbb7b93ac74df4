import CodeAgent.CommandPolicy
import CodeAgent.Proofs.Text.Spacing

/-! What a verdict hangs on.
A command is blocked when nothing is left of it or a blocked pattern stands in it; any other command is
judged by its first two words. Its words are those of the command as it was given, in lower case. -/
namespace CodeAgent.CommandPolicy

open Text

/-- The words that a command is judged by. -/
def tokens (command : String) : List String := words (normalize command)

/-- Nothing is left of a command, or a blocked pattern stands in it. -/
def Blocks (p : CommandPolicy) (text : String) : Prop :=
  text = "" ∨ ∃ pattern ∈ p.blocked, contains text pattern = true

def judgeWords (p : CommandPolicy) (ws : List String) : VerdictReason :=
  if ws.headD "" ∈ p.trusted then
    if ws.headD "" = "git" then judgeGit ws.tail else .trusted (ws.headD "")
  else .untrusted (ws.headD "")

variable {p : CommandPolicy} {command : String}

/- The text and the words of a command -/

theorem normalize_eq_trim (command : String) : normalize command = trim (lower command) :=
  (trim_lower command).symm

theorem neat_normalize (some : normalize command ≠ "") : Neat (normalize command) := by
  rw [normalize_eq_trim] at some ⊢
  exact neat_trim some

theorem tokens_eq_map (command : String) : tokens command = (words command).map lower := by
  rw [tokens, normalize, words_lower, words_trim]

theorem tokens_eq_nil : tokens command = [] ↔ normalize command = "" := by
  constructor
  · intro none
    by_contra some
    have neat : Neat (normalize command) := neat_normalize some
    cases letters : (normalize command).toList with
    | nil => exact some (String.toList_eq_nil_iff.mp letters)
    | cons c cs =>
      have plain : isBlank c = false := neat.front c (by rw [letters]; rfl)
      rw [tokens, words, letters] at none
      exact wordsFrom_ne_nil List.mem_cons_self plain [] (List.map_eq_nil_iff.mp none)
  · intro none
    rw [tokens, none]
    rfl

/- Verdicts by what is blocked and by words -/

theorem judgeWords_not_blocked (ws : List String) : (p.judgeWords ws).verdict ≠ .blocked := by
  unfold judgeWords judgeGit
  split
  · split
    · split
      · simp [VerdictReason.verdict]
      · split <;> simp [VerdictReason.verdict]
    · simp [VerdictReason.verdict]
  · simp [VerdictReason.verdict]

theorem verdict_of_blocks (blocks : Blocks p (normalize command)) : p.verdict command = .blocked := by
  unfold verdict judge
  by_cases none : normalize command = ""
  · simp [none, VerdictReason.verdict]
  · obtain ⟨pattern, member, found⟩ := blocks.resolve_left none
    cases first : p.blocked.find? (contains (normalize command)) with
    | none => exact absurd found (by simpa using List.find?_eq_none.mp first pattern member)
    | some pattern => simp [none, first, VerdictReason.verdict]

theorem verdict_of_not_blocks (clear : ¬ Blocks p (normalize command)) :
    p.verdict command = (p.judgeWords (tokens command)).verdict := by
  obtain ⟨some, clear⟩ := not_or.mp clear
  have first : p.blocked.find? (contains (normalize command)) = none := by
    rw [List.find?_eq_none]
    intro pattern member found
    exact clear ⟨pattern, member, found⟩
  unfold verdict judge judgeWords tokens
  simp [some, first]

theorem verdict_eq_blocked : p.verdict command = .blocked ↔ Blocks p (normalize command) := by
  refine ⟨fun blocked => ?_, verdict_of_blocks⟩
  by_contra clear
  rw [verdict_of_not_blocks clear] at blocked
  exact judgeWords_not_blocked _ blocked

end CodeAgent.CommandPolicy

/-! The spelling of a command.
Letter case and the white space around a command do not matter. The white space between its words matters
to blocked patterns that hold white space themselves, and to nothing else: they are looked for in the
command as it is spaced, while programs and subcommands are words. -/

namespace CodeAgent.CommandPolicy

open Text

/-- The same words up to letter case, whatever white space lies between and around them. -/
def Respelled (a b : String) : Prop := (words a).map lower = (words b).map lower

instance (a b : String) : Decidable (Respelled a b) := inferInstanceAs (Decidable (_ = _))

/-- There is white space in a pattern. -/
def Spaced (pattern : String) : Prop := ∃ c ∈ pattern.toList, isBlank c = true

/-- Of two commands one is blocked, and only by patterns that hold white space. -/
structure BlockedBySpace (p : CommandPolicy) (a b : String) : Prop where
  blocked : p.verdict a = .blocked
  passed : p.verdict b ≠ .blocked
  found : ∃ pattern ∈ p.blocked, contains (normalize a) pattern = true
  spaced : ∀ pattern ∈ p.blocked, contains (normalize a) pattern = true → Spaced pattern

variable {p : CommandPolicy} {a b pattern : String}

theorem tokens_of_respelled (same : Respelled a b) : tokens a = tokens b := by
  rw [tokens_eq_map, tokens_eq_map]
  exact same

theorem contains_of_respelled (same : Respelled a b) (unspaced : ¬ Spaced pattern)
    (found : contains (normalize a) pattern = true) : contains (normalize b) pattern = true := by
  have plain : ∀ c ∈ pattern.toList, isBlank c = false := by
    intro c member
    by_contra blank
    exact unspaced ⟨c, member, by simpa using blank⟩
  rw [contains_iff_words plain] at found ⊢
  have words : words (normalize a) = words (normalize b) := tokens_of_respelled same
  rwa [← words]

theorem blocked_of_respelled (same : Respelled a b) (member : pattern ∈ p.blocked)
    (unspaced : ¬ Spaced pattern) (found : contains (normalize a) pattern = true) :
    p.verdict b = .blocked :=
  verdict_of_blocks (Or.inr ⟨pattern, member, contains_of_respelled same unspaced found⟩)

theorem blockedBySpace_of_respelled (same : Respelled a b) (blocked : p.verdict a = .blocked)
    (passed : p.verdict b ≠ .blocked) : BlockedBySpace p a b := by
  refine ⟨blocked, passed, ?_, ?_⟩
  · rcases verdict_eq_blocked.mp blocked with none | found
    · -- A command of which nothing is left has no words, however it is spelled.
      have empty : normalize b = "" := by
        rw [← tokens_eq_nil, ← tokens_of_respelled same, tokens_eq_nil]
        exact none
      exact absurd (verdict_of_blocks (Or.inl empty)) passed
    · exact found
  · intro pattern member found
    by_contra unspaced
    exact passed (blocked_of_respelled same member unspaced found)

theorem verdict_of_tokens (same : tokens a = tokens b) (first : p.verdict a ≠ .blocked)
    (second : p.verdict b ≠ .blocked) : p.verdict a = p.verdict b := by
  rw [verdict_of_not_blocks (mt verdict_of_blocks first),
    verdict_of_not_blocks (mt verdict_of_blocks second), same]

theorem normalize_of_surrounded {front back : String} (before : ∀ c ∈ front.toList, isBlank c = true)
    (behind : ∀ c ∈ back.toList, isBlank c = true) (same : lower a = lower b) :
    normalize (front ++ a ++ back) = normalize b := by
  rw [normalize, trim_surrounded before behind, ← trim_lower, same, trim_lower, ← normalize]

/-- Two spellings of a command have the same verdict, unless one is blocked by patterns with white space
in them alone. A pattern without white space blocks every spelling, and neither letter case nor white
space around a command makes a difference. -/
theorem verdict_of_respelled (p : CommandPolicy) (a b : String) :
    (Respelled a b →
      p.verdict a = p.verdict b ∨ BlockedBySpace p a b ∨ BlockedBySpace p b a) ∧
    (Respelled a b → ∀ pattern ∈ p.blocked, ¬ Spaced pattern →
      contains (normalize a) pattern = true → p.verdict a = .blocked ∧ p.verdict b = .blocked) ∧
    (∀ front back : String, (∀ c ∈ front.toList, isBlank c = true) →
      (∀ c ∈ back.toList, isBlank c = true) → lower a = lower b →
      p.verdict (front ++ a ++ back) = p.verdict b) := by
  refine ⟨?_, ?_, ?_⟩
  · intro same
    by_cases first : p.verdict a = .blocked
    · by_cases second : p.verdict b = .blocked
      · exact Or.inl (first.trans second.symm)
      · exact Or.inr (Or.inl (blockedBySpace_of_respelled same first second))
    · by_cases second : p.verdict b = .blocked
      · exact Or.inr (Or.inr (blockedBySpace_of_respelled same.symm second first))
      · exact Or.inl (verdict_of_tokens (tokens_of_respelled same) first second)
  · intro same pattern member unspaced found
    exact ⟨verdict_of_blocks (Or.inr ⟨pattern, member, found⟩),
      blocked_of_respelled same member unspaced found⟩
  · intro front back before behind same
    unfold verdict judge
    rw [normalize_of_surrounded before behind same]

theorem verdict_of_respelled_publish :
    (preset.verdict "npm publish" = preset.verdict "NPM\t publish" ∨
      BlockedBySpace preset "npm publish" "NPM\t publish" ∨
      BlockedBySpace preset "NPM\t publish" "npm publish") ∧
    (preset.verdict "mkfs /dev/sdb" = .blocked ∧ preset.verdict "  MkFs\n/dev/SDB" = .blocked) ∧
    preset.verdict (" \n" ++ "Git Status" ++ "\t") = preset.verdict "git status" := by
  have unspaced : ¬ Spaced "mkfs" := by simp [Spaced, isBlank]
  refine ⟨?_, ?_, ?_⟩
  · exact (verdict_of_respelled preset "npm publish" "NPM\t publish").1 (by decide +kernel)
  · exact (verdict_of_respelled preset "mkfs /dev/sdb" "  MkFs\n/dev/SDB").2.1 (by decide +kernel)
      "mkfs" (by decide) unspaced (by decide +kernel)
  · exact (verdict_of_respelled preset "Git Status" "git status").2.2 " \n" "\t"
      (by simp [isBlank]) (by simp [isBlank]) (by decide +kernel)

/-- One more blank between two words, and a blocked command is allowed. -/
theorem verdict_respaced :
    Respelled "npm publish" "npm  publish" ∧ preset.verdict "npm publish" = .blocked ∧
      preset.verdict "npm  publish" = .allowed := by
  decide +kernel

end CodeAgent.CommandPolicy
