import CodeAgent.Proofs.Command.Judging

/-! Chained commands.
A shell runs every part of a chain, and a policy judges the chain as one text: blocked patterns count
wherever they stand, and otherwise the first two words decide. So a chain is blocked with any of its
parts, and is hardly ever judged less strictly than the part that comes first; but what comes behind is
not judged on its own. -/
namespace CodeAgent

namespace Verdict

def strictness : Verdict → Nat
  | allowed => 0
  | requiresConfirmation => 1
  | blocked => 2

theorem strictness_le (v : Verdict) : v.strictness ≤ blocked.strictness := by
  cases v <;> decide

end Verdict

namespace CommandPolicy

open Text

/-- What a shell takes two commands apart by. -/
def separators : List String := [";", "&&", "||", "|", "\n"]

/-- The first word of the chain reaches over the separator, and is trusted as it is. -/
def Fuses (p : CommandPolicy) (a s b : String) : Prop :=
  ∃ word rest, tokens (a ++ s ++ b) = word :: rest ∧ word ∈ p.trusted ∧ contains word s = true

/-- A lone `git` finds its subcommand on the next line. -/
def CompletesGit (a s b : String) : Prop :=
  s = "\n" ∧ tokens a = ["git"] ∧ ∃ sub rest, tokens b = sub :: rest ∧ sub ∈ safeGit

variable {p : CommandPolicy} {a b s command : String}

/- The text of a chain -/

theorem still_of_separator (sep : s ∈ separators) : ∀ c ∈ s.toList, Still c := by
  have all : separators.all (fun s => s.toList.all isStill) = true := by decide +kernel
  intro c member
  exact still_of_isStill (List.all_eq_true.mp (List.all_eq_true.mp all s sep) c member)

theorem separator_letters : ∀ s ∈ separators, s.toList ≠ [] := by decide

theorem normalize_chain (sep : s ∈ separators) (first : Neat a) (second : Neat b) :
    normalize (a ++ s ++ b) = normalize a ++ s ++ normalize b := by
  rw [normalize, normalize, normalize, (first.append second s).trim, first.trim, second.trim,
    ← String.toList_inj]
  simp only [lower, String.toList_append, String.toList_ofList, List.append_assoc]
  exact lowerFrom_run (still_of_separator sep) (separator_letters s sep) [] _ _

theorem normalize_ne_empty (neat : Neat command) : normalize command ≠ "" := by
  rw [normalize, neat.trim, lower]
  cases letters : command.toList with
  | nil => exact absurd (String.toList_eq_nil_iff.mp letters) neat.some
  | cons c cs =>
    have plain : isBlank c = false := neat.front c (by rw [letters]; rfl)
    obtain ⟨here, same, some, -⟩ := lowerFrom_plain plain [] cs
    simp [same, some]

theorem tokens_ne_nil (neat : Neat command) : tokens command ≠ [] :=
  mt tokens_eq_nil.mp (normalize_ne_empty neat)

theorem blocks_chain (sep : s ∈ separators) (first : Neat a) (second : Neat b)
    (blocks : Blocks p (normalize a) ∨ Blocks p (normalize b)) :
    Blocks p (normalize (a ++ s ++ b)) := by
  rw [normalize_chain sep first second]
  rcases blocks with (none | ⟨pattern, member, found⟩) | (none | ⟨pattern, member, found⟩)
  · exact absurd none (normalize_ne_empty first)
  · refine Or.inr ⟨pattern, member, contains_iff.mpr ?_⟩
    rw [String.toList_append, String.toList_append, List.append_assoc]
    exact (contains_iff.mp found).trans (List.prefix_append _ _).isInfix
  · exact absurd none (normalize_ne_empty second)
  · refine Or.inr ⟨pattern, member, contains_iff.mpr ?_⟩
    rw [String.toList_append]
    exact (contains_iff.mp found).trans (List.suffix_append _ _).isInfix

/- The words of a chain -/

theorem plain_of_separator (sep : s ∈ separators) (visible : s ≠ "\n") :
    ∀ c ∈ s.toList, isBlank c = false := by
  have all : separators.all (fun s => s = "\n" || s.toList.all (!isBlank ·)) = true := by decide
  intro c member
  have each := (Bool.or_eq_true ..).mp (List.all_eq_true.mp all s sep)
  have plain := each.resolve_left (by simpa using visible)
  simpa using List.all_eq_true.mp plain c member

/-- A new line parts words; another separator joins the last word before it and the first behind it. -/
theorem tokens_chain (sep : s ∈ separators) (first : Neat a) (second : Neat b) :
    (s = "\n" ∧ tokens (a ++ s ++ b) = tokens a ++ tokens b) ∨
      ∃ ws last word rest, tokens a = ws ++ last ∧ last.length ≤ 1 ∧
        tokens (a ++ s ++ b) = ws ++ word :: rest ∧ contains word s = true := by
  rw [tokens, tokens, tokens, normalize_chain sep first second]
  by_cases line : s = "\n"
  · refine Or.inl ⟨line, ?_⟩
    have parted := wordsFrom_blank (show isBlank '\n' = true by decide) []
      (normalize a).toList (normalize b).toList
    rw [line, words, words, words, ← List.map_append, ← parted, String.toList_append,
      String.toList_append, List.append_assoc]
    rfl
  · obtain ⟨ws, last, more, rest, before, whole⟩ := wordsFrom_fuse (plain_of_separator sep line)
      (separator_letters s sep) [] (normalize a).toList (normalize b).toList
    refine Or.inr ⟨ws.map String.ofList, (if last = [] then [] else [last]).map String.ofList,
      String.ofList (last ++ s.toList ++ more), rest.map String.ofList, ?_, ?_, ?_, ?_⟩
    · rw [words, before, List.map_append]
    · split <;> simp
    · rw [words, String.toList_append, String.toList_append, List.append_assoc, whole,
        List.map_append, List.map_cons]
    · rw [contains_iff, String.toList_ofList, List.append_assoc]
      exact ⟨last, more, by rw [List.append_assoc]⟩

/- What a chain is judged by -/

/-- Two words decide. -/
theorem judgeWords_append {ws : List String} (long : 2 ≤ ws.length) (more more' : List String) :
    p.judgeWords (ws ++ more) = p.judgeWords (ws ++ more') := by
  match ws, long with
  | w :: w' :: ws, _ => rfl

theorem strictness_le_one (ws : List String) : (p.judgeWords ws).verdict.strictness ≤ 1 := by
  have clear := @judgeWords_not_blocked p ws
  cases same : (p.judgeWords ws).verdict with
  | allowed => decide
  | requiresConfirmation => decide
  | blocked => exact absurd same clear

theorem separator_not_in_safeGit : ∀ sub ∈ safeGit, ∀ s ∈ separators, contains sub s = false := by
  decide +kernel

theorem asks_of_unsafe_git {w sub : String} (git : w = "git") (other : sub ∉ safeGit)
    (rest : List String) :
    (p.judgeWords (w :: sub :: rest)).verdict = .requiresConfirmation := by
  unfold judgeWords
  split
  · simp [git, judgeGit, other, VerdictReason.verdict]
  · rfl

/-- More words behind make a difference to a lone `git` at most. -/
theorem git_of_laxer_append {ws more : List String} (some : ws ≠ [])
    (laxer : (p.judgeWords (ws ++ more)).verdict.strictness < (p.judgeWords ws).verdict.strictness) :
    ws = ["git"] ∧ ∃ sub rest, more = sub :: rest ∧ sub ∈ safeGit := by
  match ws, more with
  | w :: w' :: ws, more =>
    have same := @judgeWords_append p (w :: w' :: ws) (by simp) more []
    rw [same, List.append_nil] at laxer
    exact absurd laxer (Nat.lt_irrefl _)
  | [w], [] => exact absurd laxer (Nat.lt_irrefl _)
  | [w], sub :: rest =>
    by_cases git : w = "git"
    · refine ⟨by rw [git], sub, rest, rfl, ?_⟩
      by_contra other
      have asks := @asks_of_unsafe_git p w sub git other rest
      have least := @strictness_le_one p [w]
      rw [List.singleton_append, asks] at laxer
      exact absurd laxer (Nat.not_lt.mpr least)
    · have same : p.judgeWords ([w] ++ sub :: rest) = p.judgeWords [w] := by
        simp [judgeWords, git]
      rw [same] at laxer
      exact absurd laxer (Nat.lt_irrefl _)

/-- A word that holds a separator makes a difference as the trusted program of its own at most. -/
theorem trusted_of_laxer_fuse {ws last rest : List String} {word : String} (sep : s ∈ separators)
    (holds : contains word s = true)
    (laxer : (p.judgeWords (ws ++ word :: rest)).verdict.strictness <
      (p.judgeWords (ws ++ last)).verdict.strictness) : ws = [] ∧ word ∈ p.trusted := by
  have apart : word ∉ safeGit := by
    intro safe
    rw [separator_not_in_safeGit word safe s sep] at holds
    cases holds
  match ws with
  | w :: w' :: ws =>
    rw [@judgeWords_append p (w :: w' :: ws) (by simp) (word :: rest) last] at laxer
    exact absurd laxer (Nat.lt_irrefl _)
  | [w] =>
    by_cases git : w = "git"
    · rw [List.singleton_append, asks_of_unsafe_git git apart] at laxer
      exact absurd laxer (Nat.not_lt.mpr (strictness_le_one _))
    · have same : p.judgeWords ([w] ++ word :: rest) = p.judgeWords ([w] ++ last) := by
        simp [judgeWords, git]
      rw [same] at laxer
      exact absurd laxer (Nat.lt_irrefl _)
  | [] =>
    refine ⟨rfl, ?_⟩
    by_contra unknown
    have asks : (p.judgeWords ([] ++ word :: rest)).verdict = .requiresConfirmation := by
      simp [judgeWords, unknown, VerdictReason.verdict]
    rw [asks] at laxer
    exact absurd laxer (Nat.not_lt.mpr (strictness_le_one _))

/-- A chain is blocked with any of its parts. It is judged less strictly than its first part only where
the separator ends up in a trusted word, or a lone `git` is completed on the next line. Nothing else of
what comes behind is judged: behind three words a chain that is not blocked has the verdict of these. -/
theorem chain_strict (p : CommandPolicy) (sep : s ∈ separators) (first : Neat a) (second : Neat b) :
    (p.verdict a = .blocked ∨ p.verdict b = .blocked → p.verdict (a ++ s ++ b) = .blocked) ∧
    ((p.verdict (a ++ s ++ b)).strictness < (p.verdict a).strictness →
      Fuses p a s b ∨ CompletesGit a s b) ∧
    (3 ≤ (tokens a).length → p.verdict (a ++ s ++ b) = .blocked ∨
      p.verdict (a ++ s ++ b) = p.verdict a) := by
  have blocked : p.verdict a = .blocked ∨ p.verdict b = .blocked →
      p.verdict (a ++ s ++ b) = .blocked := by
    rw [verdict_eq_blocked, verdict_eq_blocked, verdict_eq_blocked]
    exact blocks_chain sep first second
  refine ⟨blocked, ?_⟩
  by_cases whole : p.verdict (a ++ s ++ b) = .blocked
  · refine ⟨fun laxer => ?_, fun _ => Or.inl whole⟩
    rw [whole] at laxer
    exact absurd laxer (Nat.not_lt.mpr (Verdict.strictness_le _))
  have clear := mt (fun part => blocked (Or.inl part)) whole
  rw [verdict_of_not_blocks (mt verdict_eq_blocked.mpr whole),
    verdict_of_not_blocks (mt verdict_eq_blocked.mpr clear)]
  rcases tokens_chain sep first second with ⟨line, parted⟩ | ⟨ws, last, word, rest, before, short, fused, holds⟩
  · rw [parted]
    constructor
    · intro laxer
      obtain ⟨lone, sub, rest, next, safe⟩ := git_of_laxer_append (tokens_ne_nil first) laxer
      exact Or.inr ⟨line, lone, sub, rest, next, safe⟩
    · intro long
      have same := @judgeWords_append p (tokens a) (by omega) (tokens b) []
      rw [List.append_nil] at same
      exact Or.inr (congrArg VerdictReason.verdict same)
  · rw [before, fused]
    constructor
    · intro laxer
      obtain ⟨rfl, trusted⟩ := trusted_of_laxer_fuse sep holds laxer
      exact Or.inl ⟨word, rest, fused, trusted, holds⟩
    · intro long
      rw [List.length_append] at long
      exact Or.inr (congrArg VerdictReason.verdict (judgeWords_append (by omega) _ _))

theorem chain_strict_scripts :
    preset.verdict ("npm run clean" ++ "&&" ++ "rm -rf dist") = .blocked ∧
      (preset.verdict ("ls -l src" ++ "|" ++ "curl x") = .blocked ∨
        preset.verdict ("ls -l src" ++ "|" ++ "curl x") = preset.verdict "ls -l src") ∧
      (preset.verdict ("git" ++ "\n" ++ "Status")).strictness < (preset.verdict "git").strictness ∧
      (Fuses preset "git" "\n" "Status" ∨ CompletesGit "git" "\n" "Status") := by
  have clean : Neat "npm run clean" := neat_of_isNeat (by decide)
  have remove : Neat "rm -rf dist" := neat_of_isNeat (by decide)
  have list : Neat "ls -l src" := neat_of_isNeat (by decide)
  have curl : Neat "curl x" := neat_of_isNeat (by decide)
  have git : Neat "git" := neat_of_isNeat (by decide)
  have status : Neat "Status" := neat_of_isNeat (by decide)
  have laxer : (preset.verdict ("git" ++ "\n" ++ "Status")).strictness <
      (preset.verdict "git").strictness := by decide +kernel
  refine ⟨?_, ?_, laxer, ?_⟩
  · exact (chain_strict preset (by decide) clean remove).1 (Or.inr (by decide +kernel))
  · exact (chain_strict preset (by decide) list curl).2.2 (by decide +kernel)
  · exact (chain_strict preset (by decide) git status).2.1 laxer

/-- What comes behind is not judged, a lone `git` is completed, a trusted entry may hold a separator, and
nothing at all is blocked by itself only. -/
theorem chain_laxer :
    (preset.verdict ("ls -l" ++ ";" ++ "curl x")).strictness < (preset.verdict "curl x").strictness ∧
      (preset.verdict ("git" ++ "\n" ++ "status")).strictness < (preset.verdict "git").strictness ∧
      ((withExtra [] ["curl;ls"]).verdict ("curl" ++ ";" ++ "ls")).strictness <
        ((withExtra [] ["curl;ls"]).verdict "curl").strictness ∧
      (preset.verdict ("" ++ ";" ++ "ls")).strictness < (preset.verdict "").strictness := by
  decide +kernel

end CommandPolicy

end CodeAgent
