import CodeAgent.Proofs.Tool.Capturing
import CodeAgent.Proofs.Tool.Standing

/-! What a tool lists of what `git` printed about a repository. -/
namespace CodeAgent

namespace Tool

open Attempt

section

variable {root : String} {l : List Heard} {output errors : ByteArray}

theorem success_of_trace {command : String} {arguments : List String} {report : ProcessReport}
    (run : Act.Trace (git root command arguments).run l (.ok report)) :
    ∃ output errors,
      l = [⟨.process ⟨"git", command :: arguments, root, gitTimeoutMs⟩, .finished (some 0) output errors⟩] ∧
      report = .ofEnd (some 0) output errors := by
  rcases trace_bind.mp run with ⟨_, -, wrong⟩ | ⟨ended, l₁, l₂, rfl, ran, rest⟩
  · cases wrong
  · obtain ⟨exit, output, errors, asked, shape⟩ := finished_of_trace ran
    split at rest
    · rename_i success
      obtain ⟨rfl, same⟩ := trace_pure.mp rest
      rw [shape, ProcessReport.success_ofEnd, decide_eq_true_eq] at success
      refine ⟨output, errors, ?_, ?_⟩
      · rw [asked, success]; rfl
      · rw [Except.ok.inj same, shape, success]
    · cases (trace_throw.mp rest).2

theorem trace_git {command : String} {arguments : List String} :
    Act.Trace (git root command arguments).run
      [⟨.process ⟨"git", command :: arguments, root, gitTimeoutMs⟩, .finished (some 0) output errors⟩]
      (.ok (.ofEnd (some 0) output errors)) := by
  have success : (ProcessReport.ofEnd (some 0) output errors).success = true := by
    rw [ProcessReport.success_ofEnd]
    rfl
  refine trace_bind.mpr (Or.inr ⟨_, _, [], rfl, trace_finished, ?_⟩)
  rw [if_pos success]
  exact trace_pure.mpr ⟨rfl, rfl⟩

/-- The question of what differs from the last commit, with the answer of `git`. -/
def statusHeard (root : String) (output errors : ByteArray) : Heard :=
  ⟨.process ⟨"git", ["status", "--porcelain=v1", "-b"], root, gitTimeoutMs⟩,
    .finished (some 0) output errors⟩

theorem trace_gitStatus (root : String) (arguments : Json) {s : RepositoryStatus} {output : ByteArray}
    (errors : ByteArray) (read : RepositoryStatus.ofText (ProcessReport.keep output).1 = .ok s) :
    Act.Trace ((gitStatus root).body arguments) [statusHeard root output errors] (.done (.of s.toJson)) := by
  refine Act.trace_bind.mpr ⟨_, _, [], rfl, trace_git, ?_⟩
  dsimp only
  rw [ProcessReport.output_ofEnd, read]
  exact .done _

theorem of_trace_gitStatus {arguments : Json} {o : ToolOutput}
    (run : Act.Trace ((gitStatus root).body arguments) l (.done o)) :
    ∃ output errors s, l = [statusHeard root output errors] ∧
      RepositoryStatus.ofText (ProcessReport.keep output).1 = .ok s ∧ o = .of s.toJson := by
  obtain ⟨r, l₁, l₂, rfl, ran, rest⟩ := Act.trace_bind.mp run
  cases r with
  | error f => cases (Act.trace_pure.mp rest).2
  | ok report =>
    obtain ⟨output, errors, asked, shape⟩ := success_of_trace ran
    dsimp only at rest
    split at rest
    · rename_i s read
      obtain ⟨rfl, same⟩ := Act.trace_pure.mp rest
      rw [shape, ProcessReport.output_ofEnd] at read
      refine ⟨output, errors, s, ?_, read, BodyEnd.done.inj same⟩
      rw [asked]
      rfl
    · cases (Act.trace_pure.mp rest).2

end

open RepositoryStatus

/-- Every result is read from one answer of `git`. Of a report that fits the limit on output, each entry is
listed by its letters, and nothing else is; its path is listed without white space in front of it. Of a
longer report the entries behind the limit are missing, and the mark of the cut is listed as a path that is
staged and modified. -/
theorem status_accounts_for_entries (root : String) (arguments : Json) :
    (∀ l o, Act.Trace ((gitStatus root).body arguments) l (.done o) → ∃ output errors s,
      l = [statusHeard root output errors] ∧ ofText (ProcessReport.keep output).1 = .ok s ∧
        o = .of s.toJson) ∧
    ∀ (head : String) (entries : List Entry) (errors : ByteArray), Text.Unbroken head.toList →
      ∃ s : RepositoryStatus,
        (∀ r, Act.Trace ((gitStatus root).body arguments)
          [statusHeard root (printed head entries).toUTF8 errors] r ↔ r = .done (.of s.toJson)) ∧
        ((printed head entries).utf8ByteSize ≤ maxOutput → s.Lists (entries.map Entry.shown) [] ∧
          ((∀ e ∈ entries, ∀ c, e.path.toList.head? = some c → Text.isBlank c = false) →
            s.Lists (entries.map fun e => (e.standing, e.path)) [])) ∧
        (maxOutput < (printed head entries).utf8ByteSize → ∃ kept lost part,
          Shortened head entries kept lost part ∧ s.Lists (kept.map Entry.shown ++ part) [markPath]) := by
  constructor
  · intro l o run
    exact of_trace_gitStatus run
  · intro head entries errors whole
    obtain ⟨s, read, fits, beyond⟩ := ofText_kept whole entries
    have run := trace_gitStatus root arguments errors read
    refine ⟨s, ?_, ?_, beyond⟩
    · intro r
      constructor
      · intro other
        exact (other.unique run (rfl : _ ++ [] = _ ++ [])).2.1
      · rintro rfl
        exact run
    · intro within
      refine ⟨fits within, fun started => ?_⟩
      rw [← shown_of_started started]
      exact fits within

/-- Four paths, one of them changed twice. -/
def someEntries : List Entry :=
  [⟨.changed .same .modified (by decide), "a.ts", by decide, by decide⟩,
    ⟨.untracked, "b.ts", by decide, by decide⟩, ⟨.conflicted .bothModified, "c.ts", by decide, by decide⟩,
    ⟨.changed .modified .deleted (by decide), "d.ts", by decide, by decide⟩]

theorem status_accounts_for_entries_few :
    ∃ s : RepositoryStatus, (∃ l, Act.Trace ((gitStatus "/p").body (.obj [])) l (.done (.of s.toJson))) ∧
      s.staged = ["d.ts"] ∧ s.modified = ["a.ts", "d.ts"] ∧ s.untracked = ["b.ts"] ∧
      s.conflicted = ["c.ts"] := by
  have whole : Text.Unbroken "main...origin/main [ahead 1]".toList := by decide
  have fits : (printed "main...origin/main [ahead 1]" someEntries).utf8ByteSize ≤ maxOutput := by
    decide +kernel
  obtain ⟨s, run, lists, -⟩ := (status_accounts_for_entries "/p" (.obj [])).2 _ someEntries .empty whole
  obtain ⟨lists, -⟩ := lists fits
  refine ⟨s, ⟨_, (run _).mpr rfl⟩, ?_, ?_, ?_, ?_⟩
  · exact lists.staged.trans (by decide +kernel)
  · exact lists.modified.trans (by decide +kernel)
  · exact lists.untracked.trans (by decide +kernel)
  · exact lists.conflicted.trans (by decide +kernel)

/-- New files with names of every length up to `n`. -/
def newFiles (n : Nat) : List Entry :=
  (List.range n).map fun k =>
    ⟨.untracked, String.ofList (List.replicate (k + 1) 'a'), by simp, by simp [Text.Unbroken]⟩

theorem utf8ByteSize_newFiles (head : String) (n : Nat) :
    (printed head (newFiles n)).utf8ByteSize =
      String.utf8Len (headLine head.toList) + 1 + ((List.range n).map (· + 5)).sum := by
  have name (k : Nat) : String.utf8Len (List.replicate k 'a') = k := by
    induction k with
    | zero => rfl
    | succ k ih =>
      rw [List.replicate_succ, String.utf8Len_cons, ih]
      rfl
  have line (k : Nat) : String.utf8Len (Standing.untracked.line (List.replicate (k + 1) 'a')) + 1 = k + 5 := by
    rw [Standing.utf8Len_line, name]
    omega
  rw [utf8ByteSize_printed, printedLines, Text.utf8Len_ended, List.map_cons, List.sum_cons, newFiles]
  simp [Entry.line, line, Function.comp_def]

theorem length_newFiles (n : Nat) : (newFiles n).length = n := by simp [newFiles]

theorem length_of_shortened {kept lost : List Entry} {part : List (Standing × String)}
    (shortened : Shortened "main" (newFiles 250) kept lost part) : kept.length < 249 := by
  have bound : kept.length ≤ 250 := by
    rw [← length_newFiles 250, shortened.whole, List.length_append]
    exact Nat.le_add_right _ _
  have front : kept = newFiles kept.length := by
    have taken := congrArg (List.take kept.length) shortened.whole
    rw [List.take_left, newFiles, ← List.map_take, List.take_range, Nat.min_eq_left bound] at taken
    exact taken.symm
  by_contra many
  have long : maxOutput < (printed "main" kept).utf8ByteSize := by
    rw [front, utf8ByteSize_newFiles]
    obtain last | all : kept.length = 249 ∨ kept.length = 250 := by omega
    · rw [last]
      decide +kernel
    · rw [all]
      decide +kernel
  rcases shortened.fits with rfl | fits
  · exact many (by decide)
  · exact absurd fits (Nat.not_le_of_lt long)

/-- Of 250 new files fewer are listed, and a path that none of them has is listed as staged and as
modified. -/
theorem cut_listed_as_path :
    ∃ s : RepositoryStatus, Act.Trace ((gitStatus "/p").body (.obj []))
        [statusHeard "/p" (printed "main" (newFiles 250)).toUTF8 .empty] (.done (.of s.toJson)) ∧
      (∀ e ∈ newFiles 250, e.standing = .untracked ∧ e.path ≠ ". (output truncated)") ∧
      s.untracked.length < (newFiles 250).length ∧
      ". (output truncated)" ∈ s.staged ∧ ". (output truncated)" ∈ s.modified := by
  obtain ⟨s, read, -, beyond⟩ := ofText_kept (by decide : Text.Unbroken "main".toList) (newFiles 250)
  have long : maxOutput < (printed "main" (newFiles 250)).utf8ByteSize := by
    rw [utf8ByteSize_newFiles]
    decide +kernel
  obtain ⟨kept, lost, part, shortened, lists⟩ := beyond long
  refine ⟨s, trace_gitStatus "/p" (.obj []) .empty read, ?_, ?_, ?_, ?_⟩
  · intro e member
    obtain ⟨k, -, rfl⟩ := List.mem_map.mp member
    refine ⟨rfl, ?_⟩
    intro same
    have first := congrArg (fun path : String => path.toList.head?) same
    revert first
    simp [List.replicate_succ]
  · have few := length_of_shortened shortened
    have listed := length_pathsOf_le Standing.isUntracked (kept.map Entry.shown ++ part)
    rw [List.length_append, List.length_map] at listed
    have single := shortened.single
    rw [lists.untracked, length_newFiles]
    omega
  · rw [lists.staged]
    exact List.mem_append_right _ List.mem_cons_self
  · rw [lists.modified]
    exact List.mem_append_right _ List.mem_cons_self

end Tool

end CodeAgent
