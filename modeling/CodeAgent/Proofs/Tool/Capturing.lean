import CodeAgent.Proofs.Act.Trace
import CodeAgent.Proofs.Text.Decoding
import CodeAgent.Tool.Process

/-! What is reported of the output of a program.
An output has a limit in bytes where it is read and a lower one where it is shown. Bytes are never more
than the text that is read of them, so the first limit does not show, and a report that does not say that
something is missing is complete. -/
namespace CodeAgent

namespace ProcessReport

variable {exit : Option Int} {output errors : ByteArray}

/-- An output that is too long to be read whole is too long to be shown. -/
theorem keep_eq (bytes : ByteArray) : keep bytes = Text.capped maxOutput (Text.mend bytes) := by
  have limits : maxOutput + 4 ≤ maxPipe := by decide
  have marked (unread : maxPipe < bytes.size) : (Text.capped maxOutput (Text.mend bytes)).2 = true := by
    have long := Text.size_le_mend bytes
    rw [Text.capped, if_neg (by omega)]
  rw [keep, Text.capped_mend limits]
  refine Prod.ext rfl ?_
  change (_ || decide (maxPipe < bytes.size)) = _
  by_cases unread : maxPipe < bytes.size
  · rw [marked unread, Bool.true_or]
  · rw [decide_eq_false unread, Bool.or_false]

theorem ofEnd_eq (exit : Option Int) (output errors : ByteArray) :
    ofEnd exit output errors = ⟨exit, (keep output).1, (keep errors).1, (keep output).2 || (keep errors).2⟩ := by
  unfold ofEnd
  generalize keep output = kept
  generalize keep errors = others
  rfl

theorem output_ofEnd (exit : Option Int) (output errors : ByteArray) :
    (ofEnd exit output errors).output = (keep output).1 := by
  rw [ofEnd_eq]

theorem success_ofEnd (exit : Option Int) (output errors : ByteArray) :
    (ofEnd exit output errors).success = decide (exit = some 0) := by
  rw [ofEnd_eq, success]

/-- A report shows what fits of the texts of an output and of errors, and tells whether that is all. -/
structure Shows (r : ProcessReport) (exit : Option Int) (output errors : ByteArray) : Prop where
  ended : r.exit = exit
  outputShown : r.output = (Text.capped maxOutput (Text.mend output)).1
  errorsShown : r.errors = (Text.capped maxOutput (Text.mend errors)).1
  marked : r.truncated = true ↔
    maxOutput < (Text.mend output).utf8ByteSize ∨ maxOutput < (Text.mend errors).utf8ByteSize
  complete : r.truncated = false → r.output = Text.mend output ∧ r.errors = Text.mend errors

theorem shows_ofEnd (exit : Option Int) (output errors : ByteArray) :
    (ofEnd exit output errors).Shows exit output errors := by
  rw [ofEnd_eq, keep_eq, keep_eq]
  refine ⟨rfl, rfl, rfl, ?_, ?_⟩
  · rw [Bool.or_eq_true, Text.capped_marked, Text.capped_marked]
  · intro whole
    obtain ⟨first, second⟩ := Bool.or_eq_false_iff.mp whole
    exact ⟨Text.capped_unmarked first, Text.capped_unmarked second⟩

theorem Shows.unique {r r' : ProcessReport} (shows : r.Shows exit output errors)
    (shows' : r'.Shows exit output errors) : r = r' := by
  have flag : r.truncated = r'.truncated := Bool.eq_iff_iff.mpr (shows.marked.trans shows'.marked.symm)
  cases r
  cases r'
  simp only [mk.injEq]
  exact ⟨shows.ended.trans shows'.ended.symm, shows.outputShown.trans shows'.outputShown.symm,
    shows.errorsShown.trans shows'.errorsShown.symm, flag⟩

end ProcessReport

namespace Tool

open Attempt

variable {root program : String} {arguments : List String} {timeoutMs : Nat} {l : List Heard}

theorem trace_finished {exit : Option Int} {output errors : ByteArray} :
    Act.Trace (runProgram root program arguments timeoutMs).run
      [⟨.process ⟨program, arguments, root, timeoutMs⟩, .finished exit output errors⟩]
      (.ok (.ofEnd exit output errors)) :=
  trace_lift_bind.mpr ⟨_, _, [], rfl, Act.trace_process.mpr rfl, trace_pure.mpr ⟨rfl, rfl⟩⟩

theorem finished_of_trace {report : ProcessReport}
    (run : Act.Trace (runProgram root program arguments timeoutMs).run l (.ok report)) :
    ∃ exit output errors,
      l = [⟨.process ⟨program, arguments, root, timeoutMs⟩, .finished exit output errors⟩] ∧
      report = .ofEnd exit output errors := by
  obtain ⟨ended, _, l₂, rfl, started, rest⟩ := trace_lift_bind.mp run
  obtain rfl := Act.trace_process.mp started
  cases ended with
  | finished exit output errors =>
    obtain ⟨rfl, same⟩ := trace_pure.mp rest
    exact ⟨exit, output, errors, rfl, Except.ok.inj same⟩
  | _ => cases (trace_throw.mp rest).2

end Tool

end CodeAgent
