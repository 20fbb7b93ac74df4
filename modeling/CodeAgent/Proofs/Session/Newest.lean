import CodeAgent.Proofs.Session.Document
import CodeAgent.Proofs.Session.Reachable

/-! The bounded parts of a session as the newest part of what was.
Beside a session runs what it would hold without bounds: the changes that were pushed and that no pop
gave back, and the inputs that were noted. Whatever is done in whatever order, the session holds the
newest of both. -/
namespace CodeAgent

open Json

namespace Text

theorem dropEndWhile_eq (p : Char → Bool) (cs : List Char) :
    dropEndWhile p cs = cs.rdropWhile p := rfl

theorem trimChars_trimChars (cs : List Char) : trimChars (trimChars cs) = trimChars cs := by
  simp only [trimChars, trimStartChars, trimEndChars, dropEndWhile_eq]
  generalize front : cs.dropWhile isBlank = body
  have kept : body.rdropWhile isBlank <+: body := body.rdropWhile_prefix isBlank
  have opened : (body.rdropWhile isBlank).dropWhile isBlank = body.rdropWhile isBlank := by
    rw [List.dropWhile_eq_self_iff]
    intro some
    -- what the end loses leaves the first character where it was
    have first : (body.rdropWhile isBlank)[0] =
        body.get ⟨0, Nat.lt_of_lt_of_le some kept.length_le⟩ := kept.getElem some
    rw [first]
    subst front
    exact List.dropWhile_get_zero_not isBlank cs _
  rw [opened, List.rdropWhile_idempotent]

theorem trim_trim (s : String) : trim (trim s) = trim s := by
  simp only [trim, String.toList_ofList, trimChars_trimChars]

end Text

namespace Session

/-- What is done with the bounded parts of a session, and reading it back from its own document. -/
inductive Handling where
  | pushUndo (c : Change)
  | popUndo
  | withLimits (maxUndo maxInputs : Nat)
  | addInput (input : String)
  | referenceFile (path : String)
  | clearHistory (now : Int)
  /-- With the reader of the document alone. -/
  | reread
  /-- As the store reads it. -/
  | restore

/-- What there is without bounds. -/
structure Unbounded where
  /-- The changes that were pushed and that no pop gave back, newest first. -/
  undo : List Change
  /-- The inputs that were noted, oldest first. -/
  inputs : List String

namespace Unbounded

def none : Unbounded := ⟨[], []⟩

def note (g : Unbounded) (input : String) : Unbounded :=
  if input.isEmpty || g.inputs.getLast? = some input then g
  else { g with inputs := g.inputs ++ [input] }

end Unbounded

namespace Handling

/-- The numbers that are handed over are held in sixty-four bits. -/
def Fits : Handling → Prop
  | pushUndo c => c.Fits
  | withLimits maxUndo maxInputs => maxUndo ≤ maxWord ∧ maxInputs ≤ maxWord
  | clearHistory now => -Nat.pow 2 63 ≤ now ∧ now ≤ Nat.pow 2 63 - 1
  | _ => True

def apply : Handling → Session → Option Session
  | pushUndo c, s => some (s.pushUndo c)
  | popUndo, s => some s.popUndo.2
  | withLimits maxUndo maxInputs, s => some (s.withLimits maxUndo maxInputs)
  | addInput input, s => some (s.addInput input)
  | referenceFile path, s => some (s.referenceFile path)
  | clearHistory now, s => some (s.clearHistory now)
  | reread, s => (parse? s.toJson.compact).bind ofJson?
  | restore, s => (Database.decodeSession s.toJson.compact).toOption

/-- The stack as it would be if this once nothing were pushed out. -/
def due : Handling → List Change → List Change
  | pushUndo c, cs => c :: cs
  | popUndo, cs => cs.tail
  | _, cs => cs

/-- How the unbounded parts go on beside a session. -/
def mirror (h : Handling) (s : Session) (g : Unbounded) : Unbounded :=
  match h with
  | pushUndo c => { g with undo := c :: g.undo }
  | popUndo => if s.undoStack = [] then g else { g with undo := g.undo.tail }
  | addInput input => g.note (Text.trim input)
  | _ => g

def run : List Handling → Session → Unbounded → Option (Session × Unbounded)
  | [], s, g => some (s, g)
  | h :: hs, s, g => (h.apply s).bind fun s' => run hs s' (h.mirror s g)

end Handling

/-- The session holds the newest of what there is without bounds, as much as its bounds allow. -/
structure Newest (s : Session) (g : Unbounded) : Prop where
  bounded : s.Bounded
  room : 1 ≤ s.maxInputs
  fits : s.inputs.length ≤ s.maxInputs
  undo : s.undoStack <+: g.undo
  inputs : s.inputs <:+ g.inputs
  last : s.inputs.getLast? = g.inputs.getLast?
  plain : ∀ input ∈ s.inputs, Text.trim input = input ∧ input ≠ ""
  apart : s.inputs.IsChain (· ≠ ·)
  files : s.context.filesInContext.Nodup

/-- What a session is that was never in a conversation: it can be saved and read back. -/
structure Untold (s : Session) : Prop where
  version : s.schemaVersion = currentVersion
  createdAt : -Nat.pow 2 63 ≤ s.createdAt ∧ s.createdAt ≤ Nat.pow 2 63 - 1
  lastActivityAt : -Nat.pow 2 63 ≤ s.lastActivityAt ∧ s.lastActivityAt ≤ Nat.pow 2 63 - 1
  history : s.history = []
  usage : s.context.tokenUsage = .zero
  stats : s.stats = .zero
  undoStack : ∀ c ∈ s.undoStack, c.Fits
  maxUndo : s.maxUndo ≤ maxWord
  maxInputs : s.maxInputs ≤ maxWord

section

variable {s s' : Session} {g : Unbounded}

/- Saving -/

theorem Untold.carried (untold : s.Untold) : s.Fits ∧ Nests maxDepth s.toJson := by
  constructor
  · constructor
    · rw [untold.version]
      decide
    · exact untold.createdAt
    · exact untold.lastActivityAt
    · simp [untold.history]
    · rw [untold.usage]
      exact ContextState.reads_zero
    · rw [untold.stats]
      constructor <;> exact Nat.zero_le _
    · exact untold.undoStack
    · exact untold.maxUndo
    · exact untold.maxInputs
  · have shallow : ∀ e ∈ s.history, ∀ b ∈ e.message.content, b.Shallow (121 + 1) := by
      simp [untold.history]
    exact nests_iff.mpr shallow

theorem Untold.reread (untold : s.Untold) : Handling.reread.apply s = some s := by
  obtain ⟨fits, nests⟩ := untold.carried
  rw [Handling.apply, ofJson?_compact fits nests]

theorem Untold.restore (untold : s.Untold) : Handling.restore.apply s = some s := by
  obtain ⟨fits, nests⟩ := untold.carried
  have known : ¬ s.schemaVersion > currentVersion := by
    rw [untold.version]
    exact Nat.lt_irrefl _
  rw [Handling.apply, decodeSession_compact fits nests, if_neg known, Except.toOption]

/- One step -/

theorem pushUndo_eq_take (bounded : s.Bounded) (c : Change) :
    (s.pushUndo c).undoStack = (c :: s.undoStack).take s.maxUndo := by
  obtain ⟨room, fits⟩ := bounded
  obtain ⟨below, size⟩ := Nat.exists_eq_add_of_le' room
  simp only [pushUndo, size, List.take_succ_cons]
  split
  · rename_i full
    rw [List.dropLast_eq_take]
    congr 2
    omega
  · rename_i free
    rw [List.take_of_length_le (by omega)]

/-- What a step leaves on the stack are the newest that are due, as many as the bound allows. -/
theorem Newest.kept {h : Handling} (newest : s.Newest g) (untold : s.Untold)
    (applied : h.apply s = some s') : s'.undoStack = (h.due s.undoStack).take s'.maxUndo := by
  have whole : s.undoStack = s.undoStack.take s.maxUndo :=
    (List.take_of_length_le newest.bounded.fits).symm
  cases h with
  | pushUndo c =>
    obtain rfl := Option.some.inj applied
    exact pushUndo_eq_take newest.bounded c
  | popUndo =>
    obtain rfl := Option.some.inj applied
    have fits := newest.bounded.fits
    simp only [Handling.due, popUndo]
    split
    · rename_i empty
      simp [empty]
    · rename_i c rest stack
      rw [stack, List.length_cons] at fits
      simp only [stack, List.tail_cons]
      exact (List.take_of_length_le (by omega)).symm
  | withLimits maxUndo maxInputs =>
    obtain rfl := Option.some.inj applied
    rfl
  | addInput input =>
    obtain rfl := Option.some.inj applied
    simpa [Handling.due] using whole
  | referenceFile path =>
    obtain rfl := Option.some.inj applied
    obtain ⟨context, same⟩ := s.referenceFile_eq path
    rw [same]
    exact whole
  | clearHistory now =>
    obtain rfl := Option.some.inj applied
    exact whole
  | reread =>
    obtain rfl := Option.some.inj (untold.reread.symm.trans applied)
    exact whole
  | restore =>
    obtain rfl := Option.some.inj (untold.restore.symm.trans applied)
    exact whole

theorem Untold.apply {h : Handling} (untold : s.Untold) (fits : h.Fits) :
    ∃ s', h.apply s = some s' ∧ s'.Untold := by
  cases h with
  | pushUndo c =>
    refine ⟨_, rfl, { untold with undoStack := ?_ }⟩
    intro c' member
    simp only [Session.pushUndo, List.mem_cons] at member
    rcases member with rfl | older
    · exact fits
    · split at older
      · exact untold.undoStack c' (List.mem_of_mem_dropLast older)
      · exact untold.undoStack c' older
  | popUndo =>
    refine ⟨_, rfl, ?_⟩
    unfold Session.popUndo
    split
    · exact untold
    · rename_i c rest stack
      refine { untold with undoStack := ?_ }
      intro c' member
      exact untold.undoStack c' (by rw [stack]; exact List.mem_cons_of_mem _ member)
  | withLimits maxUndo maxInputs =>
    obtain ⟨undo, inputs⟩ := fits
    have one : 1 ≤ maxWord := by decide
    refine ⟨_, rfl, { untold with undoStack := ?_, maxUndo := ?_, maxInputs := ?_ }⟩
    · exact fun c member => untold.undoStack c (List.mem_of_mem_take member)
    · exact Nat.max_le.mpr ⟨undo, one⟩
    · exact Nat.max_le.mpr ⟨inputs, one⟩
  | addInput input =>
    obtain ⟨inputs, same⟩ := s.addInput_eq input
    refine ⟨_, rfl, ?_⟩
    rw [same]
    exact { untold with }
  | referenceFile path =>
    refine ⟨_, rfl, ?_⟩
    unfold Session.referenceFile
    split
    · exact untold
    · exact { untold with }
  | clearHistory now => exact ⟨_, rfl, { untold with lastActivityAt := fits, history := rfl, usage := rfl }⟩
  | reread => exact ⟨s, untold.reread, untold⟩
  | restore => exact ⟨s, untold.restore, untold⟩

theorem Newest.pushUndo (newest : s.Newest g) (c : Change) :
    (s.pushUndo c).Newest { g with undo := c :: g.undo } where
  bounded := newest.bounded.pushUndo c
  room := newest.room
  fits := newest.fits
  undo := by
    rw [pushUndo_eq_take newest.bounded]
    exact (List.take_prefix _ _).trans ((List.prefix_cons_inj c).mpr newest.undo)
  inputs := newest.inputs
  last := newest.last
  plain := newest.plain
  apart := newest.apart
  files := newest.files

theorem Newest.popUndo (newest : s.Newest g) :
    s.popUndo.2.Newest (Handling.popUndo.mirror s g) := by
  unfold Session.popUndo
  split
  · rename_i empty
    simp only [Handling.mirror, empty, if_true]
    exact newest
  · rename_i c rest stack
    have older := newest.undo
    have fits := newest.bounded.fits
    rw [stack] at older fits
    obtain ⟨before, whole⟩ := older
    simp only [Handling.mirror, stack, reduceCtorEq, if_false]
    refine { newest with bounded := ⟨newest.bounded.room, Nat.le_of_succ_le fits⟩, undo := ?_ }
    rw [← whole]
    exact ⟨before, rfl⟩

theorem Newest.withLimits (newest : s.Newest g) (maxUndo maxInputs : Nat) :
    (s.withLimits maxUndo maxInputs).Newest g where
  bounded := bounded_withLimits ..
  room := Nat.le_max_right ..
  fits := by
    simp only [Session.withLimits, List.length_drop]
    omega
  undo := (List.take_prefix _ _).trans newest.undo
  inputs := (List.drop_suffix _ _).trans newest.inputs
  last := by
    have some : 1 ≤ max maxInputs 1 := Nat.le_max_right ..
    simp only [Session.withLimits, List.getLast?_drop]
    split
    · rename_i all
      have empty : s.inputs = [] := List.length_eq_zero_iff.mp (by omega)
      rw [← newest.last, empty, List.getLast?_nil]
    · exact newest.last
  plain := fun input member => newest.plain input (List.mem_of_mem_drop member)
  apart := newest.apart.drop _
  files := newest.files

theorem Newest.addInput (newest : s.Newest g) (input : String) :
    (s.addInput input).Newest (g.note (Text.trim input)) := by
  unfold Session.addInput Unbounded.note
  rw [← newest.last]
  extract_lets text
  split
  · exact newest
  · rename_i fresh
    simp only [Bool.or_eq_true, String.isEmpty_iff, decide_eq_true_eq, not_or] at fresh
    obtain ⟨nonempty, other⟩ := fresh
    have room := newest.room
    have fits := newest.fits
    generalize kept : (if s.maxInputs ≤ s.inputs.length then s.inputs.drop 1 else s.inputs) = front
    have part : front <:+ s.inputs := by
      rw [← kept]
      split
      · exact List.drop_suffix 1 _
      · exact List.suffix_refl _
    have length : front.length < s.maxInputs := by
      rw [← kept]
      split
      · rw [List.length_drop]
        omega
      · omega
    constructor
    · exact newest.bounded.congr rfl rfl
    · exact room
    · simp only [List.length_append, List.length_singleton]
      omega
    · exact newest.undo
    · obtain ⟨older, whole⟩ := part.trans newest.inputs
      refine ⟨older, ?_⟩
      simp only [← whole, List.append_assoc]
      rfl
    · simp only [List.getLast?_append_of_ne_nil _ (List.cons_ne_nil _ _)]
      rfl
    · intro kept' member
      rcases List.mem_append.mp member with before | here
      · exact newest.plain kept' (part.subset before)
      · rw [List.mem_singleton.mp here]
        exact ⟨Text.trim_trim input, nonempty⟩
    · refine (newest.apart.suffix part).append (List.isChain_singleton _) ?_
      intro last atEnd first atFront same
      have front' : s.inputs.getLast? = some last := by
        obtain ⟨older, whole⟩ := part
        rw [← whole, List.getLast?_append, Option.mem_def.mp atEnd, Option.some_or]
      simp only [List.head?_cons, Option.mem_some_iff] at atFront
      exact other (by rw [front', same, atFront])
    · exact newest.files

theorem Newest.referenceFile (newest : s.Newest g) (path : String) :
    (s.referenceFile path).Newest g := by
  unfold Session.referenceFile
  split
  · exact newest
  · rename_i absent
    exact { newest with
      bounded := newest.bounded.congr rfl rfl
      files := by simpa using newest.files.concat absent }

theorem Newest.apply {h : Handling} (newest : s.Newest g) (untold : s.Untold)
    (applied : h.apply s = some s') : s'.Newest (h.mirror s g) := by
  cases h with
  | pushUndo c =>
    obtain rfl := Option.some.inj applied
    exact newest.pushUndo c
  | popUndo =>
    obtain rfl := Option.some.inj applied
    exact newest.popUndo
  | withLimits maxUndo maxInputs =>
    obtain rfl := Option.some.inj applied
    exact newest.withLimits maxUndo maxInputs
  | addInput input =>
    obtain rfl := Option.some.inj applied
    exact newest.addInput input
  | referenceFile path =>
    obtain rfl := Option.some.inj applied
    exact newest.referenceFile path
  | clearHistory now =>
    obtain rfl := Option.some.inj applied
    exact { newest with bounded := newest.bounded.congr rfl rfl, files := List.nodup_nil }
  | reread =>
    obtain rfl := Option.some.inj (untold.reread.symm.trans applied)
    exact newest
  | restore =>
    obtain rfl := Option.some.inj (untold.restore.symm.trans applied)
    exact newest

/-- A change that was due and is lost had as many newer ones before it as the bound allows, and it was
lost to a push or to a smaller bound. -/
theorem Newest.lost {h : Handling} {i : Nat} {c : Change} (newest : s.Newest g) (untold : s.Untold)
    (applied : h.apply s = some s') (due : (h.due s.undoStack)[i]? = some c)
    (lost : s'.undoStack.length ≤ i) :
    s'.maxUndo ≤ i ∧ ((∃ pushed, h = .pushUndo pushed) ∨ s'.maxUndo < s.maxUndo) := by
  have kept := newest.kept untold applied
  have inside : i < (h.due s.undoStack).length := (List.getElem?_eq_some_iff.mp due).1
  have beyond : s'.maxUndo ≤ i := by
    rw [kept, List.length_take] at lost
    omega
  refine ⟨beyond, ?_⟩
  have fits := newest.bounded.fits
  cases h with
  | pushUndo pushed => exact Or.inl ⟨pushed, rfl⟩
  | popUndo =>
    obtain rfl := Option.some.inj applied
    have same : s.popUndo.2.maxUndo = s.maxUndo := by
      unfold Session.popUndo
      split <;> rfl
    rw [same] at beyond
    simp only [Handling.due, List.length_tail] at inside
    omega
  | withLimits maxUndo maxInputs =>
    simp only [Handling.due] at inside
    exact Or.inr (by omega)
  | addInput input =>
    obtain rfl := Option.some.inj applied
    simp only [Handling.due, Session.addInput_maxUndo] at inside beyond
    omega
  | referenceFile path =>
    obtain rfl := Option.some.inj applied
    obtain ⟨context, same⟩ := s.referenceFile_eq path
    simp only [Handling.due, same] at inside beyond
    omega
  | clearHistory now =>
    obtain rfl := Option.some.inj applied
    simp only [Handling.due, Session.clearHistory] at inside beyond
    omega
  | reread =>
    obtain rfl := Option.some.inj (untold.reread.symm.trans applied)
    simp only [Handling.due] at inside
    omega
  | restore =>
    obtain rfl := Option.some.inj (untold.restore.symm.trans applied)
    simp only [Handling.due] at inside
    omega

end

theorem newest_new (project id : String) (now : Int) : (new project id now).Newest .none where
  bounded := bounded_new project id now
  room := by simp [new, presetMaxInputs]
  fits := Nat.zero_le _
  undo := List.prefix_refl _
  inputs := List.suffix_refl _
  last := rfl
  plain := List.forall_mem_nil _
  apart := List.isChain_nil
  files := List.nodup_nil

theorem untold_new (project id : String) {now : Int}
    (time : -Nat.pow 2 63 ≤ now ∧ now ≤ Nat.pow 2 63 - 1) : (new project id now).Untold where
  version := rfl
  createdAt := time
  lastActivityAt := time
  history := rfl
  usage := rfl
  stats := rfl
  undoStack := List.forall_mem_nil _
  maxUndo := by simp [new, presetMaxUndo, maxWord]
  maxInputs := by simp [new, presetMaxInputs, maxWord]

theorem Newest.run {hs : List Handling} {s : Session} {g : Unbounded} (newest : s.Newest g)
    (untold : s.Untold) (fits : ∀ h ∈ hs, h.Fits) :
    ∃ s' g', Handling.run hs s g = some (s', g') ∧ s'.Newest g' ∧ s'.Untold := by
  induction hs generalizing s g with
  | nil => exact ⟨s, g, rfl, newest, untold⟩
  | cons h hs ih =>
    obtain ⟨here, later⟩ := List.forall_mem_cons.mp fits
    obtain ⟨m, applied, untold'⟩ := untold.apply here
    obtain ⟨s', g', ran, ends⟩ := ih (newest.apply untold applied) untold' later
    refine ⟨s', g', ?_, ends⟩
    rw [Handling.run, applied, Option.bind_some, ran]

/-- Whatever is done with a new session, it holds the newest of what there is without bounds. What a pop
gives is the newest change that none gave before; a change is lost only behind as many newer ones as the
bound allows. And bounds that are set on any session whatever keep exactly the newest. -/
theorem handled_keeps_newest (hs : List Handling) (project id : String) (now : Int)
    (time : -Nat.pow 2 63 ≤ now ∧ now ≤ Nat.pow 2 63 - 1) (fits : ∀ h ∈ hs, h.Fits) :
    (∃ s g, Handling.run hs (new project id now) .none = some (s, g) ∧ s.Newest g ∧
      (∀ c rest, s.popUndo = (some c, rest) → g.undo.head? = some c) ∧
      (∀ (h : Handling) (s' : Session), h.apply s = some s' → s'.undoStack = (h.due s.undoStack).take s'.maxUndo ∧
        ∀ i c, (h.due s.undoStack)[i]? = some c → s'.undoStack.length ≤ i →
          s'.maxUndo ≤ i ∧ ((∃ pushed, h = .pushUndo pushed) ∨ s'.maxUndo < s.maxUndo))) ∧
    ∀ (s : Session) (maxUndo maxInputs : Nat), ∃ s', s.withLimits maxUndo maxInputs = s' ∧
      1 ≤ s'.maxUndo ∧ 1 ≤ s'.maxInputs ∧
      s'.undoStack <+: s.undoStack ∧ s'.undoStack.length = min s.undoStack.length s'.maxUndo ∧
      s'.inputs <:+ s.inputs ∧ s'.inputs.length = min s.inputs.length s'.maxInputs := by
  constructor
  · obtain ⟨s, g, ran, newest, untold⟩ := (newest_new project id now).run (untold_new project id time) fits
    refine ⟨s, g, ran, newest, ?_, ?_⟩
    · intro c rest popped
      obtain ⟨older, stack, -⟩ := popUndo_eq.mp popped
      obtain ⟨before, whole⟩ := newest.undo
      rw [← whole, stack]
      rfl
    · intro h s' applied
      exact ⟨newest.kept untold applied, fun i c due lost => newest.lost untold applied due lost⟩
  · intro s maxUndo maxInputs
    refine ⟨_, rfl, Nat.le_max_right .., Nat.le_max_right .., List.take_prefix _ _, ?_,
      List.drop_suffix _ _, ?_⟩
    · simp only [withLimits, List.length_take]
      omega
    · simp only [withLimits, List.length_drop]
      omega

def small (id : String) : Change := ⟨id, "a.txt", [], "", 0, "create", true⟩

/-- Three changes under a bound of two, and an input that is repeated. -/
def crowding : List Handling :=
  [.withLimits 2 1, .pushUndo (small "1"), .pushUndo (small "2"), .pushUndo (small "3"),
    .addInput " a ", .addInput "a", .addInput " "]

theorem handled_keeps_newest_crowding :
    ∃ s g, Handling.run crowding (new "demo" "s-1" 0) .none = some (s, g) ∧ s.Newest g ∧
      s.undoStack = [small "3", small "2"] ∧ g.undo = [small "3", small "2", small "1"] ∧
      s.inputs = ["a"] := by
  have change (id : String) : (small id).Fits := ⟨by simp [small], by simp [small]⟩
  have fits : ∀ h ∈ crowding, h.Fits := by
    simp [crowding, Handling.Fits, change, maxWord]
  obtain ⟨⟨s, g, ran, newest, -⟩, -⟩ :=
    handled_keeps_newest crowding "demo" "s-1" 0 (by decide) fits
  have ends : (Handling.run crowding (new "demo" "s-1" 0) .none).map
      (fun r => (r.1.undoStack, r.2.undo, r.1.inputs)) =
        some ([small "3", small "2"], [small "3", small "2", small "1"], ["a"]) := by
    decide +kernel
  rw [ran, Option.map_some] at ends
  simp only [Option.some.injEq, Prod.mk.injEq] at ends
  exact ⟨s, g, ran, newest, ends⟩

end Session

end CodeAgent
