import CodeAgent.Chat.Message
import Mathlib.Data.List.Basic

/-! Conversations in which every tool use has its result.
A model accepts a conversation only if the results of a message's tool uses follow it before anything
else does. Whether they do is decided by keeping the ids that are still owed a result. -/
namespace CodeAgent

namespace Message

/-- The ids of the tool uses in a message. -/
def asked (m : Message) : List String :=
  m.content.filterMap fun
    | .toolUse call => some call.id
    | _ => none

def carriesResult (m : Message) : Bool :=
  m.content.any fun
    | .toolResult .. => true
    | _ => false

/-- The tool use that a message answers, if it does nothing else. -/
def answered? : Message → Option String
  | ⟨.user, [.toolResult id _ _]⟩ => some id
  | _ => none

/-- The ids that are owed after a message, unless it may not stand where these are. -/
def settle : List String → Message → Option (List String)
  | [], m =>
    if !m.carriesResult && (m.role = .assistant || m.asked.isEmpty) then some m.asked else none
  | id :: later, m => if m.answered? = some id then some later else none

end Message

/-- A message with tool uses is the assistant's and is followed by one result for each, in their order;
no other message carries a result. -/
inductive Paired : List Message → Prop where
  | nil : Paired []
  | spoken {m : Message} {ms : List Message} (plain : m.asked = []) (fresh : m.carriesResult = false)
      (rest : Paired ms) : Paired (m :: ms)
  | called {m : Message} {results ms : List Message} (assistant : m.role = .assistant)
      (fresh : m.carriesResult = false)
      (matched : results.map Message.answered? = m.asked.map some) (rest : Paired ms) :
      Paired (m :: (results ++ ms))

/-- The ids that are owed a result at the end, unless a message stood where it may not. -/
def owed (ms : List Message) : Option (List String) := ms.foldlM Message.settle []

namespace Message

variable {m : Message} {ids later : List String} {id content : String}

theorem settle_nil_eq : settle [] m = some ids ↔
    m.carriesResult = false ∧ (m.role = .assistant ∨ m.asked = []) ∧ m.asked = ids := by
  simp only [settle]
  split
  · rename_i may
    simp_all
  · rename_i mayNot
    constructor
    · rintro ⟨⟩
    · rintro ⟨fresh, speaker, -⟩
      simp_all

theorem settle_cons_eq : settle (id :: later) m = some ids ↔ m.answered? = some id ∧ ids = later := by
  simp only [settle]
  split
  · rename_i answers
    simp [answers, eq_comm]
  · rename_i other
    simp [other]

@[simp] theorem settle_user (ids : List String) (text : String) :
    settle ids (user text) = if ids = [] then some [] else none := by
  cases ids with
  | nil => rfl
  | cons id later => simp [settle, user, ofText, answered?]

@[simp] theorem settle_assistant (text : String) : settle [] (assistant text) = some [] := rfl

theorem asked_calling (text : String) (calls : List ToolCall) :
    (calling text calls).asked = calls.map (·.id) := by
  have uses : (calls.map Block.toolUse).filterMap (fun
      | .toolUse call => some call.id
      | _ => none) = calls.map (·.id) := by
    rw [List.filterMap_map]
    exact congrFun List.filterMap_eq_map calls
  unfold asked calling
  rw [List.filterMap_append, uses]
  split <;> rfl

theorem settle_calling (text : String) (calls : List ToolCall) :
    settle [] (calling text calls) = some (calls.map (·.id)) := by
  refine settle_nil_eq.mpr ⟨?_, Or.inl rfl, asked_calling text calls⟩
  unfold carriesResult calling
  rw [List.any_append, List.any_map]
  split <;> simp [Function.comp_def]

@[simp] theorem settle_result (failed : Bool) :
    settle (id :: later) (result id content failed) = some later :=
  settle_cons_eq.mpr ⟨rfl, rfl⟩

theorem foldlM_settle_cons {ms : List Message} {left : List String} :
    (m :: ms).foldlM settle ids = some left ↔
      ∃ next, settle ids m = some next ∧ ms.foldlM settle next = some left := by
  rw [List.foldlM_cons]
  exact Option.bind_eq_some_iff

theorem foldlM_settle_results {results : List Message}
    (matched : results.map answered? = ids.map some) :
    results.foldlM settle (ids ++ later) = some later := by
  induction ids generalizing results with
  | nil =>
    obtain rfl := List.map_eq_nil_iff.mp matched
    rfl
  | cons id ids ih =>
    obtain ⟨m, results, rfl, answers, rest⟩ := List.map_eq_cons_iff.mp matched
    exact foldlM_settle_cons.mpr ⟨ids ++ later, settle_cons_eq.mpr ⟨answers, rfl⟩, ih rest⟩

/-- What is owed is answered first, and the rest is paired. -/
theorem split_of_settled {ms : List Message} (settled : ms.foldlM settle ids = some []) :
    ∃ results rest, ms = results ++ rest ∧ results.map answered? = ids.map some ∧ Paired rest := by
  induction ms generalizing ids with
  | nil =>
    obtain rfl := Option.some.inj settled
    exact ⟨[], [], rfl, rfl, .nil⟩
  | cons m ms ih =>
    obtain ⟨next, step, onward⟩ := foldlM_settle_cons.mp settled
    obtain ⟨results, rest, rfl, matched, paired⟩ := ih onward
    cases ids with
    | nil =>
      obtain ⟨fresh, speaker, rfl⟩ := settle_nil_eq.mp step
      refine ⟨[], m :: (results ++ rest), rfl, rfl, ?_⟩
      rcases speaker with assistant | plain
      · exact .called assistant fresh matched paired
      · rw [plain] at matched
        obtain rfl := List.map_eq_nil_iff.mp matched
        exact .spoken plain fresh paired
    | cons id later =>
      obtain ⟨answers, rfl⟩ := settle_cons_eq.mp step
      exact ⟨m :: results, rest, rfl, by simp [answers, matched], paired⟩

end Message

section

variable {ms : List Message}

theorem paired_iff : Paired ms ↔ owed ms = some [] := by
  constructor
  · intro paired
    induction paired with
    | nil => rfl
    | spoken plain fresh _ ih =>
      exact Message.foldlM_settle_cons.mpr
        ⟨[], Message.settle_nil_eq.mpr ⟨fresh, Or.inr plain, plain⟩, ih⟩
    | called assistant fresh matched _ ih =>
      refine Message.foldlM_settle_cons.mpr
        ⟨_, Message.settle_nil_eq.mpr ⟨fresh, Or.inl assistant, rfl⟩, ?_⟩
      have settled := @Message.foldlM_settle_results _ [] _ matched
      rw [List.append_nil] at settled
      rw [List.foldlM_append, settled]
      exact ih
  · intro settled
    obtain ⟨results, rest, rfl, matched, paired⟩ := Message.split_of_settled settled
    obtain rfl := List.map_eq_nil_iff.mp matched
    exact paired

instance (ms : List Message) : Decidable (Paired ms) := decidable_of_iff _ paired_iff.symm

theorem owed_append (ms ms' : List Message) :
    owed (ms ++ ms') = (owed ms).bind fun ids => ms'.foldlM Message.settle ids :=
  List.foldlM_append

theorem owed_concat (ms : List Message) (m : Message) :
    owed (ms ++ [m]) = (owed ms).bind fun ids => Message.settle ids m := by
  rw [owed_append]
  congr
  funext ids
  rw [List.foldlM_cons]
  exact Option.bind_fun_some _

/-- After a message that stood where it may not, nothing mends a conversation. -/
theorem owed_none_of_prefix {ms ms' : List Message} (before : ms <+: ms') (broken : owed ms = none) :
    owed ms' = none := by
  obtain ⟨rest, rfl⟩ := before
  rw [owed_append, broken]
  rfl

theorem owed_user (ms : List Message) (text : String) :
    owed (ms ++ [.user text]) = if Paired ms then some [] else none := by
  rw [owed_concat]
  split
  · rename_i paired
    rw [paired_iff.mp paired]
    rfl
  · rename_i open'
    rw [paired_iff] at open'
    cases left : owed ms with
    | none => rfl
    | some ids =>
      have more : ids ≠ [] := fun none => open' (by rw [left, none])
      simp [more]

end

end CodeAgent
