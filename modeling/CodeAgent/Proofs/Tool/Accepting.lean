import CodeAgent.Proofs.Json.Restoring
import CodeAgent.Tool.Standard

/-! Arguments that a schema accepts, and what a tool reads in them.
A required member is there, and a member has the type that is declared for it. A text is then read as it
is; a whole number is read if it is not negative, and a negative one reads like a member that is missing. -/
namespace CodeAgent

namespace Schema

variable {s p : Schema} {arguments v : Json} {name : String} {members : List (String × Json)}

theorem mem_of_member? (given : (Json.obj members).member? name = some v) : (name, v) ∈ members := by
  obtain ⟨m, found, rfl⟩ := Option.map_eq_some_iff.mp given
  have same : m.1 = name := by simpa using List.find?_some found
  rw [← same]
  exact List.mem_reverse.mp (List.mem_of_find?_eq_some found)

theorem required_given {required : List String} (passed : checkRequired members required = .ok ())
    (needed : name ∈ required) : ∃ v, (Json.obj members).member? name = some v ∧ v ≠ .null := by
  induction required with
  | nil => cases needed
  | cons first required ih =>
    rw [checkRequired] at passed
    split at passed
    · cases passed
    · cases passed
    · rename_i v filled given
      rcases List.mem_cons.mp needed with rfl | later
      · refine ⟨v, given, ?_⟩
        rintro rfl
        exact filled rfl
      · exact ih passed later

theorem checkMember_of_mem (passed : s.checkMembers members = .ok ()) (member : (name, v) ∈ members) :
    s.checkMember name v = .ok () := by
  induction members with
  | nil => cases member
  | cons m members ih =>
    rw [checkMembers] at passed
    split at passed
    · cases passed
    · rename_i first
      rcases List.mem_cons.mp member with rfl | later
      · exact first
      · exact ih passed later

theorem hasType_of_checkMember (passed : s.checkMember name v = .ok ()) (filled : v ≠ .null)
    (declared : s.property? name = some p) : v.hasType p.type = true := by
  have some : v.isNull = false := by cases v <;> simp_all [Json.isNull]
  rw [checkMember, some, declared] at passed
  by_contra other
  rw [Bool.not_eq_true] at other
  simp [other] at passed

/-- What it comes to that arguments are accepted. -/
structure Accepts (s : Schema) (arguments : Json) : Prop where
  given : ∀ name ∈ s.required.getD [], ∃ v, arguments.member? name = some v ∧ v ≠ .null
  typed : ∀ name v p, arguments.member? name = some v → v ≠ .null → s.property? name = some p →
    v.hasType p.type = true

theorem accepts_of_check (passed : s.check arguments = .ok ()) : s.Accepts arguments := by
  have run (members : List (String × Json)) (passed : check.run s members = .ok ()) :
      s.Accepts (.obj members) := by
    rw [check.run] at passed
    split at passed
    · cases passed
    · rename_i required
      refine ⟨fun name needed => required_given required needed, fun name v p given filled declared => ?_⟩
      split at passed
      · rename_i free
        simp [property?, Option.isNone_iff_eq_none.mp free] at declared
      · exact hasType_of_checkMember (checkMember_of_mem passed (mem_of_member? given)) filled declared
  rw [check.eq_def] at passed
  split at passed
  · exact run _ passed
  · -- Arguments that are missing altogether count as an object without members.
    obtain ⟨given, typed⟩ := run [] passed
    exact ⟨given, fun name v p given => by cases given⟩
  · cases passed

end Schema

namespace Json

variable {arguments : Json} {name key : String} {i : Int}

theorem hasType_string {v : Json} (typed : v.hasType "string" = true) : ∃ text, v = .str text := by
  cases v with
  | str text => exact ⟨text, rfl⟩
  | num n => cases n <;> simp [hasType, typeName] at typed
  | _ => simp [hasType, typeName] at typed

theorem hasType_integer {v : Json} (typed : v.hasType "integer" = true) : ∃ i, v = .int i := by
  cases v with
  | num n =>
    cases n with
    | int i => exact ⟨i, rfl⟩
    | float d => simp [hasType, typeName] at typed
  | _ => simp [hasType, typeName] at typed

theorem countArgument?_of_nonneg (given : arguments.member? name = some (.int i)) (natural : 0 ≤ i) :
    arguments.countArgument? name = some i.toNat := by
  simp [countArgument?, given, nat?, Json.int, natural]

theorem countArgument?_of_neg (given : arguments.member? name = some (.int i)) (negative : i < 0) :
    arguments.countArgument? name = none := by
  simp [countArgument?, given, nat?, Json.int, negative]

/-- The arguments without a member. -/
def without (name : String) : Json → Json
  | .obj members => .obj (members.filter (·.1 ≠ name))
  | arguments => arguments

theorem member?_without (name key : String) (arguments : Json) :
    (arguments.without name).member? key = if key = name then none else arguments.member? key := by
  cases arguments with
  | obj members =>
    rw [without, member?, member?, ← List.filter_reverse, List.find?_filter]
    split
    · rename_i same
      rw [same, List.find?_eq_none.mpr (by simp)]
      rfl
    · rename_i other
      congr 2
      funext m
      by_cases wanted : m.1 = key <;> simp [wanted, other]
  | _ => simp [without, member?]

/-- Two arguments that no tool can tell apart. -/
structure Indistinct (a b : Json) : Prop where
  text : a.textArgument = b.textArgument
  text? : a.textArgument? = b.textArgument?
  count? : a.countArgument? = b.countArgument?
  flag? : a.flagArgument? = b.flagArgument?

/-- A member that is a negative number is no text, no count and no flag. -/
theorem indistinct_without (given : arguments.member? name = some (.int i)) (negative : i < 0) :
    Indistinct arguments (arguments.without name) := by
  have blind {α : Type} (read : Json → Option α) (none : read (.int i) = none) (key : String) :
      (arguments.member? key).bind read = ((arguments.without name).member? key).bind read := by
    rw [member?_without]
    split
    · rename_i same
      rw [same, given]
      exact none
    · rfl
  have uncounted : nat? (.int i) = none := by simp [nat?, Json.int, negative]
  constructor
  · funext key
    rw [textArgument, textArgument, blind str? rfl]
  · funext key
    rw [textArgument?, textArgument?, blind str? rfl]
  · funext key
    exact blind nat? uncounted key
  · funext key
    exact blind bool? rfl key

end Json

namespace Schema

variable {s : Schema} {arguments : Json} {name : String}

/-- A required text is read. -/
theorem Accepts.text (accepts : s.Accepts arguments) (needed : (s.required.getD []).contains name = true)
    (declared : (s.property? name).map (·.type) = some "string") :
    ∃ given, arguments.textArgument name = .ok given := by
  obtain ⟨v, given, filled⟩ := accepts.given name (List.contains_iff_mem.mp needed)
  obtain ⟨p, property, type⟩ := Option.map_eq_some_iff.mp declared
  have typed := accepts.typed name v p given filled property
  rw [type] at typed
  obtain ⟨text, rfl⟩ := Json.hasType_string typed
  exact ⟨text, by rw [Json.textArgument, given]; rfl⟩

theorem Accepts.integer {v : Json} (accepts : s.Accepts arguments)
    (declared : (s.property? name).map (·.type) = some "integer")
    (given : arguments.member? name = some v) (filled : v ≠ .null) : ∃ i, v = .int i := by
  obtain ⟨p, property, type⟩ := Option.map_eq_some_iff.mp declared
  have typed := accepts.typed name v p given filled property
  rw [type] at typed
  exact Json.hasType_integer typed

/-- A required whole number is read, or it is negative and reads like one that is missing. -/
theorem Accepts.count (accepts : s.Accepts arguments) (needed : (s.required.getD []).contains name = true)
    (declared : (s.property? name).map (·.type) = some "integer") :
    (∃ n, arguments.countArgument name = .ok n) ∨ ∃ i < 0, arguments.member? name = some (.int i) ∧
      arguments.countArgument name = .error (.validation (ArgumentError.missing name).message) := by
  obtain ⟨v, given, filled⟩ := accepts.given name (List.contains_iff_mem.mp needed)
  obtain ⟨i, rfl⟩ := accepts.integer declared given filled
  rcases lt_or_ge i 0 with negative | natural
  · refine Or.inr ⟨i, negative, given, ?_⟩
    rw [Json.countArgument, Json.countArgument?_of_neg given negative]
  · refine Or.inl ⟨i.toNat, ?_⟩
    rw [Json.countArgument, Json.countArgument?_of_nonneg given natural]

end Schema

end CodeAgent
