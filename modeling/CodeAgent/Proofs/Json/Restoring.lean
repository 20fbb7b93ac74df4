import CodeAgent.Json.Decode
import CodeAgent.Proofs.Json.RoundTrip
import CodeAgent.Proofs.Store.Tables

/-! Values that are read back from the documents that they are written as.
A record is the table of its members, whatever their order in the source; so its reader finds each of
them by name. -/
namespace CodeAgent.Json

/- The members of a record -/

theorem put_eq_insert (key : String) (value : Json) (members : List (String × Json)) :
    put key value members = Entries.insert key value members := by
  induction members with
  | nil => rfl
  | cons m rest ih => rw [put, Entries.insert, ih]

theorem object_eq (members : List (String × Json)) :
    object members = .obj (Table.ofList members).entries := by
  have inserts (t : Table Json) (ms : List (String × Json)) :
      ms.foldl (fun done m => put m.1 m.2 done) t.entries =
        (ms.foldl (fun t m => t.insert m.1 m.2) t).entries := by
    induction ms generalizing t with
    | nil => rfl
    | cons m ms ih =>
      rw [List.foldl_cons, List.foldl_cons, put_eq_insert]
      exact ih (t.insert m.1 m.2)
  rw [object, Table.ofList]
  exact congrArg obj (inserts .empty members)

/-- No key stands twice in a record, so its member is the one that a look-up finds. -/
theorem member?_object (key : String) (members : List (String × Json)) :
    (object members).member? key = (Table.ofList members).get? key := by
  rw [object_eq, member?]
  cases found : (Table.ofList members).get? key with
  | none =>
    have absent : (Table.ofList members).entries.reverse.find? (·.1 = key) = none := by
      rw [List.find?_eq_none]
      intro e member same
      have held := Table.get?_eq_some.mpr (List.mem_reverse.mp member)
      rw [of_decide_eq_true same, found] at held
      cases held
    rw [absent]
    rfl
  | some value =>
    cases found' : (Table.ofList members).entries.reverse.find? (·.1 = key) with
    | none =>
      rw [List.find?_eq_none] at found'
      exact absurd (decide_eq_true rfl)
        (found' _ (List.mem_reverse.mpr (Table.get?_eq_some.mp found)))
    | some e =>
      have same : e.1 = key := by simpa using List.find?_some found'
      have held := Table.get?_eq_some.mpr (List.mem_reverse.mp (List.mem_of_find?_eq_some found'))
      rw [same, found] at held
      rw [Option.some.inj held]
      rfl

theorem member?_of_mem {key : String} {value : Json} {members : List (String × Json)}
    (single : (members.map (·.1)).Nodup) (inside : (key, value) ∈ members) :
    (object members).member? key = some value := by
  rw [member?_object]
  exact Table.get?_eq_some.mpr ((Table.mem_entries_ofList single _).mpr inside)

theorem lookup_eq_find? (name : String) (members : List (String × Json)) :
    Entries.lookup name members = (members.find? (·.1 = name)).map (·.2) := by
  induction members with
  | nil => rfl
  | cons m ms ih =>
    rw [Entries.lookup, List.find?_cons, ih]
    by_cases same : name = m.1
    · simp [same]
    · simp [same, Ne.symm same]

/-- No member stands twice in a table. -/
theorem filter_entries_length (t : Table Json) (name : String) :
    (t.entries.filter (·.1 = name)).length ≤ 1 := by
  have single := List.nodup_iff_count_le_one.mp t.nodup_keys name
  rw [List.count_eq_countP, List.countP_map, List.countP_eq_length_filter] at single
  simpa only [Function.comp_def, beq_eq_decide] using single

/-- The record with these members, as its reader has it. -/
def Fields.ofMembers (members : List (String × Json)) : Fields := .named (Table.ofList members).entries

@[simp] theorem fields?_object (names : List String) (members : List (String × Json)) :
    (object members).fields? names = some (.ofMembers members) := by
  rw [object_eq, fields?, if_pos]
  · rfl
  · exact List.all_eq_true.mpr fun name _ => decide_eq_true (filter_entries_length _ name)

theorem find?_ofMembers (members : List (String × Json)) (name : String) :
    (Fields.ofMembers members).find? name = (Table.ofList members).get? name :=
  (lookup_eq_find? name _).symm

section

variable {α : Type} {members : List (String × Json)} (name : String) (decode : Json → Option α)

@[simp] theorem req_ofMembers :
    (Fields.ofMembers members).req name decode = ((Table.ofList members).get? name).bind decode := by
  rw [Fields.req, find?_ofMembers]
  rfl

/-- A member that is null, or absent, is none. -/
def readOptional (decode : Json → Option α) : Option Json → Option (Option α)
  | some .null => some none
  | some j => (decode j).map some
  | none => some none

@[simp] theorem optOrNone_ofMembers :
    (Fields.ofMembers members).optOrNone name decode =
      readOptional decode ((Table.ofList members).get? name) := by
  rw [Fields.optOrNone, find?_ofMembers]
  rfl

@[simp] theorem opt_ofMembers :
    (Fields.ofMembers members).opt name decode =
      readOptional decode ((Table.ofList members).get? name) := by
  rw [← find?_ofMembers]
  unfold Fields.opt
  cases (Fields.ofMembers members).find? name with
  | none => rfl
  | some j => cases j <;> rfl

end

theorem readable_object {depth : Nat} {members : List (String × Json)}
    (each : ∀ m ∈ members, Readable (depth + 1) m.2) : Readable (depth + 2) (object members) := by
  rw [object_eq]
  exact .obj fun m member => each m ((Table.mem_of_mem_inserts member).resolve_left List.not_mem_nil)

/- Values -/

/-- A value that a reader of so much depth reads back from its document. -/
structure Restores {α : Type} (depth : Nat) (write : α → Json) (read : Json → Option α) (a : α) :
    Prop where
  readable : Readable depth (write a)
  read : read (write a) = some a

theorem Restores.read_compact {α : Type} {write : α → Json} {read : Json → Option α} {a : α}
    (restores : Restores maxDepth write read a) : (parse? (write a).compact).bind read = some a := by
  rw [parse?_compact restores.readable, Option.bind_some, restores.read]

@[simp] theorem toStr?_str (s : String) : toStr? (.str s) = some s := rfl

@[simp] theorem toBool?_bool (b : Bool) : toBool? (.bool b) = some b := rfl

theorem toIntIn?_int {low high i : Int} (above : low ≤ i) (below : i ≤ high) :
    toIntIn? low high (int i) = some i := by
  simp [toIntIn?, int, above, below]

theorem mapM_map {m : Type → Type} [Monad m] [LawfulMonad m] {α β : Type} {write : α → β}
    {read : β → m α} {items : List α} (each : ∀ a ∈ items, read (write a) = pure a) :
    (items.map write).mapM read = pure items := by
  induction items with
  | nil => rfl
  | cons a items ih =>
    rw [List.map_cons, List.mapM_cons, each a List.mem_cons_self, pure_bind,
      ih fun b member => each b (List.mem_cons_of_mem _ member), pure_bind]

namespace Restores

variable {α : Type} {depth : Nat} {write : α → Json} {read : Json → Option α}

theorem natBits {bits n : Nat} (small : bits ≤ 64) (fits : n ≤ Nat.pow 2 bits - 1) :
    Restores depth nat (toNatBits? bits) n := by
  have word : n ≤ maxWord :=
    Nat.le_trans fits (Nat.sub_le_sub_right (Nat.pow_le_pow_right (by decide) small) 1)
  have whole : toIntIn? 0 (Nat.pow 2 bits - 1) (nat n) = some (n : Int) := by
    have one : 1 ≤ Nat.pow 2 bits := Nat.one_le_two_pow
    exact toIntIn?_int (Int.natCast_nonneg _) (by omega)
  refine ⟨.num (reads_int ?_ (Int.ofNat_le.mpr word)), ?_⟩
  · exact Int.le_trans (by decide) (Int.natCast_nonneg n)
  · rw [toNatBits?, whole, Option.map_some, Int.toNat_natCast]

theorem nat {n : Nat} (fits : n ≤ maxWord) : Restores depth nat toNat64? n := natBits (by decide) fits

theorem int {i : Int} (above : -Nat.pow 2 63 ≤ i) (below : i ≤ Nat.pow 2 63 - 1) :
    Restores depth int toInt64? i :=
  ⟨.num (reads_int above (Int.le_trans below (by decide))), toIntIn?_int above below⟩

theorem list {items : List α} (each : ∀ a ∈ items, Restores (depth + 1) write read a) :
    Restores (depth + 2) (fun items => .arr (items.map write)) (toList? read) items := by
  refine ⟨.arr fun x member => ?_, mapM_map fun a member => (each a member).read⟩
  obtain ⟨a, inside, rfl⟩ := List.mem_map.mp member
  exact (each a inside).readable

/-- A table is read back from an object with a member for each of its keys. -/
theorem table {t : Table α} (each : ∀ e ∈ t.entries, Restores (depth + 1) write read e.2) :
    Restores (depth + 2) (fun t : Table α => .obj (t.entries.map fun e => (e.1, write e.2)))
      (fun j => (toEntries? read j).map Table.ofList) t := by
  refine ⟨.obj fun m member => ?_, ?_⟩
  · obtain ⟨e, inside, rfl⟩ := List.mem_map.mp member
    exact (each e inside).readable
  · have entries : (t.entries.map fun e => (e.1, write e.2)).mapM
        (fun m => (read m.2).map fun v => (m.1, v)) = some t.entries :=
      mapM_map fun e member => by rw [(each e member).read]; rfl
    rw [toEntries?, entries, Option.map_some, Table.ofList_entries]

end Restores

theorem restores_strings {depth : Nat} (ss : List String) :
    Restores (depth + 2) ofStrings toStrings? ss :=
  .list fun s _ => ⟨.str s, rfl⟩

@[simp] theorem readable_ofStrings {depth : Nat} (ss : List String) :
    Readable (depth + 2) (ofStrings ss) := (restores_strings ss).readable

@[simp] theorem toStrings?_ofStrings (ss : List String) : toStrings? (ofStrings ss) = some ss :=
  (restores_strings ss : Restores 2 _ _ ss).read

@[simp] theorem readOptional_none {α : Type} (decode : Json → Option α) :
    readOptional decode none = some none := rfl

@[simp] theorem readOptional_str (s : String) :
    readOptional toStr? (some (.str s)) = some (some s) := rfl

@[simp] theorem readOptional_ofOption (s : Option String) :
    readOptional toStr? (some (ofOption .str s)) = some s := by
  cases s <;> rfl

@[simp] theorem readable_ofOption {depth : Nat} (s : Option String) :
    Readable depth (ofOption .str s) := by
  cases s
  · exact .null
  · exact .str _

attribute [simp] Readable.null Readable.bool Readable.str

end CodeAgent.Json
