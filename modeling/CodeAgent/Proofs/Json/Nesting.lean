import CodeAgent.Proofs.Json.Restoring

/-! How deep documents nest.
A reader goes only so deep: what it reads nests less than its depth. A value of tables, texts and
numbers that are read back is itself read back when it nests no deeper, and never when it nests
deeper. -/
namespace CodeAgent.Json

/-- Less than so many lists and objects stand around each other. -/
inductive Nests : Nat → Json → Prop where
  | null {depth : Nat} : Nests depth .null
  | bool {depth : Nat} (b : Bool) : Nests depth (.bool b)
  | num {depth : Nat} (n : Number) : Nests depth (.num n)
  | str {depth : Nat} (s : String) : Nests depth (.str s)
  | arr {depth : Nat} {items : List Json} (each : ∀ x ∈ items, Nests (depth + 1) x) :
      Nests (depth + 2) (.arr items)
  | obj {depth : Nat} {members : List (String × Json)} (each : ∀ m ∈ members, Nests (depth + 1) m.2) :
      Nests (depth + 2) (.obj members)

/-- A value whose numbers are read back and whose objects are tables. -/
inductive Exact : Json → Prop where
  | null : Exact .null
  | bool (b : Bool) : Exact (.bool b)
  | num {n : Number} (reads : Reads n) : Exact (.num n)
  | str (s : String) : Exact (.str s)
  | arr {items : List Json} (each : ∀ x ∈ items, Exact x) : Exact (.arr items)
  | obj {members : List (String × Json)} (ascending : Entries.Ascending members)
      (each : ∀ m ∈ members, Exact m.2) : Exact (.obj members)

/-- A value without fractions: its numbers are integers of sixty-four bits, its objects tables. -/
inductive Whole : Json → Prop where
  | null : Whole .null
  | bool (b : Bool) : Whole (.bool b)
  | int {i : Int} (low : -Nat.pow 2 63 ≤ i) (high : i ≤ maxWord) : Whole (.num (.int i))
  | str (s : String) : Whole (.str s)
  | arr {items : List Json} (each : ∀ x ∈ items, Whole x) : Whole (.arr items)
  | obj {members : List (String × Json)} (ascending : Entries.Ascending members)
      (each : ∀ m ∈ members, Whole m.2) : Whole (.obj members)

/- What is read -/

/-- The readers of a value, of items and of members, with so much fuel, go no deeper than they may. -/
structure ReadsNested (fuel : Nat) : Prop where
  value {depth : Nat} {cs rest : List Char} {v : Json}
    (read : readValue fuel depth cs = some (v, rest)) : Nests depth v
  items {depth : Nat} {done items : List Json} {cs rest : List Char}
    (before : ∀ x ∈ done, Nests depth x) (read : readItems fuel depth done cs = some (items, rest)) :
    ∀ x ∈ items, Nests depth x
  members {depth : Nat} {done members : List (String × Json)} {cs rest : List Char}
    (before : ∀ m ∈ done, Nests depth m.2)
    (read : readMembers fuel depth done cs = some (members, rest)) : ∀ m ∈ members, Nests depth m.2

namespace ReadsNested

variable {fuel depth : Nat} {cs rest : List Char} {v : Json}

theorem of_number {o : Option (Number × List Char)}
    (read : (o.map fun r => (num r.1, r.2)) = some (v, rest)) : Nests depth v := by
  obtain ⟨r, -, same⟩ := Option.map_eq_some_iff.mp read
  obtain ⟨rfl, -⟩ := Prod.mk.inj same
  exact .num r.1

theorem succ_value (ih : ReadsNested fuel) (read : readValue (fuel + 1) depth cs = some (v, rest)) :
    Nests depth v := by
  rw [readValue] at read
  split at read
  case h_1 => cases read; exact .null
  case h_2 => cases read; exact .bool true
  case h_3 => cases read; exact .bool false
  case h_4 =>
    obtain ⟨r, -, same⟩ := Option.map_eq_some_iff.mp read
    obtain ⟨rfl, -⟩ := Prod.mk.inj same
    exact .str r.1
  case h_5 => exact of_number read
  case h_6 =>
    by_cases shallow : depth ≤ 1
    · rw [if_pos shallow] at read
      cases read
    · obtain ⟨below, rfl⟩ : ∃ below, depth = below + 2 := ⟨depth - 2, by omega⟩
      rw [if_neg shallow] at read
      split at read
      · cases read
        exact .arr (List.forall_mem_nil _)
      · obtain ⟨r, items, same⟩ := Option.map_eq_some_iff.mp read
        obtain ⟨rfl, -⟩ := Prod.mk.inj same
        exact .arr (ih.items (List.forall_mem_nil _) items)
  case h_7 =>
    by_cases shallow : depth ≤ 1
    · rw [if_pos shallow] at read
      cases read
    · obtain ⟨below, rfl⟩ : ∃ below, depth = below + 2 := ⟨depth - 2, by omega⟩
      rw [if_neg shallow] at read
      split at read
      · cases read
        exact .obj (List.forall_mem_nil _)
      · obtain ⟨r, members, same⟩ := Option.map_eq_some_iff.mp read
        obtain ⟨rfl, -⟩ := Prod.mk.inj same
        exact .obj (ih.members (List.forall_mem_nil _) members)
  case h_8 => exact of_number read

theorem succ_items {done items : List Json} (ih : ReadsNested fuel) (before : ∀ x ∈ done, Nests depth x)
    (read : readItems (fuel + 1) depth done cs = some (items, rest)) : ∀ x ∈ items, Nests depth x := by
  rw [readItems] at read
  split at read
  · cases read
  · rename_i v rest' value
    have more : ∀ x ∈ v :: done, Nests depth x :=
      List.forall_mem_cons.mpr ⟨ih.value value, before⟩
    split at read
    · exact ih.items more read
    · cases read
      exact fun x member => more x (List.mem_reverse.mp member)
    · cases read

theorem succ_members {done members : List (String × Json)} (ih : ReadsNested fuel)
    (before : ∀ m ∈ done, Nests depth m.2)
    (read : readMembers (fuel + 1) depth done cs = some (members, rest)) :
    ∀ m ∈ members, Nests depth m.2 := by
  rw [readMembers] at read
  split at read
  · split at read
    · cases read
    · split at read
      · split at read
        · cases read
        · rename_i v _ value
          have more (key : String) : ∀ m ∈ (key, v) :: done, Nests depth m.2 :=
            List.forall_mem_cons.mpr ⟨ih.value value, before⟩
          split at read
          · exact ih.members (more _) read
          · cases read
            exact fun m member => more _ m (List.mem_reverse.mp member)
          · cases read
      · cases read
  · cases read

end ReadsNested

theorem readsNested (fuel : Nat) : ReadsNested fuel := by
  induction fuel with
  | zero => exact ⟨nofun, nofun, nofun⟩
  | succ fuel ih => exact ⟨ih.succ_value, ih.succ_items, ih.succ_members⟩

/-- A text holds nothing that nests too deep. -/
theorem nests_of_parse? {text : String} {j : Json} (read : parse? text = some j) : Nests maxDepth j := by
  rw [parse?] at read
  split at read
  · rename_i value
    split at read
    · cases read
      exact (readsNested _).value value
    · cases read
  · cases read

/- Values in order -/

theorem canonicalItems_eq (items : List Json) : canonicalItems items = items.map canonical := by
  induction items with
  | nil => rfl
  | cons x xs ih => rw [canonicalItems, ih, List.map_cons]

theorem canonical_obj (members : List (String × Json)) :
    canonical (.obj members) = object (members.map fun m => (m.1, canonical m.2)) := by
  have folds (done : List (String × Json)) : canonicalMembers done members =
      (members.map fun m => (m.1, canonical m.2)).foldl (fun done m => put m.1 m.2 done) done := by
    induction members generalizing done with
    | nil => rfl
    | cons m rest ih => rw [canonicalMembers, ih, List.map_cons, List.foldl_cons]
  rw [canonical, folds, object]

/-- An object whose members are in order is one. -/
theorem object_of_ascending {members : List (String × Json)} (ascending : Entries.Ascending members) :
    object members = .obj members := by
  have entries := congrArg Table.entries (Table.ofList_entries ⟨members, ascending⟩)
  rw [object_eq]
  exact congrArg obj entries

theorem Nests.canonical {depth : Nat} {j : Json} (nests : Nests depth j) : Nests depth j.canonical := by
  induction nests with
  | null => exact .null
  | bool b => exact .bool b
  | num n => exact .num n
  | str s => exact .str s
  | arr _ ih =>
    rw [Json.canonical, canonicalItems_eq]
    refine .arr fun x member => ?_
    obtain ⟨y, inside, rfl⟩ := List.mem_map.mp member
    exact ih y inside
  | obj _ ih =>
    rw [canonical_obj, object_eq]
    refine .obj fun m member => ?_
    obtain ⟨m', inside, rfl⟩ :=
      List.mem_map.mp ((Table.mem_of_mem_inserts member).resolve_left List.not_mem_nil)
    exact ih m' inside

theorem nests_object {depth : Nat} {members : List (String × Json)}
    (each : ∀ m ∈ members, Nests (depth + 1) m.2) : Nests (depth + 2) (object members) := by
  rw [object_eq]
  exact .obj fun m member => each m ((Table.mem_of_mem_inserts member).resolve_left List.not_mem_nil)

theorem nests_list {α : Type} {depth : Nat} {items : List α} {write : α → Json}
    (each : ∀ a ∈ items, Nests (depth + 1) (write a)) : Nests (depth + 2) (.arr (items.map write)) := by
  refine .arr fun x member => ?_
  obtain ⟨a, inside, rfl⟩ := List.mem_map.mp member
  exact each a inside

theorem nests_strings {depth : Nat} (ss : List String) : Nests (depth + 2) (ofStrings ss) :=
  nests_list fun s _ => .str s

theorem exact_object {members : List (String × Json)} (each : ∀ m ∈ members, Exact m.2) :
    Exact (object members) := by
  rw [object_eq]
  exact .obj (Table.ofList members).ascending fun m member =>
    each m ((Table.mem_of_mem_inserts member).resolve_left List.not_mem_nil)

namespace Exact

variable {j : Json}

theorem canonical_eq (exact : Exact j) : j.canonical = j := by
  induction exact with
  | arr each ih =>
    rw [canonical, canonicalItems_eq]
    rw [List.map_congr_left ih, List.map_id']
  | obj ascending each ih =>
    rw [canonical_obj, List.map_congr_left (g := id) fun m member => by rw [ih m member]; rfl,
      List.map_id, object_of_ascending ascending]
  | _ => rfl

theorem readable {depth : Nat} (exact : Exact j) (nests : Nests depth j) : Readable depth j := by
  induction nests with
  | null => exact .null
  | bool b => exact .bool b
  | str s => exact .str s
  | num n =>
    cases exact with
    | num reads => exact .num reads
  | arr _ ih =>
    cases exact with
    | arr each => exact .arr fun x member => ih x member (each x member)
  | obj _ ih =>
    cases exact with
    | obj _ each => exact .obj fun m member => ih m member (each m member)

end Exact

namespace Whole

variable {j : Json}

theorem exact (whole : Whole j) : Exact j := by
  induction whole with
  | null => exact .null
  | bool b => exact .bool b
  | int low high => exact .num (reads_int low high)
  | str s => exact .str s
  | arr _ ih => exact .arr ih
  | obj ascending _ ih => exact .obj ascending ih

theorem canonical_eq (whole : Whole j) : j.canonical = j := whole.exact.canonical_eq

theorem readable {depth : Nat} (whole : Whole j) (nests : Nests depth j) : Readable depth j :=
  whole.exact.readable nests

end Whole

end CodeAgent.Json
