import CodeAgent.Json.Overlay
import CodeAgent.Proofs.Decimal.Widening
import CodeAgent.Proofs.Json.Nesting
import CodeAgent.Proofs.Session.Document

/-! One document laid over another, path by path.
Where the upper document ends a path, its value stands; where it lacks a key, the lower document is as it
was; and laid over a second time it changes nothing. -/
namespace CodeAgent.Json

/-- A value whose objects are tables, at every depth. -/
inductive Tabular : Json → Prop where
  | null : Tabular .null
  | bool (b : Bool) : Tabular (.bool b)
  | num (n : Number) : Tabular (.num n)
  | str (s : String) : Tabular (.str s)
  | arr {items : List Json} (each : ∀ x ∈ items, Tabular x) : Tabular (.arr items)
  | obj {members : List (String × Json)} (ascending : Entries.Ascending members)
      (each : ∀ m ∈ members, Tabular m.2) : Tabular (.obj members)

/-- What stands at the end of a path of keys. -/
def at? : Json → List String → Option Json
  | j, [] => some j
  | j, key :: path => (j.member? key).bind fun v => v.at? path

/-- An object on the way lacks the next key of the path. -/
inductive Misses : Json → List String → Prop where
  | here {members : List (String × Json)} {key : String} (path : List String)
      (lacks : (obj members).member? key = none) : Misses (.obj members) (key :: path)
  | further {j v : Json} {key : String} {path : List String} (held : j.member? key = some v)
      (misses : Misses v path) : Misses j (key :: path)

/-- What a place holds after the one value is laid over the other. -/
def laid : (lower upper : Option Json) → Option Json
  | lower, none => lower
  | none, some v => some v
  | some w, some v => some (w.overlay v)

/- Tables -/

/-- The members of a table are those that a look-up finds. -/
theorem member?_table (t : Table Json) (key : String) : (obj t.entries).member? key = t.get? key := by
  have table := member?_object key t.entries
  rwa [object_of_ascending t.ascending, Table.ofList_entries] at table

theorem Tabular.exists_table {members : List (String × Json)} (tabular : Tabular (.obj members)) :
    ∃ t : Table Json, members = t.entries ∧ ∀ m ∈ t.entries, Tabular m.2 := by
  cases tabular with
  | obj ascending each => exact ⟨⟨members, ascending⟩, rfl, each⟩

theorem Tabular.member {j v : Json} {key : String} (tabular : Tabular j) (held : j.member? key = some v) :
    Tabular v := by
  cases j with
  | obj members =>
    obtain ⟨t, rfl, each⟩ := tabular.exists_table
    rw [member?_table] at held
    exact each (key, v) (Table.get?_eq_some.mp held)
  | _ => cases held

theorem tabular_object {members : List (String × Json)} (each : ∀ m ∈ members, Tabular m.2) :
    Tabular (object members) := by
  rw [object_eq]
  exact .obj (Table.ofList members).ascending fun m member =>
    each m ((Table.mem_of_mem_inserts member).resolve_left List.not_mem_nil)

theorem Nests.tabular_canonical {depth : Nat} {j : Json} (nests : Nests depth j) : Tabular j.canonical := by
  induction nests with
  | null => exact .null
  | bool b => exact .bool b
  | num n => exact .num n
  | str s => exact .str s
  | arr _ ih =>
    rw [Json.canonical, canonicalItems_eq]
    refine .arr fun x member => ?_
    obtain ⟨y, inside, rfl⟩ := List.mem_map.mp member
    exact ih y inside
  | obj _ ih =>
    rw [canonical_obj]
    refine tabular_object fun m member => ?_
    obtain ⟨m', inside, rfl⟩ := List.mem_map.mp member
    exact ih m' inside

theorem eq_obj_of_members? {j : Json} {members : List (String × Json)}
    (object : j.members? = some members) : j = .obj members := by
  cases j with
  | obj => exact congrArg obj (Option.some.inj object)
  | _ => cases object

/- One object over another -/

/-- Each of the upper members goes to its place among the lower ones, one by one. -/
theorem overlayMembers_entries (t : Table Json) {upper : List (String × Json)}
    (ascending : Entries.Ascending upper) :
    ∃ t' : Table Json, overlayMembers t.entries upper = t'.entries ∧
      ∀ key, t'.get? key = laid (t.get? key) (Entries.lookup key upper) := by
  induction upper generalizing t with
  | nil => exact ⟨t, rfl, fun key => by cases t.get? key <;> rfl⟩
  | cons m rest ih =>
    obtain ⟨k, v⟩ := m
    obtain ⟨below, tail⟩ := List.pairwise_cons.mp ascending
    have once : Entries.lookup k rest = none := by
      cases found : Entries.lookup k rest with
      | none => rfl
      | some w => exact absurd (below _ (Entries.mem_of_lookup found)) (String.lt_irrefl k)
    have place : ∃ w, laid (t.get? k) (some v) = some w ∧
        overlayMembers t.entries ((k, v) :: rest) = overlayMembers (t.insert k w).entries rest := by
      have found := lookup_eq_find? k t.entries
      rw [overlayMembers, Table.get?, found]
      cases t.entries.find? (·.1 = k) with
      | none => exact ⟨v, rfl, by rw [put_eq_insert]; rfl⟩
      | some old => exact ⟨old.2.overlay v, rfl, by rw [put_eq_insert]; rfl⟩
    obtain ⟨w, fresh, first⟩ := place
    obtain ⟨t', merged, held⟩ := ih (t.insert k w) tail
    refine ⟨t', first.trans merged, fun key => ?_⟩
    rw [held, Table.get?_insert, Entries.lookup]
    by_cases same : key = k
    · subst same
      rw [if_pos rfl, if_pos rfl, once, fresh]
      rfl
    · rw [if_neg same, if_neg same]

theorem overlay_tables (t u : Table Json) :
    ∃ t' : Table Json, (obj t.entries).overlay (.obj u.entries) = .obj t'.entries ∧
      ∀ key, t'.get? key = laid (t.get? key) (u.get? key) := by
  obtain ⟨t', merged, held⟩ := overlayMembers_entries t u.ascending
  exact ⟨t', by rw [overlay, merged], held⟩

/-- An object goes over any other value in its place. -/
theorem overlay_of_not_object {base : Json} (members : List (String × Json))
    (other : base.members? = none) : base.overlay (.obj members) = .obj members := by
  cases base with
  | obj lower => cases other
  | _ => rfl

theorem overlay_other (base : Json) {upper : Json} (other : upper.members? = none) :
    base.overlay upper = upper := by
  cases upper with
  | obj members => cases other
  | _ =>
    rw [overlay]
    nofun

section

variable {base upper : Json} (lower : Tabular base) (above : Tabular upper)
include lower above

/-- A key of the upper object. -/
theorem member?_overlay {key : String} {v : Json} (held : upper.member? key = some v) :
    (base.overlay upper).member? key = laid (base.member? key) (some v) := by
  cases upper with
  | obj members =>
    obtain ⟨u, rfl, -⟩ := above.exists_table
    cases base with
    | obj lowers =>
      obtain ⟨t, rfl, -⟩ := lower.exists_table
      obtain ⟨t', merged, places⟩ := overlay_tables t u
      rw [member?_table] at held ⊢
      rw [merged, member?_table, places, held]
    | _ =>
      rw [overlay_of_not_object _ rfl, held]
      rfl
  | _ => cases held

/-- A key that the upper object lacks. -/
theorem member?_overlay_of_lacks {members : List (String × Json)} (object : upper = .obj members)
    {key : String} (lacks : upper.member? key = none) :
    (base.overlay upper).member? key = base.member? key := by
  subst object
  obtain ⟨u, rfl, -⟩ := above.exists_table
  cases base with
  | obj lowers =>
    obtain ⟨t, rfl, -⟩ := lower.exists_table
    obtain ⟨t', merged, places⟩ := overlay_tables t u
    rw [member?_table] at lacks ⊢
    rw [merged, member?_table, places, lacks]
    cases t.get? key <;> rfl
  | _ =>
    rw [overlay_of_not_object _ rfl, lacks]
    rfl

end

/- Paths -/

/-- What the upper document has at a path goes over what the lower one has there. -/
theorem at?_overlay {base upper v : Json} {path : List String} (lower : Tabular base)
    (above : Tabular upper) (held : upper.at? path = some v) :
    (base.overlay upper).at? path = laid (base.at? path) (some v) := by
  induction path generalizing base upper with
  | nil =>
    obtain rfl := Option.some.inj held
    rfl
  | cons key path ih =>
    obtain ⟨x, member, rest⟩ := Option.bind_eq_some_iff.mp held
    rw [at?, at?, member?_overlay lower above member]
    cases below : base.member? key with
    | none =>
      rw [laid, Option.bind_some, rest]
      rfl
    | some w => exact ih (lower.member below) (above.member member) rest

theorem at?_overlay_other {base upper v : Json} {path : List String} (lower : Tabular base)
    (above : Tabular upper) (held : upper.at? path = some v) (other : v.members? = none) :
    (base.overlay upper).at? path = some v := by
  rw [at?_overlay lower above held]
  cases base.at? path with
  | none => rfl
  | some w => rw [laid, overlay_other w other]

theorem Misses.at?_eq_none {j : Json} {path : List String} (misses : Misses j path) :
    j.at? path = none := by
  induction misses with
  | here path lacks => rw [at?, lacks, Option.bind_none]
  | further held _ ih => rw [at?, held, Option.bind_some, ih]

theorem at?_overlay_of_misses {base upper : Json} {path : List String} (lower : Tabular base)
    (above : Tabular upper) (misses : Misses upper path) :
    (base.overlay upper).at? path = base.at? path := by
  induction misses generalizing base with
  | here path lacks => rw [at?, at?, member?_overlay_of_lacks lower above rfl lacks]
  | further held misses ih =>
    rename_i key _
    rw [at?, at?, member?_overlay lower above held]
    cases below : base.member? key with
    | none => exact misses.at?_eq_none
    | some w => exact ih (lower.member below) (above.member held)

/- A second time -/

theorem overlay_self {j : Json} (tabular : Tabular j) : j.overlay j = j := by
  induction tabular with
  | obj ascending each ih =>
    rename_i members
    obtain ⟨t, rfl, -⟩ := (Tabular.obj ascending each).exists_table
    obtain ⟨t', merged, places⟩ := overlay_tables t t
    have same : t' = t := by
      refine Table.ext_get? fun key => ?_
      rw [places]
      cases found : t.get? key with
      | none => rfl
      | some v => exact congrArg some (ih (key, v) (Table.get?_eq_some.mp found))
    rw [merged, same]
  | _ => exact overlay_other _ rfl

theorem overlay_overlay {base upper : Json} (lower : Tabular base) (above : Tabular upper) :
    (base.overlay upper).overlay upper = base.overlay upper := by
  induction above generalizing base with
  | obj ascending each ih =>
    rename_i members
    have above := Tabular.obj ascending each
    obtain ⟨u, rfl, -⟩ := above.exists_table
    cases object : base.members? with
    | none =>
      have once := overlay_of_not_object u.entries object
      rw [once]
      exact overlay_self above
    | some lowers =>
      obtain rfl := eq_obj_of_members? object
      obtain ⟨t, rfl, inside⟩ := lower.exists_table
      obtain ⟨t', once, places⟩ := overlay_tables t u
      obtain ⟨t'', twice, places'⟩ := overlay_tables t' u
      have same : t'' = t' := by
        refine Table.ext_get? fun key => ?_
        rw [places', places]
        cases upper : u.get? key with
        | none => cases t.get? key <;> rfl
        | some v =>
          have member := Table.get?_eq_some.mp upper
          cases under : t.get? key with
          | none => exact congrArg some (overlay_self (each _ member))
          | some w => exact congrArg some (ih _ member (inside _ (Table.get?_eq_some.mp under)))
      rw [once, twice, same]
  | _ => rw [overlay_other _ rfl, overlay_other _ rfl]

/-! Values that are overlaid and read back.
A record is written as a document, another document is laid over it, and a record is read from that. In
all that the other document misses the two records are the same, if that holds of each of their members. -/

/-- Every path that the upper document misses leads to the same as before. -/
def Preserves (before upper after : Json) : Prop :=
  ∀ path, Misses upper path → after.at? path = before.at? path

/-- A member that is not overlaid is as it was, and in one that is, what is missed is as it was. -/
def Kept (before : Json) (upper : Option Json) (after : Json) : Prop :=
  match upper with
  | none => after = before
  | some v => Preserves before v after

/-- Whatever is laid over the document of a value, the value read from it is the same in all that is missed. -/
def Keeps {α : Type} (write : α → Json) (read : Json → Option α) (a : α) : Prop :=
  ∀ upper b, Tabular upper → read ((write a).overlay upper) = some b → Preserves (write a) upper (write b)

theorem Misses.object {j : Json} {path : List String} (misses : Misses j path) :
    ∃ members, j = .obj members := by
  cases misses with
  | here path lacks => exact ⟨_, rfl⟩
  | further held misses =>
    cases j with
    | obj members => exact ⟨members, rfl⟩
    | _ => cases held

/- Records -/

@[simp] theorem fields?_table (names : List String) (t : Table Json) :
    (obj t.entries).fields? names = some (.named t.entries) := by
  have record := fields?_object names t.entries
  rwa [object_of_ascending t.ascending, Fields.ofMembers, Table.ofList_entries] at record

@[simp] theorem orElse_table {α : Type} (t : Table Json) (name : String) (decode : Json → Option α)
    (absent : α) :
    (Fields.named t.entries).orElse name decode absent = (t.get? name).elim (some absent) decode := by
  have found : (Fields.named t.entries).find? name = t.get? name := (lookup_eq_find? name t.entries).symm
  rw [Fields.orElse, found]
  cases t.get? name <;> rfl

/-- The members of two records, one by one. -/
def KeptMembers (upper : Json) (before after : List (String × Json)) : Prop :=
  List.Forall₂ (fun m m' => m.1 = m'.1 ∧ Kept m.2 (upper.member? m.1) m'.2) before after

theorem KeptMembers.get? {upper : Json} {before after : List (String × Json)}
    (kept : KeptMembers upper before after) (key : String) :
    Option.Rel (fun m m' => Kept m (upper.member? key) m')
      ((Table.ofList before).get? key) ((Table.ofList after).get? key) := by
  have inserts (t t' : Table Json)
      (same : Option.Rel (fun m m' => Kept m (upper.member? key) m') (t.get? key) (t'.get? key)) :
      Option.Rel (fun m m' => Kept m (upper.member? key) m')
        ((before.foldl (fun t m => t.insert m.1 m.2) t).get? key)
        ((after.foldl (fun t m => t.insert m.1 m.2) t').get? key) := by
    induction kept generalizing t t' with
    | nil => exact same
    | cons first _ ih =>
      rename_i m _ _ _ _
      obtain ⟨names, holds⟩ := first
      refine ih _ _ ?_
      rw [Table.get?_insert, Table.get?_insert, ← names]
      by_cases here : key = m.1
      · rw [if_pos here, if_pos here, here]
        exact .some holds
      · rw [if_neg here, if_neg here]
        exact same
  exact inserts .empty .empty .none

theorem preserves_object {upper : Json} {before after : List (String × Json)}
    (kept : KeptMembers upper before after) : Preserves (object before) upper (object after) := by
  intro path misses
  cases misses with
  | here path lacks =>
    rename_i key
    have same := kept.get? key
    rw [lacks] at same
    rw [at?, at?, member?_object, member?_object]
    generalize (Table.ofList before).get? key = w, (Table.ofList after).get? key = w' at same
    cases same with
    | none => rfl
    | some equal => exact congrArg (fun v => (some v).bind fun v => v.at? path) equal
  | further held misses =>
    rename_i key _
    have same := kept.get? key
    rw [held] at same
    rw [at?, at?, member?_object, member?_object]
    generalize (Table.ofList before).get? key = w, (Table.ofList after).get? key = w' at same
    cases same with
    | none => rfl
    | some preserves => exact preserves _ misses

section

variable {α : Type} {write : α → Json} {read : Json → Option α} {a : α}

/-- A value that is no object is missed by nothing that can be read in its place. -/
theorem Keeps.leaf (flat : (write a).members? = none) (closed : ∀ members, read (.obj members) = none) :
    Keeps write read a := by
  intro upper b _ found path misses
  obtain ⟨members, rfl⟩ := misses.object
  rw [overlay_of_not_object members flat, closed] at found
  cases found

theorem Keeps.record {members : α → List (String × Json)} (written : ∀ a, write a = object (members a))
    (single : ((members a).map (·.1)).Nodup)
    (each : ∀ (upper : Json) (t : Table Json) (b : α), Tabular upper →
      (∀ m ∈ members a, t.get? m.1 = laid (some m.2) (upper.member? m.1)) →
      read (.obj t.entries) = some b → KeptMembers upper (members a) (members b)) :
    Keeps write read a := by
  intro upper b above found path misses
  obtain ⟨uppers, rfl⟩ := misses.object
  obtain ⟨u, rfl, -⟩ := above.exists_table
  obtain ⟨t, merged, places⟩ := overlay_tables (Table.ofList (members a)) u
  rw [written, object_eq, merged] at found
  rw [written, written]
  refine preserves_object (each _ t b above (fun m member => ?_) found) path misses
  rw [places, member?_table, Table.get?_eq_some.mpr ((Table.mem_entries_ofList single m).mpr member)]

/-- A member of a record: as it was if it is not overlaid, else as its own reader has it. -/
theorem Keeps.member {upper : Json} {t : Table Json} {key : String} {absent b : α}
    (keeps : Keeps write read a) (restored : read (write a) = some a) (above : Tabular upper)
    (place : t.get? key = laid (some (write a)) (upper.member? key))
    (found : (t.get? key).elim (some absent) read = some b) :
    Kept (write a) (upper.member? key) (write b) := by
  rw [place] at found
  cases held : upper.member? key with
  | none =>
    rw [held] at found
    have same : read (write a) = some b := found
    rw [restored] at same
    rw [Option.some.inj same]
    rfl
  | some v =>
    rw [held] at found
    exact keeps v b (above.member held) found

end

/- Leaves -/

theorem keeps_str (s : String) : Keeps Json.str toStr? s := .leaf rfl fun _ => rfl

theorem keeps_bool (b : Bool) : Keeps Json.bool toBool? b := .leaf rfl fun _ => rfl

theorem keeps_nat (bits n : Nat) : Keeps Json.nat (toNatBits? bits) n := .leaf rfl fun _ => rfl

theorem keeps_single (s : Single) : Keeps (fun s => Json.float s.toDouble) toSingle? s :=
  .leaf rfl fun _ => rfl

theorem keeps_strings (ss : List String) : Keeps ofStrings toStrings? ss := .leaf rfl fun _ => rfl

theorem toSingle?_float (s : Single) : toSingle? (float s.toDouble) = some s := by
  rw [toSingle?, float, toDouble?, Option.map_some, Single.ofDouble_toDouble]

/- Numbers in their bits -/

theorem toNatBits?_nat {bits n : Nat} (small : bits ≤ 64) (fits : n ≤ Nat.pow 2 bits - 1) :
    toNatBits? bits (.nat n) = some n := (Carries.natBits small fits).read

theorem toNat64?_nat {n : Nat} (fits : n ≤ Nat.pow 2 64 - 1) : toNat64? (.nat n) = some n :=
  toNatBits?_nat (by decide) fits

theorem toNat32?_nat {n : Nat} (fits : n ≤ Nat.pow 2 32 - 1) : toNat32? (.nat n) = some n :=
  toNatBits?_nat (by decide) fits

theorem le_of_toNatBits? {bits n : Nat} {j : Json} (read : toNatBits? bits j = some n) :
    n ≤ Nat.pow 2 bits - 1 := by
  obtain ⟨i, whole, rfl⟩ := Option.map_eq_some_iff.mp read
  have one : 1 ≤ Nat.pow 2 bits := Nat.one_le_two_pow
  cases j with
  | num n =>
    cases n with
    | int i' =>
      rw [toIntIn?] at whole
      split at whole
      · rename_i within
        obtain rfl := Option.some.inj whole
        simp only [Bool.and_eq_true, decide_eq_true_eq] at within
        omega
      · cases whole
    | float d => cases whole
  | _ => cases whole

/-- What holds of all that is read and of the preset holds of a member. -/
theorem of_orElse {α : Type} {P : α → Prop} {decode : Json → Option α} {fs : Fields} {name : String}
    {a absent : α} (decoded : ∀ {j a}, decode j = some a → P a) (preset : P absent)
    (read : fs.orElse name decode absent = some a) : P a := by
  rw [Fields.orElse] at read
  split at read
  · exact decoded read
  · exact Option.some.inj read ▸ preset

theorem le_of_orElse {bits n absent : Nat} {fs : Fields} {name : String}
    (preset : absent ≤ Nat.pow 2 bits - 1) (read : fs.orElse name (toNatBits? bits) absent = some n) :
    n ≤ Nat.pow 2 bits - 1 :=
  of_orElse (P := (· ≤ Nat.pow 2 bits - 1)) le_of_toNatBits? preset read

end CodeAgent.Json
