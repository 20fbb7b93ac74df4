import CodeAgent.Table
import Mathlib.Data.List.Nodup
import Mathlib.Data.List.Sort

/-! What a table holds, read as its entries or through its look-ups. -/
namespace CodeAgent

namespace Entries

variable {α : Type} {es : List (String × α)} {key : String} {value : α}

theorem mem_of_lookup (found : lookup key es = some value) : (key, value) ∈ es := by
  induction es with
  | nil => cases found
  | cons e es ih =>
    rw [lookup] at found
    split at found
    · rename_i same
      obtain rfl := Option.some.inj found
      exact List.mem_cons.mpr (Or.inl (by rw [same]))
    · exact List.mem_cons_of_mem _ (ih found)

theorem lookup_of_mem (sorted : Ascending es) (member : (key, value) ∈ es) :
    lookup key es = some value := by
  induction es with
  | nil => cases member
  | cons e es ih =>
    obtain ⟨below, tail⟩ := List.pairwise_cons.mp sorted
    rcases List.mem_cons.mp member with rfl | later
    · exact if_pos rfl
    · have above : e.1 < key := below _ later
      have other : key ≠ e.1 := fun same => String.lt_irrefl key (same ▸ above)
      rw [lookup, if_neg other, ih tail later]

theorem not_mem_of_lookup (missing : lookup key es = none) : key ∉ es.map (·.1) := by
  induction es with
  | nil => simp
  | cons e es ih =>
    rw [lookup] at missing
    split at missing
    · cases missing
    · rename_i other
      simp only [List.map_cons, List.mem_cons, not_or]
      exact ⟨other, ih missing⟩

theorem lookup_map {β : Type} (f : String → α → β) :
    lookup key (es.map fun e => (e.1, f e.1 e.2)) = (lookup key es).map (f key) := by
  induction es with
  | nil => rfl
  | cons e es ih =>
    rw [List.map_cons, lookup, lookup, ih]
    split
    · rename_i same
      rw [same, Option.map_some]
    · rfl

theorem eq_of_ascending {fs : List (String × α)} (sorted : Ascending es) (sorted' : Ascending fs)
    (same : ∀ e, e ∈ es ↔ e ∈ fs) : es = fs := by
  have irreflexive : Std.Irrefl fun a b : String × α => a.1 < b.1 := ⟨fun a => String.lt_irrefl a.1⟩
  have antisymmetric : Std.Antisymm fun a b : String × α => a.1 < b.1 :=
    ⟨fun a b less more => absurd (String.lt_trans less more) (String.lt_irrefl a.1)⟩
  exact List.Pairwise.eq_of_mem_iff sorted sorted' same

theorem Ascending.nodup (sorted : Ascending es) : es.Nodup :=
  List.Pairwise.imp (fun {e e'} less (same : e = e') => String.lt_irrefl e'.1 (same ▸ less)) sorted

end Entries

namespace Table

variable {α β : Type} {t : Table α} {es : List (String × α)} {key : String} {value : α}

theorem get?_eq_some : t.get? key = some value ↔ (key, value) ∈ t.entries :=
  ⟨Entries.mem_of_lookup, Entries.lookup_of_mem t.ascending⟩

/-- Tables with the same look-ups are equal. -/
theorem ext_get? {t' : Table α} (same : ∀ key, t.get? key = t'.get? key) : t = t' := by
  have entries : t.entries = t'.entries := by
    refine Entries.eq_of_ascending t.ascending t'.ascending fun e => ?_
    rw [← get?_eq_some, ← get?_eq_some, same]
  cases t
  cases t'
  cases entries
  rfl

theorem get?_mapValues (f : String → α → β) : (t.mapValues f).get? key = (t.get? key).map (f key) :=
  Entries.lookup_map f

theorem get?_update (f : Option α → α) (other : String) :
    (t.update key f).get? other = if other = key then some (f (t.get? key)) else t.get? other := by
  rw [update, get?_insert]

/-- What one entry put over another of the same key leaves. -/
theorem insert_insert (value' : α) : (t.insert key value).insert key value' = t.insert key value' := by
  refine ext_get? fun other => ?_
  rw [get?_insert, get?_insert, get?_insert]
  split <;> rfl

/-- What is put where it stands already changes nothing. -/
theorem insert_of_get? (held : t.get? key = some value) : t.insert key value = t := by
  refine ext_get? fun other => ?_
  rw [get?_insert]
  split
  · rename_i same
    rw [same, held]
  · rfl

theorem mem_of_mem_inserts {e : String × α}
    (member : e ∈ (es.foldl (fun t e => t.insert e.1 e.2) t).entries) : e ∈ t.entries ∨ e ∈ es := by
  induction es generalizing t with
  | nil => exact Or.inl member
  | cons first es ih =>
    rcases ih member with before | later
    · rcases Entries.mem_insert before with rfl | before
      · exact Or.inr List.mem_cons_self
      · exact Or.inl before
    · exact Or.inr (List.mem_cons_of_mem _ later)

theorem mem_of_get?_ofList (found : (ofList es).get? key = some value) : (key, value) ∈ es :=
  (mem_of_mem_inserts (get?_eq_some.mp found)).resolve_left List.not_mem_nil

theorem get?_inserts_of_not_mem (absent : key ∉ es.map (·.1)) :
    (es.foldl (fun t e => t.insert e.1 e.2) t).get? key = t.get? key := by
  induction es generalizing t with
  | nil => rfl
  | cons e es ih =>
    rw [List.map_cons, List.mem_cons, not_or] at absent
    rw [List.foldl_cons, ih absent.2, get?_insert, if_neg absent.1]

theorem isSome_inserts :
    ((es.foldl (fun t e => t.insert e.1 e.2) t).get? key).isSome ↔
      key ∈ es.map (·.1) ∨ (t.get? key).isSome := by
  induction es generalizing t with
  | nil => simp
  | cons e es ih =>
    rw [List.foldl_cons, ih, get?_insert, List.map_cons, List.mem_cons]
    by_cases same : key = e.1 <;> simp [same]

/-- A table made of entries has the keys of all of them. -/
theorem isSome_ofList : ((ofList es).get? key).isSome ↔ key ∈ es.map (·.1) :=
  isSome_inserts.trans (or_iff_left (by simp))

theorem get?_inserts_of_mem (single : (es.map (·.1)).Nodup) (member : (key, value) ∈ es) :
    (es.foldl (fun t e => t.insert e.1 e.2) t).get? key = some value := by
  induction es generalizing t with
  | nil => cases member
  | cons e es ih =>
    obtain ⟨fresh, single⟩ := List.nodup_cons.mp single
    rw [List.foldl_cons]
    rcases List.mem_cons.mp member with rfl | later
    · rw [get?_inserts_of_not_mem fresh, get?_insert_self]
    · exact ih single later

/-- Of entries with a key each, all count. -/
theorem mem_entries_ofList (single : (es.map (·.1)).Nodup) (e : String × α) :
    e ∈ (ofList es).entries ↔ e ∈ es := by
  rw [← get?_eq_some]
  exact ⟨mem_of_get?_ofList, get?_inserts_of_mem single⟩

theorem get?_ofList_of_nodup (single : (es.map (·.1)).Nodup) :
    (ofList es).get? key = Entries.lookup key es := by
  cases found : Entries.lookup key es with
  | none => exact get?_inserts_of_not_mem (Entries.not_mem_of_lookup found)
  | some value => exact get?_inserts_of_mem single (Entries.mem_of_lookup found)

theorem perm_ofList (single : (es.map (·.1)).Nodup) : (ofList es).entries.Perm es :=
  (List.perm_ext_iff_of_nodup (ofList es).ascending.nodup single.of_map).mpr
    (mem_entries_ofList single)

theorem nodup_keys (t : Table α) : (t.entries.map (·.1)).Nodup :=
  List.Pairwise.map _ (fun _ _ less same => String.lt_irrefl _ (same ▸ less)) t.ascending

/-- What is listed for each entry under its key is listed once when the entry lists it once. -/
theorem nodup_flatMap {f : String × α → List β} (keyOf : β → String) (own : ∀ e, ∀ b ∈ f e, keyOf b = e.1)
    (single : ∀ e ∈ t.entries, (f e).Nodup) : (t.entries.flatMap f).Nodup := by
  refine List.nodup_flatMap.mpr ⟨single, t.ascending.imp fun {e e'} less => ?_⟩
  intro b here there
  have same : e.1 = e'.1 := (own e b here).symm.trans (own e' b there)
  exact String.lt_irrefl _ (same ▸ less)

/-- A table is made again of its entries. -/
theorem ofList_entries (t : Table α) : ofList t.entries = t := by
  have entries := Entries.eq_of_ascending (ofList t.entries).ascending t.ascending
    (mem_entries_ofList t.nodup_keys)
  refine ext_get? fun key => ?_
  rw [get?, entries, get?]

theorem mem_keys : key ∈ t.keys ↔ (t.get? key).isSome := by
  have holds : ((ofList t.entries).get? key).isSome ↔ key ∈ t.keys := isSome_ofList
  rw [← holds, ofList_entries]

/-- The entries of a table that are put into another count before what stood there. -/
theorem get?_inserts (entries t : Table α) :
    (entries.entries.foldl (fun t e => t.insert e.1 e.2) t).get? key =
      (entries.get? key).or (t.get? key) := by
  cases found : entries.get? key with
  | some v => rw [get?_inserts_of_mem entries.nodup_keys (get?_eq_some.mp found), Option.some_or]
  | none =>
    have absent : key ∉ entries.entries.map (·.1) := fun member => by
      obtain ⟨e, inside, rfl⟩ := List.mem_map.mp member
      rw [get?_eq_some.mpr inside] at found
      cases found
    rw [get?_inserts_of_not_mem absent, Option.none_or]

end Table

end CodeAgent
