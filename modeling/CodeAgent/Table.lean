/-! Tables keyed by text, kept in ascending key order.
Two tables with the same look-ups are equal, because the order leaves one list for each. -/
namespace CodeAgent

namespace Entries

/-- Strictly ascending keys, hence no key twice. -/
def Ascending (es : List (String × α)) : Prop := es.Pairwise (fun a b => a.1 < b.1)

def lookup (key : String) : List (String × α) → Option α
  | [] => none
  | (k, v) :: rest => if key = k then some v else lookup key rest

def insert (key : String) (value : α) : List (String × α) → List (String × α)
  | [] => [(key, value)]
  | (k, v) :: rest =>
    if key = k then (key, value) :: rest
    else if key < k then (key, value) :: (k, v) :: rest
    else (k, v) :: insert key value rest

def erase (key : String) : List (String × α) → List (String × α)
  | [] => []
  | (k, v) :: rest => if key = k then erase key rest else (k, v) :: erase key rest

theorem lookup_insert (key other : String) (value : α) (es : List (String × α)) :
    lookup other (insert key value es) = if other = key then some value else lookup other es := by
  induction es with
  | nil => simp [insert, lookup]
  | cons head rest ih =>
    obtain ⟨k, v⟩ := head
    by_cases same : key = k
    · subst same
      by_cases h : other = key <;> simp [insert, lookup, h]
    · by_cases less : key < k
      · simp [insert, same, less, lookup]
      · simp only [insert, if_neg same, if_neg less, lookup, ih]
        by_cases h : other = k
        · simp [h, Ne.symm (Ne.intro same)]
        · simp [h]

theorem lookup_erase (key other : String) (es : List (String × α)) :
    lookup other (erase key es) = if other = key then none else lookup other es := by
  induction es with
  | nil => simp [erase, lookup]
  | cons head rest ih =>
    obtain ⟨k, v⟩ := head
    by_cases same : key = k
    · subst same
      by_cases h : other = key
      · subst h
        simpa [erase] using ih
      · simp [erase, lookup, h, ih]
    · simp only [erase, if_neg same, lookup, ih]
      by_cases h : other = k
      · simp [h, Ne.symm (Ne.intro same)]
      · simp [h]

theorem mem_insert {key : String} {value : α} {es : List (String × α)} {e : String × α}
    (member : e ∈ insert key value es) : e = (key, value) ∨ e ∈ es := by
  induction es with
  | nil => simpa [insert] using member
  | cons head rest ih =>
    obtain ⟨k, v⟩ := head
    by_cases same : key = k
    · simp only [insert, if_pos same, List.mem_cons] at member
      rcases member with h | h
      · exact Or.inl h
      · exact Or.inr (List.mem_cons_of_mem _ h)
    · by_cases less : key < k
      · simp only [insert, if_neg same, if_pos less, List.mem_cons] at member
        rcases member with h | h | h
        · exact Or.inl h
        · exact Or.inr (by simp [h])
        · exact Or.inr (List.mem_cons_of_mem _ h)
      · simp only [insert, if_neg same, if_neg less, List.mem_cons] at member
        rcases member with h | h
        · exact Or.inr (by simp [h])
        · rcases ih h with fresh | old
          · exact Or.inl fresh
          · exact Or.inr (List.mem_cons_of_mem _ old)

theorem mem_erase {key : String} {es : List (String × α)} {e : String × α}
    (member : e ∈ erase key es) : e ∈ es := by
  induction es with
  | nil => simp [erase] at member
  | cons head rest ih =>
    obtain ⟨k, v⟩ := head
    by_cases same : key = k
    · rw [erase, if_pos same] at member
      exact List.mem_cons_of_mem _ (ih member)
    · rw [erase, if_neg same, List.mem_cons] at member
      rcases member with h | h
      · simp [h]
      · exact List.mem_cons_of_mem _ (ih h)

private theorem key_lt_of_ne {a b : String} (different : ¬ a = b) (notLess : ¬ a < b) : b < a := by
  apply Classical.byContradiction
  intro notGreater
  exact different (String.le_antisymm (String.not_lt.mp notGreater) (String.not_lt.mp notLess))

theorem ascending_insert (key : String) (value : α) {es : List (String × α)}
    (sorted : Ascending es) : Ascending (insert key value es) := by
  induction es with
  | nil => simp [Ascending, insert]
  | cons head rest ih =>
    obtain ⟨k, v⟩ := head
    obtain ⟨below, tail⟩ := List.pairwise_cons.mp sorted
    by_cases same : key = k
    · subst same
      simp only [insert, if_true]
      exact List.pairwise_cons.mpr ⟨below, tail⟩
    · by_cases less : key < k
      · simp only [insert, if_neg same, if_pos less]
        refine List.pairwise_cons.mpr ⟨?_, sorted⟩
        intro e member
        rcases List.mem_cons.mp member with h | h
        · simpa [h] using less
        · exact String.lt_trans less (below e h)
      · simp only [insert, if_neg same, if_neg less]
        refine List.pairwise_cons.mpr ⟨?_, ih tail⟩
        intro e member
        rcases mem_insert member with h | h
        · simpa [h] using key_lt_of_ne same less
        · exact below e h

theorem ascending_erase (key : String) {es : List (String × α)}
    (sorted : Ascending es) : Ascending (erase key es) := by
  induction es with
  | nil => exact List.Pairwise.nil
  | cons head rest ih =>
    obtain ⟨k, v⟩ := head
    obtain ⟨below, tail⟩ := List.pairwise_cons.mp sorted
    by_cases same : key = k
    · rw [erase, if_pos same]
      exact ih tail
    · rw [erase, if_neg same]
      exact List.pairwise_cons.mpr ⟨fun e member => below e (mem_erase member), ih tail⟩

theorem ascending_map {es : List (String × α)} (f : String → α → β) (sorted : Ascending es) :
    Ascending (es.map fun e => (e.1, f e.1 e.2)) :=
  List.pairwise_map.mpr sorted

end Entries

/-- Values by key. -/
structure Table (α : Type u) where
  entries : List (String × α)
  ascending : Entries.Ascending entries

namespace Table

instance [DecidableEq α] : DecidableEq (Table α) := fun a b =>
  if h : a.entries = b.entries then
    isTrue (by cases a; cases b; cases h; rfl)
  else isFalse (fun e => h (by rw [e]))

def empty : Table α := ⟨[], List.Pairwise.nil⟩

instance : Inhabited (Table α) := ⟨empty⟩
instance : EmptyCollection (Table α) := ⟨empty⟩

def get? (t : Table α) (key : String) : Option α := Entries.lookup key t.entries

def insert (t : Table α) (key : String) (value : α) : Table α :=
  ⟨Entries.insert key value t.entries, Entries.ascending_insert key value t.ascending⟩

def erase (t : Table α) (key : String) : Table α :=
  ⟨Entries.erase key t.entries, Entries.ascending_erase key t.ascending⟩

def contains (t : Table α) (key : String) : Bool := (t.get? key).isSome

def keys (t : Table α) : List String := t.entries.map (·.1)

def values (t : Table α) : List α := t.entries.map (·.2)

def size (t : Table α) : Nat := t.entries.length

def isEmpty (t : Table α) : Bool := t.entries.isEmpty

def mapValues (t : Table α) (f : String → α → β) : Table β :=
  ⟨t.entries.map fun e => (e.1, f e.1 e.2), Entries.ascending_map f t.ascending⟩

/-- The entries that pass a test. -/
def filter (t : Table α) (keep : String → α → Bool) : Table α :=
  ⟨t.entries.filter fun e => keep e.1 e.2, t.ascending.filter _⟩

/-- Of entries with one key, the last counts. -/
def ofList (es : List (String × α)) : Table α :=
  es.foldl (fun t e => t.insert e.1 e.2) empty

/-- Replaces what stands at a key, absent or not, by a value computed from it. -/
def update (t : Table α) (key : String) (f : Option α → α) : Table α :=
  t.insert key (f (t.get? key))

@[simp] theorem get?_empty (key : String) : (empty : Table α).get? key = none := rfl

theorem get?_insert (t : Table α) (key other : String) (value : α) :
    (t.insert key value).get? other = if other = key then some value else t.get? other :=
  Entries.lookup_insert key other value t.entries

theorem get?_erase (t : Table α) (key other : String) :
    (t.erase key).get? other = if other = key then none else t.get? other :=
  Entries.lookup_erase key other t.entries

@[simp] theorem get?_insert_self (t : Table α) (key : String) (value : α) :
    (t.insert key value).get? key = some value := by simp [get?_insert]

@[simp] theorem get?_erase_self (t : Table α) (key : String) : (t.erase key).get? key = none := by
  simp [get?_erase]

end Table

end CodeAgent
