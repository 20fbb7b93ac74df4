import CodeAgent.Index.Build
import CodeAgent.Proofs.Store.Tables
import Mathlib.Data.Set.Card

/-! The symbol index, read as the sites that it lists.
A site is listed under a name once, in the order of paths and lines, and exactly when the outline of its
file defines the name there; whatever else is inserted keeps the lists in that shape. -/
namespace CodeAgent

namespace Site

/-- By path, then by line. -/
def Precedes (a b : Site) : Prop := a.path < b.path ∨ a.path = b.path ∧ a.line ≤ b.line

theorem before_iff {a b : Site} : before a b = true ↔ Precedes a b := by
  simp [before, Precedes]

theorem Precedes.trans {a b c : Site} (first : Precedes a b) (second : Precedes b c) : Precedes a c := by
  rcases first with less | ⟨same, less⟩ <;> rcases second with more | ⟨same', more⟩
  · exact Or.inl (String.lt_trans less more)
  · exact Or.inl (same' ▸ less)
  · exact Or.inl (same ▸ more)
  · exact Or.inr ⟨same.trans same', Nat.le_trans less more⟩

theorem precedes_total (a b : Site) : Precedes a b ∨ Precedes b a := by
  by_cases less : a.path < b.path
  · exact Or.inl (Or.inl less)
  by_cases more : b.path < a.path
  · exact Or.inr (Or.inl more)
  have same : a.path = b.path := String.le_antisymm (String.not_lt.mp more) (String.not_lt.mp less)
  rcases Nat.le_total a.line b.line with above | below
  · exact Or.inl (Or.inr ⟨same, above⟩)
  · exact Or.inr (Or.inr ⟨same.symm, below⟩)

end Site

namespace SymbolIndex

variable {i : SymbolIndex} {name key : String} {site new : Site} {sites : List (String × Site)}

/- Lists that grow -/

theorem lookup_insert : (i.insert key new).lookup name =
    if name = key then if new ∈ i.lookup name then i.lookup name else i.lookup name ++ [new]
    else i.lookup name := by
  rw [lookup, insert, Table.get?_update]
  split
  · rename_i same
    rw [same, Option.getD_some, lookup]
  · rfl

theorem mem_lookup_insert :
    site ∈ (i.insert key new).lookup name ↔ site ∈ i.lookup name ∨ (name, site) = (key, new) := by
  rw [lookup_insert, Prod.mk.injEq]
  split
  · rename_i same
    split
    · rename_i before
      exact ⟨Or.inl, fun either => either.elim id fun here => here.2 ▸ before⟩
    · rw [List.mem_append, List.mem_singleton, and_iff_right same]
  · rename_i other
    exact (or_iff_left fun both => other both.1).symm

theorem mem_names_insert : name ∈ (i.insert key new).names ↔ name ∈ i.names ∨ name = key := by
  rw [names, names, Table.mem_keys, Table.mem_keys, insert, Table.get?_update]
  split
  · rename_i same
    exact ⟨fun _ => Or.inr same, fun _ => rfl⟩
  · rename_i other
    exact (or_iff_left other).symm

/-- A site is listed once under a name, and no name is without a site. -/
structure Listed (i : SymbolIndex) : Prop where
  once (name : String) : (i.lookup name).Nodup
  sited (name : String) : name ∈ i.names ↔ i.lookup name ≠ []

theorem listed_empty : empty.Listed where
  once name := List.nodup_nil
  sited name := by simp [names, Table.keys, empty, Table.empty, lookup, Table.get?, Entries.lookup]

theorem Listed.insert (listed : i.Listed) (key : String) (new : Site) : (i.insert key new).Listed where
  once name := by
    rw [lookup_insert]
    split
    · split
      · exact listed.once name
      · rename_i fresh
        refine List.nodup_append.mpr ⟨listed.once name, List.nodup_singleton new, ?_⟩
        rintro s inside t here rfl
        exact fresh (List.mem_singleton.mp here ▸ inside)
    · exact listed.once name
  sited name := by
    rw [mem_names_insert, listed.sited, lookup_insert]
    split
    · rename_i same
      have some : i.lookup name ≠ [] ∨ name = key := Or.inr same
      split
      · rename_i inside
        exact iff_of_true some (List.ne_nil_of_mem inside)
      · exact iff_of_true some (by simp)
    · rename_i other
      exact or_iff_left other

/-- Inserts sites one after the other. -/
def inserted (i : SymbolIndex) (sites : List (String × Site)) : SymbolIndex :=
  sites.foldl (fun i s => i.insert s.1 s.2) i

theorem mem_lookup_inserted :
    site ∈ (i.inserted sites).lookup name ↔ site ∈ i.lookup name ∨ (name, site) ∈ sites := by
  induction sites generalizing i with
  | nil => simp [inserted]
  | cons s sites ih =>
    rw [inserted, List.foldl_cons, ← inserted, ih, mem_lookup_insert, List.mem_cons, or_assoc]

theorem Listed.inserted (listed : i.Listed) (sites : List (String × Site)) : (i.inserted sites).Listed := by
  induction sites generalizing i with
  | nil => exact listed
  | cons s sites ih => exact ih (listed.insert s.1 s.2)

/- Lists that are sorted -/

theorem lookup_sort : i.sort.lookup name = (i.lookup name).mergeSort Site.before := by
  rw [lookup, sort, Table.get?_mapValues, lookup]
  cases i.sites.get? name with
  | none => exact List.mergeSort_nil.symm
  | some sites => rfl

theorem mem_lookup_sort : site ∈ i.sort.lookup name ↔ site ∈ i.lookup name := by
  rw [lookup_sort, List.mem_mergeSort]

theorem names_sort : i.sort.names = i.names := by
  simp [names, sort, Table.keys, Table.mapValues]

theorem Listed.sort (listed : i.Listed) : i.sort.Listed where
  once name := by
    rw [lookup_sort]
    exact (List.mergeSort_perm _ _).nodup_iff.mpr (listed.once name)
  sited name := by
    rw [names_sort, listed.sited, lookup_sort, ne_eq, ne_eq, ← List.length_eq_zero_iff,
      ← List.length_eq_zero_iff, List.length_mergeSort]

theorem sorted_sort (name : String) : (i.sort.lookup name).Pairwise Site.Precedes := by
  rw [lookup_sort]
  have sorted : ((i.lookup name).mergeSort Site.before).Pairwise (Site.before · ·) := by
    refine List.pairwise_mergeSort (fun a b c less more => ?_) (fun a b => ?_) (i.lookup name)
    · exact Site.before_iff.mpr ((Site.before_iff.mp less).trans (Site.before_iff.mp more))
    · rw [Bool.or_eq_true, Site.before_iff, Site.before_iff]
      exact Site.precedes_total a b
  exact sorted.imp Site.before_iff.mp

/- Counting -/

/-- Every name with each of its sites. -/
def pairs (i : SymbolIndex) : List (String × Site) := i.sites.entries.flatMap fun e => e.2.map (e.1, ·)

theorem mem_pairs : (name, site) ∈ i.pairs ↔ site ∈ i.lookup name := by
  simp only [pairs, List.mem_flatMap, List.mem_map, Prod.mk.injEq, lookup]
  constructor
  · rintro ⟨⟨_, sites⟩, entry, _, inside, rfl, rfl⟩
    rw [Table.get?_eq_some.mpr entry]
    exact inside
  · intro inside
    cases held : i.sites.get? name with
    | none => rw [held] at inside; cases inside
    | some sites =>
      rw [held] at inside
      exact ⟨(name, sites), Table.get?_eq_some.mp held, site, inside, rfl, rfl⟩

theorem length_pairs : i.pairs.length = i.siteCount := by
  rw [siteCount, ← List.sum_eq_foldl]
  simp [pairs, Table.values, List.length_flatMap, Function.comp_def]

theorem Listed.nodup_pairs (listed : i.Listed) : i.pairs.Nodup := by
  refine Table.nodup_flatMap Prod.fst (by simp) fun e entry => ?_
  have single := listed.once e.1
  rw [lookup, Table.get?_eq_some.mpr entry] at single
  exact single.map fun _ _ same => (Prod.mk.inj same).2

theorem Listed.siteCount_eq (listed : i.Listed) :
    i.siteCount = {p : String × Site | p.2 ∈ i.lookup p.1}.ncard := by
  have members : {p : String × Site | p.2 ∈ i.lookup p.1} = ↑i.pairs.toFinset := by
    ext ⟨name, site⟩
    simp [mem_pairs]
  rw [members, Set.ncard_coe_finset, List.toFinset_card_of_nodup listed.nodup_pairs, length_pairs]

/-- Lists without repetition, none of them empty, each by path and line, and counted as what they hold. -/
structure Ordered (i : SymbolIndex) : Prop extends i.Listed where
  sorted (name : String) : (i.lookup name).Pairwise Site.Precedes
  counted : i.siteCount = {p : String × Site | p.2 ∈ i.lookup p.1}.ncard

theorem Listed.ordered_sort (listed : i.Listed) : i.sort.Ordered where
  toListed := listed.sort
  sorted := sorted_sort
  counted := listed.sort.siteCount_eq

end SymbolIndex

namespace Index

variable {path name : String} {o : Outline} {site : Site} {outlines : Table Outline}

/-- A function, class, interface or type name of the outline, at its line. -/
inductive Item (o : Outline) : String → Nat → SymbolKind → Prop where
  | function {f : Function} (inside : f ∈ o.functions) : Item o f.name f.lineStart .function
  | classType {c : Class} (inside : c ∈ o.classes) : Item o c.name c.lineStart .classType
  | interface {i : Interface} (inside : i ∈ o.interfaces) : Item o i.name i.lineStart .interface
  | type {t : TypeName} (inside : t ∈ o.types) : Item o t.name t.line .type

/-- The name is exported at the line, not by default, and stands for no item of the outline. -/
structure Shown (o : Outline) (name : String) (line : Nat) : Prop where
  exported : ∃ e ∈ o.exports, e.isDefault = false ∧ e.name = name ∧ e.line = line
  bare (line : Nat) (kind : SymbolKind) : ¬ Item o name line kind

/-- The outline of the site's file has an item of the name there, or only exports it there. -/
def Locates (outlines : Table Outline) (name : String) (site : Site) : Prop :=
  ∃ o, outlines.get? site.path = some o ∧
    (Item o name site.line site.kind ∨ site.kind = .value ∧ Shown o name site.line)

theorem mem_definitions :
    (name, site) ∈ definitions path o ↔ site.path = path ∧ Item o name site.line site.kind := by
  simp only [definitions, List.mem_append, List.mem_map, Prod.mk.injEq]
  constructor
  · rintro (((⟨f, inside, rfl, rfl⟩ | ⟨c, inside, rfl, rfl⟩) | ⟨i, inside, rfl, rfl⟩) |
      ⟨t, inside, rfl, rfl⟩)
    · exact ⟨rfl, .function inside⟩
    · exact ⟨rfl, .classType inside⟩
    · exact ⟨rfl, .interface inside⟩
    · exact ⟨rfl, .type inside⟩
  · obtain ⟨place, line, kind⟩ := site
    rintro ⟨rfl, item⟩
    cases item with
    | function inside => exact Or.inl (Or.inl (Or.inl ⟨_, inside, rfl, rfl⟩))
    | classType inside => exact Or.inl (Or.inl (Or.inr ⟨_, inside, rfl, rfl⟩))
    | interface inside => exact Or.inl (Or.inr ⟨_, inside, rfl, rfl⟩)
    | type inside => exact Or.inr ⟨_, inside, rfl, rfl⟩

theorem not_defined_iff :
    name ∉ (definitions path o).map (·.1) ↔ ∀ line kind, ¬ Item o name line kind := by
  constructor
  · intro absent line kind item
    exact absent (List.mem_map.mpr ⟨(name, ⟨path, line, kind⟩), mem_definitions.mpr ⟨rfl, item⟩, rfl⟩)
  · intro bare defined
    obtain ⟨⟨_, site⟩, inside, rfl⟩ := List.mem_map.mp defined
    exact bare _ _ (mem_definitions.mp inside).2

theorem mem_exportedNames : (name, site) ∈ exportedNames path o ↔
    site.path = path ∧ site.kind = .value ∧ Shown o name site.line := by
  rw [exportedNames, List.mem_map]
  simp only [List.mem_filter, Bool.and_eq_true, Bool.not_eq_true', decide_eq_true_eq, Prod.mk.injEq]
  constructor
  · rintro ⟨e, ⟨inside, named, fresh⟩, rfl, rfl⟩
    exact ⟨rfl, rfl, ⟨e, inside, named, rfl, rfl⟩, not_defined_iff.mp fresh⟩
  · obtain ⟨place, line, kind⟩ := site
    rintro ⟨rfl, rfl, ⟨e, inside, named, rfl, rfl⟩, bare⟩
    exact ⟨e, ⟨inside, named, not_defined_iff.mpr bare⟩, rfl, rfl⟩

/-- All that the outlines define, file by file. -/
def allSites (outlines : Table Outline) : List (String × Site) :=
  outlines.entries.flatMap fun e => definitions e.1 e.2 ++ exportedNames e.1 e.2

theorem mem_allSites : (name, site) ∈ allSites outlines ↔ Locates outlines name site := by
  simp only [allSites, List.mem_flatMap, List.mem_append, mem_definitions, mem_exportedNames,
    ← and_or_left, Locates, Table.get?_eq_some]
  constructor
  · rintro ⟨⟨_, o⟩, entry, rfl, held⟩
    exact ⟨o, entry, held⟩
  · rintro ⟨o, entry, held⟩
    exact ⟨(site.path, o), entry, rfl, held⟩

theorem symbols_eq : symbols outlines = (SymbolIndex.empty.inserted (allSites outlines)).sort := rfl

theorem mem_lookup_symbols : site ∈ (symbols outlines).lookup name ↔ Locates outlines name site := by
  rw [symbols_eq, SymbolIndex.mem_lookup_sort, SymbolIndex.mem_lookup_inserted, mem_allSites]
  exact or_iff_right List.not_mem_nil

theorem ordered_symbols (outlines : Table Outline) : (symbols outlines).Ordered :=
  (SymbolIndex.listed_empty.inserted (allSites outlines)).ordered_sort

/-- The index lists just the sites that the outlines define, each once, by path and line, under names that
have one, and counts them; and it keeps lists of that shape, with the sites that are inserted, under any
insertions before it is sorted again. -/
theorem symbols_exact (outlines : Table Outline) :
    (∀ name site, site ∈ (symbols outlines).lookup name ↔ Locates outlines name site) ∧
    (symbols outlines).Ordered ∧
    (symbols outlines).siteCount = {p : String × Site | Locates outlines p.1 p.2}.ncard ∧
    ∀ (i : SymbolIndex) (sites : List (String × Site)), i.Listed →
      (i.inserted sites).sort.Ordered ∧
      ∀ name site, site ∈ (i.inserted sites).sort.lookup name ↔
        site ∈ i.lookup name ∨ (name, site) ∈ sites := by
  refine ⟨fun name site => mem_lookup_symbols, ordered_symbols outlines, ?_, fun i sites listed => ?_⟩
  · rw [(ordered_symbols outlines).counted]
    simp only [mem_lookup_symbols]
  · refine ⟨(listed.inserted sites).ordered_sort, fun name site => ?_⟩
    rw [SymbolIndex.mem_lookup_sort, SymbolIndex.mem_lookup_inserted]

/-- One name with a site. -/
def single : SymbolIndex := .insert .empty "g" ⟨"b.ts", 1, .classType⟩

/-- Sites of another name in two files, out of order and one of them twice. -/
def scattered : List (String × Site) :=
  [("f", ⟨"b.ts", 2, .function⟩), ("f", ⟨"a.ts", 9, .function⟩), ("f", ⟨"b.ts", 2, .function⟩)]

theorem symbols_exact_scattered :
    single.Listed ∧ (single.inserted scattered).sort.Ordered ∧
      ∀ name site, site ∈ (single.inserted scattered).sort.lookup name ↔
        site ∈ single.lookup name ∨ (name, site) ∈ scattered := by
  have listed : single.Listed := SymbolIndex.listed_empty.insert "g" ⟨"b.ts", 1, .classType⟩
  exact ⟨listed, (symbols_exact .empty).2.2.2 single scattered listed⟩

end Index

end CodeAgent
