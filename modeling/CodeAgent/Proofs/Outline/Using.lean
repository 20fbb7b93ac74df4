import CodeAgent.Outline.Rust
import CodeAgent.Proofs.Text.Cutting
import Mathlib.Data.List.Induction

/-! Use declarations as the paths that they name.
Whatever groups, renamings and wildcards they are written with, the paths are read off a tree one by one;
and what an outline keeps of each of them is the path without its last name. -/
namespace CodeAgent

namespace Text

theorem dropHeads_once {head rest : List Char} (nonempty : head ≠ []) (stops : ¬ head <+: rest) (n : Nat) :
    dropHeads head (n + 1) (head ++ rest) = rest := by
  have some : head.isEmpty = false := by simpa using nonempty
  have front : head.isPrefixOf (head ++ rest) = true :=
    List.isPrefixOf_iff_prefix.mpr (List.prefix_append head rest)
  rw [dropHeads, front, some, Bool.not_false, Bool.and_self, if_pos rfl, List.drop_left]
  cases n with
  | zero => rfl
  | succ n =>
    rw [dropHeads, if_neg]
    simpa [List.isPrefixOf_iff_prefix] using fun more => absurd more stops

/-- Of one tail behind a text that does not end in it, just that one is taken off. -/
theorem trimTails_once {s tail : String} (nonempty : tail ≠ "") (stops : ¬ tail.toList <:+ s.toList) :
    trimTails (s ++ tail) tail = s := by
  have letters : tail.toList ≠ [] := by simpa using nonempty
  obtain ⟨n, long⟩ : ∃ n, (s ++ tail).length = n + 1 := by
    refine Nat.exists_eq_add_one_of_ne_zero fun none => letters ?_
    rw [← String.length_toList, String.toList_append, List.length_append] at none
    exact List.eq_nil_of_length_eq_zero (by omega)
  rw [trimTails, String.toList_append, List.reverse_append, long,
    dropHeads_once (by simpa using letters) (by simpa using stops)]
  simp

end Text

namespace Outline.Rust

open Syntax

/-- A name in a path, which the double colons around it cannot be taken for. -/
structure Segment (s : String) : Prop where
  nonempty : s ≠ ""
  plain : ':' ∉ s.toList

def colons : List String → String
  | [] => ""
  | [s] => s
  | s :: t :: rest => s ++ "::" ++ colons (t :: rest)

variable {front path : List String}

theorem colons_append (first : front ≠ []) (second : path ≠ []) :
    colons (front ++ path) = colons front ++ "::" ++ colons path := by
  induction front with
  | nil => exact absurd rfl first
  | cons s front ih =>
    cases front with
    | nil =>
      obtain ⟨t, path, rfl⟩ := List.exists_cons_of_ne_nil second
      rfl
    | cons t front =>
      have inner := ih (List.cons_ne_nil _ _)
      rw [List.cons_append] at inner
      rw [List.cons_append, List.cons_append, colons, colons, inner]
      simp [String.append_assoc]

theorem colons_eq_empty (named : ∀ s ∈ path, Segment s) : colons path = "" ↔ path = [] := by
  refine ⟨fun none => ?_, fun none => by rw [none]; rfl⟩
  cases path with
  | nil => rfl
  | cons s path =>
    refine absurd ?_ (named s List.mem_cons_self).nonempty
    cases path with
    | nil => exact none
    | cons t path =>
      rw [colons, String.append_assoc] at none
      exact (String.append_eq_empty_iff.mp none).1

theorem joined_colons (above : ∀ s ∈ front, Segment s) (named : ∀ s ∈ path, Segment s) :
    joined (colons front) (colons path) = colons (front ++ path) := by
  rw [joined]
  simp only [String.isEmpty_iff, colons_eq_empty above, colons_eq_empty named]
  split
  · rename_i none
    rw [none, List.nil_append]
  · rename_i first
    split
    · rename_i none
      rw [none, List.append_nil]
    · rename_i second
      exact (colons_append first second).symm

theorem withoutLast_colons {last : String} (some : path ≠ []) (plain : Segment last) :
    withoutLast (colons (path ++ [last])) = colons path := by
  have cut := @Text.cut_behind [':', ':'] last.toList.reverse (colons path).toList.reverse ':' rfl
    (by simpa using plain.plain)
  have text : (colons (path ++ [last])).toList.reverse =
      last.toList.reverse ++ ([':', ':'] ++ (colons path).toList.reverse) := by
    rw [colons_append some (List.cons_ne_nil last [])]
    simp [colons]
  have split : Text.splitLast? (colons (path ++ [last])) "::" = .some (colons path, last) := by
    have pattern : "::".toList.reverse = [':', ':'] := rfl
    rw [Text.splitLast?, pattern, text, cut]
    simp
  rw [withoutLast, split]
  rfl

theorem getLast_colons {last : String} (plain : Segment last) :
    ∃ front c, (colons (path ++ [last])).toList = front ++ [c] ∧ c ≠ ':' := by
  obtain ⟨cs, c, shape⟩ : ∃ cs c, last.toList = cs ++ [c] := by
    cases shape : last.toList using List.reverseRecOn with
    | nil => exact absurd (String.toList_eq_nil_iff.mp shape) plain.nonempty
    | append_singleton cs c => exact ⟨cs, c, rfl⟩
  have other : c ≠ ':' := by
    rintro rfl
    exact plain.plain (by simp [shape])
  by_cases none : path = []
  · exact ⟨cs, c, by rw [none, ← shape]; rfl, other⟩
  · refine ⟨(colons path).toList ++ "::".toList ++ cs, c, ?_, other⟩
    rw [colons_append none (List.cons_ne_nil last [])]
    simp [colons, shape]

theorem withoutLast_plain {s : String} (plain : ':' ∉ s.toList) : withoutLast s = s := by
  have none : Text.splitLast? s "::" = none := by
    have pattern : "::".toList.reverse = [':', ':'] := rfl
    rw [Text.splitLast?, pattern, Text.cut_none rfl (by simpa using plain)]
    rfl
  rw [withoutLast, none]
  rfl

/-- The text of a wildcard leaves the path in front of it. -/
theorem trimmed_wildcard (named : ∀ s ∈ path, Segment s) :
    Text.trimTails (Text.trimTails (colons (path ++ ["*"])) "*") "::" = colons path := by
  cases path using List.reverseRecOn with
  | nil => decide +kernel
  | append_singleton path last =>
    obtain ⟨front, c, text, other⟩ := @getLast_colons path last (named last (by simp))
    rw [colons_append (by simp) (List.cons_ne_nil _ _), colons, Text.trimTails_once (by decide),
      Text.trimTails_once (by decide)]
    · rw [text]
      rintro ⟨more, same⟩
      have ends : more ++ [':'] ++ [':'] = front ++ [c] := by simpa using same
      exact other (List.cons.inj (List.append_inj' ends rfl).2).1.symm
    · rintro ⟨more, same⟩
      have ends : more ++ ['*'] = (colons (path ++ [last])).toList ++ [':'] ++ [':'] := by
        simpa using same
      exact absurd (List.append_inj' ends rfl).2 (by decide)

variable (source : Source)

/-- The paths that use trees name, behind the path around them. In a list a single name belongs to the
path around the list, as the word for that path itself does. -/
inductive Uses : List String → List Node → List (List String) → Prop where
  | nil {front : List String} : Uses front [] []
  | remark {front : List String} {n : Node} {ns : List Node} {ls : List (List String)}
      (kind : n.kind = .comment) (rest : Uses front ns ls) : Uses front (n :: ns) ls
  | single {front : List String} {n : Node} {ns : List Node} {ls : List (List String)}
      (plain : isPlain source n = true) (named : Segment (source.text n)) (rest : Uses front ns ls) :
      Uses front (n :: ns) ((front ++ [source.text n]) :: ls)
  | item {front path : List String} {n : Node} {ns : List Node} {ls : List (List String)}
      (kind : n.kind = .scopedIdentifier) (named : ∀ s ∈ path, Segment s)
      (text : partText source n .path = colons path) (rest : Uses front ns ls) :
      Uses front (n :: ns) ((front ++ path ++ [partText source n .name]) :: ls)
  | renamed {front path : List String} {last : String} {n whole : Node} {ns : List Node}
      {ls : List (List String)} (kind : n.kind = .useAs) (named : ∀ s ∈ path ++ [last], Segment s)
      (original : n.child? .path = some whole) (text : source.text whole = colons (path ++ [last]))
      (rest : Uses front ns ls) : Uses front (n :: ns) ((front ++ path ++ [last]) :: ls)
  | wildcard {front path : List String} {n : Node} {ns : List Node} {ls : List (List String)}
      (kind : n.kind = .useWildcard) (named : ∀ s ∈ path, Segment s)
      (text : source.text n = colons (path ++ ["*"])) (rest : Uses front ns ls) :
      Uses front (n :: ns) ((front ++ path ++ ["*"]) :: ls)
  | list {front : List String} {n : Node} {ns : List Node} {inner ls : List (List String)}
      (kind : n.kind = .useList) (members : Uses front n.children inner) (rest : Uses front ns ls) :
      Uses front (n :: ns) (inner ++ ls)
  | group {front path : List String} {n list : Node} {ns : List Node} {inner ls : List (List String)}
      (kind : n.kind = .scopedUseList) (named : ∀ s ∈ path, Segment s)
      (text : partText source n .path = colons path) (braces : n.child? .list = some list)
      (inside : list.kind = .useList) (members : Uses (front ++ path) list.children inner)
      (rest : Uses front ns ls) : Uses front (n :: ns) (inner ++ ls)

section

variable {source} {line : Nat} {P : String → Prop}

theorem isPlain_of_kind {n : Node} (other : n.kind ≠ .identifier ∧ n.kind ≠ .pathRoot) :
    isPlain source n = false := by
  simp [isPlain, other]

theorem used_list {n : Node} (kind : n.kind = .useList) (around : String) :
    (∃ i ∈ used source line around n, P i.source) ↔
      (∃ i ∈ usedItems source line around n.children, P i.source) ∨
        (∃ c ∈ n.children, isPlain source c = true) ∧ P around := by
  cases n with
  | mk k role span children =>
    obtain rfl : k = .useList := kind
    have names : (((children.filter (isPlain source)).map source.text).isEmpty = true) ↔
        ¬ ∃ c ∈ children, isPlain source c = true := by simp
    change (∃ i ∈ _ ++ _, _) ↔ (∃ i ∈ usedItems source line around children, P i.source) ∨
      (∃ c ∈ children, isPlain source c = true) ∧ P around
    by_cases some : ∃ c ∈ children, isPlain source c = true
    · rw [if_neg (by rw [names]; exact not_not.mpr some)]
      simp only [List.mem_append, List.mem_singleton, or_and_right, exists_or, exists_eq_left,
        some, true_and]
      rfl
    · rw [if_pos (names.mpr some)]
      simp only [List.append_nil, some, false_and, or_false]

theorem usedLists_eq {list : Node} {ns : List Node} (around : String)
    (found : ns.find? (·.role = some .list) = some list) :
    usedLists source line around ns = used source line around list := by
  induction ns with
  | nil => cases found
  | cons n ns ih =>
    rw [List.find?_cons] at found
    rw [usedLists]
    split at found
    · rename_i here
      rw [if_pos (by simpa using here), Option.some.inj found]
    · rename_i later
      rw [if_neg (by simpa using later), ih found]

theorem used_group {n list : Node} (kind : n.kind = .scopedUseList) (braces : n.child? .list = some list)
    (around : String) : used source line around n =
      used source line (joined around (partText source n .path)) list := by
  cases n with
  | mk k role span children =>
    obtain rfl : k = .scopedUseList := kind
    exact usedLists_eq _ braces

/-- The first of the items, unless it is a single name, beside all others. -/
theorem usedItems_cons {n : Node} (other : isPlain source n = false) (around : String) (ns : List Node) :
    ((∃ i ∈ usedItems source line around (n :: ns), P i.source) ∨
      (∃ c ∈ n :: ns, isPlain source c = true) ∧ P around) ↔
    (∃ i ∈ used source line around n, P i.source) ∨
      ((∃ i ∈ usedItems source line around ns, P i.source) ∨
        (∃ c ∈ ns, isPlain source c = true) ∧ P around) := by
  rw [usedItems, other, if_neg Bool.false_ne_true]
  simp only [List.mem_append, List.mem_cons, or_and_right, exists_or, exists_eq_left, other,
    Bool.false_eq_true, false_or, or_assoc]

theorem used_item {n : Node} (kind : n.kind = .scopedIdentifier) (around : String) :
    used source line around n =
      [importOf line [partText source n .name] (joined around (partText source n .path))] := by
  cases n with
  | mk k role span children =>
    obtain rfl : k = .scopedIdentifier := kind
    rfl

theorem used_renamed {n whole : Node} (kind : n.kind = .useAs)
    (original : n.child? .path = some whole) (around : String) :
    used source line around n =
      [importOf line [partText source n .otherName] (withoutLast (joined around (source.text whole)))] := by
  cases n with
  | mk k role span children =>
    obtain rfl : k = .useAs := kind
    rw [used]
    simp only [original]
    rfl

theorem used_wildcard {n : Node} (kind : n.kind = .useWildcard) (around : String) :
    used source line around n = [importOf line ["*"]
      (joined around (Text.trimTails (Text.trimTails (source.text n) "*") "::"))] := by
  cases n with
  | mk k role span children =>
    obtain rfl : k = .useWildcard := kind
    rfl

/-- What is kept of the paths that use trees name: each without its last name. A single name by itself
keeps a path of one name or of none; `idle` is that neither counts. -/
theorem usedItems_iff (idle : ∀ s, ':' ∉ s.toList → ¬ P s) {front : List String} {ns : List Node}
    {ls : List (List String)} (uses : Uses source front ns ls) (above : ∀ s ∈ front, Segment s) :
    ((∃ i ∈ usedItems source line (colons front) ns, P i.source) ∨
      (∃ c ∈ ns, isPlain source c = true) ∧ P (colons front)) ↔ ∃ l ∈ ls, P (colons l.dropLast) := by
  induction uses with
  | nil => simp [usedItems]
  | @remark front n ns ls kind rest ih =>
    have other : isPlain source n = false := by simp [isPlain, kind]
    have silent : used source line (colons front) n = [] := by
      cases n with
      | mk k role span children =>
        obtain rfl : k = .comment := kind
        rw [used] <;> simp
    rw [usedItems_cons other, silent, ih above]
    simp
  | @single front n ns ls plain named rest ih =>
    rw [usedItems, if_pos plain, List.nil_append]
    simp only [List.mem_cons, or_and_right, exists_or, exists_eq_left, plain, List.dropLast_concat,
      true_or, true_and]
    rw [← ih above]
    constructor
    · rintro (kept | here)
      · exact Or.inr (Or.inl kept)
      · exact Or.inl here
    · rintro (here | kept | ⟨-, here⟩)
      · exact Or.inr here
      · exact Or.inl kept
      · exact Or.inr here
  | @item front path n ns ls kind named text rest ih =>
    rw [usedItems_cons (isPlain_of_kind (by simp [kind])), used_item kind, ih above, text,
      joined_colons above named]
    simp [importOf]
  | @renamed front path last n whole ns ls kind named original text rest ih =>
    rw [usedItems_cons (isPlain_of_kind (by simp [kind])), used_renamed kind original, ih above, text,
      joined_colons above named, ← List.append_assoc]
    have kept : P (withoutLast (colons (front ++ path ++ [last]))) ↔ P (colons (front ++ path)) := by
      have plain : Segment last := named last (by simp)
      by_cases none : front ++ path = []
      · rw [none, List.nil_append]
        change P (withoutLast last) ↔ P ""
        rw [withoutLast_plain plain.plain]
        exact iff_of_false (idle _ plain.plain) (idle _ (by simp))
      · rw [withoutLast_colons none plain]
    simp [importOf, kept, -List.append_assoc]
  | @wildcard front path n ns ls kind named text rest ih =>
    rw [usedItems_cons (isPlain_of_kind (by simp [kind])), used_wildcard kind, ih above, text,
      trimmed_wildcard named, joined_colons above named]
    simp [importOf]
  | @list front n ns inner ls kind members rest memberIH ih =>
    rw [usedItems_cons (isPlain_of_kind (by simp [kind])), used_list kind, memberIH above, ih above]
    simp [or_and_right, exists_or]
  | @group front path n list ns inner ls kind named text braces inside members rest memberIH ih =>
    have whole : ∀ s ∈ front ++ path, Segment s := fun s member =>
      (List.mem_append.mp member).elim (above s) (named s)
    rw [usedItems_cons (isPlain_of_kind (by simp [kind])), used_group kind braces, text,
      joined_colons above named, used_list inside, memberIH whole, ih above]
    simp [or_and_right, exists_or]

/-- What is kept of the paths that a use declaration names. -/
theorem used_iff (idle : ∀ s, ':' ∉ s.toList → ¬ P s) {n : Node} {ls : List (List String)}
    (uses : Uses source [] [n] ls) :
    (∃ i ∈ used source line "" n, P i.source) ↔ ∃ l ∈ ls, P (colons l.dropLast) := by
  have all := @usedItems_iff source line P idle [] [n] ls uses (by simp)
  cases plain : isPlain source n with
  | false =>
    rw [usedItems_cons plain] at all
    simpa [usedItems, colons] using all
  | true =>
    -- a name by itself is kept whole
    have whole : used source line "" n = [importOf line [source.text n] (source.text n)] := by
      cases n with
      | mk k role span children =>
        have single : k = .identifier ∨ k = .pathRoot := by
          simp only [isPlain, Node.kind, Bool.or_eq_true, Bool.and_eq_true, decide_eq_true_eq] at plain
          exact plain.imp of_decide_eq_true fun self => of_decide_eq_true self.1
        rcases single with rfl | rfl <;> (rw [used]; rfl)
    rw [whole]
    cases uses with
    | single _ named rest =>
      cases rest
      simpa [importOf] using iff_of_false (idle _ named.plain) (idle (colons []) (by simp [colons]))
    | remark kind => simp [isPlain, kind] at plain
    | item kind => simp [isPlain, kind] at plain
    | renamed kind => simp [isPlain, kind] at plain
    | wildcard kind => simp [isPlain, kind] at plain
    | list kind => simp [isPlain, kind] at plain
    | group kind => simp [isPlain, kind] at plain

end

end Outline.Rust

end CodeAgent
