import CodeAgent.Proofs.Path.Canonical

/-! Paths cannot escape.
What a given path stands for is said here by its segments alone: a step up cancels the name in front of
it, and one that finds no name in front of it leaves the root. Resolving a path agrees with that, so
every spelling of a place below the root has one path and one name within the project. -/
namespace CodeAgent.Path

def counts (s : String) : Bool := s ≠ "" && s ≠ "."

-- Empty segments and dots do not count.
def segments (path : String) : List String := (Text.splitOn '/' path).filter counts

def Part.ofSegment (s : String) : Part := if s = ".." then .up else .name s

/-- A step up takes back the name in front of it. -/
inductive Cancels : List String → List String → Prop where
  | refl (l : List String) : Cancels l l
  | step {pre post names : List String} {n : String} (name : n ≠ "..")
      (rest : Cancels (pre ++ post) names) : Cancels (pre ++ n :: ".." :: post) names

/-- Some beginning goes up more often than down. -/
def Climbs (l : List String) : Prop :=
  ∃ pre, pre <+: l ∧ pre.countP (· ≠ "..") < pre.count ".."

/-- What is left of a path behind the root: of an absolute path what follows the root's segments, and
all of a relative one. -/
structure Behind (root path : String) (rest : List String) : Prop where
  absolute : isAbsolute path.toList = true → segments path = segments root ++ rest
  relative : isAbsolute path.toList = false → rest = segments path

/-- The names below the root that a given path stands for. -/
def StandsFor (root given : String) (names : List String) : Prop :=
  Text.trim given ≠ "" ∧ ∃ rest, Behind root (Text.trim given) rest ∧ Cancels rest names ∧ ".." ∉ names

/-- A given path that stands for nothing below the root. -/
def Strays (root given : String) : Prop :=
  Text.trim given = "" ∨
    (isAbsolute (Text.trim given).toList = true ∧ ¬ segments root <+: segments (Text.trim given)) ∨
    ∃ rest, Behind root (Text.trim given) rest ∧ Climbs rest

/- Segments and parts -/

theorem ofSegment_of_ne {s : String} (name : s ≠ "..") : Part.ofSegment s = .name s := if_neg name

theorem ofSegment_up : Part.ofSegment ".." = .up := rfl

theorem map_ofSegment_inj {l l' : List String} :
    l.map Part.ofSegment = l'.map Part.ofSegment ↔ l = l' := by
  apply List.map_inj_right
  intro s t same
  unfold Part.ofSegment at same
  split at same
  · split at same
    · simp_all
    · cases same
  · split at same
    · cases same
    · exact Part.name.inj same

theorem bodyParts_inner (ps : List (List Char)) :
    bodyParts false ps = ((ps.map String.ofList).filter counts).map Part.ofSegment := by
  induction ps with
  | nil => rfl
  | cons p ps ih =>
    have same (s : String) : String.ofList p = s ↔ p = s.toList := by
      rw [← String.toList_inj, String.toList_ofList]
    have kept : counts (String.ofList p) = true ↔ p ≠ [] ∧ p ≠ ['.'] := by
      simp [counts, same]
    rw [bodyParts, List.map_cons, List.filter_cons, ih]
    by_cases idle : p = [] ∨ p = ['.']
    · have dropped : ¬ counts (String.ofList p) = true := by
        rw [kept]
        rintro ⟨letters, noDot⟩
        rcases idle with empty | dot
        · exact letters empty
        · exact noDot dot
      rw [if_neg dropped]
      rcases idle with rfl | rfl <;> rfl
    · obtain ⟨letters, noDot⟩ := not_or.mp idle
      rw [if_pos (kept.mpr ⟨letters, noDot⟩), if_neg letters, if_neg noDot, List.map_cons,
        Part.ofSegment]
      have up : String.ofList p = ".." ↔ p = ['.', '.'] := same ".."
      by_cases above : p = ['.', '.']
      · rw [if_pos above, if_pos (up.mpr above)]
      · rw [if_neg above, if_neg (mt up.mp above)]

theorem bodyParts_front (ps : List (List Char)) :
    bodyParts true ps = bodyParts false ps ∨ bodyParts true ps = .here :: bodyParts false ps := by
  cases ps with
  | nil => exact Or.inl rfl
  | cons p ps =>
    rw [bodyParts, bodyParts]
    split
    · exact Or.inl rfl
    · split
      · exact Or.inr rfl
      · exact Or.inl rfl

theorem parts_of_absolute {path : String} (absolute : isAbsolute path.toList = true) :
    parts path = .root :: (segments path).map Part.ofSegment := by
  have read : parts path = .root :: bodyParts false (Text.pieces '/' path.toList) := if_pos absolute
  rw [read, bodyParts_inner]
  rfl

theorem walk_of_relative {path : String} (relative : isAbsolute path.toList = false)
    (done : List String) :
    walk done (parts path) = walk done ((segments path).map Part.ofSegment) := by
  have read : parts path = bodyParts true (Text.pieces '/' path.toList) :=
    if_neg (by simp [relative])
  have inner : bodyParts false (Text.pieces '/' path.toList) =
      (segments path).map Part.ofSegment := bodyParts_inner _
  rw [read, ← inner]
  rcases bodyParts_front (Text.pieces '/' path.toList) with same | dot
  · rw [same]
  · rw [dot]
    rfl

theorem not_root_of_relative {path : String} (relative : isAbsolute path.toList = false) :
    .root ∉ parts path := by
  have read : parts path = bodyParts true (Text.pieces '/' path.toList) :=
    if_neg (by simp [relative])
  have inner : .root ∉ bodyParts false (Text.pieces '/' path.toList) := by
    rw [bodyParts_inner]
    intro member
    obtain ⟨s, _, top⟩ := List.mem_map.mp member
    unfold Part.ofSegment at top
    split at top <;> cases top
  rw [read]
  rcases bodyParts_front (Text.pieces '/' path.toList) with same | dot
  · rwa [same]
  · rw [dot]
    simpa using inner

theorem segments_absolute {dirs : List String} (named : ∀ n ∈ dirs, Named n) :
    segments (absolute dirs) = dirs ∧ dirs.map Part.name = dirs.map Part.ofSegment := by
  have plain : dirs.map Part.name = dirs.map Part.ofSegment := by
    apply List.map_congr_left
    intro n member
    refine (ofSegment_of_ne ?_).symm
    rintro rfl
    exact (named _ member).notUp rfl
  have read : parts (absolute dirs) = .root :: (segments (absolute dirs)).map Part.ofSegment := by
    apply parts_of_absolute
    rw [toList_absolute]
    rfl
  rw [parts_absolute named, plain] at read
  have same := (List.cons.inj read).2
  exact ⟨(map_ofSegment_inj.mp same).symm, plain⟩

/- Walks -/

theorem walk_none_iff {l done : List String} :
    walk done (l.map Part.ofSegment) = none ↔
      ∃ pre, pre <+: l ∧ done.length + pre.countP (· ≠ "..") < pre.count ".." := by
  induction l generalizing done with
  | nil =>
    constructor
    · intro stays
      cases stays
    · rintro ⟨pre, front, less⟩
      rw [List.prefix_nil.mp front] at less
      simp at less
  | cons s l ih =>
    rw [List.map_cons]
    by_cases up : s = ".."
    · rw [up, ofSegment_up]
      cases done with
      | nil => exact ⟨fun _ => ⟨[".."], by simp, by decide⟩, fun _ => rfl⟩
      | cons d done =>
        rw [walk, ih]
        constructor
        · rintro ⟨pre, front, less⟩
          refine ⟨".." :: pre, by simpa using front, ?_⟩
          simp at less ⊢
          omega
        · rintro ⟨pre, front, less⟩
          rcases List.prefix_cons_iff.mp front with rfl | ⟨pre, rfl, inner⟩
          · simp at less
          · refine ⟨pre, inner, ?_⟩
            simp at less ⊢
            omega
    · rw [ofSegment_of_ne up, walk, ih]
      constructor
      · rintro ⟨pre, front, less⟩
        refine ⟨s :: pre, by simpa using front, ?_⟩
        simp [up] at less ⊢
        omega
      · rintro ⟨pre, front, less⟩
        rcases List.prefix_cons_iff.mp front with rfl | ⟨pre, rfl, inner⟩
        · simp at less
        · refine ⟨pre, inner, ?_⟩
          simp [up] at less ⊢
          omega

theorem walk_cancel {pre post done : List String} {n : String} (name : n ≠ "..") :
    walk done ((pre ++ n :: ".." :: post).map Part.ofSegment) =
      walk done ((pre ++ post).map Part.ofSegment) := by
  induction pre generalizing done with
  | nil =>
    rw [List.nil_append, List.nil_append, List.map_cons, List.map_cons, ofSegment_of_ne name,
      ofSegment_up]
    rfl
  | cons s pre ih =>
    rw [List.cons_append, List.cons_append, List.map_cons, List.map_cons]
    by_cases up : s = ".."
    · rw [up, ofSegment_up]
      cases done with
      | nil => rfl
      | cons d done => exact ih
    · rw [ofSegment_of_ne up]
      exact ih

theorem Cancels.walk {l l' : List String} (cancels : Cancels l l') (done : List String) :
    walk done (l.map Part.ofSegment) = Path.walk done (l'.map Part.ofSegment) := by
  induction cancels with
  | refl l => rfl
  | step name rest ih => rw [walk_cancel name, ih]

theorem walk_names {names done : List String} (plain : ".." ∉ names) :
    walk done (names.map Part.ofSegment) = some (done.reverse ++ names) := by
  induction names generalizing done with
  | nil => simp [walk]
  | cons n names ih =>
    obtain ⟨here, later⟩ := not_or.mp (mt List.mem_cons.mpr plain)
    rw [List.map_cons, ofSegment_of_ne (Ne.symm here), walk, ih later]
    simp

theorem cancels_of_walk {l done names : List String} (walked : walk done (l.map Part.ofSegment) = some names)
    (plain : ".." ∉ done) : Cancels (done.reverse ++ l) names ∧ ".." ∉ names := by
  induction l generalizing done with
  | nil =>
    obtain rfl := Option.some.inj walked
    rw [List.append_nil]
    exact ⟨.refl _, by simpa using plain⟩
  | cons s l ih =>
    rw [List.map_cons] at walked
    by_cases up : s = ".."
    · rw [up, ofSegment_up] at walked
      cases done with
      | nil => cases walked
      | cons d done =>
        obtain ⟨here, later⟩ := not_or.mp (mt List.mem_cons.mpr plain)
        obtain ⟨cancels, clean⟩ := ih walked later
        refine ⟨?_, clean⟩
        rw [up, List.reverse_cons, List.append_assoc]
        exact .step (Ne.symm here) cancels
    · rw [ofSegment_of_ne up] at walked
      obtain ⟨cancels, clean⟩ := ih walked (mt List.mem_cons.mp (not_or.mpr ⟨Ne.symm up, plain⟩))
      refine ⟨?_, clean⟩
      simpa using cancels

/- What a given path leads to -/

theorem dropParts_iff {head l rest : List Part} :
    dropParts? head l = some rest ↔ l = head ++ rest := by
  refine ⟨append_of_dropParts, ?_⟩
  rintro rfl
  exact dropParts_append head rest

theorem walk_of_behind {root path : String} {rest : List String} (canonical : Canonical root)
    (behind : Behind root path rest) :
    walk [] ((dropParts? (parts root) (parts path)).getD (parts path)) =
      walk [] (rest.map Part.ofSegment) := by
  obtain ⟨dirs, named, rfl⟩ := canonical
  obtain ⟨same, plain⟩ := segments_absolute named
  rw [parts_absolute named, plain]
  cases top : isAbsolute path.toList with
  | true =>
    rw [parts_of_absolute top, behind.absolute top, same, List.map_append,
      ← List.cons_append, dropParts_append, Option.getD_some]
  | false =>
    have inner : dropParts? (.root :: dirs.map Part.ofSegment) (parts path) = none := by
      rw [Option.eq_none_iff_forall_ne_some]
      intro rest dropped
      apply not_root_of_relative top
      rw [dropParts_iff.mp dropped]
      exact List.mem_cons_self
    rw [inner, Option.getD_none, walk_of_relative top, behind.relative top]

theorem dropParts_elsewhere {root path : String} (canonical : Canonical root)
    (top : isAbsolute path.toList = true) (apart : ¬ segments root <+: segments path) :
    dropParts? (parts root) (parts path) = none := by
  obtain ⟨dirs, named, rfl⟩ := canonical
  obtain ⟨same, plain⟩ := segments_absolute named
  rw [Option.eq_none_iff_forall_ne_some, parts_absolute named, plain, parts_of_absolute top]
  intro rest dropped
  have whole := (List.cons.inj (dropParts_iff.mp dropped)).2
  obtain ⟨front, back, split, first, _⟩ := List.map_eq_append_iff.mp whole
  apply apart
  rw [split, same, map_ofSegment_inj.mp first]
  exact List.prefix_append dirs back

section

variable {root : String} (canonical : Canonical root) {given : String}
  (nonempty : Text.trim given ≠ "")

include canonical nonempty

theorem below_of_behind {rest : List String} (behind : Behind root (Text.trim given) rest) :
    below root given = (walk [] (rest.map Part.ofSegment)).elim (.error (.outside given)) .ok := by
  have some : (Text.trim given).isEmpty = false := by simpa using nonempty
  unfold below
  simp only [some, walk_of_behind canonical behind]
  cases walk [] (rest.map Part.ofSegment) <;> rfl

theorem below_elsewhere (top : isAbsolute (Text.trim given).toList = true)
    (apart : ¬ segments root <+: segments (Text.trim given)) :
    below root given = .error (.outside given) := by
  have some : (Text.trim given).isEmpty = false := by simpa using nonempty
  unfold below
  simp only [some, dropParts_elsewhere canonical top apart, Option.getD_none]
  rw [parts_of_absolute top]
  rfl

end

theorem behind_or (root path : String) :
    (∃ rest, Behind root path rest) ∨
      isAbsolute path.toList = true ∧ ¬ segments root <+: segments path := by
  cases top : isAbsolute path.toList with
  | true =>
    by_cases inside : segments root <+: segments path
    · obtain ⟨rest, whole⟩ := inside
      exact Or.inl ⟨rest, fun _ => whole.symm, fun other => by rw [top] at other; cases other⟩
    · exact Or.inr ⟨rfl, inside⟩
  | false => exact Or.inl ⟨segments path, fun other => (by rw [top] at other; cases other), fun _ => rfl⟩

theorem Behind.unique {root path : String} {rest rest' : List String} (behind : Behind root path rest)
    (behind' : Behind root path rest') : rest = rest' := by
  cases top : isAbsolute path.toList with
  | true =>
    exact List.append_cancel_left ((behind.absolute top).symm.trans (behind'.absolute top))
  | false => rw [behind.relative top, behind'.relative top]

theorem below_empty {root given : String} (empty : Text.trim given = "") :
    below root given = .error .empty := by
  unfold below
  simp [empty]

section

variable {root : String} (canonical : Canonical root)

include canonical

theorem below_ok_iff {given : String} {names : List String} :
    below root given = .ok names ↔ StandsFor root given names := by
  constructor
  · intro found
    by_cases empty : Text.trim given = ""
    · rw [below_empty empty] at found
      cases found
    rcases behind_or root (Text.trim given) with ⟨rest, behind⟩ | ⟨top, apart⟩
    · rw [below_of_behind canonical empty behind] at found
      cases walked : walk [] (rest.map Part.ofSegment) with
      | none => rw [walked] at found; cases found
      | some reached =>
        rw [walked] at found
        obtain rfl := Except.ok.inj found
        obtain ⟨cancels, plain⟩ := cancels_of_walk walked (by simp)
        exact ⟨empty, rest, behind, cancels, plain⟩
    · rw [below_elsewhere canonical empty top apart] at found
      cases found
  · rintro ⟨nonempty, rest, behind, cancels, plain⟩
    rw [below_of_behind canonical nonempty behind, cancels.walk, walk_names plain]
    rfl

theorem below_error_iff {given : String} :
    (∃ r, below root given = .error r) ↔ Strays root given := by
  by_cases empty : Text.trim given = ""
  · exact ⟨fun _ => Or.inl empty, fun _ => ⟨_, below_empty empty⟩⟩
  rcases behind_or root (Text.trim given) with ⟨rest, behind⟩ | apart
  · rw [below_of_behind canonical empty behind]
    have climbs : walk [] (rest.map Part.ofSegment) = none ↔ Climbs rest := by
      rw [walk_none_iff]
      simp [Climbs]
    constructor
    · rintro ⟨r, refused⟩
      refine Or.inr (Or.inr ⟨rest, behind, climbs.mp ?_⟩)
      cases walked : walk [] (rest.map Part.ofSegment) with
      | none => rfl
      | some names => rw [walked] at refused; cases refused
    · rintro (none | ⟨top, apart⟩ | ⟨rest', behind', leaves⟩)
      · exact absurd none empty
      · refine absurd ⟨rest, ?_⟩ apart
        exact (behind.absolute top).symm
      · rw [← behind.unique behind', ← climbs] at leaves
        exact ⟨_, by rw [leaves]; rfl⟩
  · exact ⟨fun _ => Or.inr (Or.inl apart), fun _ => ⟨_, below_elsewhere canonical empty apart.1 apart.2⟩⟩

theorem inside_of_names {names : List String} (named : ∀ n ∈ names, Named n) :
    parts (join root (slashed names)) = parts root ++ names.map .name ∧
      relative root (join root (slashed names)) = slashed names := by
  have read : parts (join root (slashed names)) = parts root ++ names.map .name := by
    obtain ⟨dirs, above, rfl⟩ := canonical
    by_cases none : names = []
    · rw [none, parts_join_nil above, List.map_nil, List.append_nil]
    · have whole : ∀ n ∈ dirs ++ names, Named n := fun n member =>
        (List.mem_append.mp member).elim (above n) (named n)
      rw [join_absolute above named none, parts_absolute whole, parts_absolute above, List.map_append,
        List.cons_append]
  refine ⟨read, ?_⟩
  have texts : Part.text ∘ Part.name = id := rfl
  rw [relative, read, dropParts_append]
  simp [texts]

/-- A given path is refused exactly when it strays, and leads otherwise to the names it stands for, put
behind the root. By these names the project knows the path, and finds it again. Spellings that cancel to
the same segments are taken for the same path. -/
theorem resolve_contained (given : String) :
    ((∃ r, resolve root given = .error r) ↔ Strays root given) ∧
    (∀ path, resolve root given = .ok path ↔
      ∃ names, StandsFor root given names ∧ path = join root (slashed names)) ∧
    (∀ path names, StandsFor root given names → path = join root (slashed names) →
      (∀ n ∈ names, Named n) ∧ parts path = parts root ++ names.map .name ∧
      relative root path = slashed names ∧ join root (relative root path) = path) ∧
    ∀ given' rest rest' l, Text.trim given ≠ "" → Text.trim given' ≠ "" →
      Behind root (Text.trim given) rest → Behind root (Text.trim given') rest' →
      Cancels rest l → Cancels rest' l →
      (resolve root given).toOption = (resolve root given').toOption := by
  refine ⟨?_, ?_, ?_, ?_⟩
  · rw [← below_error_iff canonical, resolve]
    cases below root given <;> simp [Except.map]
  · intro path
    simp only [← below_ok_iff canonical, resolve]
    cases below root given <;> simp [Except.map, eq_comm]
  · rintro path names stands rfl
    have named := named_of_below ((below_ok_iff canonical).mpr stands)
    obtain ⟨read, key⟩ := inside_of_names canonical named
    exact ⟨named, read, key, by rw [key]⟩
  · intro given' rest rest' l letters letters' behind behind' cancels cancels'
    rw [resolve, resolve, below_of_behind canonical letters behind,
      below_of_behind canonical letters' behind', cancels.walk, cancels'.walk]
    cases walk [] (l.map Part.ofSegment) <;> rfl

end

theorem resolve_contained_spelled :
    Canonical "/work/project" ∧
    StandsFor "/work/project" " /work/./project//src/../a.ts " ["a.ts"] ∧
    Strays "/work/project" "src/../../secrets" ∧
    resolve "/work/project" " /work/./project//src/../a.ts " = .ok "/work/project/a.ts" ∧
    relative "/work/project" "/work/project/a.ts" = "a.ts" ∧
    (resolve "/work/project" " /work/./project//src/../a.ts ").toOption =
      (resolve "/work/project" "./a.ts").toOption ∧
    ∃ r, resolve "/work/project" "src/../../secrets" = .error r := by
  have named (n : String) (member : n ∈ ["work", "project"]) : Named n := by
    rcases List.mem_cons.mp member with rfl | last
    · exact ⟨by decide, by decide, by decide, by decide⟩
    · rw [List.mem_singleton.mp last]
      exact ⟨by decide, by decide, by decide, by decide⟩
  have canonical : Canonical "/work/project" := ⟨["work", "project"], named, by decide +kernel⟩
  have behind : Behind "/work/project" (Text.trim " /work/./project//src/../a.ts ")
      ["src", "..", "a.ts"] := ⟨by decide +kernel, by decide +kernel⟩
  have behind' : Behind "/work/project" (Text.trim "./a.ts") ["a.ts"] :=
    ⟨by decide +kernel, by decide +kernel⟩
  have cancels : Cancels ["src", "..", "a.ts"] ["a.ts"] :=
    @Cancels.step [] ["a.ts"] ["a.ts"] "src" (by decide) (.refl _)
  have stands : StandsFor "/work/project" " /work/./project//src/../a.ts " ["a.ts"] :=
    ⟨by decide +kernel, _, behind, cancels, by decide⟩
  have strays : Strays "/work/project" "src/../../secrets" := by
    refine Or.inr (Or.inr ⟨["src", "..", "..", "secrets"], ⟨?_, ?_⟩, ["src", "..", ".."], ?_, ?_⟩)
    · decide +kernel
    · decide +kernel
    · decide
    · decide
  obtain ⟨-, leads, keys, alike⟩ :=
    resolve_contained canonical " /work/./project//src/../a.ts "
  obtain ⟨-, -, key, -⟩ := keys _ _ stands rfl
  have path : join "/work/project" (slashed ["a.ts"]) = "/work/project/a.ts" := by decide +kernel
  rw [path] at key
  exact ⟨canonical, stands, strays, (leads _).mpr ⟨_, stands, path.symm⟩, key,
    alike _ _ _ _ (by decide +kernel) (by decide +kernel) behind behind' cancels (.refl _),
    (resolve_contained canonical "src/../../secrets").1.mpr strays⟩

end CodeAgent.Path
