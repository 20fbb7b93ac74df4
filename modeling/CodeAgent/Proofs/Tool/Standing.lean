import CodeAgent.Proofs.Text.Cutting
import CodeAgent.Proofs.Tool.Capturing
import CodeAgent.Tool.Repository

/-! What is read of the report that `git` prints on a repository.
The letters in front of a path tell where it stands. Of a report that fits the limit on output each path is
listed where it stands; of a longer one those that fit, perhaps a piece of the next one, and the mark of
the cut as if it were a path. -/
namespace CodeAgent

namespace RepositoryStatus

/-- A character of one byte that neither breaks a line nor begins the line on the branch. -/
def Plain (c : Char) : Prop := c.utf8Size = 1 ∧ c ≠ '#' ∧ c ≠ '\n' ∧ c ≠ '\r'

instance (c : Char) : Decidable (Plain c) := inferInstanceAs (Decidable (_ ∧ _))

/-- What became of a path, in the index or among the files. -/
inductive Mark where
  | same | modified | retyped | added | deleted | renamed | copied
deriving DecidableEq

def Mark.letter : Mark → Char
  | same => ' '
  | modified => 'M'
  | retyped => 'T'
  | added => 'A'
  | deleted => 'D'
  | renamed => 'R'
  | copied => 'C'

/-- How the two sides of a merge leave a path. -/
inductive Clash where
  | bothDeleted | addedByUs | deletedByThem | addedByThem | deletedByUs | bothAdded | bothModified

def Clash.letters : Clash → Char × Char
  | bothDeleted => ('D', 'D')
  | addedByUs => ('A', 'U')
  | deletedByThem => ('U', 'D')
  | addedByThem => ('U', 'A')
  | deletedByUs => ('D', 'U')
  | bothAdded => ('A', 'A')
  | bothModified => ('U', 'U')

/-- Where a path stands. The letters of a change are not those of a clash. -/
inductive Standing where
  | untracked
  | conflicted (clash : Clash)
  | changed (index files : Mark)
    (own : (index, files) ∉ [(Mark.same, Mark.same), (.added, .added), (.deleted, .deleted)])

namespace Standing

def letters : Standing → Char × Char
  | untracked => ('?', '?')
  | conflicted clash => clash.letters
  | changed index files _ => (index.letter, files.letter)

def isStaged : Standing → Bool
  | changed index _ _ => index ≠ .same
  | _ => false

def isModified : Standing → Bool
  | changed _ files _ => files ≠ .same
  | _ => false

def isUntracked : Standing → Bool
  | untracked => true
  | _ => false

def isConflicted : Standing → Bool
  | conflicted _ => true
  | _ => false

/-- The line on a path: its letters, a blank, and the path. -/
def line (k : Standing) (path : List Char) : List Char := k.letters.1 :: k.letters.2 :: ' ' :: path

theorem plain_letters (k : Standing) : Plain k.letters.1 ∧ Plain k.letters.2 := by
  cases k with
  | untracked => decide
  | conflicted clash => cases clash <;> decide
  | changed index files own =>
    have plain (m : Mark) : Plain m.letter := by cases m <;> decide
    exact ⟨plain index, plain files⟩

theorem line_eq (k : Standing) (path : List Char) : k.line path = k.line [] ++ path := rfl

theorem utf8Len_line (k : Standing) (path : List Char) :
    String.utf8Len (k.line path) = 3 + String.utf8Len path := by
  obtain ⟨first, second⟩ := k.plain_letters
  have blank : ' '.utf8Size = 1 := rfl
  rw [line, String.utf8Len_cons, String.utf8Len_cons, String.utf8Len_cons, first.1, second.1, blank]
  omega

end Standing

/-- What is printed on one path. Nothing is printed of a path with a line break in it but its quotation,
which has none. -/
structure Entry where
  standing : Standing
  path : String
  some : path.toList ≠ []
  unbroken : Text.Unbroken path.toList

namespace Entry

def line (e : Entry) : List Char := e.standing.line e.path.toList

/-- The path as it is listed, without white space in front of it. -/
def shown (e : Entry) : Standing × String := (e.standing, Text.trimStart e.path)

theorem unbroken_line (e : Entry) : Text.Unbroken e.line := by
  obtain ⟨⟨-, -, feed₁, return₁⟩, -, -, feed₂, return₂⟩ := e.standing.plain_letters
  constructor
  · simp [line, Standing.line, Ne.symm feed₁, Ne.symm feed₂, e.unbroken.1]
  · simp [line, Standing.line, Ne.symm return₁, Ne.symm return₂, e.unbroken.2]

end Entry

/-- The line on the branch. -/
def headLine (head : List Char) : List Char := ['#', '#', ' '] ++ head

/-- The lines that `git status` prints: one on the branch, and one on each path. -/
def printedLines (head : String) (entries : List Entry) : List (List Char) :=
  headLine head.toList :: entries.map Entry.line

def printed (head : String) (entries : List Entry) : String :=
  String.ofList (Text.ended (printedLines head entries))

/-- The paths of one kind. -/
def pathsOf (kind : Standing → Bool) (l : List (Standing × String)) : List String :=
  (l.filter fun e => kind e.1).map (·.2)

theorem length_pathsOf_le (kind : Standing → Bool) (l : List (Standing × String)) :
    (pathsOf kind l).length ≤ l.length := by
  rw [pathsOf, List.length_map]
  exact List.length_filter_le _ l

/-- Paths are listed as they stand, and some more as if they were staged and modified. -/
structure Lists (s : RepositoryStatus) (l : List (Standing × String)) (also : List String) : Prop where
  staged : s.staged = pathsOf Standing.isStaged l ++ also
  modified : s.modified = pathsOf Standing.isModified l ++ also
  untracked : s.untracked = pathsOf Standing.isUntracked l
  conflicted : s.conflicted = pathsOf Standing.isConflicted l

section

variable {s : RepositoryStatus} {l : List (Standing × String)}

/-- The letters of a path decide on the lists that it joins. -/
theorem addPath_letters (s : RepositoryStatus) (k : Standing) (path : String) :
    s.addPath k.letters.1 k.letters.2 path =
      { s with
        staged := s.staged ++ if k.isStaged then [path] else []
        modified := s.modified ++ if k.isModified then [path] else []
        untracked := s.untracked ++ if k.isUntracked then [path] else []
        conflicted := s.conflicted ++ if k.isConflicted then [path] else [] } := by
  cases k with
  | untracked =>
    simp [addPath, Standing.letters, Standing.isStaged, Standing.isModified, Standing.isUntracked,
      Standing.isConflicted]
  | conflicted clash =>
    cases clash <;>
      simp [addPath, Standing.letters, Clash.letters, Standing.isStaged, Standing.isModified,
        Standing.isUntracked, Standing.isConflicted]
  | changed index files own =>
    cases index <;> cases files <;> first
      | exact absurd (by decide) own
      | simp [addPath, Standing.letters, Mark.letter, Standing.isStaged, Standing.isModified,
          Standing.isUntracked, Standing.isConflicted]

theorem pathsOf_concat (kind : Standing → Bool) (l : List (Standing × String)) (k : Standing)
    (path : String) :
    pathsOf kind (l ++ [(k, path)]) = pathsOf kind l ++ if kind k then [path] else [] := by
  rw [pathsOf, List.filter_append, List.map_append, ← pathsOf]
  split <;> rename_i listed <;> simp [listed]

theorem lists_addPath (lists : s.Lists l []) (k : Standing) (path : String) :
    (s.addPath k.letters.1 k.letters.2 path).Lists (l ++ [(k, path)]) [] := by
  rw [addPath_letters]
  constructor
  · rw [pathsOf_concat, lists.staged, List.append_nil, List.append_nil]
  · rw [pathsOf_concat, lists.modified, List.append_nil, List.append_nil]
  · rw [pathsOf_concat, lists.untracked]
  · rw [pathsOf_concat, lists.conflicted]

theorem lists_addMark (lists : s.Lists l []) (path : String) :
    (s.addPath '.' '.' path).Lists l [path] := by
  obtain ⟨staged, modified, untracked, conflicted⟩ := lists
  rw [List.append_nil] at staged modified
  exact ⟨by simp [addPath, staged], by simp [addPath, modified], untracked, conflicted⟩

/- Lines -/

theorem dropHead?_other {line : List Char} (other : line.head? ≠ some '#') :
    Text.dropHead? (String.ofList line) "## " = none := by
  have apart : Text.startsWith (String.ofList line) "## " = false := by
    rw [Text.startsWith, @String.toList_ofList line]
    exact Text.not_front rfl other
  rw [Text.dropHead?, apart]
  rfl

theorem readLine_short {line : List Char} (short : String.utf8Len line < 4)
    (other : line.head? ≠ some '#') : readLine s (String.ofList line) = .ok s := by
  rw [readLine, dropHead?_other other]
  dsimp only
  rw [String.utf8ByteSize_ofList, if_pos short]

theorem readLine_marks {a b : Char} (first : Plain a) (second : Plain b) {path : List Char}
    (long : ¬ String.utf8Len (a :: b :: path) < 4) :
    readLine s (String.ofList (a :: b :: path)) =
      .ok (s.addPath a b (String.ofList (Text.trimStartChars path))) := by
  have other : (a :: b :: path).head? ≠ some '#' := by simpa using first.2.1
  have one : ¬ a.utf8Size = 2 ∧ ¬ a.utf8Size > 2 ∧ ¬ b.utf8Size > 1 := by
    rw [first.1, second.1]
    decide
  rw [readLine, dropHead?_other other]
  dsimp only
  rw [String.utf8ByteSize_ofList, if_neg long, String.toList_ofList]
  dsimp only
  rw [if_neg one.1, if_neg one.2.1, if_neg one.2.2]

theorem readLine_head (s : RepositoryStatus) (head : List Char) :
    readLine s (String.ofList (headLine head)) = .ok (s.readHead (String.ofList head)) := by
  have starts : Text.startsWith (String.ofList (headLine head)) "## " = true := by
    rw [Text.startsWith, @String.toList_ofList (headLine head)]
    exact List.isPrefixOf_iff_prefix.mpr (List.prefix_append _ _)
  have front : Text.dropHead? (String.ofList (headLine head)) "## " = some (String.ofList head) := by
    rw [Text.dropHead?, if_pos starts, @String.toList_ofList (headLine head)]
    rfl
  rw [readLine, front]

theorem lists_readHead {also : List String} (lists : s.Lists l also) (head : String) :
    (s.readHead head).Lists l also :=
  ⟨lists.staged, lists.modified, lists.untracked, lists.conflicted⟩

theorem lists_empty : empty.Lists [] [] := ⟨rfl, rfl, rfl, rfl⟩

theorem readLine_line (s : RepositoryStatus) (k : Standing) {path : List Char} (some : path ≠ []) :
    readLine s (String.ofList (k.line path)) =
      .ok (s.addPath k.letters.1 k.letters.2 (String.ofList (Text.trimStartChars path))) := by
  obtain ⟨first, second⟩ := k.plain_letters
  have length := List.length_pos_iff.mpr some
  have least := Text.length_le_utf8Len path
  refine readLine_marks first second ?_
  change ¬ String.utf8Len (k.line path) < 4
  rw [k.utf8Len_line]
  omega

theorem exists_path_of_piece {k : Standing} {path piece more : List Char}
    (front : k.line path = piece ++ more) (long : ¬ String.utf8Len piece < 4) :
    ∃ shorter, piece = k.line shorter ∧ shorter ≠ [] := by
  have bytes := k.utf8Len_line []
  rcases List.append_eq_append_iff.mp ((k.line_eq path).symm.trans front) with
    ⟨shorter, rfl, -⟩ | ⟨rest, whole, -⟩
  · refine ⟨shorter, (k.line_eq shorter).symm, ?_⟩
    rintro rfl
    rw [List.append_nil, bytes] at long
    exact long (by decide)
  · rw [whole, String.utf8Len_append, String.utf8Len_nil] at bytes
    omega

/-- A piece of an entry is left out, or it is listed with a piece of the path. -/
theorem readLine_piece (lists : s.Lists l []) (e : Entry) {piece more : List Char}
    (front : e.line = piece ++ more) : ∃ t part, readLine s (String.ofList piece) = .ok t ∧
      t.Lists (l ++ part) [] ∧ part.length ≤ 1 ∧
      ∀ p ∈ part, p.1 = e.standing ∧ p.2.toList <+: e.shown.2.toList := by
  obtain ⟨first, second⟩ := e.standing.plain_letters
  have other : piece.head? ≠ some '#' := by
    intro hash
    have same : e.line.head? = some '#' := by rw [front, List.head?_append, hash]; rfl
    exact first.2.1 (Option.some.inj same)
  by_cases short : String.utf8Len piece < 4
  · exact ⟨s, [], readLine_short short other, by rwa [List.append_nil], Nat.zero_le 1, nofun⟩
  · obtain ⟨path, rfl, some⟩ := exists_path_of_piece front short
    refine ⟨_, [(e.standing, _)], readLine_line s e.standing some, lists_addPath lists _ _, Nat.le_refl 1, ?_⟩
    intro p member
    obtain rfl := List.mem_singleton.mp member
    refine ⟨rfl, ?_⟩
    have shape : e.path.toList = path ++ more := by
      simpa [Entry.line, Standing.line] using front
    rw [Entry.shown, Text.trimStart, shape, String.toList_ofList, String.toList_ofList]
    exact Text.trimStartChars_prefix path more

theorem foldlM_entries (lists : s.Lists l []) (entries : List Entry) :
    ∃ t, (entries.map fun e => String.ofList e.line).foldlM readLine s = .ok t ∧
      t.Lists (l ++ entries.map Entry.shown) [] := by
  induction entries generalizing s l with
  | nil => exact ⟨s, rfl, by simpa using lists⟩
  | cons e entries ih =>
    obtain ⟨t, read, further⟩ := ih (lists_addPath lists e.standing e.shown.2)
    refine ⟨t, ?_, by simpa [Entry.shown] using further⟩
    rw [List.map_cons, List.foldlM_cons, Entry.line, readLine_line s e.standing e.some]
    exact read

/-- What the mark of a cut is listed as. -/
def markPath : String := ". (output truncated)"

theorem foldlM_mark (lists : s.Lists l []) :
    ∃ t, ([[], Text.markLine].map String.ofList).foldlM readLine s = .ok t ∧ t.Lists l [markPath] := by
  obtain ⟨path, shape, name⟩ : ∃ path, Text.markLine = '.' :: '.' :: path ∧
      String.ofList (Text.trimStartChars path) = markPath := ⟨_, rfl, by decide +kernel⟩
  have long : ¬ String.utf8Len ('.' :: '.' :: path) < 4 := by
    rw [← shape]
    decide +kernel
  refine ⟨_, ?_, lists_addMark lists markPath⟩
  have second := readLine_marks (s := s) (by decide) (by decide) long
  rw [← shape, name] at second
  rw [List.map_cons, List.foldlM_cons, readLine_short (by decide) (by simp)]
  change [String.ofList Text.markLine].foldlM readLine s = _
  rw [List.foldlM_cons, second]
  rfl

end

/- Reports -/

section

variable {head : String}

theorem unbroken_printed (whole : Text.Unbroken head.toList) (entries : List Entry) :
    ∀ line ∈ printedLines head entries, Text.Unbroken line := by
  intro line member
  rcases List.mem_cons.mp member with rfl | among
  · simpa [Text.Unbroken, headLine] using whole
  · obtain ⟨e, -, rfl⟩ := List.mem_map.mp among
    exact e.unbroken_line

theorem ofText_printed (whole : Text.Unbroken head.toList) (entries : List Entry) :
    ∃ s, ofText (printed head entries) = .ok s ∧ s.Lists (entries.map Entry.shown) [] := by
  have begun := lists_readHead lists_empty (String.ofList head.toList)
  obtain ⟨s, read, lists⟩ := foldlM_entries begun entries
  refine ⟨s, ?_, lists⟩
  rw [ofText, printed, Text.reportLines_ended (unbroken_printed whole entries), printedLines, List.map_cons,
    List.foldlM_cons, readLine_head, List.map_map]
  exact read

/-- Of entries that are too long for the limit, those at the front that fit are kept, and perhaps a piece of
the next one. -/
structure Shortened (head : String) (entries kept lost : List Entry) (part : List (Standing × String)) :
    Prop where
  whole : entries = kept ++ lost
  fits : kept = [] ∨ (printed head kept).utf8ByteSize ≤ maxOutput
  beyond : ∀ e, lost.head? = some e → maxOutput < (printed head (kept ++ [e])).utf8ByteSize
  single : part.length ≤ 1
  piece : ∀ p ∈ part, ∃ e, lost.head? = some e ∧ p.1 = e.standing ∧ p.2.toList <+: e.shown.2.toList

theorem ofText_marked (before : List (List Char)) {piece : List Char} {t : RepositoryStatus}
    {l : List (Standing × String)} (unbroken : ∀ line ∈ before, Text.Unbroken line)
    (whole : Text.Unbroken piece)
    (read : ((before ++ [piece]).map String.ofList).foldlM readLine empty = .ok t) (lists : t.Lists l []) :
    ∃ u, ofText (String.ofList (Text.ended before ++ piece) ++ Text.cutMark) = .ok u ∧
      u.Lists l [markPath] := by
  obtain ⟨u, mark, result⟩ := foldlM_mark lists
  refine ⟨u, ?_, result⟩
  have lines : before ++ [piece, [], Text.markLine] = (before ++ [piece]) ++ [[], Text.markLine] := by simp
  rw [ofText, Text.reportLines_marked unbroken whole, lines, List.map_append, List.foldlM_append, read]
  exact mark

theorem utf8ByteSize_printed (head : String) (entries : List Entry) :
    (printed head entries).utf8ByteSize = String.utf8Len (Text.ended (printedLines head entries)) :=
  String.utf8ByteSize_ofList _

/-- The line on the branch is read as such where it is cut, since the limit is far behind its mark. -/
theorem ofText_cut_head {piece more : List Char} (whole : Text.Unbroken piece)
    (line : headLine head.toList = piece ++ more) (long : maxOutput < String.utf8Len piece + 4) :
    ∃ s, ofText (String.ofList piece ++ Text.cutMark) = .ok s ∧ s.Lists [] [markPath] := by
  obtain ⟨rest, rfl⟩ : ∃ rest, piece = headLine rest := by
    rcases List.append_eq_append_iff.mp line with ⟨rest, rfl, -⟩ | ⟨rest, shape, -⟩
    · exact ⟨rest, rfl⟩
    · have bytes : String.utf8Len ['#', '#', ' '] = 3 := rfl
      rw [shape, String.utf8Len_append] at bytes
      rw [maxOutput] at long
      omega
  have reading : (([] ++ [headLine rest]).map String.ofList).foldlM readLine empty =
      .ok (empty.readHead (String.ofList rest)) := by
    rw [List.nil_append, List.map_singleton, List.foldlM_cons, readLine_head]
    rfl
  exact ofText_marked [] nofun whole reading (lists_readHead lists_empty _)

theorem ofText_cut_entry (kept : List Entry) {e : Entry} {piece more : List Char}
    (before : ∀ line ∈ printedLines head kept, Text.Unbroken line) (whole : Text.Unbroken piece)
    (line : e.line = piece ++ more) :
    ∃ s part, ofText (String.ofList (Text.ended (printedLines head kept) ++ piece) ++ Text.cutMark) = .ok s ∧
      part.length ≤ 1 ∧ (∀ p ∈ part, p.1 = e.standing ∧ p.2.toList <+: e.shown.2.toList) ∧
      s.Lists (kept.map Entry.shown ++ part) [markPath] := by
  obtain ⟨s, read, lists⟩ := foldlM_entries (lists_readHead lists_empty (String.ofList head.toList)) kept
  obtain ⟨t, part, next, further, single, among⟩ := readLine_piece lists e line
  have reading : ((printedLines head kept ++ [piece]).map String.ofList).foldlM readLine empty = .ok t := by
    have first : ((printedLines head kept).map String.ofList).foldlM readLine empty = .ok s := by
      rw [printedLines, List.map_cons, List.foldlM_cons, readLine_head, List.map_map]
      exact read
    rw [List.map_append, List.foldlM_append, first]
    change [String.ofList piece].foldlM readLine s = _
    rw [List.foldlM_cons, next]
    rfl
  obtain ⟨u, told, result⟩ := ofText_marked _ before whole reading further
  exact ⟨u, part, told, single, among, result⟩

theorem ofText_cut {entries : List Entry} {front back : List Char} (whole : Text.Unbroken head.toList)
    (cut : Text.Cut maxOutput (printed head entries).toList front back) (some : back ≠ []) :
    ∃ s kept lost part, ofText (String.ofList front ++ Text.cutMark) = .ok s ∧
      Shortened head entries kept lost part ∧ s.Lists (kept.map Entry.shown ++ part) [markPath] := by
  have unbroken := unbroken_printed whole entries
  rw [printed, String.toList_ofList] at cut
  obtain ⟨before, line, after, piece, more, split, place, rfl⟩ :=
    Text.exists_line_of_front cut.whole some
  have near := cut.near some
  have within := cut.within
  rw [split] at cut unbroken
  have beyond := cut.over_line place
  obtain ⟨noFeed, noReturn⟩ := unbroken (piece ++ more) (by simp)
  have pieceWhole : Text.Unbroken piece := ⟨fun feed => noFeed (List.mem_append_left _ feed),
    fun returned => noReturn (List.mem_append_left _ returned)⟩
  -- the cut is within the line on the branch, or behind it
  rcases List.cons_eq_append_iff.mp split with ⟨rfl, first⟩ | ⟨lines, rfl, rest⟩
  · obtain ⟨line, -⟩ := List.cons.inj first
    obtain rfl : front = piece := place
    obtain ⟨s, read, lists⟩ := ofText_cut_head pieceWhole line.symm near
    refine ⟨s, [], entries, [], read, ⟨rfl, Or.inl rfl, ?_, Nat.zero_le 1, nofun⟩, lists⟩
    intro e _
    have longer : printedLines head [e] = [front ++ more] ++ [e.line] := by
      rw [line]
      rfl
    rw [List.nil_append, utf8ByteSize_printed, longer, Text.ended_append, String.utf8Len_append]
    exact Nat.lt_add_right _ beyond
  · obtain ⟨kept, lost, rfl, rfl, behind⟩ := List.map_eq_append_iff.mp rest
    obtain ⟨e, lost, rfl, line, -⟩ := List.map_eq_cons_iff.mp behind
    obtain ⟨s, part, read, single, among, lists⟩ := ofText_cut_entry kept
      (fun line member => unbroken line (List.mem_append_left _ member)) pieceWhole line
    rw [printedLines, ← place] at read
    refine ⟨s, kept, e :: lost, part, read, ⟨rfl, Or.inr ?_, ?_, single, ?_⟩, lists⟩
    · rw [utf8ByteSize_printed, printedLines]
      rw [place, String.utf8Len_append] at within
      exact Nat.le_of_add_right_le within
    · rintro _ ⟨⟩
      rw [utf8ByteSize_printed, printedLines, List.map_append, List.map_singleton, line]
      exact beyond
    · intro p member
      exact ⟨e, rfl, among p member⟩

/-- What a program printed as text is kept up to the limit on text; the limit on bytes does not show. -/
theorem keep_toUTF8 (text : String) :
    (ProcessReport.keep text.toUTF8).1 = (Text.capped maxOutput text).1 := by
  rw [ProcessReport.keep_eq, Text.mend_toUTF8]

/-- Paths without white space in front are listed as they are. -/
theorem shown_of_started {entries : List Entry}
    (started : ∀ e ∈ entries, ∀ c, e.path.toList.head? = some c → Text.isBlank c = false) :
    entries.map Entry.shown = entries.map fun e => (e.standing, e.path) := by
  apply List.map_congr_left
  intro e member
  obtain ⟨c, rest, path⟩ := List.exists_cons_of_ne_nil e.some
  have solid := started e member c (by rw [path]; rfl)
  have same : Text.trimStartChars e.path.toList = e.path.toList := by
    rw [path, Text.trimStartChars, List.dropWhile_cons_of_neg (by simp [solid])]
  rw [Entry.shown, Text.trimStart, same, String.ofList_toList]

/-- What is read of a report depends on whether it fits. -/
theorem ofText_kept (whole : Text.Unbroken head.toList) (entries : List Entry) :
    ∃ s, ofText (ProcessReport.keep (printed head entries).toUTF8).1 = .ok s ∧
      ((printed head entries).utf8ByteSize ≤ maxOutput → s.Lists (entries.map Entry.shown) []) ∧
      (maxOutput < (printed head entries).utf8ByteSize → ∃ kept lost part,
        Shortened head entries kept lost part ∧ s.Lists (kept.map Entry.shown ++ part) [markPath]) := by
  rw [keep_toUTF8]
  by_cases fits : (printed head entries).utf8ByteSize ≤ maxOutput
  · obtain ⟨s, read, lists⟩ := ofText_printed whole entries
    refine ⟨s, ?_, fun _ => lists, fun beyond => absurd fits (Nat.not_le_of_lt beyond)⟩
    rw [Text.capped, if_pos fits]
    exact read
  · obtain ⟨front, back, cut, some, same⟩ := Text.capped_over (Nat.lt_of_not_le fits)
    obtain ⟨s, kept, lost, part, read, shortened, lists⟩ := ofText_cut whole cut some
    refine ⟨s, ?_, fun within => absurd within fits, fun _ => ⟨kept, lost, part, shortened, lists⟩⟩
    rw [same]
    exact read

end

end RepositoryStatus

end CodeAgent
