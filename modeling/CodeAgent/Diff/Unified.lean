import CodeAgent.Diff.Script

/-! Differences in the unified form: hunks of changed lines with three lines around them. -/
namespace CodeAgent.Diff

/-- Lines with their ends: a line feed, a carriage return, or both in that order reversed.
`line` is the one being read, in reverse. -/
def linesFrom (line : List Char) : List Char → List (List Char)
  | [] => if line.isEmpty then [] else [line.reverse]
  | '\r' :: '\n' :: rest => ('\n' :: '\r' :: line).reverse :: linesFrom [] rest
  | '\r' :: rest => ('\r' :: line).reverse :: linesFrom [] rest
  | '\n' :: rest => ('\n' :: line).reverse :: linesFrom [] rest
  | c :: rest => linesFrom (c :: line) rest

def splitLines (s : String) : Array String := ((linesFrom [] s.toList).map String.ofList).toArray

/-- Lines shown around a change. -/
def radius : Nat := 3

namespace Region

/-- The last lines of an equal region. -/
def keepEnd (r : Region) (n : Nat) : Region :=
  let off := r.oldLen - n
  { r with old := r.old + off, new := r.new + off, oldLen := r.oldLen - off, newLen := r.newLen - off }

/-- The first lines of an equal region. -/
def keepStart (r : Region) (n : Nat) : Region :=
  { r with oldLen := min r.oldLen n, newLen := min r.newLen n }

end Region

def trimFirst : List Region → List Region
  | [] => []
  | r :: rest => (if r.changed then r else r.keepEnd radius) :: rest

def trimLast : List Region → List Region
  | [] => []
  | [r] => [if r.changed then r else r.keepStart radius]
  | r :: rest => r :: trimLast rest

/-- Splits at equal regions that are longer than what two hunks show of them. -/
def hunksFrom (pending : List Region) : List Region → List (List Region)
  | [] =>
    match pending with
    | [] => []
    | [r] => if r.changed then [[r]] else []
    | _ => [pending.reverse]
  | r :: rest =>
    if !r.changed && r.oldLen > 2 * radius then
      (r.keepStart radius :: pending).reverse :: hunksFrom [r.keepEnd radius] rest
    else hunksFrom (r :: pending) rest

def hunks (rs : List Region) : List (List Region) := hunksFrom [] (trimLast (trimFirst rs))

/-- First line and count; a single line stands alone, no line counts from the one before. -/
def rangeText (start len : Nat) : String :=
  if len = 1 then toString (start + 1)
  else if len = 0 then toString start ++ ",0"
  else toString (start + 1) ++ "," ++ toString len

def endsLine (s : String) : Bool :=
  match s.toList.getLast? with
  | some '\n' | some '\r' => true
  | _ => false

def lineText (mark : String) (line : String) : String :=
  mark ++ line ++ if endsLine line then "" else "\n\\ No newline at end of file\n"

def linesText (mark : String) (lines : Array String) (start len : Nat) : String :=
  String.join ((lines.extract start (start + len)).toList.map (lineText mark))

def regionText (p : Pair) (r : Region) : String :=
  if r.changed then
    linesText "-" p.old r.old r.oldLen ++ linesText "+" p.new r.new r.newLen
  else linesText " " p.old r.old r.oldLen

def hunkText (p : Pair) (rs : List Region) : String :=
  match rs.head?, rs.getLast? with
  | some first, some last =>
    "@@ -" ++ rangeText first.old (last.old + last.oldLen - first.old)
      ++ " +" ++ rangeText first.new (last.new + last.newLen - first.new) ++ " @@\n"
      ++ String.join (rs.map (regionText p))
  | _, _ => ""

/-- The differences between two versions of a file; empty when there are none. -/
def unified (path old new : String) : String :=
  let p : Pair := ⟨splitLines old, splitLines new⟩
  match hunks (script p) with
  | [] => ""
  | hs =>
    "--- a/" ++ path ++ "\n+++ b/" ++ path ++ "\n" ++ String.join (hs.map (hunkText p))

end CodeAgent.Diff
