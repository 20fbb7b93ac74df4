import CodeAgent.Index.Record
import CodeAgent.Text.Word
import CodeAgent.Text.Find
import CodeAgent.Text.Identifier

/-! How complex a file is: lines of code, depth of nesting and number of branches. -/
namespace CodeAgent.Metrics

/-- A file with more dependents than this is a hub. -/
def hubThreshold : Nat := 5

def isComment (line : List Char) : Bool :=
  match Text.trimStartChars line with
  | '/' :: '/' :: _ => true
  | '#' :: _ => true
  | '/' :: '*' :: _ => true
  | '*' :: _ => true
  | _ => false

def isCode (line : List Char) : Bool := !(Text.trimChars line).isEmpty && !isComment line

/-- Words that open a branch when they stand alone. -/
def branchWords : List (List Char) :=
  ["if", "elif", "for", "while", "case", "catch", "except", "match"].map String.toList

/-- Operators that open a branch. -/
def branchOperators : List (List Char) := ["&&", "||", "??"].map String.toList

/-- What follows a branch word or operator at the front; `atWord` when a word goes on there. -/
def branch? (atWord : Bool) (cs : List Char) : Option (List Char) :=
  let word := if atWord then none else
    branchWords.find? fun w =>
      w.isPrefixOf cs && !((cs.drop w.length).head?.map Text.isWordChar).getD false
  match word with
  | some w => some (cs.drop w.length)
  | none => (branchOperators.find? (·.isPrefixOf cs)).map fun o => cs.drop o.length

/-- Branches from left to right, none overlapping; `skip` characters belong to the last one. -/
def countBranches (atWord : Bool) (skip : Nat) : List Char → Nat
  | [] => 0
  | c :: rest =>
    match skip with
    | skip + 1 => countBranches (Text.isWordChar c) skip rest
    | 0 =>
      match branch? atWord (c :: rest) with
      | some after => 1 + countBranches (Text.isWordChar c) (rest.length - after.length) rest
      | none => countBranches (Text.isWordChar c) 0 rest

/-- Depth of braces now and at most. A closing brace too many does not count. -/
def braceStep (d : Nat × Nat) (c : Char) : Nat × Nat :=
  if c = '\x7b' then (d.1 + 1, max d.2 (d.1 + 1))
  else if c = '\x7d' then (d.1 - 1, d.2)
  else d

def braceDepth (lines : List (List Char)) : Nat :=
  (lines.foldl (fun d line => line.foldl braceStep d) (0, 0)).2

/-- Four blanks or one tab to a level. -/
def indentDepth (line : List Char) : Nat :=
  ((line.takeWhile Text.isBlank).map fun c => if c = '\t' then 4 else 1).foldl (· + ·) 0 / 4

def ofLines (lines : List String) (language : Option String) : Complexity :=
  let code := (lines.map String.toList).filter isCode
  let nesting := if language = some "python" then (code.map indentDepth).foldl max 0
    else braceDepth code
  let cyclomatic := 1 + (code.map (countBranches false 0)).foldl (· + ·) 0
  let loc := code.length
  { loc := loc
    nesting := nesting
    cyclomatic := cyclomatic
    score := min (min (loc / 10) 30 + min (nesting * 5) 30 + min cyclomatic 40) 100 }

end CodeAgent.Metrics
