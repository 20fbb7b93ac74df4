import CodeAgent.Table
import CodeAgent.Text.Lines

/-! Files as an indented tree.
Directories come before files, both in ascending order; below a given depth a directory is one line
with the number of files in it. -/
namespace CodeAgent

inductive Listing where
  | mk (directories : List (String × Listing)) (files : List String)
deriving Repr, Inhabited

namespace Listing

def empty : Listing := mk [] []

mutual

/-- Puts in a file by the names on the way to it; the last one is its own. -/
def insert : List String → Listing → Listing
  | [], t => t
  | [file], mk ds fs => mk ds (fs ++ [file])
  | dir :: next :: rest, mk ds fs => mk (insertInto dir (next :: rest) ds) fs
termination_by names => (names.length, 0)

/-- Puts a file into the directory of a name, which is made if it is missing. -/
def insertInto (dir : String) (names : List String) :
    List (String × Listing) → List (String × Listing)
  | [] => [(dir, insert names empty)]
  | (d, t) :: rest =>
    if dir = d then (d, insert names t) :: rest
    else if dir < d then (dir, insert names empty) :: (d, t) :: rest
    else (d, t) :: insertInto dir names rest
termination_by ds => (names.length, ds.length + 1)

end

def ofPaths (paths : List String) : Listing :=
  paths.foldl (fun t path => t.insert (Text.splitOn '/' path)) empty

mutual

def count : Listing → Nat
  | mk ds fs => fs.length + countAll ds

def countAll : List (String × Listing) → Nat
  | [] => 0
  | (_, t) :: rest => count t + countAll rest

end

def indent (depth : Nat) : String := String.ofList (List.replicate (2 * depth) ' ')

mutual

/-- The lines of a tree that is `depth` directories down. -/
def linesAt (depth maxDepth : Nat) : Listing → List String
  | mk ds fs => directoryLines depth maxDepth ds ++ fs.map (indent depth ++ ·)

def directoryLines (depth maxDepth : Nat) : List (String × Listing) → List String
  | [] => []
  | (name, t) :: rest =>
    (if depth + 1 ≥ maxDepth then
        [indent depth ++ name ++ "/ (" ++ toString (count t) ++ " files)"]
      else (indent depth ++ name ++ "/") :: linesAt (depth + 1) maxDepth t)
    ++ directoryLines depth maxDepth rest

end

def lines (t : Listing) (maxDepth : Nat) : List String := linesAt 0 maxDepth t

end Listing

end CodeAgent
