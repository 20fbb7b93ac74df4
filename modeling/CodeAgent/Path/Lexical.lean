import CodeAgent.Text.Lines
import CodeAgent.Text.Word
import CodeAgent.Fault

/-! Paths as text.
A path is read into parts; repeated separators and inner dots do not count. A path given to a tool is
resolved below the project's root by its text alone, so that files need not exist. -/
namespace CodeAgent.Path

inductive Part where
  | root
  | here
  | up
  | name (s : String)
deriving DecidableEq, Repr, Inhabited

namespace Part

def text : Part → String
  | root => "/"
  | here => "."
  | up => ".."
  | name s => s

end Part

def isAbsolute (path : List Char) : Bool := path.head? = some '/'

/-- Parts of a relative path's pieces; a dot counts only in front. -/
def bodyParts (front : Bool) : List (List Char) → List Part
  | [] => []
  | p :: rest =>
    let parts := bodyParts false rest
    if p = [] then parts
    else if p = ['.'] then if front then .here :: parts else parts
    else if p = ['.', '.'] then .up :: parts
    else .name (String.ofList p) :: parts

def parts (path : String) : List Part :=
  let cs := path.toList
  if isAbsolute cs then .root :: bodyParts false (Text.pieces '/' cs)
  else bodyParts true (Text.pieces '/' cs)

/-- The parts behind a common beginning. -/
def dropParts? : List Part → List Part → Option (List Part)
  | [], rest => some rest
  | _ :: _, [] => none
  | a :: head, b :: rest => if a = b then dropParts? head rest else none

/-- Goes up and down from a directory, the names gathered in reverse; `none` when it would leave. -/
def walk (done : List String) : List Part → Option (List String)
  | [] => some done.reverse
  | .name s :: rest => walk (s :: done) rest
  | .here :: rest => walk done rest
  | .up :: rest =>
    match done with
    | [] => none
    | _ :: done => walk done rest
  | .root :: _ => none

/-- A path behind a directory; an absolute path stands for itself. -/
def join (dir path : String) : String :=
  if isAbsolute path.toList then path
  else if dir.isEmpty || dir.toList.getLast? = some '/' then dir ++ path else dir ++ "/" ++ path

def slashed (names : List String) : String := Text.joinWith '/' names

/-- Why a path given to a tool is refused. -/
inductive Refusal where
  | empty
  | outside (path : String)
deriving DecidableEq, Repr

namespace Refusal

def toFault : Refusal → Fault
  | empty => .validation "Path must not be empty"
  | outside path => .validation ("Path '" ++ path ++ "' is outside the project root")

end Refusal

/-- The names below the root that a given path stands for. -/
def below (root given : String) : Except Refusal (List String) :=
  let trimmed := Text.trim given
  if trimmed.isEmpty then .error .empty
  else
    let ps := parts trimmed
    let ps := (dropParts? (parts root) ps).getD ps
    match walk [] ps with
    | some names => .ok names
    | none => .error (.outside given)

/-- A given path below the root, and as it is named within the project. -/
def resolve (root given : String) : Except Refusal String :=
  (below root given).map fun names => join root (slashed names)

/-- How a path under the root is named within the project. -/
def relative (root path : String) : String :=
  let ps := parts path
  slashed (((dropParts? (parts root) ps).getD ps).map Part.text)

/-- The last name of a path, unless it ends otherwise. -/
def fileName? (path : String) : Option String :=
  match (parts path).getLast? with
  | some (.name s) => some s
  | _ => none

/-- Pieces from the end, without those that do not count. -/
def dropIdle (absolute : Bool) : List (List Char) → List (List Char)
  | [] => []
  | p :: rest =>
    if p = [] then
      if rest.isEmpty && absolute then [p] else dropIdle absolute rest
    else if p = ['.'] && (!rest.isEmpty || absolute) then dropIdle absolute rest
    else p :: rest

/-- The path without its last part; empty when there is none. -/
def parent (path : String) : String :=
  let cs := path.toList
  let absolute := isAbsolute cs
  match dropIdle absolute (Text.pieces '/' cs).reverse with
  | [] => ""
  | [] :: _ => ""
  | _ :: rest =>
    match dropIdle absolute rest with
    | [[]] => "/"
    | rest => String.ofList (Text.join '/' rest.reverse)

/-- The text behind the last slash. -/
def baseName (path : String) : String :=
  String.ofList ((Text.pieces '/' path.toList).getLastD [])

/-- The name of the project in a directory. -/
def projectName (root : String) : String := (fileName? root).getD "project"

end CodeAgent.Path
