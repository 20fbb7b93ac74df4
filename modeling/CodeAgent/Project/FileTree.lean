import CodeAgent.Act.Ask
import CodeAgent.Path.Lexical

/-! Files and directories as a value, with the answers that a file system gives about them. -/
namespace CodeAgent

inductive FileEntry where
  | file (content : ByteArray) (modified : Int)
  | directory

namespace FileEntry

def kind : FileEntry → FileKind
  | file .. => .file
  | directory => .directory

end FileEntry

namespace FileError

def missing : FileError := ⟨.notFound, "No such file or directory (os error 2)"⟩
def taken : FileError := ⟨.other, "File exists (os error 17)"⟩
def notDirectory : FileError := ⟨.other, "Not a directory (os error 20)"⟩
def isDirectory : FileError := ⟨.other, "Is a directory (os error 21)"⟩
def nameTooLong : FileError := ⟨.other, "File name too long (os error 36)"⟩
def zeroInName : FileError := ⟨.other, "file name contained an unexpected NUL byte"⟩

end FileError

/-- Entries by absolute path. The root directory is there without an entry. -/
structure FileTree where
  entries : Table FileEntry

namespace FileTree

def empty : FileTree := ⟨.empty⟩

/-- The most bytes of one name, and of a whole path. -/
def maxName : Nat := 255
def maxPath : Nat := 4095

def entry? (t : FileTree) (path : String) : Option FileEntry :=
  if path = "/" then some .directory else t.entries.get? path

def isDirectory (t : FileTree) (path : String) : Bool :=
  match t.entry? path with
  | some .directory => true
  | _ => false

/-- One name further down. -/
def step (t : FileTree) (dir name : String) : Except FileError String :=
  if !t.isDirectory dir then .error .notDirectory
  else if name.utf8ByteSize > maxName then .error .nameTooLong
  else .ok (Path.join dir name)

/-- Follows the parts of a path; all but the last name must be there. -/
def follow (t : FileTree) (dir : String) : List Path.Part → Except FileError String
  | [] => .ok dir
  | .root :: rest => t.follow "/" rest
  | .here :: rest => t.follow dir rest
  | .up :: rest =>
    if t.isDirectory dir then t.follow (if dir = "/" then "/" else Path.parent dir) rest
    else .error .notDirectory
  | [.name s] => t.step dir s
  | .name s :: rest => do
    let next ← t.step dir s
    if (t.entry? next).isSome then t.follow next rest else .error .missing

/-- The place that a path stands for, whether something is there or not. -/
def place (t : FileTree) (path : String) : Except FileError String :=
  if path.toList.contains '\x00' then .error .zeroInName
  else if path.utf8ByteSize > maxPath then .error .nameTooLong
  else t.follow "/" (Path.parts path)

def find (t : FileTree) (path : String) : Except FileError (String × FileEntry) := do
  let place ← t.place path
  match t.entry? place with
  | some e => return (place, e)
  | none => .error .missing

def read (t : FileTree) (path : String) : Except FileError ByteArray := do
  match ← t.find path with
  | (_, .file content _) => return content
  | (_, .directory) => .error .isDirectory

def put (t : FileTree) (place : String) (e : FileEntry) : FileTree := ⟨t.entries.insert place e⟩

/-- The directory must be there. -/
def write (t : FileTree) (path : String) (content : ByteArray) (now : Int) :
    Except FileError FileTree := do
  let place ← t.place path
  if t.isDirectory place then .error .isDirectory
  else return t.put place (.file content now)

def remove (t : FileTree) (path : String) : Except FileError FileTree := do
  match ← t.find path with
  | (place, .file ..) => return ⟨t.entries.erase place⟩
  | (_, .directory) => .error .isDirectory

/-- Goes down the names and makes the directories that are missing, as far as that goes. -/
def descend (t : FileTree) (dir : String) : List String → Except FileError Unit × FileTree
  | [] => (.ok (), t)
  | name :: rest =>
    match t.step dir name with
    | .error e => (.error e, t)
    | .ok next =>
      match t.entry? next with
      | some .directory => t.descend next rest
      | some (.file ..) => (.error (if rest.isEmpty then .taken else .notDirectory), t)
      | none => (t.put next .directory).descend next rest

def partName? : Path.Part → Option String
  | .name s => some s
  | _ => none

/-- Makes a directory and those above it; what was made stays when one of them cannot be. -/
def tryDirs (t : FileTree) (path : String) : Except FileError Unit × FileTree :=
  if path.toList.contains '\x00' then (.error .zeroInName, t)
  else if path.utf8ByteSize > maxPath then (.error .nameTooLong, t)
  else t.descend "/" ((Path.parts path).filterMap partName?)

def makeDirs (t : FileTree) (path : String) : Except FileError FileTree :=
  match t.tryDirs path with
  | (.ok (), made) => .ok made
  | (.error e, _) => .error e

/-- Writes a file and makes the directories above it; what cannot be written is left out. -/
def supply (t : FileTree) (path : String) (content : ByteArray) (now : Int) : FileTree :=
  let t := ((t.makeDirs (Path.parent path)).toOption).getD t
  ((t.write path content now).toOption).getD t

/-- A directory with files, given by their paths below it. -/
def ofFiles (root : String) (files : List (String × ByteArray)) (now : Int) : FileTree :=
  files.foldl (fun t f => t.supply (Path.join root f.1) f.2 now)
    (((empty.makeDirs root).toOption).getD empty)

/-- Removes a file, or a directory with all that is in it. -/
def removeAll (t : FileTree) (path : String) : Except FileError FileTree := do
  let (place, _) ← t.find path
  let within (p : String) : Bool := p = place || (place ++ "/").toList.isPrefixOf p.toList
  return ⟨t.entries.filter fun p _ => !within p⟩

/-- Only the size of a file is known. -/
def status (t : FileTree) (path : String) : Except FileError FileStatus := do
  match ← t.find path with
  | (_, .file content modified) => return ⟨.file, content.size, modified⟩
  | (_, .directory) => return ⟨.directory, 0, 0⟩

/-- The names directly in a directory. -/
def list (t : FileTree) (path : String) : Except FileError (List (String × FileKind)) := do
  match ← t.find path with
  | (_, .file ..) => .error .notDirectory
  | (place, .directory) =>
    return t.entries.entries.filterMap fun e =>
      if Path.parent e.1 = place then some (Path.baseName e.1, e.2.kind) else none

/-- Answers a question about files; a write happens at the time `now`. -/
def answer (t : FileTree) (now : Int) : (c : FileCall) → Except FileError c.Result × FileTree
  | .read path => (t.read path, t)
  | .write path content => change (t.write path content.toUTF8 now)
  | .makeDirs path => t.tryDirs path
  | .remove path => change (t.remove path)
  | .status path => (t.status path, t)
  | .list path => (t.list path, t)
  | .canonical path => ((t.find path).map (·.1), t)
where
  change : Except FileError FileTree → Except FileError Unit × FileTree
  | .ok t => (.ok (), t)
  | .error e => (.error e, t)

end FileTree

end CodeAgent
