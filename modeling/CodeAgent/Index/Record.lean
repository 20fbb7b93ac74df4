import CodeAgent.Digest.Sha256
import CodeAgent.Json.Decode
import CodeAgent.Text.Lines

/-! What the index keeps of one file: its lines, its digest and what was derived from them. -/
namespace CodeAgent

/-- The digest of a text. -/
def contentHash (content : String) : String := Sha256.ofText content

def hashLines (lines : List String) : String := contentHash (Text.unlines lines)

structure FileRecord where
  /-- Below the project's root, with slashes. -/
  path : String
  lines : List String
  hash : String
  size : Nat
  lastModified : Int
deriving DecidableEq, Repr, Inhabited

namespace FileRecord

def ofContent (path content : String) (lastModified : Int) : FileRecord :=
  { path := path
    lines := Text.lines content
    hash := contentHash content
    size := content.utf8ByteSize
    lastModified := lastModified }

def content (r : FileRecord) : String := Text.unlines r.lines

theorem content_ofContent (path content : String) (lastModified : Int) :
    (ofContent path content lastModified).content = content :=
  Text.unlines_lines content

def toJson (r : FileRecord) : Json :=
  Json.object [("path", .str r.path), ("lines", Json.ofStrings r.lines), ("hash", .str r.hash),
    ("size", .nat r.size), ("last_modified", .int r.lastModified)]

def ofJson? (j : Json) : Option FileRecord := do
  let fs ← j.fields? ["path", "lines", "hash", "size", "last_modified"]
  let path ← fs.req "path" Json.toStr?
  let lines ← fs.req "lines" Json.toStrings?
  let hash ← fs.req "hash" Json.toStr?
  let size ← fs.req "size" Json.toNat64?
  let lastModified ← fs.req "last_modified" Json.toInt64?
  return { path, lines, hash, size, lastModified }

end FileRecord

inductive FileType where
  | source | test | config | types | unknown
deriving DecidableEq, Repr, Inhabited

namespace FileType

def name : FileType → String
  | source => "source"
  | test => "test"
  | config => "config"
  | types => "types"
  | unknown => "unknown"

def ofJson? : Json → Option FileType := Json.toNamed? [source, test, config, types, unknown] name

end FileType

structure Complexity where
  loc : Nat
  nesting : Nat
  cyclomatic : Nat
  /-- From zero to one hundred. -/
  score : Nat
deriving DecidableEq, Repr, Inhabited

namespace Complexity

def toJson (c : Complexity) : Json :=
  Json.object [("loc", .nat c.loc), ("nesting", .nat c.nesting), ("cyclomatic", .nat c.cyclomatic),
    ("score", .nat c.score)]

def ofJson? (j : Json) : Option Complexity := do
  let fs ← j.fields? ["loc", "nesting", "cyclomatic", "score"]
  let loc ← fs.req "loc" Json.toNat64?
  let nesting ← fs.req "nesting" Json.toNat64?
  let cyclomatic ← fs.req "cyclomatic" Json.toNat64?
  let score ← fs.req "score" Json.toNat32?
  return { loc, nesting, cyclomatic, score }

end Complexity

structure FileMeta where
  complexity : Complexity
  dependencies : List String
  dependents : List String
  isHub : Bool
  isEntryPoint : Bool
  fileType : FileType
deriving DecidableEq, Repr, Inhabited

namespace FileMeta

def toJson (m : FileMeta) : Json :=
  Json.object [("complexity", m.complexity.toJson), ("dependencies", Json.ofStrings m.dependencies),
    ("dependents", Json.ofStrings m.dependents), ("is_hub", .bool m.isHub),
    ("is_entry_point", .bool m.isEntryPoint), ("file_type", .str m.fileType.name)]

def ofJson? (j : Json) : Option FileMeta := do
  let fs ← j.fields?
    ["complexity", "dependencies", "dependents", "is_hub", "is_entry_point", "file_type"]
  let complexity ← fs.req "complexity" Complexity.ofJson?
  let dependencies ← fs.req "dependencies" Json.toStrings?
  let dependents ← fs.req "dependents" Json.toStrings?
  let isHub ← fs.req "is_hub" Json.toBool?
  let isEntryPoint ← fs.req "is_entry_point" Json.toBool?
  let fileType ← fs.req "file_type" FileType.ofJson?
  return { complexity, dependencies, dependents, isHub, isEntryPoint, fileType }

end FileMeta

end CodeAgent
