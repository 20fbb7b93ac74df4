import CodeAgent.Json.Decode

/-! A change of one file, with what it takes to reverse it. -/
namespace CodeAgent

structure Change where
  id : String
  path : String
  /-- The content before the change. -/
  previousLines : List String
  /-- The digest of the content right after the change. -/
  hashAfter : String
  timestamp : Int
  description : String
  /-- The change made the file, so reversing it removes the file. -/
  created : Bool
deriving DecidableEq, Repr, Inhabited

namespace Change

def toJson (c : Change) : Json :=
  Json.object [("id", .str c.id), ("path", .str c.path),
    ("previous_lines", Json.ofStrings c.previousLines), ("hash_after", .str c.hashAfter),
    ("timestamp", .int c.timestamp), ("description", .str c.description),
    ("created", .bool c.created)]

/-- What was changed, without when. -/
def summary (c : Change) : Json :=
  Json.object [("path", .str c.path), ("previous_lines", Json.ofStrings c.previousLines),
    ("hash_after", .str c.hashAfter), ("description", .str c.description),
    ("created", .bool c.created)]

def ofJson? (j : Json) : Option Change := do
  let fs ← j.fields?
    ["id", "path", "previous_lines", "hash_after", "timestamp", "description", "created"]
  let id ← fs.req "id" Json.toStr?
  let path ← fs.req "path" Json.toStr?
  let previousLines ← fs.req "previous_lines" Json.toStrings?
  let hashAfter ← fs.req "hash_after" Json.toStr?
  let timestamp ← fs.req "timestamp" Json.toInt64?
  let description ← fs.req "description" Json.toStr?
  let created ← fs.orElse "created" Json.toBool? false
  return { id, path, previousLines, hashAfter, timestamp, description, created }

end Change

/-- How an attempt to reverse a change ended. -/
structure UndoReport where
  success : Bool
  entry : Option Change
  failure : Option String
deriving DecidableEq, Repr, Inhabited

namespace UndoReport

def ofJson? (j : Json) : Option UndoReport := do
  let fs ← j.fields? ["success", "entry", "error"]
  let success ← fs.req "success" Json.toBool?
  let entry ← fs.opt "entry" Change.ofJson?
  let failure ← fs.opt "error" Json.toStr?
  return { success, entry, failure }

end UndoReport

end CodeAgent
