import CodeAgent.Json.Decode

/-! What one indexing pass reports, while it goes on and at its end. -/
namespace CodeAgent

/-- What a pass over the project found. -/
structure IndexStats where
  filesScanned : Nat
  /-- Files without syntax errors. -/
  filesParsed : Nat
  parseErrors : Nat
  symbolsIndexed : Nat
  timeMs : Nat
deriving DecidableEq, Repr, Inhabited

namespace IndexStats

def ofJson? (j : Json) : Option IndexStats := do
  let fs ← j.fields?
    ["files_scanned", "files_parsed", "parse_errors", "symbols_indexed", "time_ms"]
  let filesScanned ← fs.req "files_scanned" Json.toNat64?
  let filesParsed ← fs.req "files_parsed" Json.toNat64?
  let parseErrors ← fs.req "parse_errors" Json.toNat64?
  let symbolsIndexed ← fs.req "symbols_indexed" Json.toNat64?
  let timeMs ← fs.req "time_ms" Json.toNat64?
  return { filesScanned, filesParsed, parseErrors, symbolsIndexed, timeMs }

def toJson (s : IndexStats) : Json :=
  Json.object [("files_scanned", .nat s.filesScanned), ("files_parsed", .nat s.filesParsed),
    ("parse_errors", .nat s.parseErrors), ("symbols_indexed", .nat s.symbolsIndexed),
    ("time_ms", .nat s.timeMs)]

end IndexStats

inductive IndexPhase where
  | scan | parse | analyze | buildIndexes | persist
deriving DecidableEq, Repr, Inhabited

namespace IndexPhase

def name : IndexPhase → String
  | scan => "scan"
  | parse => "parse"
  | analyze => "analyze"
  | buildIndexes => "build_indexes"
  | persist => "persist"

end IndexPhase

structure IndexProgress where
  phase : IndexPhase
  current : Nat
  total : Nat
  file : Option String
deriving DecidableEq, Repr, Inhabited

end CodeAgent
