import CodeAgent.Index.Stats
import CodeAgent.Session.Basic
import CodeAgent.Text.Digits
import CodeAgent.Text.Lines

/-! Points in time as date and minute. -/
namespace CodeAgent.Calendar

/-- Year, month and day of a number of days since the first of January 1970. Years are counted from
March, in eras of four hundred. -/
def civil (days : Int) : Int × Nat × Nat :=
  let z := days + 719468
  let era := z.fdiv 146097
  let doe := (z - era * 146097).toNat
  let yoe := (doe - doe / 1460 + doe / 36524 - doe / 146096) / 365
  let doy := doe - (365 * yoe + yoe / 4 - yoe / 100)
  let mp := (5 * doy + 2) / 153
  let day := doy - (153 * mp + 2) / 5 + 1
  let month := if mp < 10 then mp + 3 else mp - 9
  ((yoe : Int) + era * 400 + (if month ≤ 2 then 1 else 0), month, day)

/-- Four digits; a sign beyond them and before the year zero. -/
def yearText (y : Int) : String :=
  if y < 0 then "-" ++ Text.zeroPadded 4 y.natAbs
  else if y > 9999 then "+" ++ toString y
  else Text.zeroPadded 4 y.natAbs

def firstYear : Int := -262143
def lastYear : Int := 262142

/-- Date and minute of milliseconds since 1970, in Universal Time. -/
def minuteText (millis : Int) : String :=
  let seconds := millis.fdiv 1000
  let days := seconds.fdiv 86400
  let rest := (seconds - days * 86400).toNat
  let (y, m, d) := civil days
  if y < firstYear || y > lastYear then "unknown"
  else
    yearText y ++ "-" ++ Text.zeroPadded 2 m ++ "-" ++ Text.zeroPadded 2 d ++ " " ++ Text.zeroPadded 2 (rest / 3600) ++ ":"
      ++ Text.zeroPadded 2 (rest / 60 % 60)

end CodeAgent.Calendar

/-! Texts that are shown to a user. -/

namespace CodeAgent

namespace UndoReport

def text (r : UndoReport) : String :=
  match r.entry, r.failure with
  | some c, none => "Reverted " ++ c.path ++ " (" ++ c.description ++ ")"
  | some c, some e => "Cannot undo " ++ c.path ++ ": " ++ e
  | none, some e => e
  | none, none => "Nothing happened"

end UndoReport

namespace IndexStats

/-- The summary without the time taken. -/
def counts (s : IndexStats) : String :=
  "Indexed " ++ toString s.filesScanned ++ " files (" ++ toString s.filesParsed ++ " parsed, "
    ++ toString s.parseErrors ++ " with syntax errors), " ++ toString s.symbolsIndexed ++ " symbols"

def text (s : IndexStats) : String := s.counts ++ " in " ++ toString s.timeMs ++ " ms"

end IndexStats

namespace SessionSummary

def text (s : SessionSummary) : String :=
  s.id ++ "  " ++ Text.column 4 s.messageCount ++ " messages  last active "
    ++ Calendar.minuteText s.lastActivityAt

def listing : List SessionSummary → String
  | [] => "No sessions yet"
  | items => Text.unlines (items.map text)

end SessionSummary

end CodeAgent
