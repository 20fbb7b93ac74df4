import CodeAgent.Text.Find
import CodeAgent.Text.Identifier

/-! White space, and what lies between it. -/
namespace CodeAgent.Text

/-- The characters of the White_Space property. -/
def isBlank (c : Char) : Bool :=
  let n := c.toNat
  (9 ≤ n && n ≤ 13) || n = 32 || n = 0x85 || n = 0xA0 || n = 0x1680 || (0x2000 ≤ n && n ≤ 0x200A)
    || n = 0x2028 || n = 0x2029 || n = 0x202F || n = 0x205F || n = 0x3000

def trimStartChars (cs : List Char) : List Char := cs.dropWhile isBlank

/-- Drops the characters at the end that pass the test. -/
def dropEndWhile (p : Char → Bool) (cs : List Char) : List Char :=
  (cs.reverse.dropWhile p).reverse

def trimEndChars (cs : List Char) : List Char := dropEndWhile isBlank cs

def trimChars (cs : List Char) : List Char := trimEndChars (trimStartChars cs)

def trim (s : String) : String := String.ofList (trimChars s.toList)
def trimStart (s : String) : String := String.ofList (trimStartChars s.toList)
def trimEnd (s : String) : String := String.ofList (trimEndChars s.toList)

/-- The runs of characters without white space; `word` is the one being read, in reverse. -/
def wordsFrom (word : List Char) : List Char → List (List Char)
  | [] => if word.isEmpty then [] else [word.reverse]
  | c :: rest =>
    if isBlank c then
      if word.isEmpty then wordsFrom [] rest else word.reverse :: wordsFrom [] rest
    else wordsFrom (c :: word) rest

def words (s : String) : List String := (wordsFrom [] s.toList).map String.ofList

/-! Words within lines: whole-word occurrences, and remarks that are left as reminders. -/

/-- A word starts or ends between two characters when one of them is in a word and the other is not. -/
def isBoundary (before after : Option Char) : Bool :=
  (before.map isWordChar).getD false != (after.map isWordChar).getD false

/-- What follows a front that ends at a boundary; `before` stands in front of it. -/
def wholeFront? (pattern : List Char) (before : Option Char) (cs : List Char) : Option (List Char) :=
  if pattern.isPrefixOf cs then
    let rest := cs.drop pattern.length
    let last := (pattern.getLast?).or before
    if isBoundary before cs.head? && isBoundary last rest.head? then some rest else none
  else none

/-- How many bytes stand before the first whole-word occurrence of a pattern. -/
def wordOffset? (pattern : List Char) (before : Option Char) : List Char → Option Nat
  | [] => (wholeFront? pattern before []).map fun _ => 0
  | c :: rest =>
    match wholeFront? pattern before (c :: rest) with
    | some _ => some 0
    | none => (wordOffset? pattern (some c) rest).map (· + c.utf8Size)

/-! Reminders -/

/-- The words that start a reminder, in the order in which they are tried. -/
def reminderKinds : List String := ["TODO", "FIXME", "HACK", "XXX", "BUG", "NOTE"]

/-- What opens a remark, in the order in which it is tried. -/
def remarkOpeners : List String := ["//", "#", "/*", "*", "--"]

structure Reminder where
  kind : String
  text : String
deriving DecidableEq, Repr

/-- Drops a name in parentheses, a colon and blanks. -/
def dropAddress (cs : List Char) : List Char :=
  let cs := trimStartChars cs
  let cs :=
    match cs with
    | '(' :: inside =>
      match inside.dropWhile (· ≠ ')') with
      | _ :: rest => rest
      | [] => cs
    | _ => cs
  trimStartChars (if cs.head? = some ':' then cs.tail else cs)

/-- A reminder behind the opening of a remark. -/
def reminderBehind? (cs : List Char) : Option Reminder :=
  let cs := trimStartChars cs
  reminderKinds.findSome? fun kind =>
    let k := kind.toList
    let rest := cs.drop k.length
    if k.isPrefixOf cs && isBoundary k.getLast? rest.head? then
      some ⟨kind, trim (trimTails (String.ofList (dropAddress rest)) "*/")⟩
    else none

/-- The first reminder of a line. -/
def reminder? : List Char → Option Reminder
  | [] => none
  | c :: rest =>
    let here := remarkOpeners.findSome? fun o =>
      if o.toList.isPrefixOf (c :: rest) then reminderBehind? ((c :: rest).drop o.length) else none
    match here with
    | some r => some r
    | none => reminder? rest

end CodeAgent.Text
