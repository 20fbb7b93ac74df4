import CodeAgent.Syntax.Node

/-! Tokens of source files. A language says how long the next lexeme is and of what sort. -/
namespace CodeAgent.Syntax

inductive TokenKind where
  | word | number | text | template | pattern | markup | mark | lifetime
  /-- The end of a line that ends a statement. -/
  | newline
  /-- A comment that has a line to itself, where that matters. -/
  | remark
  | invalid
deriving DecidableEq, Repr, Inhabited

structure Token where
  kind : TokenKind
  text : String
  span : Span
  /-- Characters before it on its row. -/
  column : Nat
  /-- The first on its row. -/
  fresh : Bool
deriving Repr, Inhabited

namespace Token

/-- A mark or a word with this text. -/
def is (t : Token) (text : String) : Bool :=
  t.text = text && (t.kind = .mark || t.kind = .word)

end Token

/-- The sort of a lexeme. -/
inductive Lexeme where
  | blank
  /-- Blanks over the end of a line that goes on. -/
  | joint
  | comment
  | token (kind : TokenKind)
deriving DecidableEq, Repr

/-- What a scan has found, newest first, and where it stands. -/
structure Scan where
  tokens : List Token
  comments : List Span
  pos : Nat
  row : Nat
  column : Nat
  fresh : Bool

namespace Scan

def start : Scan := ⟨[], [], 0, 0, 0, true⟩

/-- Goes past the characters of a lexeme. -/
def advance (s : Scan) (cs : List Char) : Scan :=
  let rows := cs.count '\n'
  let column := if rows = 0 then s.column + cs.length
    else (cs.reverse.takeWhile (· ≠ '\n')).length
  { s with pos := s.pos + cs.length, row := s.row + rows, column := column }

def add (s : Scan) (sort : Lexeme) (cs : List Char) : Scan :=
  let next := s.advance cs
  let span : Span := ⟨s.pos, next.pos, s.row, next.row⟩
  match sort with
  | .blank => { next with fresh := s.fresh || next.row > s.row }
  | .joint => next
  | .comment =>
    { next with comments := span :: s.comments, fresh := s.fresh || next.row > s.row }
  | .token kind =>
    { next with
      tokens := ⟨kind, String.ofList cs, span, s.column, s.fresh⟩ :: s.tokens
      fresh := kind = .newline }

/-- Cuts the characters into lexemes. `measure` sees what was found so far and what is left, and
says how long the next lexeme is, at least one character. -/
def run (measure : Scan → List Char → Lexeme × Nat) : Nat → List Char → Scan → Scan
  | 0, _, s => s
  | _, [], s => s
  | fuel + 1, c :: cs, s =>
    let (sort, length) := measure s (c :: cs)
    let length := max length 1
    run measure fuel ((c :: cs).drop length) (s.add sort ((c :: cs).take length))

def scan (measure : Scan → List Char → Lexeme × Nat) (cs : List Char) : Scan :=
  let s := run measure (cs.length + 1) cs start
  { s with tokens := s.tokens.reverse, comments := s.comments.reverse }

end Scan

/-! Lengths of common lexemes -/

namespace Measure

def whileTrue (p : Char → Bool) (cs : List Char) : Nat := (cs.takeWhile p).length

/-- Up to the end of the line, the line break not counted. -/
def line (cs : List Char) : Nat := whileTrue (· ≠ '\n') cs

/-- Up to and with the first occurrence of a text; `none` when there is none. -/
def through? (stop : List Char) : List Char → Option Nat
  | [] => none
  | c :: cs =>
    if stop.isPrefixOf (c :: cs) then some stop.length else (through? stop cs).map (· + 1)

/-- A string behind its opening quote, the closing quote counted; on one line only. -/
def quoted? (quote : Char) : List Char → Option Nat
  | [] => none
  | '\\' :: _ :: cs => (quoted? quote cs).map (· + 2)
  | c :: cs =>
    if c = quote then some 1
    else if c = '\n' then none
    else (quoted? quote cs).map (· + 1)

/-- The longest of some texts that stands at the front. -/
def longest? (texts : List String) (cs : List Char) : Option Nat :=
  let found := texts.filter fun t => t.toList.isPrefixOf cs
  match found.map String.length with
  | [] => none
  | lengths => some (lengths.foldl max 0)

end Measure

end CodeAgent.Syntax
