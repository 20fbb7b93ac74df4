import CodeAgent.Syntax.Token
import CodeAgent.Text.Identifier

/-! Tokens of Python.
Lines matter outside of brackets: there the end of a line is a token, and the first token of a line
knows how far it is indented. -/
namespace CodeAgent.Syntax.Python

/-- What a skim over a string is in. -/
inductive Mode where
  | text (quote : Char) (long formatted : Bool)
  | braces (depth : Nat)
  | layout
deriving DecidableEq, Repr

/-- Three quotes open a long string, which two more in front of `rest` make. -/
def isLong (quote : Char) (rest : List Char) : Bool := [quote, quote].isPrefixOf rest

/-- What a character does to the modes, and how many characters behind it belong to it; `none` when
a short string breaks off. -/
def step (m : Mode) (below : List Mode) (prev c : Char) (rest : List Char) :
    Option (List Mode × Nat) :=
  match m with
  | .text quote long formatted =>
    if c = '\\' then some (m :: below, 1)
    else if c = quote && !long then some (below, 0)
    else if c = quote && isLong quote rest then some (below, 2)
    else if c = '\n' && !long then none
    else if c = '\x7b' && formatted then
      if rest.head? = some '\x7b' then some (m :: below, 1) else some (.braces 0 :: m :: below, 0)
    else some (m :: below, 0)
  | .braces depth =>
    if c = '"' || c = '\'' then
      let long := isLong c rest
      some (.text c long (prev = 'f' || prev = 'F') :: m :: below, if long then 2 else 0)
    else if c = '(' || c = '[' || c = '\x7b' then some (.braces (depth + 1) :: below, 0)
    else if c = ')' || c = ']' || c = '\x7d' then
      match depth with
      | 0 => some (below, 0)
      | d + 1 => some (.braces d :: below, 0)
    else if c = ':' && depth = 0 then some (.layout :: below, 0)
    else some (m :: below, 0)
  | .layout =>
    if c = '\x7b' then some (.braces 0 :: m :: below, 0)
    else if c = '\x7d' then some (below, 0)
    else some (m :: below, 0)

/-- How many characters it takes to leave all modes. -/
def skim? (modes : List Mode) (prev : Char) (idle : Nat) : List Char → Option Nat
  | [] => if modes.isEmpty then some 0 else none
  | c :: cs =>
    match idle, modes with
    | idle + 1, modes => (skim? modes c idle cs).map (· + 1)
    | 0, [] => some 0
    | 0, m :: below =>
      match step m below prev c cs with
      | none => none
      | some (modes, idle) => (skim? modes c idle cs).map (· + 1)

def stringLetters : List Char := "rRbBuUfFtT".toList

/-- The letters in front of a string that starts here, and its quote. -/
def stringHead? (cs : List Char) : Option (List Char × Char × List Char) :=
  let letters := cs.takeWhile stringLetters.contains
  match cs.drop letters.length with
  | q :: rest =>
    if letters.length ≤ 2 && (q = '"' || q = '\'') then some (letters, q, rest) else none
  | [] => none

/-- How long the string that starts here is; `none` when it does not end. -/
def string? (letters : List Char) (quote : Char) (rest : List Char) : Option Nat :=
  let long := isLong quote rest
  let formatted := letters.any "fFtT".toList.contains
  let front := letters.length + 1
  if long then (skim? [.text quote true formatted] quote 0 (rest.drop 2)).map (· + front + 2)
  else (skim? [.text quote false formatted] quote 0 rest).map (· + front)

def isNameStart (c : Char) : Bool := c = '_' || Text.isNameStart c
def isNameChar (c : Char) : Bool := c = '_' || Text.isNameFollower c

def isDigit (c : Char) : Bool := c.isDigit || c = '_'

def exponent : List Char → Nat
  | e :: sign :: rest =>
    if e = 'e' || e = 'E' then
      if sign = '+' || sign = '-' then 2 + Measure.whileTrue isDigit rest
      else if sign.isDigit then 1 + Measure.whileTrue isDigit (sign :: rest)
      else 0
    else 0
  | _ => 0

def number (cs : List Char) : Nat :=
  match cs with
  | '0' :: d :: rest =>
    if "xXoObB".toList.contains d then
      2 + Measure.whileTrue (fun c => c.isAlphanum || c = '_') rest
    else decimal cs
  | _ => decimal cs
where
  decimal (cs : List Char) : Nat :=
    let whole := Measure.whileTrue isDigit cs
    let rest := cs.drop whole
    let part := match rest with
      | '.' :: more => 1 + Measure.whileTrue isDigit more
      | _ => 0
    let rest := rest.drop part
    let power := exponent rest
    let tail := (rest.drop power).head?.map "jJlL".toList.contains
    whole + part + power + if tail.getD false then 1 else 0

def marks : List String :=
  ["...", "**=", "//=", ">>=", "<<=", "@=", "+=", "-=", "*=", "/=", "%=", "&=", "|=", "^=", "==", "!=",
    "<>", "<=", ">=", "<<", ">>", "**", "//", "->", ":=", "+", "-", "*", "/", "%", "@", "&", "|", "^",
    "~", "<", ">", "=", "(", ")", "[", "]", "\x7b", "\x7d", ",", ":", ".", ";"]

def isBlank (c : Char) : Bool :=
  c = ' ' || c = '\t' || c = '\r' || c = '\n' || c = '\x0c' || c = '\ufeff' || c = '\u200b'
    || c = '\u2060'

def lexeme (_ : Scan) (cs : List Char) : Lexeme × Nat :=
  match cs with
  | [] => (.blank, 1)
  | '\\' :: '\n' :: _ => (.joint, 2)
  | '\\' :: '\r' :: '\n' :: _ => (.joint, 3)
  | c :: rest =>
    if isBlank c then (.blank, Measure.whileTrue isBlank cs)
    else if c = '#' then (.token .remark, Measure.line cs)
    else
      match stringHead? cs with
      | some (letters, quote, inside) =>
        match string? letters quote inside with
        | some n => (.token .text, n)
        | none => (.token .invalid, Measure.line cs)
      | none =>
        if isNameStart c then (.token .word, 1 + Measure.whileTrue isNameChar rest)
        else if c.isDigit || (c = '.' && (rest.head?.map Char.isDigit).getD false) then
          (.token .number, number cs)
        else
          match Measure.longest? marks cs with
          | some n => (.token .mark, n)
          | none => (.token .invalid, 1)

/-- How far a line with these blanks in front is indented. -/
def indentation (cs : List Char) : Nat :=
  cs.foldl (fun n c => if c = ' ' then n + 1 else if c = '\t' then n + 8
    else if c = '\r' || c = '\x0c' then 0 else n) 0

/-- A token that knows how far its line is indented, if it is the first there. -/
def indented (chars : Array Char) (t : Token) : Token :=
  if t.fresh then
    { t with column :=
        indentation (chars.extract (t.span.start - t.column) t.span.start).toList }
  else t

/-- Words that start a statement even behind an open bracket, when no blank is in front of them. -/
def starters : List String := ["def", "class", "import", "from", "async", "@"]

/-- Marks and words behind which no statement can end. -/
def joiners : List String :=
  ["=", "+=", "-=", "*=", "/=", "@=", "//=", "%=", "**=", ">>=", "<<=", "&=", "^=", "|=", "+", "-", "*",
    "/", "%", "**", "//", "<<", ">>", "&", "|", "^", "~", "==", "!=", "<>", "<", ">", "<=", ">=", "and",
    "or", "not", "in", "is", "import", "as", ".", "->", ":="]

/-- Words that only start a statement or a part of one. -/
def leaders : List String :=
  ["def", "class", "import", "from", "async", "return", "pass", "break", "continue", "raise", "del",
    "global", "nonlocal", "assert", "for", "while", "with", "try", "if", "elif", "else", "except",
    "finally", "@"]

/-- A statement that is being read. -/
structure Line where
  /-- How far it is indented. -/
  column : Nat
  last : Token
  /-- Whether it cannot end behind the last token. -/
  dangling : Bool

namespace Line

def next (line : Option Line) (t : Token) : Line :=
  match line with
  | none => ⟨t.column, t, joiners.any t.is⟩
  | some l => ⟨l.column, t, joiners.any t.is && !(t.is "*" && l.last.is "import")⟩

/-- Whether it goes on with the first token of another row. -/
def goesOn (l : Line) (t : Token) : Bool :=
  l.dangling && t.column ≥ l.column && !leaders.any t.is

def newline (l : Line) : Token :=
  let last := l.last.span
  ⟨.newline, "", ⟨last.stop, last.stop, last.lastRow, last.lastRow⟩, 0, false⟩

end Line

/-- Puts in the ends of lines outside of brackets; of remarks only those that have a line there to
themselves stay. `line` is the statement being read. -/
def layout (depth : Nat) (line : Option Line) : List Token → List Token
  | [] => (line.map Line.newline).toList
  | t :: rest =>
    let depth := if t.fresh && t.column = 0 && starters.any t.is then 0 else depth
    let ends := t.fresh && depth = 0 && !(line.map (·.goesOn t)).getD false
    let front := if ends then (line.map Line.newline).toList else []
    if t.kind = .remark then
      if ends then front ++ t :: layout 0 none rest else layout depth line rest
    else
      let after :=
        if ["(", "[", "\x7b"].any t.is then depth + 1
        else if [")", "]", "\x7d"].any t.is then depth - 1
        else depth
      front ++ t :: layout after (some (Line.next (if ends then none else line) t)) rest

end CodeAgent.Syntax.Python
