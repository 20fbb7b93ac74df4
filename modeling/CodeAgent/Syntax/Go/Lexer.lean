import CodeAgent.Syntax.Token
import CodeAgent.Text.Identifier

/-! Tokens of Go. The end of a line is a token where a statement may end. -/
namespace CodeAgent.Syntax.Go

def isNameStart (c : Char) : Bool := c = '_' || Text.isNameStart c
def isNameChar (c : Char) : Bool := c = '_' || Text.isNameFollower c

def isBlank (c : Char) : Bool := c = ' ' || ('\t' ≤ c && c ≤ '\r')

def isDigit (c : Char) : Bool := c.isDigit || c = '_'

def exponent : List Char → Nat
  | e :: sign :: rest =>
    if "eEpP".toList.contains e then
      if sign = '+' || sign = '-' then 2 + Measure.whileTrue isDigit rest
      else if sign.isDigit then 1 + Measure.whileTrue isDigit (sign :: rest)
      else 0
    else 0
  | _ => 0

def number (cs : List Char) : Nat :=
  let isPart : Char → Bool :=
    match cs with
    | '0' :: d :: _ =>
      if "xX".toList.contains d then fun c => (c.isAlphanum && c ≠ 'p' && c ≠ 'P') || c = '_'
      else if "bBoO".toList.contains d then fun c => c.isAlphanum || c = '_'
      else isDigit
    | _ => isDigit
  let whole := Measure.whileTrue isPart cs
  let rest := cs.drop whole
  let part := match rest with
    | '.' :: more => 1 + Measure.whileTrue isPart more
    | _ => 0
  let rest := rest.drop part
  let power := exponent rest
  whole + part + power + if (rest.drop power).head? = some 'i' then 1 else 0

def marks : List String :=
  ["...", "<<=", ">>=", "&^=", "&^", "<-", "++", "--", "==", "!=", "<=", ">=", ":=", "+=", "-=", "*=",
    "/=", "%=", "&=", "|=", "^=", "<<", ">>", "&&", "||", "+", "-", "*", "/", "%", "&", "|", "^", "<",
    ">", "=", "!", "(", ")", "[", "]", "\x7b", "\x7d", ",", ".", ";", ":", "~"]

def lexeme (_ : Scan) (cs : List Char) : Lexeme × Nat :=
  match cs with
  | [] => (.blank, 1)
  | c :: rest =>
    if isBlank c then (.blank, Measure.whileTrue isBlank cs)
    else if c = '/' && rest.head? = some '/' then (.comment, Measure.line cs)
    else if c = '/' && rest.head? = some '*' then
      match Measure.through? ['*', '/'] (rest.drop 1) with
      | some n => (.comment, n + 2)
      | none => (.token .invalid, 1)
    else if isNameStart c then (.token .word, 1 + Measure.whileTrue isNameChar rest)
    else if c.isDigit || (c = '.' && (rest.head?.map Char.isDigit).getD false) then
      (.token .number, number cs)
    else if c = '"' || c = '\'' then
      match Measure.quoted? c rest with
      | some n => (.token .text, n + 1)
      | none => (.token .invalid, Measure.line cs)
    else if c = '\x60' then
      match Measure.through? ['\x60'] rest with
      | some n => (.token .text, n + 1)
      | none => (.token .invalid, 1)
    else
      match Measure.longest? marks cs with
      | some n => (.token .mark, n)
      | none => (.token .invalid, 1)

def keywords : List String :=
  ["break", "case", "chan", "const", "continue", "default", "defer", "else", "fallthrough", "for",
    "func", "go", "goto", "if", "import", "interface", "map", "package", "range", "return", "select",
    "struct", "switch", "type", "var"]

/-- Whether a statement may end behind this token. -/
def mayEnd (t : Token) : Bool :=
  match t.kind with
  | .word =>
    !keywords.contains t.text || ["break", "continue", "fallthrough", "return"].contains t.text
  | .mark => [")", "]", "\x7d", "++", "--"].contains t.text
  | _ => true

/-- The end of the line behind a token. -/
def lineEnd (t : Token) : Token :=
  let row := t.span.lastRow
  ⟨.newline, "", ⟨t.span.stop, t.span.stop + 1, row, row + 1⟩, 0, false⟩

/-- Puts in the ends of lines; `lastRow` is where the file ends. -/
def layout (lastRow : Nat) : List Token → List Token
  | [] => []
  | [t] => t :: if mayEnd t && t.span.lastRow < lastRow then [lineEnd t] else []
  | t :: next :: rest =>
    t :: (if mayEnd t && next.fresh then [lineEnd t] else []) ++ layout lastRow (next :: rest)

end CodeAgent.Syntax.Go
