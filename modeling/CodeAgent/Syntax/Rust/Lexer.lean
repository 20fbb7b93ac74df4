import CodeAgent.Syntax.Token
import CodeAgent.Text.Word
import CodeAgent.Text.Identifier

/-! Tokens of Rust. Angle brackets are marks of their own, for generic arguments. -/
namespace CodeAgent.Syntax.Rust

def isNameStart (c : Char) : Bool := c = '_' || Text.isNameStart c
def isNameChar (c : Char) : Bool := c = '_' || Text.isNameFollower c

/-- A comment behind its opening; comments nest. -/
def blockComment? (depth : Nat) (idle : Bool) : List Char → Option Nat
  | [] => none
  | c :: cs =>
    if idle then
      if depth = 0 then some 1 else (blockComment? depth false cs).map (· + 1)
    else if c = '/' && cs.head? = some '*' then (blockComment? (depth + 1) true cs).map (· + 1)
    else if c = '*' && cs.head? = some '/' then (blockComment? (depth - 1) true cs).map (· + 1)
    else (blockComment? depth false cs).map (· + 1)

/-- A comment to the end of the line. One that documents what follows takes the line break along. -/
def lineComment (cs : List Char) : Nat :=
  let length := Measure.line cs
  let documents := "///".toList.isPrefixOf cs && !"////".toList.isPrefixOf cs
    || "//!".toList.isPrefixOf cs
  if documents then length + min 1 (cs.length - length) else length

/-- A string behind its opening quote, over as many lines as it takes. -/
def quoted? : List Char → Option Nat
  | [] => none
  | '\\' :: _ :: cs => (quoted? cs).map (· + 2)
  | c :: cs => if c = '"' then some 1 else (quoted? cs).map (· + 1)

/-- A raw string: hashes, a quote, and what ends with a quote and as many hashes. -/
def raw? (cs : List Char) : Option Nat :=
  let hashes := cs.takeWhile (· = '#')
  match cs.drop hashes.length with
  | '"' :: rest => (Measure.through? ('"' :: hashes) rest).map (· + hashes.length + 1)
  | _ => none

/-- A character behind its opening quote. -/
def character? : List Char → Option Nat
  | '\\' :: _ :: cs =>
    let rest := cs.takeWhile fun c => c ≠ '\'' && c ≠ '\n'
    if (cs.drop rest.length).head? = some '\'' then some (rest.length + 3) else none
  | _ :: '\'' :: _ => some 2
  | _ => none

/-- The letters that may stand in front of a literal, and the literal. -/
def literal? (cs : List Char) : Option Nat :=
  let plain (cs : List Char) : Option Nat :=
    match cs with
    | '"' :: rest => (quoted? rest).map (· + 1)
    | 'r' :: rest => (raw? rest).map (· + 1)
    | _ => none
  match cs with
  | 'b' :: '\'' :: rest => (character? rest).map (· + 2)
  | 'b' :: rest => (plain rest).map (· + 1)
  | 'c' :: rest => (plain rest).map (· + 1)
  | '\'' :: rest => (character? rest).map (· + 1)
  | _ => plain cs

def number (cs : List Char) : Nat :=
  let part (cs : List Char) : Nat :=
    let run := Measure.whileTrue (fun c => c.isAlphanum || c = '_') cs
    let last := (cs.take run).getLast?
    match cs.drop run with
    | sign :: d :: rest =>
      if (last = some 'e' || last = some 'E') && (sign = '+' || sign = '-') && d.isDigit
          && !"0x".toList.isPrefixOf cs then
        run + 1 + Measure.whileTrue (fun c => c.isAlphanum || c = '_') (d :: rest)
      else run
    | _ => run
  let whole := part cs
  match cs.drop whole with
  | '.' :: d :: rest =>
    if d.isDigit then whole + 1 + part (d :: rest)
    else if d = '.' || isNameStart d then whole
    else whole + 1
  | ['.'] => whole + 1
  | _ => whole

def marks : List String :=
  ["...", "..=", "..", "::", "->", "=>", "==", "!=", "&&", "||", "+=", "-=", "*=", "/=", "%=", "^=",
    "&=", "|=", "+", "-", "*", "/", "%", "^", "!", "&", "|", "=", ">", "<", "@", ".", ",", ";", ":",
    "#", "$", "?", "~", "(", ")", "[", "]", "\x7b", "\x7d"]

def lexeme (_ : Scan) (cs : List Char) : Lexeme × Nat :=
  match cs with
  | [] => (.blank, 1)
  | c :: rest =>
    if Text.isBlank c then (.blank, Measure.whileTrue Text.isBlank cs)
    else if c = '/' && rest.head? = some '/' then (.comment, lineComment cs)
    else if c = '/' && rest.head? = some '*' then
      match blockComment? 1 true rest with
      | some n => (.comment, n + 1)
      | none => (.token .invalid, cs.length)
    else
      match literal? cs with
      | some n => (.token .text, n)
      | none =>
        if c = 'r' && rest.head? = some '#' && ((rest.drop 1).head?.map isNameStart).getD false then
          (.token .word, 2 + Measure.whileTrue isNameChar (rest.drop 1))
        else if isNameStart c then (.token .word, 1 + Measure.whileTrue isNameChar rest)
        else if c = '\'' && (rest.head?.map isNameStart).getD false then
          (.token .lifetime, 1 + Measure.whileTrue isNameChar rest)
        else if c.isDigit then (.token .number, number cs)
        else if c = '"' then (.token .invalid, cs.length)
        else
          match Measure.longest? marks cs with
          | some n => (.token .mark, n)
          | none => (.token .invalid, 1)

end CodeAgent.Syntax.Rust
