import CodeAgent.Syntax.Token

/-! Tokens of TypeScript and JavaScript.
Whether a slash starts a pattern, and in files with markup whether a less-than sign starts an
element, depends on the token before it. Angle brackets are marks of their own, for type
arguments. -/
namespace CodeAgent.Syntax.TypeScript

/-- Blanks beyond the ASCII ones. -/
def isWideBlank (n : Nat) : Bool :=
  n = 0xa0 || n = 0x1680 || (0x2000 ≤ n && n ≤ 0x200b) || n = 0x2028 || n = 0x2029 || n = 0x202f
    || n = 0x205f || n = 0x2060 || n = 0x3000 || n = 0xfeff

def isBlank (c : Char) : Bool :=
  c = ' ' || ('\t' ≤ c && c ≤ '\r') || isWideBlank c.toNat

def punctuation : List Char := ":;\x60\"'@#.,|^&<=>+-*/\\%?!~()[]\x7b\x7d".toList

/-- Anything but blanks, controls and punctuation may stand in a name. -/
def isNameChar (c : Char) : Bool := c.toNat > 0x1f && !isBlank c && !punctuation.contains c

def isNameStart (c : Char) : Bool := isNameChar c && !c.isDigit

/-- What a skim over nested text is in. -/
inductive Mode where
  | template | braces | lineComment | blockComment | tag | closingTag | elements
  | quote (c : Char)
  | pattern (inClass : Bool)
deriving DecidableEq, Repr

/-- Characters behind which an element may start. -/
def beforeElement : List Char := "(,=&|?:\x7b\x7d[!;>".toList

/-- Characters behind which a slash starts a pattern. -/
def beforePattern : List Char := "(,=:[!&|?\x7b\x7d;+-*~^<>%".toList

/-- What a character does to the modes, and how many characters behind it belong to it. -/
def step (m : Mode) (below : List Mode) (prev c : Char) (next : Option Char) : List Mode × Nat :=
  match m with
  | .template =>
    if c = '\\' then (m :: below, 1)
    else if c = '\x60' then (below, 0)
    else if c = '$' && next = some '\x7b' then (.braces :: m :: below, 1)
    else (m :: below, 0)
  | .braces =>
    if c = '\x7d' then (below, 0)
    else if c = '\x7b' then (.braces :: m :: below, 0)
    else if c = '"' || c = '\'' then (.quote c :: m :: below, 0)
    else if c = '\x60' then (.template :: m :: below, 0)
    else if c = '/' && next = some '/' then (.lineComment :: m :: below, 1)
    else if c = '/' && next = some '*' then (.blockComment :: m :: below, 1)
    else if c = '/' && beforePattern.contains prev then (.pattern false :: m :: below, 0)
    else if c = '<' && beforeElement.contains prev
        && (next.map fun n => isNameStart n || n = '>').getD false then (.tag :: m :: below, 0)
    else (m :: below, 0)
  | .quote q =>
    if c = '\\' then (m :: below, 1) else if c = q || c = '\n' then (below, 0) else (m :: below, 0)
  | .pattern inClass =>
    if c = '\\' then (m :: below, 1)
    else if c = '\n' || (c = '/' && !inClass) then (below, 0)
    else (.pattern (if c = '[' then true else if c = ']' then false else inClass) :: below, 0)
  | .lineComment => if c = '\n' then (below, 0) else (m :: below, 0)
  | .blockComment => if c = '*' && next = some '/' then (below, 1) else (m :: below, 0)
  | .tag =>
    if c = '"' || c = '\'' then (.quote c :: m :: below, 0)
    else if c = '\x7b' then (.braces :: m :: below, 0)
    else if c = '/' && next = some '>' then (below, 1)
    else if c = '>' then (.elements :: below, 0)
    else (m :: below, 0)
  | .closingTag => if c = '>' then (below.tail, 0) else (m :: below, 0)
  | .elements =>
    if c = '\x7b' then (.braces :: m :: below, 0)
    else if c = '<' && next = some '/' then (.closingTag :: m :: below, 1)
    else if c = '<' then (.tag :: m :: below, 0)
    else (m :: below, 0)

/-- How many characters it takes to leave all modes. -/
def skim? (modes : List Mode) (prev : Char) (idle : Nat) : List Char → Option Nat
  | [] => if modes.isEmpty then some 0 else none
  | c :: cs =>
    match idle, modes with
    | idle + 1, modes => (skim? modes c idle cs).map (· + 1)
    | 0, [] => some 0
    | 0, m :: below =>
      let (modes, idle) := step m below prev c cs.head?
      (skim? modes (if isBlank c then prev else c) idle cs).map (· + 1)

/-- Words that no operand ends with. -/
def openWords : List String :=
  ["return", "typeof", "instanceof", "in", "of", "new", "delete", "void", "throw", "case", "do",
    "else", "yield", "await", "extends", "default"]

/-- Whether an operand ends with this token. -/
def endsOperand (t : Token) : Bool :=
  match t.kind with
  | .word => !openWords.contains t.text
  | .mark => [")", "]", "\x7d", "++", "--"].contains t.text
  | _ => true

def marks : List String :=
  ["...", "=>", "?.", "??=", "??", "&&=", "||=", "&&", "||", "===", "!==", "==", "!=", "**=", "**",
    "++", "--", "+=", "-=", "*=", "/=", "%=", "&=", "|=", "^=", "<<=", "<<", "<=", ">", "<", "=", "+",
    "-", "*", "/", "%", "&", "|", "^", "!", "~", "?", ":", ";", ",", ".", "(", ")", "[", "]", "\x7b",
    "\x7d", "@"]

/-- A pattern behind its opening slash, flags counted. -/
def pattern? (inClass : Bool) : List Char → Option Nat
  | [] => none
  | '\\' :: _ :: cs => (pattern? inClass cs).map (· + 2)
  | c :: cs =>
    if c = '\n' then none
    else if c = '/' && !inClass then some (1 + Measure.whileTrue isNameChar cs)
    else (pattern? (if c = '[' then true else if c = ']' then false else inClass) cs).map (· + 1)

/-- Whether type parameters of an arrow function stand behind a less-than sign. -/
def opensTypeParameters (cs : List Char) : Bool :=
  let rest := (cs.dropWhile isNameChar).dropWhile isBlank
  rest.head? = some ',' || "extends ".toList.isPrefixOf rest

def opensElement (cs : List Char) : Bool :=
  (cs.head?.map fun c => isNameStart c || c = '>').getD false && !opensTypeParameters cs

def number (cs : List Char) : Nat :=
  match cs with
  | c :: d :: rest =>
    if c = '0' && "xXoObB".toList.contains d then 2 + Measure.whileTrue isNameChar rest
    else digits (c :: d :: rest)
  | cs => digits cs
where
  isDigit (c : Char) : Bool := c.isDigit || c = '_'
  exponent (cs : List Char) : Nat :=
    match cs with
    | e :: sign :: rest =>
      if e = 'e' || e = 'E' then
        if (sign = '+' || sign = '-') then 2 + Measure.whileTrue isDigit rest
        else if sign.isDigit then 1 + Measure.whileTrue isDigit (sign :: rest)
        else 0
      else 0
    | _ => 0
  suffix (cs : List Char) : Nat := if cs.head? = some 'n' then 1 else 0
  digits (cs : List Char) : Nat :=
    let whole := Measure.whileTrue isDigit cs
    let rest := cs.drop whole
    let part := match rest with
      | '.' :: more => 1 + Measure.whileTrue isDigit more
      | _ => 0
    let rest := rest.drop part
    let exp := exponent rest
    whole + part + exp + suffix (rest.drop exp)

def lexeme (markup : Bool) (s : Scan) (cs : List Char) : Lexeme × Nat :=
  let operand := (s.tokens.head?.map endsOperand).getD false
  match cs with
  | [] => (.blank, 1)
  | c :: rest =>
    let second := rest.head?
    if isBlank c then (.blank, Measure.whileTrue isBlank cs)
    else if c = '/' && second = some '/' then (.comment, Measure.line cs)
    else if c = '#' && second = some '!' && s.pos = 0 then (.comment, Measure.line cs)
    else if c = '/' && second = some '*' then
      match Measure.through? ['*', '/'] (rest.drop 1) with
      | some n => (.comment, n + 2)
      | none => (.token .invalid, 1)
    else if isNameStart c || (c = '#' && (second.map isNameStart).getD false) then
      (.token .word, 1 + Measure.whileTrue isNameChar rest)
    else if c.isDigit || (c = '.' && (second.map Char.isDigit).getD false) then
      (.token .number, number cs)
    else if c = '"' || c = '\'' then
      match Measure.quoted? c rest with
      | some n => (.token .text, n + 1)
      | none => (.token .invalid, Measure.line cs)
    else if c = '\x60' then
      match skim? [.template] '\x60' 0 rest with
      | some n => (.token .template, n + 1)
      | none => (.token .invalid, 1)
    else if c = '/' && !operand && (pattern? false rest).isSome then
      (.token .pattern, 1 + (pattern? false rest).getD 0)
    else if markup && c = '<' && !operand && opensElement rest then
      match skim? [.tag] '<' 0 rest with
      | some n => (.token .markup, n + 1)
      | none => (.token .invalid, 1)
    else if c = '?' && second = some '.' && ((rest.drop 1).head?.map Char.isDigit).getD false then
      (.token .mark, 1)
    else
      match Measure.longest? marks cs with
      | some n => (.token .mark, n)
      | none => (.token .invalid, 1)

end CodeAgent.Syntax.TypeScript
