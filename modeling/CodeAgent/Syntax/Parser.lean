import CodeAgent.Syntax.Token

/-! Parsers over tokens.
A parser takes tokens from the front or fails; after a failure another can be tried from the same
place. A fault that is mended is noted and does not fail. Recursion goes through rules: a grammar
says what each rule is in terms of the rules, and is unrolled as often as there is fuel. -/
namespace CodeAgent.Syntax

structure ParserState where
  tokens : List Token
  /-- How many tokens are left. -/
  left : Nat
  /-- Where the token taken last ends. -/
  stop : Nat
  row : Nat
  /-- Where the first fault is: characters before it, and its row. -/
  problem : Option (Nat × Nat)
  /-- Where the list read last has ended: characters before its end. -/
  listEnd : Nat
deriving Inhabited

abbrev Parser := StateT ParserState Option

namespace Parser

def fail : Parser α := fun _ => none

def peek : Parser (Option Token) := fun s => some (s.tokens.head?, s)

/-- The token after the next. -/
def peekSecond : Parser (Option Token) := fun s => some ((s.tokens.drop 1).head?, s)

/-- All tokens that are left. -/
def ahead : Parser (List Token) := fun s => some (s.tokens, s)

def left : Parser Nat := fun s => some (s.left, s)

def atEnd : Parser Bool := fun s => some (s.tokens.isEmpty, s)

def ensure (b : Bool) : Parser Unit := if b then pure () else fail

def take (ok : Token → Bool) : Parser Token := fun s =>
  match s.tokens with
  | t :: rest =>
    if ok t then some (t, { s with
      tokens := rest, left := s.left - 1, stop := t.span.stop, row := t.span.lastRow })
    else none
  | [] => none

def any : Parser Token := take fun _ => true

def leaf (k : Kind) (t : Token) : Node := .mk k none t.span []

/-- Takes a mark or word. -/
def sym (text : String) : Parser Token := take (·.is text)

/-- Takes one of some marks or words. -/
def oneOf (texts : List String) : Parser Token := take fun t => texts.any t.is

def ofKind (k : TokenKind) : Parser Token := take (·.kind = k)

def nextIs (text : String) : Parser Bool := return ((← peek).map (·.is text)).getD false

def nextIn (texts : List String) : Parser Bool :=
  return ((← peek).map fun t => texts.any t.is).getD false

def secondIs (text : String) : Parser Bool := return ((← peekSecond).map (·.is text)).getD false

def opt? (p : Parser α) : Parser (Option α) := fun s =>
  match p s with
  | some (a, s) => some (some a, s)
  | none => some (none, s)

/-- Takes a mark or word if it comes next. -/
def skip (text : String) : Parser Bool := return (← opt? (sym text)).isSome

/-- The nodes of an optional part. -/
def maybe (p : Parser (List Node)) : Parser (List Node) := return (← opt? p).getD []

def one (p : Parser Node) : Parser (List Node) := return [← p]

def orElse (p q : Parser α) : Parser α := fun s =>
  match p s with
  | some r => some r
  | none => q s

def choose : List (Parser α) → Parser α
  | [] => fail
  | p :: ps => orElse p (choose ps)

def manyWithin (p : Parser (List Node)) : Nat → Parser (List Node)
  | 0 => pure []
  | n + 1 => fun s =>
    match p s with
    | some (ns, s') =>
      if s'.left < s.left then
        (do return ns ++ (← manyWithin p n) : Parser (List Node)) s'
      else some ([], s)
    | none => some ([], s)

/-- As often as the parser takes something. -/
def many (p : Parser (List Node)) : Parser (List Node) := fun s =>
  manyWithin p (s.left + 1) s

def noteListEnd : Parser Unit := fun s => some ((), { s with listEnd := s.stop })

/-- Items with a mark between them; one may follow the last. -/
def separated (mark : String) (p : Parser (List Node)) : Parser (List Node) := do
  let first ← opt? p
  match first with
  | none => return []
  | some ns => do
    let more ← many (do let _ ← sym mark; p)
    if !(← skip mark) then noteListEnd
    return ns ++ more

/-- Notes a fault, if none was noted before it. -/
def report (pos row : Nat) : Parser Unit := fun s =>
  some ((), { s with problem := match s.problem with
    | some (p, r) => if p ≤ pos then some (p, r) else some (pos, row)
    | none => some (pos, row) })

def reportAt (t : Token) : Parser Unit := report t.span.start t.span.row

/-- Notes that something is missing behind the token taken last. -/
def reportMissing : Parser Unit := fun s => report s.stop s.row s

/-- Notes that something is missing in front of one of some marks or words. -/
def missing (texts : List String) : Parser (List Node) := do
  ensure (← nextIn texts)
  reportMissing
  return []

/-- Notes that a group cannot be read on: at the end of a list that has just ended, since a mark is
missing there, or else at the next token. -/
def reportStop : Parser Unit := do
  match ← peek with
  | none => return ()
  | some t => fun s => if s.listEnd = s.stop then reportMissing s else reportAt t s

def whole : Parser Bool := fun s => some (s.problem.isNone, s)

/-- A construct from a place to the token taken last. -/
def close (k : Kind) (start row : Nat) (cs : List Node) : Parser Node := fun s =>
  let span : Span := if s.stop ≤ start then ⟨start, start, row, row⟩ else ⟨start, s.stop, row, s.row⟩
  some (.mk k none span cs, s)

/-- Where the next token starts, and its row. -/
def here : Parser (Nat × Nat) := fun s =>
  some (match s.tokens with
    | t :: _ => (t.span.start, t.span.row)
    | [] => (s.stop, s.row), s)

/-- A construct from the next token on, whose kind shows only at its end. -/
def nodeOf (p : Parser (Kind × List Node)) : Parser Node := do
  let (start, row) ← here
  let (k, cs) ← p
  close k start row cs

/-- A construct from the next token on. -/
def node (k : Kind) (p : Parser (List Node)) : Parser Node := nodeOf (return (k, ← p))

def brackets : List (String × String) := [("(", ")"), ("[", "]"), ("\x7b", "\x7d")]
def closers : List String := brackets.map (·.2)

/-- What closes the bracket that a token opens. -/
def closer? (t : Token) : Option String := (brackets.find? fun b => t.is b.1).map (·.2)

/-- What a closing bracket leaves of those that are awaited, the innermost first. A brace closes what
was left open inside of it, too; another bracket that is not awaited means nothing. -/
def close? (t : Token) (awaited : List String) : Option (List String) :=
  match awaited with
  | [] => none
  | c :: more =>
    if t.is c then some more
    else if t.is "\x7d" then
      match more.dropWhile (· ≠ "\x7d") with
      | [] => none
      | _ :: outer => some outer
    else some awaited

/-- The tokens behind the last of the closing brackets that are awaited. -/
def behind? : List String → List Token → Option (List Token)
  | [], rest => some rest
  | _, [] => none
  | awaited, t :: rest =>
    match closer? t with
    | some c => behind? (c :: awaited) rest
    | none => do behind? (← if closers.any t.is then close? t awaited else some awaited) rest

/-- The tokens behind the bracketed group that starts here. -/
def behindNext? : List Token → Option (List Token)
  | [] => none
  | t :: rest => (closer? t).bind fun c => behind? [c] rest

/-- Goes on at given tokens, the last token before them counting as taken. -/
def jump (target : List Token) : Parser Unit := fun s =>
  let left := target.length
  match (s.tokens.take (s.left - left)).getLast? with
  | some t => some ((), { s with
      tokens := target, left := left, stop := t.span.stop, row := t.span.lastRow })
  | none => some ((), s)

/-- The inside of a bracketed group that can be read to its end. -/
def enclosed (opening closing : String) (inside : Parser (List Node)) : Parser (List Node) := do
  let _ ← sym opening
  let ns ← inside
  let _ ← sym closing
  return ns

/-- The inside of a bracketed group; what cannot be read there is a fault that the group contains. -/
def group (opening closing : String) (inside : Parser (List Node)) : Parser (List Node) := do
  let _ ← sym opening
  let rest ← ahead
  let ns ← maybe inside
  match ← opt? (sym closing) with
  | some _ => return ns
  | none =>
    match behind? [closing] rest with
    | some target => do
      reportStop
      jump target
      return ns
    | none => fail

/-- A group that may lack its closing bracket at the end of the file, but only once. -/
def body (opening closing : String) (inside : Parser (List Node)) : Parser (List Node) :=
  orElse (group opening closing inside) (do
    let _ ← sym opening
    let ns ← inside
    ensure (← atEnd)
    ensure (← whole)
    reportMissing
    return ns)

/-- Runs over all tokens; where `item` fails, `recover` has to take something. -/
def itemsWithin (item recover : Parser (List Node)) : Nat → Parser (List Node)
  | 0 => pure []
  | n + 1 => do
    if ← atEnd then return []
    let before ← left
    let ns ← orElse item recover
    if (← left) < before then return ns ++ (← itemsWithin item recover n)
    else return ns

def items (item recover : Parser (List Node)) : Parser (List Node) := fun s =>
  itemsWithin item recover (s.left + 1) s

/-- The tokens from a later line on, or from the end of the brackets on. -/
def laterLine : List String → List Token → List Token
  | _, [] => []
  | awaited, t :: rest =>
    if awaited.isEmpty && t.fresh then t :: rest
    else
      match closer? t with
      | some c => laterLine (c :: awaited) rest
      | none =>
        if closers.any t.is then
          match close? t awaited with
          | some awaited => laterLine awaited rest
          | none => t :: rest
        else laterLine awaited rest

/-- Notes a fault at the next token and goes on at a later line in the same brackets. -/
def skipInside : Parser (List Node) := do
  match ← ahead with
  | [] => fail
  | t :: rest => do
    ensure (!closers.any t.is)
    reportAt t
    jump (laterLine (closer? t).toList rest)
    return []

/-- Drops tokens up to the next line that starts without indentation and with no closing bracket. -/
def skipLines : Parser Unit := do
  match ← ahead with
  | [] => return ()
  | _ :: rest =>
    jump (rest.dropWhile fun t => !(t.fresh && t.column = 0 && !closers.any t.is))

/-- Notes a fault at the next token and goes on at a later line. -/
def skipFault : Parser (List Node) := do
  match ← peek with
  | none => return []
  | some t => do
    reportAt t
    if closers.any t.is then let _ ← any
    else skipLines
    return []

end Parser

/-- Unrolls the rules of a grammar. -/
def unroll {Rule : Type} (grammar : (Rule → Parser Node) → Rule → Parser Node) :
    Nat → Rule → Parser Node
  | 0, _ => Parser.fail
  | n + 1, r => grammar (unroll grammar n) r

/-- How far rules are unrolled for a number of tokens. -/
def depthFor (tokens : Nat) : Nat := 16 * tokens + 64

/-- Reads a whole file. -/
def readTree (p : Parser Node) (tokens : List Token) (comments : List Span) (length : Nat)
    (lastRow : Nat) : Tree :=
  match p ⟨tokens, tokens.length, 0, 0, none, 0⟩ with
  | some (n, s) =>
    let root := Node.mk .source none ⟨0, length, 0, lastRow⟩ n.children
    ⟨root.withComments comments, s.problem.map (·.2)⟩
  | none => ⟨.mk .source none ⟨0, length, 0, lastRow⟩ [], some 0⟩

end CodeAgent.Syntax
