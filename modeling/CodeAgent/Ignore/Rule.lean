import CodeAgent.Path.Lexical
import CodeAgent.Text.Find

/-! Rules of ignore files.
A rule is a pattern over the bytes of a path below the directory of its file. A rule may keep what
others ignore, and may be about directories alone; the last rule that a path meets decides. -/
namespace CodeAgent.Ignore

inductive RuleToken where
  | byte (b : UInt8)
  /-- One byte within a component. -/
  | anyByte
  | within (negated : Bool) (ranges : List (UInt8 × UInt8))
  /-- Any bytes within a component. -/
  | anySpan
  /-- Any directories at the front, in the middle, at the end. -/
  | front | middle | tail
  | either (branches : List (List RuleToken))
deriving Inhabited

def slash : UInt8 := 47

def bytesOf (c : Char) : List UInt8 := (String.singleton c).toUTF8.toList

/-! Reading patterns -/

/-- Tokens read so far, in reverse; for each open brace the branches behind it and the tokens in front
of it. -/
structure RuleReading where
  current : List RuleToken
  groups : List (List (List RuleToken) × List RuleToken)

namespace RuleReading

def push (r : RuleReading) (ts : List RuleToken) : RuleReading :=
  { r with current := ts.reverse ++ r.current }

def pushChar (r : RuleReading) (c : Char) : RuleReading := r.push ((bytesOf c).map .byte)

def openGroup (r : RuleReading) : RuleReading := ⟨[], ([], r.current) :: r.groups⟩

def nextBranch (r : RuleReading) : RuleReading :=
  match r.groups with
  | [] => r.pushChar ','
  | (done, before) :: outer => ⟨[], (r.current.reverse :: done, before) :: outer⟩

def closeGroup? (r : RuleReading) : Option RuleReading :=
  match r.groups with
  | [] => none
  | (done, before) :: outer =>
    some ⟨.either (r.current.reverse :: done).reverse :: before, outer⟩

end RuleReading

/-- The ranges of a class behind its opening bracket and its negation, in reverse, and what follows
the class; `none` when it does not close or a range runs backwards. -/
def readClass (first inRange : Bool) (done : List (Char × Char)) :
    List Char → Option (List (Char × Char) × List Char)
  | [] => none
  | c :: rest =>
    if c = ']' && !first then some (if inRange then ('-', '-') :: done else done, rest)
    else if c = '-' && !first && !inRange then readClass false true done rest
    else
      match inRange, done with
      | true, (a, _) :: others =>
        if c < a then none else readClass false false ((a, c) :: others) rest
      | _, _ => readClass false false ((c, c) :: done) rest

/-- A range between characters as ranges of bytes. -/
def byteRanges (r : Char × Char) : List (UInt8 × UInt8) :=
  let single (b : UInt8) := (b, b)
  if r.1 = r.2 then (bytesOf r.1).map single
  else
    match (bytesOf r.1).reverse, bytesOf r.2 with
    | a :: before, b :: after => before.map single ++ [(a, b)] ++ after.map single
    | _, _ => []

/-- Two stars stand for directories when they are a component of their own. -/
def readStars (r : RuleReading) (prev : Option Char) (rest : List Char) :
    RuleReading × List Char :=
  let plain := (r.push [.anySpan, .anySpan], rest)
  if r.current.isEmpty then
    match rest with
    | [] => (r.push [.front], [])
    | '/' :: rest => (r.push [.front], rest)
    | _ => plain
  else if prev ≠ some '/' then plain
  else
    let replace (t : RuleToken) : RuleReading :=
      match r.current with
      | .front :: before => { r with current := .front :: before }
      | .tail :: before => { r with current := .tail :: before }
      | _ :: before => { r with current := t :: before }
      | [] => { r with current := [t] }
    match rest with
    | [] => (replace .tail, [])
    | '/' :: rest => (replace .middle, rest)
    | c :: _ => if !r.groups.isEmpty && (c = ',' || c = '\x7d') then (replace .tail, rest) else plain

def readRule (r : RuleReading) (prev : Option Char) : (fuel : Nat) → List Char → Option RuleReading
  | 0, _ => none
  | _ + 1, [] => if r.groups.isEmpty then some r else none
  | fuel + 1, c :: rest =>
    match c with
    | '?' => readRule (r.push [.anyByte]) (some c) fuel rest
    | '*' =>
      match rest with
      | '*' :: rest =>
        let (r, after) := readStars r prev rest
        readRule r (some (if after.length < rest.length then '/' else '*')) fuel after
      | _ => readRule (r.push [.anySpan]) (some c) fuel rest
    | '[' =>
      let negated := rest.head? = some '!' || rest.head? = some '^'
      match readClass true false [] (if negated then rest.tail else rest) with
      | some (ranges, after) =>
        readRule (r.push [.within negated (ranges.reverse.flatMap byteRanges)]) (some ']') fuel after
      | none => readRule (r.pushChar c) (some c) fuel rest
    | '\x7b' => readRule r.openGroup (some c) fuel rest
    | '\x7d' => do readRule (← r.closeGroup?) (some c) fuel rest
    | ',' => readRule r.nextBranch (some c) fuel rest
    | '\\' =>
      match rest with
      | [] => none
      | d :: rest => readRule (r.pushChar d) (some d) fuel rest
    | c => readRule (r.pushChar c) (some c) fuel rest

def ruleTokens? (pattern : List Char) : Option (List RuleToken) :=
  (readRule ⟨[], []⟩ none (pattern.length + 1) pattern).map (·.current.reverse)

/-! Meeting patterns -/

/-- The text itself and what is left after each of its bytes up to the next slash. -/
def withinComponent : List UInt8 → List (List UInt8)
  | [] => [[]]
  | b :: rest => (b :: rest) :: if b = slash then [] else withinComponent rest

/-- The text itself and what is left after each of its bytes. -/
def suffixes : List UInt8 → List (List UInt8)
  | [] => [[]]
  | b :: rest => (b :: rest) :: suffixes rest

/-- What is left behind each slash. -/
def behindSlashes : List UInt8 → List (List UInt8)
  | [] => []
  | b :: rest => (if b = slash then [rest] else []) ++ behindSlashes rest

mutual

/-- What can be left of a text behind a token. -/
def after : RuleToken → List UInt8 → List (List UInt8)
  | .byte a, b :: rest => if a = b then [rest] else []
  | .anyByte, b :: rest => if b = slash then [] else [rest]
  | .within negated ranges, b :: rest =>
    if (ranges.any fun r => r.1 ≤ b && b ≤ r.2) = !negated then [rest] else []
  | .anySpan, s => withinComponent s
  | .front, s => s :: behindSlashes s
  | .middle, b :: rest => if b = slash then rest :: behindSlashes rest else []
  | .tail, b :: rest => if b = slash then suffixes rest else []
  | .either branches, s => afterEither branches s
  | _, [] => []

def afterEither : List (List RuleToken) → List UInt8 → List (List UInt8)
  | [], _ => []
  | ts :: rest, s => afterAll ts s ++ afterEither rest s

/-- What can be left of a text behind tokens in a row. -/
def afterAll : List RuleToken → List UInt8 → List (List UInt8)
  | [], s => [s]
  | t :: ts, s => ((after t s).flatMap fun rest => afterAll ts rest).eraseDups

end

/-- Directories at the front and nothing behind them are met by every path. -/
def meets (tokens : List RuleToken) (path : List UInt8) : Bool :=
  match tokens with
  | [.front] => true
  | _ => (afterAll tokens path).any List.isEmpty

/-! Rules -/

structure Rule where
  tokens : List RuleToken
  keeps : Bool
  onlyDirectories : Bool
deriving Inhabited

namespace Rule

/-- A pattern without a slash may be met anywhere below; one that ends with directories is met only
inside of them. -/
def spread (anchored : Bool) (pattern : List Char) : List Char :=
  let free := !anchored && !pattern.contains '/'
    && pattern ≠ ['*', '*'] && !("**/".toList.isPrefixOf pattern)
  let pattern := if free then "**/".toList ++ pattern else pattern
  if "/**".toList.isSuffixOf pattern then pattern ++ ['/', '*'] else pattern

/-- Lines without a rule: blank ones, remarks, and patterns that cannot be read. -/
def ofLine? (line : List Char) : Option Rule :=
  if line.head? = some '#' then none
  else
    let line := if ['\\', ' '].isSuffixOf line then line else Text.trimEndChars line
    if line.isEmpty then none
    else
      let (keeps, anchored, line) :=
        match line with
        | '\\' :: '!' :: rest => (false, false, '!' :: rest)
        | '\\' :: '#' :: rest => (false, false, '#' :: rest)
        | '!' :: '/' :: rest => (true, true, rest)
        | '!' :: rest => (true, false, rest)
        | '/' :: rest => (false, true, rest)
        | line => (false, false, line)
      let (onlyDirectories, line) :=
        match line.reverse with
        | '/' :: '\\' :: rest => (true, rest.reverse)
        | '/' :: rest => (true, rest.reverse)
        | _ => (false, line)
      (ruleTokens? (spread anchored line)).map fun tokens => ⟨tokens, keeps, onlyDirectories⟩

/-- The lines of a file up to the first that is no text. -/
def textLines : List (List UInt8) → List (List Char)
  | [] => []
  | l :: rest =>
    match String.fromUTF8? ⟨l.toArray⟩ with
    | some s =>
      let cs := s.toList
      (if ['\r'].isSuffixOf cs then cs.dropLast else cs) :: textLines rest
    | none => []

/-- The lines of bytes, split at line feeds. -/
def splitBytes (line : List UInt8) : List UInt8 → List (List UInt8)
  | [] => [line.reverse]
  | b :: rest => if b = 10 then line.reverse :: splitBytes [] rest else splitBytes (b :: line) rest

/-- The rules of an ignore file; a byte order mark at its front does not count. -/
def ofFile (content : ByteArray) : List Rule :=
  match textLines (splitBytes [] content.toList) with
  | [] => []
  | first :: rest => (first.dropWhile (· = '\ufeff') :: rest).filterMap ofLine?

def concerns (r : Rule) (path : List UInt8) (isDirectory : Bool) : Bool :=
  (!r.onlyDirectories || isDirectory) && meets r.tokens path

/-- Whether a path is kept, as the last rule says that concerns it. -/
def verdict? (rules : List Rule) (path : String) (isDirectory : Bool) : Option Bool :=
  let bytes := path.toUTF8.toList
  (rules.reverse.find? (·.concerns bytes isDirectory)).map (·.keeps)

end Rule

/-- The rules that apply below a directory, by where they are kept. -/
structure DirectoryRules where
  directory : String
  /-- For searches alone, shared with the repository, and for this copy of it. -/
  search : List Rule
  shared : List Rule
  excluded : List Rule

namespace DirectoryRules

/-- The nearest directory that has an opinion decides, for the rules of each kind in turn. -/
def ignores (chain : List DirectoryRules) (path : String) (isDirectory : Bool) : Bool :=
  let nearest (kind : DirectoryRules → List Rule) : Option Bool :=
    chain.findSome? fun d =>
      Rule.verdict? (kind d) (Path.relative d.directory path) isDirectory
  (((nearest (·.search)).or (nearest (·.shared))).or (nearest (·.excluded))) = some false

end DirectoryRules

end CodeAgent.Ignore
