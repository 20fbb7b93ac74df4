import CodeAgent.Syntax.Parser
import CodeAgent.Syntax.Python.Lexer

/-! The grammar of Python, as far as outlines need it.
The rule for blocks carries how far the block around one is indented. Expressions have no precedence
here. -/
namespace CodeAgent.Syntax.Python

open CodeAgent.Syntax.Parser

inductive Rule where
  | suite (indent : Nat) | expression | operand | parameters
deriving DecidableEq, Repr

/-- Words that name nothing. -/
def reserved : List String :=
  ["and", "as", "assert", "break", "class", "continue", "def", "del", "elif", "else", "except",
    "finally", "for", "from", "global", "if", "import", "in", "is", "lambda", "nonlocal", "not", "or",
    "pass", "raise", "return", "try", "while", "with", "yield"]

def name : Parser Node := leaf .identifier <$> take fun t => t.kind = .word && !reserved.contains t.text

def keyword (word : String) : Parser Node := leaf (.keyword word) <$> sym word

def remark : Parser (List Node) := do
  let _ ← ofKind .remark
  return []

def remarks : Parser Unit := do let _ ← many remark

/-- The end of a line. -/
def lineEnd : Parser Unit := do let _ ← ofKind .newline

/-- The next token that is no remark. -/
def peekPastRemarks : Parser (Option Token) := return (← ahead).find? (·.kind ≠ .remark)

/-- What may come on another line of the same statement: remarks, then a first word that is not
indented less than the statement. -/
def continuation (indent : Nat) (word : String) : Parser Unit := do
  remarks
  match ← peek with
  | some t =>
    ensure (!t.fresh || t.column ≥ indent)
    let _ ← sym word
  | none => fail

/-- Notes a fault at the next token and goes on behind its line. -/
def skipLine : Parser (List Node) := do
  match ← peek with
  | none => return []
  | some t => do
    reportAt t
    let rest := (← ahead).dropWhile (·.kind ≠ .newline)
    match rest with
    | _ :: below => jump below
    | [] => jump []
    return []

section

variable (self : Rule → Parser Node)

/-! Expressions -/

/-- Names that a loop or a comprehension binds, up to the word in front of what is run through. -/
def targets : Parser (List Node) := separated "," (do
  let _ ← skip "*"
  one (self .operand))

def comprehension : Parser (List Node) := many (orElse
  (do
    let _ ← skip "async"
    let _ ← sym "for"
    let ts ← targets self
    let _ ← sym "in"
    return ts ++ [← self .expression])
  (do
    let _ ← sym "if"
    one (self .expression)))

/-- An expression, one that is spread out, or what a comprehension gives. -/
def element : Parser (List Node) := do
  let _ ← opt? (oneOf ["*", "**"])
  let e ← self .expression
  return e :: (← comprehension self)

def expressions : Parser (List Node) := do
  let _ ← skip "*"
  let e ← self .expression
  let more ← many (do
    let _ ← sym ","
    let _ ← skip "*"
    one (self .expression))
  let _ ← skip ","
  return e :: more

def yielding : Parser (List Node) := do
  let _ ← sym "yield"
  orElse (do let _ ← sym "from"; one (self .expression)) (maybe (expressions self))

def entry : Parser (List Node) := do
  let k ← element self
  let v ← maybe (do
    let _ ← sym ":"
    let e ← self .expression
    return e :: (← comprehension self))
  return k ++ v

def slice : Parser (List Node) := do
  let first ← maybe (element self)
  let more ← many (do
    let _ ← sym ":"
    maybe (one (self .expression)))
  return first ++ more

def slices : Parser (List Node) := do
  let first ← slice self
  let more ← many (do
    let _ ← sym ","
    slice self)
  return first ++ more

def argument : Parser (List Node) := one (node .other (orElse
  (do
    let n ← name
    let _ ← sym "="
    return [n, ← self .expression])
  (element self)))

def arguments : Parser (List Node) := group "(" ")" (separated "," (argument self))

def lambda : Parser Node := node .other do
  let _ ← sym "lambda"
  let ps ← separated "," (orElse
    (do let _ ← oneOf ["*", "/"]; ensure (← nextIn [",", ":"]); return [])
    (do
      let _ ← opt? (oneOf ["*", "**"])
      let n ← name
      let preset ← maybe (do let _ ← sym "="; one (self .expression))
      return n :: preset))
  let _ ← sym ":"
  return ps ++ [← self .expression]

/-- A token that cannot be read is a fault, and what comes behind it counts. -/
def behindInvalid : Parser Node := do
  reportAt (← ofKind .invalid)
  self .operand

def primary : Parser Node := choose [
  name,
  node .string (do
    let _ ← ofKind .text
    many (do let _ ← ofKind .text; return [])),
  leaf .other <$> ofKind .number,
  leaf .other <$> sym "...",
  node .other (group "(" ")" (orElse (yielding self) (separated "," (element self)))),
  node .other (group "[" "]" (separated "," (element self))),
  node .other (group "\x7b" "\x7d" (separated "," (entry self))),
  behindInvalid self]

def suffix : Parser (List Node) := choose [
  (do let _ ← sym "."; one name),
  arguments self,
  group "[" "]" (slices self)]

/-- Wraps what was read in a construct when more than its first part was taken. -/
def extended (first : Node) (more : Parser (List Node)) : Parser Node := do
  let before ← left
  let ns ← more
  if (← left) = before then return first
  else close .other first.span.start first.span.row (first :: ns)

def operandRule : Parser Node := orElse
  (node .other (do
    let _ ← oneOf ["not", "-", "+", "~", "await"]
    one (self .operand)))
  (do extended (← primary self) (many (suffix self)))

def binaryMarks : List String :=
  ["+", "-", "*", "/", "%", "@", "**", "//", "<<", ">>", "&", "|", "^", "==", "!=", "<>", "<", ">", "<=",
    ">=", "and", "or", "in"]

def binary : Parser Unit := choose [
  do let _ ← oneOf binaryMarks,
  (do
    let _ ← sym "not"
    let _ ← sym "in"),
  (do
    let _ ← sym "is"
    let _ ← skip "not")]

def operation : Parser (List Node) := choose [
  (do
    binary
    one (self .operand)),
  (do
    let _ ← sym "if"
    let c ← self .expression
    let _ ← sym "else"
    return [c, ← self .expression]),
  (do
    let _ ← oneOf [":=", "as"]
    one (self .expression))]

def expressionRule : Parser Node := orElse (lambda self)
  (do extended (← self .operand) (many (operation self)))

/-! Parameters -/

/-- A name behind stars, or names in parentheses. -/
def pattern : Parser Node := orElse name (node .other (choose [
  (do let _ ← oneOf ["*", "**"]; one name),
  group "(" ")" (separated "," (one (self .operand)))]))

def parameter : Parser (List Node) := one (orElse
  (nodeOf do
    let p ← pattern self
    let t ← maybe (do
      let _ ← sym ":"
      element self)
    let preset ← maybe (do let _ ← sym "="; one (self .expression))
    if !preset.isEmpty then return (.defaultParameter, p.as .name :: t ++ preset)
    else if t.isEmpty && p.kind = .identifier then return (.identifier, [])
    else return (.parameter, p :: t))
  (leaf .parameter <$> oneOf ["*", "/"]))

/-- A list in parentheses, the closing one of which may be missing in front of the colon. -/
def headerList (p : Parser (List Node)) : Parser (List Node) := orElse
  (group "(" ")" (separated "," p))
  (do
    let _ ← sym "("
    let ps ← separated "," p
    return ps ++ (← missing [":"]))

def parametersRule : Parser Node := node .parameters (headerList (parameter self))

def typeParameters : Parser (List Node) := group "[" "]" (separated "," (do
  let _ ← opt? (oneOf ["*", "**"])
  let n ← name
  let bound ← maybe (do let _ ← sym ":"; one (self .expression))
  let preset ← maybe (do let _ ← sym "="; one (self .expression))
  return n :: bound ++ preset))

/-! Statements on one line -/

def dottedName : Parser Node := node .dottedName do
  let n ← name
  return n :: (← many (do let _ ← sym "."; one name))

def importName : Parser (List Node) := one (do
  let start ← here
  let n ← dottedName
  match ← opt? (do let _ ← sym "as"; name) with
  | some a => (·.as .name) <$> close .aliasedImport start.1 start.2 [n.as .name, a.as .otherName]
  | none => return n.as .name)

def importStatement : Parser Node := node .importStatement do
  let _ ← sym "import"
  let ns ← separated "," importName
  ensure (!ns.isEmpty)
  return ns

def origin : Parser Node := orElse dottedName (node .other (do
  let _ ← oneOf [".", "..."]
  let _ ← many (do let _ ← oneOf [".", "..."]; return [])
  maybe (one dottedName)))

/-- Names asked of the language itself are no import. -/
def importFrom : Parser Node := nodeOf do
  let _ ← sym "from"
  let isFuture := ((← peek).map (·.is "__future__")).getD false
  let m ← origin
  let _ ← sym "import"
  let ns ← choose [
    one (leaf .wildcardImport <$> sym "*"),
    group "(" ")" (separated "," importName),
    separated "," importName]
  ensure (!ns.isEmpty)
  return (if isFuture then .other else .importFrom, m.as .module :: ns)

def assignmentMarks : List String :=
  ["+=", "-=", "*=", "/=", "@=", "//=", "%=", "**=", ">>=", "<<=", "&=", "^=", "|="]

def assigned : Parser (List Node) := orElse (yielding self) (expressions self)

def expressionStatement : Parser Node := node .other (orElse (yielding self) (do
  let es ← expressions self
  let t ← maybe (do let _ ← sym ":"; one (self .expression))
  let vs ← many (do
    let _ ← oneOf ("=" :: assignmentMarks)
    assigned self)
  return es ++ t ++ vs))

def aliasStatement : Parser Node := node .typeAlias do
  let _ ← sym "type"
  let n ← self .expression
  let _ ← sym "="
  return [n, ← self .expression]

/-- Printing and running were statements once. -/
def printStatement : Parser Node := node .other (orElse
  (do
    let _ ← sym "print"
    let _ ← skip ">>"
    expressions self)
  (do
    let _ ← sym "exec"
    let e ← self .operand
    let more ← maybe (do let _ ← sym "in"; expressions self)
    return e :: more))

/-- Statements that their first word gives away. -/
def controlled : String → Parser (List Node)
  | "return" => maybe (expressions self)
  | "del" | "assert" => expressions self
  | "raise" => do
    let es ← maybe (expressions self)
    return es ++ (← maybe (do let _ ← sym "from"; one (self .expression)))
  | "global" | "nonlocal" => separated "," (one name)
  | "pass" | "break" | "continue" => return []
  | _ => fail

def controlWords : List String :=
  ["return", "del", "assert", "raise", "global", "nonlocal", "pass", "break", "continue"]

/-- A statement ends with its line or with a semicolon. -/
def ended (p : Parser Node) : Parser Node := do
  let n ← p
  match ← peek with
  | some t =>
    ensure (t.kind = .newline || t.is ";")
    return n
  | none => return n

def simple : Parser Node := choose [
  ended importStatement,
  ended importFrom,
  ended (node .other (do
    let t ← oneOf controlWords
    controlled self t.text)),
  ended (expressionStatement self),
  ended (aliasStatement self),
  ended (printStatement self)]

def simples : Parser (List Node) := do
  let first ← simple self
  let more ← many (do
    let _ ← sym ";"
    one (simple self))
  let _ ← skip ";"
  lineEnd
  return first :: more

/-! Statements with blocks -/

def functionDeclaration (indent : Nat) : Parser Node := node .functionDeclaration do
  let async ← maybe (one (keyword "async"))
  let _ ← sym "def"
  let n ← name
  let ts ← maybe (typeParameters self)
  let ps ← self .parameters
  let result ← maybe (do let _ ← sym "->"; one (self .expression))
  let b ← self (.suite indent)
  return async ++ [n.as .name] ++ ts ++ [ps.as .parameters] ++ result ++ [b.as .body]

def classDeclaration (indent : Nat) : Parser Node := node .classDeclaration do
  let _ ← sym "class"
  let n ← name
  let ts ← maybe (typeParameters self)
  let bases ← maybe (one (node .other (headerList (argument self))))
  let b ← self (.suite indent)
  return n.as .name :: ts ++ bases.map (·.as .bases) ++ [b.as .body]

def decorator : Parser (List Node) := do
  let d ← node .other (do
    let _ ← sym "@"
    one (self .expression))
  lineEnd
  remarks
  return [d]

def decorated (indent : Nat) : Parser Node := node .decorated do
  let ds ← many (decorator self)
  ensure (!ds.isEmpty)
  let d ← orElse (functionDeclaration self indent) (classDeclaration self indent)
  return ds ++ [d.as .definition]

/-- An expression and the block behind it. -/
def condition (indent : Nat) : Parser (List Node) := do
  let c ← self .expression
  return [c, ← self (.suite indent)]

def clause (indent : Nat) (word : String) (p : Parser (List Node)) : Parser (List Node) := do
  continuation indent word
  p

def otherwise (indent : Nat) : Parser (List Node) :=
  maybe (clause indent "else" (one (self (.suite indent))))

def branches (indent : Nat) : Parser Node := node .other do
  let _ ← sym "if"
  let a ← condition self indent
  let bs ← many (clause indent "elif" (condition self indent))
  return a ++ bs ++ (← otherwise self indent)

def loops (indent : Nat) : Parser Node := node .other (orElse
  (do
    let _ ← skip "async"
    let _ ← sym "for"
    let ts ← targets self
    let _ ← sym "in"
    let es ← expressions self
    let b ← self (.suite indent)
    return ts ++ es ++ [b] ++ (← otherwise self indent))
  (do
    let _ ← sym "while"
    let c ← condition self indent
    return c ++ (← otherwise self indent)))

def attempt (indent : Nat) : Parser Node := node .other do
  let _ ← sym "try"
  let b ← self (.suite indent)
  let handlers ← many (clause indent "except" (do
    let _ ← skip "*"
    let e ← maybe (expressions self)
    return e ++ [← self (.suite indent)]))
  let e ← otherwise self indent
  let last ← maybe (clause indent "finally" (one (self (.suite indent))))
  ensure (!(handlers ++ last).isEmpty)
  return b :: handlers ++ e ++ last

def withStatement (indent : Nat) : Parser Node := node .other do
  let _ ← skip "async"
  let _ ← sym "with"
  let es ← expressions self
  return es ++ [← self (.suite indent)]

def caseClause (indent : Nat) : Parser (List Node) := do
  remarks
  match ← peek with
  | some t => ensure (t.column ≥ indent)
  | none => fail
  let _ ← sym "case"
  let ps ← expressions self
  let guarded ← maybe (do let _ ← sym "if"; one (self .expression))
  return ps ++ guarded ++ [← self (.suite indent)]

def matchStatement (indent : Nat) : Parser Node := node .other do
  let _ ← sym "match"
  let es ← expressions self
  let _ ← sym ":"
  lineEnd
  match ← peekPastRemarks with
  | some t =>
    ensure (t.column > indent)
    let cs ← many (caseClause self t.column)
    ensure (!cs.isEmpty)
    return es ++ cs
  | none => fail

def compound (indent : Nat) : Parser Node := choose [
  functionDeclaration self indent,
  classDeclaration self indent,
  decorated self indent,
  branches self indent,
  loops self indent,
  attempt self indent,
  withStatement self indent,
  matchStatement self indent]

/-- The statements of a block. A remark belongs to it when more statements follow or when it is
indented as they are. -/
def blockItem (indent : Nat) : Parser (List Node) := do
  let goesOn := ((← peekPastRemarks).map fun t => decide (t.column ≥ indent)).getD false
  match ← peek with
  | none => fail
  | some t =>
    if t.kind = .remark then
      ensure (goesOn || t.column ≥ indent)
      remark
    else
      ensure goesOn
      choose [one (compound self indent), simples self, skipLine]

def suiteRule (indent : Nat) : Parser Node := do
  let _ ← sym ":"
  if (← opt? lineEnd).isSome then
    match ← peekPastRemarks with
    | some t =>
      if t.column > indent then
        remarks
        node .other (many (blockItem self t.column))
      else node .other (return [])
    | none => node .other (return [])
  else node .other (simples self)

def grammar : Rule → Parser Node
  | .suite indent => suiteRule self indent
  | .expression => expressionRule self
  | .operand => operandRule self
  | .parameters => parametersRule self

end

/-- The tree of a file. -/
def tree (content : String) : Tree :=
  let cs := content.toList
  let s := Scan.scan lexeme cs
  let chars := cs.toArray
  let tokens := s.tokens.map (indented chars)
  let comments := (tokens.filter (·.kind = .remark)).map (·.span)
  let tokens := layout 0 none tokens
  let rules := unroll grammar (depthFor tokens.length)
  readTree (node .source (items (blockItem rules 0) skipLine)) tokens comments s.pos s.row

end CodeAgent.Syntax.Python
