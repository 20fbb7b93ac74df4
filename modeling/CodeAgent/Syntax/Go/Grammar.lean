import CodeAgent.Syntax.Parser
import CodeAgent.Syntax.Go.Lexer

/-! The grammar of Go, as far as outlines need it.
Rules for expressions carry whether a brace may open a literal; where a block follows it may not.
Expressions have no precedence here. -/
namespace CodeAgent.Syntax.Go

open CodeAgent.Syntax.Parser

inductive Rule where
  | statement | block | expression (braced : Bool) | operand (braced : Bool) | type | parameters
  | literal
deriving DecidableEq, Repr

def name : Parser Node := leaf .identifier <$> take fun t => t.kind = .word && !keywords.contains t.text

def typeName : Parser Node := (fun n => Node.mk .typeIdentifier none n.span []) <$> name

def text : Parser Node := leaf .string <$> ofKind .text

def newline : Parser (List Node) := do
  let _ ← ofKind .newline
  return []

/-- Lines may end freely between brackets. -/
def newlines : Parser Unit := do let _ ← many newline

/-- The end of a statement. -/
def terminator : Parser Unit := do
  if ← atEnd then return ()
  let _ ← take fun t => t.kind = .newline || t.is ";"

/-- Ends a statement in front of a closing bracket as well. -/
def ending (closing : List String) : Parser Unit := do
  if !(← nextIn closing) then terminator

/-- A group in which lines do not matter. -/
def nested (opening closing : String) (inside : Parser (List Node)) : Parser (List Node) :=
  group opening closing (do
    newlines
    let ns ← inside
    newlines
    return ns)

/-- Items with commas between them. -/
def listed (p : Parser (List Node)) : Parser (List Node) := separated "," (do
  newlines
  let ns ← p
  newlines
  return ns)

/-- Items that end as statements do, in a group. -/
def declared (opening closing : String) (p : Parser (List Node)) : Parser (List Node) :=
  group opening closing (many (orElse
    (do
      terminator
      return [])
    (do
      let ns ← p
      ending [closing]
      return ns)))

section

variable (self : Rule → Parser Node)

/-! Types -/

def typeArguments : Parser (List Node) := enclosed "[" "]" (do
  let ns ← listed (one (self .type))
  ensure (!ns.isEmpty)
  return ns)

/-- Alternatives, each perhaps with all types over it. -/
def constraint : Parser (List Node) := do
  let part : Parser (List Node) := do
    let _ ← skip "~"
    one (self .type)
  let first ← part
  return first ++ (← many (do let _ ← sym "|"; part))

def typeParameters : Parser (List Node) := enclosed "[" "]" (do
  let ns ← listed (do
    let ns ← separated "," (one name)
    return ns ++ (← constraint self))
  ensure (!ns.isEmpty)
  return ns)

def result : Parser (List Node) := orElse (one (self .parameters)) (one (self .type))

def signature : Parser (List Node) := do
  let ps ← self .parameters
  return ps.as .parameters :: (← maybe (result self))

def field : Parser (List Node) := do
  let t ← orElse
    (do
      let ns ← separated "," (one name)
      ensure (!ns.isEmpty)
      return ns ++ [← self .type])
    (do
      let _ ← skip "*"
      one (self .type))
  let tag ← maybe (one text)
  return t ++ tag

def interfaceMember : Parser (List Node) := orElse
  (do
    let n ← name
    return n :: (← signature self))
  (constraint self)

def qualified : Parser (List Node) := do
  let n ← typeName
  let whole ← orElse
    (do
      let _ ← sym "."
      one typeName)
    (do return [n])
  return whole ++ (← maybe (typeArguments self))

def typeRule : Parser Node := choose [
  node .structType (do
    let _ ← sym "struct"
    declared "\x7b" "\x7d" (field self)),
  node .interfaceType (do
    let _ ← sym "interface"
    declared "\x7b" "\x7d" (interfaceMember self)),
  node .other (do
    let _ ← sym "*"
    one (self .type)),
  node .other (do
    let size ← nested "[" "]" (maybe (orElse
      (do let _ ← sym "..."; return [])
      (one (self (.expression true)))))
    return size ++ [← self .type]),
  node .other (do
    let _ ← sym "map"
    let k ← nested "[" "]" (one (self .type))
    return k ++ [← self .type]),
  node .other (do
    let _ ← orElse (sym "chan") (do
      let _ ← sym "<-"
      sym "chan")
    let _ ← skip "<-"
    one (self .type)),
  node .other (do
    let _ ← sym "func"
    signature self),
  node .other (nested "(" ")" (one (self .type))),
  node .other (qualified self)]

/-- Names and their type, or a type alone. -/
def parameter : Parser (List Node) := one (node .parameter (choose [
  (do
    let ns ← separated "," (do newlines; one name)
    ensure (!ns.isEmpty)
    let _ ← skip "..."
    return ns.map (·.as .name) ++ [← self .type]),
  (do
    let _ ← skip "..."
    one (self .type))]))

/-- The closing parenthesis may be missing in front of a body. -/
def parametersRule : Parser Node := node .parameters (orElse
  (nested "(" ")" (listed (parameter self)))
  (do
    let _ ← sym "("
    let ps ← listed (parameter self)
    return ps ++ (← missing ["\x7b"])))

/-! Expressions -/

def expressions (braced : Bool) : Parser (List Node) := do
  let first ← self (.expression braced)
  return first :: (← many (do let _ ← sym ","; one (self (.expression braced))))

/-- What stands between braces behind a type. -/
def literalRule : Parser Node :=
  let value : Parser (List Node) := one (orElse (self .literal) (self (.expression true)))
  node .other (nested "\x7b" "\x7d" (listed (do
    let k ← value
    return k ++ (← maybe (do
      let _ ← sym ":"
      newlines
      value)))))

/-- A function with a body. -/
def functionLiteral : Parser (List Node) := do
  let _ ← sym "func"
  let s ← signature self
  return s ++ [← self .block]

def startsType : Parser Bool := nextIn ["[", "map", "chan", "struct", "interface", "func"]

/-- A token that cannot be read is a fault, and what comes behind it counts. -/
def behindInvalid (braced : Bool) : Parser Node := do
  reportAt (← ofKind .invalid)
  self (.operand braced)

def primary (braced : Bool) : Parser (List Node) := choose [
  functionLiteral self,
  (do
    ensure (← startsType)
    let t ← self .type
    return t :: (← maybe (one (self .literal)))),
  (do
    let n ← name
    return n :: (← maybe (do
      ensure braced
      one (self .literal)))),
  (do
    let _ ← take fun t => t.kind = .number || t.kind = .text
    return []),
  nested "(" ")" (orElse (one (self (.expression true))) (one (self .type))),
  one (behindInvalid self braced)]

def argument : Parser (List Node) := do
  let e ← orElse (self (.expression true)) (self .type)
  let _ ← skip "..."
  return [e]

def index : Parser (List Node) := nested "[" "]" (orElse
  (do
    let part : Parser (List Node) := maybe (one (self (.expression true)))
    let a ← part
    let b ← sliced part
    return a ++ b)
  (listed (orElse (one (self (.expression true))) (one (self .type)))))
where
  sliced (part : Parser (List Node)) : Parser (List Node) := do
    let _ ← sym ":"
    let b ← part
    return b ++ (← maybe (do let _ ← sym ":"; part))

def suffix (braced : Bool) : Parser (List Node) := choose [
  (do
    let _ ← sym "."
    newlines
    orElse (one name) (nested "(" ")" (orElse
      (do let _ ← sym "type"; return [])
      (one (self .type))))),
  nested "(" ")" (listed (argument self)),
  (do
    let i ← index self
    return i ++ (← maybe (do
      ensure braced
      one (self .literal)))),
  (do
    ensure braced
    one (self .literal))]

def operandRule (braced : Bool) : Parser Node := node .other (orElse
  (do
    let _ ← oneOf ["+", "-", "!", "^", "*", "&", "<-"]
    one (self (.operand braced)))
  (do
    let p ← primary self braced
    return p ++ (← many (suffix self braced))))

def binaryMarks : List String :=
  ["+", "-", "*", "/", "%", "&", "|", "^", "&^", "<<", ">>", "&&", "||", "==", "!=", "<", "<=", ">", ">="]

def expressionRule (braced : Bool) : Parser Node := node .other do
  let first ← self (.operand braced)
  return first :: (← many (do
    let _ ← oneOf binaryMarks
    newlines
    one (self (.operand braced))))

/-! Declarations -/

/-- One specification or several in parentheses. -/
def specifications (p : Parser (List Node)) : Parser (List Node) :=
  orElse (declared "(" ")" p) p

def importSpec : Parser (List Node) := one (node .importSpec do
  let n ← maybe (one (orElse name (leaf .other <$> sym ".")))
  let p ← text
  return n.map (·.as .name) ++ [p.as .path])

def importDeclaration : Parser Node := node .importStatement do
  let _ ← sym "import"
  specifications importSpec

def packageClause : Parser Node := node .other do
  let _ ← sym "package"
  one name

def functionDeclaration : Parser Node := nodeOf do
  let _ ← sym "func"
  let receiver ← maybe (one (self .parameters))
  let n ← name
  let ts ← if receiver.isEmpty then maybe (typeParameters self) else pure []
  let s ← signature self
  let b ← maybe (do
    ensure (← nextIs "\x7b")
    one (self .block))
  let front := receiver.map (·.as .receiver)
  return (if receiver.isEmpty then .functionDeclaration else .methodDeclaration,
    front ++ [n.as .name] ++ ts ++ s ++ b.map (·.as .body))

def typeSpec : Parser (List Node) := one (nodeOf do
  let n ← name
  let ts ← maybe (typeParameters self)
  let isAlias ← skip "="
  let t ← self .type
  return (if isAlias then .typeAlias else .typeSpec, n.as .name :: ts ++ [t.as .type]))

def typeDeclaration : Parser Node := node .typeDeclaration do
  let _ ← sym "type"
  specifications (typeSpec self)

def valueSpec : Parser (List Node) := do
  let ns ← separated "," (one name)
  ensure (!ns.isEmpty)
  let t ← maybe (one (self .type))
  let vs ← maybe (do
    let _ ← sym "="
    expressions self true)
  return ns ++ t ++ vs

def valueDeclaration : Parser Node := node .variableDeclaration do
  let _ ← oneOf ["const", "var"]
  specifications (valueSpec self)

/-! Statements -/

def assignmentMarks : List String :=
  [":=", "=", "+=", "-=", "*=", "/=", "%=", "&=", "|=", "^=", "<<=", ">>=", "&^="]

def simple (braced : Bool) : Parser (List Node) := do
  let es ← expressions self braced
  let more ← maybe (choose [
    (do
      let _ ← oneOf assignmentMarks
      newlines
      let _ ← skip "range"
      expressions self braced),
    (do let _ ← oneOf ["++", "--"]; return []),
    (do let _ ← sym "<-"; one (self (.expression braced)))])
  return es ++ more

/-- A statement in front of what is tested, which may be missing, too. -/
def header : Parser (List Node) := do
  let a ← maybe (simple self false)
  let b ← maybe (do
    let _ ← sym ";"
    maybe (simple self false))
  return a ++ b

def statements : Parser (List Node) := many (orElse
  (do
    terminator
    return [])
  (do
    let s ← self .statement
    ending ["\x7d", "case", "default"]
    return [s]))

def case : Parser (List Node) := do
  newlines
  let v ← orElse
    (do
      let _ ← sym "case"
      orElse
        (do
          let s ← simple self true
          ensure (← nextIs ":")
          return s)
        (listed (one (self .type))))
    (do let _ ← sym "default"; return [])
  let _ ← sym ":"
  return v ++ (← statements self)

def cases : Parser (List Node) := nested "\x7b" "\x7d" (many (case self))

/-- Statements that their first word gives away. -/
def controlled : String → Parser (List Node)
  | "if" => do
    let h ← header self
    let b ← self .block
    let e ← maybe (do
      let _ ← sym "else"
      one (do
        if ← nextIs "if" then self .statement else self .block))
    return h ++ [b] ++ e
  | "for" => do
    let h ← orElse
      (do
        let _ ← sym "range"
        one (self (.expression false)))
      (do
        let h ← header self
        let post ← maybe (do
          let _ ← sym ";"
          maybe (simple self false))
        return h ++ post)
    return h ++ [← self .block]
  | "switch" => do
    let h ← header self
    return h ++ (← cases self)
  | "select" => cases self
  | "go" | "defer" => one (self (.expression true))
  | "return" => maybe (expressions self true)
  | "goto" => one name
  | "break" | "continue" => maybe (one name)
  | "fallthrough" => return []
  | _ => fail

def controlWords : List String :=
  ["if", "for", "switch", "select", "go", "defer", "return", "goto", "break", "continue",
    "fallthrough"]

def labeled : Parser Node := node .other do
  ensure (← secondIs ":")
  let _ ← name
  let _ ← sym ":"
  newlines
  maybe (one (self .statement))

def statementRule : Parser Node := choose [
  self .block,
  valueDeclaration self,
  typeDeclaration self,
  node .other (do
    let t ← oneOf controlWords
    controlled self t.text),
  labeled self,
  node .other (simple self true)]

def blockRule : Parser Node := node .other (body "\x7b" "\x7d" (statements self))

def grammar : Rule → Parser Node
  | .statement => statementRule self
  | .block => blockRule self
  | .expression braced => expressionRule self braced
  | .operand braced => operandRule self braced
  | .type => typeRule self
  | .parameters => parametersRule self
  | .literal => literalRule self

/-- What a file is made of; the end of a line may be missing behind it. -/
def item : Parser (List Node) := orElse
  (do
    terminator
    return [])
  (do
    let n ← choose [packageClause, importDeclaration, functionDeclaration self, self .statement]
    match ← opt? terminator with
    | some _ => return [n]
    | none => do
      match ← peek with
      | some t => ensure (t.kind = .word)
      | none => fail
      reportMissing
      return [n])

end

/-- The tree of a file. -/
def tree (content : String) : Tree :=
  let s := Scan.scan lexeme content.toList
  let tokens := layout s.row s.tokens
  let rules := unroll grammar (depthFor tokens.length)
  readTree (node .source (items (item rules) skipFault)) tokens s.comments s.pos s.row

end CodeAgent.Syntax.Go
