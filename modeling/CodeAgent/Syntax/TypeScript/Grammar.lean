import CodeAgent.Syntax.Parser
import CodeAgent.Syntax.TypeScript.Lexer

/-! The grammar of TypeScript and JavaScript, as far as outlines need it.
Operators have no precedence here: an expression with any is no construct that an outline asks
about, and one without is what its operand is. -/
namespace CodeAgent.Syntax.TypeScript

open CodeAgent.Syntax.Parser

inductive Rule where
  | statement | block | expression | assignment | operand | access | type | objectType | parameters
  | classBody
deriving DecidableEq, Repr

/-- Words that name nothing. -/
def reserved : List String :=
  ["break", "case", "catch", "class", "const", "continue", "debugger", "default", "delete", "do",
    "else", "enum", "export", "extends", "false", "finally", "for", "function", "if", "import", "in",
    "instanceof", "new", "null", "return", "super", "switch", "this", "throw", "true", "try",
    "typeof", "var", "void", "while", "with"]

def name : Parser Node := leaf .identifier <$> take fun t => t.kind = .word && !reserved.contains t.text

/-- Any word, where no reserved one could be meant. -/
def label : Parser Node := leaf .identifier <$> ofKind .word

def text : Parser Node := leaf .string <$> ofKind .text

def keyword (word : String) : Parser Node := leaf (.keyword word) <$> sym word

/-- Succeeds when the next token starts no line. -/
def sameLine : Parser Unit := do
  match ← peek with
  | some t => ensure (!t.fresh)
  | none => fail

/-- The end of a statement: a semicolon, a closing brace, or a new line. -/
def terminator : Parser Unit := do
  match ← peek with
  | none => return ()
  | some t =>
    if t.is ";" then let _ ← any
    else ensure (t.fresh || t.is "\x7d")

/-- The end of a statement that may lack its semicolon in front of another. -/
def terminatorOrFault : Parser Unit := orElse terminator (do
  match ← peek with
  | some t => ensure ([.word, .number, .text, .template].contains t.kind)
  | none => fail
  reportMissing)

section

variable (self : Rule → Parser Node)

/-! Types -/

def colonType : Parser (List Node) := do
  let _ ← sym ":"
  orElse (one (self .type)) (missing ["=", ";", ",", ")"])

def assigned : Parser (List Node) := do
  let _ ← sym "="
  orElse (one (self .assignment)) (missing [";", ","])

def typeArguments : Parser (List Node) := do
  let _ ← sym "<"
  let ns ← separated "," (one (self .type))
  let _ ← sym ">"
  return ns

def typeParameter : Parser (List Node) := do
  let _ ← many (do
    let _ ← oneOf ["const", "in", "out"]
    ensure (!(← nextIn [",", ">", "=", "extends"]))
    return [])
  let _ ← name
  let bound ← maybe (do let _ ← sym "extends"; one (self .type))
  let preset ← maybe (do let _ ← sym "="; one (self .type))
  return bound ++ preset

def typeParameters : Parser (List Node) := do
  let _ ← sym "<"
  let ns ← separated "," (typeParameter self)
  let _ ← sym ">"
  return ns

def functionType : Parser Node := node .other do
  let _ ← skip "abstract"
  let _ ← skip "new"
  let ts ← maybe (typeParameters self)
  let ps ← self .parameters
  let _ ← sym "=>"
  return ts ++ [ps, ← self .type]

/-- Whether a function type may start here. -/
def startsFunctionType : Parser Bool := do
  match ← ahead with
  | [] => return false
  | t :: rest =>
    if t.is "(" then
      match behindNext? (t :: rest) with
      | some (u :: _) => return u.is "=>"
      | _ => return false
    else return t.is "<" || t.is "new" || (t.is "abstract" && (rest.head?.map (·.is "new")).getD false)

def tupleMember : Parser (List Node) := do
  let _ ← skip "..."
  let _ ← opt? (do
    let _ ← label
    let _ ← skip "?"
    let _ ← sym ":")
  let t ← self .type
  let _ ← skip "?"
  return [t]

def dotted : Parser (List Node) := many do
  let _ ← sym "."
  let _ ← label
  return []

def typePrimary : Parser (List Node) := choose [
  one (self .objectType),
  group "[" "]" (separated "," (tupleMember self)),
  group "(" ")" (one (self .type)),
  (do
    let _ ← sym "typeof"
    let _ ← choose [do let _ ← sym "import"; group "(" ")" (one text), do let _ ← label; return []]
    let _ ← dotted
    maybe (typeArguments self)),
  (do
    let _ ← sym "import"
    let _ ← group "(" ")" (one (self .type))
    let _ ← dotted
    maybe (typeArguments self)),
  (do
    let _ ← sym "-"
    let _ ← ofKind .number
    return []),
  (do
    let _ ← take fun t => t.kind = .text || t.kind = .number || t.kind = .template
    return []),
  (do
    let _ ← oneOf ["void", "null", "this", "true", "false"]
    return []),
  (do
    let _ ← name
    let _ ← dotted
    maybe (do sameLine; typeArguments self))]

/-- A type without operators. -/
def typeOperand : Parser (List Node) := do
  if ← startsFunctionType then one (functionType self)
  else
    let _ ← many (do
      let _ ← oneOf ["keyof", "unique", "readonly", "infer", "asserts"]
      ensure (!(← nextIn [",", ">", ")", ";", "=", "|", "&", "]", "\x7d", "[", "is", "."]))
      return [])
    let ns ← typePrimary self
    let more ← many (do
      sameLine
      group "[" "]" (maybe (one (self .type))))
    return ns ++ more

def typeTail : Parser (List Node) := choose [
  (do let _ ← oneOf ["|", "&"]; typeOperand self),
  (do sameLine; let _ ← sym "is"; typeOperand self),
  (do
    sameLine
    let _ ← sym "extends"
    let bound ← self .type
    let branches ← maybe (do
      let _ ← sym "?"
      let a ← self .type
      let _ ← sym ":"
      return [a, ← self .type])
    return bound :: branches)]

def typeRule : Parser Node := node .other do
  let _ ← maybe (do let _ ← oneOf ["|", "&"]; return [])
  let ns ← typeOperand self
  return ns ++ (← many (typeTail self))

/-! Members of types and classes -/

/-- The name of a member. -/
def memberName : Parser Node := choose [
  label, text,
  leaf .other <$> ofKind .number,
  node .other (group "[" "]" (one (self .assignment)))]

/-- Marks behind which a word is a name and not a modifier. -/
def endsName : List String := ["(", "=", ":", ";", "?", "!", "<", "\x7d", ",", ")", "."]

/-- A word that says something about the member behind it. -/
def modifier (words : List String) : Parser (List Node) := do
  let t ← oneOf words
  match ← peek with
  | none => fail
  | some next => ensure (!(next.kind = .mark && endsName.contains next.text))
  return [leaf (.keyword t.text) t]

def indexOrMapped : Parser (List Node) := do
  let _ ← opt? (do let _ ← oneOf ["+", "-"]; let _ ← sym "readonly")
  let _ ← many (modifier ["readonly", "static", "declare"])
  let inner ← enclosed "[" "]" (do
    let _ ← name
    let t ← choose [colonType self, do let _ ← sym "in"; one (self .type)]
    return t ++ (← maybe (do let _ ← sym "as"; one (self .type))))
  let _ ← opt? (oneOf ["+", "-"])
  let _ ← skip "?"
  return inner ++ (← maybe (colonType self))

/-- Type parameters, parameters and a result type. -/
def signature : Parser (List Node) := do
  let ts ← maybe (typeParameters self)
  let ps ← self .parameters
  return ts ++ [ps.as .parameters] ++ (← maybe (colonType self))

def typeMember : Parser (List Node) := do
  let ns ← choose [
    indexOrMapped self,
    signature self,
    (do let _ ← sym "new"; signature self),
    (do
      let _ ← many (modifier ["readonly", "get", "set", "static", "public", "private", "protected"])
      let _ ← memberName self
      let _ ← skip "?"
      choose [signature self, maybe (colonType self)])]
  match ← peek with
  | none => return ns
  | some t =>
    if t.is ";" || t.is "," then let _ ← any
    else ensure (t.fresh || t.is "\x7d")
    return ns

def objectTypeRule : Parser Node := node .other (body "\x7b" "\x7d" (many (typeMember self)))

def decorator : Parser (List Node) := one (node .other do
  let _ ← sym "@"
  choose [
    group "(" ")" (one (self .expression)),
    (do
      let _ ← label
      let _ ← dotted
      let ts ← maybe (typeArguments self)
      let as ← maybe (group "(" ")" (separated "," (one (self .assignment))))
      return ts ++ as)])

/-! Functions -/

def target : Parser Node := choose [
  leaf .identifier <$> sym "this",
  name,
  node .other (do
    ensure (← nextIn ["\x7b", "["])
    one (self .access))]

def parameter : Parser (List Node) := do
  let ds ← many (decorator self)
  let p ← node .parameter do
    let _ ← many (modifier ["public", "private", "protected", "readonly", "override"])
    let pattern ← node .other (do
      let _ ← skip "..."
      one (target self))
    let _ ← skip "?"
    let t ← maybe (colonType self)
    let preset ← maybe (do let _ ← sym "="; one (self .assignment))
    return pattern.as .pattern :: t ++ preset
  return ds ++ [p]

/-- The closing parenthesis may be missing in front of a body. -/
def parametersRule : Parser Node := node .parameters (orElse
  (group "(" ")" (separated "," (parameter self)))
  (do
    let _ ← sym "("
    let ps ← separated "," (parameter self)
    return ps ++ (← missing ["\x7b"])))

/-- The keywords in front of a function's name, and whether it is a generator. -/
def functionHead : Parser (List Node × Bool) := do
  let async ← maybe (do
    let k ← keyword "async"
    sameLine
    return [k])
  let _ ← sym "function"
  return (async, ← skip "*")

/-- A function with a name; without a body it is only a signature. -/
def functionDeclaration : Parser Node := nodeOf do
  let (head, _) ← functionHead
  let n ← name
  let sig ← signature self
  if ← nextIs "\x7b" then
    let b ← self .block
    return (.functionDeclaration, head ++ [n.as .name] ++ sig ++ [b.as .body])
  else
    terminator
    return (.other, head ++ [n.as .name] ++ sig)

def functionExpression : Parser Node := nodeOf do
  let (head, isGenerator) ← functionHead
  let n ← maybe (one name)
  let sig ← signature self
  let b ← self .block
  return (if isGenerator then .other else .functionExpression,
    head ++ n.map (·.as .name) ++ sig ++ [b.as .body])

/-- Whether an arrow function may start with the bracket that comes next. -/
def startsArrow : Parser Bool := do
  match ← ahead with
  | [] => return false
  | t :: rest =>
    if t.is "(" then
      match behindNext? (t :: rest) with
      | some (u :: _) => return u.is "=>" || u.is ":"
      | _ => return false
    else return t.is "<"

def arrowHead : Parser (List Node) := choose [
  (do
    ensure (← secondIs "=>")
    let n ← name
    return [n.as .parameter]),
  (do
    ensure (← startsArrow)
    signature self)]

def arrowFunction : Parser Node := node .arrowFunction do
  let (async, head) ← orElse
    (do
      let k ← keyword "async"
      sameLine
      return ([k], ← arrowHead self))
    (do return ([], ← arrowHead self))
  let _ ← sym "=>"
  let b ← if ← nextIs "\x7b" then self .block else self .assignment
  return async ++ head ++ [b.as .body]

/-! Classes -/

def heritage : Parser (List Node) := do
  let base ← maybe (one (node .extendsClause do
    let _ ← sym "extends"
    let v ← self .access
    return v.as .value :: (← maybe (typeArguments self))))
  let promised ← maybe (do
    let _ ← sym "implements"
    separated "," (one (self .type)))
  return base ++ promised

def memberModifiers : List String :=
  ["public", "private", "protected", "static", "readonly", "override", "declare", "abstract",
    "accessor", "async", "get", "set"]

def member : Parser Node := nodeOf do
  let ms ← many (modifier memberModifiers)
  let _ ← skip "*"
  let n ← memberName self
  let _ ← opt? (oneOf ["?", "!"])
  let isAbstract := ms.any (·.kind = .keyword "abstract")
  if ← nextIn ["(", "<"] then
    let sig ← signature self
    if ← nextIs "\x7b" then
      let b ← self .block
      return (.method, ms ++ [n.as .name] ++ sig ++ [b.as .body])
    else
      terminator
      return (if isAbstract then .abstractMethod else .other, ms ++ [n.as .name] ++ sig)
  else
    let t ← maybe (colonType self)
    let v ← maybe (assigned self)
    terminatorOrFault
    return (.other, ms ++ [n] ++ t ++ v)

def classMember : Parser (List Node) := choose [
  (do let _ ← sym ";"; return []),
  decorator self,
  (do let _ ← sym "static"; one (self .block)),
  one (node .other (do
    let ns ← indexOrMapped self
    terminator
    return ns)),
  one (member self)]

def classBodyRule : Parser Node := node .other (body "\x7b" "\x7d" (many (orElse (classMember self) skipInside)))

/-- A class behind its decorators. -/
def classParts (named : Bool) : Parser (List Node) := do
  let ds ← many (decorator self)
  let _ ← skip "abstract"
  let _ ← sym "class"
  let n ← if named then one name else maybe (do
    ensure (!(← nextIs "implements"))
    one name)
  let ts ← maybe (typeParameters self)
  let h ← heritage self
  let b ← self .classBody
  return ds ++ n.map (·.as .name) ++ ts ++ h ++ [b.as .body]

def classDeclaration : Parser Node := node .classDeclaration (classParts self true)

/-! Expressions -/

def arguments : Parser (List Node) := group "(" ")" (separated "," (do
  let _ ← skip "..."
  one (self .assignment)))

def objectMember : Parser (List Node) := choose [
  (do let _ ← sym "..."; one (self .assignment)),
  one (node .other (do
    let ms ← many (modifier ["async", "get", "set"])
    let _ ← skip "*"
    let _ ← memberName self
    let sig ← signature self
    return ms ++ sig ++ [← self .block])),
  (do
    let n ← memberName self
    let _ ← sym ":"
    return [n, ← self .assignment]),
  (do
    let _ ← name
    maybe (do let _ ← sym "="; one (self .assignment)))]

def arrayItems : Parser (List Node) := many (choose [
  (do let _ ← sym ","; return []),
  (do let _ ← skip "..."; one (self .assignment))])

def construction : Parser Node := node .other do
  let _ ← sym "new"
  choose [
    (do let _ ← sym "."; let _ ← label; return []),
    (do
      let c ← self .access
      let more ← maybe (do
        let ts ← typeArguments self
        return ts ++ (← maybe (arguments self)))
      return c :: more)]

/-- A token that cannot be read is a fault, and what comes behind it counts. -/
def behindInvalid : Parser Node := do
  reportAt (← ofKind .invalid)
  self .operand

def plainWords : List String := ["this", "super", "null", "true", "false"]

def primary : Parser Node := choose [
  functionExpression self,
  node .other (classParts self false),
  construction self,
  node .other (do
    let _ ← sym "import"
    choose [
      (do let _ ← sym "."; let _ ← label; return []),
      arguments self]),
  leaf .other <$> oneOf plainWords,
  name,
  leaf .string <$> ofKind .text,
  leaf .other <$> take fun t => [.number, .template, .pattern, .markup].contains t.kind,
  node .other (group "(" ")" (one (self .expression))),
  node .other (group "[" "]" (arrayItems self)),
  node .other (group "\x7b" "\x7d" (separated "," (objectMember self))),
  behindInvalid self]

def index : Parser (List Node) := group "[" "]" (one (self .expression))

def suffix : Parser (List Node) := choose [
  (do let _ ← oneOf [".", "?."]; one label),
  (do let _ ← sym "?."; choose [arguments self, index self]),
  index self,
  arguments self,
  one (leaf .other <$> ofKind .template),
  (do sameLine; one (leaf .other <$> oneOf ["!", "++", "--"])),
  (do
    let ts ← typeArguments self
    return ts ++ (← arguments self))]

/-- Wraps what was read in a construct when more than its first part was taken. -/
def extended (first : Node) (more : Parser (List Node)) : Parser Node := do
  let before ← left
  let ns ← more
  if (← left) = before then return first
  else close .other first.span.start first.span.row (first :: ns)

def accessRule : Parser Node := do extended (← primary self) (many (suffix self))

def unaryMarks : List String := ["!", "~", "+", "-", "++", "--", "typeof", "void", "delete", "await"]

def yielding : Parser Node := node .other do
  let _ ← sym "yield"
  let _ ← skip "*"
  maybe (do sameLine; one (self .assignment))

def operandRule : Parser Node := choose [
  arrowFunction self,
  yielding self,
  node .other (do
    let _ ← oneOf unaryMarks
    one (self .operand)),
  node .other (do
    let _ ← sym "<"
    let t ← self .type
    let _ ← sym ">"
    return [t, ← self .operand]),
  self .access]

def binaryMarks : List String :=
  ["=", "+", "-", "*", "/", "%", "**", "<", "<=", "==", "!=", "===", "!==", "&&", "||", "??", "&", "|",
    "^", "<<", "+=", "-=", "*=", "/=", "%=", "**=", "&=", "|=", "^=", "<<=", "&&=", "||=", "??=", "in",
    "instanceof"]

def binary : Parser Unit := orElse
  (do let _ ← oneOf binaryMarks)
  (do
    let _ ← sym ">"
    let _ ← many (do let _ ← oneOf [">", "="]; return []))

def operation : Parser (List Node) := choose [
  (do
    let _ ← sym "?"
    let a ← self .assignment
    let _ ← sym ":"
    return [a, ← self .assignment]),
  (do
    sameLine
    let _ ← oneOf ["as", "satisfies"]
    choose [do let _ ← sym "const"; return [], one (self .type)]),
  (do
    binary
    one (self .operand))]

def assignmentRule : Parser Node := do extended (← self .operand) (many (operation self))

def expressionRule : Parser Node := do
  extended (← self .assignment) (many (do let _ ← sym ","; one (self .assignment)))

/-! Statements -/

def declarator : Parser (List Node) := one (node .declarator do
  let n ← target self
  let _ ← skip "!"
  let t ← maybe (colonType self)
  let v ← maybe (assigned self)
  return n.as .name :: t ++ v.map (·.as .value))

def variableList : Parser (List Node) := do
  let _ ← oneOf ["const", "let", "var"]
  let first ← declarator self
  return first ++ (← many (do let _ ← sym ","; declarator self))

def variableDeclaration : Parser Node := node .variableDeclaration do
  let ns ← variableList self
  terminatorOrFault
  return ns

def specifier : Parser (List Node) := one (node .specifier (orElse
  (do
    let _ ← oneOf ["type", "typeof"]
    let ns ← binding
    ensure (← nextIn [",", "\x7d"])
    return ns)
  binding))
where
  binding : Parser (List Node) := do
    let n ← orElse label text
    let other ← maybe (do
      let _ ← sym "as"
      one (orElse label text))
    return n.as .name :: other.map (·.as .otherName)

def namespaceImport : Parser (List Node) := one (node .namespaceImport do
  let _ ← sym "*"
  let _ ← sym "as"
  one label)

def namedImports : Parser (List Node) :=
  one (node .namedImports (group "\x7b" "\x7d" (separated "," specifier)))

def importClause : Parser (List Node) := one (node .importClause (choose [
  (do
    let n ← name
    let more ← maybe (do
      let _ ← sym ","
      orElse namespaceImport namedImports)
    return n :: more),
  namespaceImport,
  namedImports]))

def origin : Parser (List Node) := do
  let _ ← sym "from"
  let s ← text
  return [s.as .source]

/-- What is asked of the module behind its name. -/
def importDemands : Parser (List Node) := maybe do
  let _ ← oneOf ["with", "assert"]
  group "\x7b" "\x7d" (separated "," (objectMember self))

def importStatement : Parser Node := nodeOf do
  let _ ← sym "import"
  let k ← choose [
    (do
      let s ← text
      return (Kind.importStatement, [s.as .source])),
    (do
      let c ← orElse (do let _ ← oneOf ["type", "typeof"]; return (← importClause) ++ (← origin))
        (do return (← importClause) ++ (← origin))
      return (.importStatement, c)),
    (do
      let _ ← opt? (do let _ ← sym "type"; ensure (!(← nextIs "=")))
      let _ ← name
      let _ ← sym "="
      let _ ← sym "require"
      let s ← group "(" ")" (one text)
      return (.importStatement, s)),
    (do
      let _ ← opt? (do let _ ← sym "type"; ensure (!(← nextIs "=")))
      let _ ← name
      let _ ← sym "="
      let _ ← name
      let _ ← dotted
      return (.other, []))]
  let _ ← importDemands self
  terminatorOrFault
  return k

def interfaceDeclaration : Parser Node := node .interfaceDeclaration do
  let _ ← sym "interface"
  sameLine
  let n ← name
  let ts ← maybe (typeParameters self)
  let bases ← maybe (do let _ ← sym "extends"; separated "," (one (self .type)))
  let b ← self .objectType
  return n.as .name :: ts ++ bases ++ [b.as .body]

def aliasDeclaration : Parser Node := node .typeDeclaration do
  let _ ← sym "type"
  sameLine
  let n ← name
  let ts ← maybe (typeParameters self)
  let _ ← sym "="
  let t ← orElse (one (self .type)) (missing [";"])
  terminatorOrFault
  return n.as .name :: ts ++ t

def enumDeclaration : Parser Node := node .typeDeclaration do
  let _ ← skip "const"
  let _ ← sym "enum"
  let n ← name
  let ms ← body "\x7b" "\x7d" (separated "," (do
    let _ ← memberName self
    maybe (do let _ ← sym "="; one (self .assignment))))
  return n.as .name :: ms

def namespaceDeclaration : Parser Node := node .other do
  let _ ← oneOf ["namespace", "module"]
  sameLine
  let _ ← choose [do let _ ← text; return [], do let _ ← name; dotted]
  if ← nextIs "\x7b" then one (self .block)
  else
    terminator
    return []

def declaredWords : List String :=
  ["function", "class", "abstract", "interface", "type", "enum", "const", "let", "var", "namespace",
    "module", "async", "import"]

def ambient : Parser Node := node .other do
  let _ ← sym "declare"
  choose [
    (do let _ ← sym "global"; one (self .block)),
    (do ensure (← nextIn declaredWords); one (self .statement))]

/-- What can be exported where it is declared. -/
def declaration : Parser Node := choose [
  functionDeclaration self,
  enumDeclaration self,
  classDeclaration self,
  interfaceDeclaration self,
  aliasDeclaration self,
  namespaceDeclaration self,
  ambient self,
  variableDeclaration self]

def exportClause : Parser (List Node) :=
  one (node .exportClause (group "\x7b" "\x7d" (separated "," specifier)))

def exportDefault : Parser (List Node) := do
  let k ← keyword "default"
  let d ← orElse (do return (← declaration self).as .declaration)
    (do
      let v ← self .expression
      terminator
      return v.as .value)
  return [k, d]

def exportStatement : Parser Node := node .exportStatement do
  let ds ← many (decorator self)
  let _ ← sym "export"
  let ns ← choose [
    (do
      let _ ← skip "type"
      let _ ← sym "*"
      let _ ← maybe (do let _ ← sym "as"; one (orElse label text))
      let o ← origin
      let _ ← importDemands self
      terminator
      return o),
    (do
      let _ ← skip "type"
      let c ← exportClause
      let o ← maybe origin
      let _ ← importDemands self
      terminator
      return c ++ o),
    exportDefault self,
    (do
      let _ ← sym "="
      let e ← self .expression
      terminator
      return [e]),
    (do
      let _ ← sym "as"
      let _ ← sym "namespace"
      let _ ← name
      terminator
      return []),
    (do
      let d ← orElse (declaration self) (importStatement self)
      return [d.as .declaration])]
  return ds ++ ns

def parenthesized : Parser (List Node) := group "(" ")" (one (self .expression))

def forHead : Parser (List Node) := group "(" ")" (orElse
  (do
    let _ ← opt? (oneOf ["const", "let", "var", "using"])
    let t ← orElse (target self) (self .access)
    let _ ← oneOf ["of", "in"]
    return [t, ← self .expression])
  (do
    let a ← maybe (orElse (variableList self) (one (self .expression)))
    let _ ← sym ";"
    let b ← maybe (one (self .expression))
    let _ ← sym ";"
    return a ++ b ++ (← maybe (one (self .expression)))))

def switchCase : Parser (List Node) := do
  let v ← orElse
    (do let _ ← sym "case"; one (self .expression))
    (do let _ ← sym "default"; return [])
  let _ ← sym ":"
  return v ++ (← many (one (self .statement)))

/-- Statements that their first word gives away. -/
def controlled : String → Parser (List Node)
  | "if" => do
    let c ← parenthesized self
    let a ← self .statement
    let b ← maybe (do let _ ← sym "else"; one (self .statement))
    return c ++ [a] ++ b
  | "for" => do
    let _ ← skip "await"
    let h ← forHead self
    return h ++ [← self .statement]
  | "while" | "with" => do
    let c ← parenthesized self
    return c ++ [← self .statement]
  | "do" => do
    let s ← self .statement
    let _ ← sym "while"
    let c ← parenthesized self
    let _ ← skip ";"
    return s :: c
  | "switch" => do
    let c ← parenthesized self
    return c ++ (← group "\x7b" "\x7d" (many (switchCase self)))
  | "try" => do
    let b ← self .block
    let c ← maybe (do
      let _ ← sym "catch"
      let p ← maybe (group "(" ")" (do
        let t ← target self
        return t :: (← maybe (colonType self))))
      return p ++ [← self .block])
    let f ← maybe (do let _ ← sym "finally"; one (self .block))
    return b :: c ++ f
  | "return" | "throw" => do
    let v ← maybe (do sameLine; one (self .expression))
    terminator
    return v
  | "break" | "continue" => do
    let _ ← maybe (do sameLine; one name)
    terminator
    return []
  | "debugger" => do
    terminator
    return []
  | _ => fail

def controlWords : List String :=
  ["if", "for", "while", "with", "do", "switch", "try", "return", "throw", "break", "continue",
    "debugger"]

def controlStatement : Parser Node := node .other do
  let t ← oneOf controlWords
  controlled self t.text

def labeled : Parser Node := node .other do
  ensure (← secondIs ":")
  let _ ← name
  let _ ← sym ":"
  one (self .statement)

def usingDeclaration : Parser Node := node .other do
  let _ ← skip "await"
  let _ ← sym "using"
  sameLine
  let d ← declarator self
  terminator
  return d

def expressionStatement : Parser Node := node .other do
  let e ← self .expression
  terminator
  return [e]

def importOrExpression : Parser Node := do
  match ← peekSecond with
  | some t =>
    if t.is "(" || t.is "." then expressionStatement self else importStatement self
  | none => fail

def statementRule : Parser Node := do
  match ← peek with
  | none => fail
  | some t =>
    if t.is "\x7b" then self .block
    else if t.is ";" then node .other (do let _ ← any; return [])
    else if t.is "@" then orElse (exportStatement self) (classDeclaration self)
    else if t.is "import" then importOrExpression self
    else if t.is "export" then exportStatement self
    else if controlWords.any t.is then controlStatement self
    else choose [declaration self, labeled self, usingDeclaration self, expressionStatement self]

def blockRule : Parser Node := node .other (body "\x7b" "\x7d" (many (one (self .statement))))

def grammar : Rule → Parser Node
  | .statement => statementRule self
  | .block => blockRule self
  | .expression => expressionRule self
  | .assignment => assignmentRule self
  | .operand => operandRule self
  | .access => accessRule self
  | .type => typeRule self
  | .objectType => objectTypeRule self
  | .parameters => parametersRule self
  | .classBody => classBodyRule self

end

/-- The tree of a file; `markup` when elements may stand for expressions. -/
def tree (markup : Bool) (content : String) : Tree :=
  let cs := content.toList
  let s := Scan.scan (lexeme markup) cs
  let rules := unroll grammar (depthFor s.tokens.length)
  readTree (node .source (items (one (rules .statement)) skipFault)) s.tokens s.comments s.pos s.row

end CodeAgent.Syntax.TypeScript
