import CodeAgent.Syntax.Parser
import CodeAgent.Syntax.Rust.Lexer

/-! The grammar of Rust, as far as outlines need it.
Rules for expressions carry whether a brace behind a path may open a structure; where a block follows
it may not. Expressions have no precedence here. -/
namespace CodeAgent.Syntax.Rust

open CodeAgent.Syntax.Parser

inductive Rule where
  | statement | block | arm | expression (braced : Bool) | operand (braced : Bool) | type | pattern | alternative
  | useTree
deriving DecidableEq, Repr

/-- Words that name nothing. -/
def reserved : List String :=
  ["as", "break", "const", "continue", "else", "enum", "extern", "false", "fn", "for", "if", "impl",
    "in", "let", "loop", "match", "mod", "move", "mut", "pub", "ref", "return", "static", "struct",
    "trait", "true", "type", "unsafe", "use", "where", "while", "async", "await", "dyn"]

/-- Words that a path starts from. -/
def roots : List String := ["crate", "self", "super"]

def name : Parser Node := leaf .identifier <$>
  take fun t => t.kind = .word && !reserved.contains t.text && !roots.contains t.text

def keyword (word : String) : Parser Node := leaf (.keyword word) <$> sym word

def lifetime : Parser Unit := do let _ ← ofKind .lifetime

/-- A bracketed group of any tokens. -/
def tokenTree : Parser (List Node) := do
  match behindNext? (← ahead) with
  | some rest => do
    jump rest
    return []
  | none => fail

def attributeItem : Parser Node := node .attribute do
  let _ ← sym "#"
  let _ ← skip "!"
  ensure (← nextIs "[")
  tokenTree

def attributes : Parser (List Node) := many (one attributeItem)

/-- The word of a path, which may start from a root. -/
def segment : Parser Node := orElse name (leaf .pathRoot <$> oneOf ("Self" :: roots))

section

variable (self : Rule → Parser Node)

/-! Types -/

def bound : Parser (List Node) := choose [
  do lifetime; return [],
  (do
    let _ ← opt? (oneOf ["?", "~"])
    let _ ← opt? (sym "const")
    one (self .type))]

def bounds : Parser (List Node) := do
  let first ← bound self
  let more ← many (do let _ ← sym "+"; bound self)
  let _ ← skip "+"
  return first ++ more

def genericArgument : Parser (List Node) := choose [
  do lifetime; return [],
  (do
    let _ ← name
    let _ ← sym "="
    one (self .type)),
  (do
    let _ ← name
    let _ ← sym ":"
    bounds self),
  one (self .type),
  one (self .block),
  (do
    let _ ← skip "-"
    let _ ← take fun t => t.kind = .number || t.kind = .text || t.is "true" || t.is "false"
    return [])]

def genericArguments : Parser (List Node) := do
  let _ ← sym "<"
  let ns ← separated "," (genericArgument self)
  let _ ← sym ">"
  return ns

def genericParameter : Parser (List Node) := do
  let _ ← attributes
  choose [
    (do
      lifetime
      maybe (do let _ ← sym ":"; maybe (bounds self))),
    (do
      let _ ← sym "const"
      let _ ← name
      let _ ← sym ":"
      let t ← self .type
      return t :: (← maybe (do let _ ← sym "="; one (self (.operand false))))),
    (do
      let _ ← name
      let b ← maybe (do let _ ← sym ":"; maybe (bounds self))
      return b ++ (← maybe (do let _ ← sym "="; one (self .type))))]

def genericParameters : Parser (List Node) := do
  let _ ← sym "<"
  let ns ← separated "," (genericParameter self)
  let _ ← sym ">"
  return ns

def resultType : Parser (List Node) := do
  let _ ← sym "->"
  orElse (one (self .type)) (missing ["\x7b", ";"])

/-- Lifetimes that a type is stated for. -/
def forLifetimes : Parser Unit := do
  let _ ← sym "for"
  let _ ← genericParameters self

def typeSegment : Parser (List Node) := do
  let _ ← segment
  let _ ← opt? (do let _ ← sym "::"; ensure (← nextIs "<"))
  maybe (orElse (genericArguments self) (do
    let ns ← group "(" ")" (separated "," (one (self .type)))
    return ns ++ (← maybe (resultType self))))

def pathType : Parser (List Node) := do
  let _ ← skip "::"
  let first ← typeSegment self
  let more ← many (do let _ ← sym "::"; typeSegment self)
  let made ← maybe (do let _ ← sym "!"; tokenTree)
  return first ++ more ++ made

def functionType : Parser (List Node) := do
  let _ ← opt? (forLifetimes self)
  let _ ← skip "unsafe"
  let _ ← opt? (do let _ ← sym "extern"; opt? (ofKind .text))
  let _ ← sym "fn"
  let ps ← group "(" ")" (separated "," (choose [
    do let _ ← sym "..."; return [],
    do let _ ← name; let _ ← sym ":"; one (self .type),
    one (self .type)]))
  return ps ++ (← maybe (resultType self))

def typeRule : Parser Node := node .other (choose [
  do
    let _ ← oneOf ["&", "&&"]
    let _ ← opt? lifetime
    let _ ← skip "mut"
    one (self .type),
  do
    let _ ← sym "*"
    let _ ← oneOf ["const", "mut"]
    one (self .type),
  do let _ ← oneOf ["!", "_"]; return [],
  do
    let _ ← oneOf ["impl", "dyn"]
    let _ ← opt? (forLifetimes self)
    bounds self,
  functionType self,
  do
    forLifetimes self
    one (self .type),
  group "(" ")" (separated "," (bounds self)),
  group "[" "]" (do
    let t ← self .type
    return t :: (← maybe (do let _ ← sym ";"; one (self (.expression true))))),
  do
    let _ ← sym "<"
    let t ← self .type
    let a ← maybe (do let _ ← sym "as"; one (self .type))
    let _ ← sym ">"
    let ns ← many (do let _ ← sym "::"; typeSegment self)
    return t :: a ++ ns,
  pathType self])

def typeOf : Parser (List Node) := do
  let _ ← sym ":"
  one (self .type)

def whereClause : Parser (List Node) := do
  let _ ← sym "where"
  separated "," (choose [
    do lifetime; let _ ← sym ":"; maybe (bounds self),
    do
      let t ← self .type
      let _ ← sym ":"
      return t :: (← maybe (bounds self))])

/-! Patterns -/

/-- A path in an expression or a pattern; arguments follow a double colon. -/
def path : Parser (List Node) := do
  let _ ← skip "::"
  let first ← orElse (one segment) (do
    let _ ← sym "<"
    let t ← self .type
    let a ← maybe (do let _ ← sym "as"; one (self .type))
    let _ ← sym ">"
    return t :: a)
  let more ← many (do
    let _ ← sym "::"
    orElse (one segment) (genericArguments self))
  return first ++ more

def literal : Parser Unit := do
  let _ ← skip "-"
  let _ ← take fun t => t.kind = .number || t.kind = .text || t.is "true" || t.is "false"

def fieldPattern : Parser (List Node) := do
  let _ ← attributes
  choose [
    do let _ ← sym ".."; return [],
    do
      let _ ← take fun t => t.kind = .word || t.kind = .number
      let _ ← sym ":"
      one (self .pattern),
    do
      let _ ← skip "ref"
      let _ ← skip "mut"
      one name]

def rangeMarks : List String := ["..", "..=", "..."]

def patternOperand : Parser (List Node) := choose [
  do
    let _ ← oneOf ["&", "&&"]
    let _ ← skip "mut"
    one (self .alternative),
  do
    let _ ← oneOf ["ref", "mut", "box"]
    one (self .alternative),
  do let _ ← sym "_"; return [],
  group "(" ")" (separated "," (one (self .pattern))),
  group "[" "]" (separated "," (one (self .pattern))),
  do literal; return [],
  do
    let p ← path self
    let inside ← maybe (choose [
      group "(" ")" (separated "," (one (self .pattern))),
      group "\x7b" "\x7d" (separated "," (fieldPattern self)),
      do let _ ← sym "!"; tokenTree,
      do let _ ← sym "@"; one (self .alternative)])
    return p ++ inside]

def alternativeRule : Parser Node := node .other (orElse
  (do
    let p ← patternOperand self
    let more ← maybe (do
      let _ ← oneOf rangeMarks
      maybe (patternOperand self))
    return p ++ more)
  (do
    let _ ← oneOf rangeMarks
    maybe (patternOperand self)))

def patternRule : Parser Node := node .other do
  let _ ← skip "|"
  let first ← self .alternative
  return first :: (← many (do let _ ← sym "|"; one (self .alternative)))

/-! Expressions -/

def label : Parser Unit := do
  lifetime
  let _ ← sym ":"

def arguments : Parser (List Node) := group "(" ")" (separated "," (do
  let _ ← attributes
  one (self (.expression true))))

def fieldValue : Parser (List Node) := do
  let _ ← attributes
  choose [
    do let _ ← sym ".."; maybe (one (self (.expression true))),
    do
      let _ ← take fun t => t.kind = .word || t.kind = .number
      let _ ← sym ":"
      one (self (.expression true)),
    one name]

/-- What a test looks at, a binding with it. -/
def condition : Parser (List Node) := one (self (.expression false))

def ifExpression : Parser (List Node) := do
  let _ ← sym "if"
  let c ← condition self
  let b ← self .block
  let e ← maybe (do
    let _ ← sym "else"
    one (do
      if ← nextIs "if" then self (.operand true) else self .block))
  return c ++ [b] ++ e

def blockLike : Parser (List Node) := choose [
  ifExpression self,
  do
    let _ ← sym "match"
    let c ← condition self
    return c ++ (← group "\x7b" "\x7d" (do
      let _ ← attributes
      many (do
        let _ ← attributes
        let p ← self .pattern
        let guarded ← maybe (do let _ ← sym "if"; condition self)
        let _ ← sym "=>"
        let v ← self .arm
        let _ ← skip ","
        return p :: guarded ++ [v]))),
  do
    let _ ← opt? label
    choose [
      do let _ ← sym "loop"; one (self .block),
      do
        let _ ← sym "while"
        let c ← condition self
        return c ++ [← self .block],
      do
        let _ ← sym "for"
        let p ← self .pattern
        let _ ← sym "in"
        let c ← condition self
        return p :: c ++ [← self .block],
      one (self .block)],
  do
    let _ ← oneOf ["unsafe", "const", "try", "gen"]
    one (self .block),
  do
    let _ ← sym "async"
    let _ ← skip "move"
    one (self .block)]

def closure (braced : Bool) : Parser (List Node) := do
  let _ ← opt? (forLifetimes self)
  let _ ← skip "static"
  let _ ← skip "async"
  let _ ← skip "move"
  let ps ← orElse
    (do let _ ← sym "||"; return [])
    (do
      let _ ← sym "|"
      let ps ← separated "," (do
        let _ ← attributes
        let p ← self .alternative
        return p :: (← maybe (typeOf self)))
      let _ ← sym "|"
      return ps)
  orElse
    (do
      let t ← resultType self
      return ps ++ t ++ [← self .block])
    (do return ps ++ [← self (.expression braced)])

def primary (braced : Bool) : Parser (List Node) := choose [
  blockLike self,
  closure self braced,
  do
    let _ ← oneOf ["return", "break", "yield", "become"]
    let _ ← opt? lifetime
    maybe (one (self (.expression braced))),
  do
    let _ ← sym "continue"
    let _ ← opt? lifetime
    return [],
  do
    let _ ← sym "let"
    let p ← self .pattern
    let _ ← sym "="
    return [p, ← self (.operand braced)],
  do literal; return [],
  group "(" ")" (do
    let _ ← attributes
    separated "," (one (self (.expression true)))),
  group "[" "]" (do
    let _ ← attributes
    let ns ← separated "," (one (self (.expression true)))
    return ns ++ (← maybe (do let _ ← sym ";"; one (self (.expression true))))),
  do let _ ← sym "_"; return [],
  do
    let p ← path self
    let inside ← maybe (orElse
      (do
        let _ ← sym "!"
        tokenTree)
      (do
        ensure braced
        group "\x7b" "\x7d" (separated "," (fieldValue self))))
    return p ++ inside]

def suffix : Parser (List Node) := choose [
  arguments self,
  group "[" "]" (one (self (.expression true))),
  do let _ ← sym "?"; return [],
  do
    let _ ← sym "."
    let _ ← take fun t => t.kind = .word || t.kind = .number
    maybe (do let _ ← sym "::"; genericArguments self)]

def operandRule (braced : Bool) : Parser Node := node .other (orElse
  (do
    let t ← oneOf ["-", "*", "!", "&", "&&", "..", "..="]
    if t.is "&" || t.is "&&" then
      let _ ← opt? (do let _ ← sym "raw"; oneOf ["const", "mut"])
      let _ ← skip "mut"
    let operand := one (self (.operand braced))
    if t.is ".." || t.is "..=" then maybe operand else operand)
  (do
    let p ← primary self braced
    return p ++ (← many (suffix self))))

def binaryMarks : List String :=
  ["+", "-", "*", "/", "%", "^", "&", "|", "&&", "||", "==", "!=", "=", "+=", "-=", "*=", "/=", "%=",
    "^=", "&=", "|="]

def binary : Parser Unit := orElse
  (do let _ ← oneOf binaryMarks)
  (do
    let _ ← oneOf ["<", ">"]
    let _ ← many (do let _ ← oneOf ["<", ">", "="]; return []))

def operation (braced : Bool) : Parser (List Node) := choose [
  do
    binary
    one (self (.operand braced)),
  do
    let _ ← oneOf rangeMarks
    maybe (one (self (.operand braced))),
  do
    let _ ← sym "as"
    one (self .type)]

def expressionRule (braced : Bool) : Parser Node := node .other do
  let first ← self (.operand braced)
  return first :: (← many (operation self braced))

/-- An expression with a block that nothing can be called on ends there. -/
def closed : Parser Node := node .other do
  let b ← blockLike self
  ensure (!(← nextIn [".", "?"]))
  return b

def armRule : Parser Node := orElse (closed self) (self (.expression true))

/-! Items -/

/-- Words and marks that start an item. -/
def itemStarts : List String :=
  ["#", "pub", "fn", "struct", "enum", "trait", "impl", "mod", "use", "const", "static", "type", "extern",
    "async", "unsafe", "let"]

/-- The semicolon behind an item, which may be missing in front of another and at the end. -/
def semicolon : Parser Unit := orElse (do let _ ← sym ";") (do
  let _ ← if ← atEnd then do reportMissing; pure [] else missing itemStarts)

/-- Whom an item is visible to. -/
def visibility : Parser (List Node) := maybe (one (orElse
  (node .visibility (do
    let _ ← sym "pub"
    maybe (group "(" ")" (do
      let _ ← skip "in"
      path self))))
  (do
    match ← peekSecond with
    | some t => ensure (t.kind = .word)
    | none => fail
    leaf .visibility <$> sym "crate")))

/-- What binds the object a method is called on. -/
def selfParameter : Parser Node := node .other do
  let _ ← opt? (do
    let _ ← sym "&"
    opt? lifetime)
  let _ ← skip "mut"
  let _ ← sym "self"
  ensure (!(← nextIs ":"))
  return []

def parameter : Parser (List Node) := do
  let as ← attributes
  let p ← choose [
    selfParameter,
    node .parameter (do
      let _ ← skip "mut"
      let p ← orElse (node .other (do let _ ← sym "self"; return [])) (self .pattern)
      let t ← typeOf self
      return p.as .pattern :: t),
    leaf .other <$> sym "...",
    self .type]
  return as ++ [p]

/-- The closing parenthesis may be missing in front of a result or a body. -/
def parameters : Parser Node := node .parameters (orElse
  (group "(" ")" (separated "," (parameter self)))
  (do
    let _ ← sym "("
    let ps ← separated "," (parameter self)
    return ps ++ (← missing ["->", "\x7b"])))

/-- The words in front of a function. -/
def functionModifiers : Parser (List Node) := do
  let words := many (orElse
    (one (choose (["async", "default", "const", "unsafe", "safe", "gen"].map keyword)))
    (do
      let _ ← sym "extern"
      let _ ← opt? (ofKind .text)
      return []))
  let n ← node .modifiers words
  return [n]

/-- A function; without a body it is only a signature. -/
def functionItem : Parser Node := nodeOf do
  let v ← visibility self
  let ms ← functionModifiers
  let _ ← sym "fn"
  let n ← name
  let gs ← maybe (genericParameters self)
  let ps ← parameters self
  let r ← maybe (resultType self)
  let w ← maybe (whereClause self)
  let front := v ++ ms ++ [n.as .name] ++ gs ++ [ps.as .parameters] ++ r ++ w
  if ← nextIs "\x7b" then return (.functionDeclaration, front ++ [(← self .block).as .body])
  else
    semicolon
    return (.other, front)

def field : Parser (List Node) := do
  let _ ← attributes
  let v ← visibility self
  let _ ← name
  return v ++ (← typeOf self)

def fields : Parser (List Node) := body "\x7b" "\x7d" (separated "," (field self))

def tupleFields : Parser (List Node) := group "(" ")" (separated "," (do
  let _ ← attributes
  let v ← visibility self
  return v ++ [← self .type]))

def structItem : Parser Node := node .structItem do
  let v ← visibility self
  let _ ← oneOf ["struct", "union"]
  let n ← name
  let gs ← maybe (genericParameters self)
  let w ← maybe (whereClause self)
  let inside ← choose [
    fields self,
    do
      let ts ← tupleFields self
      let w ← maybe (whereClause self)
      semicolon
      return ts ++ w,
    do semicolon; return []]
  return v ++ [n.as .name] ++ gs ++ w ++ inside

def variant : Parser (List Node) := do
  let _ ← attributes
  let v ← visibility self
  let _ ← name
  let inside ← maybe (orElse (fields self) (tupleFields self))
  let value ← maybe (do let _ ← sym "="; one (self (.expression true)))
  return v ++ inside ++ value

def enumItem : Parser Node := node .aliasItem do
  let v ← visibility self
  let _ ← sym "enum"
  let n ← name
  let gs ← maybe (genericParameters self)
  let w ← maybe (whereClause self)
  let inside ← body "\x7b" "\x7d" (separated "," (variant self))
  return v ++ [n.as .name] ++ gs ++ w ++ inside

/-- A name for a type; without the type it only promises one. -/
def typeItem : Parser Node := nodeOf do
  let v ← visibility self
  let _ ← sym "type"
  let n ← name
  let gs ← maybe (genericParameters self)
  let bs ← maybe (do let _ ← sym ":"; bounds self)
  let w ← maybe (whereClause self)
  let t ← opt? (do let _ ← sym "="; orElse (one (self .type)) (missing [";"]))
  let more ← maybe (whereClause self)
  semicolon
  return (if t.isNone then .other else .aliasItem,
    v ++ [n.as .name] ++ gs ++ bs ++ w ++ t.getD [] ++ more)

def constItem : Parser Node := node .other do
  let v ← visibility self
  let _ ← orElse (sym "const") (do
    let t ← sym "static"
    let _ ← skip "ref"
    return t)
  let _ ← skip "mut"
  let _ ← orElse name (leaf .other <$> sym "_")
  let t ← typeOf self
  let e ← maybe (do let _ ← sym "="; one (self (.expression true)))
  semicolon
  return v ++ t ++ e

/-- Items between braces. -/
def items (p : Parser (List Node)) : Parser Node :=
  node .other (body "\x7b" "\x7d" (many (orElse p skipInside)))

def traitItem : Parser Node := node .traitItem do
  let v ← visibility self
  let _ ← skip "unsafe"
  let _ ← skip "auto"
  let _ ← sym "trait"
  let n ← name
  let gs ← maybe (genericParameters self)
  let bs ← maybe (do let _ ← sym ":"; maybe (bounds self))
  let w ← maybe (whereClause self)
  let b ← items (one (self .statement))
  return v ++ [n.as .name] ++ gs ++ bs ++ w ++ [b.as .body]

def implItem : Parser Node := node .implItem do
  let _ ← skip "default"
  let _ ← skip "unsafe"
  let _ ← sym "impl"
  let gs ← maybe (genericParameters self)
  let _ ← skip "const"
  let t ← orElse
    (do
      let _ ← skip "!"
      let _ ← self .type
      let _ ← sym "for"
      self .type)
    (self .type)
  let w ← maybe (whereClause self)
  let b ← orElse (one (items (one (self .statement)))) (do let _ ← sym ";"; return [])
  return gs ++ [t.as .type] ++ w ++ b.map (·.as .body)

def moduleItem : Parser Node := node .moduleItem do
  let v ← visibility self
  let _ ← skip "unsafe"
  let _ ← sym "mod"
  let n ← name
  let b ← orElse (one (items (one (self .statement)))) (do semicolon; return [])
  return v ++ [n.as .name] ++ b.map (·.as .body)

def foreignItem : Parser Node := node .other do
  let v ← visibility self
  let _ ← skip "unsafe"
  let _ ← sym "extern"
  choose [
    do
      let _ ← sym "crate"
      let _ ← segment
      let _ ← opt? (do let _ ← sym "as"; orElse name (leaf .other <$> sym "_"))
      let _ ← sym ";"
      return v,
    do
      let _ ← opt? (ofKind .text)
      orElse (do return v ++ [← items (one (self .statement))]) (do let _ ← sym ";"; return v)]

/-! Uses -/

/-- A list of uses, the closing brace of which may be missing in front of the semicolon. -/
def useList : Parser Node := node .useList (orElse
  (group "\x7b" "\x7d" (separated "," (one (self .useTree))))
  (do
    let _ ← sym "\x7b"
    let us ← separated "," (one (self .useTree))
    return us ++ (← missing [";"])))

/-- Goes on behind what a path has so far. -/
def useBehind (start row : Nat) : Nat → Option Node → Parser Node
  | 0, _ => fail
  | n + 1, front => do
    let inside := (front.map (·.as .path)).toList
    choose [
      (do
        let s ← segment
        let whole ← close .scopedIdentifier start row (inside ++ [s.as .name])
        useFollow n whole),
      (do
        let l ← useList self
        close .scopedUseList start row (inside ++ [l.as .list])),
      (do
        let _ ← sym "*"
        close .useWildcard start row inside),
      (do
        let _ ← missing [";"]
        close .scopedIdentifier start row inside)]
where
  useFollow (n : Nat) (whole : Node) : Parser Node := do
    if ← nextIs "::" then
      let _ ← any
      useBehind start row n (some whole)
    else return whole

def useTreeRule : Parser Node := do
  let (start, row) ← here
  let steps ← left
  let whole ← choose [
    (do
      let _ ← sym "::"
      useBehind self start row steps none),
    leaf .useWildcard <$> sym "*",
    useList self,
    (do
      let s ← segment
      if ← nextIs "::" then
        let _ ← any
        useBehind self start row steps (some s)
      else return s)]
  match ← opt? (do let _ ← sym "as"; orElse name (leaf .identifier <$> sym "_")) with
  | some a => close .useAs start row [whole.as .path, a.as .otherName]
  | none => return whole

def useDeclaration : Parser Node := node .useDeclaration do
  let v ← visibility self
  let _ ← sym "use"
  let t ← self .useTree
  semicolon
  return v ++ [t.as .argument]

/-! Statements -/

def letStatement : Parser Node := node .other do
  let _ ← sym "let"
  let _ ← skip "mut"
  let p ← self .pattern
  let t ← maybe (typeOf self)
  let e ← maybe (do let _ ← sym "="; one (self (.expression true)))
  let b ← maybe (do let _ ← sym "else"; one (self .block))
  let _ ← sym ";"
  return p :: t ++ e ++ b

def macroRules : Parser Node := node .other do
  let _ ← sym "macro_rules"
  let _ ← sym "!"
  let _ ← name
  let ns ← tokenTree
  let _ ← skip ";"
  return ns

/-- A use of a macro needs no semicolon behind it. -/
def macroUse (openers : List String) : Parser Node := node .other do
  let p ← path self
  let _ ← sym "!"
  ensure (← nextIn openers)
  let _ ← tokenTree
  ensure (!(← nextIn [".", "?"]))
  let _ ← skip ";"
  return p

/-- An expression with a block ends a statement; any other needs a semicolon or the end of its
block. -/
def expressionStatement : Parser Node := orElse
  (closed self)
  (node .other (do
    let e ← self (.expression true)
    match ← peek with
    | none => return [e]
    | some t =>
      if t.is ";" then let _ ← any
      else ensure (t.is "\x7d")
      return [e]))

def statementRule : Parser Node := choose [
  attributeItem,
  node .other (do let _ ← sym ";"; return []),
  functionItem self,
  useDeclaration self,
  moduleItem self,
  structItem self,
  enumItem self,
  typeItem self,
  traitItem self,
  implItem self,
  constItem self,
  foreignItem self,
  letStatement self,
  macroRules,
  macroUse self ["\x7b"],
  expressionStatement self,
  macroUse self ["(", "["]]

def blockRule : Parser Node := node .other (body "\x7b" "\x7d" (many (one (self .statement))))

def grammar : Rule → Parser Node
  | .statement => statementRule self
  | .block => blockRule self
  | .arm => armRule self
  | .expression braced => expressionRule self braced
  | .operand braced => operandRule self braced
  | .type => typeRule self
  | .pattern => patternRule self
  | .alternative => alternativeRule self
  | .useTree => useTreeRule self

end

/-- The tree of a file. -/
def tree (content : String) : Tree :=
  let s := Scan.scan lexeme content.toList
  let rules := unroll grammar (depthFor s.tokens.length)
  readTree (node .source (Parser.items (one (rules .statement)) skipFault)) s.tokens s.comments s.pos
    s.row

end CodeAgent.Syntax.Rust
