/-! Syntax trees of source files.
A tree keeps what an outline is made from: the kind of each construct, its part in the construct
around it, and where it stands. -/
namespace CodeAgent.Syntax

/-- Where a construct stands: characters before its front and its end, and the rows of both, counted
from zero. -/
structure Span where
  start : Nat
  stop : Nat
  row : Nat
  lastRow : Nat
deriving DecidableEq, Repr, Inhabited

namespace Span

def line (s : Span) : Nat := s.row + 1
def lastLine (s : Span) : Nat := s.lastRow + 1

def holds (s t : Span) : Bool := s.start ≤ t.start && t.stop ≤ s.stop

end Span

inductive Kind where
  /-- A whole file. -/
  | source
  /-- A word of the language that matters by being there. -/
  | keyword (text : String)
  | comment
  /-- A construct that no outline asks about. -/
  | other
  | identifier | string
  | importStatement | importClause | namespaceImport | namedImports | specifier
  | exportStatement | exportClause
  | functionDeclaration | classDeclaration | interfaceDeclaration | typeDeclaration
  | variableDeclaration | declarator
  | arrowFunction | functionExpression
  | method | abstractMethod | extendsClause
  | parameters | parameter
  | importFrom | dottedName | aliasedImport | wildcardImport
  | decorated | defaultParameter
  | useDeclaration | useList | scopedUseList | scopedIdentifier | useAs | useWildcard
  | pathRoot
  | moduleItem | structItem | traitItem | aliasItem | implItem
  | visibility | modifiers | attribute
  | importSpec | methodDeclaration | typeSpec | typeAlias
  | structType | interfaceType | typeIdentifier
deriving DecidableEq, Repr, Inhabited

/-- The part that a construct has in the one around it. -/
inductive Role where
  | name | otherName | source | declaration | value | parameter | parameters | pattern | body
  | definition | module | bases | argument | path | list | type | receiver
deriving DecidableEq, Repr, Inhabited

inductive Node where
  | mk (kind : Kind) (role : Option Role) (span : Span) (children : List Node)
deriving Repr, Inhabited

namespace Node

def kind : Node → Kind
  | mk k _ _ _ => k

def role : Node → Option Role
  | mk _ r _ _ => r

def span : Node → Span
  | mk _ _ s _ => s

def children : Node → List Node
  | mk _ _ _ cs => cs

def line (n : Node) : Nat := n.span.line
def lastLine (n : Node) : Nat := n.span.lastLine

/-- The same construct with a part to play. -/
def as (r : Role) : Node → Node
  | mk k _ s cs => mk k (some r) s cs

def isKeyword (n : Node) : Bool :=
  match n.kind with
  | .keyword _ => true
  | _ => false

/-- The children that are constructs of their own. -/
def parts (n : Node) : List Node := n.children.filter (!·.isKeyword)

def hasKeyword (n : Node) (text : String) : Bool := n.children.any (·.kind = .keyword text)

def child? (n : Node) (r : Role) : Option Node := n.children.find? (·.role = some r)

def childrenAs (n : Node) (r : Role) : List Node := n.children.filter (·.role = some r)

def partsOf (n : Node) (k : Kind) : List Node := n.parts.filter (·.kind = k)

mutual

/-- The first construct of a kind below this one, outer before inner. -/
def find? (k : Kind) : Node → Option Node
  | mk _ _ _ cs => findAmong? k cs

def findAmong? (k : Kind) : List Node → Option Node
  | [] => none
  | c :: rest =>
    if c.kind = k then some c
    else
      match find? k c with
      | some n => some n
      | none => findAmong? k rest

end

mutual

/-- The constructs of a kind below this one that lie in no other of their kind. -/
def outermost (k : Kind) : Node → List Node
  | mk _ _ _ cs => outermostAmong k cs

def outermostAmong (k : Kind) : List Node → List Node
  | [] => []
  | c :: rest => (if c.kind = k then [c] else outermost k c) ++ outermostAmong k rest

end

def comment (s : Span) : Node := mk .comment none s []

/-- Puts a construct among others by where it starts. -/
def place (n : Node) : List Node → List Node
  | [] => [n]
  | c :: rest => if n.span.start < c.span.start then n :: c :: rest else c :: place n rest

mutual

/-- Puts comments into the innermost construct around each. -/
def withComments (spans : List Span) : Node → Node
  | mk k r s cs =>
    let free := spans.filter fun c => cs.all fun n => !n.span.holds c
    mk k r s (free.foldl (fun cs c => place (comment c) cs) (withCommentsAll spans cs))

def withCommentsAll (spans : List Span) : List Node → List Node
  | [] => []
  | c :: rest =>
    (match spans.filter (c.span.holds ·) with
      | [] => c
      | inner => withComments inner c) :: withCommentsAll spans rest

end

end Node

/-- The characters of a file, to read the text of a construct. -/
structure Source where
  chars : Array Char

namespace Source

def ofString (s : String) : Source := ⟨s.toList.toArray⟩

def slice (s : Source) (span : Span) : String :=
  String.ofList (s.chars.extract span.start span.stop).toList

def text (s : Source) (n : Node) : String := s.slice n.span

/-- The text of a part, unless it is missing or empty. -/
def textAs? (s : Source) (n : Node) (r : Role) : Option String :=
  match n.child? r with
  | some c => let t := s.text c; if t.isEmpty then none else some t
  | none => none

end Source

/-- What reading a file gives: its tree, and the row of the first fault in it. -/
structure Tree where
  root : Node
  problem : Option Nat

end CodeAgent.Syntax
