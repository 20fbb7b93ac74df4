import CodeAgent.Index.Outline
import CodeAgent.Syntax.Node
import CodeAgent.Text.Lines

/-! What the constructs of a file add to its outline. -/
namespace CodeAgent

structure Findings where
  imports : List Import
  exports : List Export
  functions : List Function
  classes : List Class
  interfaces : List Interface
  types : List TypeName
deriving DecidableEq, Repr, Inhabited

namespace Findings

def empty : Findings := ⟨[], [], [], [], [], []⟩

def append (a b : Findings) : Findings :=
  { imports := a.imports ++ b.imports
    exports := a.exports ++ b.exports
    functions := a.functions ++ b.functions
    classes := a.classes ++ b.classes
    interfaces := a.interfaces ++ b.interfaces
    types := a.types ++ b.types }

instance : Append Findings := ⟨append⟩

def concat (fs : List Findings) : Findings := fs.foldr append empty

def ofImports (is : List Import) : Findings := { empty with imports := is }
def ofExports (es : List Export) : Findings := { empty with exports := es }
def ofFunction (f : Function) : Findings := { empty with functions := [f] }
def ofClass (c : Class) : Findings := { empty with classes := [c] }
def ofInterface (i : Interface) : Findings := { empty with interfaces := [i] }
def ofType (t : TypeName) : Findings := { empty with types := [t] }

/-- The names that are defined. -/
def names (f : Findings) : List String :=
  f.functions.map (·.name) ++ f.classes.map (·.name) ++ f.interfaces.map (·.name)
    ++ f.types.map (·.name)

/-- An export under its own name when it is one. -/
def exportIf (exported : Bool) (name : String) (line : Nat) : Findings :=
  if exported then ofExports [⟨name, line, false⟩] else empty

/-- Adds methods to the first class of a name; without one they belong nowhere. -/
def attach (name : String) (methods : List Function) : List Class → List Class
  | [] => []
  | c :: rest =>
    if c.name = name then { c with methods := c.methods ++ methods } :: rest
    else c :: attach name methods rest

end Findings

/-- The outline of a file with these findings; `problem` is the row of the first fault in it. -/
def Outline.of (language : String) (f : Findings) (problem : Option Nat) : Outline :=
  { language := language
    imports := f.imports
    exports := f.exports
    functions := f.functions
    classes := f.classes
    interfaces := f.interfaces
    types := f.types
    broken := problem.isSome
    problem := problem.map fun row => "Syntax error at line " ++ toString (row + 1) }

namespace Syntax

def isQuote (c : Char) : Bool := c = '"' || c = '\'' || c = '\x60'

/-- What a string says: its text without the quotes at both ends. -/
def unquoted (s : String) : String :=
  String.ofList (((s.toList.dropWhile isQuote).reverse.dropWhile isQuote).reverse)

end Syntax

end CodeAgent
