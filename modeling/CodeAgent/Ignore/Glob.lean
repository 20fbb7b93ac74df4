import CodeAgent.Text.Lines
import CodeAgent.Fault

/-! Glob patterns for paths.
`?`, `*` and brackets stay within a component, `**` is a component of its own and stands for any
number of components; letters of either case are alike. -/
namespace CodeAgent.Ignore

/-- A character or a range in brackets. -/
inductive Specifier where
  | single (c : Char)
  | range (first last : Char)
deriving DecidableEq, Repr

inductive GlobToken where
  | literal (c : Char)
  | anyChar
  | anySequence
  | anyRecursive
  | within (specifiers : List Specifier)
  | except (specifiers : List Specifier)
deriving DecidableEq, Repr

/-- Why a pattern is refused. -/
inductive GlobErrorKind where
  | wildcards | recursive | range
deriving DecidableEq, Repr

structure GlobError where
  position : Nat
  kind : GlobErrorKind
deriving DecidableEq, Repr

namespace GlobError

def message (e : GlobError) : String :=
  let why := match e.kind with
    | .wildcards => "wildcards are either regular `*` or recursive `**`"
    | .recursive => "recursive wildcards must form a single path component"
    | .range => "invalid range pattern"
  "Pattern syntax error near position " ++ toString e.position ++ ": " ++ why

end GlobError

namespace Specifier

def ofChars : List Char → List Specifier
  | a :: '-' :: b :: rest => .range a b :: ofChars rest
  | a :: rest => .single a :: ofChars rest
  | [] => []

end Specifier

def isAscii (c : Char) : Bool := c.toNat < 0x80

/-- Equal but for the case of ASCII letters. -/
def alike (a b : Char) : Bool := if isAscii a && isAscii b then a.toLower = b.toLower else a = b

def isLetter (c : Char) : Bool := 'a' ≤ c && c ≤ 'z'

namespace Specifier

def admits (c : Char) : Specifier → Bool
  | .single a => alike c a
  | .range a b =>
    (isAscii c && isAscii a && isAscii b && isLetter a.toLower && isLetter b.toLower
      && a.toLower ≤ c.toLower && c.toLower ≤ b.toLower)
    || (a ≤ c && c ≤ b)

end Specifier

/-- Reads tokens; `previous` is the character before, `position` its successor's place. -/
def readGlob (previous : Option Char) (position : Nat) (done : List GlobToken) :
    (fuel : Nat) → List Char → Except GlobError (List GlobToken)
  | 0, _ => .ok done.reverse
  | _ + 1, [] => .ok done.reverse
  | fuel + 1, '?' :: rest => readGlob (some '?') (position + 1) (.anyChar :: done) fuel rest
  | fuel + 1, '*' :: rest =>
    let more := rest.takeWhile (· = '*')
    let rest := rest.dropWhile (· = '*')
    if more.length > 1 then .error ⟨position + 2, .wildcards⟩
    else if more.isEmpty then
      readGlob (some '*') (position + 1) (.anySequence :: done) fuel rest
    else if previous.isSome && previous ≠ some '/' then .error ⟨position - 1, .recursive⟩
    else
      let done := match done with
        | .anyRecursive :: _ :: _ => done
        | _ => .anyRecursive :: done
      match rest with
      | [] => .ok done.reverse
      | '/' :: rest => readGlob (some '/') (position + 3) done fuel rest
      | _ => .error ⟨position + 2, .recursive⟩
  | fuel + 1, '[' :: '!' :: first :: rest =>
    let body := rest.takeWhile (· ≠ ']')
    match rest.dropWhile (· ≠ ']') with
    | [] => .error ⟨position, .range⟩
    | _ :: after =>
      readGlob (some ']') (position + body.length + 4)
        (.except (Specifier.ofChars (first :: body)) :: done) fuel after
  | _ + 1, '[' :: '!' :: [] => .error ⟨position, .range⟩
  | fuel + 1, '[' :: first :: rest =>
    let body := rest.takeWhile (· ≠ ']')
    match rest.dropWhile (· ≠ ']') with
    | [] => .error ⟨position, .range⟩
    | _ :: after =>
      readGlob (some ']') (position + body.length + 3)
        (.within (Specifier.ofChars (first :: body)) :: done) fuel after
  | _ + 1, '[' :: [] => .error ⟨position, .range⟩
  | fuel + 1, c :: rest => readGlob (some c) (position + 1) (.literal c :: done) fuel rest

/-- How a match ends: at the end of both, at a difference, or because the path ends too early. -/
inductive MatchEnd where
  | hit | miss | short
deriving DecidableEq, Repr

def isSeparator (c : Char) : Bool := c = '/'

/-- Tries the rest of a pattern behind a wildcard at ever later places. -/
def afterWildcard (recursive : Bool) (next : Bool → List Char → MatchEnd) :
    (atSeparator : Bool) → List Char → MatchEnd
  | atSeparator, [] => next atSeparator []
  | _, c :: rest =>
    let sep := isSeparator c
    if recursive && !sep then afterWildcard recursive next sep rest
    else if !recursive && sep then .miss
    else
      match next sep rest with
      | .miss => afterWildcard recursive next sep rest
      | ended => ended

def matchGlob : List GlobToken → (atSeparator : Bool) → List Char → MatchEnd
  | [], _, path => if path.isEmpty then .hit else .miss
  | .anySequence :: tokens, atSeparator, path =>
    match matchGlob tokens atSeparator path with
    | .miss => afterWildcard false (matchGlob tokens) atSeparator path
    | ended => ended
  | .anyRecursive :: tokens, atSeparator, path =>
    match matchGlob tokens atSeparator path with
    | .miss => afterWildcard true (matchGlob tokens) atSeparator path
    | ended => ended
  | _ :: _, _, [] => .short
  | .literal a :: tokens, _, c :: path =>
    if alike c a then matchGlob tokens (isSeparator c) path else .miss
  | .anyChar :: tokens, _, c :: path =>
    if isSeparator c then .miss else matchGlob tokens false path
  | .within specifiers :: tokens, _, c :: path =>
    if !isSeparator c && specifiers.any (·.admits c) then matchGlob tokens false path else .miss
  | .except specifiers :: tokens, _, c :: path =>
    if !isSeparator c && !specifiers.any (·.admits c) then matchGlob tokens false path else .miss

/-- A pattern with its text. -/
structure Glob where
  text : String
  tokens : List GlobToken
deriving DecidableEq, Repr

namespace Glob

def parse (text : String) : Except GlobError Glob :=
  (readGlob none 0 [] (text.length + 1) text.toList).map (⟨text, ·⟩)

def holds (g : Glob) (path : List Char) : Bool := matchGlob g.tokens true path = .hit

end Glob

/-- Patterns that take paths out. One without a separator also takes out a path with a matching
component. -/
structure PathFilter where
  globs : List Glob
deriving DecidableEq, Repr

namespace PathFilter

/-- The first pattern that cannot be read is reported. -/
def ofPatterns : List String → Outcome PathFilter
  | [] => .ok ⟨[]⟩
  | p :: rest =>
    match Glob.parse p with
    | .error e => .error (.validation ("Invalid ignore pattern '" ++ p ++ "': " ++ e.message))
    | .ok g => (ofPatterns rest).map fun f => ⟨g :: f.globs⟩

def ignores (f : PathFilter) (path : String) : Bool :=
  f.globs.any fun g =>
    g.holds path.toList
    || (!g.text.toList.contains '/' && (Text.pieces '/' path.toList).any g.holds)

end PathFilter

end CodeAgent.Ignore
