import CodeAgent.Index.Outline
import CodeAgent.Index.Language
import CodeAgent.Table

/-! Which file of the project an import means. -/
namespace CodeAgent.Resolve

/-- Extensions tried for a module without one, in this order. -/
def scriptExtensions : List String := ["ts", "tsx", "js", "jsx", "mjs", "cjs"]

/-- The names a path keeps when dots are followed; leaving the top is ignored. -/
def normalizeFrom (done : List (List Char)) : List (List Char) → List (List Char)
  | [] => done.reverse
  | p :: rest =>
    if p = [] || p = ['.'] then normalizeFrom done rest
    else if p = ['.', '.'] then normalizeFrom done.tail rest
    else normalizeFrom (p :: done) rest

def normalize (path : String) : String :=
  String.ofList (Text.join '/' (normalizeFrom [] (Text.pieces '/' path.toList)))

def joinDir (dir rest : String) : String := if dir.isEmpty then rest else dir ++ "/" ++ rest

/-- The project's files in ascending order, and the module that its `go.mod` names. -/
structure Project where
  files : List String
  goModule : Option String

namespace Project

/-- A project of files in any order. -/
def ofFiles (files : List String) (goModule : Option String) : Project :=
  ⟨(Table.ofList (files.map fun f => (f, ()))).keys, goModule⟩

def first? (p : Project) (candidates : List String) : Option String :=
  candidates.find? (· ∈ p.files)

/-- Relative modules only: as written, with an extension, or as a directory. A known extension is
first taken off, since it may name the compiled file. -/
def script? (p : Project) (importer source : String) : Option String :=
  if !Text.startsWith source "." then none
  else
    let base := normalize (Path.parent importer ++ "/" ++ source)
    let stem := match Text.splitLast? base "." with
      | some (stem, ext) =>
        if ext ∈ scriptExtensions && !Text.endsWith stem "/" then stem else base
      | none => base
    p.first? (base :: (scriptExtensions.map fun e => stem ++ "." ++ e)
      ++ scriptExtensions.map fun e => base ++ "/index." ++ e)

/-- The directory so many levels up. -/
def up : Nat → String → String
  | 0, dir => dir
  | n + 1, dir => up n (Path.parent dir)

/-- Where a module is looked for, as a file or a directory of that name. -/
def modulePath (importer module : String) : String :=
  let cs := module.toList
  let slashes (cs : List Char) : String :=
    String.ofList (cs.map fun c => if c = '.' then '/' else c)
  if Text.startsWith module "." then
    let levels := (cs.takeWhile (· = '.')).length
    let dir := up (levels - 1) (Path.parent importer)
    let rest := slashes (cs.drop levels)
    if rest.isEmpty then dir else joinDir dir rest
  else slashes cs

def python? (p : Project) (importer module : String) : Option String :=
  if module.isEmpty then none
  else
    let base := modulePath importer module
    p.first? [base ++ ".py", base ++ "/__init__.py"]

/-- The directory of the nearest crate root at or above. -/
def crateRoot? (p : Project) : Nat → String → Option String
  | 0, _ => none
  | fuel + 1, dir =>
    if ["lib.rs", "main.rs"].any (joinDir dir · ∈ p.files) then some dir
    else if dir.isEmpty then none
    else crateRoot? p fuel (Path.parent dir)

/-- Where the child modules of a file live. -/
def moduleDir (path : String) : String :=
  if Path.baseName path ∈ ["mod.rs", "lib.rs", "main.rs"] then Path.parent path
  else Text.trimTails path ".rs"

/-- Where the child modules of a file's parent live. -/
def parentModuleDir (path : String) : String :=
  if Path.baseName path = "mod.rs" then Path.parent (Path.parent path) else Path.parent path

def doubleColons (cs : List Char) : List (List Char) :=
  match cs with
  | [] => [[]]
  | ':' :: ':' :: rest => [] :: doubleColons rest
  | c :: rest =>
    match doubleColons rest with
    | [] => [[c]]
    | s :: more => (c :: s) :: more

/-- Further steps to the parent. -/
def supers (dir : String) : List String → String × List String
  | "super" :: rest => supers (Path.parent dir) rest
  | rest => (dir, rest)

/-- The longest beginning of the segments that is a module; the remainder names items. -/
def longestModule? (p : Project) (dir : String) (segments : List String) : Nat → Option String
  | 0 => none
  | n + 1 =>
    let module := joinDir dir (Path.slashed (segments.take (n + 1)))
    match p.first? [module ++ ".rs", module ++ "/mod.rs"] with
    | some f => some f
    | none => longestModule? p dir segments n

def rust? (p : Project) (importer path : String) : Option String :=
  match (doubleColons path.toList).map String.ofList with
  | "crate" :: segments =>
    (p.crateRoot? (importer.length + 1) (Path.parent importer)).bind fun dir =>
      p.longestModule? dir segments segments.length
  | "self" :: segments => p.longestModule? (moduleDir importer) segments segments.length
  | "super" :: segments =>
    let (dir, segments) := supers (parentModuleDir importer) segments
    p.longestModule? dir segments segments.length
  | _ => none

/-- A package is a directory; its first file that is no test stands for it. -/
def go? (p : Project) (importer source : String) : Option String :=
  let dir :=
    if Text.startsWith source "." then some (normalize (Path.parent importer ++ "/" ++ source))
    else
      p.goModule.bind fun m =>
        (Text.dropHead? source m).bind fun rest =>
          if !rest.isEmpty && !Text.startsWith rest "/" then none
          else some (Text.trimHeads rest "/")
  dir.bind fun dir =>
    p.files.find? fun f =>
      Path.parent f = dir && Text.endsWith f ".go" && !Text.endsWith f "_test.go"

/-- The file that an import in another file means; never that file itself. -/
def target? (p : Project) (importer language source : String) : Option String :=
  let found := match language with
    | "typescript" | "javascript" => p.script? importer source
    | "python" => p.python? importer source
    | "rust" => p.rust? importer source
    | "go" => p.go? importer source
    | _ => none
  found.filter (· ≠ importer)

end Project

/-- The module that the text of a `go.mod` names. -/
def goModule? (text : String) : Option String :=
  (Text.reportLines text).findSome? fun line =>
    (Text.dropHead? (Text.trim line) "module ").map Text.trim

end CodeAgent.Resolve
