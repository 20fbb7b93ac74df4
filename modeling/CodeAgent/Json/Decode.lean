import CodeAgent.Json.Basic

/-! Taking documents apart.
A record is written by name or, as an array, by position; a member that its type does not know
is ignored, and a member that stands twice is refused. -/
namespace CodeAgent.Json

/-- The members of a record, known by name or by place. -/
inductive Fields where
  | named (members : List (String × Json))
  | placed (members : List (String × Json))

/-- Reads a document as a record with the given members in this order. -/
def fields? (names : List String) : Json → Option Fields
  | .obj members =>
    if names.all fun n => (members.filter (·.1 = n)).length ≤ 1 then some (.named members) else none
  | .arr items => if items.length ≤ names.length then some (.placed (names.zip items)) else none
  | _ => none

namespace Fields

def find? (fs : Fields) (name : String) : Option Json :=
  match fs with
  | .named ms => (ms.find? (·.1 = name)).map (·.2)
  | .placed ms => (ms.find? (·.1 = name)).map (·.2)

/-- A member that must be there. -/
def req (fs : Fields) (name : String) (decode : Json → Option α) : Option α :=
  fs.find? name >>= decode

/-- A member that may be absent or null; by place it may only be null. -/
def opt (fs : Fields) (name : String) (decode : Json → Option α) : Option (Option α) :=
  match fs, fs.find? name with
  | _, some .null => some none
  | _, some j => (decode j).map some
  | .named _, none => some none
  | .placed _, none => none

/-- A member with a value of its own when absent. -/
def orElse (fs : Fields) (name : String) (decode : Json → Option α) (absent : α) : Option α :=
  match fs.find? name with
  | some j => decode j
  | none => some absent

/-- A member that may be null, and is so when absent in either form. -/
def optOrNone (fs : Fields) (name : String) (decode : Json → Option α) : Option (Option α) :=
  match fs.find? name with
  | some .null => some none
  | some j => (decode j).map some
  | none => some none

end Fields

def toStr? : Json → Option String := str?

def toBool? : Json → Option Bool := bool?

/-- An integer from `low` to `high`. -/
def toIntIn? (low high : Int) : Json → Option Int
  | .num (.int i) => if low ≤ i && i ≤ high then some i else none
  | _ => none

/-- An integer without a sign in a number of bits. -/
def toNatBits? (bits : Nat) (j : Json) : Option Nat :=
  (toIntIn? 0 (Nat.pow 2 bits - 1) j).map Int.toNat

def toNat64? : Json → Option Nat := toNatBits? 64
def toNat32? : Json → Option Nat := toNatBits? 32
def toNat16? : Json → Option Nat := toNatBits? 16

def toInt64? : Json → Option Int := toIntIn? (-Nat.pow 2 63) (Nat.pow 2 63 - 1)

def toDouble? : Json → Option Double
  | .num (.int i) => some (.ofInt i)
  | .num (.float d) => some d
  | _ => none

def toSingle? (j : Json) : Option Single := (toDouble? j).map .ofDouble

def toList? (decode : Json → Option α) : Json → Option (List α)
  | .arr items => items.mapM decode
  | _ => none

def toStrings? : Json → Option (List String) := toList? toStr?

/-- Values by key; of equal keys the last counts, but every value must decode. -/
def toEntries? (decode : Json → Option α) : Json → Option (List (String × α))
  | .obj members => members.mapM fun m => (decode m.2).map fun v => (m.1, v)
  | _ => none

/-- One of a list of named values: the name, or the name as the key of a null. -/
def toNamed? (all : List α) (name : α → String) : Json → Option α
  | .str s => all.find? (name · = s)
  | .obj [(s, .null)] => all.find? (name · = s)
  | _ => none

end CodeAgent.Json
