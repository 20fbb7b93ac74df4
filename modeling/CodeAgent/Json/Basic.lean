import CodeAgent.Decimal.Double

/-! Documents of the JSON data format.
A number is an integer or a double; a reader may keep members in source order,
and `canonical` brings them into ascending key order with the last of equal keys. -/
namespace CodeAgent

inductive Number where
  | int (i : Int)
  | float (d : Double)
deriving DecidableEq, Repr, Inhabited

inductive Json where
  | null
  | bool (b : Bool)
  | num (n : Number)
  | str (s : String)
  | arr (items : List Json)
  | obj (members : List (String × Json))
deriving Repr, Inhabited

namespace Json

mutual

def decEq : (a b : Json) → Decidable (a = b)
  | .null, .null => isTrue rfl
  | .bool a, .bool b =>
    if h : a = b then isTrue (by rw [h]) else isFalse (fun e => h (Json.bool.inj e))
  | .num a, .num b =>
    if h : a = b then isTrue (by rw [h]) else isFalse (fun e => h (Json.num.inj e))
  | .str a, .str b =>
    if h : a = b then isTrue (by rw [h]) else isFalse (fun e => h (Json.str.inj e))
  | .arr a, .arr b =>
    match decEqItems a b with
    | isTrue h => isTrue (by rw [h])
    | isFalse h => isFalse (fun e => h (Json.arr.inj e))
  | .obj a, .obj b =>
    match decEqMembers a b with
    | isTrue h => isTrue (by rw [h])
    | isFalse h => isFalse (fun e => h (Json.obj.inj e))
  | .null, .bool _ => isFalse nofun
  | .null, .num _ => isFalse nofun
  | .null, .str _ => isFalse nofun
  | .null, .arr _ => isFalse nofun
  | .null, .obj _ => isFalse nofun
  | .bool _, .null => isFalse nofun
  | .bool _, .num _ => isFalse nofun
  | .bool _, .str _ => isFalse nofun
  | .bool _, .arr _ => isFalse nofun
  | .bool _, .obj _ => isFalse nofun
  | .num _, .null => isFalse nofun
  | .num _, .bool _ => isFalse nofun
  | .num _, .str _ => isFalse nofun
  | .num _, .arr _ => isFalse nofun
  | .num _, .obj _ => isFalse nofun
  | .str _, .null => isFalse nofun
  | .str _, .bool _ => isFalse nofun
  | .str _, .num _ => isFalse nofun
  | .str _, .arr _ => isFalse nofun
  | .str _, .obj _ => isFalse nofun
  | .arr _, .null => isFalse nofun
  | .arr _, .bool _ => isFalse nofun
  | .arr _, .num _ => isFalse nofun
  | .arr _, .str _ => isFalse nofun
  | .arr _, .obj _ => isFalse nofun
  | .obj _, .null => isFalse nofun
  | .obj _, .bool _ => isFalse nofun
  | .obj _, .num _ => isFalse nofun
  | .obj _, .str _ => isFalse nofun
  | .obj _, .arr _ => isFalse nofun

def decEqItems : (a b : List Json) → Decidable (a = b)
  | [], [] => isTrue rfl
  | [], _ :: _ => isFalse nofun
  | _ :: _, [] => isFalse nofun
  | x :: xs, y :: ys =>
    match decEq x y, decEqItems xs ys with
    | isTrue h, isTrue t => isTrue (by rw [h, t])
    | isFalse h, _ => isFalse (fun e => h (List.cons.inj e).1)
    | _, isFalse t => isFalse (fun e => t (List.cons.inj e).2)

def decEqMembers : (a b : List (String × Json)) → Decidable (a = b)
  | [], [] => isTrue rfl
  | [], _ :: _ => isFalse nofun
  | _ :: _, [] => isFalse nofun
  | (k, x) :: xs, (l, y) :: ys =>
    match decEq x y, decEqMembers xs ys with
    | isTrue h, isTrue t =>
      if e : k = l then isTrue (by rw [h, t, e])
      else isFalse (fun c => e (Prod.mk.inj (List.cons.inj c).1).1)
    | isFalse h, _ => isFalse (fun c => h (Prod.mk.inj (List.cons.inj c).1).2)
    | _, isFalse t => isFalse (fun c => t (List.cons.inj c).2)

end

instance : DecidableEq Json := decEq

/-- Puts a member at its place in ascending key order, over one of the same key. -/
def put (key : String) (value : Json) : List (String × Json) → List (String × Json)
  | [] => [(key, value)]
  | (k, v) :: rest =>
    if key = k then (key, value) :: rest
    else if key < k then (key, value) :: (k, v) :: rest
    else (k, v) :: put key value rest

mutual

/-- Ascending keys at every depth; of equal keys the last counts. -/
def canonical : Json → Json
  | .arr items => .arr (canonicalItems items)
  | .obj members => .obj (canonicalMembers [] members)
  | .null => .null
  | .bool b => .bool b
  | .num n => .num n
  | .str s => .str s

def canonicalItems : List Json → List Json
  | [] => []
  | x :: xs => canonical x :: canonicalItems xs

def canonicalMembers (done : List (String × Json)) :
    List (String × Json) → List (String × Json)
  | [] => done
  | (k, v) :: rest => canonicalMembers (put k (canonical v) done) rest

end

/-- A document with its members in ascending key order. -/
def object (members : List (String × Json)) : Json :=
  .obj (members.foldl (fun done m => put m.1 m.2 done) [])

def nat (n : Nat) : Json := .num (.int n)
def int (i : Int) : Json := .num (.int i)
def float (d : Double) : Json := .num (.float d)

/-- The member of a key; of equal keys the last. -/
def member? (key : String) : Json → Option Json
  | .obj members => (members.reverse.find? (·.1 = key)).map (·.2)
  | _ => none

def isNull : Json → Bool
  | .null => true
  | _ => false

def str? : Json → Option String
  | .str s => some s
  | _ => none

def bool? : Json → Option Bool
  | .bool b => some b
  | _ => none

def items? : Json → Option (List Json)
  | .arr items => some items
  | _ => none

def members? : Json → Option (List (String × Json))
  | .obj members => some members
  | _ => none

/-- An integer that fits sixty-four bits without a sign. -/
def nat? : Json → Option Nat
  | .num (.int i) => if 0 ≤ i then some i.toNat else none
  | _ => none

def ofOption (f : α → Json) : Option α → Json
  | none => .null
  | some a => f a

def ofStrings (ss : List String) : Json := .arr (ss.map .str)

end Json

end CodeAgent
