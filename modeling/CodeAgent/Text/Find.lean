/-! Looking for one text in another. -/
namespace CodeAgent.Text

/-- What follows the first occurrence of the pattern, and what precedes it. -/
def cut? (pattern : List Char) : List Char → Option (List Char × List Char)
  | [] => if pattern.isEmpty then some ([], []) else none
  | c :: rest =>
    if pattern.isPrefixOf (c :: rest) then some ([], (c :: rest).drop pattern.length)
    else (cut? pattern rest).map fun r => (c :: r.1, r.2)

def containsChars (pattern cs : List Char) : Bool := (cut? pattern cs).isSome

def contains (s pattern : String) : Bool := containsChars pattern.toList s.toList

def startsWith (s head : String) : Bool := head.toList.isPrefixOf s.toList

def endsWith (s tail : String) : Bool := tail.toList.isSuffixOf s.toList

/-- What follows a given beginning. -/
def dropHead? (s head : String) : Option String :=
  if startsWith s head then some (String.ofList (s.toList.drop head.length)) else none

/-- What precedes a given end. -/
def dropTail? (s tail : String) : Option String :=
  if endsWith s tail then some (String.ofList (s.toList.take (s.length - tail.length))) else none

/-- Repeats `dropHead?` while it applies. -/
def dropHeads (head : List Char) : Nat → List Char → List Char
  | 0, cs => cs
  | fuel + 1, cs =>
    if head.isPrefixOf cs && !head.isEmpty then dropHeads head fuel (cs.drop head.length) else cs

def trimHeads (s head : String) : String :=
  String.ofList (dropHeads head.toList s.length s.toList)

def trimTails (s tail : String) : String :=
  String.ofList (dropHeads tail.toList.reverse s.length s.toList.reverse).reverse

/-- Replaces every occurrence, from the left. -/
def replaceChars (pattern substitute : List Char) : Nat → List Char → List Char
  | 0, cs => cs
  | _ + 1, [] => []
  | fuel + 1, c :: rest =>
    if pattern.isPrefixOf (c :: rest) && !pattern.isEmpty then
      substitute ++ replaceChars pattern substitute fuel ((c :: rest).drop pattern.length)
    else c :: replaceChars pattern substitute fuel rest

def replace (s pattern substitute : String) : String :=
  String.ofList (replaceChars pattern.toList substitute.toList (s.length + 1) s.toList)

/-- Replaces one pattern after the other. -/
def replaceAll (pairs : List (String × String)) (s : String) : String :=
  pairs.foldl (fun s p => replace s p.1 p.2) s

/-- What stands before and after the first occurrence of a pattern. -/
def splitOnce? (s pattern : String) : Option (String × String) :=
  (cut? pattern.toList s.toList).map fun r => (String.ofList r.1, String.ofList r.2)

/-- What stands before and after the last occurrence of a pattern. -/
def splitLast? (s pattern : String) : Option (String × String) :=
  (cut? pattern.toList.reverse s.toList.reverse).map fun r =>
    (String.ofList r.2.reverse, String.ofList r.1.reverse)

end CodeAgent.Text
