import CodeAgent.Proofs.Json.Nesting

/-! What may be read back from a document when its numbers are not.
Some numbers have no text that a reader takes, and others are read as their neighbours. But a reader
either refuses the document or finds all else in it: the same texts under the same names, nested in the
same way. -/
namespace CodeAgent.Json

mutual

/-- The value with zero in the place of its numbers. -/
def shape : Json → Json
  | .num _ => .num (.int 0)
  | .arr items => .arr (shapeItems items)
  | .obj members => .obj (shapeMembers members)
  | .null => .null
  | .bool b => .bool b
  | .str s => .str s

def shapeItems : List Json → List Json
  | [] => []
  | x :: xs => shape x :: shapeItems xs

def shapeMembers : List (String × Json) → List (String × Json)
  | [] => []
  | (k, v) :: ms => (k, shape v) :: shapeMembers ms

end

theorem shapeItems_eq (items : List Json) : shapeItems items = items.map shape := by
  induction items with
  | nil => rfl
  | cons x xs ih => rw [shapeItems, ih, List.map_cons]

theorem shapeMembers_eq (members : List (String × Json)) :
    shapeMembers members = members.map fun m => (m.1, m.2.shape) := by
  induction members with
  | nil => rfl
  | cons m ms ih => rw [shapeMembers, ih, List.map_cons]

/- The characters of numbers -/

/-- May stand in a number. -/
def Numeral (c : Char) : Prop :=
  c.isDigit = true ∨ c = '.' ∨ c = 'e' ∨ c = 'E' ∨ c = '+' ∨ c = '-'
deriving Decidable

/-- What is left begins in the middle of a number. -/
def Stuck (rest : List Char) : Prop := ∃ c ∈ rest.head?, Numeral c

theorem stuck_cons {c : Char} {rest : List Char} : Stuck (c :: rest) ↔ Numeral c := by
  simp [Stuck]

theorem not_stuck_nil : ¬ Stuck [] := by simp [Stuck]

/-- In the middle of a number no list or object goes on or ends. -/
theorem Stuck.skipBlanks {rest : List Char} (stuck : Stuck rest) :
    ∃ c tail, skipBlanks rest = c :: tail ∧ c ≠ ',' ∧ c ≠ ']' ∧ c ≠ '\x7d' := by
  obtain ⟨c, first, numeral⟩ := stuck
  obtain ⟨tail, rfl⟩ := List.head?_eq_some_iff.mp first
  refine ⟨c, tail, ?_, ?_, ?_, ?_⟩
  · rcases numeral with digit | rfl | rfl | rfl | rfl | rfl
    · exact (opens_of_isDigit digit).2 tail
    · rfl
    · rfl
    · rfl
    · rfl
    · rfl
  · rintro rfl
    exact absurd numeral (by decide)
  · rintro rfl
    exact absurd numeral (by decide)
  · rintro rfl
    exact absurd numeral (by decide)

/-- A reader has used these characters, all of numbers. -/
def Uses (cs rest : List Char) : Prop := ∃ used, cs = used ++ rest ∧ ∀ c ∈ used, Numeral c

namespace Uses

variable {cs m rest : List Char} {c : Char}

theorem refl (cs : List Char) : Uses cs cs := ⟨[], rfl, List.forall_mem_nil _⟩

theorem trans (first : Uses cs m) (second : Uses m rest) : Uses cs rest := by
  obtain ⟨used, rfl, numerals⟩ := first
  obtain ⟨used', rfl, numerals'⟩ := second
  refine ⟨used ++ used', by simp, ?_⟩
  intro c member
  rcases List.mem_append.mp member with before | behind
  · exact numerals c before
  · exact numerals' c behind

theorem cons (numeral : Numeral c) (uses : Uses cs rest) : Uses (c :: cs) rest := by
  obtain ⟨used, rfl, numerals⟩ := uses
  exact ⟨c :: used, rfl, List.forall_mem_cons.mpr ⟨numeral, numerals⟩⟩

theorem takeDigits (n count : Nat) (cs : List Char) : Uses cs (takeDigits n count cs).2.2 := by
  induction cs generalizing n count with
  | nil => exact refl []
  | cons c cs ih =>
    rw [Json.takeDigits]
    split
    · rename_i taken
      have digit : c.isDigit = true := (Bool.and_eq_true_iff.mp taken).1
      exact (ih _ _).cons (Or.inl digit)
    · exact refl _

theorem dropDigits (cs : List Char) : Uses cs (cs.dropWhile Char.isDigit) :=
  ⟨cs.takeWhile Char.isDigit, (List.takeWhile_append_dropWhile ..).symm,
    fun c member => Or.inl (List.all_eq_true.mp List.all_takeWhile c member)⟩

theorem rest_of_exponent {p q t : Prop} [Decidable p] [Decidable q] [Decidable t] {x d : Double}
    {r : List Char} {o : Option Double} {f : Double → Double}
    (read : (if p then none else if q then if t then none else some (x, r)
      else o.map fun d => (f d, r)) = some (d, rest)) : rest = r := by
  split at read
  · cases read
  · split at read
    · split at read
      · cases read
      · exact (Prod.mk.inj (Option.some.inj read)).2.symm
    · obtain ⟨d, -, same⟩ := Option.map_eq_some_iff.mp read
      exact (Prod.mk.inj same).2.symm

theorem readExponent {negative : Bool} {n : Nat} {start : Int} {d : Double}
    (read : readExponent negative n start cs = some (d, rest)) : Uses cs rest := by
  unfold Json.readExponent at read
  split at read
  rename_i down body sign
  have front : Uses cs body := by
    split at sign
    · obtain ⟨-, rfl⟩ := Prod.mk.inj sign
      exact (refl _).cons (by simp [Numeral])
    · obtain ⟨-, rfl⟩ := Prod.mk.inj sign
      exact (refl _).cons (by simp [Numeral])
    · obtain ⟨-, rfl⟩ := Prod.mk.inj sign
      exact refl _
  rw [rest_of_exponent read]
  exact front.trans (dropDigits body)

theorem finish {negative : Bool} {n : Nat} {exponent : Int} {d : Double}
    (read : finish negative n exponent cs = some (d, rest)) : Uses cs rest := by
  unfold Json.finish at read
  split at read
  · exact (readExponent read).cons (by simp [Numeral])
  · exact (readExponent read).cons (by simp [Numeral])
  · obtain ⟨d, -, same⟩ := Option.map_eq_some_iff.mp read
    rw [(Prod.mk.inj same).2]
    exact refl rest

theorem readFraction {negative : Bool} {n : Nat} {start : Int} {d : Double}
    (read : readFraction negative n start cs = some (d, rest)) : Uses cs rest := by
  unfold Json.readFraction at read
  have taken := takeDigits n 0 cs
  generalize Json.takeDigits n 0 cs = digits at read taken
  obtain ⟨m, count, body⟩ := digits
  simp only at read taken
  split at read
  · exact taken.trans ((dropDigits body).trans (finish read))
  · split at read
    · cases read
    · exact taken.trans (finish read)

theorem of_map_float {o : Option (Double × List Char)} {n : Number}
    (uses : ∀ d r, o = some (d, r) → Uses cs r)
    (read : (o.map fun r => (Number.float r.1, r.2)) = some (n, rest)) : Uses cs rest := by
  obtain ⟨⟨d, r⟩, found, same⟩ := Option.map_eq_some_iff.mp read
  obtain ⟨-, rfl⟩ := Prod.mk.inj same
  exact uses d r found

theorem readNumber {negative : Bool} {n : Number}
    (read : readNumber negative cs = some (n, rest)) : Uses cs rest := by
  unfold Json.readNumber at read
  split at read
  · cases read
  split at read
  · cases read
  split at read
  · cases read
  rename_i c tail _ _
  have taken := takeDigits 0 0 (c :: tail)
  generalize Json.takeDigits 0 0 (c :: tail) = digits at read taken
  obtain ⟨m, count, body⟩ := digits
  simp only at read taken
  have point : Numeral '.' := by simp [Numeral]
  have letter : Numeral 'e' := by simp [Numeral]
  have capital : Numeral 'E' := by simp [Numeral]
  split at read
  · have more := taken.trans (dropDigits body)
    split at read
    · rename_i fraction front
      rw [front] at more
      exact of_map_float (fun d r found => more.trans ((readFraction found).cons point)) read
    · exact of_map_float (fun d r found => more.trans (finish found)) read
  · split at read
    · exact of_map_float (fun d r found => taken.trans ((readFraction found).cons point)) read
    · exact of_map_float (fun d r found => taken.trans ((readExponent found).cons letter)) read
    · exact of_map_float (fun d r found => taken.trans ((readExponent found).cons capital)) read
    · split at read
      · exact (Prod.mk.inj (Option.some.inj read)).2 ▸ taken
      · split at read
        · exact (Prod.mk.inj (Option.some.inj read)).2 ▸ taken
        · exact (Prod.mk.inj (Option.some.inj read)).2 ▸ taken

/-- Of a text of numerals a reader uses all, or stops inside. -/
theorem ends {text r : List Char} (uses : Uses (text ++ rest) r) (numerals : ∀ c ∈ text, Numeral c)
    (stops : ¬ Stuck rest) : r = rest ∨ Stuck r := by
  obtain ⟨used, whole, all⟩ := uses
  rcases List.append_eq_append_iff.mp whole with ⟨beyond, same, tail⟩ | ⟨left, same, tail⟩
  · -- used beyond the text, which only nothing can be
    cases beyond with
    | nil => exact Or.inl (by simpa using tail.symm)
    | cons c beyond =>
      rw [tail] at stops
      exact absurd (stuck_cons.mpr (all c (by simp [same]))) stops
  · cases left with
    | nil => exact Or.inl (by simpa using tail)
    | cons c left =>
      rw [tail]
      exact Or.inr (stuck_cons.mpr (numerals c (by simp [same])))

end Uses

/- The texts of numbers -/

/-- Begins with a digit and goes on like a number. -/
structure Numeric (cs : List Char) : Prop where
  starts : startsWithDigit cs = true
  numerals : ∀ c ∈ cs, Numeral c

theorem numeral_of_isDigit {c : Char} (digit : c.isDigit = true) : Numeral c := Or.inl digit

theorem numeral_toDigits {n : Nat} {c : Char} (member : c ∈ Nat.toDigits 10 n) : Numeral c :=
  numeral_of_isDigit (Nat.isDigit_of_mem_toDigits (by omega) (by omega) member)

theorem numeric_toDigits (n : Nat) : Numeric (Nat.toDigits 10 n) :=
  ⟨startsWithDigit_toDigits n, fun _ member => numeral_toDigits member⟩

theorem Numeric.append {cs more : List Char} (numeric : Numeric cs)
    (numerals : ∀ c ∈ more, Numeral c) : Numeric (cs ++ more) := by
  obtain ⟨starts, all⟩ := numeric
  constructor
  · cases cs with
    | nil => cases starts
    | cons c cs => exact starts
  · intro c member
    rcases List.mem_append.mp member with before | behind
    · exact all c before
    · exact numerals c behind

theorem numeral_toString {i : Int} {c : Char} (member : c ∈ (toString i).toList) : Numeral c := by
  cases i with
  | ofNat n =>
    simp only [toString, Int.repr, Nat.toList_repr] at member
    exact numeral_toDigits member
  | negSucc n =>
    simp only [toString, Int.repr, String.toList_append, List.mem_append, Nat.toList_repr] at member
    rcases member with sign | digit
    · obtain rfl : c = '-' := by simpa using sign
      simp [Numeral]
    · exact numeral_toDigits digit

theorem Numeric.cons {c : Char} {cs : List Char} (digit : c.isDigit = true)
    (numerals : ∀ c ∈ cs, Numeral c) : Numeric (c :: cs) :=
  ⟨digit, List.forall_mem_cons.mpr ⟨numeral_of_isDigit digit, numerals⟩⟩

theorem Numeric.exists_cons {cs : List Char} (numeric : Numeric cs) :
    ∃ c tail, cs = c :: tail ∧ c.isDigit = true ∧ ∀ c ∈ tail, Numeral c := by
  obtain ⟨starts, numerals⟩ := numeric
  cases cs with
  | nil => cases starts
  | cons c tail => exact ⟨c, tail, rfl, starts, (List.forall_mem_cons.mp numerals).2⟩

theorem numeral_point : Numeral '.' := by simp [Numeral]

theorem numeral_replicate {n : Nat} {c : Char} (member : c ∈ List.replicate n '0') : Numeral c := by
  rw [List.eq_of_mem_replicate member]
  exact numeral_of_isDigit rfl

theorem numeric_positional (d : Decimal.Digits) : Numeric d.positional := by
  have digits : Numeric d.text := numeric_toDigits d.digits
  obtain ⟨c, tail, text, digit, behind⟩ := digits.exists_cons
  unfold Decimal.Digits.positional
  extract_lets cs point
  split
  · exact digits.append fun c member => numeral_replicate member
  · split
    · rename_i before
      obtain ⟨k, count⟩ := Nat.exists_eq_add_one.mpr (show 0 < point.toNat by omega)
      rw [show cs = c :: tail from text, count, List.take_succ_cons, List.drop_succ_cons,
        List.cons_append]
      refine .cons digit fun c' member => ?_
      simp only [List.mem_append, List.mem_cons] at member
      rcases member with front | rfl | back
      · exact behind c' (List.mem_of_mem_take front)
      · exact numeral_point
      · exact behind c' (List.mem_of_mem_drop back)
    · refine .cons rfl fun c' member => ?_
      simp only [List.mem_append, List.mem_cons] at member
      rcases member with rfl | zeros | inside
      · exact numeral_point
      · exact numeral_replicate zeros
      · exact digits.numerals c' inside

theorem numeric_scientific (d : Decimal.Digits) : Numeric d.scientific := by
  have digits : Numeric d.text := numeric_toDigits d.digits
  obtain ⟨c, tail, text, digit, behind⟩ := digits.exists_cons
  have power {e : Int} : ∀ c ∈ 'e' :: (toString e).toList, Numeral c :=
    List.forall_mem_cons.mpr ⟨by simp [Numeral], fun c member => numeral_toString member⟩
  unfold Decimal.Digits.scientific
  rw [text]
  refine Numeric.append ?_ power
  cases tail with
  | nil => exact .cons digit (List.forall_mem_nil _)
  | cons next tail => exact .cons digit (List.forall_mem_cons.mpr ⟨numeral_point, behind⟩)

/-- The text of a number, behind its sign: numerals, or a word that no reader takes. -/
theorem number_text (n : Number) : ∃ (negative : Bool) (digits : List Char),
    (Number.text n).toList = (if negative then ['-'] else []) ++ digits ∧
      (Numeric digits ∨ digits = ['i', 'n', 'f'] ∨ digits = ['N', 'a', 'N']) := by
  cases n with
  | int i =>
    cases i with
    | ofNat n =>
      refine ⟨false, Nat.toDigits 10 n, ?_, Or.inl (numeric_toDigits n)⟩
      simp [Number.text, toString, Int.repr]
    | negSucc n =>
      refine ⟨true, Nat.toDigits 10 (n + 1), ?_, Or.inl (numeric_toDigits _)⟩
      simp [Number.text, toString, Int.repr]
  | float d =>
    have signed (body : String) : ((if d.negative then "-" else "") ++ body).toList =
        (if d.negative then ['-'] else []) ++ body.toList := by
      cases d.negative <;> simp
    rw [Number.text, Double.text]
    split
    · exact ⟨d.negative, ['0', '.', '0'], signed _, Or.inl (.cons rfl (by simp [Numeral]))⟩
    · exact ⟨d.negative, _, signed _, Or.inr (Or.inl rfl)⟩
    · exact ⟨false, _, rfl, Or.inr (Or.inr rfl)⟩
    · rename_i b _
      refine ⟨d.negative, _, signed _, Or.inl ?_⟩
      rw [String.toList_ofList]
      split
      · exact (numeric_positional _).append (by simp [Numeral])
      · split
        · exact numeric_positional _
        · exact numeric_scientific _

/- What is read of a text -/

/-- The front of a text that neither ends a list nor is blank. -/
theorem compact_opens' (j : Json) : ∃ c tail, j.compact.toList = c :: tail ∧ Opens c := by
  cases j with
  | null => exact ⟨'n', _, rfl, by simp [Opens, skipBlanks]⟩
  | bool b => cases b <;> simp [compact, Opens, skipBlanks]
  | str s => simp [compact, quote, Opens, skipBlanks]
  | arr items => cases items <;> simp [compact, Opens, skipBlanks]
  | obj members => cases members <;> simp [compact, Opens, skipBlanks]
  | num n =>
    obtain ⟨negative, digits, text, form⟩ := number_text n
    rw [compact, text]
    cases negative with
    | true => exact ⟨'-', digits, rfl, by simp [Opens, skipBlanks]⟩
    | false =>
      rcases form with numeric | rfl | rfl
      · obtain ⟨c, tail, rfl, digit, -⟩ := numeric.exists_cons
        exact ⟨c, tail, rfl, opens_of_isDigit digit⟩
      · exact ⟨'i', _, rfl, by simp [Opens, skipBlanks]⟩
      · exact ⟨'N', _, rfl, by simp [Opens, skipBlanks]⟩

theorem readValue_text {n : Number} {fuel depth : Nat} {rest r : List Char} {v : Json}
    (stops : ¬ Stuck rest)
    (read : readValue (fuel + 1) depth ((Number.text n).toList ++ rest) = some (v, r)) :
    (r = rest ∨ Stuck r) ∧ v.shape = .num (.int 0) := by
  obtain ⟨negative, digits, text, form⟩ := number_text n
  have taken : ∃ m, readNumber negative (digits ++ rest) = some (m, r) ∧ v = .num m := by
    have of_map {o : Option (Number × List Char)}
        (same : (o.map fun r => (Json.num r.1, r.2)) = some (v, r)) : ∃ m, o = some (m, r) ∧ v = .num m := by
      obtain ⟨⟨m, r⟩, found, same⟩ := Option.map_eq_some_iff.mp same
      obtain ⟨rfl, rfl⟩ := Prod.mk.inj same
      exact ⟨m, found, rfl⟩
    rw [text] at read
    cases negative with
    | true => exact of_map (by simpa [readValue, skipBlanks] using read)
    | false =>
      simp only [Bool.false_eq_true, if_false, List.nil_append] at read
      rcases form with numeric | rfl | rfl
      · obtain ⟨c, tail, rfl, digit, -⟩ := numeric.exists_cons
        rw [List.cons_append, readValue, (opens_of_isDigit digit).2] at read
        split at read
        case h_8 => exact of_map read
        all_goals
          rename_i same
          exact absurd (List.cons.inj same).1 (ne_of_isDigit digit rfl)
      · exact of_map (by simpa [readValue, skipBlanks] using read)
      · exact of_map (by simpa [readValue, skipBlanks] using read)
  obtain ⟨m, found, rfl⟩ := taken
  refine ⟨?_, rfl⟩
  rcases form with numeric | rfl | rfl
  · exact (Uses.readNumber found).ends numeric.numerals stops
  · simp [readNumber] at found
  · simp [readNumber] at found

/-- With so much fuel a reader of values, of items and of members finds what was written, apart from
numbers, or stops inside a number. -/
structure ReadsLike (fuel : Nat) : Prop where
  value {depth : Nat} {j v : Json} {rest r : List Char} (stops : ¬ Stuck rest)
    (read : readValue fuel depth (j.compact.toList ++ rest) = some (v, r)) :
    r = rest ∧ v.shape = j.shape ∨ Stuck r
  items {depth : Nat} {x : Json} {xs done items : List Json} {rest r : List Char}
    (read : readItems fuel depth done
      (x.compact.toList ++ ((compactItems xs).toList ++ ']' :: rest)) = some (items, r)) :
    r = rest ∧ items.map shape = done.reverse.map shape ++ (x :: xs).map shape
  members {depth : Nat} {m : String × Json} {ms done members : List (String × Json)}
    {rest r : List Char}
    (read : readMembers fuel depth done ((quote m.1).toList ++ ':' ::
      (m.2.compact.toList ++ ((compactMembers ms).toList ++ '\x7d' :: rest))) = some (members, r)) :
    r = rest ∧ shapeMembers members = shapeMembers done.reverse ++ shapeMembers (m :: ms)

namespace ReadsLike

variable {fuel depth : Nat} {rest r : List Char}

theorem not_stuck_cons {c : Char} (other : ¬ Numeral c) (rest : List Char) : ¬ Stuck (c :: rest) :=
  fun stuck => other (stuck_cons.mp stuck)

theorem succ_items (ih : ReadsLike fuel) {x : Json} {xs done items : List Json}
    (read : readItems (fuel + 1) depth done
      (x.compact.toList ++ ((compactItems xs).toList ++ ']' :: rest)) = some (items, r)) :
    r = rest ∧ items.map shape = done.reverse.map shape ++ (x :: xs).map shape := by
  rw [readItems] at read
  split at read
  · cases read
  rename_i v next first
  have stops : ¬ Stuck ((compactItems xs).toList ++ ']' :: rest) := by
    cases xs with
    | nil => exact not_stuck_cons (by decide) _
    | cons y ys =>
      rw [compactItems_toList]
      exact not_stuck_cons (by decide) _
  rcases ih.value stops first with ⟨rfl, same⟩ | stuck
  · cases xs with
    | nil =>
      have ends : skipBlanks ((compactItems []).toList ++ ']' :: rest) = ']' :: rest := by
        simp [compactItems, skipBlanks]
      simp only [ends, Option.some.injEq, Prod.mk.injEq] at read
      obtain ⟨rfl, rfl⟩ := read
      simp [same]
    | cons y ys =>
      have onward : skipBlanks ((compactItems (y :: ys)).toList ++ ']' :: rest) =
          ',' :: (y.compact.toList ++ ((compactItems ys).toList ++ ']' :: rest)) := by
        simp [compactItems_toList, skipBlanks]
      simp only [onward] at read
      obtain ⟨ended, shapes⟩ := ih.items read
      exact ⟨ended, by simp [shapes, same]⟩
  · obtain ⟨c, tail, skipped, noComma, noBracket, -⟩ := stuck.skipBlanks
    simp [skipped, noComma, noBracket] at read

theorem succ_members (ih : ReadsLike fuel) {m : String × Json} {ms done members : List (String × Json)}
    (read : readMembers (fuel + 1) depth done ((quote m.1).toList ++ ':' ::
      (m.2.compact.toList ++ ((compactMembers ms).toList ++ '\x7d' :: rest))) = some (members, r)) :
    r = rest ∧ shapeMembers members = shapeMembers done.reverse ++ shapeMembers (m :: ms) := by
  simp only [quote_toList, readMembers, skipBlanks, readQuoted_quote, decide_false, Bool.or_self,
    Bool.false_eq_true, if_false, Char.reduceEq] at read
  split at read
  · cases read
  rename_i v next first
  have stops : ¬ Stuck ((compactMembers ms).toList ++ '\x7d' :: rest) := by
    cases ms with
    | nil => exact not_stuck_cons (by decide) _
    | cons m' ms =>
      rw [compactMembers_toList]
      exact not_stuck_cons (by decide) _
  rcases ih.value stops first with ⟨rfl, same⟩ | stuck
  · cases ms with
    | nil =>
      have ends : skipBlanks ((compactMembers []).toList ++ '\x7d' :: rest) = '\x7d' :: rest := by
        simp [compactMembers, skipBlanks]
      simp only [ends, Option.some.injEq, Prod.mk.injEq] at read
      obtain ⟨rfl, rfl⟩ := read
      simp [shapeMembers_eq, same]
    | cons m' ms =>
      have onward : skipBlanks ((compactMembers (m' :: ms)).toList ++ '\x7d' :: rest) =
          ',' :: ((quote m'.1).toList ++ ':' ::
            (m'.2.compact.toList ++ ((compactMembers ms).toList ++ '\x7d' :: rest))) := by
        simp [compactMembers_toList, skipBlanks]
      simp only [onward] at read
      obtain ⟨ended, shapes⟩ := ih.members read
      exact ⟨ended, by simp [shapes, shapeMembers_eq, same]⟩
  · obtain ⟨c, tail, skipped, noComma, -, noBrace⟩ := stuck.skipBlanks
    simp [skipped, noComma, noBrace] at read

theorem succ_value (ih : ReadsLike fuel) {j v : Json} (stops : ¬ Stuck rest)
    (read : readValue (fuel + 1) depth (j.compact.toList ++ rest) = some (v, r)) :
    r = rest ∧ v.shape = j.shape ∨ Stuck r := by
  cases j with
  | null =>
    have same : some (Json.null, rest) = some (v, r) := by simpa [compact, readValue, skipBlanks] using read
    obtain ⟨rfl, rfl⟩ := Prod.mk.inj (Option.some.inj same)
    exact Or.inl ⟨rfl, rfl⟩
  | bool b =>
    have same : some (Json.bool b, rest) = some (v, r) := by
      cases b <;> simpa [compact, readValue, skipBlanks] using read
    obtain ⟨rfl, rfl⟩ := Prod.mk.inj (Option.some.inj same)
    exact Or.inl ⟨rfl, rfl⟩
  | str s =>
    have same : some (Json.str s, rest) = some (v, r) := by
      simpa [compact, quote_toList, readValue, skipBlanks, readQuoted_quote] using read
    obtain ⟨rfl, rfl⟩ := Prod.mk.inj (Option.some.inj same)
    exact Or.inl ⟨rfl, rfl⟩
  | num n =>
    obtain ⟨ends, shape⟩ := readValue_text stops read
    exact ends.imp (fun ended => ⟨ended, shape⟩) id
  | arr items =>
    cases items with
    | nil =>
      have same : 1 < depth ∧ arr [] = v ∧ rest = r := by
        simpa [compact, readValue, skipBlanks] using read
      obtain ⟨-, rfl, rfl⟩ := same
      exact Or.inl ⟨rfl, rfl⟩
    | cons x xs =>
      obtain ⟨c, tail, text, opens⟩ := compact_opens' x
      have whole : (arr (x :: xs)).compact.toList ++ rest =
          '[' :: c :: (tail ++ ((compactItems xs).toList ++ ']' :: rest)) := by simp [compact, text]
      have bracket (cs : List Char) : skipBlanks ('[' :: cs) = '[' :: cs := by simp [skipBlanks]
      simp only [whole, readValue, bracket, opens.2] at read
      split at read
      · cases read
      · split at read
        · rename_i same
          exact absurd (List.cons.inj same).1 opens.1
        · obtain ⟨⟨items, left⟩, found, same⟩ := Option.map_eq_some_iff.mp read
          obtain ⟨rfl, rfl⟩ := Prod.mk.inj same
          rw [← List.cons_append, ← text] at found
          obtain ⟨ended, shapes⟩ := ih.items found
          refine Or.inl ⟨ended, ?_⟩
          rw [shape, shape, shapeItems_eq, shapeItems_eq, shapes]
          rfl
  | obj members =>
    cases members with
    | nil =>
      have same : 1 < depth ∧ obj [] = v ∧ rest = r := by
        simpa [compact, readValue, skipBlanks] using read
      obtain ⟨-, rfl, rfl⟩ := same
      exact Or.inl ⟨rfl, rfl⟩
    | cons m ms =>
      have whole : (obj (m :: ms)).compact.toList ++ rest = '\x7b' :: ((quote m.1).toList ++ ':' ::
          (m.2.compact.toList ++ ((compactMembers ms).toList ++ '\x7d' :: rest))) := by simp [compact]
      have brace (cs : List Char) : skipBlanks ('\x7b' :: cs) = '\x7b' :: cs := by simp [skipBlanks]
      have opens (cs : List Char) : skipBlanks ((quote m.1).toList ++ cs) = (quote m.1).toList ++ cs := by
        simp [quote_toList, skipBlanks]
      simp only [whole, readValue, brace, opens] at read
      split at read
      · cases read
      · split at read
        · rename_i same
          rw [quote_toList] at same
          cases same
        · obtain ⟨⟨members, left⟩, found, same⟩ := Option.map_eq_some_iff.mp read
          obtain ⟨rfl, rfl⟩ := Prod.mk.inj same
          obtain ⟨ended, shapes⟩ := ih.members found
          refine Or.inl ⟨ended, ?_⟩
          rw [shape, shape, shapes]
          rfl

end ReadsLike

theorem readsLike (fuel : Nat) : ReadsLike fuel := by
  induction fuel with
  | zero => exact ⟨nofun, nofun, nofun⟩
  | succ fuel ih => exact ⟨ih.succ_value, ih.succ_items, ih.succ_members⟩

/-- What is read of a document that was written differs from it in numbers at most. -/
theorem shape_of_parse? {j v : Json} (read : parse? j.compact = some v) : v.shape = j.shape := by
  rw [parse?] at read
  split at read
  · rename_i v' rest found
    split at read
    · rename_i blank
      obtain rfl := Option.some.inj read
      have text : j.compact.toList ++ [] = j.compact.toList := List.append_nil _
      rw [← text] at found
      rcases (readsLike _).value not_stuck_nil found with ⟨-, same⟩ | stuck
      · exact same
      · obtain ⟨c, tail, skipped, -⟩ := stuck.skipBlanks
        simp [skipped] at blank
    · cases read
  · cases read

/-- Values of one shape nest alike. -/
theorem Nests.of_shape {depth : Nat} {v j : Json} (nests : Nests depth v) (same : v.shape = j.shape) :
    Nests depth j := by
  induction nests generalizing j with
  | null => cases j <;> simp [shape] at same; exact .null
  | bool b => cases j <;> simp [shape] at same; exact .bool _
  | str s => cases j <;> simp [shape] at same; exact .str _
  | num n => cases j <;> simp [shape] at same; exact .num _
  | arr each ih =>
    cases j <;> simp only [shape, reduceCtorEq, arr.injEq, shapeItems_eq] at same
    refine .arr fun y member => ?_
    have held := List.mem_map_of_mem (f := shape) member
    rw [← same] at held
    obtain ⟨x, inside, alike⟩ := List.mem_map.mp held
    exact ih x inside alike
  | obj each ih =>
    cases j <;> simp only [shape, reduceCtorEq, obj.injEq, shapeMembers_eq] at same
    refine .obj fun y member => ?_
    have held := List.mem_map_of_mem (f := fun m : String × Json => (m.1, m.2.shape)) member
    rw [← same] at held
    obtain ⟨x, inside, alike⟩ := List.mem_map.mp held
    exact ih x inside (Prod.mk.inj alike).2

/-- What nests too deep is not read at all. -/
theorem parse?_of_deep {j : Json} (deep : ¬ Nests maxDepth j) : parse? j.compact = none := by
  cases read : parse? j.compact with
  | none => rfl
  | some v => exact absurd ((nests_of_parse? read).of_shape (shape_of_parse? read)) deep

theorem eq_str_of_shape {v : Json} {t : String} (alike : v.shape = .str t) : v = .str t := by
  cases v with
  | str s => exact alike
  | null | bool | num | arr | obj => cases alike

/-- What is read back of an object has the texts of the object under the same names. -/
theorem texts_of_shape {v : Json} {members : List (String × Json)} (single : (members.map (·.1)).Nodup)
    (alike : v.shape = (object members).shape) :
    ∃ ms, v.canonical = object ms ∧ ∀ {name t : String},
      Entries.lookup name members = some (.str t) → (Table.ofList ms).get? name = some (.str t) := by
  rw [object_eq, shape, shapeMembers_eq] at alike
  cases v with
  | null | bool | num | arr | str => cases alike
  | obj ms =>
    have same : ms.map (fun m => (m.1, m.2.shape)) =
        (Table.ofList members).entries.map fun m => (m.1, m.2.shape) := by
      rw [← shapeMembers_eq]
      exact obj.inj alike
    have keys : (ms.map (·.1)).Nodup := by
      have names := congrArg (List.map (·.1)) same
      rw [List.map_map, List.map_map] at names
      exact (show ms.map (·.1) = (Table.ofList members).entries.map (·.1) from names) ▸
        (Table.ofList members).nodup_keys
    refine ⟨ms.map fun m => (m.1, m.2.canonical), canonical_obj ms, fun {name t} stated => ?_⟩
    have held : (Entries.lookup name ms).map shape = some (.str t) := by
      have found := congrArg (Entries.lookup name) same
      rw [Entries.lookup_map fun _ => shape, Entries.lookup_map fun _ => shape] at found
      rw [found, ← Table.get?, Table.get?_ofList_of_nodup single, stated, Option.map_some, shape]
    obtain ⟨w, inside, text⟩ := Option.map_eq_some_iff.mp held
    obtain rfl := eq_str_of_shape text
    rw [Table.get?_ofList_of_nodup (by simpa [List.map_map, Function.comp_def] using keys),
      Entries.lookup_map fun _ => canonical, inside, Option.map_some, canonical]

end CodeAgent.Json
