import CodeAgent.Json.Reader
import CodeAgent.Json.Writer
import Mathlib.Tactic.Basic

/-! A document that is written on one line is read back as it was.
That goes for what has no more depth than is read, and for numbers that are read back: an integer is
while sixty-four bits hold it. -/
namespace CodeAgent.Json

/- Digits -/

/-- What may follow a number: nothing that would go on with it. -/
def Stops (rest : List Char) : Prop :=
  ∀ c ∈ rest.head?, c.isDigit = false ∧ c ≠ '.' ∧ c ≠ 'e' ∧ c ≠ 'E'

theorem stops_nil : Stops [] := by simp [Stops]

theorem stops_cons {c : Char} {rest : List Char} :
    Stops (c :: rest) ↔ c.isDigit = false ∧ c ≠ '.' ∧ c ≠ 'e' ∧ c ≠ 'E' := by simp [Stops]

theorem Stops.noDigit {rest : List Char} (stops : Stops rest) : startsWithDigit rest = false := by
  cases rest with
  | nil => rfl
  | cons c rest => exact (stops_cons.mp stops).1

theorem le_ofDigitChars (digits : List Char) (n : Nat) : n ≤ Nat.ofDigitChars 10 digits n := by
  induction digits generalizing n with
  | nil => exact Nat.le_refl n
  | cons c digits ih =>
    rw [Nat.ofDigitChars_cons]
    exact Nat.le_trans (by omega) (ih _)

theorem takeDigits_append {digits rest : List Char} {n count : Nat}
    (all : ∀ c ∈ digits, c.isDigit = true) (small : Nat.ofDigitChars 10 digits n ≤ maxWord)
    (stops : startsWithDigit rest = false) :
    takeDigits n count (digits ++ rest) =
      (Nat.ofDigitChars 10 digits n, count + digits.length, rest) := by
  induction digits generalizing n count with
  | nil =>
    cases rest with
    | nil => rfl
    | cons c rest =>
      have noDigit : c.isDigit = false := stops
      simp [takeDigits, noDigit]
  | cons c digits ih =>
    have digit := all c List.mem_cons_self
    rw [Nat.ofDigitChars_cons] at small ⊢
    have fits : n * 10 + digitValue c ≤ maxWord := by
      rw [Nat.mul_comm]
      exact Nat.le_trans (le_ofDigitChars digits _) small
    rw [List.cons_append, takeDigits, if_pos (by simp [digit, fits]), Nat.mul_comm n 10]
    rw [show digitValue c = c.toNat - '0'.toNat from rfl]
    rw [ih (fun c member => all c (List.mem_cons_of_mem _ member)) small, List.length_cons]
    congr 2
    omega

/-- Zero has one digit, and no other number starts with it. -/
theorem toDigits_eq_zero_cons {n : Nat} {digits : List Char}
    (leads : Nat.toDigits 10 n = '0' :: digits) : digits = [] := by
  by_cases small : n < 10
  · rw [Nat.toDigits_of_lt_base small] at leads
    exact (List.cons.inj leads).2.symm
  · rw [Nat.toDigits_of_base_le (by omega) (by omega)] at leads
    cases front : Nat.toDigits 10 (n / 10) with
    | nil => exact absurd front Nat.toDigits_ne_nil
    | cons c tail =>
      rw [front, List.cons_append] at leads
      obtain ⟨rfl, -⟩ := List.cons.inj leads
      have alone := toDigits_eq_zero_cons front
      subst alone
      have value := Nat.ofDigitChars_toDigits (b := 10) (n := n / 10) (by omega) (by omega)
      rw [front] at value
      have : n / 10 = 0 := by rw [← value]; rfl
      omega
termination_by n

/- Numbers -/

/-- The text of a number is a sign or none and what starts with a digit, and is read as the number. -/
structure ReadsAs (n : Number) (negative : Bool) (digits : List Char) : Prop where
  text : (Number.text n).toList = (if negative then ['-'] else []) ++ digits
  starts : startsWithDigit digits = true
  reads : ∀ rest, Stops rest → readNumber negative (digits ++ rest) = some (n, rest)

/-- The number is read back as it was written. -/
def Reads (n : Number) : Prop := ∃ negative digits, ReadsAs n negative digits

theorem startsWithDigit_toDigits (n : Nat) : startsWithDigit (Nat.toDigits 10 n) = true := by
  cases digits : Nat.toDigits 10 n with
  | nil => exact absurd digits Nat.toDigits_ne_nil
  | cons c tail =>
    exact Nat.isDigit_of_mem_toDigits (b := 10) (n := n) (by omega) (by omega) (by simp [digits])

theorem readNumber_toDigits {n : Nat} {rest : List Char} (negative : Bool) (small : n ≤ maxWord)
    (stops : Stops rest) :
    readNumber negative (Nat.toDigits 10 n ++ rest) =
      if !negative then some (.int n, rest)
      else if n = 0 || n > Nat.pow 2 63 then
        some (.float (signed true (.ofFloat n.toUInt64.toFloat)), rest)
      else some (.int (-(n : Int)), rest) := by
  have value := Nat.ofDigitChars_toDigits (b := 10) (n := n) (by omega) (by omega)
  have taken : takeDigits 0 0 (Nat.toDigits 10 n ++ rest) =
      (n, (Nat.toDigits 10 n).length, rest) := by
    rw [takeDigits_append (fun c => Nat.isDigit_of_mem_toDigits (by omega) (by omega))
      (by rwa [value]) stops.noDigit, value, Nat.zero_add]
  cases digits : Nat.toDigits 10 n with
  | nil => exact absurd digits Nat.toDigits_ne_nil
  | cons c tail =>
    have digit : c.isDigit = true := by
      have starts := startsWithDigit_toDigits n
      rwa [digits] at starts
    have unpadded : (c = '0' && startsWithDigit (tail ++ rest)) = false := by
      by_cases zero : c = '0'
      · subst zero
        rw [toDigits_eq_zero_cons digits]
        simpa using stops.noDigit
      · simp [zero]
    rw [digits, List.cons_append] at taken
    rw [List.cons_append, readNumber]
    simp only [digit, unpadded, taken, stops.noDigit, Bool.not_true, Bool.false_eq_true, if_false]
    split
    · exact absurd rfl (stops_cons.mp stops).2.1
    · exact absurd rfl (stops_cons.mp stops).2.2.1
    · exact absurd rfl (stops_cons.mp stops).2.2.2
    · rfl

theorem reads_int {i : Int} (low : -Nat.pow 2 63 ≤ i) (high : i ≤ maxWord) : Reads (.int i) := by
  cases i with
  | ofNat n =>
    refine ⟨false, Nat.toDigits 10 n, ?_, startsWithDigit_toDigits n, fun rest stops => ?_⟩
    · simp [Number.text, toString, Int.repr]
    rw [readNumber_toDigits false (Int.ofNat_le.mp high) stops]
    rfl
  | negSucc n =>
    refine ⟨true, Nat.toDigits 10 (n + 1), ?_, startsWithDigit_toDigits _, fun rest stops => ?_⟩
    · simp [Number.text, toString, Int.repr]
    have within : n + 1 ≤ Nat.pow 2 63 := by omega
    have small : n + 1 ≤ maxWord := Nat.le_trans within (by decide)
    rw [readNumber_toDigits true small stops]
    simp [Nat.not_lt.mpr within, Int.negSucc_eq]

/- Texts -/

theorem hex4_hexDigit : ∀ n < 0x20, hex4 '0' '0' (hexDigit (n / 16)) (hexDigit (n % 16)) = some n := by
  decide

theorem readQuoted_escape (c : Char) (done rest : List Char) :
    readQuoted done (escape c ++ rest) = readQuoted (c :: done) rest := by
  unfold escape
  split
  · rfl
  · rfl
  · rfl
  · rfl
  · rfl
  · rfl
  · rfl
  · rename_i noQuote noBackslash _ _ _ _ _
    split
    · rename_i control
      have value := hex4_hexDigit c.toNat control
      have alone : ¬ (0xD800 ≤ c.toNat ∧ c.toNat < 0xDC00) := by omega
      have whole : ¬ (0xDC00 ≤ c.toNat ∧ c.toNat < 0xE000) := by omega
      simp [readQuoted, value, alone, whole]
    · rename_i plain
      rw [List.singleton_append, readQuoted]
      · rw [if_neg plain]
      · exact noQuote
      · exact fun _ _ _ _ _ same _ => noBackslash same
      · exact fun _ _ same _ => noBackslash same

theorem readQuoted_flatMap (cs done rest : List Char) :
    readQuoted done (cs.flatMap escape ++ '"' :: rest) =
      some (String.ofList (done.reverse ++ cs), rest) := by
  induction cs generalizing done with
  | nil => simp [readQuoted]
  | cons c cs ih =>
    rw [List.flatMap_cons, List.append_assoc, readQuoted_escape, ih]
    simp

theorem quote_toList (s : String) (rest : List Char) :
    (quote s).toList ++ rest = '"' :: (s.toList.flatMap escape ++ '"' :: rest) := by
  simp [quote]

theorem readQuoted_quote (s : String) (rest : List Char) :
    readQuoted [] (s.toList.flatMap escape ++ '"' :: rest) = some (s, rest) := by
  simp [readQuoted_flatMap]

/- Documents -/

/-- A document that a reader of so much depth reads back as it was written. -/
inductive Readable : Nat → Json → Prop where
  | null {depth : Nat} : Readable depth .null
  | bool {depth : Nat} (b : Bool) : Readable depth (.bool b)
  | num {depth : Nat} {n : Number} (reads : Reads n) : Readable depth (.num n)
  | str {depth : Nat} (s : String) : Readable depth (.str s)
  | arr {depth : Nat} {items : List Json} (each : ∀ x ∈ items, Readable (depth + 1) x) :
      Readable (depth + 2) (.arr items)
  | obj {depth : Nat} {members : List (String × Json)}
      (each : ∀ m ∈ members, Readable (depth + 1) m.2) : Readable (depth + 2) (.obj members)

theorem ne_of_isDigit {c d : Char} (digit : c.isDigit = true) (noDigit : d.isDigit = false) : c ≠ d := by
  rintro rfl
  rw [digit] at noDigit
  cases noDigit

/-- The front of a text that is neither a blank nor the end of a list. -/
def Opens (c : Char) : Prop := c ≠ ']' ∧ ∀ rest, skipBlanks (c :: rest) = c :: rest

theorem opens_of_isDigit {c : Char} (digit : c.isDigit = true) : Opens c := by
  have other {d : Char} (noDigit : d.isDigit = false) : c ≠ d := ne_of_isDigit digit noDigit
  refine ⟨other rfl, fun rest => ?_⟩
  simp [skipBlanks, other (d := ' ') rfl, other (d := '\n') rfl, other (d := '\t') rfl,
    other (d := '\r') rfl]

theorem compact_opens {depth : Nat} {j : Json} (readable : Readable depth j) :
    ∃ c tail, j.compact.toList = c :: tail ∧ Opens c := by
  cases readable with
  | null => exact ⟨'n', _, rfl, by simp [Opens, skipBlanks]⟩
  | bool b => cases b <;> simp [compact, Opens, skipBlanks]
  | str s => simp [compact, quote, Opens, skipBlanks]
  | @arr _ items => cases items <;> simp [compact, Opens, skipBlanks]
  | @obj _ members => cases members <;> simp [compact, Opens, skipBlanks]
  | num reads =>
    obtain ⟨negative, digits, text, starts, -⟩ := reads
    cases negative with
    | true => exact ⟨'-', digits, by simpa [compact] using text, by simp [Opens, skipBlanks]⟩
    | false =>
      cases digits with
      | nil => cases starts
      | cons c digits => exact ⟨c, digits, by simpa [compact] using text, opens_of_isDigit starts⟩

/-- The text of a document is read as the document, with fuel for its length. -/
def ReadBack (depth : Nat) (j : Json) : Prop :=
  ∀ fuel rest, Stops rest → j.compact.toList.length ≤ fuel →
    readValue fuel depth (j.compact.toList ++ rest) = some (j, rest)

theorem readValue_number {n : Number} (reads : Reads n) (fuel depth : Nat) {rest : List Char}
    (stops : Stops rest) :
    readValue (fuel + 1) depth ((Number.text n).toList ++ rest) = some (.num n, rest) := by
  obtain ⟨negative, digits, text, starts, reads⟩ := reads
  have read := reads rest stops
  rw [text]
  cases negative with
  | true => simp [readValue, skipBlanks, read]
  | false =>
    cases digits with
    | nil => cases starts
    | cons c digits =>
      simp only [Bool.false_eq_true, if_false, List.nil_append, List.cons_append] at read ⊢
      rw [readValue, (opens_of_isDigit starts).2]
      split
      case h_8 => rw [read, Option.map_some]
      all_goals
        rename_i same
        exact absurd (List.cons.inj same).1 (ne_of_isDigit starts rfl)

theorem compactItems_toList (x : Json) (xs : List Json) :
    (compactItems (x :: xs)).toList = ',' :: (x.compact.toList ++ (compactItems xs).toList) := by
  simp [compactItems]

theorem compactMembers_toList (m : String × Json) (ms : List (String × Json)) :
    (compactMembers (m :: ms)).toList =
      ',' :: ((quote m.1).toList ++ ':' :: (m.2.compact.toList ++ (compactMembers ms).toList)) := by
  simp [compactMembers]

theorem readItems_compact {depth : Nat} {x : Json} {xs : List Json}
    (each : ∀ y ∈ x :: xs, Readable depth y) (back : ∀ y ∈ x :: xs, ReadBack depth y)
    (done : List Json) (fuel : Nat) (rest : List Char)
    (enough : x.compact.toList.length + (compactItems xs).toList.length < fuel) :
    readItems fuel depth done (x.compact.toList ++ ((compactItems xs).toList ++ ']' :: rest)) =
      some (done.reverse ++ x :: xs, rest) := by
  induction xs generalizing x done fuel with
  | nil =>
    obtain ⟨fuel, rfl⟩ := Nat.exists_eq_add_one.mpr (Nat.zero_lt_of_lt enough)
    have first := back x List.mem_cons_self fuel (']' :: rest) (by simp [stops_cons]) (by omega)
    simp [readItems, compactItems, first, skipBlanks]
  | cons y ys ih =>
    obtain ⟨fuel, rfl⟩ := Nat.exists_eq_add_one.mpr (Nat.zero_lt_of_lt enough)
    obtain ⟨c, tail, text, -⟩ := compact_opens (each x List.mem_cons_self)
    rw [compactItems_toList] at enough ⊢
    simp only [List.length_cons, List.length_append, text] at enough
    have first := back x List.mem_cons_self fuel
      (',' :: (y.compact.toList ++ ((compactItems ys).toList ++ ']' :: rest)))
      (by simp [stops_cons]) (by simp [text]; omega)
    have later := ih (fun z member => each z (List.mem_cons_of_mem _ member))
      (fun z member => back z (List.mem_cons_of_mem _ member)) (x :: done) fuel (by omega)
    simp [readItems, first, skipBlanks, later]

theorem readMembers_compact {depth : Nat} {m : String × Json} {ms : List (String × Json)}
    (each : ∀ y ∈ m :: ms, Readable depth y.2) (back : ∀ y ∈ m :: ms, ReadBack depth y.2)
    (done : List (String × Json)) (fuel : Nat) (rest : List Char)
    (enough : m.2.compact.toList.length + (compactMembers ms).toList.length < fuel) :
    readMembers fuel depth done ((quote m.1).toList ++ ':' ::
        (m.2.compact.toList ++ ((compactMembers ms).toList ++ '\x7d' :: rest))) =
      some (done.reverse ++ m :: ms, rest) := by
  induction ms generalizing m done fuel with
  | nil =>
    obtain ⟨fuel, rfl⟩ := Nat.exists_eq_add_one.mpr (Nat.zero_lt_of_lt enough)
    have first := back m List.mem_cons_self fuel ('\x7d' :: rest) (by simp [stops_cons]) (by omega)
    simp [quote_toList, readMembers, compactMembers, readQuoted_quote, first, skipBlanks]
  | cons m' ms ih =>
    obtain ⟨fuel, rfl⟩ := Nat.exists_eq_add_one.mpr (Nat.zero_lt_of_lt enough)
    obtain ⟨c, tail, text, -⟩ := compact_opens (each m List.mem_cons_self)
    rw [compactMembers_toList] at enough ⊢
    simp only [List.length_cons, List.length_append, text] at enough
    have first := back m List.mem_cons_self fuel
      (',' :: ((quote m'.1).toList ++ ':' ::
        (m'.2.compact.toList ++ ((compactMembers ms).toList ++ '\x7d' :: rest))))
      (by simp [stops_cons]) (by simp [text]; omega)
    have later := ih (fun z member => each z (List.mem_cons_of_mem _ member))
      (fun z member => back z (List.mem_cons_of_mem _ member)) (m :: done) fuel (by omega)
    simp only [quote_toList] at first later ⊢
    simp [readMembers, readQuoted_quote, first, skipBlanks, later]

theorem readBack_of_succ {depth : Nat} {j : Json} (readable : Readable depth j)
    (read : ∀ fuel rest, Stops rest → j.compact.toList.length ≤ fuel + 1 →
      readValue (fuel + 1) depth (j.compact.toList ++ rest) = some (j, rest)) : ReadBack depth j := by
  intro fuel rest stops enough
  obtain ⟨c, tail, text, -⟩ := compact_opens readable
  cases fuel with
  | zero => simp [text] at enough
  | succ fuel => exact read fuel rest stops enough

theorem readBack {depth : Nat} {j : Json} (readable : Readable depth j) : ReadBack depth j := by
  induction readable with
  | null => exact readBack_of_succ .null fun fuel rest _ _ => by simp [compact, readValue, skipBlanks]
  | bool b =>
    refine readBack_of_succ (.bool b) fun fuel rest _ _ => ?_
    cases b <;> simp [compact, readValue, skipBlanks]
  | num reads =>
    exact readBack_of_succ (.num reads) fun fuel rest stops _ => readValue_number reads fuel _ stops
  | str s =>
    refine readBack_of_succ (.str s) fun fuel rest _ _ => ?_
    simp [compact, quote_toList, readValue, skipBlanks, readQuoted_quote]
  | @arr depth items each back =>
    refine readBack_of_succ (.arr each) fun fuel rest _ enough => ?_
    cases items with
    | nil => simp [compact, readValue, skipBlanks]
    | cons x xs =>
      obtain ⟨c, tail, text, opens⟩ := compact_opens (each x List.mem_cons_self)
      have read := readItems_compact each back [] fuel rest (by simp [compact] at enough ⊢; omega)
      rw [text, List.cons_append] at read
      have whole : (arr (x :: xs)).compact.toList ++ rest =
          '[' :: c :: (tail ++ ((compactItems xs).toList ++ ']' :: rest)) := by simp [compact, text]
      have bracket (cs : List Char) : skipBlanks ('[' :: cs) = '[' :: cs := by simp [skipBlanks]
      simp only [whole, readValue, bracket, opens.2]
      rw [if_neg (by omega)]
      split
      · rename_i same
        exact absurd (List.cons.inj same).1 opens.1
      · simp [read]
  | @obj depth members each back =>
    refine readBack_of_succ (.obj each) fun fuel rest _ enough => ?_
    cases members with
    | nil => simp [compact, readValue, skipBlanks]
    | cons m ms =>
      have read := readMembers_compact each back [] fuel rest
        (by simp [compact] at enough ⊢; omega)
      simp only [quote_toList] at read
      simp [compact, quote_toList, readValue, skipBlanks, read]

/-- A document that is written is read back. -/
theorem parse?_compact {j : Json} (readable : Readable maxDepth j) : parse? j.compact = some j := by
  have read := readBack readable (j.compact.toList.length + 1) [] stops_nil (by omega)
  rw [List.append_nil] at read
  simp [parse?, read, skipBlanks]

end CodeAgent.Json
