import CodeAgent.Proofs.Tool.Observing

/-! Lines in place of lines.
An edit of lines is planned in whole numbers here, and in words that wrap where it runs. In words it comes
to the same: no subtraction goes below zero, no index is out of range, and what does not fit is told apart.
A file that is as its record says is then replaced by what was planned, or stays as it is. -/
namespace CodeAgent

/-- Neither the user stops the turn nor the index fails. -/
def Heard.undisturbed : Heard → Bool
  | ⟨.cancelled, true⟩ => false
  | ⟨.index _, .error _⟩ => false
  | _ => true

namespace LineEdit

/-- The first line is there or right behind the file; the last one is there, or right before the first. -/
def InRange (start last total : Nat) : Prop :=
  1 ≤ start ∧ start ≤ total + 1 ∧ start - 1 ≤ last ∧ last ≤ total

instance (start last total : Nat) : Decidable (InRange start last total) :=
  inferInstanceAs (Decidable (_ ∧ _ ∧ _ ∧ _))

/- In whole numbers -/

section

variable {e : LineEdit} {lines : List String}

theorem misfit_eq_none {total : Nat} : e.misfit? total = none ↔ InRange e.start e.last total := by
  unfold misfit? InRange
  split
  · rename_i outside
    simp at outside
    constructor
    · rintro ⟨⟩
    · omega
  · rename_i first
    simp at first
    split
    · rename_i outside
      simp at outside
      constructor
      · rintro ⟨⟩
      · omega
    · rename_i final
      simp at final
      simp only [true_iff]
      omega

/-- What is taken out and what is put in account for the lines that there are afterwards. -/
theorem length_apply (fits : InRange e.start e.last lines.length) :
    (e.apply lines).length + e.removed = lines.length + e.replacement.length := by
  obtain ⟨first, _, ordered, final⟩ := fits
  simp only [apply, removed, List.length_append, List.length_take, List.length_drop]
  omega

end

/- In words -/

/-- A subtraction that must not go below zero. -/
def minus? (a b : UInt64) : Option UInt64 := if b ≤ a then some (a - b) else none

/-- The lines up to an index, or from it on, which must be in range. -/
def upTo? (lines : List String) (i : UInt64) : Option (List String) :=
  if i.toNat ≤ lines.length then some (lines.take i.toNat) else none

def from? (lines : List String) (i : UInt64) : Option (List String) :=
  if i.toNat ≤ lines.length then some (lines.drop i.toNat) else none

/-- An edit in words: the new lines, how many were removed and how many added, or no plan when it does
not fit. `none` stands for a crash. -/
def inWords (start last : UInt64) (replacement lines : List String) :
    Option (Option (List String × UInt64 × UInt64)) := do
  let total := UInt64.ofNat lines.length
  if start = 0 ∨ start > total + 1 then return none
  else if last + 1 < start ∨ last > total then
    let _least ← minus? start 1
    return none
  else
    let before ← upTo? lines (← minus? start 1)
    let after ← from? lines last
    let new := before ++ replacement ++ after
    let removed ← minus? (last + 1) start
    let added ← minus? (UInt64.ofNat new.length + removed) total
    return some (new, removed, added)

theorem minus_eq {a b : UInt64} (less : b.toNat ≤ a.toNat) :
    minus? a b = some (UInt64.ofNat (a.toNat - b.toNat)) := by
  have ordered : b ≤ a := UInt64.le_iff_toNat_le.mpr less
  rw [minus?, if_pos ordered, UInt64.ofNat_sub less, UInt64.ofNat_toNat, UInt64.ofNat_toNat]

theorem minus_one {a : UInt64} (positive : 1 ≤ a.toNat) :
    minus? a 1 = some (UInt64.ofNat (a.toNat - 1)) := minus_eq positive

theorem toNat_word {n : Nat} (small : n < 0x10000000000000000) : (UInt64.ofNat n).toNat = n :=
  UInt64.toNat_ofNat_of_lt' small

section

variable {start last : UInt64} {lines : List String}

/-- Where the additions wrap the last line is out of range anyway. -/
theorem unfit_in_words (few : lines.length < 0x8000000000000000) :
    ((start = 0 ∨ start > UInt64.ofNat lines.length + 1) ∨
        (last + 1 < start ∨ last > UInt64.ofNat lines.length)) ↔
      ¬ InRange start.toNat last.toNat lines.length := by
  have total : (UInt64.ofNat lines.length).toNat = lines.length := toNat_word (by omega)
  have behind : (UInt64.ofNat lines.length + 1).toNat = lines.length + 1 := by
    rw [UInt64.toNat_add, total]
    simp
    omega
  have next : (last + 1).toNat = (last.toNat + 1) % 0x10000000000000000 := UInt64.toNat_add last 1
  have zero : start = 0 ↔ start.toNat = 0 := by
    rw [← UInt64.toNat_inj]
    rfl
  have bound := last.toNat_lt
  unfold InRange
  rw [zero, gt_iff_lt, gt_iff_lt, UInt64.lt_iff_toNat_lt, UInt64.lt_iff_toNat_lt,
    UInt64.lt_iff_toNat_lt, behind, next, total]
  omega

theorem inWords_eq (replacement : List String) (few : lines.length < 0x8000000000000000)
    (short : replacement.length < 0x8000000000000000) :
    inWords start last replacement lines =
      some (if InRange start.toNat last.toNat lines.length then
        some (apply ⟨start.toNat, last.toNat, replacement⟩ lines,
          UInt64.ofNat (removed ⟨start.toNat, last.toNat, replacement⟩),
          UInt64.ofNat replacement.length)
      else none) := by
  have total : (UInt64.ofNat lines.length).toNat = lines.length := toNat_word (by omega)
  unfold inWords
  by_cases fits : InRange start.toNat last.toNat lines.length
  · obtain ⟨first, second⟩ := not_or.mp (mt (unfit_in_words few).mp (not_not.mpr fits))
    have counted : (apply ⟨start.toNat, last.toNat, replacement⟩ lines).length +
        removed ⟨start.toNat, last.toNat, replacement⟩ = lines.length + replacement.length :=
      length_apply fits
    rw [if_neg first, if_neg second, if_pos fits]
    obtain ⟨above, near, ordered, final⟩ := fits
    have next : (last + 1).toNat = last.toNat + 1 := by
      rw [UInt64.toNat_add]
      simp
      omega
    have before : upTo? lines (UInt64.ofNat (start.toNat - 1)) =
        some (lines.take (start.toNat - 1)) := by
      rw [upTo?, toNat_word (by omega), if_pos (by omega)]
    have after : from? lines last = some (lines.drop last.toNat) := if_pos final
    have gone : minus? (last + 1) start =
        some (UInt64.ofNat (removed ⟨start.toNat, last.toNat, replacement⟩)) := by
      rw [minus_eq (by omega), next]
      rfl
    have come : minus? (UInt64.ofNat (apply ⟨start.toNat, last.toNat, replacement⟩ lines).length +
        UInt64.ofNat (removed ⟨start.toNat, last.toNat, replacement⟩))
        (UInt64.ofNat lines.length) = some (UInt64.ofNat replacement.length) := by
      have whole : (UInt64.ofNat (lines.length + replacement.length)).toNat =
          lines.length + replacement.length := toNat_word (by omega)
      rw [← UInt64.ofNat_add, counted, minus_eq (by omega), whole, total, Nat.add_sub_cancel_left]
    simp only [minus_one above, Option.bind_eq_bind, Option.bind_some, before, after, gone]
    exact congrArg (Option.bind · _) come
  · rw [if_neg fits]
    by_cases first : start = 0 ∨ start > UInt64.ofNat lines.length + 1
    · rw [if_pos first]
      rfl
    · have second := ((unfit_in_words few).mpr fits).resolve_left first
      have above : 1 ≤ start.toNat := by
        have zero : start.toNat ≠ 0 := fun none => first (Or.inl (UInt64.toNat_inj.mp none))
        omega
      rw [if_neg first, if_pos second, minus_one above]
      rfl

end

end LineEdit

namespace Tool

open Attempt

variable {root given path old : String} {s s' : Scene} {l : List Heard}

theorem not_stopped (smooth : ∀ h ∈ l, h.undisturbed = true) : .polled true ∉ l := by
  intro member
  cases smooth _ member

theorem index_answers (smooth : ∀ h ∈ l, h.undisturbed = true) (c : IndexCall) (f : Fault) :
    (⟨.index c, .error f⟩ : Heard) ∉ l := by
  intro member
  cases smooth _ member

/-- A file that its record agrees with is found as it is. -/
theorem along_found {r : Outcome (String × Option FileRecord)} (rooted : s.files.Rooted)
    (resolved : Path.resolve root given = .ok path) (held : s.files.content? path = some old.toUTF8)
    (fresh : ∀ r, s.records (Path.relative root path) = some r → r.hash = contentHash old)
    (run : Act.Trace (unchanged? root given).run l r) (along : Along s l s')
    (smooth : ∀ h ∈ l, h.undisturbed = true) :
    s' = s ∧ ∃ modified, r = .ok (path, some (.ofContent (Path.relative root path) old modified)) := by
  obtain rfl := along.same
    (run.within (within_unchanged Ask.peeks_of_looks (fun _ => trivial) root given)).1
  refine ⟨rfl, ?_⟩
  have read := FileTree.read_of_content rooted held
  have file : ∀ {kind l}, Act.Trace (Files.kind? path) l kind → ∀ {m}, Along s' l m →
      kind = some .file := by
    intro kind l asked m along
    obtain ⟨modified, status⟩ := FileTree.status_of_content rooted held
    rw [(Files.along_kind asked along).2, status]
    rfl
  have same : ∀ {text : String}, s'.files.read path = .ok text.toUTF8 → text = old := fun again =>
    String.toByteArray_inj.mp (Except.ok.inj (again.symm.trans read))
  cases trace_unchanged run with
  | outside f unresolved =>
    rw [resolved] at unresolved
    cases unresolved
  | absent again asked =>
    cases again.symm.trans resolved
    cases file asked along
  | notFile f again asked other =>
    cases again.symm.trans resolved
    exact absurd (Option.some.inj (file asked along)) other
  | unread again asked loaded =>
    cases again.symm.trans resolved
    obtain ⟨m, along₁, along₂⟩ := along_append.mp along
    obtain ⟨rfl, -⟩ := Files.along_kind asked along₁
    obtain ⟨-, modified, wrong⟩ := Files.loadRecord_of_content rooted held loaded along₂.follows
    cases wrong
  | @unrecalled path _ _ _ _ f again asked loaded recalled =>
    rw [trace_index.mp recalled] at smooth
    exact absurd (by simp) (index_answers smooth (.file (Path.relative root path)) f)
  | changed again recalling differs =>
    cases again.symm.trans resolved
    obtain ⟨-, recorded, text, modified, there, rfl⟩ := along_recalling recalling along
    obtain rfl := same there
    exact absurd (fresh _ recorded.symm) differs
  | found again recalling agree =>
    cases again.symm.trans resolved
    obtain ⟨-, -, text, modified, there, rfl⟩ := along_recalling recalling along
    obtain rfl := same there
    exact ⟨modified, rfl⟩

/-- What is written over a file is then what it holds and what is recorded of it. -/
theorem along_overwritten {content description : String} {current : FileRecord}
    {r : Outcome (FileRecord × Change)} (rooted : s.files.Rooted)
    (held : s.files.content? path = some old.toUTF8)
    (run : Act.Trace (writeChange root path (some current) content description).run l r)
    (along : Along s l s') (smooth : ∀ h ∈ l, h.undisturbed = true) :
    s'.files.content? = Function.update s.files.content? path (some content.toUTF8) ∧
      ∃ modified id time, s'.records = Function.update s.records (Path.relative root path)
          (some (.ofContent (Path.relative root path) content modified)) ∧
        r = .ok (.ofContent (Path.relative root path) content modified,
          ⟨id, Path.relative root path, current.lines, contentHash content, time, description, false⟩) := by
  obtain ⟨stop, _, l₁, rfl, polled, run₁⟩ := trace_lift_bind.mp run
  obtain rfl := Act.trace_cancelled.mp polled
  cases stop with
  | true => exact absurd (by simp) (not_stopped smooth)
  | false =>
    have along₁ : Along s l₁ s' := (along_other (by trivial)).mp along
    rcases trace_bind.mp run₁ with ⟨f, tried, rfl⟩ | ⟨_, l₂, l₃, rfl, wrote, recorded⟩
    · cases (Files.writeText_of_content rooted held tried along₁.follows).1
    obtain ⟨m, along₂, along₃⟩ := along_append.mp along₁
    obtain ⟨-, contents, rooted₂⟩ := Files.writeText_of_content rooted held wrote along₂.follows
    have kept := along₂.stores.unasked (Files.trace_writeText wrote).unasked
    have holds : m.files.content? path = some content.toUTF8 := by
      rw [contents, Function.update_self]
    cases trace_recordChange.mp recorded with
    | unread loaded =>
      obtain ⟨-, _, wrong⟩ := Files.loadRecord_of_content rooted₂ holds loaded along₃.follows
      cases wrong
    | @unrecorded _ record f loaded =>
      exact absurd (by simp) (index_answers smooth (.setFile record) f)
    | recorded id time loaded =>
      obtain ⟨m₁, along₄, along₅⟩ := along_append.mp along₃
      obtain rfl := along₄.same (loaded.within (Files.within_loadRecord Ask.peeks_of_looks ..)).1
      obtain ⟨-, modified, same⟩ := Files.loadRecord_of_content rooted₂ holds loaded along₄.follows
      cases same
      obtain ⟨rs, stored, along₆⟩ := along_index.mp along₅
      obtain rfl := along₆.same (by simp [Ask.peeks])
      refine ⟨contents, modified, id, time, ?_, rfl⟩
      have update : rs = Function.update m₁.records (Path.relative root path)
        (some (.ofContent (Path.relative root path) content modified)) := stored
      rw [update, kept]

/-- A call to edit lines of a file. Its record, if there is one, says what the file holds. -/
structure EditsLines (root : String) (arguments : Json) (s : Scene) (path old : String)
    (start last : Nat) (text : String) : Prop where
  named : ∃ given, arguments.textArgument "path" = .ok given ∧ Path.resolve root given = .ok path
  first : arguments.countArgument "start" = .ok start
  final : arguments.countArgument "end" = .ok last
  content : arguments.textArgument "content" = .ok text
  held : s.files.content? path = some old.toUTF8
  fresh : ∀ r, s.records (Path.relative root path) = some r → r.hash = contentHash old

theorem trace_given {o : Outcome α} {a : α} (given : o = .ok a) {p : α → Attempt β} {r : Outcome β}
    (run : Act.Trace (ofOutcome o >>= p).run l r) : Act.Trace (p a).run l r := by
  rcases trace_ofOutcome_bind run with ⟨f, wrong, -, -⟩ | ⟨b, same, rest⟩
  · cases given.symm.trans wrong
  · cases given.symm.trans same
    exact rest

theorem along_planned {arguments : Json} {start last : Nat} {text : String} {r : Outcome PlannedEdit}
    (rooted : s.files.Rooted) (call : EditsLines root arguments s path old start last text)
    (run : Act.Trace (PlannedEdit.of root arguments).run l r) (along : Along s l s')
    (smooth : ∀ h ∈ l, h.undisturbed = true) :
    s' = s ∧ ∃ modified, r =
      (LineEdit.misfit? ⟨start, last, LineEdit.replacementOf text⟩ (Text.lines old).length).elim
        (.ok ⟨path, .ofContent (Path.relative root path) old modified,
          ⟨start, last, LineEdit.replacementOf text⟩⟩)
        fun why => .error (.validation why) := by
  obtain ⟨given, named, resolved⟩ := call.named
  have run₁ := trace_given call.content (trace_given call.final (trace_given call.first
    (trace_given named run)))
  rcases trace_bind.mp run₁ with ⟨f, refused, rfl⟩ | ⟨found, l₁, l₂, rfl, found?, rest⟩
  · obtain ⟨-, _, wrong⟩ := along_found rooted resolved call.held call.fresh refused along smooth
    cases wrong
  · obtain ⟨m, along₁, along₂⟩ := along_append.mp along
    obtain ⟨rfl, modified, same⟩ := along_found rooted resolved call.held call.fresh found? along₁
      fun h member => smooth h (List.mem_append_left _ member)
    cases same
    have total : (FileRecord.ofContent (Path.relative root path) old modified).lines.length =
      (Text.lines old).length := rfl
    dsimp only at rest
    rw [total] at rest
    split at rest
    · rename_i why unfit
      obtain ⟨rfl, rfl⟩ := trace_throw.mp rest
      exact ⟨along_nil.mp along₂, modified, by rw [unfit]; rfl⟩
    · rename_i fits
      obtain ⟨rfl, rfl⟩ := trace_pure.mp rest
      exact ⟨along_nil.mp along₂, modified, by rw [fits]; rfl⟩

section

variable {arguments : Json} {start last : Nat} {text new : String} {e : BodyEnd} {autoApply : Bool}

/-- A plan that does not fit is all that comes of the call. -/
theorem along_unfit {why : String} (rooted : s.files.Rooted)
    (call : EditsLines root arguments s path old start last text)
    (run : Act.Trace ((editLines root autoApply).body arguments) l e) (along : Along s l s')
    (smooth : ∀ h ∈ l, h.undisturbed = true)
    (unfit : LineEdit.misfit? ⟨start, last, LineEdit.replacementOf text⟩ (Text.lines old).length =
      some why) : s' = s ∧ e = .failed (.validation why) := by
  obtain ⟨r, ran, rfl⟩ := Act.trace_map.mp run
  rcases trace_bind.mp ran with ⟨f, planned, rfl⟩ | ⟨p, l₁, l₂, rfl, planned, rest⟩
  · obtain ⟨still, _, same⟩ := along_planned rooted call planned along smooth
    rw [unfit] at same
    cases same
    exact ⟨still, rfl⟩
  · obtain ⟨m, along₁, along₂⟩ := along_append.mp along
    obtain ⟨-, _, wrong⟩ := along_planned rooted call planned along₁ fun h member =>
      smooth h (List.mem_append_left _ member)
    rw [unfit] at wrong
    cases wrong

/-- A plan that fits is written over the file. -/
theorem along_fit (rooted : s.files.Rooted)
    (call : EditsLines root arguments s path old start last text)
    (run : Act.Trace ((editLines root autoApply).body arguments) l e) (along : Along s l s')
    (smooth : ∀ h ∈ l, h.undisturbed = true)
    (fits : LineEdit.InRange start last (Text.lines old).length)
    (written : new = Text.unlines
      (LineEdit.apply ⟨start, last, LineEdit.replacementOf text⟩ (Text.lines old))) :
    ∃ record change,
      s'.files.content? = Function.update s.files.content? path (some new.toUTF8) ∧
      (∃ modified, record = .ofContent (Path.relative root path) new modified) ∧
      s'.records = Function.update s.records (Path.relative root path) (some record) ∧
      (change.path = Path.relative root path ∧ change.hashAfter = contentHash new ∧
        change.previousLines = Text.lines old ∧ change.created = false) ∧
      e = .done ⟨Json.object [("path", .str (Path.relative root path)),
        ("start", .nat start), ("end", .nat last),
        ("lines_removed", .nat (last + 1 - start)),
        ("lines_added", .nat (LineEdit.replacementOf text).length),
        ("total_lines", .nat record.lines.length)], some change⟩ := by
  have fits' : LineEdit.misfit? ⟨start, last, LineEdit.replacementOf text⟩
    (Text.lines old).length = none := LineEdit.misfit_eq_none.mpr fits
  have counted : (LineEdit.apply ⟨start, last, LineEdit.replacementOf text⟩
      (Text.lines old)).length + (last + 1 - start) =
    (Text.lines old).length + (LineEdit.replacementOf text).length := LineEdit.length_apply fits
  obtain ⟨r, ran, rfl⟩ := Act.trace_map.mp run
  rcases trace_bind.mp ran with ⟨f, planned, rfl⟩ | ⟨p, l₁, l₂, rfl, planned, rest⟩
  · obtain ⟨-, _, wrong⟩ := along_planned rooted call planned along smooth
    rw [fits'] at wrong
    cases wrong
  obtain ⟨m, along₁, along₂⟩ := along_append.mp along
  obtain ⟨rfl, modified, same⟩ := along_planned rooted call planned along₁ fun h member =>
    smooth h (List.mem_append_left _ member)
  rw [fits'] at same
  cases same
  have smooth₂ : ∀ h ∈ l₂, h.undisturbed = true := fun h member =>
    smooth h (List.mem_append_right _ member)
  rcases trace_bind.mp rest with ⟨f, wrote, rfl⟩ | ⟨⟨record, change⟩, l₃, l₄, rfl, wrote, ending⟩
  · obtain ⟨-, _, _, _, -, wrong⟩ := along_overwritten rooted call.held wrote along₂ smooth₂
    cases wrong
  obtain ⟨rfl, rfl⟩ := trace_pure.mp ending
  rw [List.append_nil] at along₂ smooth₂
  obtain ⟨contents, modified', id, time, stored, same⟩ :=
    along_overwritten rooted call.held wrote along₂ smooth₂
  obtain ⟨rfl, known⟩ := Prod.mk.inj (Except.ok.inj same)
  subst written
  refine ⟨_, change, contents, ⟨modified', rfl⟩, stored, ?_, ?_⟩
  · rw [known]
    exact ⟨rfl, rfl, rfl, rfl⟩
  · have added : (Text.lines old).length + (LineEdit.replacementOf text).length -
        (Text.lines old).length = (LineEdit.replacementOf text).length := Nat.add_sub_cancel_left ..
    rw [← added, ← counted]
    rfl

end

/-- A file of two lines, of which nothing is recorded. -/
def twoLines : Bench := ⟨.ofFiles "/p" [("f", "one\ntwo".toUTF8)] 0, .empty⟩

def someLines (start last : UInt64) (text : String) : Json :=
  .obj [("path", .str "f"), ("start", .nat start.toNat), ("end", .nat last.toNat),
    ("content", .str text)]

def edited (start last : UInt64) (text : String) : Act BodyEnd :=
  (editLines "/p" true).body (someLines start last text)

theorem editsLines_someLines (start last : UInt64) (text : String) :
    EditsLines "/p" (someLines start last text) twoLines.scene "/p/f" "one\ntwo" start.toNat
      last.toNat text where
  named := by
    refine ⟨"f", ?_, by decide +kernel⟩
    simp [someLines, Json.textArgument, Json.member?, Json.str?]
  first := by
    simp [someLines, Json.countArgument, Json.countArgument?, Json.member?, Json.nat, Json.nat?]
  final := by
    simp [someLines, Json.countArgument, Json.countArgument?, Json.member?, Json.nat, Json.nat?]
  content := by
    simp [someLines, Json.textArgument, Json.member?, Json.str?]
  held := by decide +kernel
  fresh := by rintro r ⟨⟩

end Tool

end CodeAgent
