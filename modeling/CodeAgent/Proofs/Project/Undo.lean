import CodeAgent.Project.Files
import CodeAgent.Proofs.Project.World
import CodeAgent.Proofs.Session.Lifecycle

/-! Changes that are taken back.
A change that remembers what its file was is reversed while the file is what the change made of it; and
changes one after the other are reversed in the opposite order. -/
namespace CodeAgent

/-- A change remembers what its file held before, `none` if there was none, and the digest of what it
holds since. -/
structure Remembers (root : String) (c : Change) (before after : String → Option ByteArray) : Prop where
  canonical : Path.Canonical (Path.join root c.path)
  written : ∃ text : String, c.hashAfter = contentHash text ∧
    after = Function.update before (Path.join root c.path) (some text.toUTF8)
  former : before (Path.join root c.path) =
    if c.created then none else some (Text.unlines c.previousLines).toUTF8

/-- Changes one after the other, from what files held before them to what they hold after them. -/
inductive Journal (root : String) :
    (String → Option ByteArray) → List Change → (String → Option ByteArray) → Prop where
  | nil (held : String → Option ByteArray) : Journal root held [] held
  | snoc {before between after : String → Option ByteArray} {cs : List Change} {c : Change}
      (earlier : Journal root before cs between) (last : Remembers root c between after) :
      Journal root before (cs ++ [c]) after

theorem Journal.append {root : String} {before between after : String → Option ByteArray}
    {cs ds : List Change} (first : Journal root before cs between)
    (second : Journal root between ds after) : Journal root before (cs ++ ds) after := by
  induction second with
  | nil => simpa using first
  | snoc _ last ih =>
    rw [← List.append_assoc]
    exact .snoc ih last

theorem Journal.of_nil {root : String} {before after : String → Option ByteArray}
    (journal : Journal root before [] after) : after = before := by
  generalize none : [] = cs at journal
  cases journal with
  | nil => rfl
  | snoc => simp at none

theorem Journal.concat {root : String} {before after : String → Option ByteArray}
    {cs : List Change} {c : Change} (journal : Journal root before (cs ++ [c]) after) :
    ∃ between, Journal root before cs between ∧ Remembers root c between after := by
  generalize whole : cs ++ [c] = all at journal
  cases journal with
  | nil => simp at whole
  | snoc earlier last =>
    obtain ⟨rfl, single⟩ := List.append_inj' whole rfl
    obtain ⟨rfl, -⟩ := List.cons.inj single
    exact ⟨_, earlier, last⟩

/-- What the file held before, put in its place, is what all files held before. -/
theorem Remembers.restored {root : String} {c : Change} {before after : String → Option ByteArray}
    (remembers : Remembers root c before after) {former : Option ByteArray}
    (same : before (Path.join root c.path) = former) :
    Function.update after (Path.join root c.path) former = before := by
  obtain ⟨text, -, written⟩ := remembers.written
  rw [written, Function.update_idem, ← same, Function.update_eq_self]

theorem Journal.single {root : String} {before after : String → Option ByteArray} {c : Change}
    (remembers : Remembers root c before after) : Journal root before [c] after :=
  .snoc (.nil before) remembers

/-- A tree becomes another by changes that a journal tells of. -/
structure Journaled (root : String) (t : FileTree) (cs : List Change) (t' : FileTree) : Prop where
  rooted : t'.Rooted
  keeps : t.Keeps t'
  journal : Journal root t.content? cs t'.content?

theorem Journaled.refl (root : String) {t : FileTree} (rooted : t.Rooted) : Journaled root t [] t :=
  ⟨rooted, .refl t, .nil _⟩

theorem Journaled.trans {root : String} {t m t' : FileTree} {cs ds : List Change}
    (first : Journaled root t cs m) (second : Journaled root m ds t') :
    Journaled root t (cs ++ ds) t' :=
  ⟨second.rooted, first.keeps.trans second.keeps, first.journal.append second.journal⟩

theorem Journaled.of_content {root : String} {t t' : FileTree} (rooted : t.Rooted)
    (same : t'.content? = t.content?) (keeps : t.Keeps t') : Journaled root t [] t' where
  rooted := rooted.of_keeps keeps fun q b held => Or.inl (by rw [← same, held]; simp)
  keeps := keeps
  journal := by
    rw [same]
    exact .nil _

namespace Files

variable {t t' : FileTree} {path content : String} {l : List Heard} {r : Outcome Unit}

theorem writeText_of_content {b : ByteArray} (rooted : t.Rooted) (holds : t.content? path = some b)
    (run : Act.Trace (writeText path content).run l r) (follows : Follows t l t') :
    r = .ok () ∧ t'.content? = Function.update t.content? path (some content.toUTF8) ∧
      t'.Rooted := by
  have placed := rooted path b holds
  obtain ⟨names, named, rfl⟩ := FileTree.canonical_of_place placed
  obtain ⟨modified, entry⟩ := FileTree.entry_of_content holds
  have file : t.isDirectory (Path.absolute names) = false := by rw [FileTree.isDirectory, entry]
  have made : t.tryDirs (Path.parent (Path.absolute names)) = (.ok (), t) := by
    cases names using List.reverseRecOn with
    | nil => exact absurd rfl (FileTree.not_top_of_file file)
    | append_singleton names n => exact FileTree.tryDirs_parent named placed
  have wrote : ∀ now, t.write (Path.absolute names) content.toUTF8 now =
      .ok (t.put (Path.absolute names) (.file content.toUTF8 now)) := fun now =>
    FileTree.write_eq.mpr ⟨_, placed, file, rfl⟩
  have madeAnswer : ∀ now, t.answer now (.makeDirs (Path.parent (Path.absolute names))) =
      (.ok (), t) := fun _ => made
  have wroteAnswer : ∀ now, t.answer now (.write (Path.absolute names) content) =
      (.ok (), t.put (Path.absolute names) (.file content.toUTF8 now)) := fun now => by
    rw [FileTree.answer, wrote]; rfl
  cases trace_writeText run with
  | noDirectory e =>
    obtain ⟨now, answered, -⟩ := follows_file.mp follows
    rw [madeAnswer] at answered
    cases answered
  | unwritten e =>
    obtain ⟨now, -, follows₁⟩ := follows_file.mp follows
    rw [madeAnswer] at follows₁
    obtain ⟨now', answered, -⟩ := follows_file.mp follows₁
    rw [wroteAnswer] at answered
    cases answered
  | written =>
    obtain ⟨now, -, follows₁⟩ := follows_file.mp follows
    rw [madeAnswer] at follows₁
    obtain ⟨now', -, follows₂⟩ := follows_file.mp follows₁
    rw [wroteAnswer] at follows₂
    obtain rfl := follows_nil.mp follows₂
    obtain ⟨changed, keeps⟩ := @FileTree.content_write t _ content.toUTF8 now' file
    refine ⟨rfl, changed, rooted.of_keeps keeps fun q held holds' => ?_⟩
    rw [changed] at holds'
    by_cases same : q = Path.absolute names
    · subst same
      exact Or.inl (by rw [holds]; simp)
    · rw [Function.update_of_ne same] at holds'
      exact Or.inl (by rw [holds']; simp)

end Files

namespace Undo

variable {root : String} {c : Change} {before : String → Option ByteArray} {t t' : FileTree}
  {l : List Heard}

theorem follows_revert {r : Outcome Unit} {b : ByteArray} (rooted : t.Rooted)
    (remembers : Remembers root c before t.content?)
    (holds : t.content? (Path.join root c.path) = some b)
    (run : Act.Trace (revert (Path.join root c.path) c).run l r) (follows : Follows t l t')
    (kept : ∀ h ∈ l, h.kept = true) :
    r = .ok () ∧ t'.content? = before ∧ t'.Rooted := by
  unfold revert at run
  split at run
  · rename_i created
    have former := remembers.former
    rw [if_pos created] at former
    obtain ⟨removed, answered, content, keeps⟩ := FileTree.remove_of_content rooted holds
    have answer : ∀ now, t.answer now (.remove (Path.join root c.path)) = (.ok (), removed) :=
      fun now => by rw [FileTree.answer, answered]; rfl
    rcases Attempt.trace_bind.mp run with ⟨f, called, rfl⟩ | ⟨_, l₁, l₂, rfl, called, rest⟩
    · obtain ⟨now, -, ⟨_, -, wrong⟩ | ⟨e, wrong, -⟩⟩ := Files.follows_call called follows
      · cases wrong
      · rw [answer] at wrong
        cases wrong
    · obtain ⟨m, follows₁, follows₂⟩ := follows_append.mp follows
      obtain ⟨now, after, -⟩ := Files.follows_call called follows₁
      rw [answer] at after
      obtain ⟨_, rfl, rfl⟩ := Attempt.trace_index_kept rest rfl fun h member =>
        kept h (List.mem_append_right _ member)
      obtain rfl := follows_nil.mp ((follows_other (by simp)).mp follows₂)
      obtain rfl : t' = removed := after
      refine ⟨rfl, content.trans (remembers.restored former), rooted.of_keeps keeps fun q held there => ?_⟩
      rw [content] at there
      by_cases same : q = Path.join root c.path
      · subst same
        simp at there
      · rw [Function.update_of_ne same] at there
        exact Or.inl (by rw [there]; simp)
  · rename_i changed
    have former := remembers.former
    rw [if_neg changed] at former
    rcases Attempt.trace_bind.mp run with ⟨f, wrote, rfl⟩ | ⟨_, l₁, l₂, rfl, wrote, run₁⟩
    · obtain ⟨wrong, -⟩ := Files.writeText_of_content rooted holds wrote follows
      cases wrong
    · obtain ⟨m, follows₁, follows₂⟩ := follows_append.mp follows
      obtain ⟨-, content, rooted₁⟩ := Files.writeText_of_content rooted holds wrote follows₁
      have holds₁ : m.content? (Path.join root c.path) =
          some (Text.unlines c.previousLines).toUTF8 := by rw [content, Function.update_self]
      have kept₂ : ∀ h ∈ l₂, h.kept = true := fun h member => kept h (List.mem_append_right _ member)
      rcases Attempt.trace_bind.mp run₁ with ⟨f, loaded, rfl⟩ | ⟨record, l₃, l₄, rfl, loaded, rest⟩
      · obtain ⟨-, _, wrong⟩ := Files.loadRecord_of_content rooted₁ holds₁ loaded follows₂
        cases wrong
      · obtain ⟨m', follows₃, follows₄⟩ := follows_append.mp follows₂
        obtain ⟨rfl, -⟩ := Files.loadRecord_of_content rooted₁ holds₁ loaded follows₃
        obtain ⟨_, rfl, rfl⟩ := Attempt.trace_index_kept rest rfl fun h member =>
          kept₂ h (List.mem_append_right _ member)
        obtain rfl := follows_nil.mp ((follows_other (by simp)).mp follows₄)
        exact ⟨rfl, content.trans (remembers.restored former), rooted₁⟩

theorem follows_attempt {r : Outcome Bool} (rooted : t.Rooted)
    (remembers : Remembers root c before t.content?)
    (run : Act.Trace (attempt root c).run l r) (follows : Follows t l t')
    (kept : ∀ h ∈ l, h.kept = true) :
    r = .ok true ∧ t'.content? = before ∧ t'.Rooted := by
  obtain ⟨text, digest, written⟩ := remembers.written
  have holds : t.content? (Path.join root c.path) = some text.toUTF8 := by
    rw [written, Function.update_self]
  have read := FileTree.read_of_content rooted holds
  rcases Attempt.trace_bind.mp run with ⟨f, readRun, rfl⟩ | ⟨current, l₁, l₂, rfl, readRun, run₁⟩
  · obtain ⟨-, ⟨_, -, wrong⟩ | ⟨_, -, unread⟩⟩ := Files.follows_readText readRun follows
    · cases wrong
    · exact absurd read (unread text)
  · obtain ⟨m, follows₁, follows₂⟩ := follows_append.mp follows
    obtain ⟨rfl, ⟨_, read', same⟩ | ⟨_, wrong, -⟩⟩ := Files.follows_readText readRun follows₁
    · cases same
      have same : current = text := by
        rw [read] at read'
        have decoded := Text.fromUTF8_toUTF8 current
        rw [← Except.ok.inj read', Text.fromUTF8_toUTF8] at decoded
        exact (Option.some.inj decoded).symm
      subst same
      -- the digest is that of the text which was written, so the guard does not stop the undo
      rw [if_neg (by simp [digest])] at run₁
      rcases Attempt.trace_bind.mp run₁ with ⟨f, reverted, rfl⟩ | ⟨_, l₃, l₄, rfl, reverted, rest⟩
      · obtain ⟨wrong, -⟩ := follows_revert rooted remembers holds reverted follows₂
          fun h member => kept h (List.mem_append_right _ member)
        cases wrong
      · obtain ⟨rfl, rfl⟩ := Attempt.trace_pure.mp rest
        obtain ⟨m', follows₃, follows₄⟩ := follows_append.mp follows₂
        obtain rfl := follows_nil.mp follows₄
        obtain ⟨-, restored, rooted'⟩ := follows_revert rooted remembers holds reverted follows₃
          fun h member => kept h (List.mem_append_right _ (List.mem_append_left _ member))
        exact ⟨rfl, restored, rooted'⟩
    · cases wrong

/-- The newest change is taken back, if it is remembered. -/
theorem follows_run {s after : Session} {report : UndoReport} {older : List Change}
    (rooted : t.Rooted) (remembers : Remembers root c before t.content?)
    (stack : s.undoStack = c :: older) (run : Act.Trace (Undo.run root s) l (report, after))
    (follows : Follows t l t') (kept : ∀ h ∈ l, h.kept = true) :
    report.success = true ∧ after.undoStack = older ∧
      after.stats = { s.stats with editsApplied := s.stats.editsApplied - 1 } ∧
      t'.content? = before ∧ t'.Rooted := by
  have popped : s.popUndo = (some c, { s with undoStack := older }) := by
    rw [Session.popUndo, stack]
  unfold Undo.run at run
  rw [popped] at run
  obtain ⟨r, l₁, l₂, rfl, attempted, rest⟩ := Act.trace_bind.mp run
  obtain ⟨m, follows₁, follows₂⟩ := follows_append.mp follows
  obtain ⟨rfl, restored, rooted'⟩ := follows_attempt rooted remembers attempted follows₁
    fun h member => kept h (List.mem_append_left _ member)
  obtain ⟨now, l₃, l₄, rfl, clock, ending⟩ := Act.trace_bind.mp rest
  obtain rfl := Act.trace_now.mp clock
  obtain ⟨rfl, same⟩ := Act.trace_pure.mp ending
  obtain ⟨rfl, rfl⟩ := Prod.mk.inj same
  obtain rfl := follows_nil.mp ((follows_other (by simp)).mp follows₂)
  exact ⟨rfl, rfl, rfl, restored, rooted'⟩

/-- Takes the newest changes back, one after the other. -/
def repeated (root : String) : Nat → Session → Act (List UndoReport × Session)
  | 0, s => return ([], s)
  | k + 1, s => do
    let (report, s) ← run root s
    let (reports, s) ← repeated root k s
    return (report :: reports, s)

/-- What a journal recorded is taken back as often as it recorded something. -/
theorem follows_repeated {cs older : List Change} {s after : Session} {reports : List UndoReport}
    (rooted : t.Rooted) (journal : Journal root before cs t.content?)
    (stack : s.undoStack = cs.reverse ++ older)
    (run : Act.Trace (repeated root cs.length s) l (reports, after)) (follows : Follows t l t')
    (kept : ∀ h ∈ l, h.kept = true) :
    reports.length = cs.length ∧ (∀ report ∈ reports, report.success = true) ∧
      t'.content? = before ∧ after.undoStack = older ∧
      after.stats = { s.stats with editsApplied := s.stats.editsApplied - cs.length } := by
  -- from the end of the journal, since the newest change is the first to be taken back
  induction cs using List.reverseRecOn generalizing t s l reports with
  | nil =>
    obtain ⟨rfl, same⟩ := Act.trace_pure.mp run
    obtain ⟨rfl, rfl⟩ := Prod.mk.inj same
    obtain rfl := follows_nil.mp follows
    exact ⟨rfl, by simp, journal.of_nil, stack, rfl⟩
  | append_singleton cs c ih =>
    obtain ⟨between, earlier, last⟩ := journal.concat
    rw [List.length_append] at run
    obtain ⟨⟨report, m⟩, l₁, l₂, rfl, first, rest⟩ := Act.trace_bind.mp run
    obtain ⟨⟨reports', m'⟩, l₃, l₄, rfl, later, ending⟩ := Act.trace_bind.mp rest
    obtain ⟨rfl, same⟩ := Act.trace_pure.mp ending
    obtain ⟨rfl, rfl⟩ := Prod.mk.inj same
    rw [List.append_nil] at follows kept
    obtain ⟨between', follows₁, follows₂⟩ := follows_append.mp follows
    obtain ⟨success, stack₁, stats₁, held, rooted₁⟩ :=
      @follows_run root c between t between' l₁ s m report (cs.reverse ++ older) rooted last
        (by simpa using stack) first follows₁ fun h member => kept h (List.mem_append_left _ member)
    obtain ⟨length, all, restored, stack₂, stats₂⟩ := ih rooted₁ (held ▸ earlier) stack₁ later follows₂
      fun h member => kept h (List.mem_append_right _ member)
    refine ⟨by simp [length], ?_, restored, stack₂, ?_⟩
    · intro x member
      rcases List.mem_cons.mp member with rfl | behind
      · exact success
      · exact all x behind
    · rw [stats₂, stats₁, List.length_append, List.length_singleton]
      simp only [Nat.sub_sub, Nat.add_comm 1]

end Undo

end CodeAgent
