import CodeAgent.Proofs.Tool.Overwriting

/-! What an edit that fails leaves behind.
Until a file is written, files and records are as they were, and there may be new directories on the way
to it. Once it is written nothing fails any more but the storing of its record. -/
namespace CodeAgent

theorem IndexCall.Kept.elsewhere {before after : Records} {record : FileRecord} {name : String}
    {answer : Outcome Unit} (kept : (IndexCall.setFile record).Kept before answer after)
    (other : name ≠ record.path) : after name = before name := by
  cases answer with
  | ok =>
    have stored : after = Function.update before record.path (some record) := kept
    rw [stored, Function.update_of_ne other]
  | error =>
    rcases kept with rfl | rfl
    · rfl
    · rw [Function.update_of_ne other]

/-- Files hold what they held, and the index what it held; only some directories may be new. -/
structure Untouched (new : String → Prop) (s s' : Scene) : Prop where
  contents : s'.files.content? = s.files.content?
  records : s'.records = s.records
  directories : ∀ dir, s'.files.isDirectory dir = true → s.files.isDirectory dir = true ∨ new dir

/-- Directories on the way to the file that arguments name. -/
def Leading (root : String) (arguments : Json) (dir : String) : Prop :=
  ∃ given path, arguments.textArgument "path" = .ok given ∧ Path.resolve root given = .ok path ∧
    FileTree.OnTheWay (Path.parent path) dir

section

variable {root given path : String} {arguments : Json} {s s' : Scene} {l : List Heard} {e : BodyEnd}
  {new : String → Prop}

theorem Untouched.refl (new : String → Prop) (s : Scene) : Untouched new s s :=
  ⟨rfl, rfl, fun _ => Or.inl⟩

theorem Untouched.mono {wider : String → Prop} (same : Untouched new s s')
    (more : ∀ dir, new dir → wider dir) : Untouched wider s s' :=
  ⟨same.contents, same.records, fun dir there => (same.directories dir there).imp id (more dir)⟩

theorem Files.untouched_of_unwritten {text : String} {f : Fault} (tried : WriteRun path text l (.error f))
    (along : Along s l s') : Untouched (FileTree.OnTheWay (Path.parent path)) s s' := by
  have made := fun now => s.files.content_answer_makeDirs now (Path.parent path)
  cases tried with
  | noDirectory e =>
    obtain ⟨now, -, rest⟩ := along_file.mp along
    obtain rfl := along_nil.mp rest
    exact ⟨(made now).1, rfl, fun _ => FileTree.isDirectory_tryDirs⟩
  | unwritten e =>
    obtain ⟨now, -, rest⟩ := along_file.mp along
    obtain ⟨now', answered, ending⟩ := along_file.mp rest
    obtain rfl := along_nil.mp ending
    rcases FileTree.answer_write (s.files.answer now (.makeDirs (Path.parent path))).2 now' path text with
      ⟨f, same⟩ | ⟨p, -, -, same⟩
    · rw [same]
      exact ⟨(made now).1, rfl, fun _ => FileTree.isDirectory_tryDirs⟩
    · rw [same] at answered
      cases answered

namespace Tool

open Attempt

/-- How it ends when a file is to be written: nothing was, or all but its record was stored, or all was
done. -/
inductive ChangeEnd (root path text : String) (s : Scene) (l : List Heard) (s' : Scene) :
    Outcome (FileRecord × Change) → Prop where
  | untouched {f : Fault} (same : Untouched (FileTree.OnTheWay (Path.parent path)) s s') :
      ChangeEnd root path text s l s' (.error f)
  | unrecorded {f : Fault} {record : FileRecord} (puts : Puts root path text s.files s'.files)
      (elsewhere : ∀ name, name ≠ Path.relative root path → s'.records name = s.records name)
      (unstored : (⟨.index (.setFile record), .error f⟩ : Heard) ∈ l) :
      ChangeEnd root path text s l s' (.error f)
  | recorded {x : FileRecord × Change} (puts : Puts root path text s.files s'.files)
      (elsewhere : ∀ name, name ≠ Path.relative root path → s'.records name = s.records name)
      (known : Known root path s') (named : x.2.path = Path.relative root path)
      (digest : x.2.hashAfter = contentHash text) : ChangeEnd root path text s l s' (.ok x)

theorem along_stored {name : String} {record : FileRecord} {answer : Outcome Unit} {l₁ l₂ : List Heard}
    (loaded : Act.Trace (Files.loadRecord path name).run l₁ (.ok record))
    (idle : ∀ h ∈ l₂, h.question.peeks)
    (along : Along s (l₁ ++ ⟨.index (.setFile record), answer⟩ :: l₂) s') :
    ∀ n, n ≠ name → s'.records n = s.records n := by
  obtain ⟨text, modified, rfl⟩ := Files.eq_of_loadRecord loaded
  obtain ⟨m, along₁, along₂⟩ := along_append.mp along
  obtain rfl := along₁.same (loaded.within (Files.within_loadRecord Ask.peeks_of_looks ..)).1
  obtain ⟨rs, kept, ending⟩ := along_index.mp along₂
  obtain rfl := ending.same idle
  exact fun n other => kept.elsewhere other

theorem along_change {text description : String} {existing : Option FileRecord}
    {r : Outcome (FileRecord × Change)} (home : Home s.files root)
    (resolved : Path.resolve root given = .ok path)
    (changed : ChangeRun path (Path.relative root path) existing text description l r)
    (along : Along s l s') : ChangeEnd root path text s l s' r := by
  have known := (along_changed home resolved changed along).2
  cases changed with
  | cancelled f =>
    obtain rfl := along.same (by simp [Heard.polled, Ask.peeks])
    exact .untouched (.refl _ s')
  | unwritten tried =>
    exact .untouched (Files.untouched_of_unwritten tried ((along_other (by trivial)).mp along))
  | @written l r recorded =>
    obtain ⟨m, along₁, along₂⟩ := (@along_append s s' [_, _, _] l).mp along
    obtain ⟨names, named, below⟩ := Path.resolve_eq resolved
    have wrote := follows_written home named below ((follows_other (by simp)).mp along₁.follows)
    have still : m.records = s.records := along₁.stores.unasked (by simp)
    have puts : Puts root path text s.files s'.files := by
      have asked := (recorded.within (within_recordChange ..)).1
      have same : s'.files = m.files := by
        refine along₂.follows.same fun h member => (asked h member).imp id ?_
        rintro (other | other) c <;> simp [other]
      rwa [same]
    have read := FileTree.read_of_place wrote.placed wrote.holds
    cases trace_recordChange.mp recorded with
    | unread loaded =>
      -- the file holds the text that was just written, so it is read back
      obtain ⟨-, ⟨_, _, _, wrong⟩ | ⟨_, -, unread | ⟨e, unknown⟩⟩⟩ :=
        Files.follows_loadRecord loaded along₂.follows
      · cases wrong
      · exact absurd read (unread text)
      · obtain ⟨modified, status⟩ := FileTree.status_of_read read
        rw [status] at unknown
        cases unknown
    | @unrecorded l record f loaded =>
      have elsewhere := along_stored loaded (by simp) along₂
      rw [still] at elsewhere
      have last := List.mem_append_right l (List.mem_singleton_self
        (⟨.index (.setFile record), .error f⟩ : Heard))
      exact .unrecorded puts elsewhere (List.mem_append_right [_, _, _] last)
    | recorded id time loaded =>
      have elsewhere := along_stored loaded (by simp [Ask.peeks]) along₂
      rw [still] at elsewhere
      exact .recorded puts elsewhere (known _ rfl) rfl rfl

end Tool

namespace FileTool

open Tool Attempt

/-- How an edit ends: nothing was written, or all but a record was stored, or all was done and is declared. -/
inductive EditEnd (root : String) (arguments : Json) (s : Scene) (l : List Heard) (s' : Scene) :
    BodyEnd → Prop where
  | untouched (f : Fault) (same : Untouched (Leading root arguments) s s') :
      EditEnd root arguments s l s' (.failed f)
  | unrecorded {f : Fault} {record : FileRecord}
      (unstored : (⟨.index (.setFile record), .error f⟩ : Heard) ∈ l) :
      EditEnd root arguments s l s' (.failed f)
  | declared {o : ToolOutput} {c : Change} {given path text : String} (change : o.change = some c)
      (named : arguments.textArgument "path" = .ok given)
      (resolved : Path.resolve root given = .ok path) (names : c.path = Path.relative root path)
      (digest : c.hashAfter = contentHash text)
      (contents : s'.files.content? = Function.update s.files.content? path (some text.toUTF8))
      (known : Known root path s') (elsewhere : ∀ name, name ≠ c.path → s'.records name = s.records name) :
      EditEnd root arguments s l s' (.done o)

theorem along_edit (k : FileTool) (edits : k.edits = true) (home : Tool.Home s.files root)
    (run : Act.Trace ((k.tool root).body arguments) l e) (along : Along s l s') :
    EditEnd root arguments s l s' e := by
  rcases trace_edit edits run with ⟨rfl, ⟨f, rfl⟩, -⟩ | ⟨given, named, tried⟩
  · obtain rfl := along_nil.mp along
    exact .untouched f (.refl _ s')
  have peeks := within_unchanged Ask.peeks_of_looks (fun _ => trivial) root given
  cases tried with
  | @refused _ f planned =>
    obtain rfl := along.same (planned.within peeks).1
    exact .untouched f (.refl _ s')
  | unfit f planned =>
    obtain rfl := along.same (planned.within peeks).1
    exact .untouched f (.refl _ s')
  | changed planned drafted changed declares =>
    obtain ⟨m, along₁, along₂⟩ := along_append.mp along
    obtain rfl := along₁.same (planned.within peeks).1
    have resolved := resolve_of_unchanged planned
    cases along_change home resolved changed along₂ with
    | untouched same =>
      cases declares
      exact .untouched _ (same.mono fun dir onTheWay => ⟨given, _, named, resolved, onTheWay⟩)
    | unrecorded puts elsewhere unstored =>
      cases declares
      exact .unrecorded (List.mem_append_right _ unstored)
    | recorded puts elsewhere known names digest =>
      cases declares with
      | done change =>
        rw [← names] at elsewhere
        exact .declared change named resolved names digest puts.contents known elsewhere

end FileTool

end

/- What can go wrong behind the write -/

namespace Tool

open Attempt

variable {root : String} {l : List Heard}

theorem Files.trace_of_answer (what path : String) (c : FileCall) (a : c.Result) :
    Act.Trace (Files.call what path c).run [⟨.file c, .ok a⟩] (.ok a) :=
  trace_lift_bind.mpr ⟨.ok a, [_], [], rfl, Act.trace_file.mpr rfl, trace_pure.mpr ⟨rfl, rfl⟩⟩

theorem trace_written {absolute content description : String} {previous : Option FileRecord}
    {r : Outcome (FileRecord × Change)}
    (recorded : Act.Trace (recordChange absolute (Path.relative root absolute) previous content
      description).run l r) :
    Act.Trace (writeChange root absolute previous content description).run
      ([.polled false, ⟨.file (.makeDirs (Path.parent absolute)), .ok ()⟩,
        ⟨.file (.write absolute content), .ok ()⟩] ++ l) r := by
  have wrote : Act.Trace (Files.writeText absolute content).run
      [⟨.file (.makeDirs (Path.parent absolute)), .ok ()⟩, ⟨.file (.write absolute content), .ok ()⟩]
      (.ok ()) := by
    have made := Files.trace_of_answer "create" (Path.parent absolute)
      (.makeDirs (Path.parent absolute)) ()
    have wrote := Files.trace_of_answer "write" absolute (.write absolute content) ()
    exact trace_bind.mpr (Or.inr ⟨(), [_], [_], rfl, made, wrote⟩)
  refine trace_lift_bind.mpr ⟨false, [_], _, rfl, Act.trace_cancelled.mpr rfl, ?_⟩
  exact trace_bind.mpr (Or.inr ⟨(), [_, _], l, rfl, wrote, recorded⟩)

/-- A change that was recorded might have been written and not been recorded. -/
theorem unrecorded_of_written {absolute content description : String} {previous : Option FileRecord}
    {x : FileRecord × Change}
    (run : Act.Trace (writeChange root absolute previous content description).run l (.ok x))
    (f : Fault) : ∃ before after record, l = before ++ ⟨.index (.setFile record), .ok ()⟩ :: after ∧
      (∀ h ∈ after, h.question.peeks) ∧
      Act.Trace (writeChange root absolute previous content description).run
        (before ++ [⟨.index (.setFile record), .error f⟩]) (.error f) := by
  cases trace_writeChange run with
  | written recorded =>
    cases trace_recordChange.mp recorded with
    | @recorded l record id time loaded =>
      refine ⟨[.polled false, ⟨.file (.makeDirs (Path.parent absolute)), .ok ()⟩,
        ⟨.file (.write absolute content), .ok ()⟩] ++ l, [⟨.newId, id⟩, ⟨.now, time⟩], record, rfl,
        by simp [Ask.peeks], ?_⟩
      rw [List.append_assoc]
      exact trace_written (trace_recordChange.mpr (.unrecorded f loaded))

end Tool

theorem Bench.stored_of_heard {p : Act α} {b : Bench} {record : FileRecord} {answer : Outcome Unit}
    (member : (⟨.index (.setFile record), answer⟩ : Heard) ∈ Bench.heard p b) : answer = .ok () := by
  induction p generalizing b with
  | done a => cases member
  | ask q next ih =>
    rcases List.mem_cons.mp member with here | later
    · obtain ⟨rfl, same⟩ := Heard.mk.inj here
      rw [heq_eq_eq] at same
      rw [same]
      rfl
    · exact ih _ later

namespace FileTool

open Tool Attempt OneFile

variable {root : String} {arguments : Json} {s s' : Scene} {l : List Heard}

theorem along_unrecorded {front before after : List Heard} {record : FileRecord} (f : Fault)
    (idle : ∀ h ∈ after, h.question.peeks)
    (along : Along s (front ++ (before ++ ⟨.index (.setFile record), .ok ()⟩ :: after)) s') :
    ∃ m, Along s (front ++ (before ++ [⟨.index (.setFile record), .error f⟩])) m ∧
      m.files = s'.files := by
  obtain ⟨m, along₁, along₂⟩ := along_append.mp along
  obtain ⟨m', along₃, along₄⟩ := along_append.mp along₂
  obtain ⟨rs, kept, ending⟩ := along_index.mp along₄
  have unstored : Along m' [⟨.index (.setFile record), .error f⟩] m' :=
    along_index.mpr ⟨m'.records, Or.inl rfl, along_nil.mpr rfl⟩
  refine ⟨m', along_append.mpr ⟨m, along₁, along_append.mpr ⟨m', along₃, unstored⟩⟩, ?_⟩
  rw [ending.same idle]

/-- Wherever an edit is done, it might have failed with its file written. -/
theorem fails_written (k : FileTool) (edits : k.edits = true) {o : ToolOutput}
    (run : Act.Trace ((k.tool root).body arguments) l (.done o)) (along : Along s l s') (f : Fault) :
    ∃ l' m, Act.Trace ((k.tool root).body arguments) l' (.failed f) ∧ Along s l' m ∧
      m.files = s'.files := by
  cases k with
  | editLines autoApply =>
    obtain ⟨r, ran, same⟩ := Act.trace_map.mp run
    rcases trace_bind.mp ran with ⟨f, -, rfl⟩ | ⟨p, l₁, l₂, rfl, planned, rest⟩
    · cases same
    rcases trace_bind.mp rest with ⟨f, -, rfl⟩ | ⟨x, l₃, l₄, rfl, wrote, ending⟩
    · cases same
    obtain ⟨rfl, -⟩ := trace_pure.mp ending
    rw [List.append_nil] at along
    obtain ⟨before, after, record, rfl, idle, failed⟩ := unrecorded_of_written wrote f
    obtain ⟨m, along', files⟩ := along_unrecorded f idle along
    refine ⟨_, m, Act.trace_map.mpr ⟨.error f, ?_, rfl⟩, along', files⟩
    exact trace_bind.mpr (Or.inr ⟨p, l₁, _, rfl, planned, trace_bind.mpr (Or.inl ⟨f, failed, rfl⟩)⟩)
  | createFile autoApply =>
    obtain ⟨r, ran, same⟩ := Act.trace_map.mp run
    rcases trace_bind.mp ran with ⟨f, -, rfl⟩ | ⟨given, l₁, l₂, rfl, path, ran₁⟩
    · cases same
    rcases trace_bind.mp ran₁ with ⟨f, -, rfl⟩ | ⟨content, l₃, l₄, rfl, text, ran₂⟩
    · cases same
    rcases trace_bind.mp ran₂ with ⟨f, -, rfl⟩ | ⟨⟨absolute, existing⟩, l₅, l₆, rfl, planned, rest⟩
    · cases same
    rcases trace_bind.mp rest with ⟨f, -, rfl⟩ | ⟨x, l₇, l₈, rfl, wrote, ending⟩
    · cases same
    obtain ⟨rfl, -⟩ := trace_pure.mp ending
    rw [List.append_nil, ← List.append_assoc, ← List.append_assoc] at along
    obtain ⟨before, after, record, rfl, idle, failed⟩ := unrecorded_of_written wrote f
    obtain ⟨m, along', files⟩ := along_unrecorded f idle along
    rw [List.append_assoc, List.append_assoc] at along'
    refine ⟨_, m, Act.trace_map.mpr ⟨.error f, ?_, rfl⟩, along', files⟩
    refine trace_bind.mpr (Or.inr ⟨given, l₁, _, rfl, path, ?_⟩)
    refine trace_bind.mpr (Or.inr ⟨content, l₃, _, rfl, text, ?_⟩)
    exact trace_bind.mpr (Or.inr ⟨_, l₅, _, rfl, planned, trace_bind.mpr (Or.inl ⟨f, failed, rfl⟩)⟩)
  | _ => cases edits

/-- A new file in a directory that has to be made, under a name that no file can have. -/
def unwritable : Json := Json.object [("path", .str "d/\x00"), ("content", .str "x")]

def creating : Act BodyEnd := ((createFile true).tool "/p").body unwritable

end FileTool

end CodeAgent
