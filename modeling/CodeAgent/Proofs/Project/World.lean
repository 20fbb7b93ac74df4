import CodeAgent.Project.World
import CodeAgent.Proofs.Project.FileTree
import CodeAgent.Proofs.Tool.Editing
import CodeAgent.Proofs.Turn.Walk

/-! Programs in a world, as runs.
What a world answers is one way to answer, and its turn machine walks along. -/
namespace CodeAgent.World

open TurnState

variable {σ : Type}

/-- What is heard when a program is run in a world. -/
def heard (o : Outside σ) : Act α → World σ → List Heard
  | .done _, _ => []
  | .ask q next, w => ⟨q, (answer o q w).1⟩ :: heard o (next (answer o q w).1) (answer o q w).2

theorem run_ask (o : Outside σ) (q : Ask) (next : q.Answer → Act α) (w : World σ) :
    run o (.ask q next) w = run o (next (answer o q w).1) (answer o q w).2 := rfl

theorem trace_run (o : Outside σ) (p : Act α) (w : World σ) :
    Act.Trace p (heard o p w) (run o p w).1 := by
  induction p generalizing w with
  | done a => exact .done a
  | ask q next ih =>
    rw [run_ask]
    exact .ask q next _ (ih _ _)

theorem trace_run_pair (o : Outside σ) (p : Act (α × β)) (w : World σ) :
    Act.Trace p (heard o p w) ((run o p w).1.1, (run o p w).1.2) := trace_run o p w

theorem hears_answer (o : Outside σ) (q : Ask) (w : World σ) :
    ∃ step, Hears w.machine ⟨q, (answer o q w).1⟩ step (answer o q w).2.machine := by
  cases q with
  | turn c =>
    cases c with
    | state => exact ⟨_, .state w.machine⟩
    | move next =>
      cases may : w.machine.mayMove next with
      | true =>
        have moves : w.machine.move next = .ok next := by simp [TurnState.move, may]
        refine ⟨[next], ?_⟩
        simp only [answer, turn?, moves]
        exact .moved _ _ may
      | false =>
        have stays : w.machine.move next = .error (illegal w.machine next) := by
          simp [TurnState.move, may]
        refine ⟨[], ?_⟩
        simp only [answer, turn?, stays]
        exact .refused _ _ may
    | settle =>
      simp only [answer, turn?]
      cases w.machine with
      | ready => exact ⟨[], .rested⟩
      | _ => exact ⟨[ready], .settled _ (by decide)⟩
  | _ => exact ⟨[], .other _ _ (by rintro ⟨c, asked⟩; cases asked)⟩

theorem walk_run (o : Outside σ) (p : Act α) (w : World σ) :
    ∃ path, Walk w.machine (heard o p w) path (run o p w).2.machine := by
  induction p generalizing w with
  | done a => exact ⟨[], .nil _⟩
  | ask q next ih =>
    obtain ⟨step, hears⟩ := hears_answer o q w
    obtain ⟨path, walk⟩ := ih (answer o q w).1 (answer o q w).2
    rw [run_ask]
    exact ⟨step ++ path, .cons hears walk⟩

theorem saved_of_heard {o : Outside σ} {p : Act α} {w : World σ} {s : Session} {r : Outcome Unit}
    (member : (⟨.sessions (.save s), r⟩ : Heard) ∈ heard o p w) : r = .ok () := by
  induction p generalizing w with
  | done a => cases member
  | ask q next ih =>
    rcases List.mem_cons.mp member with here | later
    · obtain ⟨rfl, same⟩ := Heard.mk.inj here
      rw [heq_eq_eq] at same
      rw [same]
      rfl
    · exact ih _ later

end CodeAgent.World

/-! Runs whose questions about files are answered by a tree, which nothing else changes. -/

namespace CodeAgent

/-- A tree of files answers along a run, and is another at its end. -/
inductive Follows : FileTree → List Heard → FileTree → Prop where
  | nil (t : FileTree) : Follows t [] t
  | file {t t' : FileTree} {l : List Heard} (now : Int) (c : FileCall)
      (rest : Follows (t.answer now c).2 l t') : Follows t (⟨.file c, (t.answer now c).1⟩ :: l) t'
  | other {t t' : FileTree} {h : Heard} {l : List Heard} (elsewhere : ∀ c, h.question ≠ .file c)
      (rest : Follows t l t') : Follows t (h :: l) t'

/-- What changes the record of a file in the index. -/
def IndexCall.stores : IndexCall → Bool
  | setFile _ | deleteFile _ => true
  | _ => false

/-- Unless the index failed to store. -/
def Heard.kept : Heard → Bool
  | ⟨.index c, .error _⟩ => !c.stores
  | _ => true

section

variable {t t' : FileTree} {l l₁ l₂ : List Heard}

theorem follows_nil : Follows t [] t' ↔ t' = t := by
  constructor
  · intro follows
    cases follows
    rfl
  · rintro rfl
    exact .nil t'

theorem follows_file {c : FileCall} {answer : Except FileError c.Result} :
    Follows t (⟨.file c, answer⟩ :: l) t' ↔
      ∃ now, answer = (t.answer now c).1 ∧ Follows (t.answer now c).2 l t' := by
  constructor
  · intro follows
    cases follows with
    | file now c rest => exact ⟨now, rfl, rest⟩
    | other elsewhere => exact absurd rfl (elsewhere c)
  · rintro ⟨now, rfl, rest⟩
    exact .file now c rest

theorem follows_other {h : Heard} (elsewhere : ∀ c, h.question ≠ .file c) :
    Follows t (h :: l) t' ↔ Follows t l t' := by
  constructor
  · intro follows
    cases follows with
    | file now c => exact absurd rfl (elsewhere c)
    | other _ rest => exact rest
  · exact .other elsewhere

theorem follows_append :
    Follows t (l₁ ++ l₂) t' ↔ ∃ m, Follows t l₁ m ∧ Follows m l₂ t' := by
  induction l₁ generalizing t with
  | nil =>
    constructor
    · intro follows
      exact ⟨t, .nil t, follows⟩
    · rintro ⟨m, first, second⟩
      obtain rfl := follows_nil.mp first
      exact second
  | cons h l₁ ih =>
    constructor
    · intro follows
      cases follows with
      | file now c rest =>
        obtain ⟨m, first, second⟩ := ih.mp rest
        exact ⟨m, .file now c first, second⟩
      | other elsewhere rest =>
        obtain ⟨m, first, second⟩ := ih.mp rest
        exact ⟨m, .other elsewhere first, second⟩
    · rintro ⟨m, first, second⟩
      cases first with
      | file now c rest => exact .file now c (ih.mpr ⟨m, rest, second⟩)
      | other elsewhere rest => exact .other elsewhere (ih.mpr ⟨m, rest, second⟩)

/-- Looking changes no file, nor does what is asked elsewhere. -/
theorem Follows.same (follows : Follows t l t')
    (looks : ∀ h ∈ l, h.question.looks ∨ ∀ c, h.question ≠ .file c) : t' = t := by
  induction follows with
  | nil => rfl
  | file now c rest ih =>
    obtain rfl := ih fun h member => looks h (List.mem_cons_of_mem _ member)
    rcases looks _ List.mem_cons_self with looks | elsewhere
    · cases c <;> first | rfl | exact looks.elim
    · exact absurd rfl (elsewhere c)
  | other elsewhere rest ih => exact ih fun h member => looks h (List.mem_cons_of_mem _ member)

theorem Follows.aside (follows : Follows t l t') : Follows t (l.filter Heard.aside) t' := by
  induction follows with
  | nil => exact .nil _
  | file now c rest ih => exact .file now c ih
  | @other t t' h l elsewhere rest ih =>
    rw [List.filter_cons]
    split
    · exact .other elsewhere ih
    · exact ih

theorem World.follows_run {σ : Type} (o : Outside σ) (p : Act α) (w : World σ) :
    Follows w.files (World.heard o p w) (World.run o p w).2.files := by
  induction p generalizing w with
  | done a => exact .nil _
  | ask q next ih =>
    have onward := ih (World.answer o q w).1 (World.answer o q w).2
    rw [World.run_ask]
    cases q with
    | file c => exact .file _ c onward
    | turn c =>
      refine .other (fun _ asked => by cases asked) ?_
      have still : (World.answer o (.turn c) w).2.files = w.files := by
        cases c with
        | state => rfl
        | move s =>
          simp only [World.answer, World.turn?]
          split <;> rfl
        | settle => rfl
      rwa [still] at onward
    | _ => exact .other (fun _ asked => by cases asked) onward

end

theorem Heard.kept_of_not_stores {c : IndexCall} {answer : Outcome c.Result}
    (other : c.stores = false) : Heard.kept ⟨.index c, answer⟩ = true := by
  cases answer <;> simp [Heard.kept, other]

theorem World.kept_of_heard {σ : Type} {o : Outside σ} {p : Act α} {w : World σ} {h : Heard}
    (member : h ∈ World.heard o p w) : h.kept = true := by
  induction p generalizing w with
  | done a => cases member
  | ask q next ih =>
    rcases List.mem_cons.mp member with rfl | later
    · cases q with
      | index c =>
        cases c with
        | setFile | deleteFile => rfl
        | _ => exact Heard.kept_of_not_stores rfl
      | _ => rfl
    · exact ih _ later

/-- While the index does not fail to store it answers. -/
theorem Attempt.trace_index_kept {c : IndexCall} {l : List Heard} {r : Outcome c.Result}
    (run : Act.Trace (Attempt.index c).run l r) (stores : c.stores = true)
    (kept : ∀ h ∈ l, h.kept = true) : ∃ a, l = [⟨.index c, .ok a⟩] ∧ r = .ok a := by
  obtain rfl := Attempt.trace_index.mp run
  cases r with
  | ok a => exact ⟨a, rfl, rfl⟩
  | error f =>
    have wrong := kept _ List.mem_cons_self
    simp [Heard.kept, stores] at wrong

namespace Files

variable {t t' : FileTree} {path : String} {l : List Heard}

theorem follows_call {what : String} {c : FileCall} {r : Outcome c.Result}
    (run : Act.Trace (call what path c).run l r) (follows : Follows t l t') :
    ∃ now, t' = (t.answer now c).2 ∧
      ((∃ a, (t.answer now c).1 = .ok a ∧ r = .ok a) ∨
        ∃ e, (t.answer now c).1 = .error e ∧ r = .error (refused what path e.message)) := by
  rcases trace_call run with ⟨a, rfl, rfl⟩ | ⟨e, rfl, rfl⟩
  · obtain ⟨now, answered, rest⟩ := follows_file.mp follows
    exact ⟨now, follows_nil.mp rest, Or.inl ⟨a, answered.symm, rfl⟩⟩
  · obtain ⟨now, answered, rest⟩ := follows_file.mp follows
    exact ⟨now, follows_nil.mp rest, Or.inr ⟨e, answered.symm, rfl⟩⟩

theorem follows_readText {r : Outcome String} (run : Act.Trace (readText path).run l r)
    (follows : Follows t l t') :
    t' = t ∧ ((∃ text, t.read path = .ok text.toUTF8 ∧ r = .ok text) ∨ ∃ f, r = .error f ∧
      ∀ text : String, t.read path ≠ .ok text.toUTF8) := by
  rcases Attempt.trace_bind.mp run with ⟨f, called, rfl⟩ | ⟨bytes, l₁, l₂, rfl, called, rest⟩
  · obtain ⟨now, rfl, ⟨_, -, wrong⟩ | ⟨e, answered, -⟩⟩ := follows_call called follows
    · cases wrong
    · refine ⟨rfl, Or.inr ⟨f, rfl, fun text read => ?_⟩⟩
      have failed : t'.read path = .error e := answered
      rw [read] at failed
      cases failed
  · obtain ⟨m, follows₁, follows₂⟩ := follows_append.mp follows
    obtain ⟨now, rfl, ⟨_, answered, same⟩ | ⟨_, -, wrong⟩⟩ := follows_call called follows₁
    · cases same
      have read : m.read path = .ok bytes := answered
      cases decoded : String.fromUTF8? bytes with
      | some text =>
        rw [decoded] at rest
        obtain ⟨rfl, rfl⟩ := Attempt.trace_pure.mp rest
        refine ⟨follows_nil.mp follows₂, Or.inl ⟨text, ?_, rfl⟩⟩
        rw [read, Text.toUTF8_of_fromUTF8 decoded]
      | none =>
        rw [decoded] at rest
        obtain ⟨rfl, rfl⟩ := Attempt.trace_throw.mp rest
        refine ⟨follows_nil.mp follows₂, Or.inr ⟨_, rfl, fun text held => ?_⟩⟩
        rw [read] at held
        obtain rfl := Except.ok.inj held
        rw [Text.fromUTF8_toUTF8] at decoded
        cases decoded
    · cases wrong

theorem follows_loadRecord {name : String} {r : Outcome FileRecord}
    (run : Act.Trace (loadRecord path name).run l r) (follows : Follows t l t') :
    t' = t ∧ ((∃ text modified, t.read path = .ok text.toUTF8 ∧
      r = .ok (.ofContent name text modified)) ∨ ∃ f, r = .error f ∧
      ((∀ text : String, t.read path ≠ .ok text.toUTF8) ∨ ∃ e, t.status path = .error e)) := by
  rcases Attempt.trace_bind.mp run with ⟨f, readRun, rfl⟩ | ⟨text, l₁, l₂, rfl, readRun, run₁⟩
  · obtain ⟨same, ⟨_, -, wrong⟩ | ⟨_, -, unread⟩⟩ := follows_readText readRun follows
    · cases wrong
    · exact ⟨same, Or.inr ⟨f, rfl, Or.inl unread⟩⟩
  · obtain ⟨m, follows₁, follows₂⟩ := follows_append.mp follows
    obtain ⟨rfl, ⟨_, read, same⟩ | ⟨_, wrong, -⟩⟩ := follows_readText readRun follows₁
    · cases same
      rcases Attempt.trace_bind.mp run₁ with ⟨f, called, rfl⟩ | ⟨status, l₃, l₄, rfl, called, rest⟩
      · obtain ⟨now, rfl, ⟨_, -, wrong⟩ | ⟨e, answered, -⟩⟩ := follows_call called follows₂
        · cases wrong
        · exact ⟨rfl, Or.inr ⟨f, rfl, Or.inr ⟨e, answered⟩⟩⟩
      · obtain ⟨m', follows₃, follows₄⟩ := follows_append.mp follows₂
        obtain ⟨now, rfl, -⟩ := follows_call called follows₃
        obtain ⟨rfl, rfl⟩ := Attempt.trace_pure.mp rest
        exact ⟨follows_nil.mp follows₄, Or.inl ⟨text, status.modified, read, rfl⟩⟩
    · cases wrong

theorem loadRecord_of_content {name text : String} {r : Outcome FileRecord} (rooted : t.Rooted)
    (holds : t.content? path = some text.toUTF8)
    (run : Act.Trace (loadRecord path name).run l r) (follows : Follows t l t') :
    t' = t ∧ ∃ modified, r = .ok (.ofContent name text modified) := by
  have read := FileTree.read_of_content rooted holds
  obtain ⟨rfl, ⟨text', modified, read', rfl⟩ | ⟨f, -, unread | ⟨e, unknown⟩⟩⟩ :=
    follows_loadRecord run follows
  · rw [read] at read'
    have same := Text.fromUTF8_toUTF8 text'
    rw [← Except.ok.inj read', Text.fromUTF8_toUTF8] at same
    obtain rfl := Option.some.inj same
    exact ⟨rfl, modified, rfl⟩
  · exact absurd read (unread text)
  · obtain ⟨modified, known⟩ := FileTree.status_of_content rooted holds
    rw [known] at unknown
    cases unknown

end Files

end CodeAgent
