import CodeAgent.Proofs.Tool.Remembering
import CodeAgent.Proofs.Tool.Standard
import CodeAgent.Proofs.Turn.Gatekeeping
import CodeAgent.Proofs.Turn.Books

/-! A turn and the changes it made, taken back.
Whatever way a turn ends, its changes are a journal of what happened to the files, and reversing as many
changes as it applied brings every file back. -/
namespace CodeAgent.Turn

open TurnState

section

variable {root : String} {t t' : FileTree} {l : List Heard}

theorem aside_of_ofTool {h : Heard} (tool : h.question.ofTool) : h.aside = true := by
  obtain ⟨q, answer⟩ := h
  cases q with
  | turn | tell => exact tool.elim
  | _ => rfl

theorem filter_moveTo {next : TurnState} {r : Outcome Unit}
    (run : Act.Trace (moveTo next) l r) : l.filter Heard.aside = [] := by
  rcases trace_moveTo.mp run with ⟨rfl, -⟩ | ⟨f, rfl, -⟩ <;> rfl

/-- Without what moves the machine a gated run is a run of the program itself. -/
theorem trace_of_gated {p : Act α} {value : α} {denied : Bool}
    (run : Act.Trace (gated p) l (value, denied)) (asks : Act.Within Ask.ofTool (fun _ => True) p) :
    Act.Trace p (l.filter Heard.aside) value := by
  induction p generalizing l denied with
  | done v =>
    obtain ⟨rfl, same⟩ := Act.trace_pure.mp run
    obtain ⟨rfl, -⟩ := Prod.mk.inj same
    exact .done _
  | ask q next ih =>
    obtain ⟨tool, onwards⟩ := Act.within_ask.mp asks
    by_cases quiet : ∀ s, q ≠ .confirm s
    · rw [gated_ask next quiet] at run
      obtain ⟨answer, rest, rfl, ran⟩ := Act.trace_ask.mp run
      have aside : Heard.aside ⟨q, answer⟩ = true := aside_of_ofTool tool
      rw [List.filter_cons_of_pos aside]
      exact .ask q next answer (ih answer ran (onwards answer))
    · have asking : ∃ s, q = .confirm s := by simpa using quiet
      obtain ⟨s, rfl⟩ := asking
      simp only [gated, Act.trace_bind, trace_discard, Act.trace_pure] at run
      obtain ⟨_, l₁, _, rfl, ⟨_, first⟩, approved, _, _, rfl, asked, _, l₂, _, rfl, ⟨_, second⟩,
        ⟨v, late⟩, l₃, _, rfl, rest, rfl, same⟩ := run
      obtain rfl := Act.trace_confirm.mp asked
      obtain ⟨rfl, -⟩ := Prod.mk.inj same
      simp only [List.filter_append, filter_moveTo first, filter_moveTo second, List.nil_append,
        List.append_nil]
      exact .ask _ next approved (ih approved rest (onwards approved))

theorem change?_outcome (e : BodyEnd) : change? e.outcome = e.change? := by
  cases e with
  | done o => rfl
  | failed f => rfl
  | crashed text => cases text <;> rfl

/-- What a call does to the files its change tells of, whatever tool it is of. -/
theorem follows_executed {tool : Tool Act} {arguments : Json} {out : Except String ToolOutput}
    (kind : tool.Tame ∨
      ∃ autoApply, tool = Tool.editLines root autoApply ∨ tool = Tool.createFile root autoApply)
    (executed : Registry.Execution tool arguments l out) (rooted : t.Rooted) (home : Tool.Home t root)
    (follows : Follows t l t') (kept : ∀ h ∈ l, h.kept = true) :
    Journaled root t (change? out).toList t' := by
  rcases kind with tame | ⟨autoApply, same⟩
  · have spared : (∀ h ∈ l, h.question.spares) ∧ change? out = none := by
      cases executed with
      | ungated _ body =>
        obtain ⟨asks, plain⟩ := body.within (tame.body arguments)
        exact ⟨asks, by rw [change?_outcome, plain]⟩
      | approved _ summary body =>
        obtain ⟨asks, plain⟩ := body.within (tame.body arguments)
        obtain ⟨shows, -⟩ := summary.within (tame.summary arguments)
        refine ⟨fun h member => ?_, by rw [change?_outcome, plain]⟩
        rcases List.mem_append.mp member with first | behind
        · exact shows h first
        · rcases List.mem_cons.mp behind with rfl | later
          · exact ⟨trivial, Or.inr (by simp)⟩
          · exact asks h later
      | denied _ summary =>
        obtain ⟨shows, -⟩ := summary.within (tame.summary arguments)
        refine ⟨fun h member => ?_, rfl⟩
        rcases List.mem_append.mp member with first | last
        · exact shows h first
        · obtain rfl := List.mem_singleton.mp last
          exact ⟨trivial, Or.inr (by simp)⟩
    obtain rfl := follows.same fun h member => (spared.1 h member).2
    rw [spared.2]
    exact .refl root rooted
  · have editing := Tool.Editing.of_eq same
    cases executed with
    | ungated _ body =>
      rw [change?_outcome]
      exact Tool.follows_edit rooted home (editing.body arguments _ _ body) follows kept
    | @approved l₁ l₂ s e _ summary body =>
      obtain ⟨m, follows₁, follows₂⟩ := follows_append.mp follows
      obtain ⟨shows, -⟩ := summary.within (editing.summary arguments)
      obtain rfl := follows₁.same fun h member => Or.inl (shows h member)
      have follows₃ := (follows_other (by simp)).mp follows₂
      rw [change?_outcome]
      exact Tool.follows_edit rooted home (editing.body arguments _ _ body) follows₃ fun h member =>
        kept h (by simp [member])
    | @denied l₁ s _ summary =>
      obtain ⟨m, follows₁, follows₂⟩ := follows_append.mp follows
      obtain ⟨shows, -⟩ := summary.within (editing.summary arguments)
      obtain rfl := follows₁.same fun h member => Or.inl (shows h member)
      obtain rfl := follows_nil.mp ((follows_other (by simp)).mp follows₂)
      exact .refl root rooted

/-- What a turn does to the files the changes of its account tell of. -/
theorem Account.journaled {a : Agent} {es : List Entry} (edits : a.registry.EditsOnly root)
    (account : Account a l es) (rooted : t.Rooted) (home : Tool.Home t root)
    (follows : Follows t l t') (kept : ∀ h ∈ l, h.kept = true) :
    Journaled root t (es.filterMap Entry.change?) t' := by
  induction account generalizing t with
  | nil =>
    obtain rfl := follows_nil.mp follows
    exact .refl root rooted
  | @other h l es uncounted _ ih =>
    have elsewhere : ∀ c, h.question ≠ .file c := by
      obtain ⟨q, answer⟩ := h
      rintro c rfl
      cases uncounted
    exact ih rooted home ((follows_other elsewhere).mp follows) fun x member =>
      kept x (List.mem_cons_of_mem _ member)
  | reply ms ts r _ ih =>
    exact ih rooted home ((follows_other (by simp)).mp follows) fun x member =>
      kept x (List.mem_cons_of_mem _ member)
  | unstarted name arguments _ ih =>
    have follows₁ := (follows_other (by simp)).mp follows
    exact ih rooted home ((follows_other (by simp)).mp follows₁) fun x member =>
      kept x (List.mem_cons_of_mem _ (List.mem_cons_of_mem _ member))
  | @call name arguments seg l es outcome denied ran _ ih =>
    have follows₁ := (follows_other (by simp)).mp follows
    obtain ⟨m, follows₂, follows₃⟩ := follows_append.mp ((follows_other (by simp)).mp follows₁)
    have called : Journaled root t (change? outcome).toList m := by
      have run := trace_of_gated ran (edits.contained.within_execute name arguments)
      rcases Registry.trace_execute run with ⟨none, _, rfl⟩ | ⟨tool, found, executed⟩
      · have still := follows₂.aside
        rw [none] at still
        obtain rfl := follows_nil.mp still
        exact .refl root rooted
      · obtain ⟨member, -⟩ := Registry.mem_of_get? found
        refine follows_executed (edits tool member) executed rooted home follows₂.aside fun h inside => ?_
        exact kept h (by simp [(List.mem_filter.mp inside).1])
    have onward := ih called.rooted (home.keeps called.keeps) follows₃ fun h member =>
      kept h (by simp [member])
    have both := called.trans onward
    cases change : change? outcome with
    | none => simpa [Entry.change?, change] using both
    | some c => simpa [Entry.change?, change] using both

end

section

variable {a : Agent} {root input : String} {s after last : Session} {t t' t'' : FileTree}
  {l l' : List Heard} {o : Outcome TurnReport}

/-- The changes of a turn are those of its account, in their order. -/
theorem TurnRun.changes {start : TurnState} (ran : TurnRun a s input start l o after) :
    ∃ es, Account a l es ∧
      after.undoStack = ((es.filterMap Entry.change?).foldl Session.pushUndo s).undoStack ∧
      after.stats.editsApplied = s.stats.editsApplied + (es.filterMap Entry.change?).length := by
  by_cases atReady : start = ready
  · subst atReady
    obtain ⟨es, inner, saved, account, books, -⟩ := ran.account
    exact ⟨es, account, books.undoStack, books.editsApplied⟩
  · cases ran with
    | refused => exact ⟨[], account_uncounted rfl, rfl, rfl⟩
    | ran => exact absurd rfl atReady

/-- Whatever way a turn ends, taking back as many changes as it applied succeeds each time and leaves
every file with the content that it had before, and none that was not there. -/
theorem run_then_undo_restores {start b : TurnState} {path : List TurnState} {k : Nat}
    {reports : List UndoReport} (edits : a.registry.EditsOnly root) (rooted : t.Rooted)
    (home : Tool.Home t root) (run : Act.Trace (Turn.run a s input) l (o, after))
    (walk : Walk start l path b) (follows : Follows t l t') (kept : ∀ h ∈ l, h.kept = true)
    (applied : after.stats.editsApplied = s.stats.editsApplied + k) (fits : k ≤ s.maxUndo)
    (undo : Act.Trace (Undo.repeated root k after) l' (reports, last)) (follows' : Follows t' l' t'')
    (kept' : ∀ h ∈ l', h.kept = true) :
    reports.length = k ∧ (∀ report ∈ reports, report.success = true) ∧
      t''.content? = t.content? ∧ last.stats.editsApplied = s.stats.editsApplied := by
  obtain ⟨derived, -, -⟩ := trace_run edits.contained run walk
  obtain ⟨es, account, stack, stats⟩ := derived.changes
  have journaled := account.journaled edits rooted home follows kept
  obtain rfl : k = (es.filterMap Entry.change?).length := by omega
  obtain ⟨older, top⟩ := s.foldl_pushUndo_undoStack (es.filterMap Entry.change?) fits
  obtain ⟨length, successes, restored, -, stats'⟩ :=
    Undo.follows_repeated journaled.rooted journaled.journal (stack.trans top) undo follows' kept'
  refine ⟨length, successes, restored, ?_⟩
  rw [stats']
  simp only
  omega

end

/- A file that is made and edited in a turn, and another that is written over -/

/-- A model that edits in its only round, and a user who approves. -/
def busyEditing : Outside Unit where
  chat := fun _ _ => pure (.reply ⟨"",
    [⟨"1", "create_file", .obj [("path", .str "new"), ("content", .str "one")]⟩,
      ⟨"2", "edit_lines", .obj [("path", .str "new"), ("start", .nat 1), ("end", .nat 1),
        ("content", .str "two")]⟩,
      ⟨"3", "create_file", .obj [("path", .str "old"), ("content", .str "")]⟩], 1, 1, .toolUse⟩)
  abort := pure ()
  confirm := fun _ => pure true
  cancelled := pure false
  process := fun _ => pure .timedOut
  now := pure 0
  newId := pure ""
  tell := fun _ => pure ()
  progress := fun _ => pure ()

def oldWorld : World Unit :=
  ⟨.ofFiles "/p" [("old", "was\nhere".toUTF8)] 0, .empty, "p", .ready, .new {}, ()⟩

theorem run_then_undo_restores_busyEditing :
    ∃ l o after t' l' reports last t'', Act.Trace editingTurn l (o, after) ∧
      Follows oldWorld.files l t' ∧ Act.Trace (Undo.repeated "/p" 3 after) l' (reports, last) ∧
      Follows t' l' t'' ∧ after.stats.editsApplied = 3 ∧
      t'.content? "/p/new" = some "two".toUTF8 ∧
      t''.content? = oldWorld.files.content? ∧ last.stats.editsApplied = 0 := by
  have rooted : oldWorld.files.Rooted := FileTree.rooted_of_isRooted (by decide +kernel)
  have home : Tool.Home oldWorld.files "/p" := ⟨by decide +kernel, by decide +kernel⟩
  have edits : editingAgent.registry.EditsOnly "/p" := Registry.editsOnly_standard "/p" {}
  obtain ⟨applied, written⟩ : (World.run busyEditing editingTurn oldWorld).1.2.stats.editsApplied =
        (Session.new "p" "1" 0).stats.editsApplied + 3 ∧
      (World.run busyEditing editingTurn oldWorld).2.files.content? "/p/new" =
        some "two".toUTF8 := by decide +kernel
  obtain ⟨path, walk⟩ := World.walk_run busyEditing editingTurn oldWorld
  have run := World.trace_run_pair busyEditing editingTurn oldWorld
  have follows := World.follows_run busyEditing editingTurn oldWorld
  have kept := fun h => @World.kept_of_heard _ _ busyEditing editingTurn oldWorld h
  generalize World.run busyEditing editingTurn oldWorld = turned at *
  generalize World.heard busyEditing editingTurn oldWorld = l at *
  have undo := World.trace_run_pair busyEditing (Undo.repeated "/p" 3 turned.1.2) turned.2
  have follows' := World.follows_run busyEditing (Undo.repeated "/p" 3 turned.1.2) turned.2
  obtain ⟨-, -, restored, counted⟩ := run_then_undo_restores edits rooted home run walk follows
    kept applied (by decide) undo follows' fun h member => World.kept_of_heard member
  exact ⟨_, _, _, _, _, _, _, _, run, follows, undo, follows', applied, written, restored, counted⟩

end CodeAgent.Turn
