import CodeAgent.Proofs.Project.World
import CodeAgent.Proofs.Recovery.Budget

/-! The recovery along a run.
It decides on the faults of a run by its options, its counts and whatever a user chooses, and forgets
the count of a key when it is told to. -/
namespace CodeAgent

namespace Heard

/-- A question to the recovery. -/
def toRecovery : Heard → Bool
  | ⟨.decide .., _⟩ | ⟨.forgive _, _⟩ => true
  | _ => false

end Heard

/-- A recovery answers along a run, and becomes another by it. -/
inductive Recovers : Recovery → List Heard → Recovery → Prop where
  | nil (r : Recovery) : Recovers r [] r
  | decided {r r₁ r' : Recovery} {f : Fault} {key : String} {d : Decision} {l : List Heard}
      (choice : Option Remedy) (decides : Decides r f.kind choice key d r₁) (rest : Recovers r₁ l r') :
      Recovers r (⟨.decide f key, d⟩ :: l) r'
  | forgiven {r r' : Recovery} {key : String} {l : List Heard}
      (rest : Recovers (r.reset (some key)) l r') : Recovers r (⟨.forgive key, ()⟩ :: l) r'
  | other {r r' : Recovery} {h : Heard} {l : List Heard} (elsewhere : h.toRecovery = false)
      (rest : Recovers r l r') : Recovers r (h :: l) r'

section

variable {r r' : Recovery} {l l₁ l₂ : List Heard}

theorem recovers_nil : Recovers r [] r' ↔ r' = r := by
  constructor
  · intro recovers
    cases recovers
    rfl
  · rintro rfl
    exact .nil r'

theorem recovers_decide {f : Fault} {key : String} {d : Decision} :
    Recovers r (⟨.decide f key, d⟩ :: l) r' ↔
      ∃ choice r₁, Decides r f.kind choice key d r₁ ∧ Recovers r₁ l r' := by
  constructor
  · intro recovers
    cases recovers with
    | decided choice decides rest => exact ⟨choice, _, decides, rest⟩
    | other elsewhere => cases elsewhere
  · rintro ⟨choice, r₁, decides, rest⟩
    exact .decided choice decides rest

theorem recovers_forgive {key : String} :
    Recovers r (⟨.forgive key, ()⟩ :: l) r' ↔ Recovers (r.reset (some key)) l r' := by
  constructor
  · intro recovers
    cases recovers with
    | forgiven rest => exact rest
    | other elsewhere => cases elsewhere
  · exact .forgiven

theorem recovers_other {h : Heard} (elsewhere : h.toRecovery = false) :
    Recovers r (h :: l) r' ↔ Recovers r l r' := by
  constructor
  · intro recovers
    cases recovers with
    | decided => cases elsewhere
    | forgiven => cases elsewhere
    | other _ rest => exact rest
  · exact .other elsewhere

theorem recovers_append : Recovers r (l₁ ++ l₂) r' ↔ ∃ m, Recovers r l₁ m ∧ Recovers m l₂ r' := by
  induction l₁ generalizing r with
  | nil =>
    constructor
    · intro recovers
      exact ⟨r, .nil r, recovers⟩
    · rintro ⟨m, first, second⟩
      obtain rfl := recovers_nil.mp first
      exact second
  | cons h l₁ ih =>
    constructor
    · intro recovers
      cases recovers with
      | decided choice decides rest =>
        obtain ⟨m, first, second⟩ := ih.mp rest
        exact ⟨m, .decided choice decides first, second⟩
      | forgiven rest =>
        obtain ⟨m, first, second⟩ := ih.mp rest
        exact ⟨m, .forgiven first, second⟩
      | other elsewhere rest =>
        obtain ⟨m, first, second⟩ := ih.mp rest
        exact ⟨m, .other elsewhere first, second⟩
    · rintro ⟨m, first, second⟩
      cases first with
      | decided choice decides rest => exact .decided choice decides (ih.mpr ⟨m, rest, second⟩)
      | forgiven rest => exact .forgiven (ih.mpr ⟨m, rest, second⟩)
      | other elsewhere rest => exact .other elsewhere (ih.mpr ⟨m, rest, second⟩)

/-- A recovery that is not asked stays as it is. -/
theorem recovers_elsewhere (elsewhere : ∀ h ∈ l, h.toRecovery = false) :
    Recovers r (l ++ l₂) r' ↔ Recovers r l₂ r' := by
  induction l with
  | nil => rfl
  | cons h l ih =>
    obtain ⟨first, later⟩ := List.forall_mem_cons.mp elsewhere
    exact (recovers_other first).trans (ih later)

theorem Recovers.options (recovers : Recovers r l r') : r'.options = r.options := by
  induction recovers with
  | nil => rfl
  | decided _ decides _ ih => exact ih.trans decides.options
  | forgiven _ ih => exact ih
  | other _ _ ih => exact ih

end

/-- The recovery of a world answers along each run in it. -/
theorem World.recovers_run {σ : Type} (o : Outside σ) (p : Act α) (w : World σ) :
    Recovers w.recovery (heard o p w) (run o p w).2.recovery := by
  induction p generalizing w with
  | done a => exact .nil _
  | ask q next ih =>
    have onward := ih (answer o q w).1 (answer o q w).2
    rw [run_ask]
    cases q with
    | decide f key => exact .decided _ (w.recovery.handle_decides f (some key)) onward
    | forgive key => exact .forgiven onward
    | turn c =>
      refine .other rfl ?_
      cases c with
      | move s =>
        have same : (answer o (.turn (.move s)) w).2.recovery = w.recovery := by
          simp only [answer, turn?]
          split <;> rfl
        rwa [same] at onward
      | _ => exact onward
    | _ => exact .other rfl onward

end CodeAgent
