import CodeAgent.Proofs.Project.World
import CodeAgent.Proofs.Turn.Holding

/-! Calls that share a machine.
A call goes on until it has to wait for an answer, and then any other may go on. A call looks at the
machine before it does anything and is refused unless the machine is ready; but it waits once before its
first move, and whoever looks at the machine meanwhile is let in as well. -/
namespace CodeAgent

namespace Turn

open TurnState

variable {ι : Type} [DecidableEq ι]

/-- What one of the callers hears. -/
def own (c : ι) (l : List (ι × Heard)) : List Heard := (l.filter (·.1 = c)).map Prod.snd

/-- What all the other callers hear. -/
def without (c : ι) (l : List (ι × Heard)) : List (ι × Heard) := l.filter (·.1 ≠ c)

/-- A caller is only left where it is done or has to wait for what it asks next. -/
def GivesWay : List (ι × Heard) → Prop
  | [] => True
  | (c, _) :: l =>
    (l.head?.map Prod.fst = some c ∨ ∀ h ∈ (own c l).head?, h.awaits = true) ∧ GivesWay l

instance decidableGivesWay : (l : List (ι × Heard)) → Decidable (GivesWay l)
  | [] => .isTrue trivial
  | (c, _) :: l =>
    have : Decidable (GivesWay l) := decidableGivesWay l
    inferInstanceAs (Decidable
      ((l.head?.map Prod.fst = some c ∨ ∀ h ∈ (own c l).head?, h.awaits = true) ∧ GivesWay l))

/-- A call for a turn, how it ends and what becomes of its session. -/
structure Call where
  session : Session
  input : String
  outcome : Outcome TurnReport
  after : Session

/-- Calls on one machine, from where it is ready to where all of them have ended. A caller that hears
nothing makes no call. -/
structure Interleaving (a : Agent) (call : ι → Call) (l : List (ι × Heard)) (path : List TurnState)
    (b : TurnState) : Prop where
  runs : ∀ c, own c l ≠ [] → Act.Trace (Turn.run a (call c).session (call c).input) (own c l)
    ((call c).outcome, (call c).after)
  walk : Walk ready (l.map Prod.snd) path b
  givesWay : GivesWay l

/-- A turn that was let in and has not settled. -/
def UnderWay (l : List Heard) : Prop :=
  l.head? = some ⟨.turn .state, ready⟩ ∧ l.any Heard.settles = false

/-- A call that found the machine busy. -/
def Refused (l : List Heard) : Prop := ∃ start, start ≠ ready ∧ l = [⟨.turn .state, start⟩]

/-- One turn at a time. Each call is refused on the spot or is a turn as if it were the only one, and
without those that are refused all would be as it is. -/
structure Apart (a : Agent) (call : ι → Call) (l : List (ι × Heard)) (path : List TurnState)
    (b : TurnState) : Prop where
  exclusive : ∀ front, front <+: l → ∀ c d, UnderWay (own c front) → UnderWay (own d front) → c = d
  alone : ∀ c, own c l ≠ [] → ∃ start, TurnRun a (call c).session (call c).input start (own c l)
    (call c).outcome (call c).after
  harmless : ∀ c, Refused (own c l) → (call c).outcome = .error busy ∧
    (call c).after = (call c).session ∧ Interleaving a call (without c l) path b
  rests : b = ready

/-- A call is let in while another turn is under way and exposed. -/
def Overtaken (l : List (ι × Heard)) : Prop :=
  ∃ front c back, l = front ++ (c, ⟨.turn .state, ready⟩) :: back ∧ own c front = [] ∧
    ∃ d, UnderWay (own d front) ∧ Exposed (own d front)

/- What a caller hears -/

section

variable {c d : ι} {h : Heard} {l front back : List (ι × Heard)}

@[simp] theorem own_nil : own c [] = [] := rfl

@[simp] theorem own_append : own c (front ++ back) = own c front ++ own c back := by
  simp [own]

@[simp] theorem own_cons_self : own c ((c, h) :: l) = h :: own c l := by
  simp [own]

theorem own_cons_other (other : c ≠ d) : own d ((c, h) :: l) = own d l := by
  simp [own, other]

@[simp] theorem without_cons_self : without c ((c, h) :: l) = without c l := by
  simp [without]

theorem without_cons_other (other : d ≠ c) : without c ((d, h) :: l) = (d, h) :: without c l := by
  simp [without, other]

theorem own_without (other : d ≠ c) : own d (without c l) = own d l := by
  rw [own, own, without, List.filter_filter]
  congr 1
  apply List.filter_congr
  rintro ⟨e, h⟩ -
  by_cases same : e = d
  · simp [same, other]
  · simp [same]

@[simp] theorem own_without_self : own c (without c l) = [] := by
  simp [own, without, List.filter_filter]

/-- A caller that was left has to wait for what it hears next. -/
theorem GivesWay.awaits (givesWay : GivesWay (front ++ (c, h) :: back)) (absent : own c front = [])
    (present : own d front ≠ []) : ∀ g ∈ (own d back).head?, g.awaits = true := by
  induction front with
  | nil => exact absurd rfl present
  | cons first front ih =>
    obtain ⟨e, k⟩ := first
    obtain ⟨here, later⟩ := givesWay
    have different : e ≠ c := by
      rintro rfl
      simp at absent
    rw [own_cons_other different] at absent
    by_cases last : own d front = []
    · obtain rfl : e = d := by
        by_contra other
        exact present ((own_cons_other other).trans last)
      rcases here with stays | waits
      · cases front with
        | nil => exact absurd (Option.some.inj stays) different.symm
        | cons second front =>
          obtain ⟨f, k'⟩ := second
          obtain rfl : f = e := Option.some.inj stays
          simp at last
      · have next : own e (front ++ (c, h) :: back) = own e back := by
          rw [own_append, last, own_cons_other different.symm, List.nil_append]
        rw [← next]
        exact waits
    · exact ih later absent last

theorem GivesWay.without (givesWay : GivesWay l) (c : ι) : GivesWay (without c l) := by
  induction l with
  | nil => trivial
  | cons first l ih =>
    obtain ⟨d, h⟩ := first
    obtain ⟨here, later⟩ := givesWay
    by_cases same : d = c
    · subst same
      rw [without_cons_self]
      exact ih later
    · rw [without_cons_other same]
      refine ⟨?_, ih later⟩
      rw [own_without same]
      refine here.imp_left fun stays => ?_
      cases l with
      | nil => cases stays
      | cons second l =>
        obtain ⟨e, k⟩ := second
        obtain rfl : e = d := Option.some.inj stays
        rw [without_cons_other same]
        rfl

/-- Looking at the machine leaves it as it is. -/
theorem walk_without {a b : TurnState} {path : List TurnState}
    (walk : Walk a (l.map Prod.snd) path b)
    (looks : ∀ h ∈ own c l, ∃ start, h = ⟨.turn .state, start⟩) :
    Walk a ((without c l).map Prod.snd) path b := by
  induction l generalizing a path with
  | nil => exact walk
  | cons first l ih =>
    obtain ⟨d, h⟩ := first
    obtain ⟨step, m, path, rfl, hears, onward⟩ := walk_cons.mp walk
    by_cases same : d = c
    · subst same
      rw [own_cons_self] at looks
      obtain ⟨⟨start, rfl⟩, later⟩ := List.forall_mem_cons.mp looks
      rw [without_cons_self]
      cases hears with
      | state => exact ih onward later
      | other _ _ elsewhere => exact absurd ⟨_, rfl⟩ elsewhere
    · rw [own_cons_other same] at looks
      rw [without_cons_other same]
      exact .cons hears (ih onward looks)

end

/- Calls in progress -/

section

variable {a : Agent} {call : ι → Call} {l front back : List (ι × Heard)} {path : List TurnState}
  {b x y : TurnState} {c : ι} {h : Heard}

/-- A call begins by looking at the machine, and goes on only if it was ready. -/
theorem trace_run_cons {s after : Session} {input : String} {o : Outcome TurnReport} {t : List Heard}
    (run : Act.Trace (Turn.run a s input) (h :: t) (o, after)) :
    ∃ start, h = ⟨.turn .state, start⟩ ∧ (start ≠ ready → t = [] ∧ o = .error busy ∧ after = s) := by
  unfold Turn.run at run
  obtain ⟨start, l₁, l₂, whole, asked, onward⟩ := Act.trace_bind.mp run
  obtain rfl := Act.trace_turn.mp asked
  obtain ⟨rfl, rfl⟩ := List.cons.inj whole
  refine ⟨start, rfl, fun notReady => ?_⟩
  rw [if_pos notReady] at onward
  obtain ⟨rfl, same⟩ := Act.trace_pure.mp onward
  obtain ⟨rfl, rfl⟩ := Prod.mk.inj same
  exact ⟨rfl, rfl, rfl⟩

/-- A turn that has ended is no longer under way. -/
theorem TurnRun.not_underWay {s after : Session} {input : String} {start : TurnState}
    {o : Outcome TurnReport} {l : List Heard} (ran : TurnRun a s input start l o after) :
    ¬ UnderWay l := by
  intro underWay
  by_cases idle : start = ready
  · subst idle
    have settled := ran.settles
    rw [underWay.2] at settled
    cases settled
  · cases ran with
    | refused => exact idle (by simpa using underWay.1)
    | ran => exact idle rfl

/-- The calls up to some moment, and where the machine is then: each that was let in hears what a
machine of its own would say, which is this one while it is under way. -/
structure Orderly (front : List (ι × Heard)) (x : TurnState) : Prop where
  walks : ∀ c, (own c front).head? = some ⟨.turn .state, ready⟩ →
    ∃ path y, Walk ready (own c front) path y ∧ (UnderWay (own c front) → y = x)
  exclusive : ∀ c d, UnderWay (own c front) → UnderWay (own d front) → c = d
  idle : (∀ c, ¬ UnderWay (own c front)) → x = ready

theorem orderly_nil : Orderly ([] : List (ι × Heard)) ready :=
  ⟨nofun, fun _ _ underWay => (nomatch underWay.1), fun _ => rfl⟩

theorem own_snoc_self : own c (front ++ [(c, h)]) = own c front ++ [h] := by simp

theorem own_snoc_other {d : ι} (other : d ≠ c) : own d (front ++ [(c, h)]) = own d front := by
  rw [own_append, own_cons_other other.symm, own_nil, List.append_nil]

/-- What one caller hears is no matter to the others, unless the machine is moved under one of them. -/
theorem Orderly.snoc (orderly : Orderly front x)
    (walks : (own c front ++ [h]).head? = some ⟨.turn .state, ready⟩ →
      ∃ path z, Walk ready (own c front ++ [h]) path z ∧ (UnderWay (own c front ++ [h]) → z = y))
    (alone : UnderWay (own c front ++ [h]) → ∀ d, d ≠ c → ¬ UnderWay (own d front))
    (still : ∀ d, d ≠ c → UnderWay (own d front) → y = x)
    (idle : ¬ UnderWay (own c front ++ [h]) → (∀ d, d ≠ c → ¬ UnderWay (own d front)) → y = ready) :
    Orderly (front ++ [(c, h)]) y := by
  refine ⟨fun d letIn => ?_, fun d e first second => ?_, fun none => ?_⟩
  · by_cases same : d = c
    · subst same
      rw [own_snoc_self] at letIn ⊢
      exact walks letIn
    · rw [own_snoc_other same] at letIn ⊢
      obtain ⟨path, z, walk, agrees⟩ := orderly.walks d letIn
      exact ⟨path, z, walk, fun underWay => (agrees underWay).trans (still d same underWay).symm⟩
  · by_cases first_same : d = c <;> by_cases second_same : e = c
    · exact first_same.trans second_same.symm
    · subst first_same
      rw [own_snoc_self] at first
      rw [own_snoc_other second_same] at second
      exact absurd second (alone first e second_same)
    · subst second_same
      rw [own_snoc_other first_same] at first
      rw [own_snoc_self] at second
      exact absurd first (alone second d first_same)
    · rw [own_snoc_other first_same] at first
      rw [own_snoc_other second_same] at second
      exact orderly.exclusive d e first second
  · refine idle (fun underWay => none c ?_) fun d other underWay => none d ?_
    · rwa [own_snoc_self]
    · rwa [own_snoc_other other]

theorem Orderly.ready_of_free (orderly : Orderly front x) (mine : ¬ UnderWay (own c front))
    (others : ∀ d, d ≠ c → ¬ UnderWay (own d front)) : x = ready := by
  refine orderly.idle fun d => ?_
  by_cases same : d = c
  · exact same ▸ mine
  · exact others d same

theorem not_underWay_of_absent (absent : own c front = []) : ¬ UnderWay (own c front) := by
  rw [absent]
  exact fun underWay => nomatch underWay.1

theorem Orderly.refused (orderly : Orderly front x) (absent : own c front = []) (busy : x ≠ ready) :
    Orderly (front ++ [(c, ⟨.turn .state, x⟩)]) x := by
  have shut : (own c front ++ [(⟨.turn .state, x⟩ : Heard)]).head? ≠ some ⟨.turn .state, ready⟩ := by
    rw [absent]
    simpa using busy
  exact orderly.snoc (fun letIn => absurd letIn shut) (fun underWay => absurd underWay.1 shut)
    (fun _ _ _ => rfl) fun _ free => orderly.ready_of_free (not_underWay_of_absent absent) free

theorem Orderly.letIn (orderly : Orderly front ready) (absent : own c front = [])
    (free : ∀ d, ¬ UnderWay (own d front)) :
    Orderly (front ++ [(c, ⟨.turn .state, ready⟩)]) ready := by
  refine orderly.snoc (fun _ => ⟨[], ready, ?_, fun _ => rfl⟩) (fun _ d _ => free d)
    (fun _ _ _ => rfl) fun _ _ => rfl
  rw [absent]
  exact .cons (.state ready) (.nil ready)

/-- A turn that is under way takes the machine along, up to where it settles. -/
theorem Orderly.moved (orderly : Orderly front x) (underWay : UnderWay (own c front))
    {step : List TurnState} (hears : Hears x h step y) : Orderly (front ++ [(c, h)]) y := by
  have others : ∀ d, d ≠ c → ¬ UnderWay (own d front) := fun d other also =>
    other (orderly.exclusive d c also underWay)
  obtain ⟨path, z, walk, agrees⟩ := orderly.walks c underWay.1
  obtain rfl := agrees underWay
  refine orderly.snoc (fun _ => ⟨path ++ step, y, ?_, fun _ => rfl⟩) (fun _ => others)
    (fun d other also => absurd also (others d other)) fun ended _ => ?_
  · exact walk_append.mpr ⟨z, path, step, rfl, walk, by simpa using Walk.cons hears (.nil y)⟩
  · apply ready_of_settles hears
    by_contra unsettled
    refine ended ⟨?_, ?_⟩
    · rw [List.head?_append, underWay.1]
      rfl
    · simpa [underWay.2] using unsettled

/-- A turn that has settled is no longer under way, and hears nothing more of the machine. -/
theorem Orderly.left (orderly : Orderly front x)
    (letIn : (own c front).head? = some ⟨.turn .state, ready⟩)
    (settled : (own c front).any Heard.settles = true) (elsewhere : ¬ h.ofTurn) :
    Orderly (front ++ [(c, h)]) x := by
  have before : ¬ UnderWay (own c front) := fun underWay => by
    rw [underWay.2] at settled
    cases settled
  have ended : ¬ UnderWay (own c front ++ [h]) := fun underWay => by
    have unsettled := underWay.2
    rw [List.any_append, settled] at unsettled
    cases unsettled
  obtain ⟨path, z, walk, -⟩ := orderly.walks c letIn
  have along : Walk ready (own c front ++ [h]) path z := walk_append.mpr
    ⟨z, path, [], (List.append_nil path).symm, walk, .cons (.other z h elsewhere) (.nil z)⟩
  exact orderly.snoc (fun _ => ⟨path, z, along, fun underWay => absurd underWay ended⟩)
    (fun underWay => absurd underWay ended) (fun _ _ _ => rfl)
    fun _ free => orderly.ready_of_free before free

/-- A turn under way that was left where the machine is ready is exposed. -/
theorem exposed_of_underWay {d : ι} (contained : a.registry.Contained)
    (inter : Interleaving a call (front ++ (c, h) :: back) path b) (orderly : Orderly front ready)
    (absent : own c front = []) (underWay : UnderWay (own d front)) : Exposed (own d front) := by
  have present : own d front ≠ [] := fun none => not_underWay_of_absent none underWay
  have other : c ≠ d := by
    rintro rfl
    exact present absent
  have whole : own d (front ++ (c, h) :: back) = own d front ++ own d back := by
    rw [own_append, own_cons_other other]
  have run := inter.runs d (by simp [whole, present])
  obtain ⟨path, z, walk, agrees⟩ := orderly.walks d underWay.1
  obtain rfl := agrees underWay
  rw [whole] at run
  have waits := inter.givesWay.awaits absent present
  cases next : own d back with
  | nil =>
    rw [next, List.append_nil] at run
    exact absurd underWay (trace_run contained run walk).1.not_underWay
  | cons g rest =>
    rw [next] at run waits
    exact exposed_of_waits contained run walk present underWay.2 (waits g rfl)

theorem Orderly.step (contained : a.registry.Contained)
    (inter : Interleaving a call (front ++ (c, h) :: back) path b)
    (free : ¬ Overtaken (front ++ (c, h) :: back)) (orderly : Orderly front x)
    {step : List TurnState} (hears : Hears x h step y) : Orderly (front ++ [(c, h)]) y := by
  have whole : own c (front ++ (c, h) :: back) = own c front ++ h :: own c back := by simp
  have run := inter.runs c (by simp [whole])
  rw [whole] at run
  cases mine : own c front with
  | nil =>
    rw [mine] at run
    obtain ⟨start, rfl, -⟩ := trace_run_cons run
    have looked : start = x ∧ y = x := by
      cases hears with
      | state => exact ⟨rfl, rfl⟩
      | other _ _ elsewhere => exact absurd ⟨_, rfl⟩ elsewhere
    obtain ⟨rfl, rfl⟩ := looked
    by_cases idle : y = ready
    · subst idle
      refine orderly.letIn mine fun d underWay => free ?_
      exact ⟨front, c, back, rfl, mine, d, underWay,
        exposed_of_underWay contained inter orderly mine underWay⟩
    · exact orderly.refused mine idle
  | cons first rest =>
    have letIn : (own c front).head? = some ⟨.turn .state, ready⟩ := by
      rw [mine] at run ⊢
      obtain ⟨start, rfl, refused⟩ := trace_run_cons run
      by_contra notReady
      simpa using (refused fun same => notReady (by rw [same]; rfl)).1
    by_cases settled : (own c front).any Heard.settles = true
    · obtain ⟨path, z, walk, -⟩ := orderly.walks c letIn
      have elsewhere := leaves_alone contained run walk settled
      obtain ⟨-, rfl⟩ := (hears_other elsewhere).mp hears
      exact orderly.left letIn settled elsewhere
    · exact orderly.moved ⟨letIn, by simpa using settled⟩ hears

/-- Where nobody is overtaken, the calls are in order at all times. -/
theorem orderly_of_free (contained : a.registry.Contained)
    (inter : Interleaving a call (front ++ back) path b) (free : ¬ Overtaken (front ++ back))
    {path : List TurnState} (walk : Walk ready (front.map Prod.snd) path x) : Orderly front x := by
  induction front using List.reverseRecOn generalizing back x path with
  | nil =>
    obtain ⟨-, rfl⟩ := walk_nil.mp walk
    exact orderly_nil
  | append_singleton front last ih =>
    obtain ⟨c, h⟩ := last
    rw [List.append_assoc, List.singleton_append] at inter free
    rw [List.map_append, walk_append] at walk
    obtain ⟨m, path₁, _, rfl, before, now⟩ := walk
    obtain ⟨step, y, _, rfl, hears, done⟩ := walk_cons.mp now
    obtain ⟨-, rfl⟩ := walk_nil.mp done
    exact Orderly.step contained inter free (ih inter free before) hears

/-- A call among calls in order is refused on the spot, or is a turn by itself. -/
theorem Orderly.turn (contained : a.registry.Contained) (inter : Interleaving a call l path b)
    (orderly : Orderly l x) (present : own c l ≠ []) :
    ∃ start, TurnRun a (call c).session (call c).input start (own c l) (call c).outcome
      (call c).after := by
  have run := inter.runs c present
  cases mine : own c l with
  | nil => exact absurd mine present
  | cons first rest =>
    rw [mine] at run
    obtain ⟨start, rfl, refused⟩ := trace_run_cons run
    by_cases idle : start = ready
    · subst idle
      obtain ⟨path, z, walk, -⟩ := orderly.walks c (by rw [mine]; rfl)
      rw [mine] at walk
      exact ⟨ready, (trace_run contained run walk).1⟩
    · obtain ⟨rfl, outcome, after⟩ := refused idle
      rw [outcome, after]
      exact ⟨start, .refused idle⟩

/-- A call that was refused leaves no trace. -/
theorem Interleaving.refused (inter : Interleaving a call l path b) (refused : Refused (own c l)) :
    (call c).outcome = .error busy ∧ (call c).after = (call c).session ∧
      Interleaving a call (without c l) path b := by
  obtain ⟨start, shut, mine⟩ := refused
  have run := inter.runs c (by simp [mine])
  rw [mine] at run
  obtain ⟨start', same, refused⟩ := trace_run_cons run
  obtain rfl : start = start' := by simpa using same
  obtain ⟨-, outcome, after⟩ := refused shut
  refine ⟨outcome, after, ?_, walk_without inter.walk (by simp [mine]), inter.givesWay.without c⟩
  intro d present
  have other : d ≠ c := by
    rintro rfl
    exact present own_without_self
  rw [own_without other] at present ⊢
  exact inter.runs d present

theorem apart_of_free (contained : a.registry.Contained) (inter : Interleaving a call l path b)
    (free : ¬ Overtaken l) : Apart a call l path b := by
  have orderly : Orderly l b := by
    rw [← List.append_nil l] at inter free
    exact orderly_of_free contained inter free (by simpa using inter.walk)
  refine ⟨?_, fun c => orderly.turn contained inter, fun c => inter.refused,
    orderly.idle fun c underWay => ?_⟩
  · rintro front ⟨back, rfl⟩
    have walk := inter.walk
    rw [List.map_append, walk_append] at walk
    obtain ⟨x, path₁, _, rfl, before, -⟩ := walk
    exact (orderly_of_free contained inter free before).exclusive
  · have present : own c l ≠ [] := fun none => not_underWay_of_absent none underWay
    obtain ⟨start, ran⟩ := orderly.turn contained inter present
    exact ran.not_underWay underWay

/-- Who is let in while another turn is under way makes two turns of it. -/
theorem Overtaken.not_apart (overtaken : Overtaken l) : ¬ Apart a call l path b := by
  obtain ⟨front, c, back, rfl, absent, d, underWay, -⟩ := overtaken
  intro apart
  have other : d ≠ c := by
    rintro rfl
    exact not_underWay_of_absent absent underWay
  apply other
  refine apart.exclusive (front ++ [(c, ⟨.turn .state, ready⟩)]) ⟨back, by simp⟩ d c ?_ ?_
  · rwa [own_snoc_other other]
  · rw [own_snoc_self, absent]
    exact ⟨rfl, rfl⟩

/-- Calls on one machine keep apart exactly if none of them is let in while another one's turn is
under way and waits before its first move, or was denied approval. -/
theorem calls_apart_iff (contained : a.registry.Contained) (inter : Interleaving a call l path b) :
    Apart a call l path b ↔ ¬ Overtaken l :=
  ⟨fun apart overtaken => overtaken.not_apart apart, apart_of_free contained inter⟩

/-- Where only one caller is let in nobody is overtaken. -/
theorem not_overtaken_of_single (only : ∀ d, (own d l).head? = some ⟨.turn .state, ready⟩ → d = c) :
    ¬ Overtaken l := by
  rintro ⟨front, d, back, rfl, absent, e, underWay, -⟩
  have first : d = c := only d (by rw [own_append, absent, own_cons_self]; rfl)
  have second : e = c := only e (by rw [own_append, List.head?_append, underWay.1]; rfl)
  exact not_underWay_of_absent absent (first.trans second.symm ▸ underWay)

end

end Turn

/- Calls in one world -/

def Act.value? : Act α → Option α
  | .done a => some a
  | .ask .. => none

namespace World

open TurnState Turn

variable {ι σ : Type} [DecidableEq ι]

/-- Runs programs in one world, each step of the one whose turn it is, and says what each then is. -/
def share (o : Outside σ) : List ι → (ι → Act α) → World σ → List (ι × Heard) × (ι → Act α) × World σ
  | [], p, w => ([], p, w)
  | c :: schedule, p, w =>
    match p c with
    | .done _ => share o schedule p w
    | .ask q next =>
      let rest := share o schedule (fun d => if d = c then next (answer o q w).1 else p d)
        (answer o q w).2
      ((c, ⟨q, (answer o q w).1⟩) :: rest.1, rest.2)

section

variable {o : Outside σ} {schedule : List ι} {p : ι → Act α} {w : World σ} {c : ι}

theorem share_done {a : α} (program : p c = .done a) :
    share o (c :: schedule) p w = share o schedule p w := by
  rw [share, program]

theorem share_ask {q : Ask} {next : q.Answer → Act α} (program : p c = .ask q next) :
    share o (c :: schedule) p w =
      ((c, ⟨q, (answer o q w).1⟩) ::
        (share o schedule (fun d => if d = c then next (answer o q w).1 else p d) (answer o q w).2).1,
      (share o schedule (fun d => if d = c then next (answer o q w).1 else p d) (answer o q w).2).2) := by
  rw [share, program]

theorem trace_share {a : α} (ended : ((share o schedule p w).2.1 c).value? = some a) :
    Act.Trace (p c) (own c (share o schedule p w).1) a := by
  induction schedule generalizing p w with
  | nil =>
    change (p c).value? = some a at ended
    cases program : p c with
    | done b =>
      rw [program] at ended
      obtain rfl := Option.some.inj ended
      exact .done _
    | ask q next =>
      rw [program] at ended
      cases ended
  | cons d schedule ih =>
    cases program : p d with
    | done b =>
      rw [share_done program] at ended ⊢
      exact ih ended
    | ask q next =>
      rw [share_ask program] at ended ⊢
      have onward := ih ended
      by_cases same : d = c
      · subst same
        rw [own_cons_self, program]
        rw [if_pos rfl] at onward
        exact .ask q next _ onward
      · rw [own_cons_other same]
        rwa [if_neg (Ne.symm same)] at onward

theorem walk_share (o : Outside σ) (schedule : List ι) (p : ι → Act α) (w : World σ) :
    ∃ path, Walk w.machine ((share o schedule p w).1.map Prod.snd) path
      (share o schedule p w).2.2.machine := by
  induction schedule generalizing p w with
  | nil => exact ⟨[], .nil _⟩
  | cons c schedule ih =>
    cases program : p c with
    | done b =>
      rw [share_done program]
      exact ih p w
    | ask q next =>
      rw [share_ask program]
      obtain ⟨step, hears⟩ := hears_answer o q w
      obtain ⟨path, walk⟩ := ih (fun d => if d = c then next (answer o q w).1 else p d) (answer o q w).2
      exact ⟨step ++ path, .cons hears walk⟩

end

/-- Turns that are run to their ends in one world are calls on one machine. -/
theorem interleaving_share {o : Outside σ} {schedule : List ι} {a : Agent} {w : World σ}
    {session : ι → Session} {input : ι → String} {ends : ι → Outcome TurnReport × Session}
    (ended : ∀ c, ((share o schedule (fun c => Turn.run a (session c) (input c)) w).2.1 c).value? =
      some (ends c)) (start : w.machine = ready)
    (givesWay : GivesWay (share o schedule (fun c => Turn.run a (session c) (input c)) w).1) :
    ∃ path b, Interleaving a (fun c => ⟨session c, input c, (ends c).1, (ends c).2⟩)
      (share o schedule (fun c => Turn.run a (session c) (input c)) w).1 path b := by
  obtain ⟨path, walk⟩ := walk_share o schedule (fun c => Turn.run a (session c) (input c)) w
  rw [start] at walk
  exact ⟨path, _, fun c _ => trace_share (ended c), walk, givesWay⟩

end World

namespace Turn

open TurnState

/- Two calls on one machine -/

/-- An agent without tools. -/
def plainAgent : Agent := ⟨⟨[]⟩, 1, 1, 0⟩

theorem plainAgent_contained : plainAgent.registry.Contained := nofun

/-- A model that answers at once. -/
def prompt : Outside Unit where
  chat := fun _ _ => pure (.reply ⟨"done", [], 1, 1, .endTurn⟩)
  abort := pure ()
  confirm := fun _ => pure true
  cancelled := pure false
  process := fun _ => pure .timedOut
  now := pure 0
  newId := pure ""
  tell := fun _ => pure ()
  progress := fun _ => pure ()

def promptWorld : World Unit := ⟨.empty, .empty, "p", ready, .new ⟨0, false, false⟩, ()⟩

def twoSessions (c : Bool) : Session := .new "p" (if c then "1" else "2") 0

def twoCalls (schedule : List Bool) :
    List (Bool × Heard) × (Bool → Act (Outcome TurnReport × Session)) × World Unit :=
  World.share prompt schedule (fun c => Turn.run plainAgent (twoSessions c) "hi") promptWorld

theorem interleaving_twoCalls {schedule : List Bool} {outcome : Bool → Outcome TurnReport}
    {history : Bool → Nat}
    (ended : ∀ c, ((twoCalls schedule).2.1 c).value?.map (fun r => (r.1, r.2.history.length)) =
      some (outcome c, history c)) (givesWay : GivesWay (twoCalls schedule).1) :
    ∃ call path b, Interleaving plainAgent call (twoCalls schedule).1 path b ∧
      ∀ c, (call c).session = twoSessions c ∧ (call c).outcome = outcome c ∧
        (call c).after.history.length = history c := by
  have ends : ∀ c, ∃ r, ((twoCalls schedule).2.1 c).value? = some r ∧ r.1 = outcome c ∧
      r.2.history.length = history c := by
    intro c
    obtain ⟨r, same, outcomes⟩ := Option.map_eq_some_iff.mp (ended c)
    obtain ⟨first, second⟩ := Prod.mk.inj outcomes
    exact ⟨r, same, first, second⟩
  choose r same outcomes histories using ends
  obtain ⟨path, b, inter⟩ := World.interleaving_share same rfl givesWay
  exact ⟨_, path, b, inter, fun c => ⟨rfl, outcomes c, histories c⟩⟩

/-- The second call is made while the first one waits for the model. -/
def refusing : List Bool := .replicate 7 true ++ [false] ++ .replicate 10 true

theorem calls_apart_iff_refusing :
    plainAgent.registry.Contained ∧ ∃ call path b,
      Interleaving plainAgent call (twoCalls refusing).1 path b ∧
      Apart plainAgent call (twoCalls refusing).1 path b ∧
      (call true).outcome = .ok ⟨.completed, "done", 0, 1⟩ ∧ (call false).outcome = .error busy := by
  have ended : ∀ c, ((twoCalls refusing).2.1 c).value?.map (fun r => (r.1, r.2.history.length)) =
      some (if c then .ok ⟨.completed, "done", 0, 1⟩ else .error busy, if c then 2 else 0) := by
    decide +kernel
  obtain ⟨call, path, b, inter, outcomes⟩ := interleaving_twoCalls ended (by decide +kernel)
  have single : ∀ c, (own c (twoCalls refusing).1).head? = some ⟨.turn .state, ready⟩ → c = true := by
    intro c letIn
    cases c with
    | true => rfl
    | false =>
      have found : (own false (twoCalls refusing).1).head? = some ⟨.turn .state, thinking⟩ := rfl
      rw [found] at letIn
      cases letIn
  have apart := (calls_apart_iff plainAgent_contained inter).mpr (not_overtaken_of_single single)
  exact ⟨plainAgent_contained, call, path, b, inter, apart, (outcomes true).2.1, (outcomes false).2.1⟩

/-- The second call is made while the first one waits for the files, and goes on to its end while that
one waits for the model. -/
def overtaking : List Bool :=
  .replicate 3 true ++ .replicate 3 false ++ .replicate 4 true ++ .replicate 8 false ++
    .replicate 11 true

/-- The second call fails as it makes its first move, and takes the machine from under the first turn.
That one would have been completed, fails in its turn, and its messages are lost. -/
theorem overtaken_turn_fails :
    plainAgent.registry.Contained ∧ (twoSessions true).id ≠ (twoSessions false).id ∧
      ∃ call path b, Interleaving plainAgent call (twoCalls overtaking).1 path b ∧
        (∀ c, (call c).session = twoSessions c) ∧
        ¬ Apart plainAgent call (twoCalls overtaking).1 path b ∧
        (call false).outcome = .error (illegal thinking thinking) ∧
        (call true).outcome = .error (illegal ready ready) ∧ (call true).after.history = [] ∧
        (World.run prompt (Turn.run plainAgent (twoSessions true) "hi") promptWorld).1.1 =
          .ok ⟨.completed, "done", 0, 1⟩ := by
  have ended : ∀ c, ((twoCalls overtaking).2.1 c).value?.map (fun r => (r.1, r.2.history.length)) =
      some (.error (if c then illegal ready ready else illegal thinking thinking), 0) := by
    decide +kernel
  obtain ⟨call, path, b, inter, outcomes⟩ := interleaving_twoCalls ended (by decide +kernel)
  have overtaken : Overtaken (twoCalls overtaking).1 :=
    ⟨(twoCalls overtaking).1.take 3, false, (twoCalls overtaking).1.drop 4, rfl, rfl, true,
      ⟨rfl, rfl⟩, Or.inl ⟨_, _, rfl⟩⟩
  have lost : (call true).after.history = [] := List.eq_nil_of_length_eq_zero (outcomes true).2.2
  exact ⟨plainAgent_contained, by decide, call, path, b, inter, fun c => (outcomes c).1,
    overtaken.not_apart, (outcomes false).2.1, (outcomes true).2.1, lost, by decide +kernel⟩

end Turn

end CodeAgent
