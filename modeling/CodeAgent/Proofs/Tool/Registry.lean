import CodeAgent.Proofs.Act.Trace
import CodeAgent.Tool.Standard
import Mathlib.Data.List.Nodup

/-! What a registry keeps, and what a call does.
Names stay distinct because a name that is taken keeps its tool. A call asks for approval once at most and
runs a body once at most, as a log of the call shows that changes nothing else about it. -/
namespace CodeAgent

/- Programs by what they return -/

/-- Every value that a program returns is as wanted. -/
def Always {m : Type → Type} [Functor m] (wanted : α → Prop) (x : m α) : Prop :=
  ∃ y : m (Subtype wanted), Subtype.val <$> y = x

section

variable {m : Type → Type} [Monad m] [LawfulMonad m] {wanted : α → Prop}

theorem always_pure {a : α} (ends : wanted a) : Always wanted (pure a : m α) :=
  ⟨pure ⟨a, ends⟩, by simp⟩

theorem always_bind {x : m β} {f : β → m α} (rest : ∀ b, Always wanted (f b)) :
    Always wanted (x >>= f) := by
  choose y same using rest
  exact ⟨x >>= y, by simp [same]⟩

theorem Always.mono {other : α → Prop} {x : m α} (always : Always wanted x)
    (weaker : ∀ a, wanted a → other a) : Always other x := by
  obtain ⟨y, rfl⟩ := always
  exact ⟨(fun a => ⟨a.1, weaker a.1 a.2⟩) <$> y, by simp⟩

end

/-- A sense in which programs end: a value does, and what ends and then goes on to end. -/
structure Ending (m : Type → Type) [Monad m] where
  ends : {α : Type} → m α → Prop
  value : ∀ {α : Type} (a : α), ends (pure a : m α)
  onward : ∀ {α β : Type} {x : m α} {f : α → m β}, ends x → (∀ a, ends (f a)) → ends (x >>= f)

/-- A program ends where answers to its questions lead to a value. -/
def Act.ending : Ending Act where
  ends p := ∃ l a, Act.Trace p l a
  value _ := exists_trace _
  onward _ _ := exists_trace _

namespace Registry

variable {m : Type → Type} {r : Registry m} {t : Tool m} {name : String}

/- Names -/

theorem mem_of_get? (found : r.get? name = some t) : t ∈ r.tools ∧ t.name = name := by
  refine ⟨List.mem_of_find?_eq_some found, ?_⟩
  simpa using List.find?_some found

theorem mem_names : name ∈ r.names ↔ ∃ t, r.get? name = some t := by
  rw [← Option.isSome_iff_exists, get?, List.find?_isSome, names]
  simp

theorem register_of_mem (taken : t.name ∈ r.names) :
    r.register t = .error (.validation ("Tool '" ++ t.name ++ "' is already registered")) := by
  obtain ⟨u, found⟩ := mem_names.mp taken
  rw [register, found]

theorem register_of_not_mem (free : t.name ∉ r.names) : r.register t = .ok ⟨r.tools ++ [t]⟩ := by
  cases found : r.get? t.name with
  | none => rw [register, found]
  | some u => exact absurd (mem_names.mpr ⟨u, found⟩) free

/-- A registry after a tool was offered to it, whether it was taken or not. -/
def offer (r : Registry m) (t : Tool m) : Registry m :=
  match r.register t with
  | .ok grown => grown
  | .error _ => r

theorem offer_of_mem (taken : t.name ∈ r.names) : r.offer t = r := by
  rw [offer, register_of_mem taken]

theorem offer_of_not_mem (free : t.name ∉ r.names) : r.offer t = ⟨r.tools ++ [t]⟩ := by
  rw [offer, register_of_not_mem free]

theorem nodup_offer (unique : r.names.Nodup) (t : Tool m) : (r.offer t).names.Nodup := by
  by_cases taken : t.name ∈ r.names
  · rw [offer_of_mem taken]
    exact unique
  · rw [offer_of_not_mem taken, names, List.map_append, List.nodup_append]
    refine ⟨unique, by simp, ?_⟩
    rintro a old b last rfl
    rw [List.map_singleton, List.mem_singleton] at last
    exact taken (last ▸ old)

theorem get?_offer (r : Registry m) (t : Tool m) (name : String) :
    (r.offer t).get? name = (r.get? name).or ([t].find? (·.name = name)) := by
  by_cases taken : t.name ∈ r.names
  · rw [offer_of_mem taken]
    by_cases same : t.name = name
    · obtain ⟨u, found⟩ := mem_names.mp (same ▸ taken)
      rw [found, Option.some_or]
    · simp [same]
  · rw [offer_of_not_mem taken, get?, get?, List.find?_append]

/-- The registry that tools make when they are offered one after the other. -/
def ofTools (ts : List (Tool m)) : Registry m := ts.foldl offer empty

theorem nodup_offers (unique : r.names.Nodup) (ts : List (Tool m)) :
    (ts.foldl offer r).names.Nodup := by
  induction ts generalizing r with
  | nil => exact unique
  | cons t ts ih => exact ih (nodup_offer unique t)

theorem get?_offers (r : Registry m) (ts : List (Tool m)) (name : String) :
    (ts.foldl offer r).get? name = (r.get? name).or (ts.find? (·.name = name)) := by
  induction ts generalizing r with
  | nil => simp
  | cons t ts ih =>
    rw [List.foldl_cons, ih, get?_offer, Option.or_assoc, ← List.find?_append,
      List.singleton_append]

theorem get?_of_mem (unique : r.names.Nodup) (member : t ∈ r.tools) : r.get? t.name = some t := by
  obtain ⟨u, found⟩ := mem_names.mp (List.mem_map_of_mem member)
  obtain ⟨other, same⟩ := mem_of_get? found
  rw [found, List.inj_on_of_nodup_map unique other member same]

theorem filterMap_names (unique : r.names.Nodup) : r.names.filterMap r.get? = r.tools := by
  rw [names, List.filterMap_map]
  calc r.tools.filterMap (r.get? ∘ (·.name))
      = r.tools.filterMap some :=
        List.filterMap_congr fun t member => get?_of_mem unique member
    _ = r.tools := List.filterMap_some

theorem offers_of_nodup {ts : List (Tool m)} (unique : (r.names ++ ts.map (·.name)).Nodup) :
    ts.foldl offer r = ⟨r.tools ++ ts⟩ := by
  induction ts generalizing r with
  | nil => simp
  | cons t ts ih =>
    have free : t.name ∉ r.names := by
      intro taken
      exact (List.nodup_append.mp unique).2.2 t.name taken t.name (by simp) rfl
    rw [List.foldl_cons, offer_of_not_mem free, ih (by simpa [names] using unique)]
    simp

/-- None of the tools that every project has is refused. -/
theorem standard_eq_ofTools (root : String) (settings : Settings) :
    standard root settings = ofTools (standardTools root settings) := by
  have unique : (standardTools root settings).map (·.name) = standardNames := rfl
  rw [ofTools, offers_of_nodup]
  · rfl
  · rw [unique]
    exact standardNames_nodup

/-- The order of registration lists the names that have a tool, each once. Of the tools offered under a
name the first stays, and a further one fails. -/
structure Keeps (r : Registry m) (ts : List (Tool m)) : Prop where
  unique : r.names.Nodup
  listed : ∀ name, name ∈ r.names ↔ ∃ t, r.get? name = some t
  inOrder : r.names.filterMap r.get? = r.tools
  first : ∀ name, r.get? name = ts.find? (·.name = name)
  taken : ∀ t : Tool m, t.name ∈ r.names → r.offer t = r ∧
    r.register t = .error (.validation ("Tool '" ++ t.name ++ "' is already registered"))
  free : ∀ t : Tool m, t.name ∉ r.names →
    r.register t = .ok (r.offer t) ∧ (r.offer t).names = r.names ++ [t.name]

theorem keeps_ofTools (ts : List (Tool m)) : (ofTools ts).Keeps ts := by
  have unique : (ofTools ts).names.Nodup := nodup_offers (r := empty) List.nodup_nil ts
  refine ⟨unique, fun _ => mem_names, filterMap_names unique, get?_offers empty ts, ?_, ?_⟩
  · intro t taken
    exact ⟨offer_of_mem taken, register_of_mem taken⟩
  · intro t free
    rw [register_of_not_mem free, offer_of_not_mem free]
    exact ⟨rfl, by simp [names]⟩

end Registry

/- The log of a call -/

/-- What a registry does in a call. -/
inductive CallStep where
  | asked (summary : String) (approved : Bool)
  | ran (ended : BodyEnd)

namespace CallStep

def isAsk : CallStep → Bool
  | asked .. => true
  | ran _ => false

def isRun : CallStep → Bool
  | asked .. => false
  | ran _ => true

end CallStep

/-- Programs that keep a log. -/
abbrev Logged (m : Type → Type) : Type → Type := StateT (List CallStep) m

section

variable {m : Type → Type} [Monad m]

/-- The same gate, with each question put down. -/
def Logged.confirm (confirm : String → m Bool) (summary : String) : Logged m Bool := do
  let approved ← liftM (confirm summary)
  modify (· ++ [.asked summary approved])
  return approved

/-- The same tool, with each run of its body put down. -/
def Tool.logged (t : Tool m) : Tool (Logged m) :=
  { t with
    summary := fun arguments => liftM (t.summary arguments)
    body := fun arguments => do
      let ended ← liftM (t.body arguments)
      modify (· ++ [.ran ended])
      return ended }

end

/-- A call ends with an output exactly when the body does. -/
theorem BodyEnd.outcome_eq_ok {e : BodyEnd} {output : ToolOutput} :
    e.outcome = .ok output ↔ e = .done output := by
  cases e with
  | done => simp [outcome]
  | failed => simp [outcome]
  | crashed text => cases text <;> simp [outcome]

namespace Registry

variable {m : Type → Type}

/-- A call is for a tool that exists, with arguments that fit it. -/
structure Admits (r : Registry m) (name : String) (arguments : Json) (t : Tool m) : Prop where
  found : r.get? name = some t
  fit : t.definition.parameters.check arguments = .ok ()

/-- The ways in which a call may go, with what it ends in and its log. -/
inductive Course (r : Registry m) (name : String) (arguments : Json) :
    Except String ToolOutput → List CallStep → Prop where
  | unknown (none : r.get? name = none) : Course r name arguments (.error ("Unknown tool: " ++ name)) []
  | refused {t : Tool m} {e : ArgumentError} (found : r.get? name = some t)
      (unfit : t.definition.parameters.check arguments = .error e) :
      Course r name arguments (.error e.message) []
  | denied {t : Tool m} {s : String} (admits : r.Admits name arguments t) (gated : t.gated = true) :
      Course r name arguments (.error "Operation cancelled by user") [.asked s false]
  | approved {t : Tool m} {s : String} {e : BodyEnd} (admits : r.Admits name arguments t)
      (gated : t.gated = true) : Course r name arguments e.outcome [.asked s true, .ran e]
  | ungated {t : Tool m} {e : BodyEnd} (admits : r.Admits name arguments t) (free : t.gated = false) :
      Course r name arguments e.outcome [.ran e]

section

variable {r : Registry m} {name : String} {arguments : Json} {t : Tool m}
  {outcome : Except String ToolOutput} {log : List CallStep}

theorem exists_admits (r : Registry m) (name : String) (arguments : Json) :
    r.get? name = none ∨
      (∃ t e, r.get? name = some t ∧ t.definition.parameters.check arguments = .error e) ∨
      ∃ t, r.Admits name arguments t := by
  cases found : r.get? name with
  | none => exact Or.inl rfl
  | some t =>
    cases fit : t.definition.parameters.check arguments with
    | error e => exact Or.inr (Or.inl ⟨t, e, rfl, fit⟩)
    | ok => exact Or.inr (Or.inr ⟨t, found, fit⟩)

theorem Admits.unique {u : Tool m} (first : r.Admits name arguments t)
    (second : r.Admits name arguments u) : t = u :=
  Option.some.inj (first.found.symm.trans second.found)

theorem not_admits_of_unknown (none : r.get? name = none) : ¬ r.Admits name arguments t := by
  intro admits
  have found := admits.found
  rw [none] at found
  cases found

theorem not_admits_of_unfit {u : Tool m} {e : ArgumentError} (found : r.get? name = some t)
    (unfit : t.definition.parameters.check arguments = .error e) : ¬ r.Admits name arguments u := by
  intro admits
  have fit := admits.fit
  rw [← Option.some.inj (found.symm.trans admits.found), unfit] at fit
  cases fit

/-- A registry asks for approval where a gated tool admits the call. -/
theorem Course.asks (course : Course r name arguments outcome log) :
    (log.countP CallStep.isAsk = 1 ∧ ∃ t, r.Admits name arguments t ∧ t.gated = true) ∨
    (log.countP CallStep.isAsk = 0 ∧ ¬ ∃ t, r.Admits name arguments t ∧ t.gated = true) := by
  cases course with
  | unknown none =>
    refine Or.inr ⟨rfl, ?_⟩
    rintro ⟨u, admits, -⟩
    exact not_admits_of_unknown none admits
  | refused found unfit =>
    refine Or.inr ⟨rfl, ?_⟩
    rintro ⟨u, admits, -⟩
    exact not_admits_of_unfit found unfit admits
  | denied admits gated => exact Or.inl ⟨rfl, _, admits, gated⟩
  | approved admits gated => exact Or.inl ⟨rfl, _, admits, gated⟩
  | ungated admits free =>
    refine Or.inr ⟨rfl, ?_⟩
    rintro ⟨u, other, gated⟩
    rw [other.unique admits, free] at gated
    cases gated

/-- A body runs where a tool admits the call and is not gated, or approval was given. -/
theorem Course.runs (course : Course r name arguments outcome log) :
    (log.countP CallStep.isRun = 1 ∧
      ∃ t, r.Admits name arguments t ∧ (t.gated = false ∨ ∃ s, .asked s true ∈ log)) ∨
    (log.countP CallStep.isRun = 0 ∧
      ¬ ∃ t, r.Admits name arguments t ∧ (t.gated = false ∨ ∃ s, .asked s true ∈ log)) := by
  cases course with
  | unknown none =>
    refine Or.inr ⟨rfl, ?_⟩
    rintro ⟨u, admits, -⟩
    exact not_admits_of_unknown none admits
  | refused found unfit =>
    refine Or.inr ⟨rfl, ?_⟩
    rintro ⟨u, admits, -⟩
    exact not_admits_of_unfit found unfit admits
  | denied admits gated =>
    refine Or.inr ⟨rfl, ?_⟩
    rintro ⟨u, other, free | ⟨s, asked⟩⟩
    · rw [other.unique admits, gated] at free
      cases free
    · simp at asked
  | approved admits gated => exact Or.inl ⟨rfl, _, admits, Or.inr ⟨_, List.mem_cons_self⟩⟩
  | ungated admits free => exact Or.inl ⟨rfl, _, admits, Or.inl free⟩

/-- A call comes to an output exactly when that is what a body came to. -/
theorem Course.done_mem_iff (course : Course r name arguments outcome log) {output : ToolOutput} :
    .ran (.done output) ∈ log ↔ outcome = .ok output := by
  cases course with
  | unknown | refused | denied => simp
  | approved =>
    rw [BodyEnd.outcome_eq_ok]
    simp [eq_comm]
  | ungated =>
    rw [BodyEnd.outcome_eq_ok]
    simp [eq_comm]

/-- What holds of a call and of its result: how often approval is asked and a body runs, and that the
result is that of the body, or an error and no change. -/
structure Contract (r : Registry m) (name : String) (arguments : Json) (result : ToolResult)
    (log : List CallStep) : Prop where
  asksOnce : log.countP CallStep.isAsk ≤ 1
  asks : log.countP CallStep.isAsk = 1 ↔ ∃ t, r.Admits name arguments t ∧ t.gated = true
  runsOnce : log.countP CallStep.isRun ≤ 1
  runs : log.countP CallStep.isRun = 1 ↔
    ∃ t, r.Admits name arguments t ∧ (t.gated = false ∨ ∃ s, .asked s true ∈ log)
  succeeds : result.success = true ↔ ∃ output, .ran (.done output) ∈ log
  carries : ∀ output, .ran (.done output) ∈ log →
    result.data? = some output.data ∧ result.change? = output.change ∧ result.error? = none
  fails : result.success = false →
    (∃ e, result.error? = some e) ∧ result.data? = none ∧ result.change? = none

theorem once_iff {n : Nat} {when : Prop} (either : (n = 1 ∧ when) ∨ (n = 0 ∧ ¬ when)) :
    n ≤ 1 ∧ (n = 1 ↔ when) := by
  rcases either with ⟨once, holds⟩ | ⟨never, fails⟩
  · exact ⟨by omega, fun _ => holds, fun _ => once⟩
  · refine ⟨by omega, fun once => ?_, fun holds => absurd holds fails⟩
    omega

theorem Course.contract (course : Course r name arguments outcome log) (callId : String)
    (timeMs : Nat) : Contract r name arguments ⟨callId, name, outcome, timeMs⟩ log := by
  obtain ⟨asksOnce, asks⟩ := once_iff course.asks
  obtain ⟨runsOnce, runs⟩ := once_iff course.runs
  refine ⟨asksOnce, asks, runsOnce, runs, ?_, ?_, ?_⟩
  · simp only [course.done_mem_iff]
    cases outcome with
    | ok output => simp [ToolResult.success]
    | error e => simp [ToolResult.success]
  · intro output done
    rw [course.done_mem_iff.mp done]
    exact ⟨rfl, rfl, rfl⟩
  · intro failed
    cases outcome with
    | ok output => cases failed
    | error e => exact ⟨⟨e, rfl⟩, rfl, rfl⟩

end

section

variable [Monad m] {r : Registry m} {confirm : String → m Bool} {name : String} {arguments : Json}
  {t : Tool m}

theorem execute_unknown (none : r.get? name = none) :
    r.execute confirm name arguments = pure (.error ("Unknown tool: " ++ name)) := by
  simp [execute, none]

theorem execute_refused {e : ArgumentError} (found : r.get? name = some t)
    (unfit : t.definition.parameters.check arguments = .error e) :
    r.execute confirm name arguments = pure (.error e.message) := by
  simp [execute, found, unfit]

theorem execute_gated (admits : r.Admits name arguments t) (gated : t.gated = true) :
    r.execute confirm name arguments = do
      let summary ← t.summary arguments
      if ← confirm summary then return (← t.body arguments).outcome
      else return .error "Operation cancelled by user" := by
  simp [execute, admits.found, admits.fit, gated]

theorem execute_ungated (admits : r.Admits name arguments t) (free : t.gated = false) :
    r.execute confirm name arguments = do return (← t.body arguments).outcome := by
  simp [execute, admits.found, admits.fit, free]

/-- A call ends where the gate and the tool called do. A body that crashes ends, too. -/
theorem ends_execute (e : Ending m) (gate : ∀ summary, e.ends (confirm summary))
    (called : ∀ t, r.get? name = some t → e.ends (t.summary arguments) ∧ e.ends (t.body arguments)) :
    e.ends (r.execute confirm name arguments) := by
  rcases exists_admits r name arguments with none | ⟨t, _, found, unfit⟩ | ⟨t, admits⟩
  · rw [execute_unknown none]
    exact e.value _
  · rw [execute_refused found unfit]
    exact e.value _
  · obtain ⟨summary, body⟩ := called t admits.found
    have outcome : e.ends (do return (← t.body arguments).outcome) :=
      e.onward body fun ended => e.value ended.outcome
    by_cases gated : t.gated = true
    · rw [execute_gated admits gated]
      refine e.onward summary fun text => e.onward (gate text) fun approved => ?_
      cases approved with
      | true => exact outcome
      | false => exact e.value _
    · rw [execute_ungated admits (by simpa using gated)]
      exact outcome

def logged (r : Registry m) : Registry (Logged m) := ⟨r.tools.map Tool.logged⟩

/-- A call with the log of it. -/
def call (r : Registry m) (confirm : String → m Bool) (name : String) (arguments : Json) :
    m (Except String ToolOutput × List CallStep) :=
  (r.logged.execute (Logged.confirm confirm) name arguments).run []

theorem get?_logged (r : Registry m) (name : String) :
    r.logged.get? name = (r.get? name).map Tool.logged := by
  rw [get?, logged, List.find?_map]
  rfl

theorem Admits.logged (admits : r.Admits name arguments t) :
    r.logged.Admits name arguments t.logged := by
  refine ⟨?_, admits.fit⟩
  rw [get?_logged, admits.found, Option.map_some]

theorem call_unknown (none : r.get? name = none) :
    r.call confirm name arguments = pure (.error ("Unknown tool: " ++ name), []) := by
  rw [call, execute_unknown]
  · rfl
  · rw [get?_logged, none, Option.map_none]

theorem call_refused {e : ArgumentError} (found : r.get? name = some t)
    (unfit : t.definition.parameters.check arguments = .error e) :
    r.call confirm name arguments = pure (.error e.message, []) := by
  have logged : r.logged.get? name = some t.logged := by rw [get?_logged, found, Option.map_some]
  rw [call, execute_refused logged unfit]
  rfl

variable [LawfulMonad m]

theorem call_gated (admits : r.Admits name arguments t) (gated : t.gated = true) :
    r.call confirm name arguments = do
      let summary ← t.summary arguments
      if ← confirm summary then do
        let ended ← t.body arguments
        return (ended.outcome, [.asked summary true, .ran ended])
      else return (.error "Operation cancelled by user", [.asked summary false]) := by
  rw [call, execute_gated admits.logged gated]
  simp only [Tool.logged, Logged.confirm, StateT.run_bind, StateT.run_monadLift, StateT.run_modify,
    monadLift_self, bind_assoc, bind_map_left, bind_pure_comp, map_bind, pure_bind, Functor.map_map,
    List.nil_append]
  refine bind_congr fun summary => bind_congr fun approved => ?_
  cases approved <;> simp

theorem call_ungated (admits : r.Admits name arguments t) (free : t.gated = false) :
    r.call confirm name arguments = do
      let ended ← t.body arguments
      return (ended.outcome, [.ran ended]) := by
  rw [call, execute_ungated admits.logged free]
  simp [Tool.logged]

/-- The log changes nothing about a call. -/
theorem fst_call (r : Registry m) (confirm : String → m Bool) (name : String) (arguments : Json) :
    Prod.fst <$> r.call confirm name arguments = r.execute confirm name arguments := by
  rcases exists_admits r name arguments with none | ⟨t, e, found, unfit⟩ | ⟨t, admits⟩
  · rw [call_unknown none, execute_unknown none, map_pure]
  · rw [call_refused found unfit, execute_refused found unfit, map_pure]
  · by_cases gated : t.gated = true
    · rw [call_gated admits gated, execute_gated admits gated, map_bind]
      refine bind_congr fun summary => ?_
      rw [map_bind]
      refine bind_congr fun approved => ?_
      cases approved <;> simp
    · have free : t.gated = false := by simpa using gated
      rw [call_ungated admits free, execute_ungated admits free]
      simp

theorem always_course (r : Registry m) (confirm : String → m Bool) (name : String)
    (arguments : Json) :
    Always (fun c => Course r name arguments c.1 c.2) (r.call confirm name arguments) := by
  rcases exists_admits r name arguments with none | ⟨t, e, found, unfit⟩ | ⟨t, admits⟩
  · rw [call_unknown none]
    exact always_pure (.unknown none)
  · rw [call_refused found unfit]
    exact always_pure (.refused found unfit)
  · by_cases gated : t.gated = true
    · rw [call_gated admits gated]
      refine always_bind fun summary => always_bind fun approved => ?_
      cases approved with
      | true => exact always_bind fun ended => always_pure (.approved admits gated)
      | false => exact always_pure (.denied admits gated)
    · have free : t.gated = false := by simpa using gated
      rw [call_ungated admits free]
      exact always_bind fun ended => always_pure (.ungated admits free)

/-- Tools that are offered one after the other make a registry that keeps its names. Every call of it
returns where the gate and the tool called return, and keeps the contract, whatever its surroundings are
and whatever its tools do there. -/
theorem ofTools_keeps_contract (ts : List (Tool m)) :
    (ofTools ts).Keeps ts ∧ ∀ (confirm : String → m Bool) (name : String) (arguments : Json),
      (∀ e : Ending m, (∀ summary, e.ends (confirm summary)) →
        (∀ t, (ofTools ts).get? name = some t →
          e.ends (t.summary arguments) ∧ e.ends (t.body arguments)) →
        e.ends ((ofTools ts).execute confirm name arguments)) ∧
      Prod.fst <$> (ofTools ts).call confirm name arguments =
        (ofTools ts).execute confirm name arguments ∧
      Always (fun c => Course (ofTools ts) name arguments c.1 c.2 ∧ ∀ callId timeMs,
          Contract (ofTools ts) name arguments ⟨callId, name, c.1, timeMs⟩ c.2)
        ((ofTools ts).call confirm name arguments) := by
  refine ⟨keeps_ofTools ts, fun confirm name arguments => ⟨ends_execute, fst_call _ _ _ _, ?_⟩⟩
  exact (always_course _ confirm name arguments).mono fun _ course => ⟨course, course.contract⟩

theorem ofTools_keeps_contract_creating :
    LawfulMonad Act ∧
      (standard "/p" default).Admits "create_file" (.obj [("path", .str "a"), ("content", .str "")])
        (Tool.createFile "/p" false) ∧
      (∃ l outcome, Act.Trace ((standard "/p" default).execute Act.confirm "create_file"
        (.obj [("path", .str "a"), ("content", .str "")])) l outcome) ∧
      Always (fun c => c.2.countP CallStep.isAsk = 1)
        ((standard "/p" default).call Act.confirm "create_file"
          (.obj [("path", .str "a"), ("content", .str "")])) := by
  have admits : (standard "/p" default).Admits "create_file"
      (.obj [("path", .str "a"), ("content", .str "")]) (Tool.createFile "/p" false) :=
    ⟨rfl, rfl⟩
  refine ⟨inferInstance, admits, ?_⟩
  rw [standard_eq_ofTools] at admits ⊢
  obtain ⟨returns, -, contract⟩ :=
    (ofTools_keeps_contract (standardTools "/p" default)).2 Act.confirm "create_file"
      (.obj [("path", .str "a"), ("content", .str "")])
  refine ⟨?_, ?_⟩
  · exact returns Act.ending (fun _ => Act.exists_trace _)
      fun _ _ => ⟨Act.exists_trace _, Act.exists_trace _⟩
  · refine contract.mono ?_
    rintro c ⟨-, contract⟩
    exact (contract "" 0).asks.mpr ⟨_, admits, rfl⟩

end

end Registry

end CodeAgent
