import CodeAgent.Proofs.Act.Trace
import CodeAgent.Proofs.Json.Overlaying
import CodeAgent.Settings.Files

/-! A project's settings over the user's.
Settings are written as a document, overlaid and read back. What the project's document does not mention
comes back as it was, since every setting is read back as it was written; and settings out of their limits
are never returned. -/
namespace CodeAgent

open Json

/- One kind of settings after the other -/

namespace ModelSettings

structure Fits (s : ModelSettings) : Prop where
  contextWindow : s.contextWindow ≤ Nat.pow 2 32 - 1
  timeoutMs : s.timeoutMs ≤ Nat.pow 2 64 - 1

theorem fits_of_ofJson? {j : Json} {s : ModelSettings} (read : ofJson? j = some s) : s.Fits := by
  simp only [ofJson?, Option.bind_eq_bind, Option.bind_eq_some_iff, Option.some.injEq,
    Option.pure_def] at read
  obtain ⟨fs, -, model, -, contextWindow, window, temperature, -, timeoutMs, timeout, rfl⟩ := read
  exact ⟨le_of_orElse (by decide) window, le_of_orElse (by decide) timeout⟩

theorem ofJson?_toJson {s : ModelSettings} (fits : s.Fits) : ofJson? s.toJson = some s := by
  simp [ofJson?, toJson, Table.ofList, Table.get?_insert, toNat32?_nat fits.contextWindow,
    toNat64?_nat fits.timeoutMs, toSingle?_float]

theorem keeps {s : ModelSettings} (fits : s.Fits) : Keeps toJson ofJson? s := by
  refine .record (fun _ => rfl) (by simp) fun upper t b above places found => ?_
  simp only [List.forall_mem_cons] at places
  simp only [ofJson?, fields?_table, orElse_table, Option.bind_eq_bind, Option.bind_eq_some_iff,
    Option.some.injEq, exists_eq_left', Option.pure_def] at found
  obtain ⟨model, window, temperature, timeout, -⟩ := places
  obtain ⟨_, model', _, window', _, temperature', _, timeout', rfl⟩ := found
  exact .cons ⟨rfl, (keeps_str _).member rfl above model model'⟩
    (.cons ⟨rfl, (keeps_nat 32 _).member (toNat32?_nat fits.contextWindow) above window window'⟩
    (.cons ⟨rfl, (keeps_single _).member (toSingle?_float _) above temperature temperature'⟩
    (.cons ⟨rfl, (keeps_nat 64 _).member (toNat64?_nat fits.timeoutMs) above timeout timeout'⟩ .nil)))

end ModelSettings

namespace ProjectSettings

structure Fits (s : ProjectSettings) : Prop where
  maxFileSize : s.maxFileSize ≤ Nat.pow 2 64 - 1

theorem fits_of_ofJson? {j : Json} {s : ProjectSettings} (read : ofJson? j = some s) : s.Fits := by
  simp only [ofJson?, Option.bind_eq_bind, Option.bind_eq_some_iff, Option.some.injEq,
    Option.pure_def] at read
  obtain ⟨fs, -, patterns, -, maxFileSize, size, rfl⟩ := read
  exact ⟨le_of_orElse (by decide) size⟩

theorem ofJson?_toJson {s : ProjectSettings} (fits : s.Fits) : ofJson? s.toJson = some s := by
  simp [ofJson?, toJson, Table.ofList, Table.get?_insert, toNat64?_nat fits.maxFileSize]

theorem keeps {s : ProjectSettings} (fits : s.Fits) : Keeps toJson ofJson? s := by
  refine .record (fun _ => rfl) (by simp) fun upper t b above places found => ?_
  simp only [List.forall_mem_cons] at places
  simp only [ofJson?, fields?_table, orElse_table, Option.bind_eq_bind, Option.bind_eq_some_iff,
    Option.some.injEq, exists_eq_left', Option.pure_def] at found
  obtain ⟨patterns, size, -⟩ := places
  obtain ⟨_, patterns', _, size', rfl⟩ := found
  exact .cons ⟨rfl, (keeps_strings _).member (toStrings?_ofStrings _) above patterns patterns'⟩
    (.cons ⟨rfl, (keeps_nat 64 _).member (toNat64?_nat fits.maxFileSize) above size size'⟩ .nil)

end ProjectSettings

namespace SessionSettings

structure Fits (s : SessionSettings) : Prop where
  maxUndoEntries : s.maxUndoEntries ≤ Nat.pow 2 64 - 1
  maxInputHistory : s.maxInputHistory ≤ Nat.pow 2 64 - 1
  maxToolRounds : s.maxToolRounds ≤ Nat.pow 2 64 - 1

theorem fits_of_ofJson? {j : Json} {s : SessionSettings} (read : ofJson? j = some s) : s.Fits := by
  simp only [ofJson?, Option.bind_eq_bind, Option.bind_eq_some_iff, Option.some.injEq,
    Option.pure_def] at read
  obtain ⟨fs, -, maxUndoEntries, undo, maxInputHistory, input, maxToolRounds, rounds, rfl⟩ := read
  exact ⟨le_of_orElse (by decide) undo, le_of_orElse (by decide) input, le_of_orElse (by decide) rounds⟩

theorem ofJson?_toJson {s : SessionSettings} (fits : s.Fits) : ofJson? s.toJson = some s := by
  simp [ofJson?, toJson, Table.ofList, Table.get?_insert, toNat64?_nat fits.maxUndoEntries,
    toNat64?_nat fits.maxInputHistory, toNat64?_nat fits.maxToolRounds]

theorem keeps {s : SessionSettings} (fits : s.Fits) : Keeps toJson ofJson? s := by
  refine .record (fun _ => rfl) (by simp) fun upper t b above places found => ?_
  simp only [List.forall_mem_cons] at places
  simp only [ofJson?, fields?_table, orElse_table, Option.bind_eq_bind, Option.bind_eq_some_iff,
    Option.some.injEq, exists_eq_left', Option.pure_def] at found
  obtain ⟨undo, input, rounds, -⟩ := places
  obtain ⟨_, undo', _, input', _, rounds', rfl⟩ := found
  exact .cons ⟨rfl, (keeps_nat 64 _).member (toNat64?_nat fits.maxUndoEntries) above undo undo'⟩
    (.cons ⟨rfl, (keeps_nat 64 _).member (toNat64?_nat fits.maxInputHistory) above input input'⟩
    (.cons ⟨rfl, (keeps_nat 64 _).member (toNat64?_nat fits.maxToolRounds) above rounds rounds'⟩ .nil))

end SessionSettings

namespace SecuritySettings

theorem ofJson?_toJson (s : SecuritySettings) : ofJson? s.toJson = some s := by
  simp [ofJson?, toJson, Table.ofList, Table.get?_insert]

theorem keeps (s : SecuritySettings) : Keeps toJson ofJson? s := by
  refine .record (fun _ => rfl) (by simp) fun upper t b above places found => ?_
  simp only [List.forall_mem_cons] at places
  simp only [ofJson?, fields?_table, orElse_table, Option.bind_eq_bind, Option.bind_eq_some_iff,
    Option.some.injEq, exists_eq_left', Option.pure_def] at found
  obtain ⟨blacklist, whitelist, -⟩ := places
  obtain ⟨_, blacklist', _, whitelist', rfl⟩ := found
  exact .cons ⟨rfl, (keeps_strings _).member (toStrings?_ofStrings _) above blacklist blacklist'⟩
    (.cons ⟨rfl, (keeps_strings _).member (toStrings?_ofStrings _) above whitelist whitelist'⟩ .nil)

end SecuritySettings

namespace RecoverySettings

structure Fits (s : RecoverySettings) : Prop where
  maxRetries : s.maxRetries ≤ Nat.pow 2 32 - 1

theorem fits_of_ofJson? {j : Json} {s : RecoverySettings} (read : ofJson? j = some s) : s.Fits := by
  simp only [ofJson?, Option.bind_eq_bind, Option.bind_eq_some_iff, Option.some.injEq,
    Option.pure_def] at read
  obtain ⟨fs, -, maxRetries, retries, skip, -, retry, -, rfl⟩ := read
  exact ⟨le_of_orElse (by decide) retries⟩

theorem ofJson?_toJson {s : RecoverySettings} (fits : s.Fits) : ofJson? s.toJson = some s := by
  simp [ofJson?, toJson, Table.ofList, Table.get?_insert, toNat32?_nat fits.maxRetries]

theorem keeps {s : RecoverySettings} (fits : s.Fits) : Keeps toJson ofJson? s := by
  refine .record (fun _ => rfl) (by simp) fun upper t b above places found => ?_
  simp only [List.forall_mem_cons] at places
  simp only [ofJson?, fields?_table, orElse_table, Option.bind_eq_bind, Option.bind_eq_some_iff,
    Option.some.injEq, exists_eq_left', Option.pure_def] at found
  obtain ⟨retries, skip, retry, -⟩ := places
  obtain ⟨_, retries', _, skip', _, retry', rfl⟩ := found
  exact .cons ⟨rfl, (keeps_nat 32 _).member (toNat32?_nat fits.maxRetries) above retries retries'⟩
    (.cons ⟨rfl, (keeps_bool _).member rfl above skip skip'⟩
    (.cons ⟨rfl, (keeps_bool _).member rfl above retry retry'⟩ .nil))

end RecoverySettings

namespace EditSettings

theorem ofJson?_toJson (s : EditSettings) : ofJson? s.toJson = some s := by
  simp [ofJson?, toJson, Table.ofList]

theorem keeps (s : EditSettings) : Keeps toJson ofJson? s := by
  refine .record (fun _ => rfl) (by simp) fun upper t b above places found => ?_
  simp only [List.forall_mem_cons] at places
  simp only [ofJson?, fields?_table, orElse_table, Option.bind_eq_bind, Option.bind_eq_some_iff,
    Option.some.injEq, exists_eq_left', Option.pure_def] at found
  obtain ⟨_, apply', rfl⟩ := found
  exact .cons ⟨rfl, (keeps_bool _).member rfl above places.1 apply'⟩ .nil

end EditSettings

namespace Settings

/-- Thirty-two or sixty-four bits hold each number. -/
structure Fits (s : Settings) : Prop where
  model : s.model.Fits
  project : s.project.Fits
  session : s.session.Fits
  recovery : s.recovery.Fits

theorem fits_preset : Fits {} := by
  refine ⟨⟨?_, ?_⟩, ⟨?_⟩, ⟨?_, ?_, ?_⟩, ⟨?_⟩⟩ <;> decide

theorem fits_of_ofJson? {j : Json} {s : Settings} (read : ofJson? j = some s) : s.Fits := by
  simp only [ofJson?, Option.bind_eq_bind, Option.bind_eq_some_iff, Option.some.injEq,
    Option.pure_def] at read
  obtain ⟨fs, -, _, model, _, project, _, session, _, -, _, recovery, _, -, rfl⟩ := read
  exact ⟨of_orElse ModelSettings.fits_of_ofJson? fits_preset.model model,
    of_orElse ProjectSettings.fits_of_ofJson? fits_preset.project project,
    of_orElse SessionSettings.fits_of_ofJson? fits_preset.session session,
    of_orElse RecoverySettings.fits_of_ofJson? fits_preset.recovery recovery⟩

theorem keeps {s : Settings} (fits : s.Fits) : Keeps toJson ofJson? s := by
  refine .record (fun _ => rfl) (by simp) fun upper t b above places found => ?_
  simp only [List.forall_mem_cons] at places
  simp only [ofJson?, fields?_table, orElse_table, Option.bind_eq_bind, Option.bind_eq_some_iff,
    Option.some.injEq, exists_eq_left', Option.pure_def] at found
  obtain ⟨model, project, session, security, recovery, edit, -⟩ := places
  obtain ⟨_, model', _, project', _, session', _, security', _, recovery', _, edit', rfl⟩ := found
  exact .cons
    ⟨rfl, (ModelSettings.keeps fits.model).member (ModelSettings.ofJson?_toJson fits.model) above model model'⟩
    (.cons ⟨rfl, (ProjectSettings.keeps fits.project).member (ProjectSettings.ofJson?_toJson fits.project)
      above project project'⟩
    (.cons ⟨rfl, (SessionSettings.keeps fits.session).member (SessionSettings.ofJson?_toJson fits.session)
      above session session'⟩
    (.cons ⟨rfl, (SecuritySettings.keeps _).member (SecuritySettings.ofJson?_toJson _)
      above security security'⟩
    (.cons ⟨rfl, (RecoverySettings.keeps fits.recovery).member
      (RecoverySettings.ofJson?_toJson fits.recovery) above recovery recovery'⟩
    (.cons ⟨rfl, (EditSettings.keeps _).member (EditSettings.ofJson?_toJson _) above edit edit'⟩ .nil)))))

theorem tabular_toJson (s : Settings) : Tabular s.toJson := by
  have strings (ss : List String) : Tabular (ofStrings ss) := by
    refine .arr fun x member => ?_
    obtain ⟨t, -, rfl⟩ := List.mem_map.mp member
    exact .str t
  refine tabular_object ?_
  simp only [List.forall_mem_cons]
  refine ⟨?_, ?_, ?_, ?_, ?_, ?_, nofun⟩ <;> refine tabular_object ?_ <;>
    simp [Tabular.str, Tabular.bool, Tabular.num, Json.nat, Json.float, strings]

end Settings

namespace SettingsFile

open Attempt

theorem checked_ok {s settings : Settings} (ended : checked s = .ok settings) :
    s = settings ∧ settings.error? = none := by
  rw [checked] at ended
  split at ended
  · rename_i valid
    obtain rfl := Except.ok.inj ended
    exact ⟨rfl, valid⟩
  · cases ended

theorem parse_ok {text : String} {s : Settings} (ended : parse text = .ok s) :
    s.error? = none ∧ s.Fits := by
  rw [parse] at ended
  split at ended
  · cases ended
  · rename_i read
    obtain ⟨rfl, valid⟩ := checked_ok ended
    obtain ⟨j, -, found⟩ := Option.bind_eq_some_iff.mp read
    exact ⟨valid, Settings.fits_of_ofJson? found⟩

/-- Settings are loaded within their limits and their bits; the presets are checked as they are saved. -/
theorem within_loadUser (path : String) :
    Within (fun _ => True) (fun s => s.error? = none ∧ s.Fits) (loadUser path) := by
  have preset : Within (fun _ => True) (fun s : Settings => s.error? = none ∧ s.Fits)
      (do save path {}; return {}) := by
    have saved : Within (fun _ => True) (fun _ => Settings.error? {} = none) (save path {}) := by
      have valid : Within (fun _ => True) (fun s => s = {} ∧ s.error? = none)
          (checked {} : Attempt Settings) := by
        refine within_ofOutcome fun s ended => ?_
        obtain ⟨rfl, valid⟩ := checked_ok ended
        exact ⟨rfl, valid⟩
      refine within_bind valid fun s checked => ?_
      obtain ⟨rfl, valid⟩ := checked
      exact (within_any _).mono (fun _ asked => asked) fun _ _ => valid
    exact within_bind saved fun _ valid => within_pure ⟨valid, Settings.fits_preset⟩
  have loaded : Within (fun _ => True) (fun s : Settings => s.error? = none ∧ s.Fits) (do
      if (← Files.kind? path).isSome then
        (parse (← readText path) : Outcome Settings)
      else
        save path {}
        return {}) := by
    refine within_next (within_any _) fun kind => ?_
    split
    · exact within_next (within_any _) fun text => within_ofOutcome fun s => parse_ok
    · exact preset
  refine within_next (within_any _) fun kind => ?_
  split
  · exact within_next (within_any _) fun _ => loaded
  · exact loaded

theorem trace_readText {path text : String} {l : List Heard}
    (run : Act.Trace (readText path).run l (.ok text)) :
    ∃ content, l = [⟨.file (.read path), .ok content⟩] ∧ String.fromUTF8? content = some text := by
  rcases trace_bind.mp run with ⟨f, -, wrong⟩ | ⟨content, l₁, l₂, rfl, asked, rest⟩
  · cases wrong
  · obtain ⟨answer, _, l₃, rfl, heard, given⟩ := trace_lift_bind.mp asked
    obtain rfl := Act.trace_file.mp heard
    cases answer with
    | error e => cases (trace_throw.mp given).2
    | ok bytes =>
      obtain ⟨rfl, same⟩ := trace_pure.mp given
      obtain rfl := Except.ok.inj same
      split at rest
      · rename_i decoded
        obtain ⟨rfl, ended⟩ := trace_pure.mp rest
        obtain rfl := Except.ok.inj ended
        exact ⟨content, rfl, decoded⟩
      · cases (trace_throw.mp rest).2

/-- What the project's document makes of the user's settings, when they are in their limits. -/
theorem overlaid_ok {user settings : Settings} {path : String} {document : Json}
    (ended : overlaid user path document = .ok settings) :
    Settings.ofJson? (user.toJson.overlay document.canonical) = some settings ∧ settings.error? = none := by
  rw [overlaid] at ended
  split at ended
  · cases ended
  · rename_i read
    split at ended
    · rename_i valid
      obtain rfl := Except.ok.inj ended
      exact ⟨read, valid⟩
    · cases ended

/-- For a project without a file there are the user's settings, else what its file makes of them. -/
inductive ForProject (user : Settings) (path : String) : List Heard → Settings → Prop where
  | absent (e : FileError) : ForProject user path [⟨.file (.status path), .error e⟩] user
  | overlaid {status : FileStatus} {content : ByteArray} {text : String} {document : Json}
      {settings : Settings} (decoded : String.fromUTF8? content = some text)
      (parsed : parse? text = some document)
      (read : Settings.ofJson? (user.toJson.overlay document.canonical) = some settings)
      (valid : settings.error? = none) :
      ForProject user path [⟨.file (.status path), .ok status⟩, ⟨.file (.read path), .ok content⟩] settings

theorem trace_forProject {user settings : Settings} {root : String} {l : List Heard}
    (run : Act.Trace (forProject user root).run l (.ok settings)) :
    ForProject user (Path.join root projectFile) l settings := by
  obtain ⟨kind, l₁, l₂, rfl, asked, rest⟩ := trace_lift_bind.mp run
  obtain ⟨status, _, l₃, rfl, heard, known⟩ := Act.trace_bind.mp asked
  obtain rfl := Act.trace_file.mp heard
  cases status with
  | error e =>
    obtain ⟨rfl, rfl⟩ := Act.trace_pure.mp known
    obtain ⟨rfl, ended⟩ := trace_pure.mp rest
    obtain rfl := Except.ok.inj ended
    exact .absent e
  | ok status =>
    obtain ⟨rfl, rfl⟩ := Act.trace_pure.mp known
    rcases trace_bind.mp rest with ⟨f, -, wrong⟩ | ⟨text, l₃, l₄, rfl, read, merging⟩
    · cases wrong
    · obtain ⟨content, rfl, decoded⟩ := trace_readText read
      split at merging
      · cases (trace_throw.mp merging).2
      · rename_i document parsed
        obtain ⟨rfl, ended⟩ := Act.trace_pure.mp merging
        obtain ⟨read, valid⟩ := overlaid_ok ended.symm
        exact .overlaid decoded parsed read valid

theorem forProject_run {user settings : Settings} {root : String} {l : List Heard}
    (run : ForProject user (Path.join root projectFile) l settings) :
    Act.Trace (forProject user root).run l (.ok settings) := by
  cases run with
  | absent e => exact .ask _ _ _ (.done _)
  | @overlaid _ _ text _ _ decoded parsed read valid =>
    refine trace_lift_bind.mpr ⟨_, [_], [_], rfl, .ask _ _ _ (.done _), ?_⟩
    refine trace_bind.mpr (Or.inr ⟨text, [_], [], rfl, ?_, ?_⟩)
    · refine trace_bind.mpr (Or.inr ⟨_, [_], [], rfl, .ask _ _ _ (.done _), ?_⟩)
      rw [decoded]
      exact .done _
    · rw [parsed]
      refine Act.trace_pure.mpr ⟨rfl, ?_⟩
      rw [SettingsFile.overlaid, read]
      simp only [valid]
      rfl

/-- At every path a document laid over another gives what it ends with, leaves what it misses, and laid
again changes nothing; so a project's file changes no setting that it does not mention, and settings out
of their limits are never returned. -/
theorem overrides_key_by_key :
    (∀ base upper : Json, Tabular base → Tabular upper →
      (∀ path v, upper.at? path = some v → v.members? = none → (base.overlay upper).at? path = some v) ∧
      (∀ path, Misses upper path → (base.overlay upper).at? path = base.at? path) ∧
      (base.overlay upper).overlay upper = base.overlay upper) ∧
    ∀ (file root : String) (user settings : Settings) (l l' : List Heard),
      Act.Trace (loadUser file).run l (.ok user) →
      Act.Trace (forProject user root).run l' (.ok settings) →
      settings.error? = none ∧
      ((∃ e, l' = [⟨.file (.status (Path.join root projectFile)), .error e⟩] ∧ settings = user) ∨
        ∃ status content text document,
          l' = [⟨.file (.status (Path.join root projectFile)), .ok status⟩,
            ⟨.file (.read (Path.join root projectFile)), .ok content⟩] ∧
          String.fromUTF8? content = some text ∧ parse? text = some document ∧
          Settings.ofJson? (user.toJson.overlay document.canonical) = some settings ∧
          ∀ path, Misses document.canonical path → settings.toJson.at? path = user.toJson.at? path) := by
  constructor
  · intro base upper lower above
    exact ⟨fun path v held other => at?_overlay_other lower above held other,
      fun path misses => at?_overlay_of_misses lower above misses, overlay_overlay lower above⟩
  · intro file root user settings l l' loaded run
    obtain ⟨valid, fits⟩ := (loaded.within (within_loadUser file)).2 user rfl
    cases trace_forProject run with
    | absent e => exact ⟨valid, Or.inl ⟨e, rfl, rfl⟩⟩
    | overlaid decoded parsed read within =>
      have tabular := (nests_of_parse? parsed).tabular_canonical
      exact ⟨within, Or.inr ⟨_, _, _, _, rfl, decoded, parsed, read,
        Settings.keeps fits _ _ tabular read⟩⟩

/-- The file of a project that sets one member. -/
def applyingText : String := "\x7b\"edit\":\x7b\"auto_apply\":true\x7d\x7d"

def applyingDocument : Json := .obj [("edit", .obj [("auto_apply", .bool true)])]

def applying : Settings := { edit := { autoApply := true } }

theorem overrides_key_by_key_applying :
    (∃ l, Act.Trace (loadUser "/u/c.json").run l (.ok {})) ∧
      (∃ l', Act.Trace (forProject {} "/p").run l' (.ok applying)) ∧
      applying.error? = none ∧
      applying.toJson.at? ["edit", "auto_apply"] = some (.bool true) ∧
      applying.toJson.at? ["llm", "temperature"] = (Settings.toJson {}).at? ["llm", "temperature"] := by
  have loaded : Act.Trace (loadUser "/u/c.json").run
      [⟨.file (.status "/u"), .ok ⟨.directory, 0, 0⟩⟩, ⟨.file (.status "/u/c.json"), .ok ⟨.file, 2, 0⟩⟩,
        ⟨.file (.read "/u/c.json"), .ok "{}".toUTF8⟩] (.ok {}) := .ask _ _ _ (.ask _ _ _ (.ask _ _ _ (.done _)))
  have decoded : String.fromUTF8? applyingText.toUTF8 = some applyingText := by decide +kernel
  have parsed : parse? applyingText = some applyingDocument := by decide +kernel
  have read : Settings.ofJson? ((Settings.toJson {}).overlay applyingDocument.canonical) = some applying := by
    decide +kernel
  have valid : applying.error? = none := by decide +kernel
  have run : Act.Trace (forProject {} "/p").run
      [⟨.file (.status "/p/.ipuaro.json"), .ok ⟨.file, 29, 0⟩⟩,
        ⟨.file (.read "/p/.ipuaro.json"), .ok applyingText.toUTF8⟩] (.ok applying) :=
    forProject_run (.overlaid decoded parsed read valid)
  have stands : (Settings.toJson {}).overlay applyingDocument = applying.toJson := by decide +kernel
  have tabular : Tabular applyingDocument := Nests.tabular_canonical (nests_of_parse? parsed)
  obtain ⟨laid, -, -⟩ := overrides_key_by_key.1 _ _ (Settings.tabular_toJson {}) tabular
  obtain ⟨within, ⟨e, wrong, -⟩ | ⟨_, _, text, document, heard, decoded', parsed', -, same⟩⟩ :=
    overrides_key_by_key.2 "/u/c.json" "/p" {} applying _ _ loaded run
  · cases wrong
  · have applied := laid ["edit", "auto_apply"] (.bool true) (by decide +kernel) rfl
    rw [stands] at applied
    cases heard
    obtain rfl := Option.some.inj (decoded.symm.trans decoded')
    obtain rfl := Option.some.inj (parsed.symm.trans parsed')
    exact ⟨⟨_, loaded⟩, ⟨_, run⟩, within, applied, same _ (.here _ rfl)⟩

end SettingsFile

end CodeAgent
