import CodeAgent.Proofs.Json.Nesting
import CodeAgent.Store.Database

/-! Sessions and the documents that they are saved as.
A session is read back from its document with every field, its messages, the arguments of its calls and
its changes, as long as its numbers are held in the bits that they are read with and the document nests
no deeper than a reader goes. -/
namespace CodeAgent

open Json

namespace Json

/-- A value whose document is in order and says all there is to it. -/
structure Carries {α : Type} (write : α → Json) (read : Json → Option α) (a : α) : Prop where
  exact : Exact (write a)
  read : read (write a) = some a

namespace Carries

variable {α : Type} {write : α → Json} {read : Json → Option α}

theorem natBits {bits n : Nat} (small : bits ≤ 64) (fits : n ≤ Nat.pow 2 bits - 1) :
    Carries Json.nat (toNatBits? bits) n := by
  have word : n ≤ maxWord :=
    Nat.le_trans fits (Nat.sub_le_sub_right (Nat.pow_le_pow_right (by decide) small) 1)
  have low : -(Nat.pow 2 63 : Int) ≤ n := Int.le_trans (by decide) (Int.natCast_nonneg n)
  constructor
  · exact .num (reads_int low (Int.ofNat_le.mpr word))
  · have restores : Restores 0 Json.nat (toNatBits? bits) n := .natBits small fits
    exact restores.read

theorem nat {n : Nat} (fits : n ≤ maxWord) : Carries Json.nat toNat64? n :=
  natBits (by decide) fits

theorem int {i : Int} (above : -Nat.pow 2 63 ≤ i) (below : i ≤ Nat.pow 2 63 - 1) :
    Carries Json.int toInt64? i :=
  ⟨.num (reads_int above (Int.le_trans below (by decide))), toIntIn?_int above below⟩

theorem list {items : List α} (each : ∀ a ∈ items, Carries write read a) :
    Carries (fun items => .arr (items.map write)) (toList? read) items := by
  refine ⟨.arr fun x member => ?_, mapM_map fun a member => (each a member).read⟩
  obtain ⟨a, inside, rfl⟩ := List.mem_map.mp member
  exact (each a inside).exact

theorem strings (ss : List String) : Carries ofStrings toStrings? ss :=
  list fun s _ => ⟨.str s, rfl⟩

end Carries

@[simp] theorem exact_ofStrings (ss : List String) : Exact (ofStrings ss) := (Carries.strings ss).exact

attribute [simp] Exact.null Exact.bool Exact.str

@[simp] theorem orElse_ofMembers {α : Type} {members : List (String × Json)} (name : String)
    (decode : Json → Option α) (absent : α) :
    (Fields.ofMembers members).orElse name decode absent =
      ((Table.ofList members).get? name).elim (some absent) decode := by
  rw [Fields.orElse, find?_ofMembers]
  cases (Table.ofList members).get? name <;> rfl

theorem bind_eq_of_some {α β : Type} {o : Option α} {f : α → Option β} {a : α} {r : Option β}
    (first : o = some a) (rest : f a = r) : (o >>= f) = r := by
  rw [first]
  exact rest

end Json

section

variable {depth : Nat}

theorem nests_member {members : List (String × Json)} (key : String) {value : Json}
    (nests : Nests (depth + 2) (object members))
    (found : (Table.ofList members).get? key = some value) : Nests (depth + 1) value := by
  rw [object_eq] at nests
  cases nests with
  | obj each => exact each (key, value) (Table.get?_eq_some.mp found)

theorem nests_items {α : Type} {items : List α} {write : α → Json} {a : α}
    (nests : Nests (depth + 2) (.arr (items.map write))) (member : a ∈ items) :
    Nests (depth + 1) (write a) := by
  cases nests with
  | arr each => exact each (write a) (List.mem_map_of_mem member)

end

namespace Change

/-- Sixty-four bits hold the time of the change. -/
structure Fits (c : Change) : Prop where
  notBefore : -Nat.pow 2 63 ≤ c.timestamp
  notAfter : c.timestamp ≤ Nat.pow 2 63 - 1

theorem carries {c : Change} (fits : c.Fits) : Carries toJson ofJson? c := by
  have timestamp : Carries Json.int toInt64? c.timestamp := .int fits.notBefore fits.notAfter
  refine ⟨exact_object ?_, ?_⟩
  · simp [timestamp.exact]
  · simp [ofJson?, toJson, Table.ofList, Table.get?_insert, timestamp.read]

theorem nests (c : Change) (depth : Nat) : Nests (depth + 4) c.toJson := by
  refine nests_object ?_
  simp [Nests.str, Nests.bool, Nests.num, Json.int, nests_strings]

end Change

namespace Block

/-- The arguments of a call are read back as they were written. -/
def Fits : Block → Prop
  | .toolUse c => Exact c.arguments
  | _ => True

/- The members as they are ordered -/

theorem toJson_text (t : String) :
    toJson (.text t) = .obj [("text", .str t), ("type", .str "text")] := by
  simp only [toJson, object, put, List.foldl, String.reduceLT, String.reduceEq, ↓reduceIte]

theorem toJson_toolUse (c : ToolCall) : toJson (.toolUse c) =
    .obj [("id", .str c.id), ("input", c.arguments), ("name", .str c.name), ("type", .str "tool_use")] := by
  simp only [toJson, object, put, List.foldl, String.reduceLT, String.reduceEq, ↓reduceIte]

theorem toJson_toolResult (id content : String) (failed : Option Bool) :
    toJson (.toolResult id content failed) =
      .obj (("content", .str content) :: (failed.toList.map fun b => ("is_error", .bool b)) ++
        [("tool_use_id", .str id), ("type", .str "tool_result")]) := by
  cases failed <;> simp only [toJson, object, put, List.foldl, String.reduceLT, String.reduceEq,
    ↓reduceIte, List.cons_append, List.nil_append, Option.toList, List.map]

theorem carries {b : Block} (fits : b.Fits) : Carries toJson ofJson? b := by
  cases b with
  | text t =>
    refine ⟨exact_object (by simp), ?_⟩
    rw [toJson_text]
    simp [ofJson?, tag?, body?, fields?, Fields.req, Fields.find?]
  | toolUse c =>
    have exact : Exact c.arguments := fits
    refine ⟨exact_object (by simp [exact]), ?_⟩
    rw [toJson_toolUse]
    simp [ofJson?, tag?, body?, fields?, Fields.req, Fields.find?, exact.canonical_eq]
  | toolResult id content failed =>
    refine ⟨exact_object (by cases failed <;> simp), ?_⟩
    rw [toJson_toolResult]
    cases failed <;>
      simp [ofJson?, tag?, body?, fields?, Fields.req, Fields.opt, Fields.find?]

/-- How deep the arguments of a call may nest. -/
def Shallow (depth : Nat) : Block → Prop
  | .toolUse c => Nests depth c.arguments
  | _ => True

theorem nests_iff {depth : Nat} {b : Block} :
    Nests (depth + 2) b.toJson ↔ b.Shallow (depth + 1) := by
  cases b with
  | text t =>
    have plain : Nests (depth + 2) (toJson (.text t)) := nests_object (by simp [Nests.str])
    exact ⟨fun _ => trivial, fun _ => plain⟩
  | toolUse c =>
    constructor
    · intro nests
      exact nests_member "input" nests (by simp [Table.ofList])
    · intro (arguments : Nests (depth + 1) c.arguments)
      exact nests_object (by simp [Nests.str, arguments])
  | toolResult id content failed =>
    have plain : Nests (depth + 2) (toJson (.toolResult id content failed)) := by
      cases failed <;> exact nests_object (by simp [Nests.str, Nests.bool])
    exact ⟨fun _ => trivial, fun _ => plain⟩

end Block

namespace Message

theorem carries {m : Message} (fits : ∀ b ∈ m.content, b.Fits) : Carries toJson ofJson? m := by
  have role : Role.ofJson? m.role.toJson = some m.role := by cases m.role <;> rfl
  have content : Carries (fun bs => .arr (bs.map Block.toJson)) (toList? Block.ofJson?) m.content :=
    .list fun b inside => Block.carries (fits b inside)
  refine ⟨exact_object ?_, ?_⟩
  · simp [content.exact, Role.toJson]
  · simp [ofJson?, toJson, Table.ofList, Table.get?_insert, content.read, role]

theorem nests_iff {depth : Nat} {m : Message} :
    Nests (depth + 4) m.toJson ↔ ∀ b ∈ m.content, b.Shallow (depth + 1) := by
  constructor
  · intro nests b inside
    have content : Nests (depth + 3) (.arr (m.content.map Block.toJson)) :=
      nests_member "content" nests (by simp [Table.ofList])
    exact Block.nests_iff.mp (nests_items content inside)
  · intro shallow
    have content : Nests (depth + 3) (.arr (m.content.map Block.toJson)) :=
      nests_list fun b inside => Block.nests_iff.mpr (shallow b inside)
    exact nests_object (by simp [content, Role.toJson, Nests.str])

end Message

namespace HistoryEntry

structure Fits (e : HistoryEntry) : Prop where
  notBefore : -Nat.pow 2 63 ≤ e.timestamp
  notAfter : e.timestamp ≤ Nat.pow 2 63 - 1
  blocks : ∀ b ∈ e.message.content, b.Fits

theorem carries {e : HistoryEntry} (fits : e.Fits) : Carries toJson ofJson? e := by
  have timestamp : Carries Json.int toInt64? e.timestamp := .int fits.notBefore fits.notAfter
  have message := Message.carries fits.blocks
  refine ⟨exact_object ?_, ?_⟩
  · simp [timestamp.exact, message.exact]
  · simp [ofJson?, toJson, Table.ofList, Table.get?_insert, timestamp.read, message.read]

theorem nests_iff {depth : Nat} {e : HistoryEntry} :
    Nests (depth + 5) e.toJson ↔ ∀ b ∈ e.message.content, b.Shallow (depth + 1) := by
  rw [← Message.nests_iff]
  constructor
  · intro nests
    exact nests_member "message" nests (by simp [Table.ofList])
  · intro message
    exact nests_object (by simp [Nests.num, Json.int, message])

end HistoryEntry

namespace ContextState

/-- The usage before anything was asked. -/
theorem reads_zero : Reads (.float .zero) := by
  have none : scale 0 (-1) = some .zero := by decide +kernel
  refine ⟨false, ['0', '.', '0'], rfl, rfl, ?_⟩
  intro rest stops
  have digits : takeDigits 0 0 ('0' :: rest) = (0, 1, rest) :=
    @takeDigits_append ['0'] rest 0 0 (by simp) (by decide) stops.noDigit
  have point : takeDigits 0 0 ('0' :: '.' :: '0' :: rest) = (0, 1, '.' :: '0' :: rest) :=
    @takeDigits_append ['0'] ('.' :: '0' :: rest) 0 0 (by simp) (by decide) rfl
  have ended : finish false 0 (-1) rest = some (.zero, rest) := by
    unfold finish
    split
    · exact absurd rfl (stops_cons.mp stops).2.2.1
    · exact absurd rfl (stops_cons.mp stops).2.2.2
    · rw [none]
      rfl
  have noDigit : startsWithDigit ('.' :: '0' :: rest) = false := rfl
  simp [readNumber, noDigit, point, readFraction, digits, stops.noDigit, ended]

theorem carries {c : ContextState} (usage : Reads (.float c.tokenUsage)) :
    Carries toJson ofJson? c := by
  refine ⟨exact_object ?_, ?_⟩
  · simp [Json.float, Exact.num usage]
  · simp [ofJson?, toJson, Table.ofList, Table.get?_insert, Json.float, toDouble?]

theorem nests (c : ContextState) (depth : Nat) : Nests (depth + 3) c.toJson :=
  nests_object (by simp [Nests.num, Nests.bool, Json.float, nests_strings])

end ContextState

namespace SessionStats

/-- Sixty-four bits hold the counters. -/
structure Fits (s : SessionStats) : Prop where
  totalTokens : s.totalTokens ≤ maxWord
  totalTimeMs : s.totalTimeMs ≤ maxWord
  toolCalls : s.toolCalls ≤ maxWord
  editsApplied : s.editsApplied ≤ maxWord
  editsRejected : s.editsRejected ≤ maxWord

theorem carries {s : SessionStats} (fits : s.Fits) : Carries toJson ofJson? s := by
  have totalTokens := Carries.nat fits.totalTokens
  have totalTimeMs := Carries.nat fits.totalTimeMs
  have toolCalls := Carries.nat fits.toolCalls
  have editsApplied := Carries.nat fits.editsApplied
  have editsRejected := Carries.nat fits.editsRejected
  refine ⟨exact_object ?_, ?_⟩
  · simp [totalTokens.exact, totalTimeMs.exact, toolCalls.exact, editsApplied.exact,
      editsRejected.exact]
  · simp [ofJson?, toJson, Table.ofList, Table.get?_insert, totalTokens.read, totalTimeMs.read,
      toolCalls.read, editsApplied.read, editsRejected.read]

theorem nests (s : SessionStats) (depth : Nat) : Nests (depth + 2) s.toJson :=
  nests_object (by simp [Nests.num, Json.nat])

end SessionStats

namespace Session

/-- The numbers of a session are held in the bits that they are read with, and those of its calls and
its usage are read back as they were written. -/
structure Fits (s : Session) : Prop where
  version : s.schemaVersion ≤ Nat.pow 2 32 - 1
  createdAt : -Nat.pow 2 63 ≤ s.createdAt ∧ s.createdAt ≤ Nat.pow 2 63 - 1
  lastActivityAt : -Nat.pow 2 63 ≤ s.lastActivityAt ∧ s.lastActivityAt ≤ Nat.pow 2 63 - 1
  history : ∀ e ∈ s.history, e.Fits
  usage : Reads (.float s.context.tokenUsage)
  stats : s.stats.Fits
  undoStack : ∀ c ∈ s.undoStack, c.Fits
  maxUndo : s.maxUndo ≤ maxWord
  maxInputs : s.maxInputs ≤ maxWord

/-- The members of the document, in the order of the record. -/
def members (s : Session) : List (String × Json) :=
  [("schema_version", .nat s.schemaVersion), ("id", .str s.id), ("project_name", .str s.projectName),
    ("created_at", .int s.createdAt), ("last_activity_at", .int s.lastActivityAt),
    ("history", .arr (s.history.map HistoryEntry.toJson)), ("context", s.context.toJson),
    ("stats", s.stats.toJson), ("undo_stack", .arr (s.undoStack.reverse.map Change.toJson)),
    ("input_history", Json.ofStrings s.inputs), ("max_undo_entries", .nat s.maxUndo),
    ("max_input_history", .nat s.maxInputs)]

theorem get?_members (s : Session) (key : String) :
    (Table.ofList s.members).get? key = Entries.lookup key s.members :=
  Table.get?_ofList_of_nodup (by simp [members])

section

variable {α : Type} {decode : Json → Option α} {j : Json} {a absent : α}

theorem req_members (s : Session) (name : String) (found : Entries.lookup name s.members = some j)
    (read : decode j = some a) : (Fields.ofMembers s.members).req name decode = some a := by
  rw [req_ofMembers, get?_members, found]
  exact read

theorem orElse_members (s : Session) (name : String) (found : Entries.lookup name s.members = some j)
    (read : decode j = some a) :
    (Fields.ofMembers s.members).orElse name decode absent = some a := by
  rw [orElse_ofMembers, get?_members, found]
  exact read

end

theorem carries {s : Session} (fits : s.Fits) : Carries toJson ofJson? s := by
  have version : Carries Json.nat toNat32? s.schemaVersion := .natBits (by decide) fits.version
  have createdAt : Carries Json.int toInt64? s.createdAt :=
    .int fits.createdAt.1 fits.createdAt.2
  have lastActivityAt : Carries Json.int toInt64? s.lastActivityAt :=
    .int fits.lastActivityAt.1 fits.lastActivityAt.2
  have history : Carries (fun es => .arr (es.map HistoryEntry.toJson))
      (toList? HistoryEntry.ofJson?) s.history :=
    .list fun e inside => HistoryEntry.carries (fits.history e inside)
  have context := ContextState.carries fits.usage
  have stats := SessionStats.carries fits.stats
  have undo : Carries (fun cs => .arr (cs.map Change.toJson)) (toList? Change.ofJson?)
      s.undoStack.reverse :=
    .list fun c inside => Change.carries (fits.undoStack c (List.mem_reverse.mp inside))
  have maxUndo := Carries.nat fits.maxUndo
  have maxInputs := Carries.nat fits.maxInputs
  refine ⟨exact_object ?_, ?_⟩
  · simp [version.exact, createdAt.exact, lastActivityAt.exact, history.exact, context.exact,
      stats.exact, undo.exact, maxUndo.exact, maxInputs.exact, -List.map_reverse]
  · rw [ofJson?]
    apply bind_eq_of_some (fields?_object _ s.members)
    apply bind_eq_of_some (s.req_members "schema_version" rfl version.read)
    apply bind_eq_of_some (s.req_members "id" rfl (toStr?_str s.id))
    apply bind_eq_of_some (s.req_members "project_name" rfl (toStr?_str s.projectName))
    apply bind_eq_of_some (s.req_members "created_at" rfl createdAt.read)
    apply bind_eq_of_some (s.req_members "last_activity_at" rfl lastActivityAt.read)
    apply bind_eq_of_some (s.req_members "history" rfl history.read)
    apply bind_eq_of_some (s.req_members "context" rfl context.read)
    apply bind_eq_of_some (s.req_members "stats" rfl stats.read)
    apply bind_eq_of_some (s.req_members "undo_stack" rfl undo.read)
    apply bind_eq_of_some (s.req_members "input_history" rfl (toStrings?_ofStrings s.inputs))
    apply bind_eq_of_some (s.orElse_members "max_undo_entries" rfl maxUndo.read)
    apply bind_eq_of_some (s.orElse_members "max_input_history" rfl maxInputs.read)
    rw [List.reverse_reverse]
    rfl

/-- Where a session's id and its project stand in whatever it is read from. -/
theorem named_of_ofJson? {ms : List (String × Json)} {s : Session} (read : ofJson? (object ms) = some s) :
    (Table.ofList ms).get? "id" = some (.str s.id) ∧
      (Table.ofList ms).get? "project_name" = some (.str s.projectName) := by
  have text {name t : String} (read : (Fields.ofMembers ms).req name toStr? = some t) :
      (Table.ofList ms).get? name = some (.str t) := by
    rw [req_ofMembers] at read
    obtain ⟨j, found, is⟩ := Option.bind_eq_some_iff.mp read
    cases j with
    | str u => rw [found, Option.some.inj is]
    | null | bool | num | arr | obj => cases is
  rw [ofJson?] at read
  obtain ⟨fs, fields, read⟩ := Option.bind_eq_some_iff.mp read
  obtain rfl := Option.some.inj ((fields?_object _ ms).symm.trans fields)
  obtain ⟨version, -, read⟩ := Option.bind_eq_some_iff.mp read
  obtain ⟨id, idRead, read⟩ := Option.bind_eq_some_iff.mp read
  obtain ⟨project, projectRead, read⟩ := Option.bind_eq_some_iff.mp read
  obtain ⟨createdAt, -, read⟩ := Option.bind_eq_some_iff.mp read
  obtain ⟨lastActivityAt, -, read⟩ := Option.bind_eq_some_iff.mp read
  obtain ⟨history, -, read⟩ := Option.bind_eq_some_iff.mp read
  obtain ⟨context, -, read⟩ := Option.bind_eq_some_iff.mp read
  obtain ⟨stats, -, read⟩ := Option.bind_eq_some_iff.mp read
  obtain ⟨undo, -, read⟩ := Option.bind_eq_some_iff.mp read
  obtain ⟨inputs, -, read⟩ := Option.bind_eq_some_iff.mp read
  obtain ⟨maxUndo, -, read⟩ := Option.bind_eq_some_iff.mp read
  obtain ⟨maxInputs, -, read⟩ := Option.bind_eq_some_iff.mp read
  obtain rfl := Option.some.inj read
  exact ⟨text idRead, text projectRead⟩

/-- The arguments of a call stand six levels deep in the document of its session. -/
theorem nests_iff {s : Session} {depth : Nat} :
    Nests (depth + 7) s.toJson ↔
      ∀ e ∈ s.history, ∀ b ∈ e.message.content, b.Shallow (depth + 1) := by
  constructor
  · intro (nests : Nests (depth + 7) (object s.members)) e inside
    have history : Nests (depth + 6) (.arr (s.history.map HistoryEntry.toJson)) :=
      nests_member "history" nests (s.get?_members _)
    exact HistoryEntry.nests_iff.mp (nests_items history inside)
  · intro shallow
    have history : Nests (depth + 6) (.arr (s.history.map HistoryEntry.toJson)) :=
      nests_list fun e inside => HistoryEntry.nests_iff.mpr (shallow e inside)
    have undo : Nests (depth + 6) (.arr (s.undoStack.reverse.map Change.toJson)) :=
      nests_list fun c _ => c.nests (depth + 1)
    exact nests_object (by simp [Nests.num, Nests.str, Json.nat, Json.int, nests_strings, history,
      undo, s.context.nests (depth + 3), s.stats.nests (depth + 4), -List.map_reverse])

theorem documentVersion_toJson (s : Session) : Database.documentVersion s.toJson = s.schemaVersion := by
  have member : s.toJson.member? "schema_version" = some (Json.nat s.schemaVersion) := by
    have document : toJson s = object s.members := rfl
    rw [document, member?_object, get?_members]
    rfl
  rw [Database.documentVersion, member]
  rfl

theorem parse?_toJson {s : Session} (fits : s.Fits) (nests : Nests maxDepth s.toJson) :
    parse? s.toJson.compact = some s.toJson :=
  parse?_compact ((carries fits).exact.readable nests)

/-- A session that fits is read back whole, by its reader and from the store. -/
theorem ofJson?_compact {s : Session} (fits : s.Fits) (nests : Nests maxDepth s.toJson) :
    (parse? s.toJson.compact).bind ofJson? = some s := by
  rw [parse?_toJson fits nests, Option.bind_some, (carries fits).read]

theorem decodeSession_compact {s : Session} (fits : s.Fits) (nests : Nests maxDepth s.toJson) :
    Database.decodeSession s.toJson.compact =
      if s.schemaVersion > currentVersion then
        .error (.database ("Session document version " ++ toString s.schemaVersion
          ++ " is newer than supported version " ++ toString currentVersion))
      else .ok s := by
  rw [Database.decodeSession, parse?_toJson fits nests, Option.map_some,
    (carries fits).exact.canonical_eq]
  simp only [documentVersion_toJson, (carries fits).read]

end Session

end CodeAgent
