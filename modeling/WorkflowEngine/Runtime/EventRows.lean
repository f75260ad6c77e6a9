import WorkflowEngine.Runtime.TriggerFrame
import WorkflowEngine.Sandbox.OutputBytes

/-!
# Payloads, from the output counter to the rows of the store

Three encoders see one payload: the structured clone of the message port, the
JSON length that the worker charges, and the JSON columns of `eventToRow`. The
port carries bigints and cycles, JSON does not. The size of a structured clone
is a parameter; where an event has a JSON text, its size is that of the text.
`commitOnce` builds the rows of a whole batch before it inserts one.
-/

namespace WorkflowEngine.Runtime

open Lib Sandbox
set_option autoImplicit false

/-! ## Rows -/

structure EventsRow where
  id : String
  seq : Nat
  kind : String
  ref : Option Nat
  atIso : String
  ts : Int
  owner : String
  repo : String
  workflow : String
  workflowSha : String
  name : String
  input : Option (List Char)
  output : Option (List Char)
  error : Option (List Char)
  metadata : Option (List Char)

/-- `value === undefined ? null : JSON.stringify(value)`. -/
def jsonColumn : Option JsValue → Except Unit (Option (List Char))
  | none => .ok none
  | some v => stringify v

def eventToRow (e : InvocationEvent JsValue) : Except Unit EventsRow := do
  let input ← jsonColumn e.input
  let output ← jsonColumn e.output
  let error ← jsonColumn (e.error.map (·.toJs))
  let metadata ← jsonColumn e.metadata
  return {
    id := e.id
    seq := e.seq
    kind := e.kind
    ref := e.ref
    atIso := e.atIso
    ts := e.ts
    owner := e.owner
    repo := e.repo
    workflow := e.workflow
    workflowSha := e.workflowSha
    name := e.name
    input := input
    output := output
    error := error
    metadata := metadata }

/-- `events.map(eventToRow)` of `commitOnce`. -/
def batchRows : List (InvocationEvent JsValue) → Except Unit (List EventsRow)
  | [] => .ok []
  | e :: events => do
    let row ← eventToRow e
    let rows ← batchRows events
    return row :: rows

theorem jsonColumn_isOk (v : Option JsValue) : (jsonColumn v).isOk = v.all (·.plain) := by
  cases v with
  | none => rfl
  | some v => exact stringify_isOk v

theorem exists_jsonColumn {v : Option JsValue} (h : v.all (·.plain) = true) :
    ∃ text, jsonColumn v = .ok text := by
  rw [← jsonColumn_isOk] at h
  cases hc : jsonColumn v with
  | error e => rw [hc] at h; cases h
  | ok text => exact ⟨text, rfl⟩

theorem exists_eventToRow {e : InvocationEvent JsValue} (h : e.plain = true)
    (hmeta : e.metadata.all (·.plain) = true) : ∃ row, eventToRow e = .ok row := by
  simp only [EventInfo.plain, Bool.and_eq_true] at h
  obtain ⟨⟨hinput, houtput⟩, herror⟩ := h
  have herror' : (e.error.map (·.toJs)).all (·.plain) = true := by
    cases herr : e.error with
    | none => rfl
    | some error => simpa [herr, plain_errorToJs] using herror
  obtain ⟨input, hi⟩ := exists_jsonColumn hinput
  obtain ⟨output, ho⟩ := exists_jsonColumn houtput
  obtain ⟨error, he⟩ := exists_jsonColumn herror'
  obtain ⟨metadata, hm⟩ := exists_jsonColumn hmeta
  simp only [eventToRow, hi, ho, he, hm]
  exact ⟨_, rfl⟩

theorem exists_batchRows {events : List (InvocationEvent JsValue)}
    (h : ∀ e ∈ events, e.plain = true ∧ e.metadata.all (·.plain) = true) :
    ∃ rows, batchRows events = .ok rows := by
  induction events with
  | nil => exact ⟨[], rfl⟩
  | cons e events ih =>
    obtain ⟨hplain, hmeta⟩ := h e List.mem_cons_self
    obtain ⟨row, hrow⟩ := exists_eventToRow hplain hmeta
    obtain ⟨rows, hrows⟩ := ih fun x hx => h x (List.mem_cons_of_mem e hx)
    exact ⟨row :: rows, by simp only [batchRows, hrow, hrows]; rfl⟩

/-! ## The events of a run -/

inductive DispatchSource where
  | trigger
  | manual
  | upload
  | ws

def DispatchSource.toString : DispatchSource → String
  | .trigger => "trigger"
  | .manual => "manual"
  | .upload => "upload"
  | .ws => "ws"

structure DispatchUser where
  login : String
  mail : String

structure DispatchMeta where
  source : DispatchSource
  user : Option DispatchUser

/-- The `meta` of a trigger request. -/
def DispatchMeta.toJs (d : DispatchMeta) : JsValue :=
  .object [("dispatch", .object ([("source", .string d.source.toString)] ++
    jsField "user" (d.user.map fun user =>
      .object [("login", .string user.login), ("mail", .string user.mail)])))]

theorem plain_dispatchMeta (d : DispatchMeta) : d.toJs.plain = true := by
  cases huser : d.user <;>
    simp [DispatchMeta.toJs, huser, JsValue.plain, plainFields, jsField]

theorem mem_stamped_feed {V : Type*} {s : RunSequencer} {wires : List (WireEvent V)}
    {e : SandboxEvent V} (h : e ∈ stamped (s.feed wires).2) :
    ∃ w ∈ wires, e.toEventInfo = w.toEventInfo := by
  induction wires generalizing s with
  | nil => cases h
  | cons w wires ih =>
    rw [stamped_feed_cons] at h
    rcases List.mem_append.mp h with h | h
    · exact ⟨w, List.mem_cons_self, next_event_info (Option.mem_toList.mp h)⟩
    · obtain ⟨v, hv, hinfo⟩ := ih h
      exact ⟨v, List.mem_cons_of_mem w hv, hinfo⟩

/-- The payloads of a run window are those of its wire events; synthesised closes carry none. -/
theorem plain_windowEvents (sequencer : RunSequencer) {wires : List (WireEvent JsValue)}
    (h : ∀ w ∈ wires, w.plain = true) (closeReason : Option String) :
    ∀ e ∈ windowEvents sequencer wires closeReason, e.plain = true := by
  intro e he
  rcases List.mem_append.mp he with he | he
  · obtain ⟨w, hw, hinfo⟩ := mem_stamped_feed he
    rw [hinfo]
    exact h w hw
  · obtain ⟨_, _, _, _, _, _, rfl⟩ := mem_finish he
    rfl

/-! ## The law -/

/-- The size of an event on its way to main. -/
def serialisedSize (cloneSize : WireEvent JsValue → Nat) (w : WireEvent JsValue) : Nat :=
  match stringify w.toJs with
  | .ok (some text) => utf16Length text
  | _ => cloneSize w

/-- What the cap on the output and the commit owe to the events that a run posts: each is charged at
least its size, what reaches main stays within the cap, and the batch of the run has its rows. -/
structure Accounted (cloneSize : WireEvent JsValue → Nat) (outputBytes : Nat)
    (posted : List (WireEvent JsValue)) : Prop where
  charged : ∀ w ∈ posted, serialisedSize cloneSize w ≤ outputCharge w
  bounded : ((outputRun outputBytes posted).reached.map (serialisedSize cloneSize)).sum ≤ outputBytes
  rows : ∀ (sequencer : RunSequencer) (closeReason : Option String) (info : InvocationMeta JsValue)
    (dispatch : DispatchMeta), info.dispatch = dispatch.toJs →
    ∃ rows, batchRows ((windowEvents sequencer (outputRun outputBytes posted).reached
      closeReason).map (widen info)) = .ok rows

theorem serialisedSize_of_plain {w : WireEvent JsValue} (h : w.plain = true)
    (cloneSize : WireEvent JsValue → Nat) : serialisedSize cloneSize w = outputCharge w := by
  unfold serialisedSize outputCharge
  have hok := stringify_isOk w.toJs
  rw [plain_toJs, h] at hok
  cases hs : stringify w.toJs with
  | error e => rw [hs] at hok; cases hok
  | ok text =>
    cases text with
    | some text => rfl
    | none => exact absurd hs (stringify_object_ne_none _)

/-- An event that JSON cannot express is charged nothing. -/
theorem outputCharge_of_not_plain {w : WireEvent JsValue} (h : w.plain = false)
    (cloneSize : WireEvent JsValue → Nat) :
    outputCharge w = 0 ∧ serialisedSize cloneSize w = cloneSize w := by
  have hok := stringify_isOk w.toJs
  rw [plain_toJs, h] at hok
  cases hs : stringify w.toJs with
  | ok text => rw [hs] at hok; cases hok
  | error e => simp [outputCharge, serialisedSize, hs]

/-- For the events that one run posts, whatever they carry: they are accounted for exactly if no
payload has a bigint or a cycle in it. A structured clone is never empty. -/
theorem accounted_iff_plain (cloneSize : WireEvent JsValue → Nat) (hclone : ∀ w, 0 < cloneSize w)
    (outputBytes : Nat) (posted : List (WireEvent JsValue)) :
    Accounted cloneSize outputBytes posted ↔ ∀ w ∈ posted, w.plain = true := by
  have hcounted := counted_outputRun outputBytes posted
  constructor
  · intro h w hw
    by_contra hnot
    obtain ⟨hcharge, hsize⟩ := outputCharge_of_not_plain (by simpa using hnot) cloneSize
    have hle := h.charged w hw
    rw [hcharge, hsize] at hle
    exact absurd (hclone w) (Nat.not_lt.mpr hle)
  · intro h
    have hreached : ∀ w ∈ (outputRun outputBytes posted).reached, w.plain = true :=
      fun w hw => h w (hcounted.posted hw)
    refine ⟨?_, ?_, ?_⟩
    · exact fun w hw => Nat.le_of_eq (serialisedSize_of_plain (h w hw) cloneSize)
    · have hsizes : (outputRun outputBytes posted).reached.map (serialisedSize cloneSize) =
          (outputRun outputBytes posted).reached.map outputCharge :=
        List.map_congr_left fun w hw => serialisedSize_of_plain (hreached w hw) cloneSize
      rw [hsizes, ← hcounted.used]
      exact hcounted.within
    · intro sequencer closeReason info dispatch hdispatch
      apply exists_batchRows
      intro x hx
      obtain ⟨e, he, rfl⟩ := List.mem_map.mp hx
      refine ⟨plain_windowEvents sequencer hreached closeReason e he, ?_⟩
      show (if e.kind = "trigger.request" then some info.dispatch else none).all (·.plain) = true
      split
      · rw [hdispatch]
        exact plain_dispatchMeta dispatch
      · rfl

/-- The smallest structured clone: the two bytes of its header. -/
def headerSize (_ : WireEvent JsValue) : Nat := 2

def actionRequest (input : JsValue) : WireEvent JsValue where
  kind := "action.request"
  name := "charge"
  ts := 0
  atIso := ""
  input := some input
  output := none
  error := none
  type := .leaf

theorem accounted_iff_plain_string :
    (∀ w, 0 < headerSize w) ∧
    Accounted headerSize 1024 [actionRequest (.object [("cents", .string "1200")])] :=
  ⟨fun _ => Nat.zero_lt_two, (accounted_iff_plain headerSize (fun _ => Nat.zero_lt_two) 1024
    [actionRequest (.object [("cents", .string "1200")])]).mpr (by decide)⟩

/-- One bigint: the event is charged nothing and reaches main under any cap, and the rows of the
invocation cannot be built. -/
theorem bigint_not_accounted :
    (outputRun 0 [actionRequest (.bigint 1200)]).reached.length = 1 ∧
    (∀ rows, batchRows ((windowEvents createRunSequencer
      (outputRun 0 [actionRequest (.bigint 1200)]).reached none).map
        (widen ⟨"evt_1", "acme", "shop", "orders", "sha", .null⟩)) ≠ .ok rows) ∧
    ¬ Accounted headerSize 0 [actionRequest (.bigint 1200)] := by
  refine ⟨by decide, ?_, ?_⟩
  · rintro rows ⟨⟩
  · intro h
    have hle := h.charged (actionRequest (.bigint 1200)) List.mem_cons_self
    exact absurd hle (by decide)

end WorkflowEngine.Runtime
