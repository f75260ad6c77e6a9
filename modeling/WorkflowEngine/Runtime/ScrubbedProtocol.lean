import WorkflowEngine.Runtime.QueueHost
import WorkflowEngine.Runtime.SecretsPlugin

/-!
# What the main thread reads of a scrubbed message

The messages of `protocol.ts` as the worker posts them, and the properties by
which the main thread of `sandbox.ts` tells them apart. The scrubber walks the
words of the protocol like any other string. A message keeps its meaning when no
plaintext occurs in one of these words.
-/

namespace WorkflowEngine.Runtime.SecretsPlugin

open Lib Sandbox QueueHost
set_option autoImplicit false

/-! ## Messages -/

structure SerializedError where
  name : String
  message : String
  stack : String
  issues : Option JsValue
  data : Option JsValue

inductive RunResultPayload where
  | ok (result : JsValue)
  | failed (message stack : String)

/-- The calls of the queue plugin, and those of any other plugin. -/
inductive HostCall where
  | queuePut (args : PutArgs)
  | queueGet (args : GetArgs)
  | other (method : String) (args : List JsValue) (h : method ≠ "queue.put" ∧ method ≠ "queue.get")

inductive WorkerToMain where
  | ready
  | initError (error : SerializedError)
  | event (wire : WireEvent JsValue)
  | done (payload : RunResultPayload)
  | restoreFailed (error : SerializedError)
  | log (level message : String) (info : Option JsValue)
  | hostCallRequest (id : Nat) (call : HostCall)

def optional (key : String) : Option JsValue → List (String × JsValue)
  | none => []
  | some v => [(key, v)]

def encodeEventError (e : EventError JsValue) : JsValue :=
  .object (("message", .string e.message) ::
    (optional "stack" (e.stack.map .string) ++
      (optional "issues" e.issues ++ optional "kind" (e.kind.map .string))))

def encodeFraming : WireFraming → JsValue
  | .leaf => .string "leaf"
  | .openCall callId => .object [("open", .number (.ofNat callId))]
  | .closeCall callId => .object [("close", .number (.ofNat callId))]

def encodeEvent (wire : WireEvent JsValue) : JsValue :=
  .object (("kind", .string wire.kind) :: ("name", .string wire.name) ::
    ("ts", .number (.ofInt wire.ts)) :: ("at", .string wire.atIso) ::
    (optional "input" wire.input ++ (optional "output" wire.output ++
      (optional "error" (wire.error.map encodeEventError) ++ [("type", encodeFraming wire.type)]))))

def encodeSerializedError (e : SerializedError) : JsValue :=
  .object (("name", .string e.name) :: ("message", .string e.message) :: ("stack", .string e.stack) ::
    (optional "issues" e.issues ++ optional "data" e.data))

def encodePayload : RunResultPayload → JsValue
  | .ok result => .object [("ok", .bool true), ("result", result)]
  | .failed message stack =>
    .object [("ok", .bool false),
      ("error", .object [("message", .string message), ("stack", .string stack)])]

def encodePutArgs (args : PutArgs) : JsValue :=
  .object [("queue", .string args.queue), ("item", args.item), ("key", .string args.key),
    ("repo", .string args.repo), ("invocationId", .string args.invocationId),
    ("triggerKind", .string args.triggerKind), ("triggerName", .string args.triggerName)]

def encodeGetArgs (args : GetArgs) : JsValue :=
  .object [("queue", .string args.queue), ("repo", .string args.repo), ("key", .string args.key)]

def HostCall.method : HostCall → String
  | .queuePut _ => "queue.put"
  | .queueGet _ => "queue.get"
  | .other method _ _ => method

def HostCall.args : HostCall → List JsValue
  | .queuePut args => [encodePutArgs args]
  | .queueGet args => [encodeGetArgs args]
  | .other _ args _ => args

def WorkerToMain.tag : WorkerToMain → String
  | .ready => "ready"
  | .initError _ => "init-error"
  | .event _ => "event"
  | .done _ => "done"
  | .restoreFailed _ => "restore-failed"
  | .log .. => "log"
  | .hostCallRequest .. => "host-call-request"

def WorkerToMain.fields : WorkerToMain → List (String × JsValue)
  | .ready => []
  | .initError error => [("error", encodeSerializedError error)]
  | .event wire => [("event", encodeEvent wire)]
  | .done payload => [("payload", encodePayload payload)]
  | .restoreFailed error => [("error", encodeSerializedError error)]
  | .log level message info =>
    ("level", .string level) :: ("message", .string message) :: optional "meta" info
  | .hostCallRequest id call =>
    [("id", .number (.ofNat id)), ("method", .string call.method), ("args", .array call.args)]

def encode (m : WorkerToMain) : JsValue := .object (("type", .string m.tag) :: m.fields)

/-! ## What the main thread reads -/

/-- The part of a message that the main side routes and stamps by. -/
structure MessageProtocol where
  type : JsValue
  framing : JsValue
  kind : JsValue
  id : JsValue
  method : JsValue
  queue : Option (List JsValue)

def isQueueMethod : JsValue → Bool
  | .string method => method = "queue.put" || method = "queue.get"
  | _ => false

/-- The context of a queue call, as the main side reads them from the first element of `args`. -/
def queueArgs (arg : JsValue) : List JsValue :=
  ["repo", "invocationId", "triggerKind", "triggerName"].map fun key => arg.get key

def protocolOf (msg : JsValue) : MessageProtocol where
  type := msg.get "type"
  framing := (msg.get "event").get "type"
  kind := (msg.get "event").get "kind"
  id := msg.get "id"
  method := msg.get "method"
  queue :=
    if isQueueMethod (msg.get "method") then some (queueArgs ((msg.get "args").at 0)) else none

/-- The strings of a message that the main side routes and stamps by. -/
def protocolWords (m : WorkerToMain) : List String :=
  m.tag ::
    match m with
    | .event wire => wire.kind :: (if wire.type = .leaf then ["leaf"] else [])
    | .hostCallRequest _ (.queuePut args) =>
      ["queue.put", args.repo, args.invocationId, args.triggerKind, args.triggerName]
    | .hostCallRequest _ (.queueGet args) => ["queue.get", args.repo]
    | .hostCallRequest _ (.other method _ _) => [method]
    | _ => []

def isLog : WorkerToMain → Bool
  | .log .. => true
  | _ => false

/-- No plaintext occurs in a word of the protocol; a message that cannot be walked is a log entry. -/
def Safe (plaintexts : List String) (m : WorkerToMain) : Prop :=
  if Acyclic (encode m) then ∀ w ∈ protocolWords m, Intact plaintexts w
  else plaintexts = [] ∨ isLog m = true

/-! ## Reading a walked value -/

theorem lookup_walkEntries {f : String → String} {key : String} (hkey : key ≠ "__proto__") :
    ∀ {fields fields' : List (String × JsValue)}, walkEntries f fields = some fields' →
      walkStrings f ((fields.lookup key).getD .undefined) =
        some ((fields'.lookup key).getD .undefined)
  | [], fields', h => by
    obtain rfl := Option.some.inj h
    rfl
  | (k, v) :: fields, fields', h => by
    rw [walkEntries] at h
    split at h
    · cases h
    · rename_i w hw
      obtain ⟨rest, hrest, rfl⟩ := Option.map_eq_some_iff.mp h
      have ih := lookup_walkEntries hkey hrest
      by_cases hk : key = k
      · subst hk
        simp [hkey, hw]
      · have hbeq : (key == k) = false := by simpa using hk
        have hskip : ∀ (x : JsValue) (l : List (String × JsValue)),
            ((k, x) :: l).lookup key = l.lookup key := by
          intro x l
          simp [List.lookup_cons, hbeq]
        rw [hskip]
        split
        · exact ih
        · rw [hskip]
          exact ih

theorem get_walkStrings {f : String → String} {v w : JsValue} (h : walkStrings f v = some w)
    (key : String) (hkey : key ≠ "__proto__") : walkStrings f (v.get key) = some (w.get key) := by
  cases v with
  | object fields =>
    obtain ⟨fields', hfields, rfl⟩ := Option.map_eq_some_iff.mp h
    exact lookup_walkEntries hkey hfields
  | builtin fields =>
    obtain ⟨fields', hfields, rfl⟩ := Option.map_eq_some_iff.mp h
    exact lookup_walkEntries hkey hfields
  | array items =>
    obtain ⟨items', hitems, rfl⟩ := Option.map_eq_some_iff.mp h
    rfl
  | cycle => cases h
  | undefined | null | negZero | nonFinite =>
    obtain rfl := Option.some.inj h
    rfl
  | bool | number | bigint | string | date =>
    obtain rfl := Option.some.inj h
    rfl

theorem getElem?_walkItems {f : String → String} :
    ∀ {items items' : List JsValue} (i : Nat), walkItems f items = some items' →
      walkStrings f (items[i]?.getD .undefined) = some (items'[i]?.getD .undefined)
  | [], items', i, h => by
    obtain rfl := Option.some.inj h
    rfl
  | v :: items, items', i, h => by
    rw [walkItems] at h
    split at h
    · cases h
    · rename_i w hw
      obtain ⟨rest, hrest, rfl⟩ := Option.map_eq_some_iff.mp h
      cases i with
      | zero => exact hw
      | succ i => exact getElem?_walkItems i hrest

theorem at_walkStrings {f : String → String} {v w : JsValue} (h : walkStrings f v = some w) (i : Nat) :
    walkStrings f (v.at i) = some (w.at i) := by
  cases v with
  | array items =>
    obtain ⟨items', hitems, rfl⟩ := Option.map_eq_some_iff.mp h
    exact getElem?_walkItems i hitems
  | object fields =>
    obtain ⟨fields', hfields, rfl⟩ := Option.map_eq_some_iff.mp h
    rfl
  | builtin fields =>
    obtain ⟨fields', hfields, rfl⟩ := Option.map_eq_some_iff.mp h
    rfl
  | cycle => cases h
  | undefined | null | negZero | nonFinite =>
    obtain rfl := Option.some.inj h
    rfl
  | bool | number | bigint | string | date =>
    obtain rfl := Option.some.inj h
    rfl

theorem get_type_encodeEvent (wire : WireEvent JsValue) :
    (encodeEvent wire).get "type" = encodeFraming wire.type := by
  unfold encodeEvent JsValue.get
  cases wire.input <;> cases wire.output <;> cases wire.error <;> rfl

theorem walkStrings_undefined {f : String → String} {w : JsValue}
    (h : walkStrings f .undefined = some w) : w = .undefined := (Option.some.inj h).symm

theorem walkStrings_string {f : String → String} {s : String} {w : JsValue}
    (h : walkStrings f (.string s) = some w) : w = .string (f s) := (Option.some.inj h).symm

theorem get_type_walk {f : String → String} {m : WorkerToMain} {w : JsValue}
    (h : walkStrings f (encode m) = some w) : w.get "type" = .string (f m.tag) :=
  walkStrings_string (get_walkStrings h "type" (by decide))

theorem protocolOf_walk_plain {f : String → String} {m : WorkerToMain} {w : JsValue}
    (h : walkStrings f (encode m) = some w) (hevent : (encode m).get "event" = .undefined)
    (hid : (encode m).get "id" = .undefined) (hmethod : (encode m).get "method" = .undefined) :
    protocolOf w = protocolOf (encode m) ↔ f m.tag = m.tag := by
  have hevent' := get_walkStrings h "event" (by decide)
  have hid' := get_walkStrings h "id" (by decide)
  have hmethod' := get_walkStrings h "method" (by decide)
  rw [hevent] at hevent'
  rw [hid] at hid'
  rw [hmethod] at hmethod'
  have htype : (encode m).get "type" = .string m.tag := rfl
  simp [protocolOf, get_type_walk h, htype, hevent, hid, hmethod, walkStrings_undefined hevent',
    walkStrings_undefined hid', walkStrings_undefined hmethod', isQueueMethod]

theorem walkStrings_encodeFraming {f : String → String} {type : WireFraming} {w : JsValue}
    (h : walkStrings f (encodeFraming type) = some w) :
    w = encodeFraming type ↔ (type = .leaf → f "leaf" = "leaf") := by
  cases type with
  | leaf =>
    rw [walkStrings_string h]
    simp [encodeFraming]
  | openCall callId =>
    obtain rfl := Option.some.inj h
    simp [encodeFraming]
  | closeCall callId =>
    obtain rfl := Option.some.inj h
    simp [encodeFraming]

theorem protocolOf_walk_event {f : String → String} {wire : WireEvent JsValue} {w : JsValue}
    (h : walkStrings f (encode (.event wire)) = some w) :
    protocolOf w = protocolOf (encode (.event wire)) ↔
      f "event" = "event" ∧ f wire.kind = wire.kind ∧ (wire.type = .leaf → f "leaf" = "leaf") := by
  have hevent : walkStrings f (encodeEvent wire) = some (w.get "event") :=
    get_walkStrings h "event" (by decide)
  have hframing := get_walkStrings hevent "type" (by decide)
  rw [get_type_encodeEvent] at hframing
  have hkind : (w.get "event").get "kind" = .string (f wire.kind) :=
    walkStrings_string (get_walkStrings hevent "kind" (by decide))
  have hid : w.get "id" = .undefined :=
    walkStrings_undefined (get_walkStrings h "id" (by decide))
  have hmethod : w.get "method" = .undefined :=
    walkStrings_undefined (get_walkStrings h "method" (by decide))
  have hsource : protocolOf (encode (.event wire)) =
      ⟨.string "event", encodeFraming wire.type, .string wire.kind, .undefined, .undefined, none⟩ := by
    rw [← get_type_encodeEvent wire]
    rfl
  rw [hsource]
  simp only [protocolOf, get_type_walk h, hkind, hid, hmethod, isQueueMethod, MessageProtocol.mk.injEq,
    JsValue.string.injEq, walkStrings_encodeFraming hframing, WorkerToMain.tag]
  simp only [Bool.false_eq_true, if_false, and_true]
  constructor
  · intro ⟨htype, hleaf, hkind⟩
    exact ⟨htype, hkind, hleaf⟩
  · intro ⟨htype, hkind, hleaf⟩
    exact ⟨htype, hleaf, hkind⟩

theorem queueArgs_walk_put {f : String → String} (args : PutArgs) {w : JsValue}
    (h : walkStrings f (encodePutArgs args) = some w) :
    queueArgs w = queueArgs (encodePutArgs args) ↔
      f args.repo = args.repo ∧ f args.invocationId = args.invocationId ∧
        f args.triggerKind = args.triggerKind ∧ f args.triggerName = args.triggerName := by
  have hrepo : w.get "repo" = .string (f args.repo) :=
    walkStrings_string (get_walkStrings h "repo" (by decide))
  have hinvocation : w.get "invocationId" = .string (f args.invocationId) :=
    walkStrings_string (get_walkStrings h "invocationId" (by decide))
  have htriggerKind : w.get "triggerKind" = .string (f args.triggerKind) :=
    walkStrings_string (get_walkStrings h "triggerKind" (by decide))
  have htriggerName : w.get "triggerName" = .string (f args.triggerName) :=
    walkStrings_string (get_walkStrings h "triggerName" (by decide))
  have hsource : queueArgs (encodePutArgs args) =
      [.string args.repo, .string args.invocationId, .string args.triggerKind,
        .string args.triggerName] := rfl
  rw [hsource]
  simp [queueArgs, hrepo, hinvocation, htriggerKind, htriggerName]

theorem queueArgs_walk_get {f : String → String} (args : GetArgs) {w : JsValue}
    (h : walkStrings f (encodeGetArgs args) = some w) :
    queueArgs w = queueArgs (encodeGetArgs args) ↔ f args.repo = args.repo := by
  have hrepo : w.get "repo" = .string (f args.repo) :=
    walkStrings_string (get_walkStrings h "repo" (by decide))
  have hinvocation : w.get "invocationId" = .undefined :=
    walkStrings_undefined (get_walkStrings h "invocationId" (by decide))
  have htriggerKind : w.get "triggerKind" = .undefined :=
    walkStrings_undefined (get_walkStrings h "triggerKind" (by decide))
  have htriggerName : w.get "triggerName" = .undefined :=
    walkStrings_undefined (get_walkStrings h "triggerName" (by decide))
  have hsource : queueArgs (encodeGetArgs args) =
      [.string args.repo, .undefined, .undefined, .undefined] := rfl
  rw [hsource]
  simp [queueArgs, hrepo, hinvocation, htriggerKind, htriggerName]

theorem protocolOf_walk_hostCall {f : String → String} {id : Nat} {call : HostCall} {w : JsValue}
    (h : walkStrings f (encode (.hostCallRequest id call)) = some w) :
    protocolOf w = protocolOf (encode (.hostCallRequest id call)) ↔
      f "host-call-request" = "host-call-request" ∧ f call.method = call.method ∧
        (isQueueMethod (.string call.method) = true →
          queueArgs ((w.get "args").at 0) = queueArgs (call.args[0]?.getD .undefined)) := by
  have hevent : w.get "event" = .undefined :=
    walkStrings_undefined (get_walkStrings h "event" (by decide))
  have hid : w.get "id" = .number (.ofNat id) :=
    (Option.some.inj (get_walkStrings h "id" (by decide))).symm
  have hmethod : w.get "method" = .string (f call.method) :=
    walkStrings_string (get_walkStrings h "method" (by decide))
  have hsource : protocolOf (encode (.hostCallRequest id call)) =
      ⟨.string "host-call-request", .undefined, .undefined, .number (.ofNat id), .string call.method,
        if isQueueMethod (.string call.method) then some (queueArgs (call.args[0]?.getD .undefined))
        else none⟩ := rfl
  have hwalked : protocolOf w =
      ⟨.string (f "host-call-request"), .undefined, .undefined, .number (.ofNat id),
        .string (f call.method),
        if isQueueMethod (.string (f call.method)) then some (queueArgs ((w.get "args").at 0))
        else none⟩ := by
    simp only [protocolOf, get_type_walk h, hevent, hid, hmethod]
    rfl
  rw [hsource, hwalked]
  simp only [MessageProtocol.mk.injEq, JsValue.string.injEq, true_and]
  constructor
  · intro ⟨htype, hm, hq⟩
    refine ⟨htype, hm, ?_⟩
    intro hqueue
    rw [hm] at hq
    simpa [hqueue] using hq
  · intro ⟨htype, hm, hq⟩
    refine ⟨htype, hm, ?_⟩
    rw [hm]
    by_cases hqueue : isQueueMethod (.string call.method) = true
    · simp [hqueue, hq hqueue]
    · simp [hqueue]

/-- A walk that returns keeps the protocol exactly when it leaves the protocol's words alone. -/
theorem protocolOf_walk_iff {f : String → String} {m : WorkerToMain} {w : JsValue}
    (h : walkStrings f (encode m) = some w) :
    protocolOf w = protocolOf (encode m) ↔ ∀ word ∈ protocolWords m, f word = word := by
  cases m with
  | ready =>
    rw [protocolOf_walk_plain h rfl rfl rfl]
    simp [protocolWords]
  | initError error =>
    rw [protocolOf_walk_plain h rfl rfl rfl]
    simp [protocolWords]
  | done payload =>
    rw [protocolOf_walk_plain h rfl rfl rfl]
    simp [protocolWords]
  | restoreFailed error =>
    rw [protocolOf_walk_plain h rfl rfl rfl]
    simp [protocolWords]
  | log level message info =>
    rw [protocolOf_walk_plain h (by cases info <;> rfl) (by cases info <;> rfl)
      (by cases info <;> rfl)]
    simp [protocolWords]
  | event wire =>
    rw [protocolOf_walk_event h]
    by_cases hleaf : wire.type = .leaf
    · simp [protocolWords, hleaf, WorkerToMain.tag]
    · simp [protocolWords, hleaf, WorkerToMain.tag]
  | hostCallRequest id call =>
    rw [protocolOf_walk_hostCall h]
    have harg := at_walkStrings (get_walkStrings h "args" (by decide)) 0
    cases call with
    | queuePut args =>
      have hput := queueArgs_walk_put args harg
      simp only [protocolWords, WorkerToMain.tag, HostCall.method, List.forall_mem_cons,
        List.not_mem_nil, false_implies, implies_true, and_true]
      rw [← hput]
      simp [isQueueMethod, HostCall.args]
    | queueGet args =>
      have hget := queueArgs_walk_get args harg
      simp only [protocolWords, WorkerToMain.tag, HostCall.method, List.forall_mem_cons,
        List.not_mem_nil, false_implies, implies_true, and_true]
      rw [← hget]
      simp [isQueueMethod, HostCall.args]
    | other method args hother =>
      simp [protocolWords, WorkerToMain.tag, HostCall.method, isQueueMethod, hother.1, hother.2]

/-! ## The message the main thread receives -/

def received (plaintexts : List String) (m : WorkerToMain) : JsValue := (post plaintexts (encode m)).1

theorem received_walk {plaintexts : List String} (hne : plaintexts ≠ []) (m : WorkerToMain) :
    received plaintexts m = (walkStrings (scrubString plaintexts) (encode m)).getD placeholderLog := by
  simp [received, post_eq_onPost, onPost, hne]

theorem protocolOf_placeholderLog_iff (m : WorkerToMain) :
    protocolOf placeholderLog = protocolOf (encode m) ↔ isLog m = true := by
  constructor
  · intro h
    have htype : JsValue.string "log" = .string m.tag := congrArg MessageProtocol.type h
    have htag : "log" = m.tag := by simpa using htype
    cases m with
    | log => rfl
    | ready | initError | event | done | restoreFailed | hostCallRequest =>
      simp [WorkerToMain.tag] at htag
  · intro h
    cases m with
    | log level message info => cases info <;> rfl
    | ready | initError | event | done | restoreFailed | hostCallRequest => cases h

/-- With every word of the protocol free of plaintexts the main thread reads the message it would
read without scrubbing; for words without the replacement's bracket that is the only way. -/
theorem protocol_received (plaintexts : List String) (m : WorkerToMain) :
    (Safe plaintexts m → protocolOf (received plaintexts m) = protocolOf (encode m)) ∧
      ((∀ w ∈ protocolWords m, '[' ∉ w.toList) →
        protocolOf (received plaintexts m) = protocolOf (encode m) → Safe plaintexts m) := by
  by_cases hnil : plaintexts = []
  · subst hnil
    refine ⟨fun _ => rfl, fun _ _ => ?_⟩
    unfold Safe
    split
    · exact fun w _ => intact_nil w
    · exact Or.inl rfl
  · rw [received_walk hnil]
    unfold Safe
    split
    · rename_i hacyclic
      have hsome : (walkStrings (scrubString plaintexts) (encode m)).isSome = true := by
        rw [isSome_walkStrings, hacyclic]
      obtain ⟨w, hw⟩ := Option.isSome_iff_exists.mp hsome
      rw [hw, Option.getD_some, protocolOf_walk_iff hw]
      constructor
      · intro h word hword
        exact scrubString_of_intact (h word hword)
      · intro hmark h word hword
        exact (scrubString_eq_iff plaintexts word (hmark word hword)).mp (h word hword)
    · rename_i hcyclic
      have hnone : walkStrings (scrubString plaintexts) (encode m) = none := by
        rw [← Option.isNone_iff_eq_none, ← Option.not_isSome, isSome_walkStrings]
        simpa using hcyclic
      rw [hnone, Option.getD_none, protocolOf_placeholderLog_iff]
      exact ⟨fun h => h.resolve_left hnil, fun _ h => Or.inr h⟩

/-! ## Walked events and results -/

theorem walkEntries_cons {f : String → String} {key : String} {v : JsValue}
    {fields fields' : List (String × JsValue)} (h : walkEntries f ((key, v) :: fields) = some fields')
    (hkey : key ≠ "__proto__") :
    ∃ w rest, walkStrings f v = some w ∧ walkEntries f fields = some rest ∧
      fields' = (key, w) :: rest := by
  rw [walkEntries] at h
  split at h
  · cases h
  · rename_i w hw
    obtain ⟨rest, hrest, rfl⟩ := Option.map_eq_some_iff.mp h
    exact ⟨w, rest, hw, hrest, by simp [hkey]⟩

theorem walkEntries_optional {f : String → String} {key : String}
    {o : Option JsValue} {fields fields' : List (String × JsValue)}
    (h : walkEntries f (optional key o ++ fields) = some fields') (hkey : key ≠ "__proto__") :
    ∃ o' rest, o.bind (walkStrings f) = o' ∧ walkEntries f fields = some rest ∧
      fields' = optional key o' ++ rest := by
  cases o with
  | none => exact ⟨none, fields', rfl, h, rfl⟩
  | some v =>
    obtain ⟨w, rest, hw, hrest, rfl⟩ := walkEntries_cons h hkey
    exact ⟨some w, rest, hw, hrest, rfl⟩

theorem bind_walkStrings_string (f : String → String) (o : Option String) :
    (o.map JsValue.string).bind (walkStrings f) = (o.map f).map JsValue.string := by
  cases o <;> rfl

theorem walkStrings_encodeEventError {f : String → String} {e : EventError JsValue} {w : JsValue}
    (h : walkStrings f (encodeEventError e) = some w) : ∃ e', w = encodeEventError e' := by
  obtain ⟨fields, h1, rfl⟩ := Option.map_eq_some_iff.mp h
  obtain ⟨message, rest, hmessage, h2, rfl⟩ := walkEntries_cons h1 (by decide)
  obtain ⟨stack, rest, hstack, h3, rfl⟩ := walkEntries_optional h2 (by decide)
  obtain ⟨issues, rest, hissues, h4, rfl⟩ := walkEntries_optional h3 (by decide)
  rw [← List.append_nil (optional "kind" _)] at h4
  obtain ⟨kind, rest, hkind, h5, rfl⟩ := walkEntries_optional h4 (by decide)
  obtain rfl := Option.some.inj h5
  rw [bind_walkStrings_string] at hstack hkind
  refine ⟨⟨f e.message, e.stack.map f, issues, e.kind.map f⟩, ?_⟩
  rw [walkStrings_string hmessage, ← hstack, ← hkind]
  simp [encodeEventError]

theorem walkStrings_encodeEvent {f : String → String} {wire : WireEvent JsValue} {w : JsValue}
    (h : walkStrings f (encodeEvent wire) = some w) (hleaf : wire.type = .leaf → f "leaf" = "leaf") :
    ∃ wire' : WireEvent JsValue,
      w = encodeEvent wire' ∧ wire'.type = wire.type ∧ wire'.kind = f wire.kind := by
  obtain ⟨fields, h1, rfl⟩ := Option.map_eq_some_iff.mp h
  obtain ⟨kind, rest, hkind, h2, rfl⟩ := walkEntries_cons h1 (by decide)
  obtain ⟨name, rest, hname, h3, rfl⟩ := walkEntries_cons h2 (by decide)
  obtain ⟨ts, rest, hts, h4, rfl⟩ := walkEntries_cons h3 (by decide)
  obtain ⟨atIso, rest, hat, h5, rfl⟩ := walkEntries_cons h4 (by decide)
  obtain ⟨input, rest, hinput, h6, rfl⟩ := walkEntries_optional h5 (by decide)
  obtain ⟨output, rest, houtput, h7, rfl⟩ := walkEntries_optional h6 (by decide)
  obtain ⟨error, rest, herror, h8, rfl⟩ := walkEntries_optional h7 (by decide)
  obtain ⟨type, rest, htype, h9, rfl⟩ := walkEntries_cons h8 (by decide)
  obtain rfl := Option.some.inj h9
  obtain rfl := Option.some.inj hts
  have herror' : ∃ error', error = Option.map encodeEventError error' := by
    cases hwire : wire.error with
    | none =>
      rw [hwire] at herror
      exact ⟨none, herror.symm⟩
    | some e =>
      rw [hwire] at herror
      cases hwalk : walkStrings f (encodeEventError e) with
      | none =>
        refine ⟨none, ?_⟩
        rw [← herror]
        simpa using hwalk
      | some w =>
        obtain ⟨e', rfl⟩ := walkStrings_encodeEventError hwalk
        refine ⟨some e', ?_⟩
        rw [← herror]
        simpa using hwalk
  obtain ⟨error', rfl⟩ := herror'
  refine ⟨⟨⟨f wire.kind, f wire.name, wire.ts, f wire.atIso, input, output, error'⟩, wire.type⟩, ?_, rfl, rfl⟩
  rw [walkStrings_string hkind, walkStrings_string hname, walkStrings_string hat,
    (walkStrings_encodeFraming htype).mpr hleaf]
  rfl

theorem walkStrings_encodePayload {f : String → String} {payload : RunResultPayload} {w : JsValue}
    (h : walkStrings f (encodePayload payload) = some w) : ∃ payload', w = encodePayload payload' := by
  cases payload with
  | ok result =>
    obtain ⟨fields, h1, rfl⟩ := Option.map_eq_some_iff.mp h
    obtain ⟨okField, rest, hok, h2, rfl⟩ := walkEntries_cons h1 (by decide)
    obtain ⟨result', rest, hresult, h3, rfl⟩ := walkEntries_cons h2 (by decide)
    obtain rfl := Option.some.inj h3
    obtain rfl := Option.some.inj hok
    exact ⟨.ok result', rfl⟩
  | failed message stack =>
    obtain rfl := Option.some.inj h
    exact ⟨.failed (f message) (f stack), rfl⟩

/-! ## A run on the main side -/

/-- What a message does to the run it arrives in. -/
inductive Heard where
  | stamp (wire : WireEvent JsValue)
  | settle (payload : RunResultPayload)
  | other

def heardOf : WorkerToMain → Heard
  | .event wire => .stamp wire
  | .done payload => .settle payload
  | _ => .other

/-- The main side takes the value for this event, this result, or neither. -/
def Hears (v : JsValue) : Heard → Prop
  | .stamp wire => v = encode (.event wire)
  | .settle payload => v = encode (.done payload)
  | .other => v.get "type" ≠ .string "event" ∧ v.get "type" ≠ .string "done"

structure MainRun where
  sequencer : RunSequencer
  stamped : List (SandboxEvent JsValue)
  settled : Option RunResultPayload

/-- `dispatchWireEvent` and the run's own `onMessage`. -/
def MainRun.hear (s : MainRun) : Heard → MainRun
  | .stamp wire =>
    let r := s.sequencer.next wire
    { s with sequencer := r.state, stamped := s.stamped ++ r.event.toList }
  | .settle payload =>
    match s.settled with
    | some _ => s
    | none =>
      { s with
        sequencer := (s.sequencer.finish none : FinishResult JsValue).state
        settled := some payload }
  | .other => s

/-- A run from `sequencer.start()` on. -/
def mainRun (heard : List Heard) : MainRun := heard.foldl MainRun.hear ⟨createRunSequencer.start.1, [], none⟩

def stampOf (event : SandboxEvent JsValue) : String × Nat × Option Nat := (event.kind, event.seq, event.ref)

/-- Same framing and kind, same settling. -/
def SameHeard : Heard → Heard → Prop
  | .stamp wire, .stamp wire' => wire'.type = wire.type ∧ wire'.kind = wire.kind
  | .settle _, .settle _ => True
  | .other, .other => True
  | _, _ => False

theorem encodeFraming_injective : Function.Injective encodeFraming := by
  intro a b h
  cases a with
  | leaf =>
    cases b with
    | leaf => rfl
    | openCall | closeCall => cases h
  | openCall callId =>
    cases b with
    | openCall callId' =>
      simp only [encodeFraming, JsValue.object.injEq, List.cons.injEq, Prod.mk.injEq,
        JsValue.number.injEq, true_and, and_true] at h
      rw [Numeral.ofNat_injective h]
    | leaf => cases h
    | closeCall => simp [encodeFraming] at h
  | closeCall callId =>
    cases b with
    | closeCall callId' =>
      simp only [encodeFraming, JsValue.object.injEq, List.cons.injEq, Prod.mk.injEq,
        JsValue.number.injEq, true_and, and_true] at h
      rw [Numeral.ofNat_injective h]
    | leaf => cases h
    | openCall => simp [encodeFraming] at h

theorem protocolOf_event (wire : WireEvent JsValue) :
    protocolOf (encode (.event wire)) =
      ⟨.string "event", encodeFraming wire.type, .string wire.kind, .undefined, .undefined, none⟩ := by
  rw [← get_type_encodeEvent wire]
  rfl

/-- Whatever the main side takes a value of the same protocol for, it treats it alike. -/
theorem sameHeard_of_protocol {m : WorkerToMain} {v : JsValue}
    (h : protocolOf v = protocolOf (encode m)) {heard : Heard} (hv : Hears v heard) :
    SameHeard (heardOf m) heard := by
  have htype : v.get "type" = .string m.tag := congrArg MessageProtocol.type h
  cases heard with
  | stamp wire' =>
    obtain rfl : v = encode (.event wire') := hv
    have htag : "event" = m.tag := JsValue.string.inj htype
    cases m with
    | event wire =>
      rw [protocolOf_event, protocolOf_event] at h
      simp only [MessageProtocol.mk.injEq, JsValue.string.injEq, and_true, true_and] at h
      exact ⟨encodeFraming_injective h.1, h.2⟩
    | ready | initError | done | restoreFailed | log | hostCallRequest => simp [WorkerToMain.tag] at htag
  | settle payload' =>
    obtain rfl : v = encode (.done payload') := hv
    have htag : "done" = m.tag := JsValue.string.inj htype
    cases m with
    | done payload => trivial
    | ready | initError | event | restoreFailed | log | hostCallRequest => simp [WorkerToMain.tag] at htag
  | other =>
    obtain ⟨hevent, hdone⟩ : v.get "type" ≠ .string "event" ∧ v.get "type" ≠ .string "done" := hv
    rw [htype] at hevent hdone
    cases m with
    | event => exact absurd rfl hevent
    | done => exact absurd rfl hdone
    | ready | initError | restoreFailed | log | hostCallRequest => trivial

theorem hears_encode (m : WorkerToMain) : Hears (encode m) (heardOf m) := by
  cases m with
  | event | done => rfl
  | ready | initError | restoreFailed | log | hostCallRequest =>
    constructor <;> simp [encode, JsValue.get, WorkerToMain.tag]

/-- A safe message is received as one that the main side can read. -/
theorem exists_heard {plaintexts : List String} {m : WorkerToMain} (h : Safe plaintexts m) :
    ∃ heard, Hears (received plaintexts m) heard := by
  by_cases hnil : plaintexts = []
  · subst hnil
    exact ⟨heardOf m, hears_encode m⟩
  · have hprotocol := (protocol_received plaintexts m).1 h
    have htype : (received plaintexts m).get "type" = .string m.tag :=
      congrArg MessageProtocol.type hprotocol
    have hwalk : isLog m = false → ∃ w, walkStrings (scrubString plaintexts) (encode m) = some w ∧
        received plaintexts m = w := by
      intro hlog
      have hacyclic : Acyclic (encode m) = true := by
        by_contra hcyclic
        simp [Safe, hcyclic, hnil, hlog] at h
      have hsome : (walkStrings (scrubString plaintexts) (encode m)).isSome = true := by
        rw [isSome_walkStrings, hacyclic]
      obtain ⟨w, hw⟩ := Option.isSome_iff_exists.mp hsome
      exact ⟨w, hw, by rw [received_walk hnil, hw, Option.getD_some]⟩
    cases m with
    | event wire =>
      obtain ⟨w, hw, hreceived⟩ := hwalk rfl
      have hkept := (protocolOf_walk_event hw).mp (by rw [← hreceived]; exact hprotocol)
      obtain ⟨fields, hfields, rfl⟩ := Option.map_eq_some_iff.mp hw
      obtain ⟨type, rest, htypeField, hrest, rfl⟩ := walkEntries_cons hfields (by decide)
      obtain ⟨event, rest', hevent, hnilRest, rfl⟩ := walkEntries_cons hrest (by decide)
      obtain rfl := Option.some.inj hnilRest
      obtain ⟨wire', rfl, _, _⟩ := walkStrings_encodeEvent hevent hkept.2.2
      refine ⟨.stamp wire', ?_⟩
      have htag : scrubString plaintexts "event" = "event" := hkept.1
      rw [hreceived, walkStrings_string htypeField]
      simp only [Hears, encode, WorkerToMain.fields, WorkerToMain.tag, htag]
    | done payload =>
      obtain ⟨w, hw, hreceived⟩ := hwalk rfl
      obtain ⟨fields, hfields, rfl⟩ := Option.map_eq_some_iff.mp hw
      obtain ⟨type, rest, htypeField, hrest, rfl⟩ := walkEntries_cons hfields (by decide)
      obtain ⟨payloadField, rest', hpayload, hnilRest, rfl⟩ := walkEntries_cons hrest (by decide)
      obtain rfl := Option.some.inj hnilRest
      obtain ⟨payload', rfl⟩ := walkStrings_encodePayload hpayload
      refine ⟨.settle payload', ?_⟩
      rw [hreceived] at htype ⊢
      have htag : type = .string "done" := htype
      rw [htag]
      rfl
    | ready | initError | restoreFailed | log | hostCallRequest =>
      refine ⟨.other, ?_⟩
      simp only [Hears]
      rw [htype]
      simp [WorkerToMain.tag]

/-- Sequencers that stamp alike: they differ in the names and kinds of open calls only. -/
structure SameSeqs (s t : RunSequencer) : Prop where
  seq : s.seq = t.seq
  refStack : s.refStack = t.refStack
  runActive : s.runActive = t.runActive
  opens : ∀ c, (s.callMap.get? c).map CallMapEntry.openSeq = (t.callMap.get? c).map CallMapEntry.openSeq

theorem SameSeqs.handleClose {s t : RunSequencer} (h : SameSeqs s t) {wire wire' : WireEvent JsValue}
    (hkind : wire'.kind = wire.kind) (callId : Nat) :
    SameSeqs (s.handleClose wire callId).state (t.handleClose wire' callId).state ∧
      (s.handleClose wire callId).event.map stampOf = (t.handleClose wire' callId).event.map stampOf := by
  have hopen := h.opens callId
  unfold RunSequencer.handleClose
  cases hs : s.callMap.get? callId with
  | none =>
    rw [hs] at hopen
    have ht : t.callMap.get? callId = none := by simpa using hopen.symm
    simp only [ht]
    exact ⟨h, trivial⟩
  | some entry =>
    rw [hs] at hopen
    obtain ⟨entry', ht, hseq⟩ : ∃ entry', t.callMap.get? callId = some entry' ∧
        entry'.openSeq = entry.openSeq := by simpa using hopen.symm
    simp only [ht]
    constructor
    · constructor
      · exact congrArg (· + 1) h.seq
      · simp only [h.refStack, hseq]
      · exact h.runActive
      · intro c
        simp only [OrderedMap.get?_delete]
        split
        · rfl
        · exact h.opens c
    · simp [stampOf, buildSandboxEvent, h.seq, hseq, hkind]

theorem SameSeqs.next {s t : RunSequencer} (h : SameSeqs s t) {wire wire' : WireEvent JsValue}
    (htype : wire'.type = wire.type) (hkind : wire'.kind = wire.kind) :
    SameSeqs (s.next wire).state (t.next wire').state ∧
      (s.next wire).event.map stampOf = (t.next wire').event.map stampOf := by
  unfold RunSequencer.next
  rw [← h.runActive, htype]
  split
  · cases wire.type with
    | leaf =>
      refine ⟨⟨congrArg (· + 1) h.seq, h.refStack, rfl, h.opens⟩, ?_⟩
      simp [stampOf, buildSandboxEvent, h.seq, h.refStack, hkind]
    | openCall callId =>
      refine ⟨⟨congrArg (· + 1) h.seq, ?_, rfl, ?_⟩, ?_⟩
      · simp only [h.refStack, h.seq]
      · intro c
        simp only [OrderedMap.get?_set]
        split
        · simp [h.seq]
        · exact h.opens c
      · simp [stampOf, buildSandboxEvent, h.seq, h.refStack, hkind]
    | closeCall callId =>
      have hseen : SameSeqs { s with lastSeenTs := wire.ts, lastSeenAt := wire.atIso }
          { t with
            runActive := s.runActive
            lastSeenTs := wire'.ts
            lastSeenAt := wire'.atIso } :=
        ⟨h.seq, h.refStack, rfl, h.opens⟩
      exact hseen.handleClose hkind callId
  · exact ⟨h, rfl⟩

structure SameRun (s t : MainRun) : Prop where
  sequencer : SameSeqs s.sequencer t.sequencer
  stamps : s.stamped.map stampOf = t.stamped.map stampOf
  settled : s.settled.isSome = t.settled.isSome

theorem SameRun.hear {s t : MainRun} (h : SameRun s t) {a b : Heard} (hab : SameHeard a b) :
    SameRun (s.hear a) (t.hear b) := by
  cases a with
  | stamp wire =>
    cases b with
    | stamp wire' =>
      obtain ⟨hseqs, hevent⟩ := h.sequencer.next hab.1 hab.2
      refine ⟨hseqs, ?_, h.settled⟩
      simp only [MainRun.hear, List.map_append, h.stamps]
      rw [← Option.toList_map, ← Option.toList_map, hevent]
    | settle | other => exact absurd hab id
  | settle payload =>
    cases b with
    | settle payload' =>
      have hsettled := h.settled
      simp only [MainRun.hear]
      cases hs : s.settled with
      | some p =>
        rw [hs] at hsettled
        obtain ⟨q, hq⟩ := Option.isSome_iff_exists.mp hsettled.symm
        simp only [hq]
        exact h
      | none =>
        rw [hs] at hsettled
        have ht : t.settled = none := by simpa using hsettled.symm
        simp only [ht]
        exact ⟨⟨rfl, rfl, rfl, fun _ => rfl⟩, h.stamps, rfl⟩
    | stamp | other => exact absurd hab id
  | other =>
    cases b with
    | other => exact h
    | stamp | settle => exact absurd hab id

theorem SameRun.foldl {s t : MainRun} (h : SameRun s t) {as bs : List Heard}
    (hab : List.Forall₂ SameHeard as bs) : SameRun (as.foldl MainRun.hear s) (bs.foldl MainRun.hear t) := by
  induction hab generalizing s t with
  | nil => exact h
  | cons hhead _ ih => exact ih (h.hear hhead)

theorem settled_foldl (heard : List Heard) (s : MainRun) :
    (heard.foldl MainRun.hear s).settled.isSome = true ↔
      s.settled.isSome = true ∨ ∃ payload, Heard.settle payload ∈ heard := by
  induction heard generalizing s with
  | nil => simp
  | cons a heard ih =>
    rw [List.foldl_cons, ih]
    cases a with
    | stamp wire => simp [MainRun.hear]
    | other => simp [MainRun.hear]
    | settle payload =>
      have hhear : (s.hear (.settle payload)).settled.isSome = true := by
        unfold MainRun.hear
        cases hs : s.settled with
        | some p => simp [hs]
        | none => rfl
      simp [hhear]

theorem mem_heardOf_settle (ms : List WorkerToMain) :
    (∃ payload, Heard.settle payload ∈ ms.map heardOf) ↔ ∃ payload, WorkerToMain.done payload ∈ ms := by
  constructor
  · rintro ⟨payload, h⟩
    obtain ⟨m, hm, heq⟩ := List.mem_map.mp h
    cases m with
    | done payload' => exact ⟨payload', hm⟩
    | ready | initError | event | restoreFailed | log | hostCallRequest => cases heq
  · rintro ⟨payload, h⟩
    exact ⟨payload, List.mem_map.mpr ⟨_, h, rfl⟩⟩

/-- A run of safe messages: the main side can read each of them, and however it reads them, it
stamps the kinds, seqs and refs of the unscrubbed run and settles if `done` was posted. -/
theorem run_received {plaintexts : List String} {ms : List WorkerToMain}
    (h : ∀ m ∈ ms, Safe plaintexts m) :
    (∃ heard, List.Forall₂ Hears (ms.map (received plaintexts)) heard) ∧
      ∀ heard, List.Forall₂ Hears (ms.map (received plaintexts)) heard →
        (mainRun heard).stamped.map stampOf = (mainRun (ms.map heardOf)).stamped.map stampOf ∧
        ((mainRun heard).settled.isSome = true ↔ ∃ payload, WorkerToMain.done payload ∈ ms) := by
  constructor
  · induction ms with
    | nil => exact ⟨[], .nil⟩
    | cons m ms ih =>
      obtain ⟨heard, hheard⟩ := ih fun m' hm' => h m' (List.mem_cons_of_mem m hm')
      obtain ⟨first, hfirst⟩ := exists_heard (h m List.mem_cons_self)
      exact ⟨first :: heard, .cons hfirst hheard⟩
  · intro heard hheard
    have hsame : List.Forall₂ SameHeard (ms.map heardOf) heard := by
      induction ms generalizing heard with
      | nil =>
        cases hheard
        exact .nil
      | cons m ms ih =>
        cases hheard with
        | cons hfirst hrest =>
          have hprotocol := (protocol_received plaintexts m).1 (h m List.mem_cons_self)
          refine .cons (sameHeard_of_protocol hprotocol hfirst) ?_
          exact ih (fun m' hm' => h m' (List.mem_cons_of_mem m hm')) _ hrest
    have hstart : SameRun ⟨createRunSequencer.start.1, [], none⟩ ⟨createRunSequencer.start.1, [], none⟩ :=
      ⟨⟨rfl, rfl, rfl, fun _ => rfl⟩, rfl, rfl⟩
    have hrun := hstart.foldl hsame
    refine ⟨hrun.stamps.symm, ?_⟩
    have hsettled : (mainRun heard).settled.isSome = (mainRun (ms.map heardOf)).settled.isSome :=
      hrun.settled.symm
    rw [hsettled, mainRun, settled_foldl, ← mem_heardOf_settle]
    simp

end WorkflowEngine.Runtime.SecretsPlugin
