import Mathlib.Data.List.Sort
import WorkflowEngine.Runtime.ActionDispatch
import WorkflowEngine.Runtime.EventRows
import WorkflowEngine.Runtime.Executor
import WorkflowEngine.Runtime.OperatorScopes
import WorkflowEngine.Runtime.TriggerRouting
import WorkflowEngine.Runtime.WorkflowRecovery

/-!
# Firing triggers by request

`validator.ts` and `build-fire.ts`, and the two handlers that wait for a fired trigger:
the webhooks of `http.ts` and `POST /trigger/…` of `ui/trigger/middleware.tsx`. Requests
are under way side by side, and uploads change the registry between any two steps. A
request is known by its position in `exchanges`; `log` records what others see of it.
-/

namespace WorkflowEngine.Runtime.Fire

open Lib Actions
set_option autoImplicit false

variable {Z B : Type}

/-! ## Values -/

mutual
/-- The value that a JSON text reads as; `numberOf` reads a numeral. -/
def toValue (numberOf : String → JsValue) : Json → JsValue
  | .null => .null
  | .bool b => .bool b
  | .number text => numberOf text
  | .string s => .string s
  | .array items => .array (toItems numberOf items)
  | .object fields => .object (toFields numberOf fields)

def toItems (numberOf : String → JsValue) : List Json → List JsValue
  | [] => []
  | item :: items => toValue numberOf item :: toItems numberOf items

def toFields (numberOf : String → JsValue) : List (String × Json) → List (String × JsValue)
  | [] => []
  | (key, item) :: fields => (key, toValue numberOf item) :: toFields numberOf fields
end

/-- `JSON.parse(JSON.stringify(value))`, or the value itself where that throws. -/
def structuredCloneJson (value : JsValue) : JsValue :=
  match value, stringify value with
  | .undefined, _ => .undefined
  | value, .ok (some text) => (jsonParse text).getD value
  | value, _ => value

/-! ## The fire closure -/

/-- `safeParse` is that of a rehydrated schema. -/
structure Settings (Z : Type) where
  options : WorkflowRegistryOptions Z
  safeParse : Z → JsValue → Except (List ZodIssue) JsValue
  numberOf : String → JsValue

def Settings.validate (settings : Settings Z) (descriptor : TriggerDescriptor Z) (rawInput : JsValue) :
    Except (List ValidationIssue) JsValue :=
  let copy := structuredCloneJson rawInput
  match settings.safeParse descriptor.zodInputSchema copy with
  | .ok data => .ok data
  | .error issues => .error (zodIssuesToValidationIssues issues copy)

def Settings.validateOutput (settings : Settings Z) (descriptor : TriggerDescriptor Z) (rawOutput : JsValue) :
    Except (List ValidationIssue) JsValue :=
  match settings.safeParse descriptor.zodOutputSchema rawOutput with
  | .ok data => .ok data
  | .error issues => .error (zodIssuesToValidationIssues issues rawOutput)

def issueSummaryLimit : Nat := 3

def summariseIssues (issues : List ValidationIssue) : String :=
  if issues.isEmpty then "schema mismatch"
  else
    let parts := (issues.take issueSummaryLimit).map fun i =>
      (if i.path.isEmpty then "/" else "/" ++ "/".intercalate (i.path.map PathSegment.text)) ++ ": " ++ i.message
    let extra := if issues.length > issueSummaryLimit then
        " (+" ++ toString (issues.length - issueSummaryLimit) ++ " more)" else ""
    "; ".intercalate parts ++ extra

/-- What `fire` does with the result of the run: a checked output is handed on as the handler returned it. -/
def Settings.afterInvoke (settings : Settings Z) (descriptor : TriggerDescriptor Z) :
    Executor.InvokeResult JsValue → Executor.InvokeResult JsValue
  | .error message stack => .error message stack
  | .ok output =>
    match settings.validateOutput descriptor output with
    | .ok _ => .ok output
    | .error issues => .error ("output validation: " ++ summariseIssues issues) none

/-! ## Answers -/

structure WireIssue where
  path : List PathSegment
  message : String

def toWireIssues (issues : List ValidationIssue) : List WireIssue := issues.map fun issue => ⟨issue.path, issue.message⟩

def reservedResponseHeaders : List String :=
  ["set-cookie", "set-cookie2", "location", "refresh", "clear-site-data", "authorization", "proxy-authenticate",
    "www-authenticate", "content-security-policy", "content-security-policy-report-only", "strict-transport-security",
    "x-content-type-options", "x-frame-options", "referrer-policy", "cross-origin-opener-policy",
    "cross-origin-resource-policy", "cross-origin-embedder-policy", "permissions-policy", "server", "x-powered-by"]

def isReservedResponseHeader (name : String) : Bool := reservedResponseHeaders.contains (toLowerCase name)

/-- `Object.entries(value ?? {})`. -/
def entriesOf : JsValue → List (String × JsValue)
  | .object fields | .builtin fields => fields
  | .array items => items.zipIdx.map fun item => (toString item.2, item.1)
  | .string s => s.toList.zipIdx.map fun c => (toString c.2, .string (String.ofList [c.1]))
  | _ => []

/-- The kept headers and the sorted names of the others. -/
def partitionHeaders (source : List (String × JsValue)) : List (String × JsValue) × List String :=
  (source.filter fun h => !isReservedResponseHeader h.1,
    ((source.filter fun h => isReservedResponseHeader h.1).map fun h => toLowerCase h.1).insertionSort (· ≤ ·))

def hasContentTypeHeader (headers : List (String × JsValue)) : Bool :=
  headers.any fun h => toLowerCase h.1 == "content-type"

def withContentType (headers : List (String × JsValue)) (contentType : String) : List (String × JsValue) :=
  if hasContentTypeHeader headers then headers else headers ++ [("content-type", .string contentType)]

structure HttpAnswer where
  status : JsValue
  headers : List (String × JsValue)
  body : Option String

def orElse (value fallback : JsValue) : JsValue :=
  match value with
  | .null | .undefined => fallback
  | value => value

/-- The response and the headers stripped from it; `none` where `JSON.stringify` throws. -/
def serializeHttpResult (output : JsValue) : Option (HttpAnswer × List String) :=
  let status := orElse (output.get "status") (.number (.ofNat 200))
  let (headers, stripped) := partitionHeaders (entriesOf (output.get "headers"))
  match output.get "body" with
  | .null | .undefined => some (⟨status, headers, none⟩, stripped)
  | .string body => some (⟨status, withContentType headers "text/plain; charset=UTF-8", some body⟩, stripped)
  | body =>
    match stringify body with
    | .ok text =>
      some (⟨status, withContentType headers "application/json; charset=UTF-8", text.map String.ofList⟩, stripped)
    | .error _ => none

/-- `uncaught` is the answer to a handler that throws. -/
inductive Answer where
  | next
  | body (status : Nat)
  | notFound
  | validationFailure (issues : List WireIssue)
  | internalError (details : Option (String × Option String))
  | http (answer : HttpAnswer)
  | fired (output : JsValue)
  | uncaught

/-- What `entry.exception` is called with. -/
structure Leaf where
  kind : String
  name : String
  input : List (String × JsValue)

def issuesValue (issues : List ValidationIssue) : JsValue := .array (issues.map ValidationIssue.toValue)

/-! ## Requests -/

structure ManualRequest where
  user : Option UserContext
  owner : String
  repo : String
  workflow : String
  trigger : String
  json : Option Json

inductive Inbound where
  | webhook (req : HttpRequest)
  | manual (req : ManualRequest)

/-- A request that has found its trigger; `input` is what `fire` is called with. -/
structure Call (Z : Type) where
  inbound : Inbound
  entry : TriggerEntry Z
  input : JsValue

/-- `c.get("user")` is set behind the session middleware. -/
def buildDispatch (user : Option UserContext) : DispatchMeta :=
  ⟨.manual, user.map fun user => ⟨user.login, user.mail⟩⟩

/-- The executor takes `{ source: "trigger" }` where `fire` is given no dispatch. -/
def dispatchOf : Inbound → DispatchMeta
  | .webhook _ => ⟨.trigger, none⟩
  | .manual req => buildDispatch req.user

/-- The event of a refused payload. -/
def rejectionLeaf (issues : List ValidationIssue) : Inbound → Leaf
  | .webhook req =>
    ⟨"trigger.rejection", "http.body-validation",
      [("issues", issuesValue issues), ("method", .string req.method), ("path", .string req.path)]⟩
  | .manual _ => ⟨"trigger.rejection", "manual.input-validation", [("issues", issuesValue issues)]⟩

def strippedLeaf (stripped : List String) : Leaf :=
  ⟨"trigger.exception", "http.response-header-stripped", [("stripped", .array (stripped.map .string))]⟩

def RawInput.toValue (numberOf : String → JsValue) (raw : RawInput) : JsValue :=
  .object [("body", Fire.toValue numberOf raw.body),
    ("headers", .object (raw.headers.entries.map fun h => (h.1, .string h.2))),
    ("url", .string raw.url), ("method", .string raw.method)]

def isEnvelope : JsValue → Bool
  | .object fields => fields.any (·.1 == "headers") && fields.all fun field => field.1 == "body" || field.1 == "headers"
  | _ => false

def wrapInputForDescriptor (descriptor : TriggerDescriptor Z) (posted : JsValue)
    (owner repo workflowName triggerName : String) : JsValue :=
  match descriptor.kind with
  | .http =>
    let (body, headers) :=
      if isEnvelope posted then
        (posted.get "body", match posted.get "headers" with
          | .object fields => .object fields
          | .array items => .array items
          | _ => .object [])
      else (posted, .object [])
    .object [("body", body), ("headers", headers),
      ("url", .string ("/webhooks/" ++ owner ++ "/" ++ repo ++ "/" ++ workflowName ++ "/" ++ triggerName)),
      ("method", ((descriptor.method).map JsValue.string).getD .undefined)]
  | .ws => .object [("data", posted)]
  | _ => posted

def invalidBody : List WireIssue := [⟨[.key "body"], "Invalid JSON body"⟩]

/-- The handlers up to the call of `fire`, or the answer that they give before it. -/
def arrive (settings : Settings Z) (g : Ingress Z B) : Inbound → Except Answer (Call Z)
  | .webhook req =>
    match g.http.handler req with
    | .next => .error .next
    | .body status => .error (.body status)
    | .notFound => .error .notFound
    | .validationFailure path message => .error (.validationFailure [⟨path.map .key, message⟩])
    | .fire entry input => .ok ⟨.webhook req, entry, RawInput.toValue settings.numberOf input⟩
  | .manual req =>
    if requireOwnerMember req.user req.owner (some req.repo) then
      match g.registry.getEntry req.owner req.repo req.workflow req.trigger with
      | none => .error .notFound
      | some entry =>
        match req.json with
        | none => .error (.validationFailure invalidBody)
        | some json =>
          let posted := toValue settings.numberOf json
          .ok ⟨.manual req, entry,
            wrapInputForDescriptor entry.descriptor posted req.owner req.repo req.workflow req.trigger⟩
    else .error .notFound

/-- The answer to a call whose `fire` has settled, and the headers that were stripped from it. -/
def answerTo (inbound : Inbound) (result : Executor.InvokeResult JsValue) : Answer × List String :=
  match inbound, result with
  | .webhook _, .error _ _ => (.internalError none, [])
  | .webhook _, .ok output =>
    match serializeHttpResult output with
    | none => (.uncaught, [])
    | some (answer, stripped) => (.http answer, stripped)
  | .manual _, .error message stack => (.internalError (some (message, stack)), [])
  | .manual _, .ok output =>
    match stringify (.object [("ok", .bool true), ("output", output)]) with
    | .ok _ => (.fired output, [])
    | .error _ => (.uncaught, [])

/-! ## Exchanges -/

/-- How far a request is: answered without a call; about to fire; waiting for the event of its refusal;
answered as refused; waiting for the run; waiting for the event of the stripped headers; answered
after the run, whose result is `none` where the executor threw. -/
inductive Progress (Z : Type) where
  | turnedAway (answer : Answer)
  | parsed (c : Call Z)
  | refusing (c : Call Z) (issues : List ValidationIssue)
  | refused (c : Call Z) (issues : List ValidationIssue) (recorded : Bool)
  | invoked (c : Call Z) (input : JsValue)
  | stripping (c : Call Z) (input : JsValue) (result : Executor.InvokeResult JsValue)
  | concluded (c : Call Z) (input : JsValue) (result : Option (Executor.InvokeResult JsValue)) (recorded : Bool)

structure Exchange (Z : Type) where
  inbound : Inbound
  progress : Progress Z

/-- What a request leads to: a run of the handler, an event of `entry.exception`, the answer. -/
inductive Effect (Z : Type) where
  | invoked (entry : TriggerEntry Z) (input : JsValue) (dispatch : DispatchMeta)
  | raised (entry : TriggerEntry Z) (leaf : Leaf)
  | answered (answer : Answer)

structure Server (Z B : Type) where
  ingress : Ingress Z B
  exchanges : List (Exchange Z)
  log : List (Nat × Effect Z)

/-- The answer once the event is recorded; a handler whose `await entry.exception(…)` rejects throws. -/
def unlessThrown (recorded : Bool) (answer : Answer) : Answer := if recorded then answer else .uncaught

namespace Server

/-- Before the first bundle is read from the storage; a bundle that is read is an upload without a tarball. -/
def boot (storage : OrderedMap String B) (rows : List QueueRow) : Server Z B :=
  ⟨.boot (.boot storage rows) false, [], []⟩

def request (settings : Settings Z) (s : Server Z B) (inbound : Inbound) : Server Z B :=
  let (progress, effects) := match arrive settings s.ingress inbound with
    | .error answer => (Progress.turnedAway answer, [Effect.answered answer])
    | .ok c => (.parsed c, [])
  { s with
    exchanges := s.exchanges ++ [⟨inbound, progress⟩]
    log := s.log ++ effects.map (Prod.mk s.exchanges.length) }

def put (s : Server Z B) (i : Nat) (x : Exchange Z) (progress : Progress Z) (effects : List (Effect Z)) : Server Z B :=
  { s with
    exchanges := s.exchanges.set i { x with progress := progress }
    log := s.log ++ effects.map (Prod.mk i) }

def fire (settings : Settings Z) (s : Server Z B) (i : Nat) : Option (Server Z B) := do
  let x ← s.exchanges[i]?
  match x.progress with
  | .parsed c =>
    match settings.validate c.entry.descriptor c.input with
    | .error issues => some (s.put i x (.refusing c issues) [.raised c.entry (rejectionLeaf issues c.inbound)])
    | .ok input => some (s.put i x (.invoked c input) [.invoked c.entry input (dispatchOf c.inbound)])
  | _ => none

/-- The promise of `executor.invoke` settles; `none` stands for a rejection. -/
def invokeSettles (settings : Settings Z) (s : Server Z B) (i : Nat) (result : Option (Executor.InvokeResult JsValue)) :
    Option (Server Z B) := do
  let x ← s.exchanges[i]?
  match x.progress with
  | .invoked c input =>
    match result with
    | none => some (s.put i x (.concluded c input none true) [.answered .uncaught])
    | some result =>
      let fired := settings.afterInvoke c.entry.descriptor result
      let (answer, stripped) := answerTo c.inbound fired
      if stripped.isEmpty then some (s.put i x (.concluded c input (some result) true) [.answered answer])
      else some (s.put i x (.stripping c input result) [.raised c.entry (strippedLeaf stripped)])
  | _ => none

/-- The promise of `entry.exception` settles. -/
def exceptionSettles (settings : Settings Z) (s : Server Z B) (i : Nat) (recorded : Bool) : Option (Server Z B) := do
  let x ← s.exchanges[i]?
  match x.progress with
  | .refusing c issues =>
    some (s.put i x (.refused c issues recorded)
      [.answered (unlessThrown recorded (.validationFailure (toWireIssues issues)))])
  | .stripping c input result =>
    let answer := (answerTo c.inbound (settings.afterInvoke c.entry.descriptor result)).1
    some (s.put i x (.concluded c input (some result) recorded) [.answered (unlessThrown recorded answer)])
  | _ => none

end Server

inductive ServerAction (B : Type) where
  | upload (u : RepoUpload B)
  | markReady
  | request (inbound : Inbound)
  | fire (i : Nat)
  | invokeSettles (i : Nat) (result : Option (Executor.InvokeResult JsValue))
  | exceptionSettles (i : Nat) (recorded : Bool)

def step (settings : Settings Z) (s : Server Z B) : ServerAction B → Option (Server Z B)
  | .upload u => some { s with ingress := (s.ingress.registerOwner settings.options u).1 }
  | .markReady => some { s with ingress := { s.ingress with http := { s.ingress.http with ready := true } } }
  | .request inbound => some (s.request settings inbound)
  | .fire i => s.fire settings i
  | .invokeSettles i result => s.invokeSettles settings i result
  | .exceptionSettles i recorded => s.exceptionSettles settings i recorded

/-! ## What holds in a run -/

section Runs
variable {settings : Settings Z} {s t : Server Z B} {i : Nat}

/-- What the log must have of a request. -/
def Progress.history (settings : Settings Z) : Progress Z → List (Effect Z)
  | .turnedAway answer => [.answered answer]
  | .parsed _ => []
  | .refusing c issues => [.raised c.entry (rejectionLeaf issues c.inbound)]
  | .refused c issues recorded =>
    [.raised c.entry (rejectionLeaf issues c.inbound),
      .answered (unlessThrown recorded (.validationFailure (toWireIssues issues)))]
  | .invoked c input => [.invoked c.entry input (dispatchOf c.inbound)]
  | .stripping c input result =>
    [.invoked c.entry input (dispatchOf c.inbound),
      .raised c.entry (strippedLeaf (answerTo c.inbound (settings.afterInvoke c.entry.descriptor result)).2)]
  | .concluded c input none _ => [.invoked c.entry input (dispatchOf c.inbound), .answered .uncaught]
  | .concluded c input (some result) recorded =>
    let (answer, stripped) := answerTo c.inbound (settings.afterInvoke c.entry.descriptor result)
    .invoked c.entry input (dispatchOf c.inbound) ::
      ((if stripped.isEmpty then [] else [.raised c.entry (strippedLeaf stripped)]) ++
        [.answered (unlessThrown recorded answer)])

def history (settings : Settings Z) (s : Server Z B) (i : Nat) : List (Effect Z) :=
  (s.exchanges[i]?.map fun x => x.progress.history settings).getD []

def Progress.call : Progress Z → Option (Call Z)
  | .turnedAway _ => none
  | .parsed c | .refusing c _ | .refused c _ _ | .invoked c _ | .stripping c _ _ | .concluded c _ _ _ => some c

/-- The trigger belongs to the repo that the request names, who fires it by hand is a member of its owner, and
the input is made of the request. -/
def Asked (settings : Settings Z) (c : Call Z) : Inbound → Prop
  | .webhook req =>
    (∃ k : ScopeKey, req.path = HttpTriggerSource.urlOf k ∧ c.entry.owner = k.owner ∧ c.entry.repo = k.repo) ∧
      c.entry.descriptor.method = some req.method ∧
      ∃ body, parseBody req = .ok body ∧
        c.input = RawInput.toValue settings.numberOf ⟨body, headersToRecord req.headers, req.url, req.method⟩
  | .manual req =>
    c.entry.owner = req.owner ∧ c.entry.repo = req.repo ∧ requireOwnerMember req.user req.owner (some req.repo) = true ∧
      ∃ json, req.json = some json ∧ c.input =
        wrapInputForDescriptor c.entry.descriptor (toValue settings.numberOf json) req.owner req.repo req.workflow
          req.trigger

/-- The answers that a handler gives before it calls `fire`. -/
def Answer.early : Answer → Bool
  | .next | .body _ | .notFound | .validationFailure _ => true
  | _ => false

def Progress.Checked (settings : Settings Z) : Progress Z → Prop
  | .turnedAway answer => answer.early = true
  | .parsed _ => True
  | .refusing c issues | .refused c issues _ => settings.validate c.entry.descriptor c.input = .error issues
  | .invoked c input | .concluded c input _ _ => settings.validate c.entry.descriptor c.input = .ok input
  | .stripping c input result => settings.validate c.entry.descriptor c.input = .ok input ∧
      (answerTo c.inbound (settings.afterInvoke c.entry.descriptor result)).2 ≠ []

structure Kept (settings : Settings Z) (x : Exchange Z) : Prop where
  asked : ∀ c ∈ x.progress.call, c.inbound = x.inbound ∧ Asked settings c x.inbound
  checked : x.progress.Checked settings

/-- What the registry has of a repo belongs to the repo. -/
def OwnedStates (r : Registry Z B) : Prop := ∀ owner repo state, r.getRepoState owner repo = some state →
  ∀ key entry, state.entries.get? key = some entry → entry.owner = owner ∧ entry.repo = repo

structure Inv (settings : Settings Z) (s : Server Z B) : Prop where
  http : s.ingress.http.pairs.Owned
  ws : s.ingress.ws.entries.Owned
  states : OwnedStates s.ingress.registry
  kept : ∀ (i : Nat) (x : Exchange Z), s.exchanges[i]? = some x → Kept settings x

/-! ### Uploads -/

theorem owner_of_prepared {options : WorkflowRegistryOptions Z} {owner repo : String} {files : OrderedMap String String}
    {state : OwnerRepoState Z} (h : prepareOwnerRepoState options owner repo files = .ok (.ok state)) {key : String}
    {entry : TriggerEntry Z} (hentry : state.entries.get? key = some entry) :
    entry.owner = owner ∧ entry.repo = repo := by
  obtain ⟨raw, manifest, -, -, regs, -, hregs, hentries⟩ := prepareOwnerRepoState_entries h
  rw [hentries] at hentry
  rcases OrderedMap.mem_of_get?_foldl_set _ _ regs hentry with ⟨x, hx, -, rfl⟩ | hnone
  · obtain ⟨howner, hrepo, -⟩ := entryOf_eq_some (hregs x hx).1
    exact ⟨howner, hrepo⟩
  · simp at hnone

theorem ownerStates_applyQueueLifecycle (r : Registry Z B) (delete : DeleteOutcomes) (owner repo : String)
    (state : OwnerRepoState Z) :
    (r.applyQueueLifecycle delete owner repo state).1.ownerStates = r.ownerStates ∨
      (r.applyQueueLifecycle delete owner repo state).1.ownerStates =
        (r.setRepoState owner repo state).ownerStates := by
  unfold Registry.applyQueueLifecycle
  dsimp only
  split
  · exact Or.inl rfl
  · exact Or.inr rfl

theorem ownerStates_persistAndSwap (r : Registry Z B) (outcomes : UploadOutcomes) (owner repo : String)
    (state : OwnerRepoState Z) (tarballBytes : Option B) :
    (r.persistAndSwap outcomes owner repo state tarballBytes).1.ownerStates = r.ownerStates ∨
      (r.persistAndSwap outcomes owner repo state tarballBytes).1.ownerStates =
        (r.setRepoState owner repo state).ownerStates := by
  unfold Registry.persistAndSwap
  split
  · exact ownerStates_applyQueueLifecycle r outcomes.delete owner repo state
  · split
    · exact Or.inl rfl
    · exact ownerStates_applyQueueLifecycle (r.persistTarball owner repo _) outcomes.delete owner repo state

/-- An upload leaves the states alone, or it puts the prepared one in place. -/
theorem ownerStates_registerOwner (options : WorkflowRegistryOptions Z) (outcomes : UploadOutcomes) (r : Registry Z B)
    (owner repo : String) (files : OrderedMap String String) (tarballBytes : Option B) :
    (r.registerOwner options outcomes owner repo files tarballBytes).1.ownerStates = r.ownerStates ∨
      ∃ state, prepareOwnerRepoState options owner repo files = .ok (.ok state) ∧
        (r.registerOwner options outcomes owner repo files tarballBytes).1.ownerStates =
          (r.setRepoState owner repo state).ownerStates := by
  unfold Registry.registerOwner
  split
  · exact Or.inl rfl
  · exact Or.inl rfl
  · rename_i state hprepared
    obtain ⟨hstates, -, -⟩ :=
      Registry.reconfigureBackends_frame r options.backends outcomes.reconfigure owner repo state
    dsimp only
    split
    · exact Or.inl hstates
    · rcases ownerStates_persistAndSwap (r.reconfigureBackends options.backends outcomes.reconfigure owner repo state)
        outcomes owner repo state tarballBytes with h | h
      · exact Or.inl (h.trans hstates)
      · exact Or.inr ⟨state, hprepared, by rw [h]; simp only [Registry.setRepoState, hstates]⟩

theorem OwnedStates.registerOwner {r : Registry Z B} (h : OwnedStates r) (options : WorkflowRegistryOptions Z)
    (outcomes : UploadOutcomes) (owner repo : String) (files : OrderedMap String String) (tarballBytes : Option B) :
    OwnedStates (r.registerOwner options outcomes owner repo files tarballBytes).1 := by
  intro owner' repo' state' hget key entry hentry
  have hread : ∀ {r' : Registry Z B}, (r.registerOwner options outcomes owner repo files tarballBytes).1.ownerStates =
      r'.ownerStates → r'.getRepoState owner' repo' = some state' := by
    intro r' hstates
    simpa only [Registry.getRepoState, hstates] using hget
  rcases ownerStates_registerOwner options outcomes r owner repo files tarballBytes with
    hstates | ⟨state, hprepared, hstates⟩
  · exact h owner' repo' state' (hread hstates) key entry hentry
  · have hget' := hread hstates
    rw [Registry.getRepoState_setRepoState] at hget'
    split at hget'
    · rename_i hsame
      obtain ⟨rfl, rfl⟩ := hsame
      cases hget'
      exact owner_of_prepared hprepared hentry
    · exact h owner' repo' state' hget' key entry hentry

/-! ### Steps -/

theorem rawInput_of_handler {source : HttpTriggerSource Z} {req : HttpRequest} {entry : TriggerEntry Z}
    {input : RawInput} (h : source.handler req = .fire entry input) :
    ∃ body, parseBody req = .ok body ∧ input = ⟨body, headersToRecord req.headers, req.url, req.method⟩ := by
  unfold HttpTriggerSource.handler HttpTriggerSource.route at h
  dsimp only at h
  repeat' split at h
  all_goals cases h
  rename_i body hbody _ _
  exact ⟨body, hbody, rfl⟩

theorem asked_of_arrive {g : Ingress Z B} (hhttp : g.http.pairs.Owned) (hstates : OwnedStates g.registry)
    {inbound : Inbound} {c : Call Z} (h : arrive settings g inbound = .ok c) :
    c.inbound = inbound ∧ Asked settings c inbound := by
  cases inbound with
  | webhook req =>
    dsimp only [arrive] at h
    split at h
    case h_5 entry input hfire =>
      cases h
      obtain ⟨k, hpath, howner, hrepo, -, -, hlookup, hmethod⟩ := HttpTriggerSource.fire_of_handler hfire
      obtain ⟨heo, her⟩ := hhttp _ _ _ _ _ (plain_of_ownerNameRe howner) (plain_of_repoNameRe hrepo) hlookup
      obtain ⟨body, hbody, hinput⟩ := rawInput_of_handler hfire
      exact ⟨rfl, ⟨k, hpath, heo, her⟩, hmethod, body, hbody, congrArg (RawInput.toValue settings.numberOf) hinput⟩
    all_goals cases h
  | manual req =>
    dsimp only [arrive] at h
    split at h
    · rename_i hmember
      split at h
      · cases h
      · rename_i entry hentry
        split at h
        · cases h
        · rename_i json hjson
          cases h
          obtain ⟨state, hstate, hget⟩ := Option.bind_eq_some_iff.mp hentry
          obtain ⟨heo, her⟩ := hstates _ _ state hstate _ entry hget
          exact ⟨rfl, heo, her, hmember, json, hjson, rfl⟩
    · cases h

theorem early_of_arrive {g : Ingress Z B} {inbound : Inbound} {answer : Answer}
    (h : arrive settings g inbound = .error answer) : answer.early = true := by
  cases inbound with
  | webhook req =>
    dsimp only [arrive] at h
    split at h <;> cases h <;> rfl
  | manual req =>
    dsimp only [arrive] at h
    split at h
    · split at h
      · cases h
        rfl
      · split at h
        · cases h
          rfl
        · cases h
    · cases h
      rfl

theorem request_spec (h : Inv settings s) (inbound : Inbound) :
    Inv settings (s.request settings inbound) ∧
      Appends Server.log (history settings) s (s.request settings inbound) := by
  have hnew : ∃ x : Exchange Z, ∃ effects : List (Effect Z), Kept settings x ∧ x.progress.history settings = effects ∧
      s.request settings inbound = { s with
        exchanges := s.exchanges ++ [x], log := s.log ++ effects.map (Prod.mk s.exchanges.length) } := by
    unfold Server.request
    cases harrive : arrive settings s.ingress inbound with
    | error answer => exact ⟨⟨inbound, .turnedAway answer⟩, _, ⟨nofun, early_of_arrive harrive⟩, rfl, rfl⟩
    | ok c =>
      refine ⟨⟨inbound, .parsed c⟩, _, ⟨?_, trivial⟩, rfl, rfl⟩
      intro c' hc'
      cases hc'
      exact asked_of_arrive h.http h.states harrive
  obtain ⟨x, effects, hkept, hhistory, heq⟩ := hnew
  rw [heq]
  refine ⟨⟨h.http, h.ws, h.states, ?_⟩, s.exchanges.length, effects, rfl, ?_, ?_⟩
  · intro j y hy
    rcases getElem?_snoc_cases hy with hy | ⟨-, rfl⟩
    · exact h.kept j y hy
    · exact hkept
  · simpa [history] using hhistory
  · intro j hj
    have hget : (s.exchanges ++ [x])[j]? = s.exchanges[j]? := by
      rcases Nat.lt_or_gt_of_ne hj with hlt | hgt
      · exact List.getElem?_append_left hlt
      · rw [List.getElem?_eq_none (by simp; omega), List.getElem?_eq_none (by omega)]
    simp only [history]
    rw [hget]

/-- One request goes on with the same call. -/
theorem put_spec (h : Inv settings s) {x : Exchange Z} (hx : s.exchanges[i]? = some x) {progress : Progress Z}
    {effects : List (Effect Z)} (hcall : progress.call = x.progress.call) (hchecked : progress.Checked settings)
    (hhistory : progress.history settings = x.progress.history settings ++ effects) :
    Inv settings (s.put i x progress effects) ∧
      Appends Server.log (history settings) s (s.put i x progress effects) := by
  have hlt := lt_of_getElem?_eq_some hx
  refine ⟨⟨h.http, h.ws, h.states, ?_⟩, i, effects, rfl, ?_, ?_⟩
  · intro j y hy
    rcases getElem?_set_cases hy with ⟨-, rfl⟩ | ⟨-, hy⟩
    · exact ⟨fun c hc => (h.kept i x hx).asked c (hcall ▸ hc), hchecked⟩
    · exact h.kept j y hy
  · have hset : (s.exchanges.set i { x with progress := progress })[i]? = some { x with progress := progress } := by
      simp [hlt]
    simp only [history, Server.put, hset, hx, Option.map_some, Option.getD_some, hhistory]
  · intro j hj
    simp [history, Server.put, List.getElem?_set_ne (Ne.symm hj)]

theorem fire_spec (h : Inv settings s) (ht : s.fire settings i = some t) :
    Inv settings t ∧ Appends Server.log (history settings) s t := by
  unfold Server.fire at ht
  obtain ⟨x, hx, ht⟩ := Option.bind_eq_some_iff.mp ht
  split at ht
  · rename_i c hprogress
    split at ht
    · rename_i issues hissues
      cases ht
      exact put_spec h hx (by rw [hprogress]; rfl) hissues (by rw [hprogress]; rfl)
    · rename_i input hinput
      cases ht
      exact put_spec h hx (by rw [hprogress]; rfl) hinput (by rw [hprogress]; rfl)
  · cases ht

theorem invokeSettles_spec (h : Inv settings s) {result : Option (Executor.InvokeResult JsValue)}
    (ht : s.invokeSettles settings i result = some t) :
    Inv settings t ∧ Appends Server.log (history settings) s t := by
  unfold Server.invokeSettles at ht
  obtain ⟨x, hx, ht⟩ := Option.bind_eq_some_iff.mp ht
  have hkept := h.kept i x hx
  split at ht
  · rename_i c input hprogress
    have hinput : settings.validate c.entry.descriptor c.input = .ok input := by
      have hchecked := hkept.checked
      rw [hprogress] at hchecked
      exact hchecked
    cases result with
    | none =>
      cases ht
      exact put_spec h hx (by rw [hprogress]; rfl) hinput (by rw [hprogress]; rfl)
    | some result =>
      dsimp only at ht
      split at ht
      · rename_i hstripped
        cases ht
        refine put_spec h hx (by rw [hprogress]; rfl) hinput ?_
        rw [hprogress]
        simp [Progress.history, hstripped, unlessThrown]
      · rename_i hstripped
        cases ht
        refine put_spec h hx (by rw [hprogress]; rfl) ⟨hinput, ?_⟩ (by rw [hprogress]; rfl)
        intro hnil
        exact hstripped (by rw [hnil]; rfl)
  · cases ht

theorem exceptionSettles_spec (h : Inv settings s) {recorded : Bool}
    (ht : s.exceptionSettles settings i recorded = some t) :
    Inv settings t ∧ Appends Server.log (history settings) s t := by
  unfold Server.exceptionSettles at ht
  obtain ⟨x, hx, ht⟩ := Option.bind_eq_some_iff.mp ht
  have hchecked := (h.kept i x hx).checked
  split at ht
  · rename_i c issues hprogress
    cases ht
    rw [hprogress] at hchecked
    exact put_spec h hx (by rw [hprogress]; rfl) hchecked (by rw [hprogress]; rfl)
  · rename_i c input result hprogress
    cases ht
    rw [hprogress] at hchecked
    obtain ⟨hinput, hstripped⟩ := hchecked
    refine put_spec h hx (by rw [hprogress]; rfl) hinput ?_
    rw [hprogress]
    simp [Progress.history, hstripped]
  · cases ht

theorem step_spec (h : Inv settings s) {a : ServerAction B} (ht : step settings s a = some t) :
    Inv settings t ∧ Appends Server.log (history settings) s t := by
  cases a with
  | upload u =>
    cases ht
    obtain ⟨hhttp, hws⟩ := owned_registerOwner settings.options u h.http h.ws
    refine ⟨⟨hhttp, hws, ?_, h.kept⟩, .silent rfl fun _ => rfl⟩
    exact h.states.registerOwner settings.options u.outcomes u.owner u.repo u.files u.tarballBytes
  | markReady =>
    cases ht
    exact ⟨⟨h.http, h.ws, h.states, h.kept⟩, .silent rfl fun _ => rfl⟩
  | request inbound =>
    cases ht
    exact request_spec h inbound
  | fire i => exact fire_spec h ht
  | invokeSettles i result => exact invokeSettles_spec h ht
  | exceptionSettles i recorded => exact exceptionSettles_spec h ht

theorem inv_boot (storage : OrderedMap String B) (rows : List QueueRow) :
    Inv settings (Server.boot storage rows : Server Z B) := by
  refine ⟨owned_empty, owned_empty, ?_, ?_⟩
  · intro owner repo state hget
    cases hget
  · intro i x hx
    cases hx

theorem run_spec {storage : OrderedMap String B} {rows : List QueueRow} {as : List (ServerAction B)}
    (h : exec (step settings) (Server.boot storage rows) as = some s) :
    Inv settings s ∧ ∀ i, lane i s.log = history settings s i := by
  have hboot : Inv settings (Server.boot storage rows : Server Z B) := inv_boot storage rows
  constructor
  · exact exec_invariant (fun s a t hs ht => (step_spec hs ht).1) hboot h
  · exact lane_eq_history (fun s a t hs ht => (step_spec hs ht).1) (fun s a t hs ht => (step_spec hs ht).2) hboot
      (fun _ => rfl) h

/-! ### Answers -/

def Effect.rank : Effect Z → Nat
  | .invoked .. => 0
  | .raised .. => 1
  | .answered _ => 2

theorem not_reserved_contentType : isReservedResponseHeader "content-type" = false := by decide

theorem not_reserved_withContentType {headers : List (String × JsValue)} {contentType : String}
    (h : ∀ header ∈ headers, isReservedResponseHeader header.1 = false) :
    ∀ header ∈ withContentType headers contentType, isReservedResponseHeader header.1 = false := by
  intro header hmem
  unfold withContentType at hmem
  split at hmem
  · exact h header hmem
  · rcases List.mem_append.mp hmem with hmem | hmem
    · exact h header hmem
    · rw [List.mem_singleton.mp hmem]
      exact not_reserved_contentType

theorem not_reserved_of_serialize {output : JsValue} {answer : HttpAnswer} {stripped : List String}
    (h : serializeHttpResult output = some (answer, stripped)) :
    ∀ header ∈ answer.headers, isReservedResponseHeader header.1 = false := by
  have hkept : ∀ header ∈ (partitionHeaders (entriesOf (output.get "headers"))).1,
      isReservedResponseHeader header.1 = false := by
    intro header hmem
    have hp := (List.mem_filter.mp hmem).2
    simpa using hp
  unfold serializeHttpResult at h
  dsimp only at h
  split at h
  · cases h
    exact hkept
  · cases h
    exact hkept
  · cases h
    exact not_reserved_withContentType hkept
  · split at h
    · cases h
      exact not_reserved_withContentType hkept
    · cases h

theorem ok_of_afterInvoke {descriptor : TriggerDescriptor Z} {result : Executor.InvokeResult JsValue} {output : JsValue}
    (h : settings.afterInvoke descriptor result = .ok output) :
    result = .ok output ∧ ∃ data, settings.validateOutput descriptor output = .ok data := by
  cases result with
  | error message stack => cases h
  | ok value =>
    dsimp only [Settings.afterInvoke] at h
    split at h
    · rename_i data hdata
      cases h
      exact ⟨rfl, data, hdata⟩
    · cases h

/-- What a fired trigger is answered with. -/
inductive Answered : Inbound → Executor.InvokeResult JsValue → Answer → List String → Prop
  | http {req : HttpRequest} {output : JsValue} {answer : HttpAnswer} {stripped : List String}
      (h : serializeHttpResult output = some (answer, stripped)) :
      Answered (.webhook req) (.ok output) (.http answer) stripped
  | fired {req : ManualRequest} {output : JsValue} : Answered (.manual req) (.ok output) (.fired output) []
  | opaqueError {req : HttpRequest} {message : String} {stack : Option String} :
      Answered (.webhook req) (.error message stack) (.internalError none) []
  | detailedError {req : ManualRequest} {message : String} {stack : Option String} :
      Answered (.manual req) (.error message stack) (.internalError (some (message, stack))) []
  | uncaught {inbound : Inbound} {output : JsValue} : Answered inbound (.ok output) .uncaught []

theorem answered_answerTo (inbound : Inbound) (result : Executor.InvokeResult JsValue) :
    Answered inbound result (answerTo inbound result).1 (answerTo inbound result).2 := by
  unfold answerTo
  split
  · exact .opaqueError
  · split
    · exact .uncaught
    · rename_i h
      exact .http h
  · exact .detailedError
  · split
    · exact .fired
    · exact .uncaught

theorem early_answerTo (inbound : Inbound) (result : Executor.InvokeResult JsValue) :
    (answerTo inbound result).1.early = false := by
  have hanswered := answered_answerTo inbound result
  generalize (answerTo inbound result).1 = answer at hanswered
  generalize (answerTo inbound result).2 = stripped at hanswered
  cases hanswered <;> rfl

theorem serialized_of_stripped {inbound : Inbound} {result : Executor.InvokeResult JsValue}
    (h : (answerTo inbound result).2 ≠ []) :
    ∃ req output answer, inbound = .webhook req ∧ result = .ok output ∧
      serializeHttpResult output = some (answer, (answerTo inbound result).2) := by
  have hanswered := answered_answerTo inbound result
  generalize (answerTo inbound result).1 = answer at hanswered
  generalize (answerTo inbound result).2 = stripped at hanswered h
  cases hanswered with
  | http hserialize => exact ⟨_, _, _, rfl, rfl, hserialize⟩
  | fired | opaqueError | detailedError | uncaught => exact absurd rfl h

/-! ### Histories -/

variable {p : Progress Z}

/-- The run, then the event, then the answer, none of them twice. -/
theorem rank_history (p : Progress Z) : ((p.history settings).map Effect.rank).Pairwise (· < ·) := by
  cases p with
  | turnedAway | parsed | refusing | refused | invoked | stripping => simp [Progress.history, Effect.rank]
  | concluded c input result recorded =>
    cases result with
    | none => simp [Progress.history, Effect.rank]
    | some result =>
      dsimp only [Progress.history]
      split <;> simp [Effect.rank]

theorem mem_history_invoked {entry : TriggerEntry Z} {input : JsValue} {dispatch : DispatchMeta}
    (h : .invoked entry input dispatch ∈ p.history settings) (hchecked : p.Checked settings) :
    ∃ c ∈ p.call, c.entry = entry ∧ dispatchOf c.inbound = dispatch ∧
      settings.validate entry.descriptor c.input = .ok input := by
  cases p with
  | turnedAway | parsed | refusing | refused => simp [Progress.history] at h
  | invoked c input' =>
    simp only [Progress.history, List.mem_singleton, Effect.invoked.injEq] at h
    obtain ⟨rfl, rfl, rfl⟩ := h
    exact ⟨c, rfl, rfl, rfl, hchecked⟩
  | stripping c input' result =>
    simp only [Progress.history, List.mem_cons, List.not_mem_nil, or_false, Effect.invoked.injEq, reduceCtorEq] at h
    obtain ⟨rfl, rfl, rfl⟩ := h
    exact ⟨c, rfl, rfl, rfl, hchecked.1⟩
  | concluded c input' result recorded =>
    have heq : entry = c.entry ∧ input = input' ∧ dispatch = dispatchOf c.inbound := by
      cases result with
      | none => simpa [Progress.history] using h
      | some result =>
        dsimp only [Progress.history] at h
        split at h <;> simpa using h
    obtain ⟨rfl, rfl, rfl⟩ := heq
    exact ⟨c, rfl, rfl, rfl, hchecked⟩

/-- An event is that of a refused payload, or that of stripped headers, after a run. -/
theorem mem_history_raised {entry : TriggerEntry Z} {leaf : Leaf} (h : .raised entry leaf ∈ p.history settings)
    (hchecked : p.Checked settings) :
    ∃ c ∈ p.call, c.entry = entry ∧
      ((∃ issues, settings.validate entry.descriptor c.input = .error issues ∧ leaf = rejectionLeaf issues c.inbound) ∨
        ∃ input req output answer stripped, Effect.invoked entry input (dispatchOf c.inbound) ∈ p.history settings ∧
          c.inbound = .webhook req ∧ stripped ≠ [] ∧ serializeHttpResult output = some (answer, stripped) ∧
          leaf = strippedLeaf stripped) := by
  cases p with
  | turnedAway | parsed | invoked => simp [Progress.history] at h
  | refusing c issues =>
    simp only [Progress.history, List.mem_singleton, Effect.raised.injEq] at h
    obtain ⟨rfl, rfl⟩ := h
    exact ⟨c, rfl, rfl, Or.inl ⟨issues, hchecked, rfl⟩⟩
  | refused c issues recorded =>
    simp only [Progress.history, List.mem_cons, List.not_mem_nil, or_false, Effect.raised.injEq, reduceCtorEq] at h
    obtain ⟨rfl, rfl⟩ := h
    exact ⟨c, rfl, rfl, Or.inl ⟨issues, hchecked, rfl⟩⟩
  | stripping c input result =>
    simp only [Progress.history, List.mem_cons, List.not_mem_nil, or_false, false_or, Effect.raised.injEq,
      reduceCtorEq] at h
    obtain ⟨rfl, rfl⟩ := h
    obtain ⟨req, output, answer, hinbound, -, hserialize⟩ := serialized_of_stripped hchecked.2
    exact ⟨c, rfl, rfl, Or.inr ⟨input, req, output, answer, _, by simp [Progress.history], hinbound, hchecked.2,
      hserialize, rfl⟩⟩
  | concluded c input result recorded =>
    cases result with
    | none => simp [Progress.history] at h
    | some result =>
      dsimp only [Progress.history] at h ⊢
      split at h
      · simp at h
      · rename_i hstripped
        have hne : (answerTo c.inbound (settings.afterInvoke c.entry.descriptor result)).2 ≠ [] := by
          simpa using hstripped
        simp only [List.mem_cons, List.mem_append, List.not_mem_nil, or_false, false_or, Effect.raised.injEq,
          reduceCtorEq] at h
        obtain ⟨rfl, rfl⟩ := h
        obtain ⟨req, output, answer, hinbound, -, hserialize⟩ := serialized_of_stripped hne
        exact ⟨c, rfl, rfl, Or.inr ⟨input, req, output, answer, _, List.mem_cons_self, hinbound, hne, hserialize, rfl⟩⟩

/-- An answer is given without a run, by the handler that throws, or after a run, for what the run came to. -/
theorem mem_history_answered {answer : Answer} (h : .answered answer ∈ p.history settings)
    (hchecked : p.Checked settings) :
    (answer.early = true ∧ ∀ entry input dispatch, Effect.invoked entry input dispatch ∉ p.history settings) ∨
      answer = .uncaught ∨
      ∃ c ∈ p.call, ∃ input result, Effect.invoked c.entry input (dispatchOf c.inbound) ∈ p.history settings ∧
        answer = (answerTo c.inbound (settings.afterInvoke c.entry.descriptor result)).1 ∧
        ∀ stripped, (answerTo c.inbound (settings.afterInvoke c.entry.descriptor result)).2 = stripped →
          stripped ≠ [] → Effect.raised c.entry (strippedLeaf stripped) ∈ p.history settings := by
  cases p with
  | parsed | refusing | invoked | stripping => simp [Progress.history] at h
  | turnedAway early =>
    simp only [Progress.history, List.mem_singleton, Effect.answered.injEq] at h
    subst h
    exact Or.inl ⟨hchecked, by simp [Progress.history]⟩
  | refused c issues recorded =>
    simp only [Progress.history, List.mem_cons, List.not_mem_nil, or_false, false_or, Effect.answered.injEq,
      reduceCtorEq] at h
    subst h
    cases recorded with
    | true => exact Or.inl ⟨rfl, by simp [Progress.history]⟩
    | false => exact Or.inr (Or.inl rfl)
  | concluded c input result recorded =>
    cases result with
    | none =>
      simp only [Progress.history, List.mem_cons, List.not_mem_nil, or_false, false_or, Effect.answered.injEq,
        reduceCtorEq] at h
      exact Or.inr (Or.inl h)
    | some result =>
      dsimp only [Progress.history] at h ⊢
      have hanswer : answer =
          unlessThrown recorded (answerTo c.inbound (settings.afterInvoke c.entry.descriptor result)).1 := by
        split at h <;> simpa using h
      subst hanswer
      cases recorded with
      | false => exact Or.inr (Or.inl rfl)
      | true =>
        refine Or.inr (Or.inr ⟨c, rfl, input, result, List.mem_cons_self, rfl, ?_⟩)
        rintro stripped rfl hne
        simp [hne]

/-! ## Every run -/

/-- What others see of the requests. -/
structure Sound (settings : Settings Z) (s : Server Z B) : Prop where
  ordered : ∀ i, ((lane i s.log).map Effect.rank).Pairwise (· < ·)
  invoked : ∀ {i : Nat} {entry : TriggerEntry Z} {input : JsValue} {dispatch : DispatchMeta},
    (i, .invoked entry input dispatch) ∈ s.log → ∃ x c, s.exchanges[i]? = some x ∧ Asked settings c x.inbound ∧
      c.entry = entry ∧ dispatch = dispatchOf x.inbound ∧ settings.validate entry.descriptor c.input = .ok input
  raised : ∀ {i : Nat} {entry : TriggerEntry Z} {leaf : Leaf}, (i, .raised entry leaf) ∈ s.log →
    ∃ x c, s.exchanges[i]? = some x ∧ Asked settings c x.inbound ∧ c.entry = entry ∧
      ((∃ issues, settings.validate entry.descriptor c.input = .error issues ∧ leaf = rejectionLeaf issues x.inbound) ∨
        ∃ input req output answer stripped, (i, .invoked entry input (dispatchOf x.inbound)) ∈ s.log ∧
          x.inbound = .webhook req ∧ stripped ≠ [] ∧ serializeHttpResult output = some (answer, stripped) ∧
          leaf = strippedLeaf stripped)
  early : ∀ {i : Nat} {answer : Answer}, (i, .answered answer) ∈ s.log → answer.early = true →
    ∀ entry input dispatch, (i, .invoked entry input dispatch) ∉ s.log
  http : ∀ {i : Nat} {answer : HttpAnswer}, (i, .answered (.http answer)) ∈ s.log →
    ∃ entry input output stripped, (i, .invoked entry input ⟨.trigger, none⟩) ∈ s.log ∧
      (∃ data, settings.validateOutput entry.descriptor output = .ok data) ∧
      serializeHttpResult output = some (answer, stripped) ∧
      (∀ header ∈ answer.headers, isReservedResponseHeader header.1 = false) ∧
      (stripped ≠ [] → (i, .raised entry (strippedLeaf stripped)) ∈ s.log)
  fired : ∀ {i : Nat} {output : JsValue}, (i, .answered (.fired output)) ∈ s.log →
    ∃ entry input req, (i, .invoked entry input (buildDispatch req.user)) ∈ s.log ∧
      (s.exchanges[i]?.map Exchange.inbound) = some (.manual req) ∧
      ∃ data, settings.validateOutput entry.descriptor output = .ok data
  details : ∀ {i : Nat} {details : String × Option String}, (i, .answered (.internalError (some details))) ∈ s.log →
    ∃ req, (s.exchanges[i]?.map Exchange.inbound) = some (.manual req) ∧
      requireOwnerMember req.user req.owner (some req.repo) = true

theorem mem_history_of_mem_log (h : ∀ i, lane i s.log = history settings s i) {e : Effect Z} (he : (i, e) ∈ s.log) :
    ∃ x, s.exchanges[i]? = some x ∧ e ∈ x.progress.history settings := by
  have hmem := mem_lane.mpr he
  rw [h, history] at hmem
  cases hx : s.exchanges[i]? with
  | none =>
    rw [hx] at hmem
    cases hmem
  | some x =>
    rw [hx] at hmem
    exact ⟨x, rfl, hmem⟩

theorem mem_log_of_mem_history (h : ∀ i, lane i s.log = history settings s i) {x : Exchange Z}
    (hx : s.exchanges[i]? = some x) {e : Effect Z} (he : e ∈ x.progress.history settings) : (i, e) ∈ s.log := by
  apply mem_lane.mp
  rw [h, history, hx]
  exact he

/-- An answer for what a run came to. -/
theorem answered_of_mem_log (hinv : Inv settings s) (h : ∀ i, lane i s.log = history settings s i) {answer : Answer}
    (he : (i, .answered answer) ∈ s.log) (hearly : answer.early = false) (hthrown : answer ≠ .uncaught) :
    ∃ x c input result stripped, s.exchanges[i]? = some x ∧ Asked settings c x.inbound ∧
      (i, .invoked c.entry input (dispatchOf x.inbound)) ∈ s.log ∧
      Answered x.inbound (settings.afterInvoke c.entry.descriptor result) answer stripped ∧
      (stripped ≠ [] → (i, .raised c.entry (strippedLeaf stripped)) ∈ s.log) := by
  obtain ⟨x, hx, hmem⟩ := mem_history_of_mem_log h he
  rcases mem_history_answered hmem (hinv.kept i x hx).checked with
    ⟨htrue, -⟩ | heq | ⟨c, hc, input, result, hrun, heq, hraised⟩
  · rw [htrue] at hearly
    cases hearly
  · exact absurd heq hthrown
  · obtain ⟨hinbound, hasked⟩ := (hinv.kept i x hx).asked c hc
    have hanswered := answered_answerTo c.inbound (settings.afterInvoke c.entry.descriptor result)
    rw [← heq] at hanswered
    rw [hinbound] at hanswered hrun hraised
    refine ⟨x, c, input, result, _, hx, hasked, mem_log_of_mem_history h hx hrun, hanswered, ?_⟩
    intro hne
    exact mem_log_of_mem_history h hx (hraised _ rfl hne)

/-- Whatever requests come, whenever their bodies, runs and events settle, and whatever is uploaded between. -/
theorem fire_sound (settings : Settings Z) {storage : OrderedMap String B} {rows : List QueueRow}
    {as : List (ServerAction B)} (hrun : exec (step settings) (Server.boot storage rows) as = some s) :
    Sound settings s := by
  obtain ⟨hinv, h⟩ := run_spec hrun
  constructor
  · intro i
    rw [h, history]
    cases s.exchanges[i]? with
    | none => exact List.Pairwise.nil
    | some x => exact rank_history x.progress
  · intro i entry input dispatch he
    obtain ⟨x, hx, hmem⟩ := mem_history_of_mem_log h he
    have hkept := hinv.kept i x hx
    obtain ⟨c, hc, hentry, hdispatch, hvalid⟩ := mem_history_invoked hmem hkept.checked
    obtain ⟨hinbound, hasked⟩ := hkept.asked c hc
    exact ⟨x, c, hx, hasked, hentry, by rw [← hdispatch, hinbound], hvalid⟩
  · intro i entry leaf he
    obtain ⟨x, hx, hmem⟩ := mem_history_of_mem_log h he
    have hkept := hinv.kept i x hx
    obtain ⟨c, hc, hentry, hcause⟩ := mem_history_raised hmem hkept.checked
    obtain ⟨hinbound, hasked⟩ := hkept.asked c hc
    rw [hinbound] at hcause
    refine ⟨x, c, hx, hasked, hentry, ?_⟩
    rcases hcause with hrefused | ⟨input, req, output, answer, stripped, hran, hstripped⟩
    · exact Or.inl hrefused
    · exact Or.inr ⟨input, req, output, answer, stripped, mem_log_of_mem_history h hx hran, hstripped⟩
  · intro i answer he hearly entry input dispatch hran
    obtain ⟨x, hx, hmem⟩ := mem_history_of_mem_log h he
    obtain ⟨x', hx', hran⟩ := mem_history_of_mem_log h hran
    obtain rfl := Option.some.inj (hx.symm.trans hx')
    rcases mem_history_answered hmem (hinv.kept i x hx).checked with ⟨-, hno⟩ | rfl | ⟨c, -, -, result, -, rfl, -⟩
    · exact hno _ _ _ hran
    · cases hearly
    · rw [early_answerTo] at hearly
      cases hearly
  · intro i answer he
    obtain ⟨x, c, input, result, stripped, hx, -, hran, hanswered, hraised⟩ :=
      answered_of_mem_log hinv h he rfl (by intro heq; cases heq)
    generalize hinbound : x.inbound = inbound at hran hanswered
    generalize hfired : settings.afterInvoke c.entry.descriptor result = fired at hanswered
    cases hanswered with
    | http hserialize =>
      exact ⟨c.entry, input, _, stripped, hran, (ok_of_afterInvoke hfired).2, hserialize,
        not_reserved_of_serialize hserialize, hraised⟩
  · intro i output he
    obtain ⟨x, c, input, result, stripped, hx, -, hran, hanswered, -⟩ :=
      answered_of_mem_log hinv h he rfl (by intro heq; cases heq)
    generalize hinbound : x.inbound = inbound at hran hanswered
    generalize hfired : settings.afterInvoke c.entry.descriptor result = fired at hanswered
    cases hanswered with
    | fired =>
      exact ⟨c.entry, input, _, hran, by rw [hx]; exact congrArg some hinbound, (ok_of_afterInvoke hfired).2⟩
  · intro i details he
    obtain ⟨x, c, input, result, stripped, hx, hasked, -, hanswered, -⟩ :=
      answered_of_mem_log hinv h he rfl (by intro heq; cases heq)
    generalize hinbound : x.inbound = inbound at hasked hanswered
    generalize settings.afterInvoke c.entry.descriptor result = fired at hanswered
    cases hanswered with
    | detailedError => exact ⟨_, by rw [hx]; exact congrArg some hinbound, hasked.2.2.1⟩

end Runs

/-! ### A webhook that is run, one that is refused, and a stranger -/

def hookManifest : Manifest :=
  .single (.plain "flow" "1b2c" .empty ⟨.http, "hook", .object [("method", .string "POST")], .null, .null⟩ []
    List.nodup_nil)

/-- The schemas refuse the body `"no"`. -/
def hookSettings : Settings Unit where
  options := manifestOptions hookManifest
  safeParse _ value := match value.get "body" with
    | .string "no" => .error [⟨.other "custom", [.key "body"], "Invalid input", .undefined⟩]
    | _ => .ok value
  numberOf _ := .nonFinite

def hookRequest (body : String) : Inbound :=
  .webhook ⟨"POST", "/webhooks/acme/site/flow/hook", "", [], some (.string body)⟩

def hookOutput : JsValue :=
  .object [("headers", .object [("Set-Cookie", .string "a=b"), ("x-id", .string "7")]), ("body", .string "done")]

def hookRun : List (ServerAction String) :=
  [.upload (manifestUpload hookManifest), .markReady, .request (hookRequest "yes"), .request (hookRequest "no"),
    .request (.manual ⟨some ⟨"mallory", "", ["evil"]⟩, "acme", "site", "flow", "hook", some .null⟩), .fire 1, .fire 0,
    .exceptionSettles 1 true, .invokeSettles 0 (some (.ok hookOutput)), .exceptionSettles 0 true]

theorem fire_sound_hook : ∃ s, exec (step hookSettings) (Server.boot .empty []) hookRun = some s ∧
    Sound hookSettings s := by
  obtain ⟨s, hrun⟩ : ∃ s, exec (step hookSettings) (Server.boot .empty []) hookRun = some s := ⟨_, rfl⟩
  exact ⟨s, hrun, fire_sound hookSettings hrun⟩

end WorkflowEngine.Runtime.Fire
