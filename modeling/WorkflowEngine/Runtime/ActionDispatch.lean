import WorkflowEngine.Lib.Fallible
import WorkflowEngine.Lib.JsValue
import WorkflowEngine.Lib.Lanes
import WorkflowEngine.Lib.ListIndex
import WorkflowEngine.Runtime.Manifest
import WorkflowEngine.Sandbox.Bridge

/-!
# Action calls

`plugins/host-call-action.ts` and `plugins/action-dispatch.ts`, with the frame that
`pluginRequest` puts around the dispatcher. Calls run side by side in one worker, also
nested in the handlers of other calls and across the ends of runs. A call is known by
its position in `calls`; `log` records what each call does that others can see.
-/

namespace WorkflowEngine.Runtime.Actions

open Lib Sandbox
set_option autoImplicit false

/-! ## Validation issues -/

inductive PathSegment where
  | key (name : String)
  | index (i : Nat)

def PathSegment.text : PathSegment → String
  | .key name => name
  | .index i => toString i

/-- The fields of a `ZodIssue` that only one code has. -/
inductive IssueCode where
  | invalidType (expected : String)
  | invalidValue (values : List JsValue)
  | tooBig (maximum : JsValue) (inclusive : Option Bool)
  | tooSmall (minimum : JsValue) (inclusive : Option Bool)
  | invalidFormat (format : String)
  | unrecognizedKeys (keys : List String)
  | notMultipleOf (divisor : JsValue)
  | other (code : String)

def IssueCode.text : IssueCode → String
  | .invalidType _ => "invalid_type"
  | .invalidValue _ => "invalid_value"
  | .tooBig _ _ => "too_big"
  | .tooSmall _ _ => "too_small"
  | .invalidFormat _ => "invalid_format"
  | .unrecognizedKeys _ => "unrecognized_keys"
  | .notMultipleOf _ => "not_multiple_of"
  | .other code => code

/-- `input` is `undefined` where zod did not record the value. -/
structure ZodIssue where
  code : IssueCode
  path : List PathSegment
  message : String
  input : JsValue

/-- A `received` of `undefined` is left out of the object. -/
structure ValidationIssue where
  path : List PathSegment
  message : String
  received : JsValue
  expected : Option String
  code : String

/-- `cur[seg]`, of own properties. -/
def PathSegment.read (cur : JsValue) : PathSegment → JsValue
  | .key name => cur.get name
  | .index i => cur.at i

def liftAtPath (input : JsValue) : List PathSegment → JsValue
  | [] => input
  | seg :: path =>
    match input with
    | .null | .undefined => .undefined
    | cur => liftAtPath (seg.read cur) path

/-- `String(v)` of the values that a schema can name. -/
def textOf : JsValue → String
  | .string s => s
  | .number n => String.ofList n.text
  | .negZero => "0"
  | .nonFinite => "NaN"
  | .bigint n => toString n
  | .bool b => toString b
  | .null => "null"
  | .undefined => "undefined"
  | _ => "[object Object]"

def quoted (s : String) : String := "\"" ++ s ++ "\""

def deriveExpected (issue : ZodIssue) : Option String :=
  match issue.code with
  | .invalidType expected => some expected
  | .invalidValue values =>
    let texts := values.map fun
      | .string s => quoted s
      | v => textOf v
    some ("one of [" ++ ", ".intercalate texts ++ "]")
  | .tooBig maximum inclusive => some ((if inclusive = some false then "<" else "<=") ++ " " ++ textOf maximum)
  | .tooSmall minimum inclusive => some ((if inclusive = some false then ">" else ">=") ++ " " ++ textOf minimum)
  | .invalidFormat format => some format
  | .unrecognizedKeys keys => some ("no unrecognized keys (got [" ++ ", ".intercalate (keys.map quoted) ++ "])")
  | .notMultipleOf divisor => some ("multiple of " ++ textOf divisor)
  | .other _ => none

def zodIssuesToValidationIssues (issues : List ZodIssue) (input : JsValue) : List ValidationIssue :=
  issues.map fun issue =>
    { path := issue.path
      message := issue.message
      received := match issue.input with
        | .undefined => liftAtPath input issue.path
        | received => received
      expected := deriveExpected issue
      code := issue.code.text }

/-! ## The `host-call-action` plugin -/

/-- The classes of error that the dispatcher tells apart. -/
inductive ErrorClass where
  | guestSafe
  | guestThrown
  | validation
  deriving DecidableEq

/-- A thrown error of the worker. The engine supplies the text of `stack`. -/
structure HostError where
  kind : ErrorClass
  name : String
  message : String
  stack : String
  issues : Option (List ValidationIssue)

/-- `z.fromJSONSchema(schema).safeParse(value)`. -/
abbrev SafeParse := Json → JsValue → Except (List ZodIssue) JsValue

structure Settings where
  zod : SafeParse
  config : HostCallActionConfig

def guestSafeError (message stack : String) (issues : Option (List ValidationIssue)) : HostError :=
  ⟨.guestSafe, "GuestSafeError", message, stack, issues⟩

def undeclared (actionName : String) : String := "action \"" ++ actionName ++ "\" is not declared"

def runValidator (zod : SafeParse) (schemas : OrderedMap String Json)
    (actionName : String) (value : JsValue) (errorLabel stack : String) : Except HostError JsValue :=
  match schemas.get? actionName with
  | none => .error (guestSafeError (undeclared actionName) stack none)
  | some schema =>
    match zod schema value with
    | .ok data => .ok data
    | .error issues =>
      .error ⟨.validation, "ValidationError", errorLabel, stack, some (zodIssuesToValidationIssues issues value)⟩

/-- The parsed value is not used. -/
def Settings.validateAction (settings : Settings) (actionName : String) (input : JsValue) (stack : String) :
    Except HostError Unit :=
  (runValidator settings.zod settings.config.inputSchemas actionName input "action input validation failed" stack).map
    fun _ => ()

def Settings.validateActionOutput (settings : Settings) (actionName : String) (output : JsValue) (stack : String) :
    Except HostError JsValue :=
  runValidator settings.zod settings.config.outputSchemas actionName output "action output validation failed" stack

/-! ## The `action-dispatch` plugin -/

def receivedText (received : JsValue) : String :=
  match stringify received with
  | .ok (some text) => String.ofList text
  | .ok none => "undefined"
  | .error _ => textOf received

def formatValidationIssues (issues : List ValidationIssue) : String :=
  if issues.isEmpty then "validation failed"
  else "; ".intercalate (issues.map fun issue =>
    let path := if issue.path.isEmpty then "(root)" else ".".intercalate (issue.path.map PathSegment.text)
    let head := path ++ ": " ++ issue.message
    match issue.received with
    | .undefined => head
    | received => head ++ " (received " ++ receivedText received ++ ")")

/-- `stack` is that of an error made here. -/
def translateValidatorThrow (err : HostError) (stack : String) : HostError :=
  match err.kind, err.issues with
  | .validation, some issues => guestSafeError (formatValidationIssues issues) stack (some issues)
  | .validation, none => guestSafeError err.message stack none
  | _, _ => err

def PathSegment.toValue : PathSegment → JsValue
  | .key name => .string name
  | .index i => .number (.ofNat i)

def optionalField (key : String) : Option JsValue → List (String × JsValue)
  | none => []
  | some v => [(key, v)]

def ValidationIssue.toValue (issue : ValidationIssue) : JsValue :=
  .object ([("path", .array (issue.path.map PathSegment.toValue)), ("message", .string issue.message)] ++
    (match issue.received with
      | .undefined => []
      | received => [("received", received)]) ++
    optionalField "expected" (issue.expected.map .string) ++ [("code", .string issue.code)])

/-- The serialised form on an `action.error` event. -/
def serializeLifecycleError (err : HostError) : EventError JsValue where
  message := err.message
  stack := some err.stack
  issues := err.issues.map fun issues => .array (issues.map ValidationIssue.toValue)
  kind := none

/-! ## Calls -/

/-- How far a call is: its handler runs, the dispatcher's promise has settled, `pluginRequest` has
closed the frame, the promise of the guest has settled. -/
inductive Stage where
  | entered
  | settling (outcome : Except HostError JsValue)
  | closed (outcome : Except HostError JsValue)
  | delivered (outcome : Except HostError JsValue)

/-- `vm` is the VM the call was made in, `callId` what `pluginRequest` captured, `returned` what the
handler's promise settled with. The events are those that were emitted. -/
structure ActionCall where
  name : String
  input : JsValue
  handler : Nat
  vm : Nat
  callId : Nat
  returned : Option (Except HostError JsValue)
  stage : Stage
  opened : Option (WireEvent JsValue)
  closing : Option (WireEvent JsValue)

/-- What a call does: an event on the wire, the entry into the guest's handler, the disposal of its
Callable, the settlement of the guest's promise. -/
inductive Effect where
  | emitted (event : WireEvent JsValue)
  | entered (handler : Nat) (value : JsValue)
  | disposed (handler : Nat)
  | settled (outcome : Except HostError JsValue)

structure Worker where
  bridge : Bridge
  vm : Nat
  calls : List ActionCall
  log : List (Nat × Effect)

def defined : JsValue → Option JsValue
  | .undefined => none
  | v => some v

def requestOptions (name : String) (input : JsValue) : RequestOptions JsValue := ⟨"action", name, defined input⟩

/-- `emitResponse` or `emitErrorFromException` of `pluginRequest`. -/
def settlementOf : Except HostError JsValue → Sandbox.Outcome JsValue
  | .ok value => .response (defined value)
  | .error err => .error (serializeLifecycleError err)

namespace Worker

def init : Worker := ⟨.create, 0, [], []⟩

/-- The dispatcher up to its first `await`, with what that does. -/
def start (settings : Settings) (name : String) (input : JsValue) (handler : Nat) (stack : String) : Stage × Effect :=
  match settings.validateAction name input stack with
  | .ok _ => (.entered, .entered handler input)
  | .error err => (.settling (.error (translateValidatorThrow err stack)), .disposed handler)

/-- `__sdkDispatchAction(name, input, handler)`: a name that is no string is thrown back before anything
else happens. -/
def dispatchAction (settings : Settings) (s : Worker) (name input : JsValue) (handler : Nat) (clock : Clock)
    (stack : String) : Worker :=
  match name with
  | .string name =>
    let request := emitRequest s.bridge clock (requestOptions name input)
    let started := start settings name input handler stack
    let effects := request.event.toList.map Effect.emitted ++ [started.2]
    { s with
      bridge := request.bridge
      calls := s.calls ++ [⟨name, input, handler, s.vm, request.callId, none, started.1, request.event, none⟩]
      log := s.log ++ effects.map (Prod.mk s.calls.length) }
  | _ => s

/-- The rest of the dispatcher, when the promise of the handler settles. -/
def finish (settings : Settings) (actionName : String) (result : Except HostError JsValue) (stack : String) :
    Except HostError JsValue :=
  match result with
  | .error err => .error err
  | .ok raw =>
    match settings.validateActionOutput actionName raw stack with
    | .ok value => .ok value
    | .error err => .error (translateValidatorThrow err stack)

def put (s : Worker) (i : Nat) (c : ActionCall) (effects : List Effect) : Worker :=
  { s with calls := s.calls.set i c, log := s.log ++ effects.map (Prod.mk i) }

/-- A handler whose VM is gone returns no more. -/
def handlerReturns (settings : Settings) (s : Worker) (i : Nat) (result : Except HostError JsValue) (stack : String) :
    Option Worker := do
  let c ← s.calls[i]?
  match c.stage with
  | .entered =>
    if c.vm = s.vm then
      let c' := { c with returned := some result, stage := .settling (finish settings c.name result stack) }
      some (s.put i c' [.disposed c.handler])
    else none
  | _ => none

/-- The handlers of `then` in `pluginRequest`. -/
def close (s : Worker) (i : Nat) (clock : Clock) : Option Worker := do
  let c ← s.calls[i]?
  match c.stage with
  | .settling outcome =>
    let built := emitSettlement s.bridge clock (requestOptions c.name c.input) c.callId (settlementOf outcome)
    let s' := { s with bridge := built.bridge }
    some (s'.put i { c with stage := .closed outcome, closing := built.event } (built.event.toList.map Effect.emitted))
  | _ => none

/-- `safeHostToHandle` settles the promise of the guest; it does nothing when the VM is gone. -/
def deliver (s : Worker) (i : Nat) : Option Worker := do
  let c ← s.calls[i]?
  match c.stage with
  | .closed outcome =>
    if c.vm = s.vm then some (s.put i { c with stage := .delivered outcome } [.settled outcome]) else none
  | _ => none

end Worker

/-- `other` is an event of another plugin. -/
inductive Action where
  | handleRun
  | finalizeRun
  | rebind
  | other (framing : EmitFraming)
  | dispatchAction (name input : JsValue) (handler : Nat) (clock : Clock) (stack : String)
  | handlerReturns (i : Nat) (result : Except HostError JsValue) (stack : String)
  | close (i : Nat) (clock : Clock)
  | deliver (i : Nat)

def step (settings : Settings) (s : Worker) : Action → Option Worker
  | .handleRun => some { s with bridge := s.bridge.resetCallIds.setRunActive }
  | .finalizeRun => some { s with bridge := s.bridge.clearRunActive }
  | .rebind => some { s with bridge := s.bridge.rebind, vm := s.vm + 1 }
  | .other framing =>
    some { s with bridge := if s.bridge.runActive then (s.bridge.toWireFraming framing).1 else s.bridge }
  | .dispatchAction name input handler clock stack => some (s.dispatchAction settings name input handler clock stack)
  | .handlerReturns i result stack => s.handlerReturns settings i result stack
  | .close i clock => s.close i clock
  | .deliver i => s.deliver i

/-! ## What a call has done -/

def Stage.outcome : Stage → Option (Except HostError JsValue)
  | .entered => none
  | .settling outcome | .closed outcome | .delivered outcome => some outcome

/-- The action is declared and its input schema accepts the value. -/
def Settings.accepts (settings : Settings) (actionName : String) (input : JsValue) : Bool :=
  match settings.config.inputSchemas.get? actionName with
  | none => false
  | some schema => (settings.zod schema input).isOk

/-- What the log must have of a call, from its fields alone. -/
def ActionCall.history (settings : Settings) (c : ActionCall) : List Effect :=
  let disposed := .disposed c.handler :: c.closing.toList.map Effect.emitted
  c.opened.toList.map Effect.emitted ++
    (if settings.accepts c.name c.input then [.entered c.handler c.input] else []) ++
    match c.stage with
    | .entered => []
    | .settling _ | .closed _ => disposed
    | .delivered outcome => disposed ++ [.settled outcome]

def history (settings : Settings) (s : Worker) (i : Nat) : List Effect :=
  (s.calls[i]?.map (ActionCall.history settings)).getD []

/-- Where the outcome of a call comes from: the input was refused, or the handler has returned. -/
inductive Explains (settings : Settings) (name : String) (input : JsValue)
    (returned : Option (Except HostError JsValue)) : Except HostError JsValue → Prop where
  | refused {err : HostError} {stack : String} (hreturned : returned = none)
      (herr : settings.validateAction name input stack = .error err) :
      Explains settings name input returned (.error (translateValidatorThrow err stack))
  | finished {result : Except HostError JsValue} {stack : String} (hreturned : returned = some result)
      (haccepts : settings.accepts name input = true) :
      Explains settings name input returned (Worker.finish settings name result stack)

/-- The open of a call on the wire. -/
structure IsRequest (name : String) (input : JsValue) (callId : Nat) (event : WireEvent JsValue) : Prop where
  kind : event.kind = "action.request"
  name : event.name = name
  input : event.input = defined input
  type : event.type = .openCall callId

def closeFields : Except HostError JsValue → String × Option JsValue × Option (EventError JsValue)
  | .ok value => ("action.response", defined value, none)
  | .error err => ("action.error", none, some (serializeLifecycleError err))

/-- Its close. -/
structure IsClose (name : String) (input : JsValue) (callId : Nat) (outcome : Except HostError JsValue)
    (event : WireEvent JsValue) : Prop where
  fields : (event.kind, event.output, event.error) = closeFields outcome
  name : event.name = name
  input : event.input = defined input
  type : event.type = .closeCall callId

structure Kept (settings : Settings) (c : ActionCall) : Prop where
  running : c.stage = .entered → c.returned = none ∧ settings.accepts c.name c.input = true
  explains : ∀ outcome ∈ c.stage.outcome, Explains settings c.name c.input c.returned outcome
  opened : ∀ event ∈ c.opened, IsRequest c.name c.input c.callId event
  pending : c.stage = .entered → c.closing = none
  silent : ∀ outcome, c.stage = .settling outcome → c.closing = none
  closing : ∀ event ∈ c.closing, ∃ outcome ∈ c.stage.outcome, IsClose c.name c.input c.callId outcome event

/-! ## One step -/

section Steps
variable {settings : Settings} {s t : Worker} {c : ActionCall} {i : Nat}

theorem validateAction_isOk (settings : Settings) (name : String) (input : JsValue) (stack : String) :
    (settings.validateAction name input stack).isOk = settings.accepts name input := by
  unfold Settings.validateAction Settings.accepts runValidator
  cases settings.config.inputSchemas.get? name with
  | none => rfl
  | some schema =>
    dsimp only
    cases settings.zod schema input <;> rfl

theorem start_cases (settings : Settings) (name : String) (input : JsValue) (handler : Nat) (stack : String) :
    (settings.accepts name input = true ∧
      Worker.start settings name input handler stack = (.entered, .entered handler input)) ∨
    (settings.accepts name input = false ∧ ∃ err, settings.validateAction name input stack = .error err ∧
      Worker.start settings name input handler stack =
        (.settling (.error (translateValidatorThrow err stack)), .disposed handler)) := by
  have hok := validateAction_isOk settings name input stack
  unfold Worker.start
  cases hvalidated : settings.validateAction name input stack with
  | ok u =>
    rw [hvalidated] at hok
    exact Or.inl ⟨hok.symm, rfl⟩
  | error err =>
    rw [hvalidated] at hok
    exact Or.inr ⟨hok.symm, err, rfl, rfl⟩

theorem mem_emitRequest {b : Bridge} {clock : Clock} {name : String} {input : JsValue} {event : WireEvent JsValue}
    (h : event ∈ (emitRequest b clock (requestOptions name input)).event) :
    IsRequest name input (emitRequest b clock (requestOptions name input)).callId event := by
  unfold emitRequest Bridge.buildEvent Bridge.toWireFraming at h ⊢
  split at h
  · rename_i hactive
    cases h
    rw [if_pos hactive]
    exact ⟨rfl, rfl, rfl, rfl⟩
  · cases h

theorem mem_emitSettlement {b : Bridge} {clock : Clock} {name : String} {input : JsValue} {callId : Nat}
    {outcome : Except HostError JsValue} {event : WireEvent JsValue}
    (h : event ∈ (emitSettlement b clock (requestOptions name input) callId (settlementOf outcome)).event) :
    IsClose name input callId outcome event := by
  unfold emitSettlement Bridge.buildEvent Bridge.toWireFraming at h
  cases outcome with
  | ok value =>
    dsimp only [settlementOf] at h
    split at h
    · cases h
      exact ⟨rfl, rfl, rfl, rfl⟩
    · cases h
  | error err =>
    dsimp only [settlementOf] at h
    split at h
    · cases h
      exact ⟨rfl, rfl, rfl, rfl⟩
    · cases h

/-- Every call of the worker is as its fields say. -/
def Good (settings : Settings) (s : Worker) : Prop :=
  ∀ (i : Nat) (c : ActionCall), s.calls[i]? = some c → Kept settings c

theorem put_spec (h : Good settings s) (hc : s.calls[i]? = some c) {c' : ActionCall} {es : List Effect}
    (hkept : Kept settings c') (hhistory : c'.history settings = c.history settings ++ es) :
    Good settings (s.put i c' es) ∧ Appends Worker.log (history settings) s (s.put i c' es) := by
  have hlt := lt_of_getElem?_eq_some hc
  constructor
  · intro j d hd
    rcases getElem?_set_cases hd with ⟨-, rfl⟩ | ⟨-, hd⟩
    · exact hkept
    · exact h j d hd
  · refine ⟨i, es, rfl, ?_, ?_⟩
    · have hset : (s.calls.set i c')[i]? = some c' := by simp [hlt]
      simp only [history, Worker.put, hset, hc, Option.map_some, Option.getD_some, hhistory]
    · intro j hj
      simp [history, Worker.put, List.getElem?_set_ne (Ne.symm hj)]

theorem dispatchAction_spec (h : Good settings s) (name input : JsValue) (handler : Nat) (clock : Clock)
    (stack : String) : Good settings (s.dispatchAction settings name input handler clock stack) ∧
      Appends Worker.log (history settings) s (s.dispatchAction settings name input handler clock stack) := by
  unfold Worker.dispatchAction
  split
  · rename_i name
    set request := emitRequest s.bridge clock (requestOptions name input) with hrequest
    set started := Worker.start settings name input handler stack with hstarted
    set c : ActionCall := ⟨name, input, handler, s.vm, request.callId, none, started.1, request.event, none⟩ with hc
    have hopened : ∀ event ∈ c.opened, IsRequest c.name c.input c.callId event := fun event h => mem_emitRequest h
    have hcall : Kept settings c ∧ c.history settings = request.event.toList.map Effect.emitted ++ [started.2] := by
      rcases start_cases settings name input handler stack with ⟨haccepts, heq⟩ | ⟨hrefuses, err, herr, heq⟩
      · rw [← hstarted] at heq
        refine ⟨⟨fun _ => ⟨rfl, haccepts⟩, ?_, hopened, fun _ => rfl, fun _ _ => rfl, nofun⟩, ?_⟩
        · intro outcome houtcome
          simp [hc, heq, Stage.outcome] at houtcome
        · simp [ActionCall.history, hc, heq, haccepts]
      · rw [← hstarted] at heq
        refine ⟨⟨fun hstage => ?_, ?_, hopened, fun _ => rfl, fun _ _ => rfl, nofun⟩, ?_⟩
        · simp [hc, heq] at hstage
        · intro outcome houtcome
          simp only [hc, heq, Stage.outcome, Option.mem_def, Option.some.injEq] at houtcome
          subst houtcome
          exact .refused rfl herr
        · simp [ActionCall.history, hc, heq, hrefuses]
    constructor
    · intro j d hd
      rcases getElem?_snoc_cases hd with hd | ⟨-, rfl⟩
      · exact h j d hd
      · exact hcall.1
    · refine ⟨s.calls.length, _, rfl, ?_, ?_⟩
      · simpa [history] using hcall.2
      · intro j hj
        have hget : (s.calls ++ [c])[j]? = s.calls[j]? := by
          rcases Nat.lt_or_gt_of_ne hj with hlt | hgt
          · exact List.getElem?_append_left hlt
          · rw [List.getElem?_eq_none (by simp; omega), List.getElem?_eq_none (by omega)]
        simp only [history]
        rw [hget]
  · exact ⟨h, .silent rfl fun _ => rfl⟩

theorem handlerReturns_spec (h : Good settings s) {result : Except HostError JsValue} {stack : String}
    (ht : s.handlerReturns settings i result stack = some t) :
    Good settings t ∧ Appends Worker.log (history settings) s t := by
  unfold Worker.handlerReturns at ht
  obtain ⟨c, hc, ht⟩ := Option.bind_eq_some_iff.mp ht
  have hkept := h i c hc
  split at ht
  · rename_i hstage
    obtain ⟨-, haccepts⟩ := hkept.running hstage
    have hclosing := hkept.pending hstage
    split at ht
    · cases ht
      refine put_spec h hc ⟨nofun, ?_, hkept.opened, nofun, fun _ _ => hclosing, ?_⟩ ?_
      · intro outcome houtcome
        cases houtcome
        exact .finished rfl haccepts
      · intro event hevent
        cases hclosing.symm.trans hevent
      · simp [ActionCall.history, hstage, haccepts, hclosing]
    · cases ht
  · cases ht

theorem close_spec (h : Good settings s) {clock : Clock} (ht : s.close i clock = some t) :
    Good settings t ∧ Appends Worker.log (history settings) s t := by
  unfold Worker.close at ht
  obtain ⟨c, hc, ht⟩ := Option.bind_eq_some_iff.mp ht
  have hkept := h i c hc
  split at ht
  · rename_i outcome hstage
    cases ht
    have hclosing := hkept.silent outcome hstage
    have hexplains := hkept.explains outcome (by rw [hstage]; rfl)
    set built := emitSettlement s.bridge clock (requestOptions c.name c.input) c.callId (settlementOf outcome)
    have hclosed : Kept settings { c with stage := .closed outcome, closing := built.event } := by
      refine ⟨nofun, ?_, hkept.opened, nofun, nofun, ?_⟩
      · intro outcome' houtcome
        cases houtcome
        exact hexplains
      · exact fun event hevent => ⟨outcome, rfl, mem_emitSettlement hevent⟩
    have hgood : Good settings { s with bridge := built.bridge } := h
    exact put_spec hgood hc hclosed (by simp [ActionCall.history, hstage, hclosing])
  · cases ht

theorem deliver_spec (h : Good settings s) (ht : s.deliver i = some t) :
    Good settings t ∧ Appends Worker.log (history settings) s t := by
  unfold Worker.deliver at ht
  obtain ⟨c, hc, ht⟩ := Option.bind_eq_some_iff.mp ht
  have hkept := h i c hc
  split at ht
  · rename_i outcome hstage
    have houtcome : c.stage.outcome = some outcome := by rw [hstage]; rfl
    split at ht
    · cases ht
      refine put_spec h hc ⟨nofun, ?_, hkept.opened, nofun, nofun, ?_⟩ ?_
      · exact fun outcome' houtcome' => hkept.explains outcome' (houtcome.trans houtcome')
      · intro event hevent
        obtain ⟨outcome', houtcome', hclose⟩ := hkept.closing event hevent
        exact ⟨outcome', houtcome.symm.trans houtcome', hclose⟩
      · simp [ActionCall.history, hstage]
    · cases ht
  · cases ht

theorem step_spec (h : Good settings s) {a : Action} (ht : step settings s a = some t) :
    Good settings t ∧ Appends Worker.log (history settings) s t := by
  cases a with
  | handleRun | finalizeRun | rebind | other =>
    cases ht
    exact ⟨h, .silent rfl fun _ => rfl⟩
  | dispatchAction name input handler clock stack =>
    cases ht
    exact dispatchAction_spec h name input handler clock stack
  | handlerReturns i result stack => exact handlerReturns_spec h ht
  | close i clock => exact close_spec h ht
  | deliver i => exact deliver_spec h ht

/-- In every state of every run, each call is as its fields say, and so is what the log has of it. -/
theorem run_spec {as : List Action} (h : exec (step settings) Worker.init as = some s) :
    Good settings s ∧ ∀ i, lane i s.log = history settings s i := by
  have hinit : Good settings Worker.init := fun i c hc => by cases hc
  constructor
  · exact exec_invariant (fun s a t hs ht => (step_spec hs ht).1) hinit h
  · exact lane_eq_history (fun s a t hs ht => (step_spec hs ht).1) (fun s a t hs ht => (step_spec hs ht).2) hinit
      (fun _ => rfl) h

theorem mem_history {e : Effect} (h : e ∈ c.history settings) :
    (settings.accepts c.name c.input = true ∧ e = .entered c.handler c.input) ∨ e = .disposed c.handler ∨
      (∃ event, (event ∈ c.opened ∨ event ∈ c.closing) ∧ e = .emitted event) ∨
      ∃ outcome, c.stage.outcome = some outcome ∧ e = .settled outcome := by
  unfold ActionCall.history at h
  rcases List.mem_append.mp h with h | h
  · rcases List.mem_append.mp h with h | h
    · obtain ⟨event, hevent, rfl⟩ := List.mem_map.mp h
      exact Or.inr (Or.inr (Or.inl ⟨event, Or.inl (Option.mem_toList.mp hevent), rfl⟩))
    · split at h
      · rename_i haccepts
        exact Or.inl ⟨haccepts, List.mem_singleton.mp h⟩
      · cases h
  · have hdisposed : ∀ {e : Effect}, e ∈ .disposed c.handler :: c.closing.toList.map Effect.emitted →
        e = .disposed c.handler ∨ ∃ event, (event ∈ c.opened ∨ event ∈ c.closing) ∧ e = .emitted event := by
      intro e he
      rcases List.mem_cons.mp he with rfl | he
      · exact Or.inl rfl
      · obtain ⟨event, hevent, rfl⟩ := List.mem_map.mp he
        exact Or.inr ⟨event, Or.inr (Option.mem_toList.mp hevent), rfl⟩
    split at h
    · cases h
    · exact Or.inr ((hdisposed h).imp id Or.inl)
    · exact Or.inr ((hdisposed h).imp id Or.inl)
    · rename_i outcome hstage
      rcases List.mem_append.mp h with h | h
      · exact Or.inr ((hdisposed h).imp id Or.inl)
      · exact Or.inr (Or.inr (Or.inr ⟨outcome, by rw [hstage]; rfl, List.mem_singleton.mp h⟩))

theorem finish_eq_ok {name : String} {result : Except HostError JsValue} {stack : String} {value : JsValue}
    (h : Worker.finish settings name result stack = .ok value) :
    ∃ raw, result = .ok raw ∧ ∃ schema, settings.config.outputSchemas.get? name = some schema ∧
      settings.zod schema raw = .ok value := by
  unfold Worker.finish at h
  split at h
  · cases h
  · rename_i raw
    refine ⟨raw, rfl, ?_⟩
    unfold Settings.validateActionOutput runValidator at h
    cases hschema : settings.config.outputSchemas.get? name with
    | none =>
      rw [hschema] at h
      cases h
    | some schema =>
      rw [hschema] at h
      dsimp only at h
      cases hparsed : settings.zod schema raw with
      | error issues =>
        rw [hparsed] at h
        cases h
      | ok data =>
        rw [hparsed] at h
        cases h
        exact ⟨schema, rfl, hparsed⟩

end Steps

/-! ## The actions of a workflow -/

section Manifest
variable {zod : SafeParse} {manifest : WorkflowManifest} {settings : Settings} {s : Worker}

/-- What the worker of a workflow is built with. -/
def settingsOf (zod : SafeParse) (manifest : WorkflowManifest) : Settings :=
  ⟨zod, compileActionValidators manifest⟩

theorem declared_of_schema {field : ActionManifest → Json} {name : String} {schema : Json}
    (h : (manifest.actions.foldl (fun m a => m.set a.name (field a)) OrderedMap.empty).get? name = some schema) :
    ∃ a ∈ manifest.actions, a.name = name ∧ field a = schema := by
  rcases OrderedMap.mem_of_get?_foldl_set ActionManifest.name field _ h with h | h
  · exact h
  · cases h

/-- The manifest declares the action, and its input schema accepts the value. -/
def Accepts (zod : SafeParse) (manifest : WorkflowManifest) (name : String)
    (input : JsValue) : Prop :=
  ∃ a ∈ manifest.actions, a.name = name ∧ ∃ data, zod a.input input = .ok data

theorem accepts_of_settings {name : String} {input : JsValue}
    (h : (settingsOf zod manifest).accepts name input = true) : Accepts zod manifest name input := by
  unfold Settings.accepts at h
  cases hschema : (settingsOf zod manifest).config.inputSchemas.get? name with
  | none =>
    rw [hschema] at h
    cases h
  | some schema =>
    obtain ⟨a, ha, hname, rfl⟩ := declared_of_schema hschema
    rw [hschema] at h
    refine ⟨a, ha, hname, ?_⟩
    dsimp only [settingsOf] at h
    cases hparsed : zod a.input input with
    | error issues =>
      rw [hparsed] at h
      cases h
    | ok data => exact ⟨data, rfl⟩

/-- The value is what the output schema makes of what the handler of call `i` returned, after it was
entered with an accepted input. -/
def Validated (zod : SafeParse) (manifest : WorkflowManifest) (s : Worker)
    (i : Nat) (value : JsValue) : Prop :=
  ∃ c a raw, s.calls[i]? = some c ∧ (i, Effect.entered c.handler c.input) ∈ s.log ∧
    a ∈ manifest.actions ∧ a.name = c.name ∧ c.returned = some (.ok raw) ∧ zod a.output raw = .ok value

/-- Why a call is turned down with `err`. -/
inductive Rejected (settings : Settings) (c : ActionCall) : HostError → Prop where
  | input {err : HostError} {stack : String} (hreturned : c.returned = none)
      (herr : settings.validateAction c.name c.input stack = .error err) :
      Rejected settings c (translateValidatorThrow err stack)
  | handler {err : HostError} (hreturned : c.returned = some (.error err)) : Rejected settings c err
  | output {raw : JsValue} {err : HostError} {stack : String} (hreturned : c.returned = some (.ok raw))
      (herr : settings.validateActionOutput c.name raw stack = .error err) :
      Rejected settings c (translateValidatorThrow err stack)

/-- What the log of a worker says of the calls of its actions. -/
structure Guarded (zod : SafeParse) (manifest : WorkflowManifest) (s : Worker) :
    Prop where
  /-- Each call does what it does in the order of `history`, and nothing twice. -/
  ordered : ∀ (i : Nat) (c : ActionCall), s.calls[i]? = some c → lane i s.log = c.history (settingsOf zod manifest)
  /-- A handler is entered with the very input of its call, and only where the schema accepts it. -/
  entered : ∀ i handler value, (i, Effect.entered handler value) ∈ s.log →
    ∃ c, s.calls[i]? = some c ∧ handler = c.handler ∧ value = c.input ∧ Accepts zod manifest c.name value
  /-- A caller is answered with a validated value only. -/
  answered : ∀ i value, (i, Effect.settled (.ok value)) ∈ s.log → Validated zod manifest s i value
  /-- A caller is turned down with the handler's own error or with that of a check that failed. -/
  rejected : ∀ i err, (i, Effect.settled (.error err)) ∈ s.log →
    ∃ c, s.calls[i]? = some c ∧ Rejected (settingsOf zod manifest) c err
  /-- Every event is the open or the close of its call, and a response tells a validated value. -/
  reported : ∀ i event, (i, Effect.emitted event) ∈ s.log → ∃ c, s.calls[i]? = some c ∧
    (IsRequest c.name c.input c.callId event ∨ ∃ outcome ∈ c.stage.outcome,
      IsClose c.name c.input c.callId outcome event ∧
        ∀ value, outcome = .ok value → Validated zod manifest s i value)

/-- An effect in the log is in the history of its call. -/
theorem call_of_mem_log (h : ∀ i, lane i s.log = history (settingsOf zod manifest) s i) {i : Nat} {e : Effect}
    (he : (i, e) ∈ s.log) : ∃ c, s.calls[i]? = some c ∧ e ∈ c.history (settingsOf zod manifest) := by
  have hmem := mem_lane.mpr he
  rw [h, history] at hmem
  cases hc : s.calls[i]? with
  | none =>
    rw [hc] at hmem
    cases hmem
  | some c =>
    rw [hc] at hmem
    exact ⟨c, rfl, hmem⟩

theorem validated_of_outcome (hgood : Good (settingsOf zod manifest) s)
    (hlane : ∀ i, lane i s.log = history (settingsOf zod manifest) s i) {i : Nat} {c : ActionCall}
    (hc : s.calls[i]? = some c) {value : JsValue} (houtcome : c.stage.outcome = some (.ok value)) :
    Validated zod manifest s i value := by
  have hexplains := (hgood i c hc).explains _ houtcome
  generalize hresult : (Except.ok value : Except HostError JsValue) = outcome at hexplains
  cases hexplains with
  | refused => cases hresult
  | finished hreturned haccepts =>
    obtain ⟨raw, rfl, schema, hschema, hparsed⟩ := finish_eq_ok hresult.symm
    obtain ⟨a, ha, hname, rfl⟩ := declared_of_schema hschema
    refine ⟨c, a, raw, hc, ?_, ha, hname, hreturned, hparsed⟩
    have hentered : Effect.entered c.handler c.input ∈ c.history (settingsOf zod manifest) := by
      simp [ActionCall.history, haccepts]
    rw [← mem_lane, hlane, history, hc]
    exact hentered

theorem rejected_of_outcome (hgood : Good settings s) {i : Nat} {c : ActionCall} (hc : s.calls[i]? = some c)
    {err : HostError} (houtcome : c.stage.outcome = some (.error err)) : Rejected settings c err := by
  have hexplains := (hgood i c hc).explains _ houtcome
  generalize hresult : (Except.error err : Except HostError JsValue) = outcome at hexplains
  cases hexplains with
  | refused hreturned herr =>
    cases hresult
    exact .input hreturned herr
  | finished hreturned haccepts =>
    unfold Worker.finish at hresult
    split at hresult
    · cases hresult
      exact .handler hreturned
    · split at hresult
      · cases hresult
      · rename_i herr
        cases hresult
        exact .output hreturned herr

/-- Whatever a workflow calls, and in whatever order handlers, frames and runs end: no handler sees a
value that was not accepted, and no caller and no event gets one that was not validated. -/
theorem actions_guarded (zod : SafeParse) (manifest : WorkflowManifest)
    {as : List Action} (h : exec (step (settingsOf zod manifest)) Worker.init as = some s) :
    Guarded zod manifest s := by
  obtain ⟨hgood, hlane⟩ := run_spec h
  refine ⟨?_, ?_, ?_, ?_, ?_⟩
  · intro i c hc
    rw [hlane, history, hc]
    rfl
  · intro i handler value he
    obtain ⟨c, hc, hmem⟩ := call_of_mem_log hlane he
    rcases mem_history hmem with ⟨haccepts, heq⟩ | heq | ⟨event, -, heq⟩ | ⟨outcome, -, heq⟩
    · cases heq
      exact ⟨c, hc, rfl, rfl, accepts_of_settings haccepts⟩
    all_goals cases heq
  · intro i value he
    obtain ⟨c, hc, hmem⟩ := call_of_mem_log hlane he
    rcases mem_history hmem with ⟨-, heq⟩ | heq | ⟨event, -, heq⟩ | ⟨outcome, houtcome, heq⟩
    case inr.inr.inr =>
      cases heq
      exact validated_of_outcome hgood hlane hc houtcome
    all_goals cases heq
  · intro i err he
    obtain ⟨c, hc, hmem⟩ := call_of_mem_log hlane he
    refine ⟨c, hc, ?_⟩
    rcases mem_history hmem with ⟨-, heq⟩ | heq | ⟨event, -, heq⟩ | ⟨outcome, houtcome, heq⟩
    case inr.inr.inr =>
      cases heq
      exact rejected_of_outcome hgood hc houtcome
    all_goals cases heq
  · intro i event he
    obtain ⟨c, hc, hmem⟩ := call_of_mem_log hlane he
    refine ⟨c, hc, ?_⟩
    rcases mem_history hmem with ⟨-, heq⟩ | heq | ⟨event', hevent, heq⟩ | ⟨outcome, -, heq⟩
    case inr.inr.inl =>
      cases heq
      rcases hevent with hopened | hclosing
      · exact Or.inl ((hgood i c hc).opened event hopened)
      · obtain ⟨outcome, houtcome, hclose⟩ := (hgood i c hc).closing event hclosing
        refine Or.inr ⟨outcome, houtcome, hclose, ?_⟩
        rintro value rfl
        exact validated_of_outcome hgood hlane hc houtcome
    all_goals cases heq

/-! ### Two actions, one called by the handler of the other -/

def someAction (name schema : String) : ActionManifest := ⟨name, .string schema, .string schema⟩

def nestedManifest : WorkflowManifest :=
  { WorkflowManifest.plain "flow" "sha" .empty ⟨.manual, "run", .null, .null, .null⟩ [] (by decide) with
    actions := [someAction "outer" "text", someAction "inner" "any"]
    actionNames_nodup := by decide }

/-- The schema `"text"` accepts texts alone. -/
def textSchemas : SafeParse
  | .string "text", .string s => .ok (.string s)
  | .string "text", v => .error [⟨.invalidType "string", [], "Invalid input", v⟩]
  | _, v => .ok v

def nestedRun : List Action :=
  [.handleRun, .dispatchAction (.string "outer") (.string "a") 0 ⟨1, ""⟩ "",
    .dispatchAction (.string "inner") .null 1 ⟨2, ""⟩ "", .dispatchAction (.string "outer") .null 2 ⟨3, ""⟩ "",
    .handlerReturns 1 (.ok (.bool true)) "", .close 2 ⟨4, ""⟩, .close 1 ⟨5, ""⟩, .deliver 1,
    .handlerReturns 0 (.ok (.string "b")) "", .close 0 ⟨6, ""⟩, .deliver 2, .deliver 0]

theorem actions_guarded_nested : ∃ s,
    exec (step (settingsOf textSchemas nestedManifest)) Worker.init nestedRun = some s ∧
      Guarded textSchemas nestedManifest s := by
  obtain ⟨s, hrun⟩ : ∃ s, exec (step (settingsOf textSchemas nestedManifest)) Worker.init nestedRun = some s :=
    ⟨_, rfl⟩
  exact ⟨s, hrun, actions_guarded textSchemas nestedManifest hrun⟩

end Manifest

end WorkflowEngine.Runtime.Actions
