import WorkflowEngine.Sandbox.Bridge
import WorkflowEngine.Sandbox.RunSequencer
import WorkflowEngine.Runtime.SecretsScrubber

/-!
# One run under the production plugins

What the worker posts during a run: the `onBeforeRunStarted` hooks in the order
of `buildPluginDescriptors`, the emissions of the guest body, and the
`onRunFinished` hooks in reverse order. Only `trigger` and `timers` emit in a
hook. The body is any list of emissions that the other plugins can make while
the handler runs; a close may carry a callId captured in an earlier run.
-/

namespace WorkflowEngine.Runtime

open Lib Sandbox
set_option autoImplicit false

universe u
variable {V : Type u}

/-- `buildPluginDescriptors`, in its order. -/
inductive Plugin where
  | wasi | wasiTelemetry | secrets | webPlatform | fetch | mail | sql | queue | timers | console
  | hostCallAction | actionDispatch | trigger
  deriving DecidableEq

def buildPluginDescriptors : List Plugin :=
  [.wasi, .wasiTelemetry, .secrets, .webPlatform, .fetch, .mail, .sql, .queue, .timers, .console,
    .hostCallAction, .actionDispatch, .trigger]

inductive TimerKind where
  | setTimeout
  | setInterval
  deriving DecidableEq

def TimerKind.setName : TimerKind → String
  | .setTimeout => "setTimeout"
  | .setInterval => "setInterval"

def TimerKind.clearName : TimerKind → String
  | .setTimeout => "clearTimeout"
  | .setInterval => "clearInterval"

/-- The `log.event` kinds of the production descriptors. -/
inductive LeafKind where
  | call
  | exception
  deriving DecidableEq

def LeafKind.toKind : LeafKind → String
  | .call => "system.call"
  | .exception => "system.exception"

/-- The `log.request` prefixes of the production descriptors. -/
inductive RequestKind where
  | system
  | action
  | addSecret
  deriving DecidableEq

def RequestKind.toPrefix : RequestKind → String
  | .system => "system"
  | .action => "action"
  | .addSecret => "$secrets/addSecret"

inductive BodyStep (V : Type u) where
  | leaf (clock : Clock) (kind : LeafKind) (name : String) (extra : EmitExtra V)
  | request (clock : Clock) (kind : RequestKind) (name : String) (input : Option V)
  | settle (clock : Clock) (kind : RequestKind) (name : String) (input : Option V) (callId : Nat)
      (outcome : Outcome V)
  | addSecret (value : String)
  | setTimer (clock : Clock) (numId : Nat) (kind : TimerKind) (extra : EmitExtra V)
  | clearTimer (clock : Clock) (numId : Nat) (kind : TimerKind) (extra : EmitExtra V)
  | fireTimer (clock : Clock) (numId : Nat)

/-- The worker during a run. `sent` is what reaches the sequencer, in the order of the port. -/
structure PluginRun (V : Type u) where
  bridge : Bridge
  timers : OrderedMap Nat TimerKind
  plaintexts : List String
  openCallId : Option Nat
  sent : List (WireEvent V)

/-- `runInput`, the result of the handler, and the clock readings of the hooks. -/
structure RunRequest (V : Type u) where
  name : String
  input : Option V
  result : Outcome V
  beforeClock : Clock
  afterClock : Clock

def resortLongestFirst (plaintexts : List String) : List String :=
  plaintexts.mergeSort fun a b => b.length ≤ a.length

namespace PluginRun

/-- `resetCallIds` and `setRunActive` of `handleRun`; timers and plaintexts outlive runs. -/
def start (timers : OrderedMap Nat TimerKind) (plaintexts : List String) : PluginRun V :=
  ⟨Bridge.create.resetCallIds.setRunActive, timers, plaintexts, none, []⟩

def post (ops : PayloadOps V) (r : PluginRun V) (built : BuildResult V) : PluginRun V :=
  { r with
    bridge := built.bridge
    sent := r.sent ++ (built.event.bind (onPost ops r.plaintexts)).toList }

def emitLeaf (ops : PayloadOps V) (r : PluginRun V) (clock : Clock) (kind name : String)
    (extra : EmitExtra V) : PluginRun V :=
  r.post ops (r.bridge.buildEvent clock kind name .leaf extra)

def emitOpen (ops : PayloadOps V) (r : PluginRun V) (clock : Clock) (options : RequestOptions V) :
    PluginRun V :=
  r.post ops (emitRequest r.bridge clock options)

def emitClose (ops : PayloadOps V) (r : PluginRun V) (clock : Clock) (options : RequestOptions V)
    (callId : Nat) (outcome : Outcome V) : PluginRun V :=
  r.post ops (emitSettlement r.bridge clock options callId outcome)

def bodyStep (ops : PayloadOps V) (r : PluginRun V) : BodyStep V → PluginRun V
  | .leaf clock kind name extra => r.emitLeaf ops clock kind.toKind name extra
  | .request clock kind name input => r.emitOpen ops clock ⟨kind.toPrefix, name, input⟩
  | .settle clock kind name input callId outcome =>
    r.emitClose ops clock ⟨kind.toPrefix, name, input⟩ callId outcome
  | .addSecret value =>
    if value = "" ∨ value ∈ r.plaintexts then r
    else { r with plaintexts := resortLongestFirst (r.plaintexts ++ [value]) }
  | .setTimer clock numId kind extra =>
    let r := r.emitLeaf ops clock "system.call" kind.setName extra
    { r with timers := r.timers.set numId kind }
  | .clearTimer clock numId kind extra =>
    let r := r.emitLeaf ops clock "system.call" kind.clearName extra
    { r with timers := r.timers.delete numId }
  | .fireTimer clock numId =>
    match r.timers.get? numId with
    | none => r
    | some kind =>
      let r := r.emitOpen ops clock ⟨"system", kind.setName, some (ops.timerId numId)⟩
      if kind = .setTimeout then { r with timers := r.timers.delete numId } else r

/-- `clearAllPending` of the timers plugin. -/
def clearAllPending (ops : PayloadOps V) (r : PluginRun V) (clock : Clock) : PluginRun V :=
  let r := r.timers.entries.foldl (fun r e =>
    r.emitLeaf ops clock "system.call" e.2.clearName ⟨some (ops.timerId e.1), none, none⟩) r
  { r with timers := .empty }

def onBeforeRunStarted (ops : PayloadOps V) (req : RunRequest V) (r : PluginRun V) :
    Plugin → PluginRun V
  | .trigger =>
    let options : RequestOptions V := ⟨"trigger", req.name, req.input⟩
    { r.emitOpen ops req.beforeClock options with
      openCallId := some (emitRequest r.bridge req.beforeClock options).callId }
  | _ => r

def onRunFinished (ops : PayloadOps V) (req : RunRequest V) (r : PluginRun V) : Plugin → PluginRun V
  | .trigger =>
    match r.openCallId with
    | none => r
    | some callId =>
      { r.emitClose ops req.afterClock ⟨"trigger", req.name, req.input⟩ callId req.result with
        openCallId := none }
  | .timers => r.clearAllPending ops req.afterClock
  | _ => r

/-- The run up to the settlement of the handler. -/
def settled (ops : PayloadOps V) (req : RunRequest V) (body : List (BodyStep V)) (r : PluginRun V) :
    PluginRun V :=
  body.foldl (bodyStep ops) (buildPluginDescriptors.foldl (onBeforeRunStarted ops req) r)

/-- The whole run: `runOnRunFinished` goes through the plugins in reverse order. -/
def run (ops : PayloadOps V) (req : RunRequest V) (body : List (BodyStep V)) (r : PluginRun V) :
    PluginRun V :=
  buildPluginDescriptors.reverse.foldl (onRunFinished ops req) (r.settled ops req body)

end PluginRun

/-- `trigger.response` or `trigger.error`. -/
def RunRequest.closeKind (req : RunRequest V) : String := "trigger" ++ req.result.kindSuffix

/-- The events that the sequencer stamps in this run. -/
def stampedEvents (sequencer : RunSequencer) (sent : List (WireEvent V)) : List (SandboxEvent V) :=
  stamped (sequencer.start.1.feed sent).2

end WorkflowEngine.Runtime
