import WorkflowEngine.Lib.Transition
import WorkflowEngine.Sandbox.Bridge
import WorkflowEngine.Sandbox.RunSequencer
import Mathlib.Logic.Function.Basic

/-!
# Runs of one worker and the main thread that stamps its events

The worker half (`worker.ts`: `handleRun`, `finalizeRun`, `startRestore`, and the
in-flight calls of `plugin.ts`) and the main half (`sandbox.ts`: `run`,
`onPersistentMessage`, `handleDeath`, `dispose`) as one transition system over
the message port between them. The port is first-in first-out. Host promises,
the restore, the death of the worker and every delivery happen when the
environment chooses.

Three things are recorded only to state which call an event belongs to: the
ordinal of each run, a number for each call, and the log of stamped events.
-/

namespace WorkflowEngine.Sandbox

open Lib
set_option autoImplicit false

universe u
variable {V : Type u}

/-- A call, with the run whose window was open when it began. -/
structure CallTag where
  call : Nat
  openedIn : Option Nat
  deriving DecidableEq

/-- A `pluginRequest` whose host promise has not settled. -/
structure PendingCall (V : Type u) where
  tag : CallTag
  callId : Nat
  options : RequestOptions V
  deriving DecidableEq

/-- The `WorkerToMain` messages that reach the sequencer or end a run. -/
inductive Message (V : Type u) where
  | event (wire : WireEvent V) (tag : Option CallTag)
  | done
  | restoreFailed
  deriving DecidableEq

inductive RunState where
  | ready
  | running
  | restoring
  | dead
  deriving DecidableEq

inductive Origin (V : Type u) where
  | wire (wire : WireEvent V) (tag : Option CallTag)
  | limitLeaf
  | synthesised
  deriving DecidableEq

/-- An event that left the sequencer, with the run it was stamped in. -/
structure Stamp (V : Type u) where
  run : Nat
  origin : Origin V
  event : SandboxEvent V
  deriving DecidableEq

/-- What `termination.cause()` makes of a death: an exceeded limit, or the close reason. -/
inductive Death (V : Type u) where
  | limit (dim : String) (clock : Clock) (input : V)
  | other (closeReason : String)

structure System (V : Type u) where
  alive : Bool
  bridge : Bridge
  runState : RunState
  inbox : List Nat
  pending : List (PendingCall V)
  workerRun : Nat
  nextCall : Nat
  channel : List (Message V)
  sequencer : RunSequencer
  runInFlight : Bool
  terminated : Bool
  disposed : Bool
  runs : Nat
  log : List (Stamp V)
  deriving DecidableEq

inductive Action (V : Type u) where
  | run
  | handleRun
  | request (clock : Clock) (options : RequestOptions V)
  | leaf (clock : Clock) (kind name : String) (extra : EmitExtra V)
  | settle (i : Nat) (clock : Clock) (outcome : Outcome V)
  | finalizeRun
  | restored
  | restoreFailed
  | deliver
  | workerError (death : Death V)
  | workerExit (death : Death V)
  | dispose

namespace System

/-- The sandbox right after its init handshake. -/
def init : System V where
  alive := true
  bridge := Bridge.create
  runState := .ready
  inbox := []
  pending := []
  workerRun := 0
  nextCall := 0
  channel := []
  sequencer := createRunSequencer
  runInFlight := false
  terminated := false
  disposed := false
  runs := 0
  log := []

/-! ## The worker -/

/-- `port.postMessage` of an event, when the bridge did not suppress it. -/
def post (s : System V) (tag : Option CallTag) : Option (WireEvent V) → System V
  | none => s
  | some wire => { s with channel := s.channel ++ [.event wire tag] }

def handleRun (s : System V) : Option (System V) :=
  match s.inbox with
  | [] => none
  | r :: inbox =>
    if s.alive ∧ s.runState ≠ .restoring ∧ s.runState ≠ .running then
      some { s with
        inbox := inbox
        runState := .running
        bridge := s.bridge.resetCallIds.setRunActive
        workerRun := r }
    else none

def request (s : System V) (clock : Clock) (options : RequestOptions V) : Option (System V) :=
  if s.alive then
    let built := emitRequest s.bridge clock options
    let tag : CallTag := ⟨s.nextCall, if s.bridge.runActive then some s.workerRun else none⟩
    let s' : System V :=
      { s with
        bridge := built.bridge
        nextCall := s.nextCall + 1
        pending := s.pending ++ [⟨tag, built.callId, options⟩] }
    some (s'.post (some tag) built.event)
  else none

def leaf (s : System V) (clock : Clock) (kind name : String) (extra : EmitExtra V) :
    Option (System V) :=
  if s.alive then some (s.post none (s.bridge.buildEvent clock kind name .leaf extra).event)
  else none

def settle (s : System V) (i : Nat) (clock : Clock) (outcome : Outcome V) : Option (System V) :=
  match s.pending[i]? with
  | none => none
  | some p =>
    let s' : System V := { s with pending := s.pending.eraseIdx i }
    if s.alive then
      some (s'.post (some p.tag) (emitSettlement s.bridge clock p.options p.callId outcome).event)
    else none

def finalizeRun (s : System V) : Option (System V) :=
  if s.alive ∧ s.runState = .running then
    some { s with
      bridge := s.bridge.clearRunActive
      runState := .restoring
      channel := s.channel ++ [.done] }
  else none

def restored (s : System V) : Option (System V) :=
  if s.alive ∧ s.runState = .restoring then
    some { s with bridge := s.bridge.rebind, runState := .ready }
  else none

def restoreFailed (s : System V) : Option (System V) :=
  if s.alive ∧ s.runState = .restoring then
    some { s with runState := .dead, channel := s.channel ++ [.restoreFailed] }
  else none

/-! ## The main thread -/

/-- `sandbox.run`; a rejected call changes nothing. -/
def run (s : System V) : System V :=
  if s.disposed ∨ s.terminated ∨ s.runInFlight then s
  else
    { s with
      runInFlight := true
      sequencer := s.sequencer.start.1
      runs := s.runs + 1
      inbox := s.inbox ++ [s.runs + 1] }

def record (s : System V) (origin : Origin V) (events : List (SandboxEvent V)) : System V :=
  { s with log := s.log ++ events.map fun event => ⟨s.runs, origin, event⟩ }

/-- `sequencer.finish(opts)` and the settlement of the run promise. -/
def finalize (s : System V) (closeReason : Option String) : System V :=
  let finished := s.sequencer.finish closeReason
  { s.record .synthesised finished.events with
    sequencer := finished.state
    runInFlight := false }

/-- `sequencer.next(wire)` and the forwarding of its event. -/
def dispatch (s : System V) (origin : Origin V) (wire : WireEvent V) : System V :=
  let r := s.sequencer.next wire
  { s.record origin r.event.toList with sequencer := r.state }

def limitLeaf (dim : String) (clock : Clock) (input : V) : WireEvent V where
  kind := "system.exhaustion"
  name := dim
  ts := clock.ts
  atIso := clock.atIso
  input := some input
  output := none
  error := none
  type := .leaf

def handleDeath (s : System V) (death : Death V) : System V :=
  if s.runInFlight then
    match death with
    | .limit dim clock input =>
      (s.dispatch .limitLeaf (limitLeaf dim clock input)).finalize (some ("limit:" ++ dim))
    | .other closeReason => s.finalize (some closeReason)
  else s

def deliver (s : System V) : Option (System V) :=
  match s.channel with
  | [] => none
  | message :: channel =>
    let s := { s with channel := channel }
    match message with
    | .event wire tag => some (s.dispatch (.wire wire tag) wire)
    | .done => some (if s.runInFlight then s.finalize none else s)
    | .restoreFailed => some (if s.disposed then s else { s with terminated := true })

/-- The `error` event may overtake messages on the port; it does not set `terminatedCause`. -/
def workerError (s : System V) (death : Death V) : Option (System V) :=
  if s.alive then some ({ s with alive := false }.handleDeath death) else none

/-- The `exit` event comes after the port is drained; what is left on it is lost. -/
def workerExit (s : System V) (death : Death V) : System V :=
  { s with
    alive := false
    channel := []
    terminated := s.terminated || !s.disposed }.handleDeath death

def step (s : System V) : Action V → Option (System V)
  | .run => some s.run
  | .handleRun => s.handleRun
  | .request clock options => s.request clock options
  | .leaf clock kind name extra => s.leaf clock kind name extra
  | .settle i clock outcome => s.settle i clock outcome
  | .finalizeRun => s.finalizeRun
  | .restored => s.restored
  | .restoreFailed => s.restoreFailed
  | .deliver => s.deliver
  | .workerError death => s.workerError death
  | .workerExit death => some (s.workerExit death)
  | .dispose => some { s with disposed := true }

end System

end WorkflowEngine.Sandbox
