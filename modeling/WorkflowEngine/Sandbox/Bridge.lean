import WorkflowEngine.Sandbox.Protocol

/-!
# The worker-side emission path

Model of `bridge.ts` (`toWireFraming`, `buildEvent` and the run-window gate) and
of `pluginEmit` and the open and close of `pluginRequest` in `plugin.ts`. The
clock readings of an emission are inputs.
-/

namespace WorkflowEngine.Sandbox

set_option autoImplicit false

universe u
variable {V : Type u}

/-- `"leaf" | "open" | { close: callId }`, as SDK callers write it. -/
inductive EmitFraming where
  | leaf
  | openCall
  | closeCall (callId : Nat)
  deriving DecidableEq

structure Bridge where
  nextCallId : Nat
  runActive : Bool
  deriving DecidableEq

structure Clock where
  ts : Int
  atIso : String
  deriving DecidableEq

structure EmitExtra (V : Type u) where
  input : Option V
  output : Option V
  error : Option (EventError V)
  deriving DecidableEq

structure BuildResult (V : Type u) where
  bridge : Bridge
  event : Option (WireEvent V)
  callId : Nat

namespace Bridge

def create : Bridge := ⟨0, false⟩

def resetCallIds (b : Bridge) : Bridge := { b with nextCallId := 0 }

def setRunActive (b : Bridge) : Bridge := { b with runActive := true }

def clearRunActive (b : Bridge) : Bridge := { b with runActive := false }

def rebind (b : Bridge) : Bridge := { b with runActive := false, nextCallId := 0 }

def toWireFraming (b : Bridge) : EmitFraming → Bridge × WireFraming × Nat
  | .leaf => (b, .leaf, 0)
  | .openCall => ({ b with nextCallId := b.nextCallId + 1 }, .openCall b.nextCallId, b.nextCallId)
  | .closeCall callId => (b, .closeCall callId, 0)

def buildEvent (b : Bridge) (clock : Clock) (kind name : String) (framing : EmitFraming)
    (extra : EmitExtra V) : BuildResult V :=
  if b.runActive then
    let (b', wireType, assignedId) := b.toWireFraming framing
    ⟨b', some {
        kind := kind, name := name, ts := clock.ts, atIso := clock.atIso, input := extra.input,
        output := extra.output, error := extra.error, type := wireType }, assignedId⟩
  else ⟨b, none, 0⟩

end Bridge

structure RequestOptions (V : Type u) where
  kindPrefix : String
  name : String
  input : Option V
  deriving DecidableEq

/-- How a wrapped call ends: `emitResponse`, or one of the two `emitErrorFrom` paths. -/
inductive Outcome (V : Type u) where
  | response (output : Option V)
  | error (error : EventError V)
  deriving DecidableEq

/-- The open of `pluginRequest`; its `callId` is what the call captures. -/
def emitRequest (b : Bridge) (clock : Clock) (options : RequestOptions V) : BuildResult V :=
  b.buildEvent clock (options.kindPrefix ++ ".request") options.name .openCall
    ⟨options.input, none, none⟩

/-- The close of `pluginRequest`, with the captured `callId`. -/
def emitSettlement (b : Bridge) (clock : Clock) (options : RequestOptions V) (callId : Nat) :
    Outcome V → BuildResult V
  | .response output =>
    b.buildEvent clock (options.kindPrefix ++ ".response") options.name (.closeCall callId)
      ⟨options.input, output, none⟩
  | .error error =>
    b.buildEvent clock (options.kindPrefix ++ ".error") options.name (.closeCall callId)
      ⟨options.input, none, some error⟩

theorem emitRequest_inactive {b : Bridge} (hb : b.runActive = false) (clock : Clock)
    (options : RequestOptions V) : emitRequest b clock options = ⟨b, none, 0⟩ := by
  simp [emitRequest, Bridge.buildEvent, hb]

theorem emitRequest_active {b : Bridge} (hb : b.runActive = true) (clock : Clock)
    (options : RequestOptions V) :
    ∃ wire : WireEvent V, wire.type = .openCall b.nextCallId ∧
      wire.kind = options.kindPrefix ++ ".request" ∧
      emitRequest b clock options =
        ⟨{ b with nextCallId := b.nextCallId + 1 }, some wire, b.nextCallId⟩ := by
  simp [emitRequest, Bridge.buildEvent, Bridge.toWireFraming, hb]

theorem emitSettlement_inactive {b : Bridge} (hb : b.runActive = false) (clock : Clock)
    (options : RequestOptions V) (callId : Nat) (outcome : Outcome V) :
    emitSettlement b clock options callId outcome = ⟨b, none, 0⟩ := by
  cases outcome <;> simp [emitSettlement, Bridge.buildEvent, hb]

def Outcome.kindSuffix : Outcome V → String
  | .response _ => ".response"
  | .error _ => ".error"

theorem emitSettlement_active {b : Bridge} (hb : b.runActive = true) (clock : Clock)
    (options : RequestOptions V) (callId : Nat) (outcome : Outcome V) :
    ∃ wire : WireEvent V, wire.type = .closeCall callId ∧
      wire.kind = options.kindPrefix ++ outcome.kindSuffix ∧
      emitSettlement b clock options callId outcome = ⟨b, some wire, 0⟩ := by
  cases outcome <;>
    simp [emitSettlement, Bridge.buildEvent, Bridge.toWireFraming, hb, Outcome.kindSuffix]

end WorkflowEngine.Sandbox
