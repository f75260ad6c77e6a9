import Mathlib.Data.List.Basic

/-!
# Wire protocol between the sandbox worker and the main thread

The event types of `protocol.ts` and `core/src/index.ts`. Payload values are
opaque to the framing code, so they are a type parameter `V`. The field `at`
(an ISO timestamp) is `atIso`, because `at` is a Lean keyword.
-/

namespace WorkflowEngine.Sandbox

set_option autoImplicit false

universe u

/-- `InvocationEventError`. -/
structure EventError (V : Type u) where
  message : String
  stack : Option String
  issues : Option V
  kind : Option String
  deriving DecidableEq

/-- The fields that every event carries from the bridge to the store. -/
structure EventInfo (V : Type u) where
  kind : String
  name : String
  ts : Int
  atIso : String
  input : Option V
  output : Option V
  error : Option (EventError V)
  deriving DecidableEq

/-- `"leaf" | { open: callId } | { close: callId }`. -/
inductive WireFraming where
  | leaf
  | openCall (callId : Nat)
  | closeCall (callId : Nat)
  deriving DecidableEq

structure WireEvent (V : Type u) extends EventInfo V where
  type : WireFraming
  deriving DecidableEq

structure SandboxEvent (V : Type u) extends EventInfo V where
  seq : Nat
  ref : Option Nat
  deriving DecidableEq

/-- The callId an event opens, if it is an open. -/
def WireFraming.opens : WireFraming → Option Nat
  | .openCall callId => some callId
  | _ => none

end WorkflowEngine.Sandbox
