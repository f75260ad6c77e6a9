import Mathlib.Data.List.Basic

/-!
# Worker termination

Model of `worker-termination.ts`: the state machine that turns the worker's
`error` and `exit` events, the CPU watchdog and the typed `restore-failed`
message into one `TerminationCause`. Operations that call `dispatch` return the
cause that the registered callback receives. The watchdog slot holds the budget
of the armed timer, so a disarmed watchdog is `none`.
-/

namespace WorkflowEngine.Sandbox

set_option autoImplicit false

/-- An `Error` with the own properties that `isSandboxLimitError` reads; `dim` is `none` unless it
is a string, `observed` unless it is a finite number. -/
structure WorkerError where
  name : String
  message : String
  dim : Option String
  observed : Option Int
  deriving DecidableEq

/-- `new Error(message)`. -/
def WorkerError.new (message : String) : WorkerError := ⟨"Error", message, none, none⟩

/-- The value of a worker `error` event. -/
inductive Thrown where
  | error (err : WorkerError)
  | other (text : String)
  deriving DecidableEq

def Thrown.asError : Thrown → WorkerError
  | .error err => err
  | .other text => .new text

inductive LimitDim where
  | cpu
  | output
  | pending
  deriving DecidableEq

def LimitDim.text : LimitDim → String
  | .cpu => "cpu"
  | .output => "output"
  | .pending => "pending"

inductive TerminationCause where
  | limit (dim : LimitDim) (observed : Option Int)
  | crash (err : WorkerError)
  | restoreFailed (err : WorkerError)
  deriving DecidableEq

def SANDBOX_LIMIT_ERROR_NAME : String := "SandboxLimitError"

/-- `isSandboxLimitError`, with the dimension it accepts. -/
def sandboxLimitDim (err : WorkerError) : Option LimitDim :=
  if err.name ≠ SANDBOX_LIMIT_ERROR_NAME then none
  else if err.dim = some "output" then some .output
  else if err.dim = some "pending" then some .pending
  else none

/-- The mutable state that the closure of `createWorkerTermination` holds. -/
structure WorkerTermination where
  lastError : Option WorkerError
  disposing : Bool
  cpuBudgetExpired : Bool
  observedOnExpiry : Option Int
  fired : Bool
  startedAt : Int
  watchdog : Option Nat
  restoreFailedErr : Option WorkerError
  deriving DecidableEq

def createWorkerTermination : WorkerTermination :=
  ⟨none, false, false, none, false, 0, none, none⟩

namespace WorkerTermination

def dispatch (t : WorkerTermination) (cause : TerminationCause) :
    WorkerTermination × Option TerminationCause :=
  if t.fired then (t, none) else ({ t with fired := true }, some cause)

def classify (t : WorkerTermination) : TerminationCause :=
  match t.restoreFailedErr with
  | some err => .restoreFailed err
  | none =>
    if t.cpuBudgetExpired then .limit .cpu t.observedOnExpiry
    else
      match t.lastError with
      | none => .crash (.new "worker exited")
      | some err =>
        match sandboxLimitDim err with
        | some dim => .limit dim err.observed
        | none => .crash err

/-- The `error` listener: the first error wins. -/
def onError (t : WorkerTermination) (thrown : Thrown) : WorkerTermination :=
  match t.lastError with
  | some _ => t
  | none => { t with lastError := some thrown.asError }

/-- The `exit` listener. -/
def onExit (t : WorkerTermination) : WorkerTermination × Option TerminationCause :=
  if t.disposing then (t, none) else t.dispatch t.classify

def armCpuBudget (t : WorkerTermination) (now : Int) (ms : Nat) : WorkerTermination :=
  { t with startedAt := now, cpuBudgetExpired := false, observedOnExpiry := none,
           watchdog := some ms }

/-- The watchdog callback, up to its call of `worker.terminate()`. -/
def expire (t : WorkerTermination) (now : Int) : WorkerTermination :=
  { t with watchdog := none, cpuBudgetExpired := true, observedOnExpiry := some (now - t.startedAt) }

def disarmCpuBudget (t : WorkerTermination) : WorkerTermination := { t with watchdog := none }

def markDisposing (t : WorkerTermination) : WorkerTermination :=
  { t with disposing := true, watchdog := none }

def markRestoreFailed (t : WorkerTermination) (err : WorkerError) :
    WorkerTermination × Option TerminationCause :=
  if t.disposing then (t, none)
  else
    let t := { t with restoreFailedErr := t.restoreFailedErr <|> some err }
    t.dispatch t.classify

def cause (t : WorkerTermination) : Option TerminationCause :=
  if t.disposing then none
  else if t.cpuBudgetExpired ∨ t.lastError.isSome ∨ t.restoreFailedErr.isSome then some t.classify
  else none

/-! ## What one operation can do -/

/-- `dispatch` hands its cause on exactly when none was handed on before. -/
theorem dispatch_cases (t : WorkerTermination) (c : TerminationCause) :
    t.dispatch c = (t, none) ∧ t.fired = true ∨
      t.dispatch c = ({ t with fired := true }, some c) ∧ t.fired = false := by
  unfold dispatch
  cases h : t.fired with
  | false => exact Or.inr ⟨by simp, rfl⟩
  | true => exact Or.inl ⟨by simp, rfl⟩

/-- The outcome of an operation that may dispatch: silent once a cause was handed on or the sandbox
is being disposed, and otherwise one cause with `fired` set. -/
structure Dispatches (t : WorkerTermination) (r : WorkerTermination × Option TerminationCause) :
    Prop where
  disposing : r.1.disposing = t.disposing
  watchdog : r.1.watchdog = t.watchdog
  silent : r.2 = none → r.1.fired = t.fired ∧ (t.disposing = true ∨ t.fired = true)
  once : r.2.isSome → r.1.fired = true ∧ t.fired = false ∧ t.disposing = false

theorem dispatch_dispatches (t u : WorkerTermination) (c : TerminationCause)
    (hd : u.disposing = t.disposing) (hw : u.watchdog = t.watchdog) (hf : u.fired = t.fired)
    (hn : t.disposing = false) : t.Dispatches (u.dispatch c) := by
  rcases dispatch_cases u c with ⟨h, hfired⟩ | ⟨h, hfired⟩
  · rw [h]
    exact ⟨hd, hw, fun _ => ⟨hf, Or.inr (hf ▸ hfired)⟩, fun hc => by simp at hc⟩
  · rw [h]
    exact ⟨hd, hw, fun hc => by simp at hc, fun _ => ⟨rfl, hf ▸ hfired, hn⟩⟩

theorem onExit_dispatches (t : WorkerTermination) : t.Dispatches t.onExit := by
  unfold onExit
  split
  · rename_i h
    exact ⟨rfl, rfl, fun _ => ⟨rfl, Or.inl h⟩, fun hc => by simp at hc⟩
  · rename_i h
    exact dispatch_dispatches t t _ rfl rfl rfl (by simpa using h)

theorem markRestoreFailed_dispatches (t : WorkerTermination) (err : WorkerError) :
    t.Dispatches (t.markRestoreFailed err) := by
  unfold markRestoreFailed
  split
  · rename_i h
    exact ⟨rfl, rfl, fun _ => ⟨rfl, Or.inl h⟩, fun hc => by simp at hc⟩
  · rename_i h
    exact dispatch_dispatches t _ _ rfl rfl rfl (by simpa using h)

@[simp] theorem onError_disposing (t : WorkerTermination) (thrown : Thrown) :
    (t.onError thrown).disposing = t.disposing := by
  unfold onError; split <;> rfl

@[simp] theorem onError_watchdog (t : WorkerTermination) (thrown : Thrown) :
    (t.onError thrown).watchdog = t.watchdog := by
  unfold onError; split <;> rfl

@[simp] theorem onError_fired (t : WorkerTermination) (thrown : Thrown) :
    (t.onError thrown).fired = t.fired := by
  unfold onError; split <;> rfl

end WorkerTermination

end WorkflowEngine.Sandbox
