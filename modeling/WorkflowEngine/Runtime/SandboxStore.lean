import WorkflowEngine.Lib.Transition
import WorkflowEngine.Runtime.Manifest

/-!
# The sandbox cache under the executor

`createSandboxStore` of `sandbox-store.ts` together with its only user, `invoke`
of `executor/index.ts`. The code between two awaits is one step: `get` with its
sweep, the callbacks on a build promise, the turn of an invocation in the run
queue of its sandbox, the settlement of a run and of the event tail. A build
promise and the sandbox that it resolves to share one index into `sandboxes`.
-/

namespace WorkflowEngine.Runtime

open Lib
set_option autoImplicit false

/-- `fromJSONSchema` is zod's; `Z` are its validators. -/
structure SandboxStoreOptions (Z : Type) where
  keyStore : SecretsKeyStore
  fromJSONSchema : Json → Except String Z
  maxCount : Nat

/-- What `buildPluginDescriptors` and `buildQueueHostHandlersFor` close over. -/
structure WorkflowConfig (Z : Type) where
  name : String
  env : OrderedMap String String
  plaintextStore : OrderedMap String String
  hostCallAction : HostCallActionConfig
  validators : OrderedMap String Z

inductive BuildStatus where
  | building
  | ready
  | failed (message : String)
  deriving DecidableEq

/-- One `sandboxFactory.create` call, and the sandbox once it is ready. `runQueue` is the
executor's serializer for it: the invocations whose turn has not settled, the current one first. -/
structure SandboxCell (Z : Type) where
  key : String
  owner : String
  source : String
  filename : String
  config : WorkflowConfig Z
  status : BuildStatus
  runInFlight : Bool
  terminated : Option String
  disposed : Bool
  runQueue : List Nat

structure CacheEntry where
  key : String
  owner : String
  sha : String
  sandbox : Nat
  runCount : Nat
  deriving DecidableEq

/-- Why an invocation gets an error result. -/
inductive RunError where
  | disposed
  | died (cause : String)
  | concurrent
  | failed (message : String)
  deriving DecidableEq

def RunError.message : RunError → String
  | .disposed => "Sandbox is disposed"
  | .died cause => "Sandbox worker has died: " ++ cause
  | .concurrent => "sandbox.run: concurrent run not permitted; a previous run is still in flight"
  | .failed message => message

abbrev InvokeResult := Except RunError Unit

/-- Where an invocation stands between the awaits of `invoke` and `runInvocationWith`. -/
inductive InvokePhase where
  | awaiting (sandbox : Nat)
  | queued (sandbox : Nat)
  | running (sandbox : Nat)
  | emitting (sandbox : Nat) (result : InvokeResult)
  | settled (result : InvokeResult)
  | rejected (message : String)
  deriving DecidableEq

/-- A call of `get` that was answered with a promise. -/
structure GetCall where
  owner : String
  workflow : WorkflowManifest
  sandbox : Nat

/-- The store's own `dispose`: it polls until no run is in flight or the deadline passes, clears the
cache, and then waits for the build promises of the entries that were in it. -/
inductive DisposePhase where
  | notCalled
  | draining
  | cleared (pending : List CacheEntry)
  deriving DecidableEq

/-- `gets` is the history of answered calls, newest first. -/
structure SandboxStore (Z : Type) where
  cache : OrderedMap String CacheEntry
  sandboxes : List (SandboxCell Z)
  gets : List GetCall
  invocations : List InvokePhase
  dispose : DisposePhase

def storeKey (owner sha : String) : String := owner ++ "/" ++ sha

section Config
variable {Z : Type} (options : SandboxStoreOptions Z)

def queueValidators (workflow : WorkflowManifest) : Except String (OrderedMap String Z) :=
  workflow.queues.foldlM (fun validators q => do
    let validator ← options.fromJSONSchema q.schema
    return validators.set q.name validator) .empty

/-- `buildPluginDescriptors`, then `buildQueueHostHandlersFor`; either can throw. -/
def workflowConfig (workflow : WorkflowManifest) : Except String (WorkflowConfig Z) := do
  let hostCallAction := compileActionValidators workflow
  let plaintextStore ← decryptWorkflowSecrets workflow options.keyStore
  let validators ← queueValidators options workflow
  return {
    name := workflow.name
    env := workflow.env
    plaintextStore := plaintextStore
    hostCallAction := hostCallAction
    validators := validators }

end Config

namespace SandboxStore

variable {Z : Type}

def create : SandboxStore Z := ⟨.empty, [], [], [], .notCalled⟩

def mapSandbox (s : SandboxStore Z) (b : Nat) (f : SandboxCell Z → SandboxCell Z) : SandboxStore Z :=
  { s with sandboxes := s.sandboxes.modify b f }

def setPhase (s : SandboxStore Z) (i : Nat) (p : InvokePhase) : SandboxStore Z :=
  { s with invocations := s.invocations.set i p }

def statusOf (s : SandboxStore Z) (b : Nat) : Option BuildStatus := (s.sandboxes[b]?).map (·.status)

/-- The entry's sandbox is built and `isActive` is false. -/
def evictable (s : SandboxStore Z) (e : CacheEntry) : Bool :=
  match s.sandboxes[e.sandbox]? with
  | some c => c.status = .ready && !c.runInFlight
  | none => false

/-- The first loop of `sweep`, over `cache.values()`. -/
def victims (s : SandboxStore Z) (maxCount : Nat) : Nat → List CacheEntry → List CacheEntry
  | _, [] => []
  | remaining, e :: es =>
    if remaining ≤ maxCount then []
    else if s.evictable e then e :: s.victims maxCount (remaining - 1) es
    else s.victims maxCount remaining es

/-- `sb.dispose()` of an entry whose sandbox is set. -/
def disposeEntry (s : SandboxStore Z) (e : CacheEntry) : SandboxStore Z :=
  s.mapSandbox e.sandbox fun c => { c with disposed := true }

def evict (s : SandboxStore Z) (e : CacheEntry) : SandboxStore Z :=
  { s with cache := s.cache.delete e.key }.disposeEntry e

def sweep (s : SandboxStore Z) (maxCount : Nat) : SandboxStore Z :=
  if s.cache.size ≤ maxCount then s
  else (s.victims maxCount s.cache.size s.cache.values).foldl evict s

def hit (s : SandboxStore Z) (owner : String) (workflow : WorkflowManifest) (existing : CacheEntry) :
    SandboxStore Z :=
  let key := storeKey owner workflow.sha
  { s with
    cache := (s.cache.delete key).set key { existing with runCount := existing.runCount + 1 }
    gets := ⟨owner, workflow, existing.sandbox⟩ :: s.gets }

def insert (s : SandboxStore Z) (owner : String) (workflow : WorkflowManifest) (bundleSource : String)
    (config : WorkflowConfig Z) : SandboxStore Z :=
  let key := storeKey owner workflow.sha
  let b := s.sandboxes.length
  { s with
    cache := s.cache.set key ⟨key, owner, workflow.sha, b, 1⟩
    sandboxes := s.sandboxes ++
      [⟨key, owner, bundleSource, workflow.name ++ ".js", config, .building, false, none, false, []⟩]
    gets := ⟨owner, workflow, b⟩ :: s.gets }

/-- `get`: the store after the call and the promise that it returns; an error is thrown. -/
def get (options : SandboxStoreOptions Z) (s : SandboxStore Z) (owner : String)
    (workflow : WorkflowManifest) (bundleSource : String) : Except String (SandboxStore Z × Nat) :=
  match s.cache.get? (storeKey owner workflow.sha) with
  | some existing => .ok (s.hit owner workflow existing, existing.sandbox)
  | none =>
    match workflowConfig options workflow with
    | .error message => .error message
    | .ok config =>
      .ok ((s.insert owner workflow bundleSource config).sweep options.maxCount, s.sandboxes.length)

/-- `if (cache.get(key) === entry) cache.delete(key)` for the entry of build `b`. -/
def forget (s : SandboxStore Z) (b : Nat) : SandboxStore Z :=
  match s.sandboxes[b]? with
  | none => s
  | some c =>
    match s.cache.get? c.key with
    | some e => if e.sandbox = b then { s with cache := s.cache.delete c.key } else s
    | none => s

/-- `sb.run`: the rejection it answers with at once, if any. -/
def runGuard (c : SandboxCell Z) : Option RunError :=
  if c.disposed then some .disposed
  else
    match c.terminated with
    | some cause => some (.died cause)
    | none => if c.runInFlight then some .concurrent else none

end SandboxStore

inductive StoreAct where
  | invoke (owner : String) (workflow : WorkflowManifest) (bundleSource : String)
  | buildResolved (sandbox : Nat)
  | buildRejected (sandbox : Nat) (message : String)
  | resume (invocation : Nat)
  | startRun (invocation : Nat)
  | settleRun (invocation : Nat) (result : Except String Unit)
  | finish (invocation : Nat)
  | terminate (sandbox : Nat) (cause : String)
  | dispose
  | disposeClear
  | disposeSettled (entry : CacheEntry)

namespace SandboxStore

variable {Z : Type}

/-- `invoke` up to its first await. -/
def invoke (options : SandboxStoreOptions Z) (s : SandboxStore Z) (owner : String)
    (workflow : WorkflowManifest) (bundleSource : String) : SandboxStore Z :=
  match s.get options owner workflow bundleSource with
  | .error message => { s with invocations := s.invocations ++ [.rejected message] }
  | .ok (t, b) => { t with invocations := t.invocations ++ [.awaiting b] }

def resume (s : SandboxStore Z) (i : Nat) : Option (SandboxStore Z) :=
  match s.invocations[i]? with
  | some (.awaiting b) =>
    match s.statusOf b with
    | some .ready =>
      some ((s.mapSandbox b fun c => { c with runQueue := c.runQueue ++ [i] }).setPhase i (.queued b))
    | some (.failed message) => some (s.setPhase i (.rejected message))
    | _ => none
  | _ => none

def startRun (s : SandboxStore Z) (i : Nat) : Option (SandboxStore Z) :=
  match s.invocations[i]? with
  | some (.queued b) =>
    match s.sandboxes[b]? with
    | none => none
    | some c =>
      if c.runQueue.head? = some i then
        match runGuard c with
        | some err => some (s.setPhase i (.emitting b (.error err)))
        | none => some ((s.mapSandbox b fun c => { c with runInFlight := true }).setPhase i (.running b))
      else none
  | _ => none

/-- The promise of `sb.run` settles. `dispose` has already rejected the run of a disposed sandbox,
and its flag stays up until the worker exits. -/
def settleRun (s : SandboxStore Z) (i : Nat) (result : Except String Unit) : Option (SandboxStore Z) :=
  match s.invocations[i]? with
  | some (.running b) =>
    match s.sandboxes[b]? with
    | none => none
    | some c =>
      if c.disposed then some (s.setPhase i (.emitting b (.error .disposed)))
      else
        some ((s.mapSandbox b fun c => { c with runInFlight := false }).setPhase i
          (.emitting b (result.mapError .failed)))
  | _ => none

/-- The event tail is flushed: the turn settles and the next one may start. -/
def finish (s : SandboxStore Z) (i : Nat) : Option (SandboxStore Z) :=
  match s.invocations[i]? with
  | some (.emitting b result) =>
    some ((s.mapSandbox b fun c => { c with runQueue := c.runQueue.erase i }).setPhase i (.settled result))
  | _ => none

def settleBuild (s : SandboxStore Z) (b : Nat) (status : BuildStatus) : Option (SandboxStore Z) :=
  match s.sandboxes[b]? with
  | some c => if c.status = .building then some (s.mapSandbox b fun c => { c with status := status }) else none
  | none => none

/-- The worker dies: `onTerminated` evicts the entry. Suppressed once `dispose` was called. -/
def terminate (s : SandboxStore Z) (b : Nat) (cause : String) : Option (SandboxStore Z) :=
  match s.sandboxes[b]? with
  | some c =>
    if c.status = .ready ∧ c.terminated = none ∧ c.disposed = false then
      some ((s.forget b).mapSandbox b fun c => { c with terminated := some cause })
    else none
  | none => none

/-- The callback of `dispose` on the promise of one entry of its snapshot. -/
def disposeSettled (s : SandboxStore Z) (e : CacheEntry) : Option (SandboxStore Z) :=
  match s.dispose with
  | .cleared pending =>
    if e ∈ pending then
      match s.statusOf e.sandbox with
      | some .ready => some ({ s with dispose := .cleared (pending.erase e) }.disposeEntry e)
      | some (.failed _) => some { s with dispose := .cleared (pending.erase e) }
      | _ => none
    else none
  | _ => none

def step (options : SandboxStoreOptions Z) (s : SandboxStore Z) : StoreAct → Option (SandboxStore Z)
  | .invoke owner workflow bundleSource => some (s.invoke options owner workflow bundleSource)
  | .buildResolved b => s.settleBuild b .ready
  | .buildRejected b message => (s.settleBuild b (.failed message)).map (·.forget b)
  | .resume i => s.resume i
  | .startRun i => s.startRun i
  | .settleRun i result => s.settleRun i result
  | .finish i => s.finish i
  | .terminate b cause => s.terminate b cause
  | .dispose => if s.dispose = .notCalled then some { s with dispose := .draining } else none
  | .disposeClear =>
    if s.dispose = .draining then
      some { s with cache := .empty, dispose := .cleared s.cache.values }
    else none
  | .disposeSettled e => s.disposeSettled e

/-- Everything a step can do, with what it found. -/
inductive Stepped (options : SandboxStoreOptions Z) (s : SandboxStore Z) :
    StoreAct → SandboxStore Z → Prop
  | threw (owner : String) (workflow : WorkflowManifest) (bundleSource message : String) :
    s.cache.get? (storeKey owner workflow.sha) = none →
    Stepped options s (.invoke owner workflow bundleSource)
      { s with invocations := s.invocations ++ [.rejected message] }
  | hit (owner : String) (workflow : WorkflowManifest) (bundleSource : String) (e : CacheEntry) :
    s.cache.get? (storeKey owner workflow.sha) = some e →
    Stepped options s (.invoke owner workflow bundleSource)
      { s.hit owner workflow e with invocations := s.invocations ++ [.awaiting e.sandbox] }
  | missed (owner : String) (workflow : WorkflowManifest) (bundleSource : String)
      (config : WorkflowConfig Z) (t : SandboxStore Z) :
    s.cache.get? (storeKey owner workflow.sha) = none →
    workflowConfig options workflow = .ok config →
    t = (s.insert owner workflow bundleSource config).sweep options.maxCount →
    Stepped options s (.invoke owner workflow bundleSource)
      { t with invocations := t.invocations ++ [.awaiting s.sandboxes.length] }
  | built (b : Nat) (c : SandboxCell Z) :
    s.sandboxes[b]? = some c → c.status = .building →
    Stepped options s (.buildResolved b) (s.mapSandbox b fun c => { c with status := .ready })
  | buildFailed (b : Nat) (message : String) (c : SandboxCell Z) :
    s.sandboxes[b]? = some c → c.status = .building →
    Stepped options s (.buildRejected b message)
      ((s.mapSandbox b fun c => { c with status := .failed message }).forget b)
  | enqueued (i b : Nat) :
    s.invocations[i]? = some (.awaiting b) → s.statusOf b = some .ready →
    Stepped options s (.resume i)
      ((s.mapSandbox b fun c => { c with runQueue := c.runQueue ++ [i] }).setPhase i (.queued b))
  | rejected (i b : Nat) (message : String) :
    s.invocations[i]? = some (.awaiting b) →
    Stepped options s (.resume i) (s.setPhase i (.rejected message))
  | refused (i b : Nat) (c : SandboxCell Z) (err : RunError) :
    s.invocations[i]? = some (.queued b) → s.sandboxes[b]? = some c → runGuard c = some err →
    Stepped options s (.startRun i) (s.setPhase i (.emitting b (.error err)))
  | started (i b : Nat) (c : SandboxCell Z) :
    s.invocations[i]? = some (.queued b) → s.sandboxes[b]? = some c → runGuard c = none →
    Stepped options s (.startRun i)
      ((s.mapSandbox b fun c => { c with runInFlight := true }).setPhase i (.running b))
  | cutOff (i b : Nat) (c : SandboxCell Z) (result : Except String Unit) :
    s.invocations[i]? = some (.running b) → s.sandboxes[b]? = some c → c.disposed = true →
    Stepped options s (.settleRun i result) (s.setPhase i (.emitting b (.error .disposed)))
  | ran (i b : Nat) (c : SandboxCell Z) (result : Except String Unit) :
    s.invocations[i]? = some (.running b) → s.sandboxes[b]? = some c → c.disposed = false →
    Stepped options s (.settleRun i result)
      ((s.mapSandbox b fun c => { c with runInFlight := false }).setPhase i
        (.emitting b (result.mapError .failed)))
  | finished (i b : Nat) (result : InvokeResult) :
    s.invocations[i]? = some (.emitting b result) →
    Stepped options s (.finish i)
      ((s.mapSandbox b fun c => { c with runQueue := c.runQueue.erase i }).setPhase i (.settled result))
  | terminated (b : Nat) (cause : String) :
    Stepped options s (.terminate b cause)
      ((s.forget b).mapSandbox b fun c => { c with terminated := some cause })
  | disposeCalled : Stepped options s .dispose { s with dispose := .draining }
  | disposeCleared (pending : List CacheEntry) : s.dispose = .draining →
    Stepped options s .disposeClear { s with cache := .empty, dispose := .cleared pending }
  | entryDisposed (e : CacheEntry) (pending pending' : List CacheEntry) :
    s.dispose = .cleared pending →
    Stepped options s (.disposeSettled e) ({ s with dispose := .cleared pending' }.disposeEntry e)
  | entryFailed (e : CacheEntry) (pending pending' : List CacheEntry) :
    s.dispose = .cleared pending →
    Stepped options s (.disposeSettled e) { s with dispose := .cleared pending' }

theorem stepped_invoke (options : SandboxStoreOptions Z) (s : SandboxStore Z) (owner : String)
    (workflow : WorkflowManifest) (bundleSource : String) :
    Stepped options s (.invoke owner workflow bundleSource)
      (s.invoke options owner workflow bundleSource) := by
  unfold invoke get
  cases hget : s.cache.get? (storeKey owner workflow.sha) with
  | some e => exact .hit owner workflow bundleSource e hget
  | none =>
    cases hconfig : workflowConfig options workflow with
    | error message => exact .threw owner workflow bundleSource message hget
    | ok config => exact .missed owner workflow bundleSource config _ hget hconfig rfl

theorem stepped_settleBuild {s t : SandboxStore Z} {b : Nat} {status : BuildStatus}
    (h : s.settleBuild b status = some t) :
    ∃ c, s.sandboxes[b]? = some c ∧ c.status = .building ∧
      t = s.mapSandbox b fun c => { c with status := status } := by
  unfold settleBuild at h
  split at h
  · rename_i c hc
    split at h
    · rename_i hb
      cases h
      exact ⟨c, hc, hb, rfl⟩
    · cases h
  · cases h

theorem stepped_resume {options : SandboxStoreOptions Z} {s t : SandboxStore Z} {i : Nat}
    (h : s.resume i = some t) : Stepped options s (.resume i) t := by
  unfold resume at h
  split at h
  · rename_i b hi
    split at h
    · rename_i hready
      cases h
      exact .enqueued i b hi hready
    · cases h
      exact .rejected i b _ hi
    · cases h
  · cases h

theorem stepped_startRun {options : SandboxStoreOptions Z} {s t : SandboxStore Z} {i : Nat}
    (h : s.startRun i = some t) : Stepped options s (.startRun i) t := by
  unfold startRun at h
  split at h
  · rename_i b hi
    split at h
    · cases h
    · rename_i c hc
      split at h
      · split at h
        · rename_i err herr
          cases h
          exact .refused i b c err hi hc herr
        · rename_i hnone
          cases h
          exact .started i b c hi hc hnone
      · cases h
  · cases h

theorem stepped_settleRun {options : SandboxStoreOptions Z} {s t : SandboxStore Z} {i : Nat}
    {result : Except String Unit} (h : s.settleRun i result = some t) :
    Stepped options s (.settleRun i result) t := by
  unfold settleRun at h
  split at h
  · rename_i b hi
    split at h
    · cases h
    · rename_i c hc
      split at h
      · rename_i hd
        cases h
        exact .cutOff i b c result hi hc hd
      · rename_i hd
        cases h
        exact .ran i b c result hi hc (by simpa using hd)
  · cases h

theorem stepped_disposeSettled {options : SandboxStoreOptions Z} {s t : SandboxStore Z} {e : CacheEntry}
    (h : s.disposeSettled e = some t) : Stepped options s (.disposeSettled e) t := by
  unfold disposeSettled at h
  split at h
  · rename_i pending hp
    split at h
    · split at h
      · cases h
        exact .entryDisposed e pending _ hp
      · cases h
        exact .entryFailed e pending _ hp
      · cases h
    · cases h
  · cases h

theorem step_cases {options : SandboxStoreOptions Z} {s t : SandboxStore Z} {a : StoreAct}
    (h : step options s a = some t) : Stepped options s a t := by
  cases a with
  | invoke owner workflow bundleSource =>
    cases h
    exact stepped_invoke options s owner workflow bundleSource
  | buildResolved b =>
    obtain ⟨c, hc, hb, rfl⟩ := stepped_settleBuild h
    exact .built b c hc hb
  | buildRejected b message =>
    obtain ⟨m, hm, rfl⟩ := Option.map_eq_some_iff.mp h
    obtain ⟨c, hc, hb, rfl⟩ := stepped_settleBuild hm
    exact .buildFailed b message c hc hb
  | resume i => exact stepped_resume h
  | startRun i => exact stepped_startRun h
  | settleRun i result => exact stepped_settleRun h
  | finish i =>
    simp only [step, finish] at h
    split at h
    · rename_i b result hi
      cases h
      exact .finished i b result hi
    · cases h
  | terminate b cause =>
    simp only [step, terminate] at h
    split at h
    · split at h
      · cases h
        exact .terminated b cause
      · cases h
    · cases h
  | dispose =>
    simp only [step] at h
    split at h
    · cases h
      exact .disposeCalled
    · cases h
  | disposeClear =>
    simp only [step] at h
    split at h
    · rename_i hd
      cases h
      exact .disposeCleared _ hd
    · cases h
  | disposeSettled e => exact stepped_disposeSettled h

end SandboxStore

end WorkflowEngine.Runtime
