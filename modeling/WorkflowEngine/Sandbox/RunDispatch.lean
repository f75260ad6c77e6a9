import WorkflowEngine.Lib.ListIndex
import WorkflowEngine.Lib.Transition
import WorkflowEngine.Sandbox.RunSequencer
import WorkflowEngine.Sandbox.WorkerRuns
import WorkflowEngine.Sandbox.WorkerTermination

/-!
# Run dispatch on the main thread

Model of `run`, `dispose` and `onTerminated` of `sandbox.ts` after the init
handshake, on top of the worker-termination machine. A call of `run` is known by
the index of its promise. Worker events may come in any order and any number of
times; the calls that a registered callback makes while an event is being
handled belong to that event.

Four fields are kept only to state what happened: the applications of
`sequencer.start` and `sequencer.finish`, the causes that were dispatched, the
causes that callbacks received, and whether the worker has exited.
-/

namespace WorkflowEngine.Sandbox

open Lib
set_option autoImplicit false

universe u
variable {V : Type u}

/-- How a run promise settled: the payload of `done`, or the message of the rejection. -/
inductive Settlement (V : Type u) where
  | resolved (payload : V)
  | rejected (message : String)
  deriving DecidableEq

inductive SequencerOp where
  | start (call : Nat)
  | finish (call : Nat)
  deriving DecidableEq

/-- The budgets of one sandbox, and the `input` of its `system.exhaustion` leaf. -/
structure SandboxLimits (V : Type u) where
  cpuMs : Nat
  exhaustionInput : LimitDim → Option Int → V

structure MainThread (V : Type u) where
  termination : WorkerTermination
  terminatedCause : Option TerminationCause
  terminatedCb : Option Nat
  sequencer : RunSequencer
  disposed : Bool
  pendingRunRejects : List Nat
  runInFlight : Bool
  listeners : List Nat
  promises : List (Option (Settlement V))
  terminating : Bool
  forwarded : List (SandboxEvent V)
  ops : List SequencerOp
  dispatched : List TerminationCause
  delivered : List (Nat × TerminationCause)
  exited : Bool
  deriving DecidableEq

/-- The methods of the `Sandbox` object. -/
inductive SandboxCall where
  | run (now : Int)
  | dispose
  | onTerminated (cb : Nat)
  deriving DecidableEq

/-- The calls that callbacks make while one worker event is handled: the terminated callback, the
consumer of the exhaustion leaf, and the consumer of the synthesised closes. -/
structure Reentry where
  terminated : List SandboxCall
  leaf : List SandboxCall
  synth : List SandboxCall
  deriving DecidableEq

inductive MainEvent (V : Type u) where
  | call (c : SandboxCall)
  | event (wire : WireEvent V)
  | done (payload : V) (re : Reentry)
  | error (thrown : Thrown) (clock : Clock) (re : Reentry)
  | exit (code : Int) (clock : Clock) (re : Reentry)
  | watchdog (now : Int)
  | restoreFailed (err : WorkerError) (re : Reentry)

namespace MainThread

def init : MainThread V where
  termination := createWorkerTermination
  terminatedCause := none
  terminatedCb := none
  sequencer := createRunSequencer
  disposed := false
  pendingRunRejects := []
  runInFlight := false
  listeners := []
  promises := []
  terminating := false
  forwarded := []
  ops := []
  dispatched := []
  delivered := []
  exited := false

/-! ## Promises -/

/-- `resolve` or `reject` of one promise: the first call decides. -/
def settleAt (promises : List (Option (Settlement V))) (i : Nat) (outcome : Settlement V) :
    List (Option (Settlement V)) :=
  promises.modify i fun p => p <|> some outcome

def settle (s : MainThread V) (i : Nat) (outcome : Settlement V) : MainThread V :=
  { s with promises := settleAt s.promises i outcome }

/-- The promise of call `i` exists and has not settled. -/
def Pending (s : MainThread V) (i : Nat) : Prop := s.promises[i]? = some none

instance (s : MainThread V) (i : Nat) [DecidableEq V] : Decidable (s.Pending i) :=
  inferInstanceAs (Decidable (_ = _))

/-! ## Calls -/

def terminatedMessage : TerminationCause → String
  | .crash err => err.message
  | .restoreFailed err => "restore-failed: " ++ err.message
  | .limit dim _ => "limit " ++ dim.text

/-- Why `run` rejects, if it does. -/
def rejection (s : MainThread V) : Option String :=
  if s.disposed then some "Sandbox is disposed"
  else
    match s.terminatedCause with
    | some cause => some ("Sandbox worker has died: " ++ terminatedMessage cause)
    | none =>
      if s.runInFlight then
        some "sandbox.run: concurrent run not permitted; a previous run is still in flight"
      else none

def run (limits : SandboxLimits V) (s : MainThread V) (now : Int) : MainThread V :=
  match s.rejection with
  | some message => { s with promises := s.promises ++ [some (.rejected message)] }
  | none =>
    let i := s.promises.length
    { s with
      promises := s.promises ++ [none]
      pendingRunRejects := s.pendingRunRejects ++ [i]
      runInFlight := true
      sequencer := s.sequencer.start.1
      ops := s.ops ++ [SequencerOp.start i]
      termination := s.termination.armCpuBudget now limits.cpuMs
      listeners := s.listeners ++ [i] }

def dispose (s : MainThread V) : MainThread V :=
  if s.disposed then s
  else
    { s with
      disposed := true
      termination := s.termination.markDisposing
      promises := s.pendingRunRejects.foldl
        (fun ps i => settleAt ps i (.rejected "Sandbox is disposed")) s.promises
      pendingRunRejects := []
      terminating := true }

def onTerminated (s : MainThread V) (cb : Nat) : MainThread V :=
  { s with
    terminatedCb := some cb
    delivered := s.delivered ++ (s.terminatedCause.map fun cause => (cb, cause)).toList }

def call (limits : SandboxLimits V) (s : MainThread V) : SandboxCall → MainThread V
  | .run now => s.run limits now
  | .dispose => s.dispose
  | .onTerminated cb => s.onTerminated cb

def calls (limits : SandboxLimits V) (s : MainThread V) (cs : List SandboxCall) : MainThread V :=
  cs.foldl (call limits) s

/-! ## Worker events -/

/-- The callback that the sandbox registers with the termination machine. -/
def terminated (limits : SandboxLimits V) (s : MainThread V) (re : Reentry) :
    Option TerminationCause → MainThread V
  | none => s
  | some cause =>
    let s := { s with terminatedCause := some cause, dispatched := s.dispatched ++ [cause] }
    match s.terminatedCb with
    | none => s
    | some cb => { s with delivered := s.delivered ++ [(cb, cause)] }.calls limits re.terminated

def forward (s : MainThread V) (events : List (SandboxEvent V)) : MainThread V :=
  { s with forwarded := s.forwarded ++ events }

/-- The inner `finalize`; `finished` is set exactly when the listeners of the run are gone. -/
def finalize (limits : SandboxLimits V) (s : MainThread V) (i : Nat)
    (synth : List (SandboxEvent V)) (re : Reentry) (outcome : Settlement V) : MainThread V :=
  if i ∈ s.listeners then
    let s := { s with
      pendingRunRejects := s.pendingRunRejects.filter (· ≠ i)
      listeners := s.listeners.erase i
      termination := s.termination.disarmCpuBudget }
    let s := s.forward synth
    let s := if synth = [] then s else s.calls limits re.synth
    { s with runInFlight := false }.settle i outcome
  else s

/-- `sequencer.finish(opts)` on behalf of run `i`, then `finalize`. -/
def finish (limits : SandboxLimits V) (s : MainThread V) (i : Nat) (closeReason : Option String)
    (re : Reentry) (outcome : Settlement V) : MainThread V :=
  let finished : FinishResult V := s.sequencer.finish closeReason
  let s := { s with sequencer := finished.state, ops := s.ops ++ [SequencerOp.finish i] }
  s.finalize limits i finished.events re outcome

/-- `buildLimitLeaf` and the forwarding of its event. -/
def limitLeaf (limits : SandboxLimits V) (s : MainThread V) (dim : LimitDim)
    (observed : Option Int) (clock : Clock) (re : Reentry) : MainThread V :=
  let r := s.sequencer.next (System.limitLeaf dim.text clock (limits.exhaustionInput dim observed))
  let s := { s with sequencer := r.state }.forward r.event.toList
  if r.event.isSome then s.calls limits re.leaf else s

/-- `fallbackErr.message` is undefined when the worker threw something that is no `Error`. -/
def closeReason (fallback : Thrown) : Option TerminationCause → Option String
  | some (.crash err) => some ("crash:" ++ err.message)
  | some (.restoreFailed err) => some ("restore-failed:" ++ err.message)
  | _ =>
    match fallback with
    | .error err => some err.message
    | .other _ => none

def handleDeath (limits : SandboxLimits V) (s : MainThread V) (i : Nat) (fallback : Thrown)
    (clock : Clock) (re : Reentry) : MainThread V :=
  match s.termination.cause with
  | some (.limit dim observed) =>
    (s.limitLeaf limits dim observed clock re).finish limits i (some ("limit:" ++ dim.text)) re
      (.rejected ("sandbox limit exceeded: " ++ dim.text))
  | cause => s.finish limits i (closeReason fallback cause) re (.rejected fallback.asError.message)

/-- One emission of a worker event to the listeners that runs have registered when it is made. -/
def emit (s : MainThread V) (listeners : List Nat) (listener : MainThread V → Nat → MainThread V) :
    MainThread V :=
  listeners.foldl listener s

def onEvent (s : MainThread V) (wire : WireEvent V) : MainThread V :=
  let r := s.sequencer.next wire
  { s with sequencer := r.state }.forward r.event.toList

def onDone (limits : SandboxLimits V) (s : MainThread V) (payload : V) (re : Reentry) :
    MainThread V :=
  s.emit s.listeners fun s i => s.finish limits i none re (.resolved payload)

/-- The termination machine registered its listeners first. -/
def onError (limits : SandboxLimits V) (s : MainThread V) (thrown : Thrown) (clock : Clock)
    (re : Reentry) : MainThread V :=
  { s with termination := s.termination.onError thrown }.emit s.listeners fun s i =>
    s.handleDeath limits i thrown clock re

def onExit (limits : SandboxLimits V) (s : MainThread V) (code : Int) (clock : Clock)
    (re : Reentry) : MainThread V :=
  let r := s.termination.onExit
  let fallback := Thrown.error (.new ("worker exited with code " ++ toString code))
  let t := ({ s with termination := r.1 }.terminated limits re r.2).emit s.listeners fun s i =>
    s.handleDeath limits i fallback clock re
  { t with exited := true }

def onRestoreFailed (limits : SandboxLimits V) (s : MainThread V) (err : WorkerError)
    (re : Reentry) : MainThread V :=
  let r := s.termination.markRestoreFailed err
  { s with termination := r.1 }.terminated limits re r.2

/-- The watchdog fires only while it is armed; every other event may come at any time. -/
def step (limits : SandboxLimits V) (s : MainThread V) : MainEvent V → Option (MainThread V)
  | .call c => some (s.call limits c)
  | .event wire => some (s.onEvent wire)
  | .done payload re => some (s.onDone limits payload re)
  | .error thrown clock re => some (s.onError limits thrown clock re)
  | .exit code clock re => some (s.onExit limits code clock re)
  | .watchdog now =>
    if s.termination.watchdog.isSome then
      some { s with termination := s.termination.expire now, terminating := true }
    else none
  | .restoreFailed err re => some (s.onRestoreFailed limits err re)

/-! ## Settled promises stay settled -/

/-- Every promise that has settled in `ps` has the same outcome in `qs`. -/
def Grows (ps qs : List (Option (Settlement V))) : Prop :=
  ∀ (i : Nat) (outcome : Settlement V), ps[i]? = some (some outcome) → qs[i]? = some (some outcome)

theorem Grows.refl (ps : List (Option (Settlement V))) : Grows ps ps := fun _ _ h => h

theorem Grows.trans {ps qs rs : List (Option (Settlement V))} (h : Grows ps qs)
    (h' : Grows qs rs) : Grows ps rs :=
  fun i outcome hi => h' i outcome (h i outcome hi)

theorem grows_append (ps qs : List (Option (Settlement V))) : Grows ps (ps ++ qs) := by
  intro i outcome h
  rw [List.getElem?_append_left (lt_of_getElem?_eq_some h)]
  exact h

theorem settleAt_getElem? (ps : List (Option (Settlement V))) (i j : Nat) (o : Settlement V) :
    (settleAt ps i o)[j]? =
      if i = j then ps[j]?.map (fun p => p <|> some o) else ps[j]? := by
  unfold settleAt
  rw [List.getElem?_modify]
  split <;> simp

@[simp] theorem settleAt_length (ps : List (Option (Settlement V))) (i : Nat) (o : Settlement V) :
    (settleAt ps i o).length = ps.length := by
  simp [settleAt]

theorem grows_settleAt (ps : List (Option (Settlement V))) (i : Nat) (o : Settlement V) :
    Grows ps (settleAt ps i o) := by
  intro j outcome h
  rw [settleAt_getElem?]
  split <;> simp [h]

theorem settleAt_ne_pending (ps : List (Option (Settlement V))) (i : Nat) (o : Settlement V) :
    (settleAt ps i o)[i]? ≠ some none := by
  rw [settleAt_getElem?]
  cases h : ps[i]? with
  | none => simp
  | some p => cases p <;> simp

theorem pending_of_settleAt {ps : List (Option (Settlement V))} {i j : Nat} {o : Settlement V}
    (h : (settleAt ps i o)[j]? = some none) : j ≠ i ∧ ps[j]? = some none := by
  by_cases hij : j = i
  · subst hij
    exact absurd h (settleAt_ne_pending ps j o)
  · rw [settleAt_getElem?, if_neg (Ne.symm hij)] at h
    exact ⟨hij, h⟩

theorem grows_foldl_settleAt (is : List Nat) (o : Settlement V)
    (ps : List (Option (Settlement V))) : Grows ps (is.foldl (fun ps i => settleAt ps i o) ps) := by
  induction is generalizing ps with
  | nil => exact Grows.refl ps
  | cons i is ih => exact (grows_settleAt ps i o).trans (ih _)

@[simp] theorem foldl_settleAt_length (is : List Nat) (o : Settlement V)
    (ps : List (Option (Settlement V))) :
    (is.foldl (fun ps i => settleAt ps i o) ps).length = ps.length := by
  induction is generalizing ps with
  | nil => rfl
  | cons i is ih => simp [ih]

theorem pending_of_foldl_settleAt {is : List Nat} {o : Settlement V}
    {ps : List (Option (Settlement V))} {j : Nat}
    (h : (is.foldl (fun ps i => settleAt ps i o) ps)[j]? = some none) :
    j ∉ is ∧ ps[j]? = some none := by
  induction is generalizing ps with
  | nil => exact ⟨by simp, h⟩
  | cons i is ih =>
    obtain ⟨hnot, hpend⟩ := ih h
    obtain ⟨hne, hold⟩ := pending_of_settleAt hpend
    exact ⟨by simp [hne, hnot], hold⟩

theorem pending_of_append_settled {ps : List (Option (Settlement V))} {o : Settlement V} {j : Nat}
    (h : (ps ++ [some o])[j]? = some none) : ps[j]? = some none := by
  rcases getElem?_snoc_cases h with hold | ⟨_, hnew⟩
  · exact hold
  · cases hnew

/-! ## What no step undoes -/

/-- `run` rejects for good. -/
def Ended (s : MainThread V) : Prop := s.disposed = true ∨ s.terminatedCause.isSome = true

/-- Outcomes stay, an ended sandbox stays ended, and once the sandbox is disposed nothing more is
dispatched. -/
structure Later (s t : MainThread V) : Prop where
  grows : Grows s.promises t.promises
  silent : s.disposed = true → s.termination.disposing = true →
    t.disposed = true ∧ t.termination.disposing = true ∧ t.dispatched = s.dispatched
  ended : s.Ended → t.Ended

theorem Later.refl (s : MainThread V) : Later s s :=
  ⟨Grows.refl _, fun hd ht => ⟨hd, ht, rfl⟩, fun h => h⟩

theorem Later.trans {s t r : MainThread V} (h : Later s t) (h' : Later t r) : Later s r := by
  refine ⟨h.grows.trans h'.grows, fun hd ht => ?_, fun he => h'.ended (h.ended he)⟩
  obtain ⟨hd1, ht1, he1⟩ := h.silent hd ht
  obtain ⟨hd2, ht2, he2⟩ := h'.silent hd1 ht1
  exact ⟨hd2, ht2, he2.trans he1⟩

theorem run_cases (limits : SandboxLimits V) (s : MainThread V) (now : Int) :
    (∃ message, s.rejection = some message ∧
      s.run limits now = { s with promises := s.promises ++ [some (.rejected message)] }) ∨
    (s.disposed = false ∧ s.terminatedCause = none ∧ s.runInFlight = false ∧
      s.run limits now =
        { s with
          promises := s.promises ++ [none]
          pendingRunRejects := s.pendingRunRejects ++ [s.promises.length]
          runInFlight := true
          sequencer := s.sequencer.start.1
          ops := s.ops ++ [SequencerOp.start s.promises.length]
          termination := s.termination.armCpuBudget now limits.cpuMs
          listeners := s.listeners ++ [s.promises.length] }) := by
  cases h : s.rejection with
  | some message => exact Or.inl ⟨message, rfl, by simp [run, h]⟩
  | none =>
    refine Or.inr ?_
    have hr : s.disposed = false ∧ s.terminatedCause = none ∧ s.runInFlight = false := by
      unfold rejection at h
      split at h
      · simp at h
      · rename_i hd
        split at h
        · simp at h
        · rename_i hc
          split at h
          · simp at h
          · rename_i hf
            exact ⟨by simpa using hd, hc, by simpa using hf⟩
    exact ⟨hr.1, hr.2.1, hr.2.2, by simp [run, h]⟩

theorem later_call (limits : SandboxLimits V) (s : MainThread V) (c : SandboxCall) :
    Later s (s.call limits c) := by
  cases c with
  | run now =>
    rcases run_cases limits s now with ⟨message, -, h⟩ | ⟨hd, -, -, h⟩
    · simp only [call, h]
      exact ⟨grows_append _ _, fun hd ht => ⟨hd, ht, rfl⟩, fun h => h⟩
    · simp only [call, h]
      exact ⟨grows_append _ _, fun hdis => by simp [hd] at hdis, fun h => h⟩
  | dispose =>
    simp only [call, dispose]
    split
    · exact Later.refl s
    · exact ⟨grows_foldl_settleAt _ _ _, fun _ _ => ⟨rfl, rfl, rfl⟩, fun _ => Or.inl rfl⟩
  | onTerminated cb => exact ⟨Grows.refl _, fun hd ht => ⟨hd, ht, rfl⟩, fun h => h⟩

theorem later_calls (limits : SandboxLimits V) (cs : List SandboxCall) (s : MainThread V) :
    Later s (s.calls limits cs) := by
  induction cs generalizing s with
  | nil => exact Later.refl s
  | cons c cs ih => exact (later_call limits s c).trans (ih _)

theorem later_terminated (limits : SandboxLimits V) (s : MainThread V) (re : Reentry)
    {r : WorkerTermination × Option TerminationCause} (h : s.termination.Dispatches r) :
    Later s ({ s with termination := r.1 }.terminated limits re r.2) := by
  obtain ⟨t, cause⟩ := r
  cases cause with
  | none => exact ⟨Grows.refl _, fun hd ht => ⟨hd, h.disposing.trans ht, rfl⟩, fun h => h⟩
  | some c =>
    have hnot := (h.once rfl).2.2
    simp only [terminated]
    split
    · exact ⟨Grows.refl _, fun _ ht => by simp [hnot] at ht, fun _ => Or.inr rfl⟩
    · refine Later.trans ?_ (later_calls limits _ _)
      exact ⟨Grows.refl _, fun _ ht => by simp [hnot] at ht, fun _ => Or.inr rfl⟩

theorem later_finalize (limits : SandboxLimits V) (s : MainThread V) (i : Nat)
    (synth : List (SandboxEvent V)) (re : Reentry) (outcome : Settlement V) :
    Later s (s.finalize limits i synth re outcome) := by
  have hsettle : ∀ r : MainThread V, Later r ({ r with runInFlight := false }.settle i outcome) :=
    fun r => ⟨grows_settleAt _ _ _, fun hd ht => ⟨hd, ht, rfl⟩, fun h => h⟩
  unfold finalize
  split
  · refine Later.trans ?_ (hsettle _)
    split
    · exact ⟨Grows.refl _, fun hd ht => ⟨hd, ht, rfl⟩, fun h => h⟩
    · refine Later.trans ?_ (later_calls limits _ _)
      exact ⟨Grows.refl _, fun hd ht => ⟨hd, ht, rfl⟩, fun h => h⟩
  · exact Later.refl s

theorem later_finish (limits : SandboxLimits V) (s : MainThread V) (i : Nat)
    (closeReason : Option String) (re : Reentry) (outcome : Settlement V) :
    Later s (s.finish limits i closeReason re outcome) := by
  refine Later.trans ?_ (later_finalize limits _ i _ re outcome)
  exact ⟨Grows.refl _, fun hd ht => ⟨hd, ht, rfl⟩, fun h => h⟩

theorem later_limitLeaf (limits : SandboxLimits V) (s : MainThread V) (dim : LimitDim)
    (observed : Option Int) (clock : Clock) (re : Reentry) :
    Later s (s.limitLeaf limits dim observed clock re) := by
  simp only [limitLeaf]
  split
  · refine Later.trans ?_ (later_calls limits _ _)
    exact ⟨Grows.refl _, fun hd ht => ⟨hd, ht, rfl⟩, fun h => h⟩
  · exact ⟨Grows.refl _, fun hd ht => ⟨hd, ht, rfl⟩, fun h => h⟩

theorem later_handleDeath (limits : SandboxLimits V) (s : MainThread V) (i : Nat)
    (fallback : Thrown) (clock : Clock) (re : Reentry) :
    Later s (s.handleDeath limits i fallback clock re) := by
  unfold handleDeath
  split
  · exact (later_limitLeaf limits s _ _ clock re).trans (later_finish limits _ i _ re _)
  · exact later_finish limits s i _ re _

theorem later_emit (listener : MainThread V → Nat → MainThread V)
    (h : ∀ s i, Later s (listener s i)) (is : List Nat) (s : MainThread V) :
    Later s (s.emit is listener) := by
  induction is generalizing s with
  | nil => exact Later.refl s
  | cons i is ih => exact (h s i).trans (ih _)

theorem later_step {limits : SandboxLimits V} {s t : MainThread V} {e : MainEvent V}
    (h : s.step limits e = some t) : Later s t := by
  cases e with
  | call c =>
    cases h
    exact later_call limits s c
  | event wire =>
    cases h
    exact ⟨Grows.refl _, fun hd ht => ⟨hd, ht, rfl⟩, fun h => h⟩
  | done payload re =>
    cases h
    exact later_emit _ (fun s i => later_finish limits s i _ re _) _ s
  | error thrown clock re =>
    cases h
    refine Later.trans ?_
      (later_emit _ (fun s i => later_handleDeath limits s i thrown clock re) _ _)
    exact ⟨Grows.refl _, fun hd ht => ⟨hd, by simpa using ht, rfl⟩, fun h => h⟩
  | exit code clock re =>
    cases h
    have hmark : ∀ r : MainThread V, Later r { r with exited := true } :=
      fun r => ⟨Grows.refl _, fun hd ht => ⟨hd, ht, rfl⟩, fun h => h⟩
    refine Later.trans (later_terminated limits s re s.termination.onExit_dispatches) ?_
    unfold onExit
    exact (later_emit _ (fun s i => later_handleDeath limits s i _ clock re) _ _).trans (hmark _)
  | watchdog now =>
    simp only [step] at h
    split at h
    · cases h
      exact ⟨Grows.refl _, fun hd ht => ⟨hd, ht, rfl⟩, fun h => h⟩
    · cases h
  | restoreFailed err re =>
    cases h
    exact later_terminated limits s re (s.termination.markRestoreFailed_dispatches err)

/-! ## The invariant -/

/-- The applications of `start` and `finish`: one bracket for each finished run, in call order, and
at the end the `start` of the runs in `live`. -/
def Bracketed (ops : List SequencerOp) (live : List Nat) (bound : Nat) : Prop :=
  ∃ done : List Nat,
    ops = (done.flatMap fun i => [SequencerOp.start i, SequencerOp.finish i]) ++
      live.map SequencerOp.start ∧
    (done ++ live).Pairwise (· < ·) ∧ ∀ i ∈ done ++ live, i < bound

theorem Bracketed.mono {ops : List SequencerOp} {live : List Nat} {m n : Nat}
    (h : Bracketed ops live m) (hmn : m ≤ n) : Bracketed ops live n := by
  obtain ⟨done, hops, hpair, hlt⟩ := h
  refine ⟨done, hops, hpair, fun i hi => ?_⟩
  have := hlt i hi
  omega

theorem Bracketed.start {ops : List SequencerOp} {n : Nat} (h : Bracketed ops [] n) :
    Bracketed (ops ++ [SequencerOp.start n]) [n] (n + 1) := by
  obtain ⟨done, hops, hpair, hlt⟩ := h
  simp only [List.append_nil, List.map_nil] at hops hpair hlt
  refine ⟨done, by simp [hops], ?_, ?_⟩
  · rw [List.pairwise_append]
    refine ⟨hpair, List.pairwise_singleton _ _, fun i hi j hj => ?_⟩
    rw [List.mem_singleton.mp hj]
    exact hlt i hi
  · intro i hi
    rcases List.mem_append.mp hi with hi | hi
    · have := hlt i hi
      omega
    · rw [List.mem_singleton.mp hi]
      omega

theorem Bracketed.finish {ops : List SequencerOp} {i n : Nat} (h : Bracketed ops [i] n) :
    Bracketed (ops ++ [SequencerOp.finish i]) [] n := by
  obtain ⟨done, hops, hpair, hlt⟩ := h
  refine ⟨done ++ [i], by simp [hops, List.flatMap_append], by simpa using hpair, by simpa using hlt⟩

/-- Something is under way that ends the worker: an armed watchdog, or a call of `terminate`. -/
def Watched (s : MainThread V) : Prop :=
  s.termination.watchdog.isSome = true ∨ s.terminating = true

/-- `busy` is the run that `finalize` has taken off the listeners and not yet settled. -/
structure Inv (busy : Option Nat) (s : MainThread V) : Prop where
  single : (busy.toList ++ s.listeners).length ≤ 1
  inFlight : s.runInFlight = true ↔ busy.toList ++ s.listeners ≠ []
  pending : ∀ i, s.Pending i →
    busy = some i ∨ (i ∈ s.listeners ∧ i ∈ s.pendingRunRejects ∧ s.Watched)
  rejects : ∀ i ∈ s.pendingRunRejects, i ∈ s.listeners
  disposing : s.termination.disposing = s.disposed
  disposed : s.disposed = true → s.pendingRunRejects = []
  ops : Bracketed s.ops s.listeners s.promises.length
  fired : s.termination.fired = s.terminatedCause.isSome
  dispatched : s.dispatched = s.terminatedCause.toList
  delivered : ∀ x ∈ s.delivered, s.terminatedCause = some x.2
  exited : s.exited = true → s.listeners = [] ∧ s.Ended

theorem inv_init : Inv none (init : MainThread V) where
  single := by simp [init]
  inFlight := by simp [init]
  pending := by simp [init, Pending]
  rejects := by simp [init]
  disposing := rfl
  disposed := fun _ => rfl
  ops := ⟨[], rfl, List.Pairwise.nil, by simp [init]⟩
  fired := rfl
  dispatched := rfl
  delivered := by simp [init]
  exited := by simp [init]

theorem Inv.closed {busy : Option Nat} {s : MainThread V} (h : Inv busy s)
    (hf : s.runInFlight = false) : busy = none ∧ s.listeners = [] := by
  have hnil : busy.toList ++ s.listeners = [] := by
    by_contra hne
    have := h.inFlight.mpr hne
    simp [hf] at this
  obtain ⟨hb, hl⟩ := List.append_eq_nil_iff.mp hnil
  exact ⟨by simpa using hb, hl⟩

theorem inv_call {busy : Option Nat} {s : MainThread V} (limits : SandboxLimits V)
    (h : Inv busy s) (c : SandboxCall) : Inv busy (s.call limits c) := by
  cases c with
  | run now =>
    rcases run_cases limits s now with ⟨message, -, he⟩ | ⟨hd, hc, hf, he⟩
    · simp only [call, he]
      exact { h with
        pending := fun i hi => h.pending i (pending_of_append_settled hi)
        ops := h.ops.mono (by simp) }
    · obtain ⟨hb, hl⟩ := h.closed hf
      have hops := h.ops
      rw [hl] at hops
      simp only [call, he]
      refine ⟨?_, ?_, ?_, ?_, ?_, ?_, ?_, h.fired, h.dispatched, h.delivered, ?_⟩
      · simp [hb, hl]
      · simp [hb, hl]
      · intro i hi
        refine Or.inr ?_
        have hlast : i = s.promises.length := by
          by_contra hne
          have hold : s.Pending i := by
            rcases getElem?_snoc_cases hi with hold | ⟨hnew, _⟩
            · exact hold
            · exact absurd hnew hne
          rcases h.pending i hold with hx | ⟨hx, -⟩
          · simp [hb] at hx
          · simp [hl] at hx
        subst hlast
        exact ⟨by simp, by simp, Or.inl rfl⟩
      · intro i hi
        rcases List.mem_append.mp hi with hi | hi
        · exact List.mem_append_left _ (h.rejects i hi)
        · exact List.mem_append_right _ hi
      · exact h.disposing
      · intro hdis
        simp [hd] at hdis
      · simpa [hl] using hops.start
      · intro hx
        rcases (h.exited hx).2 with hx | hx
        · simp [hd] at hx
        · simp [hc] at hx
  | dispose =>
    simp only [call, dispose]
    split
    · exact h
    · refine { h with
        pending := fun i hi => ?_
        rejects := fun i hi => by simp at hi
        disposing := rfl
        disposed := fun _ => rfl
        ops := h.ops.mono (by simp)
        exited := fun hx => ⟨(h.exited hx).1, Or.inl rfl⟩ }
      obtain ⟨hnot, hold⟩ := pending_of_foldl_settleAt hi
      rcases h.pending i hold with hx | ⟨-, hx, -⟩
      · exact Or.inl hx
      · exact absurd hx hnot
  | onTerminated cb =>
    refine { h with delivered := fun x hx => ?_ }
    rcases List.mem_append.mp hx with hx | hx
    · exact h.delivered x hx
    · obtain ⟨cause, hcause, rfl⟩ : ∃ cause, s.terminatedCause = some cause ∧ (cb, cause) = x := by
        simpa using hx
      exact hcause

theorem inv_calls {busy : Option Nat} (limits : SandboxLimits V) (cs : List SandboxCall)
    {s : MainThread V} (h : Inv busy s) : Inv busy (s.calls limits cs) := by
  induction cs generalizing s with
  | nil => exact h
  | cons c cs ih => exact ih (inv_call limits h c)

/-! ## Calls made while `run` rejects -/

/-- What calls leave alone while `run` rejects. -/
structure Quiet (s t : MainThread V) : Prop where
  rejecting : t.rejection.isSome = true
  sequencer : t.sequencer = s.sequencer
  ops : t.ops = s.ops
  listeners : t.listeners = s.listeners
  runInFlight : t.runInFlight = s.runInFlight
  terminatedCause : t.terminatedCause = s.terminatedCause

theorem Quiet.trans {s t r : MainThread V} (h : Quiet s t) (h' : Quiet t r) : Quiet s r :=
  ⟨h'.rejecting, h'.sequencer.trans h.sequencer, h'.ops.trans h.ops,
    h'.listeners.trans h.listeners, h'.runInFlight.trans h.runInFlight,
    h'.terminatedCause.trans h.terminatedCause⟩

theorem rejection_isSome (s : MainThread V) : s.rejection.isSome = true ↔
    s.disposed = true ∨ s.terminatedCause.isSome = true ∨ s.runInFlight = true := by
  unfold rejection
  cases s.disposed <;> cases s.terminatedCause <;> cases s.runInFlight <;> simp

theorem quiet_call {s : MainThread V} (limits : SandboxLimits V) (h : s.rejection.isSome = true)
    (c : SandboxCall) : Quiet s (s.call limits c) := by
  have hr := (rejection_isSome s).mp h
  cases c with
  | run now =>
    obtain ⟨message, hm⟩ := Option.isSome_iff_exists.mp h
    have he : s.run limits now = { s with promises := s.promises ++ [some (.rejected message)] } := by
      simp [run, hm]
    simp only [call, he]
    exact ⟨(rejection_isSome _).mpr hr, rfl, rfl, rfl, rfl, rfl⟩
  | dispose =>
    simp only [call, dispose]
    split
    · exact ⟨h, rfl, rfl, rfl, rfl, rfl⟩
    · exact ⟨(rejection_isSome _).mpr (Or.inl rfl), rfl, rfl, rfl, rfl, rfl⟩
  | onTerminated cb => exact ⟨(rejection_isSome _).mpr hr, rfl, rfl, rfl, rfl, rfl⟩

theorem quiet_calls (limits : SandboxLimits V) (cs : List SandboxCall) {s : MainThread V}
    (h : s.rejection.isSome = true) : Quiet s (s.calls limits cs) := by
  induction cs generalizing s with
  | nil => exact ⟨h, rfl, rfl, rfl, rfl, rfl⟩
  | cons c cs ih => exact (quiet_call limits h c).trans (ih (quiet_call limits h c).rejecting)

/-! ## Worker events keep the invariant -/

theorem Inv.listeners_cases {s : MainThread V} (h : Inv none s) :
    s.listeners = [] ∨ ∃ i, s.listeners = [i] ∧ s.runInFlight = true := by
  have hle := h.single
  match hl : s.listeners with
  | [] => exact Or.inl rfl
  | [i] => exact Or.inr ⟨i, rfl, h.inFlight.mpr (by simp [hl])⟩
  | i :: j :: is => simp [hl] at hle

/-- `finalize` between the removal of the listeners and the settlement. -/
theorem inv_closing {s : MainThread V} (h : Inv none s) {i : Nat} (hl : s.listeners = [i])
    (sequencer : RunSequencer) (events : List (SandboxEvent V)) :
    Inv (some i)
      { s with
        sequencer := sequencer
        ops := s.ops ++ [SequencerOp.finish i]
        pendingRunRejects := s.pendingRunRejects.filter (· ≠ i)
        listeners := s.listeners.erase i
        termination := s.termination.disarmCpuBudget
        forwarded := s.forwarded ++ events } := by
  have hops := h.ops
  have hnil : s.listeners.erase i = [] := by simp [hl]
  have hrejects : ∀ j ∈ s.pendingRunRejects, j = i := by
    intro j hj
    simpa [hl] using h.rejects j hj
  rw [hl] at hops
  refine ⟨?_, ?_, ?_, ?_, h.disposing, ?_, ?_, h.fired, h.dispatched, h.delivered, ?_⟩
  · simp [hnil]
  · simpa [hnil] using h.inFlight.mpr (by simp [hl])
  · intro j hj
    rcases h.pending j hj with hx | ⟨hx, -⟩
    · simp at hx
    · have hji : j = i := by simpa [hl] using hx
      exact Or.inl (by rw [hji])
  · intro j hj
    obtain ⟨hmem, hne⟩ := List.mem_filter.mp hj
    exact absurd (hrejects j hmem) (by simpa using hne)
  · intro hd
    simp [h.disposed hd]
  · rw [hnil]
    exact hops.finish
  · intro hx
    have := (h.exited hx).1
    simp [hl] at this

theorem inv_settle {s : MainThread V} {i : Nat} (h : Inv (some i) s) (outcome : Settlement V) :
    Inv none ({ s with runInFlight := false }.settle i outcome) ∧ s.listeners = [] := by
  have hnil : s.listeners = [] := by
    have := h.single
    simp only [Option.toList_some, List.singleton_append, List.length_cons] at this
    exact List.length_eq_zero_iff.mp (by omega)
  refine ⟨?_, hnil⟩
  refine ⟨?_, ?_, ?_, h.rejects, h.disposing, h.disposed, ?_, h.fired, h.dispatched, h.delivered,
    h.exited⟩
  · simp [settle, hnil]
  · simp [settle, hnil]
  · intro j hj
    obtain ⟨hne, hold⟩ := pending_of_settleAt hj
    rcases h.pending j hold with hx | ⟨hx, -⟩
    · exact absurd (Option.some.inj hx).symm hne
    · simp [hnil] at hx
  · exact h.ops.mono (by simp [settle])

/-- The end of a run: its bracket closes, its promise settles and the window is free again. -/
theorem inv_finish {s : MainThread V} (limits : SandboxLimits V) (h : Inv none s) {i : Nat}
    (hl : s.listeners = [i]) (closeReason : Option String) (re : Reentry)
    (outcome : Settlement V) :
    Inv none (s.finish limits i closeReason re outcome) ∧
      (s.finish limits i closeReason re outcome).listeners = [] := by
  have hclosing := inv_closing h hl (s.sequencer.finish closeReason : FinishResult V).state
    (s.sequencer.finish closeReason : FinishResult V).events
  have hmem : i ∈ s.listeners := by simp [hl]
  unfold finish finalize
  simp only [hmem, if_true, forward]
  split
  · exact inv_settle hclosing outcome
  · exact inv_settle (inv_calls limits re.synth hclosing) outcome

theorem inv_limitLeaf {s : MainThread V} (limits : SandboxLimits V) (h : Inv none s) {i : Nat}
    (hl : s.listeners = [i]) (dim : LimitDim) (observed : Option Int) (clock : Clock)
    (re : Reentry) :
    Inv none (s.limitLeaf limits dim observed clock re) ∧
      (s.limitLeaf limits dim observed clock re).listeners = [i] := by
  have hflight : s.runInFlight = true := h.inFlight.mpr (by simp [hl])
  have hstamp : ∀ (sequencer : RunSequencer) (events : List (SandboxEvent V)),
      Inv none { s with sequencer := sequencer, forwarded := s.forwarded ++ events } :=
    fun _ _ => { h with }
  simp only [limitLeaf, forward]
  split
  · refine ⟨inv_calls limits re.leaf (hstamp _ _), ?_⟩
    refine Eq.trans (quiet_calls limits re.leaf ?_).listeners hl
    exact (rejection_isSome _).mpr (Or.inr (Or.inr hflight))
  · exact ⟨hstamp _ _, hl⟩

theorem inv_handleDeath {s : MainThread V} (limits : SandboxLimits V) (h : Inv none s) {i : Nat}
    (hl : s.listeners = [i]) (fallback : Thrown) (clock : Clock) (re : Reentry) :
    Inv none (s.handleDeath limits i fallback clock re) ∧
      (s.handleDeath limits i fallback clock re).listeners = [] := by
  unfold handleDeath
  split
  · rename_i dim observed _
    obtain ⟨hinv, hl'⟩ := inv_limitLeaf limits h hl dim observed clock re
    exact inv_finish limits hinv hl' _ re _
  · exact inv_finish limits h hl _ re _

/-- An emission reaches at most one run, and none is left listening after it. -/
theorem inv_emit {s : MainThread V} (h : Inv none s)
    (listener : MainThread V → Nat → MainThread V)
    (hlistener : ∀ i, s.listeners = [i] →
      Inv none (listener s i) ∧ (listener s i).listeners = []) :
    Inv none (s.emit s.listeners listener) ∧ (s.emit s.listeners listener).listeners = [] := by
  rcases h.listeners_cases with hl | ⟨i, hl, -⟩
  · rw [hl]
    exact ⟨h, hl⟩
  · rw [hl]
    exact hlistener i hl

theorem Watched.congr {s t : MainThread V} (h : s.Watched)
    (hw : t.termination.watchdog = s.termination.watchdog) (ht : t.terminating = s.terminating) :
    t.Watched := by
  unfold Watched at h ⊢
  rw [hw, ht]
  exact h

theorem inv_termination {s : MainThread V} (h : Inv none s) {t : WorkerTermination}
    (hd : t.disposing = s.termination.disposing) (hw : t.watchdog = s.termination.watchdog)
    (hf : t.fired = s.termination.fired) : Inv none { s with termination := t } := by
  refine { h with
    pending := fun i hi => ?_
    disposing := hd.trans h.disposing
    fired := hf.trans h.fired }
  rcases h.pending i hi with hx | ⟨hx, hr, hwatched⟩
  · exact Or.inl hx
  · exact Or.inr ⟨hx, hr, hwatched.congr hw rfl⟩

/-- The registered callback, on a cause that is the first one. -/
theorem inv_dispatched {s : MainThread V} (h : Inv none s) (t : WorkerTermination)
    (cause : TerminationCause) (hd : s.termination.Dispatches (t, some cause)) :
    Inv none
      { s with
        termination := t
        terminatedCause := some cause
        dispatched := s.dispatched ++ [cause] } := by
  obtain ⟨hfired, hfirst, -⟩ := hd.once rfl
  have hnone : s.terminatedCause = none := by
    have hf := h.fired
    rw [hfirst] at hf
    simpa using hf.symm
  refine { h with
    pending := fun i hi => ?_
    disposing := hd.disposing.trans h.disposing
    fired := hfired
    dispatched := by simp [h.dispatched, hnone]
    delivered := fun x hx => ?_
    exited := fun hx => ⟨(h.exited hx).1, Or.inr rfl⟩ }
  · rcases h.pending i hi with hx | ⟨hx, hr, hwatched⟩
    · exact Or.inl hx
    · exact Or.inr ⟨hx, hr, hwatched.congr hd.watchdog rfl⟩
  · have hold := h.delivered x hx
    simp [hnone] at hold

theorem inv_terminated {s : MainThread V} (limits : SandboxLimits V) (h : Inv none s)
    (re : Reentry) {r : WorkerTermination × Option TerminationCause}
    (hd : s.termination.Dispatches r) :
    Inv none ({ s with termination := r.1 }.terminated limits re r.2) ∧
      ({ s with termination := r.1 }.terminated limits re r.2).listeners = s.listeners ∧
      ({ s with termination := r.1 }.terminated limits re r.2).Ended := by
  obtain ⟨t, cause⟩ := r
  cases cause with
  | none =>
    obtain ⟨hfired, hwhy⟩ := hd.silent rfl
    refine ⟨inv_termination h hd.disposing hd.watchdog hfired, rfl, ?_⟩
    rcases hwhy with hx | hx
    · exact Or.inl (h.disposing.symm.trans hx)
    · exact Or.inr (h.fired.symm.trans hx)
  | some c =>
    have hinv := inv_dispatched h t c hd
    simp only [terminated]
    split
    · exact ⟨hinv, rfl, Or.inr rfl⟩
    · rename_i cb _
      have hcb : Inv none
          { s with
            termination := t
            terminatedCause := some c
            dispatched := s.dispatched ++ [c]
            delivered := s.delivered ++ [(cb, c)] } := by
        refine { hinv with delivered := fun x hx => ?_ }
        rcases List.mem_append.mp hx with hx | hx
        · exact hinv.delivered x hx
        · rw [List.mem_singleton.mp hx]
      have hquiet := quiet_calls limits re.terminated
        ((rejection_isSome _).mpr (Or.inr (Or.inl (rfl : (some c).isSome = true))) :
          { s with
            termination := t
            terminatedCause := some c
            dispatched := s.dispatched ++ [c]
            delivered := s.delivered ++ [(cb, c)] }.rejection.isSome = true)
      refine ⟨inv_calls limits re.terminated hcb, hquiet.listeners, Or.inr ?_⟩
      rw [hquiet.terminatedCause]
      rfl

theorem inv_emit_handleDeath {s : MainThread V} (limits : SandboxLimits V) (h : Inv none s)
    {is : List Nat} (his : s.listeners = is) (fallback : Thrown) (clock : Clock) (re : Reentry) :
    Inv none (s.emit is fun s i => s.handleDeath limits i fallback clock re) ∧
      (s.emit is fun s i => s.handleDeath limits i fallback clock re).listeners = [] := by
  subst his
  exact inv_emit h _ fun _ hl => inv_handleDeath limits h hl fallback clock re

theorem inv_onExit {s : MainThread V} (limits : SandboxLimits V) (h : Inv none s) (code : Int)
    (clock : Clock) (re : Reentry) :
    Inv none (s.onExit limits code clock re) ∧ (s.onExit limits code clock re).listeners = [] := by
  obtain ⟨hinv, hl, hended⟩ := inv_terminated limits h re s.termination.onExit_dispatches
  obtain ⟨hafter, hnil⟩ := inv_emit_handleDeath limits hinv hl
    (.error (.new ("worker exited with code " ++ toString code))) clock re
  refine ⟨{ hafter with exited := fun _ => ⟨hnil, ?_⟩ }, hnil⟩
  exact (later_emit _ (fun s i => later_handleDeath limits s i _ clock re) _ _).ended hended

theorem inv_step {limits : SandboxLimits V} {s t : MainThread V} {e : MainEvent V}
    (h : Inv none s) (hstep : s.step limits e = some t) : Inv none t := by
  cases e with
  | call c =>
    cases hstep
    exact inv_call limits h c
  | event wire =>
    cases hstep
    exact { h with }
  | done payload re =>
    cases hstep
    exact (inv_emit h _ fun i hl => inv_finish limits h hl _ re _).1
  | error thrown clock re =>
    cases hstep
    have hrec := inv_termination h (t := s.termination.onError thrown) (by simp) (by simp) (by simp)
    exact (inv_emit_handleDeath limits hrec rfl thrown clock re).1
  | exit code clock re =>
    cases hstep
    exact (inv_onExit limits h code clock re).1
  | watchdog now =>
    simp only [step] at hstep
    split at hstep
    · cases hstep
      refine { h with pending := fun i hi => ?_ }
      rcases h.pending i hi with hx | ⟨hx, hr, -⟩
      · exact Or.inl hx
      · exact Or.inr ⟨hx, hr, Or.inr rfl⟩
    · cases hstep
  | restoreFailed err re =>
    cases hstep
    exact (inv_terminated limits h re (s.termination.markRestoreFailed_dispatches err)).1

theorem exec_inv {limits : SandboxLimits V} {es : List (MainEvent V)} {s : MainThread V}
    (h : exec (step limits) init es = some s) : Inv none s :=
  exec_invariant (fun _ _ _ hi hs => inv_step hi hs) inv_init h

theorem exec_later {limits : SandboxLimits V} {es : List (MainEvent V)} {s t : MainThread V}
    (h : exec (step limits) s es = some t) : Later s t :=
  exec_invariant (fun _ _ _ (hi : Later s _) hs => hi.trans (later_step hs)) (Later.refl s) h

theorem Inv.not_pending_of_closed {s : MainThread V} (h : Inv none s) (hl : s.listeners = [])
    (i : Nat) : ¬ s.Pending i := by
  intro hi
  rcases h.pending i hi with hx | ⟨hx, -⟩
  · simp at hx
  · simp [hl] at hx

theorem Inv.not_pending_of_disposed {s : MainThread V} (h : Inv none s) (hd : s.disposed = true)
    (i : Nat) : ¬ s.Pending i := by
  intro hi
  rcases h.pending i hi with hx | ⟨-, hx, -⟩
  · simp at hx
  · simp [h.disposed hd] at hx

/-- The events that settle the run in flight. -/
def settles : MainEvent V → Bool
  | .call .dispose | .done _ _ | .error _ _ _ | .exit _ _ _ => true
  | _ => false

theorem not_pending_of_settles {limits : SandboxLimits V} {s t : MainThread V} {e : MainEvent V}
    (h : Inv none s) (he : settles e = true) (hstep : s.step limits e = some t) (i : Nat) :
    ¬ t.Pending i := by
  have ht := inv_step h hstep
  cases e with
  | call c =>
    cases c with
    | dispose =>
      cases hstep
      refine ht.not_pending_of_disposed ?_ i
      simp only [call, dispose]
      split
      · assumption
      · rfl
    | run now => simp [settles] at he
    | onTerminated cb => simp [settles] at he
  | done payload re =>
    cases hstep
    exact ht.not_pending_of_closed (inv_emit h _ fun i hl => inv_finish limits h hl _ re _).2 i
  | error thrown clock re =>
    cases hstep
    have hrec := inv_termination h (t := s.termination.onError thrown) (by simp) (by simp) (by simp)
    exact ht.not_pending_of_closed (inv_emit_handleDeath limits hrec rfl thrown clock re).2 i
  | exit code clock re =>
    cases hstep
    exact ht.not_pending_of_closed (inv_onExit limits h code clock re).2 i
  | event wire => simp [settles] at he
  | watchdog now => simp [settles] at he
  | restoreFailed err re => simp [settles] at he

/-- What holds in every state that worker events and calls can lead to. -/
structure Sound (limits : SandboxLimits V) (s : MainThread V) : Prop where
  settled : ∀ i < s.promises.length, (∃ outcome, s.promises[i]? = some (some outcome)) ∨
    (s.Pending i ∧ s.listeners = [i] ∧ s.disposed = false ∧ s.exited = false ∧ s.Watched)
  settling : ∀ e t, settles e = true → s.step limits e = some t → ∀ i, ¬ t.Pending i
  bracketed : Bracketed s.ops s.listeners s.promises.length
  single : s.listeners.length ≤ 1 ∧ (s.runInFlight = true ↔ s.listeners ≠ [])
  rejecting : s.runInFlight = true ∨ s.disposed = true ∨ s.terminatedCause.isSome = true →
    ∀ now, ∃ message,
      s.run limits now = { s with promises := s.promises ++ [some (.rejected message)] }
  ended : s.exited = true → s.disposed = true ∨ s.terminatedCause.isSome = true
  dispatched : s.dispatched.length ≤ 1 ∧ s.dispatched = s.terminatedCause.toList
  delivered : ∀ x ∈ s.delivered, s.dispatched = [x.2]

theorem Inv.sound {limits : SandboxLimits V} {s : MainThread V} (h : Inv none s) :
    Sound limits s where
  settled := by
    intro i hi
    cases hp : s.promises[i]? with
    | none =>
      rw [List.getElem?_eq_none_iff] at hp
      omega
    | some p =>
      cases p with
      | some outcome => exact Or.inl ⟨outcome, rfl⟩
      | none =>
        refine Or.inr ⟨hp, ?_⟩
        rcases h.pending i hp with hx | ⟨hx, -, hw⟩
        · simp at hx
        · rcases h.listeners_cases with hl | ⟨j, hl, -⟩
          · simp [hl] at hx
          · have hij : i = j := by simpa [hl] using hx
            subst hij
            refine ⟨hl, ?_, ?_, hw⟩
            · by_contra hd
              exact h.not_pending_of_disposed (by simpa using hd) i hp
            · by_contra hd
              exact h.not_pending_of_closed (h.exited (by simpa using hd)).1 i hp
  settling := fun _ _ he hstep i => not_pending_of_settles h he hstep i
  bracketed := h.ops
  single := ⟨by simpa using h.single, by simpa using h.inFlight⟩
  rejecting := by
    intro hr now
    have hsome := (rejection_isSome s).mpr (by tauto)
    obtain ⟨message, hm⟩ := Option.isSome_iff_exists.mp hsome
    exact ⟨message, by simp [run, hm]⟩
  ended := fun hx => (h.exited hx).2
  dispatched := ⟨by rw [h.dispatched]; cases s.terminatedCause <;> simp, h.dispatched⟩
  delivered := fun x hx => by rw [h.dispatched, h.delivered x hx]; rfl

/-- A run that completes, one that the watchdog ends, and a call made while it is in flight. -/
def watchdogTrace : List (MainEvent Nat) :=
  [.call (.onTerminated 0), .call (.run 0), .done 7 ⟨[], [], []⟩, .call (.run 10), .call (.run 11),
    .watchdog 60, .exit 1 ⟨70, "T"⟩ ⟨[], [], []⟩]

end MainThread

end WorkflowEngine.Sandbox
