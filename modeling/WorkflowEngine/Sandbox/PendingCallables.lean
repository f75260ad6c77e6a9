import WorkflowEngine.Lib.Transition
import Mathlib.Data.List.Count

/-!
# The pending-callables counter of the worker

The pending half of `limit-counters.ts`, with the three places that move it:
`handleRun` resets it, and a `pluginRequest` whose `fn` returned a promise
enters it and exits in either handler of `then`. The host settles promises when
it likes, also those of calls that an earlier run, the initialisation or the
time between two runs started.

`most` and `raised` are recorded only to state when the limit of the current run
was passed and when it was raised.
-/

namespace WorkflowEngine.Sandbox

open Lib
set_option autoImplicit false

/-! ## The counter -/

structure PendingCounter where
  limit : Nat
  count : Nat
  deriving DecidableEq

namespace PendingCounter

/-- The pending half of `resetRunCounters`. -/
def resetRunCounters (c : PendingCounter) : PendingCounter := { c with count := 0 }

/-- The second part is what `throwLimit` observes, when it is called. -/
def enterPendingCallable (c : PendingCounter) : PendingCounter × Option Nat :=
  let count := c.count + 1
  ({ c with count := count }, if count > c.limit then some count else none)

def exitPendingCallable (c : PendingCounter) : PendingCounter :=
  if c.count > 0 then { c with count := c.count - 1 } else c

@[simp] theorem exitPendingCallable_count (c : PendingCounter) :
    c.exitPendingCallable.count = c.count - 1 := by
  unfold exitPendingCallable
  split
  · rfl
  · omega

@[simp] theorem exitPendingCallable_limit (c : PendingCounter) :
    c.exitPendingCallable.limit = c.limit := by
  unfold exitPendingCallable
  split <;> rfl

end PendingCounter

/-! ## The worker that moves it -/

/-- How `fn` of a `pluginRequest` ended. -/
inductive Returned where
  | threw
  | value
  | promise
  deriving DecidableEq

/-- `calls` has, for each call in flight, the number of runs that had begun when it was started. -/
structure Callables where
  alive : Bool
  counter : PendingCounter
  running : Bool
  run : Nat
  calls : List Nat
  queued : Bool
  most : Nat
  raised : List Nat
  deriving DecidableEq

/-- `settle` names a call by the run that started it. -/
inductive CallableAction where
  | handleRun
  | pluginRequest (returned : Returned)
  | settle (startedIn : Nat)
  | finalizeRun
  | uncaught
  deriving DecidableEq

namespace Callables

/-- After `configureWorkerLimits`. -/
def init (pendingCallables : Nat) : Callables :=
  ⟨true, ⟨pendingCallables, 0⟩, false, 0, [], false, 0, []⟩

/-- The host calls that the current run started and that have not settled. -/
def live (s : Callables) : Nat := s.calls.count s.run

def handleRun (s : Callables) : Callables :=
  { s with
    counter := s.counter.resetRunCounters
    running := true
    run := s.run + 1
    most := 0
    raised := [] }

/-- The asynchronous path of `pluginRequest`; a limit error waits in the microtask queue. -/
def enter (s : Callables) : Callables :=
  let entered := s.counter.enterPendingCallable
  { s with
    counter := entered.1
    calls := s.run :: s.calls
    queued := s.queued || entered.2.isSome
    most := max s.most (s.live + 1)
    raised := s.raised ++ entered.2.toList }

def settle (s : Callables) (startedIn : Nat) : Callables :=
  { s with counter := s.counter.exitPendingCallable, calls := s.calls.erase startedIn }

/-- The main thread posts no second `run` before `done`. -/
def act (s : Callables) : CallableAction → Option Callables
  | .handleRun => if s.running then none else some s.handleRun
  | .pluginRequest .promise => some s.enter
  | .pluginRequest _ => some s
  | .settle startedIn => if startedIn ∈ s.calls then some (s.settle startedIn) else none
  | .finalizeRun => if s.running then some { s with running := false } else none
  | .uncaught => if s.queued then some { s with alive := false } else none

def step (s : Callables) (a : CallableAction) : Option Callables :=
  if s.alive then s.act a else none

/-! ## What the counter counts -/

/-- The counter and the limit errors of the current run against the calls that it has in flight. -/
structure Accurate (s : Callables) : Prop where
  count : s.counter.count = s.live
  raised : s.raised.head? = if s.counter.limit < s.most then some (s.counter.limit + 1) else none

/-- At a moment of a run. -/
def Accounted (s : Callables) : Prop := s.running = true → s.Accurate

/-- During a run, a call that it did not start settles only while it has no call in flight. -/
def NoStaleSettle (s : Callables) : CallableAction → Prop
  | .settle startedIn => s.running = true → startedIn = s.run ∨ s.run ∉ s.calls
  | _ => True

instance (s : Callables) : (a : CallableAction) → Decidable (s.NoStaleSettle a)
  | .settle startedIn =>
    inferInstanceAs (Decidable (s.running = true → startedIn = s.run ∨ s.run ∉ s.calls))
  | .handleRun => isTrue trivial
  | .pluginRequest _ => isTrue trivial
  | .finalizeRun => isTrue trivial
  | .uncaught => isTrue trivial

structure Inv (s : Callables) : Prop where
  started : ∀ r ∈ s.calls, r ≤ s.run
  most : s.running = true → s.live ≤ s.most
  accounted : s.Accounted

theorem inv_init (pendingCallables : Nat) : Inv (init pendingCallables) where
  started := by simp [init]
  most := by simp [init]
  accounted := by simp [Accounted, init]

theorem Inv.handleRun {s : Callables} (h : Inv s) : Inv s.handleRun := by
  have hlive : s.handleRun.live = 0 := by
    refine List.count_eq_zero.mpr ?_
    intro hmem
    have hle : s.run + 1 ≤ s.run := h.started _ hmem
    omega
  refine ⟨?_, ?_, ?_⟩
  · intro r hr
    exact Nat.le_succ_of_le (h.started r hr)
  · intro _
    rw [hlive]
    exact Nat.zero_le _
  · intro _
    refine ⟨?_, ?_⟩
    · rw [hlive]
      rfl
    · simp [Callables.handleRun]

@[simp] theorem enter_live (s : Callables) : s.enter.live = s.live + 1 := by
  simp [enter, live]

/-- The first call over the limit is the one that finds the limit reached. -/
theorem Accurate.enter {s : Callables} (h : s.Accurate) (hmost : s.live ≤ s.most) :
    s.enter.Accurate := by
  have hcount : s.enter.counter.count = s.counter.count + 1 := rfl
  refine ⟨?_, ?_⟩
  · rw [hcount, h.count, enter_live]
  · have hraised := h.raised
    have hlimit : s.enter.counter.limit = s.counter.limit := rfl
    have hpeak : s.enter.most = max s.most (s.live + 1) := rfl
    have hlist : s.enter.raised = s.raised ++
        (if s.live + 1 > s.counter.limit then some (s.live + 1) else none).toList := by
      simp [Callables.enter, PendingCounter.enterPendingCallable, h.count]
    rw [hlimit, hpeak, hlist, List.head?_append, hraised]
    by_cases hpassed : s.counter.limit < s.most
    · have hnow : s.counter.limit < max s.most (s.live + 1) := by omega
      rw [if_pos hpassed, if_pos hnow]
      rfl
    · by_cases hnext : s.live + 1 > s.counter.limit
      · have hnow : s.counter.limit < max s.most (s.live + 1) := by omega
        have hat : s.live = s.counter.limit := by omega
        rw [if_neg hpassed, if_pos hnext, if_pos hnow, hat]
        rfl
      · have hnot : ¬ s.counter.limit < max s.most (s.live + 1) := by omega
        rw [if_neg hpassed, if_neg hnext, if_neg hnot]
        rfl

theorem Inv.enter {s : Callables} (h : Inv s) : Inv s.enter := by
  refine ⟨?_, ?_, ?_⟩
  · intro r hr
    rcases List.mem_cons.mp hr with rfl | hr
    · exact Nat.le_refl _
    · exact h.started r hr
  · intro _
    rw [enter_live]
    exact Nat.le_max_right _ _
  · intro hrun
    exact (h.accounted hrun).enter (h.most hrun)

theorem settle_live (s : Callables) (startedIn : Nat) :
    (s.settle startedIn).live = s.live - if startedIn = s.run then 1 else 0 := by
  simp [settle, live, List.count_erase]

theorem settle_live_le (s : Callables) (startedIn : Nat) : (s.settle startedIn).live ≤ s.live := by
  rw [settle_live]
  exact Nat.sub_le _ _

/-- One less on the counter is right for a call of the current run, or where the floor holds it. -/
theorem settle_count {s : Callables} (h : s.counter.count = s.live) (startedIn : Nat) :
    (s.settle startedIn).counter.count = (s.settle startedIn).live ↔
      startedIn = s.run ∨ s.run ∉ s.calls := by
  have hcount : (s.settle startedIn).counter.count = s.live - 1 := by
    simp [settle, h]
  have hzero : s.live = 0 ↔ s.run ∉ s.calls := List.count_eq_zero
  rw [hcount, settle_live, ← hzero]
  by_cases hown : startedIn = s.run
  · simp [hown]
  · simp only [hown, if_false, false_or]
    omega

theorem Inv.settle {s : Callables} (h : Inv s) (startedIn : Nat)
    (hok : s.NoStaleSettle (.settle startedIn)) : Inv (s.settle startedIn) := by
  refine ⟨?_, ?_, ?_⟩
  · intro r hr
    exact h.started r (List.mem_of_mem_erase hr)
  · intro hrun
    exact Nat.le_trans (settle_live_le s startedIn) (h.most hrun)
  · intro hrun
    have hs := h.accounted hrun
    refine ⟨(settle_count hs.count startedIn).mpr (hok hrun), ?_⟩
    simpa [Callables.settle] using hs.raised

theorem Inv.finalizeRun {s : Callables} (h : Inv s) : Inv { s with running := false } where
  started := h.started
  most := by simp
  accounted := by simp [Accounted]

theorem Inv.uncaught {s : Callables} (h : Inv s) : Inv { s with alive := false } :=
  ⟨h.started, h.most, fun hrun => ⟨(h.accounted hrun).count, (h.accounted hrun).raised⟩⟩

/-! ## Steps and runs -/

theorem step_eq_act {s t : Callables} {a : CallableAction} (h : step s a = some t) :
    s.act a = some t := by
  unfold step at h
  split at h
  · exact h
  · cases h

theorem step_settle {s t : Callables} {startedIn : Nat}
    (h : step s (.settle startedIn) = some t) : t = s.settle startedIn := by
  have hact := step_eq_act h
  simp only [act] at hact
  split at hact
  · exact (Option.some.inj hact).symm
  · cases hact

theorem step_inv {s t : Callables} {a : CallableAction} (h : Inv s) (hok : s.NoStaleSettle a)
    (hs : step s a = some t) : Inv t := by
  have hact := step_eq_act hs
  cases a with
  | handleRun =>
    simp only [act] at hact
    split at hact
    · cases hact
    · cases hact
      exact h.handleRun
  | pluginRequest returned =>
    cases returned with
    | threw =>
      cases hact
      exact h
    | value =>
      cases hact
      exact h
    | promise =>
      cases hact
      exact h.enter
  | settle startedIn =>
    rw [step_settle hs]
    exact h.settle startedIn hok
  | finalizeRun =>
    simp only [act] at hact
    split at hact
    · cases hact
      exact h.finalizeRun
    · cases hact
  | uncaught =>
    simp only [act] at hact
    split at hact
    · cases hact
      exact h.uncaught
    · cases hact

theorem noStaleSettle_of_accounted {s t : Callables} {a : CallableAction} (h : Inv s)
    (hs : step s a = some t) (ht : t.Accounted) : s.NoStaleSettle a := by
  cases a with
  | settle startedIn =>
    intro hrun
    rw [step_settle hs] at ht
    exact (settle_count (h.accounted hrun).count startedIn).mp (ht hrun).count
  | handleRun => trivial
  | pluginRequest returned => trivial
  | finalizeRun => trivial
  | uncaught => trivial

/-- In every run of the worker, over every interleaving of host calls with run boundaries. -/
theorem accounted_iff_noStaleSettle (pendingCallables : Nat) (as : List CallableAction)
    (t : Callables) (h : exec step (init pendingCallables) as = some t) :
    Always step Accounted (init pendingCallables) as ↔
      Along step NoStaleSettle (init pendingCallables) as :=
  always_iff_along (fun _ hs => hs.accounted) (fun _ _ _ hs hok hstep => step_inv hs hok hstep)
    (fun _ _ _ hs hstep ht => noStaleSettle_of_accounted hs hstep ht) (inv_init pendingCallables) h

/-- The call of the first run settles before the second has one, whose third call is over the limit. -/
def earlySettlement : List CallableAction :=
  [.handleRun, .pluginRequest .promise, .finalizeRun, .handleRun, .settle 1,
    .pluginRequest .promise, .pluginRequest .value, .settle 2, .pluginRequest .promise,
    .pluginRequest .promise, .pluginRequest .promise, .uncaught]

theorem accounted_iff_noStaleSettle_earlySettlement :
    Along step NoStaleSettle (init 2) earlySettlement ∧
      Always step Accounted (init 2) earlySettlement := by
  have hok : Along step NoStaleSettle (init 2) earlySettlement := by decide
  exact ⟨hok, (accounted_iff_noStaleSettle 2 earlySettlement
    ⟨false, ⟨2, 3⟩, true, 2, [2, 2, 2], true, 3, [3]⟩ (by decide)).mpr hok⟩

/-- The call of the first run settles while the second has one. -/
def lateSettlement : List CallableAction :=
  [.handleRun, .pluginRequest .promise, .finalizeRun, .handleRun, .pluginRequest .promise,
    .settle 1, .pluginRequest .promise]

/-- Two calls of the second run are in flight at a limit of one, and nothing is raised. -/
theorem lateSettlement_not_accounted :
    exec step (init 1) lateSettlement =
        some ⟨true, ⟨1, 1⟩, true, 2, [2, 2], false, 2, []⟩ ∧
      ¬ Accounted ⟨true, ⟨1, 1⟩, true, 2, [2, 2], false, 2, []⟩ := by
  refine ⟨by decide, ?_⟩
  intro h
  have hcount := (h rfl).count
  revert hcount
  decide

end Callables

end WorkflowEngine.Sandbox
