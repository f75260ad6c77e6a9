import WorkflowEngine.Runtime.Flamegraph
import WorkflowEngine.Runtime.Invocation
import WorkflowEngine.Sandbox.RunClock

/-!
# Durations in the flame graph

What `computeLayout` draws of a run when the timestamps of its events are on the
clock of the run: every bar begins and ends at a reading of that clock, and the
total duration is the difference of two of them.
-/

namespace WorkflowEngine.Runtime

open Lib Sandbox
set_option autoImplicit false

universe u
variable {V : Type u}

/-- The events of run `r`, as the executor hands them to the store. -/
def stampedIn (t : Timed V) (r : Nat) (info : InvocationMeta V) : List (InvocationEvent V) :=
  (t.sys.log.filter fun st => st.run = r).map fun st => widen info st.event

structure RealDurations (t : Timed V) (r : Nat) (layout : Layout V) : Prop where
  bars : ∀ bar ∈ layout.bars, t.OnClock r bar.startTs ∧ t.OnClock r bar.endTs
  total : ∃ start stop, t.OnClock r start ∧ t.OnClock r stop ∧
    layout.totalDurationTs = max 1 (stop - start)
  elapsed : ∀ anchor, t.anchors.get? r = some anchor →
    layout.totalDurationTs ≤ max 1 (tsUs anchor t.now : Int)

/-- Every stamped event is on the clock of its run and no later than the time the run has taken,
and so is everything that the flame graph of a run shows. -/
structure OnRunClock (t : Timed V) : Prop where
  stamps : ∀ st ∈ t.sys.log, t.Clocked st
  elapsed : ∀ st ∈ t.sys.log, ∃ anchor, t.anchors.get? st.run = some anchor ∧
    0 ≤ st.event.ts ∧ st.event.ts ≤ tsUs anchor t.now
  layouts : ∀ r info (view : InputView V) layout,
    computeLayout view (stampedIn t r info) = .layout layout → RealDurations t r layout

theorem onClock_of_stampedIn {t : Timed V} (h : ∀ st ∈ t.sys.log, t.Clocked st) {r : Nat}
    {info : InvocationMeta V} {e : InvocationEvent V} (he : e ∈ stampedIn t r info) :
    t.OnClock r e.ts := by
  obtain ⟨st, hst, rfl⟩ := List.mem_map.mp he
  obtain ⟨hlog, hrun⟩ := List.mem_filter.mp hst
  have hr : st.run = r := by simpa using hrun
  rw [← hr]
  exact (h st hlog).reading

theorem realDurations_of_clocked {t : Timed V} (h : ∀ st ∈ t.sys.log, t.Clocked st) {r : Nat}
    {info : InvocationMeta V} {view : InputView V} {layout : Layout V}
    (hl : computeLayout view (stampedIn t r info) = .layout layout) : RealDurations t r layout := by
  obtain ⟨places, trigger, terminal, htrigger, hterminal, rfl⟩ := computeLayout_eq_layout hl
  have hstart := onClock_of_stampedIn h (List.mem_of_find?_eq_some htrigger)
  have hstop := onClock_of_stampedIn h (List.mem_of_find?_eq_some hterminal)
  refine ⟨?_, ⟨trigger.ts, terminal.ts, hstart, hstop, rfl⟩, ?_⟩
  · intro bar hbar
    obtain ⟨e, he, e', he', hs, hend⟩ :=
      mem_bars_layOut (List.mem_of_find?_eq_some hterminal) hbar
    rw [hs, hend]
    exact ⟨onClock_of_stampedIn h he, onClock_of_stampedIn h he'⟩
  · intro anchor hr
    have h0 := (hstart.bounds hr).1
    have h1 := (hstop.bounds hr).2
    show max 1 (terminal.ts - trigger.ts) ≤ max 1 (tsUs anchor t.now : Int)
    omega

/-- Over every run of the worker and the main thread in which no limit ends a run in flight and no
run begins on a dead worker before its events are delivered, however the runs end. -/
theorem onRunClock_along {as : List (TimedAction V)} {t : Timed V}
    (h : exec Timed.step Timed.init as = some t) (hok : Along Timed.step Timed.ClockStep Timed.init as) :
    OnRunClock t := by
  have hinv := Timed.clockInv_exec h hok
  refine ⟨hinv.log, ?_, fun _ _ _ _ hl => realDurations_of_clocked hinv.log hl⟩
  intro st hst
  have hreading := (hinv.log st hst).reading
  have hanchor := hreading
  obtain ⟨anchor, _, hr, _⟩ := hanchor
  exact ⟨anchor, hr, hreading.bounds hr⟩

/-- A run whose worker is killed 2 ms after its trigger request, by a crash or by a limit. -/
def killedRun (death : Death Unit) : List (TimedAction Unit) :=
  [.tick 5000000 1700000000000, .act .run, .act .handleRun,
    .act (.request ⟨0, ""⟩ ⟨"trigger", "handler", none⟩), .act .deliver,
    .tick 2000000 1700000000002, .act (.workerExit death)]

/-- The state that `killedRun` leads to. -/
def killed (death : Death Unit) : Timed Unit :=
  (exec Timed.step Timed.init (killedRun death)).getD Timed.init

theorem onRunClock_along_crash :
    exec Timed.step Timed.init (killedRun (.other "crash:boom")) = some (killed (.other "crash:boom")) ∧
    (killed (.other "crash:boom")).sys.log.map (·.event.kind) = ["trigger.request", "trigger.error"] ∧
    OnRunClock (killed (.other "crash:boom")) :=
  ⟨rfl, by decide, @onRunClock_along Unit (killedRun (.other "crash:boom")) _ rfl (by decide)⟩

/-- The leaf of the limit carries the milliseconds since 1970, and the synthesised close repeats
them: the run of 2 ms is drawn as 1700000 seconds long. -/
theorem limit_not_onRunClock :
    let death : Death Unit := .limit "outputBytes" ⟨0, ""⟩ ()
    exec Timed.step Timed.init (killedRun death) = some (killed death) ∧
    (killed death).sys.log.map (fun st => (st.event.kind, st.event.ts)) =
      [("trigger.request", 0), ("system.exhaustion", 1700000000002),
        ("trigger.error", 1700000000002)] ∧
    ¬ OnRunClock (killed death) := by
  refine ⟨rfl, by decide, ?_⟩
  intro h
  have hlate := h.elapsed ⟨1, .synthesised, ⟨⟨"trigger.error", "handler", 1700000000002, "", none, none,
    some ⟨"limit:outputBytes", none, none, none⟩⟩, 2, some 0⟩⟩ (by decide)
  obtain ⟨anchor, hr, _, hle⟩ := hlate
  cases hr
  exact absurd hle (by decide)

end WorkflowEngine.Runtime
