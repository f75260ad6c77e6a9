import WorkflowEngine.Sandbox.CallPairing

/-!
# The clock of a run

The system of `WorkerRuns`, with the two clocks that its timestamps are read
from: `performance.now()` of the worker, in nanoseconds, which `resetAnchor` and
`tsUs` of `bridge.ts` read, and `Date.now()` of the main thread, which
`buildLimitLeaf` of `sandbox.ts` reads. The first never goes back; the second is
set to whatever the environment likes.

The anchor of each run and the instant of each emission are recorded only to
state what a timestamp should be. `Stage` follows one run over the two threads,
so that an event is stamped in the run whose anchor it was measured from.
-/

namespace WorkflowEngine.Sandbox

open Lib
set_option autoImplicit false

universe u
variable {V : Type u}

/-- `Math.round((performance.now() - anchorMs) * US_PER_MS)`, from nanoseconds. -/
def tsUs (anchor now : Nat) : Nat := (now - anchor + 500) / 1000

theorem tsUs_mono {anchor m n : Nat} (h : m ≤ n) : tsUs anchor m ≤ tsUs anchor n := by
  unfold tsUs
  omega

/-- An event that the worker posted in a run, with the instant at which it read the clock. -/
structure Emission (V : Type u) where
  run : Nat
  instant : Nat
  wire : WireEvent V

structure Timed (V : Type u) where
  sys : System V
  now : Nat
  date : Nat
  anchor : Nat
  anchors : OrderedMap Nat Nat
  emitted : List (Emission V)

inductive TimedAction (V : Type u) where
  | tick (elapsed date : Nat)
  | act (action : Action V)

def Message.wire? : Message V → Option (WireEvent V)
  | .event wire _ => some wire
  | _ => none

namespace Timed

def init : Timed V := ⟨.init, 0, 0, 0, .empty, []⟩

def limitReads (t : Timed V) : Death V → Death V
  | .limit dim clock input => .limit dim { clock with ts := t.date } input
  | .other closeReason => .other closeReason

/-- The action with the clock readings that the code makes. -/
def reads (t : Timed V) : Action V → Action V
  | .request clock options => .request { clock with ts := tsUs t.anchor t.now } options
  | .leaf clock kind name extra => .leaf { clock with ts := tsUs t.anchor t.now } kind name extra
  | .settle i clock outcome => .settle i { clock with ts := tsUs t.anchor t.now } outcome
  | .workerError death => .workerError (t.limitReads death)
  | .workerExit death => .workerExit (t.limitReads death)
  | a => a

/-- `resetAnchor` of `handleRun`, and the seeding of the anchor when `startRestore` begins. -/
def seed (t : Timed V) : Action V → Timed V
  | .handleRun => { t with anchor := t.now, anchors := t.anchors.set t.sys.workerRun t.now }
  | .finalizeRun => { t with anchor := t.now }
  | _ => t

/-- The events that a step put on the port. -/
def posted (before after : List (Message V)) : List (WireEvent V) :=
  (after.drop before.length).filterMap Message.wire?

def note (t : Timed V) (wires : List (WireEvent V)) : Timed V :=
  { t with emitted := t.emitted ++ wires.map fun wire => ⟨t.sys.workerRun, t.now, wire⟩ }

def step (t : Timed V) : TimedAction V → Option (Timed V)
  | .tick elapsed date => some { t with now := t.now + elapsed, date := date }
  | .act action =>
    (t.sys.step (t.reads action)).map fun sys =>
      ({ t with sys := sys }.seed action).note (posted t.sys.channel sys.channel)

/-! ## Readings -/

/-- `ts` is the number of microseconds since the anchor of run `r`, at an instant that has passed. -/
def OnClock (t : Timed V) (r : Nat) (ts : Int) : Prop :=
  ∃ anchor instant, t.anchors.get? r = some anchor ∧ anchor ≤ instant ∧ instant ≤ t.now ∧
    ts = tsUs anchor instant

/-- The worker posted `wire` in run `r`, and its `ts` is the reading at the instant it did so. -/
def Emitted (t : Timed V) (r : Nat) (wire : WireEvent V) : Prop :=
  ∃ e ∈ t.emitted, e.run = r ∧ e.wire = wire ∧ ∃ anchor, t.anchors.get? r = some anchor ∧
    anchor ≤ e.instant ∧ e.instant ≤ t.now ∧ wire.ts = tsUs anchor e.instant

/-- The timestamp of a stamped event is on the clock of its run, and it is the instant of its
emission if the worker emitted it. -/
structure Clocked (t : Timed V) (st : Stamp V) : Prop where
  reading : t.OnClock st.run st.event.ts
  emission : ∀ wire tag, st.origin = .wire wire tag → t.Emitted st.run wire ∧ st.event.ts = wire.ts

theorem OnClock.bounds {t : Timed V} {r : Nat} {ts : Int} (h : t.OnClock r ts) {anchor : Nat}
    (hr : t.anchors.get? r = some anchor) : 0 ≤ ts ∧ ts ≤ tsUs anchor t.now := by
  obtain ⟨anchor', instant, hr', _, hnow, rfl⟩ := h
  rw [hr] at hr'
  cases hr'
  exact ⟨Int.natCast_nonneg _, Int.ofNat_le.mpr (tsUs_mono hnow)⟩

theorem Emitted.onClock {t : Timed V} {r : Nat} {wire : WireEvent V} (h : t.Emitted r wire) :
    t.OnClock r wire.ts := by
  obtain ⟨e, _, _, _, anchor, hr, hle, hnow, hts⟩ := h
  exact ⟨anchor, e.instant, hr, hle, hnow, hts⟩

/-- Nothing that a reading depends on was lost from `t` to `t'`. -/
structure Extends (t t' : Timed V) : Prop where
  later : t.now ≤ t'.now
  anchors : ∀ r anchor, t.anchors.get? r = some anchor → t'.anchors.get? r = some anchor
  emitted : t.emitted ⊆ t'.emitted

theorem OnClock.mono {t t' : Timed V} {r : Nat} {ts : Int} (h : t.OnClock r ts) (ht : Extends t t') :
    t'.OnClock r ts := by
  obtain ⟨anchor, instant, hr, hle, hnow, hts⟩ := h
  exact ⟨anchor, instant, ht.anchors r anchor hr, hle, hnow.trans ht.later, hts⟩

theorem Emitted.mono {t t' : Timed V} {r : Nat} {wire : WireEvent V} (h : t.Emitted r wire)
    (ht : Extends t t') : t'.Emitted r wire := by
  obtain ⟨e, he, hrun, hwire, anchor, hr, hle, hnow, hts⟩ := h
  exact ⟨e, ht.emitted he, hrun, hwire, anchor, ht.anchors r anchor hr, hle, hnow.trans ht.later, hts⟩

theorem Clocked.mono {t t' : Timed V} {st : Stamp V} (h : t.Clocked st) (ht : Extends t t') :
    t'.Clocked st where
  reading := h.reading.mono ht
  emission := fun wire tag ho => ⟨(h.emission wire tag ho).1.mono ht, (h.emission wire tag ho).2⟩

/-! ## The invariant -/

/-- Where a run stands between the two threads, and which anchor its events are measured from. -/
inductive Stage (s : System V) (anchor : Nat) (anchors : OrderedMap Nat Nat) : Prop where
  | idle (alive : s.alive = true) (flight : s.runInFlight = false) (inbox : s.inbox = [])
      (closed : s.bridge.runActive = false) (quiet : Quiet s.channel) (open_ : Message.done ∉ s.channel)
  | posted (alive : s.alive = true) (flight : s.runInFlight = true) (inbox : s.inbox = [s.runs])
      (closed : s.bridge.runActive = false) (quiet : Quiet s.channel) (open_ : Message.done ∉ s.channel)
      (fresh : anchors.get? s.runs = none)
  | running (alive : s.alive = true) (flight : s.runInFlight = true) (inbox : s.inbox = [])
      (opened : s.bridge.runActive = true) (current : s.workerRun = s.runs)
      (open_ : Message.done ∉ s.channel) (anchored : anchors.get? s.runs = some anchor)
  | finishing (events rest : List (Message V)) (alive : s.alive = true) (flight : s.runInFlight = true)
      (inbox : s.inbox = []) (closed : s.bridge.runActive = false)
      (channel : s.channel = events ++ .done :: rest) (open_ : Message.done ∉ events)
      (quiet : Quiet rest) (last : Message.done ∉ rest)
  | dead (alive : s.alive = false) (quiet : s.runInFlight = true → Quiet s.channel)

structure ClockInv (t : Timed V) : Prop where
  log : ∀ st ∈ t.sys.log, t.Clocked st
  window : t.sys.sequencer.runActive = t.sys.runInFlight
  opened : t.sys.alive = true → (t.sys.bridge.runActive = true ↔ t.sys.runState = .running)
  behind : t.sys.workerRun ≤ t.sys.runs
  keyed : ∀ r anchor, t.anchors.get? r = some anchor → r ≤ t.sys.workerRun
  past : ∀ r anchor, t.anchors.get? r = some anchor → anchor ≤ t.now
  channel : t.sys.runInFlight = true → ∀ wire tag, .event wire tag ∈ t.sys.channel →
    t.Emitted t.sys.runs wire
  seen : t.sys.runInFlight = true → t.sys.sequencer.callMap ≠ .empty →
    t.OnClock t.sys.runs t.sys.sequencer.lastSeenTs
  stage : Stage t.sys t.anchor t.anchors

namespace Stage
variable {s : System V} {anchor : Nat} {anchors : OrderedMap Nat Nat}

/-- A stage is read off the two threads and the channel between them. -/
theorem congr {s' : System V} (h : Stage s anchor anchors) (halive : s'.alive = s.alive)
    (hflight : s'.runInFlight = s.runInFlight) (hinbox : s'.inbox = s.inbox)
    (hactive : s'.bridge.runActive = s.bridge.runActive) (hchannel : s'.channel = s.channel)
    (hrun : s'.workerRun = s.workerRun) (hruns : s'.runs = s.runs) : Stage s' anchor anchors := by
  cases h with
  | idle alive flight inbox closed quiet open_ =>
    exact .idle (halive.trans alive) (hflight.trans flight) (hinbox.trans inbox)
      (hactive.trans closed) (hchannel ▸ quiet) (hchannel ▸ open_)
  | posted alive flight inbox closed quiet open_ fresh =>
    exact .posted (halive.trans alive) (hflight.trans flight) (hinbox.trans (hruns ▸ inbox))
      (hactive.trans closed) (hchannel ▸ quiet) (hchannel ▸ open_) (hruns ▸ fresh)
  | running alive flight inbox opened current open_ anchored =>
    exact .running (halive.trans alive) (hflight.trans flight) (hinbox.trans inbox)
      (hactive.trans opened) (hrun.trans (current.trans hruns.symm)) (hchannel ▸ open_)
      (hruns ▸ anchored)
  | finishing events rest alive flight inbox closed channel open_ quiet last =>
    exact .finishing events rest (halive.trans alive) (hflight.trans flight) (hinbox.trans inbox)
      (hactive.trans closed) (hchannel.trans channel) open_ quiet last
  | dead alive quiet => exact .dead (halive.trans alive) fun hf => hchannel ▸ quiet (hflight ▸ hf)

/-- Between two runs a living worker has nothing to do and nothing to say. -/
theorem between (h : Stage s anchor anchors) (hflight : s.runInFlight = false) :
    s.alive = false ∨ (s.alive = true ∧ s.inbox = [] ∧ s.bridge.runActive = false ∧
      Quiet s.channel ∧ Message.done ∉ s.channel) := by
  cases h with
  | idle alive _ inbox closed quiet open_ => exact .inr ⟨alive, inbox, closed, quiet, open_⟩
  | posted _ flight => rw [flight] at hflight; cases hflight
  | running _ flight => rw [flight] at hflight; cases hflight
  | finishing _ _ _ flight => rw [flight] at hflight; cases hflight
  | dead alive => exact .inl alive

/-- A worker emits only in the run that main waits for. -/
theorem emitting (h : Stage s anchor anchors) (ha : s.alive = true)
    (hactive : s.bridge.runActive = true) :
    s.runInFlight = true ∧ s.inbox = [] ∧ s.workerRun = s.runs ∧ Message.done ∉ s.channel ∧
      anchors.get? s.runs = some anchor := by
  cases h with
  | idle _ _ _ closed => rw [closed] at hactive; cases hactive
  | posted _ _ _ closed => rw [closed] at hactive; cases hactive
  | running _ flight inbox _ current open_ anchored => exact ⟨flight, inbox, current, open_, anchored⟩
  | finishing _ _ _ _ _ closed => rw [closed] at hactive; cases hactive
  | dead alive => rw [alive] at ha; cases ha

/-- Only a `done` that leaves the channel changes the stage. -/
theorem tail (h : Stage s anchor anchors) {m : Message V} {channel : List (Message V)}
    (hc : s.channel = m :: channel) (hm : m ≠ .done) :
    Stage { s with channel := channel } anchor anchors := by
  have hrest {m' : Message V} (h' : m' ∈ channel) : m' ∈ s.channel := hc ▸ List.mem_cons_of_mem _ h'
  cases h with
  | idle alive flight inbox closed quiet open_ =>
    exact .idle alive flight inbox closed (fun w tag h' => quiet w tag (hrest h'))
      (fun hd => open_ (hrest hd))
  | posted alive flight inbox closed quiet open_ fresh =>
    exact .posted alive flight inbox closed (fun w tag h' => quiet w tag (hrest h'))
      (fun hd => open_ (hrest hd)) fresh
  | running alive flight inbox opened current open_ anchored =>
    exact .running alive flight inbox opened current (fun hd => open_ (hrest hd)) anchored
  | finishing events rest alive flight inbox closed hchannel open_ quiet last =>
    rw [hc] at hchannel
    cases events with
    | nil => exact absurd (List.cons.inj hchannel).1 hm
    | cons m' events =>
      exact .finishing events rest alive flight inbox closed (List.cons.inj hchannel).2
        (fun hd => open_ (List.mem_cons_of_mem m' hd)) quiet last
  | dead alive quiet => exact .dead alive fun hf w tag h' => quiet hf w tag (hrest h')

end Stage

/-- The steps that keep the clock: a limit does not end a run in flight, and no new run begins on a
worker that has died while events it posted are still undelivered. -/
def ClockStep (t : Timed V) : TimedAction V → Prop
  | .act .run => t.sys.alive = false → Quiet t.sys.channel
  | .act (.workerError (.limit ..)) | .act (.workerExit (.limit ..)) => t.sys.runInFlight = false
  | _ => True

theorem clockInv_init : ClockInv (init : Timed V) where
  log := by simp [init, System.init]
  window := rfl
  opened := by simp [init, System.init, Bridge.create]
  behind := Nat.le_refl 0
  keyed := by simp [init]
  past := by simp [init]
  channel := by simp [init, System.init]
  seen := by simp [init, System.init]
  stage := .idle rfl rfl rfl rfl (by simp [Quiet, init, System.init]) (by simp [init, System.init])

theorem clockInv_tick {t : Timed V} (h : ClockInv t) (elapsed date : Nat) :
    ClockInv { t with now := t.now + elapsed, date := date } := by
  have hext : Extends t { t with now := t.now + elapsed, date := date } :=
    ⟨Nat.le_add_right _ _, fun _ _ hr => hr, List.Subset.refl _⟩
  exact {
    log := fun st hst => (h.log st hst).mono hext
    window := h.window
    opened := h.opened
    behind := h.behind
    keyed := h.keyed
    past := fun r anchor hr => (h.past r anchor hr).trans hext.later
    channel := fun hflight wire tag hmem => (h.channel hflight wire tag hmem).mono hext
    seen := fun hflight hne => (h.seen hflight hne).mono hext
    stage := h.stage }

/-! ## The main thread -/

theorem extends_sys (t : Timed V) (sys : System V) : Extends t { t with sys := sys } :=
  ⟨Nat.le_refl _, fun _ _ hr => hr, List.Subset.refl _⟩

/-- A step of the main thread changes neither the clocks nor what the worker has emitted. -/
theorem ClockInv.main {t : Timed V} (h : ClockInv t) {sys : System V}
    (hlog : ∀ st ∈ sys.log, t.Clocked st) (hwindow : sys.sequencer.runActive = sys.runInFlight)
    (hactive : sys.bridge.runActive = t.sys.bridge.runActive) (hstate : sys.runState = t.sys.runState)
    (halive : sys.alive = true → t.sys.alive = true) (hrun : sys.workerRun = t.sys.workerRun)
    (hruns : t.sys.runs ≤ sys.runs)
    (hchannel : sys.runInFlight = true → ∀ wire tag, .event wire tag ∈ sys.channel →
      t.Emitted sys.runs wire)
    (hseen : sys.runInFlight = true → sys.sequencer.callMap ≠ .empty →
      t.OnClock sys.runs sys.sequencer.lastSeenTs)
    (hstage : Stage sys t.anchor t.anchors) : ClockInv { t with sys := sys } where
  log := fun st hst => (hlog st hst).mono (extends_sys t sys)
  window := hwindow
  opened := by
    intro ha
    rw [hactive, hstate]
    exact h.opened (halive ha)
  behind := by
    show sys.workerRun ≤ sys.runs
    rw [hrun]
    exact h.behind.trans hruns
  keyed := by
    show ∀ r anchor, t.anchors.get? r = some anchor → r ≤ sys.workerRun
    rw [hrun]
    exact h.keyed
  past := h.past
  channel := fun hflight wire tag hmem => (hchannel hflight wire tag hmem).mono (extends_sys t sys)
  seen := fun hflight hne => (hseen hflight hne).mono (extends_sys t sys)
  stage := hstage

theorem clockInv_run {t : Timed V} (h : ClockInv t) (hok : t.sys.alive = false → Quiet t.sys.channel) :
    ClockInv { t with sys := t.sys.run } := by
  unfold System.run
  split
  · exact h
  · rename_i hreject
    have hflight : t.sys.runInFlight = false := by
      cases hf : t.sys.runInFlight with
      | false => rfl
      | true => exact absurd (Or.inr (Or.inr hf)) hreject
    have hstage := h.stage.between hflight
    have hquiet : Quiet t.sys.channel := by
      rcases hstage with halive | ⟨_, _, _, quiet, _⟩
      · exact hok halive
      · exact quiet
    have hfresh : t.anchors.get? (t.sys.runs + 1) = none := by
      cases hget : t.anchors.get? (t.sys.runs + 1) with
      | none => rfl
      | some anchor =>
        have hle := (h.keyed _ _ hget).trans h.behind
        omega
    refine h.main h.log ?_ rfl rfl id rfl (Nat.le_succ _) ?_ ?_ ?_
    · rw [start_eq]
    · exact fun _ wire tag hmem => absurd hmem (hquiet wire tag)
    · intro _ hne
      rw [start_eq] at hne
      exact absurd rfl hne
    · rcases hstage with halive | ⟨halive, inbox, closed, _, open_⟩
      · exact .dead halive fun _ => hquiet
      · exact .posted halive rfl (by simp [inbox]) closed hquiet open_ hfresh

/-- The synthesised closes carry the timestamp of the last event that the run stamped. -/
theorem finalize_clocked {t : Timed V} {s : System V} (hlog : ∀ st ∈ s.log, t.Clocked st)
    (hseen : s.sequencer.callMap ≠ .empty → t.OnClock s.runs s.sequencer.lastSeenTs)
    (closeReason : Option String) : ∀ st ∈ (s.finalize closeReason).log, t.Clocked st := by
  intro st hst
  rcases List.mem_append.mp hst with hst | hst
  · exact hlog st hst
  · obtain ⟨event, hevent, rfl⟩ := List.mem_map.mp hst
    obtain ⟨k, entry, seq, reason, hk, _, rfl⟩ := mem_finish hevent
    have hne : s.sequencer.callMap ≠ .empty := by
      intro hempty
      rw [hempty] at hk
      cases hk
    exact ⟨hseen hne, by simp⟩

theorem clockInv_death {t : Timed V} (h : ClockInv t) (channel : List (Message V)) (terminated : Bool)
    (death : Death V)
    (hlimit : ∀ dim clock input, death = .limit dim clock input → t.sys.runInFlight = false) :
    ClockInv { t with
      sys := { t.sys with
        alive := false, channel := channel, terminated := terminated }.handleDeath death } := by
  cases hflight : t.sys.runInFlight with
  | false =>
    simp only [System.handleDeath, hflight, Bool.false_eq_true, if_false]
    exact h.main h.log (h.window.trans hflight) rfl rfl (by simp) rfl (Nat.le_refl _) (by simp)
      (by simp) (.dead rfl (by simp))
  | true =>
    cases death with
    | limit dim clock input =>
      rw [hlimit dim clock input rfl] at hflight
      cases hflight
    | other closeReason =>
      simp only [System.handleDeath, hflight, if_true]
      exact h.main (finalize_clocked h.log (h.seen hflight) _) rfl rfl rfl
        (by simp [System.finalize, System.record]) rfl (Nat.le_refl _) (by simp [System.finalize])
        (by simp [System.finalize]) (.dead rfl (by simp [System.finalize]))

theorem dispatch_clocked {t : Timed V} {s : System V} (hlog : ∀ st ∈ s.log, t.Clocked st)
    {wire : WireEvent V} (tag : Option CallTag) (hwire : t.Emitted s.runs wire) :
    ∀ st ∈ (s.dispatch (.wire wire tag) wire).log, t.Clocked st := by
  intro st hst
  rcases List.mem_append.mp hst with hst | hst
  · exact hlog st hst
  · obtain ⟨event, hevent, rfl⟩ := List.mem_map.mp hst
    have hts : event.ts = wire.ts := by rw [next_event_info (Option.mem_toList.mp hevent)]
    refine ⟨?_, ?_⟩
    · show t.OnClock s.runs event.ts
      rw [hts]
      exact hwire.onClock
    · rintro w tag' ⟨⟩
      exact ⟨hwire, hts⟩

theorem clockInv_deliver_event {t : Timed V} (h : ClockInv t) {wire : WireEvent V}
    {tag : Option CallTag} {channel : List (Message V)} (hc : t.sys.channel = .event wire tag :: channel) :
    ClockInv { t with sys := { t.sys with channel := channel }.dispatch (.wire wire tag) wire } := by
  have hmem : Message.event wire tag ∈ t.sys.channel := by simp [hc]
  have hstage : Stage ({ t.sys with channel := channel }.dispatch (.wire wire tag) wire) t.anchor
      t.anchors :=
    (h.stage.tail hc (by simp)).congr rfl rfl rfl rfl rfl rfl rfl
  cases hflight : t.sys.runInFlight with
  | false =>
    obtain ⟨hstate, hevent⟩ := next_inactive (h.window.trans hflight) wire
    refine h.main ?_ ?_ rfl rfl id rfl (Nat.le_refl _) ?_ ?_ hstage
    · simpa [System.dispatch, System.record, hevent] using h.log
    · simpa [System.dispatch, System.record, hstate] using h.window
    · simp [System.dispatch, System.record, hflight]
    · simp [System.dispatch, System.record, hflight]
  | true =>
    have hactive := h.window.trans hflight
    have hwire := h.channel hflight wire tag hmem
    refine h.main (dispatch_clocked h.log tag hwire) ?_ rfl rfl id rfl (Nat.le_refl _) ?_ ?_ hstage
    · show (t.sys.sequencer.next wire).state.runActive = t.sys.runInFlight
      rw [next_runActive hactive, hflight]
    · intro _ w tag' hw
      exact h.channel hflight w tag' (hc ▸ List.mem_cons_of_mem _ hw)
    · intro _ _
      show t.OnClock t.sys.runs (t.sys.sequencer.next wire).state.lastSeenTs
      rw [next_lastSeenTs hactive]
      exact hwire.onClock

theorem clockInv_deliver_done {t : Timed V} (h : ClockInv t) {channel : List (Message V)}
    (hc : t.sys.channel = .done :: channel) :
    ClockInv { t with
      sys := if t.sys.runInFlight then { t.sys with channel := channel }.finalize none
        else { t.sys with channel := channel } } := by
  have hmem : Message.done ∈ t.sys.channel := by simp [hc]
  cases hflight : t.sys.runInFlight with
  | false =>
    simp only [Bool.false_eq_true, if_false]
    have hdead : t.sys.alive = false := by
      rcases h.stage.between hflight with halive | ⟨_, _, _, _, open_⟩
      · exact halive
      · exact absurd hmem open_
    exact h.main h.log h.window rfl rfl id rfl (Nat.le_refl _) (by simp [hflight]) (by simp [hflight])
      (.dead hdead (by simp [hflight]))
  | true =>
    simp only [if_true]
    refine h.main (finalize_clocked h.log (h.seen hflight) _) rfl rfl rfl id rfl (Nat.le_refl _)
      (by simp [System.finalize]) (by simp [System.finalize]) ?_
    cases h.stage with
    | idle _ flight => rw [flight] at hflight; cases hflight
    | posted _ _ _ _ _ open_ => exact absurd hmem open_
    | running _ _ _ _ _ open_ => exact absurd hmem open_
    | finishing events rest alive flight inbox closed hchannel open_ quiet last =>
      rw [hc] at hchannel
      cases events with
      | nil =>
        obtain ⟨_, rfl⟩ := List.cons.inj hchannel
        exact .idle alive rfl inbox closed quiet last
      | cons m events =>
        obtain ⟨rfl, _⟩ := List.cons.inj hchannel
        exact absurd List.mem_cons_self open_
    | dead alive => exact .dead alive (by simp [System.finalize])

theorem clockInv_deliver_restoreFailed {t : Timed V} (h : ClockInv t) {channel : List (Message V)}
    (hc : t.sys.channel = .restoreFailed :: channel) (terminated : Bool) :
    ClockInv { t with sys := { t.sys with channel := channel, terminated := terminated } } := by
  refine h.main h.log h.window rfl rfl id rfl (Nat.le_refl _) ?_ h.seen ?_
  · intro hflight wire tag hmem
    exact h.channel hflight wire tag (hc ▸ List.mem_cons_of_mem _ hmem)
  · exact (h.stage.tail hc (by simp)).congr rfl rfl rfl rfl rfl rfl rfl

theorem clockInv_deliver {t : Timed V} (h : ClockInv t) {sys : System V}
    (hs : t.sys.deliver = some sys) : ClockInv { t with sys := sys } := by
  unfold System.deliver at hs
  split at hs
  · cases hs
  · rename_i message channel hc
    cases message with
    | event wire tag =>
      cases hs
      exact clockInv_deliver_event h hc
    | done =>
      cases hs
      exact clockInv_deliver_done h hc
    | restoreFailed =>
      simp only [Option.some.injEq] at hs
      subst hs
      split
      · exact clockInv_deliver_restoreFailed h hc t.sys.terminated
      · exact clockInv_deliver_restoreFailed h hc true

/-! ## The worker -/

theorem buildEvent_reads (b : Bridge) (clock : Clock) (kind name : String) (framing : EmitFraming)
    (extra : EmitExtra V) :
    (b.buildEvent clock kind name framing extra).bridge.runActive = b.runActive ∧
    ∀ wire, (b.buildEvent clock kind name framing extra).event = some wire →
      b.runActive = true ∧ wire.ts = clock.ts := by
  unfold Bridge.buildEvent
  split
  · rename_i hactive
    cases framing <;> simp [Bridge.toWireFraming, hactive]
  · simp

/-- The timed state after the worker posted `wires`, all of them read at this instant. -/
def emit (t : Timed V) (sys : System V) (tag : Option CallTag) (event : Option (WireEvent V)) : Timed V :=
  { t with sys := sys.post tag event }.note event.toList

theorem clockInv_emit {t : Timed V} (h : ClockInv t) (ha : t.sys.alive = true) {bridge : Bridge}
    (hbridge : bridge.runActive = t.sys.bridge.runActive) (pending : List (PendingCall V))
    (nextCall : Nat) (tag : Option CallTag) {event : Option (WireEvent V)}
    (hevent : ∀ wire, event = some wire → t.sys.bridge.runActive = true ∧ wire.ts = tsUs t.anchor t.now) :
    ClockInv (t.emit { t.sys with bridge := bridge, pending := pending, nextCall := nextCall }
      tag event) := by
  cases event with
  | none =>
    have hsame : t.emit { t.sys with bridge := bridge, pending := pending, nextCall := nextCall } tag none =
        { t with
          sys := { t.sys with bridge := bridge, pending := pending, nextCall := nextCall } } := by
      simp [emit, note, System.post]
    rw [hsame]
    exact h.main h.log h.window hbridge rfl id rfl (Nat.le_refl _) h.channel h.seen
      (h.stage.congr rfl rfl rfl hbridge rfl rfl rfl)
  | some wire =>
    obtain ⟨hactive, hts⟩ := hevent wire rfl
    obtain ⟨flight, inbox, current, open_, anchored⟩ := h.stage.emitting ha hactive
    have hext : Extends t (t.emit
        { t.sys with bridge := bridge, pending := pending, nextCall := nextCall } tag (some wire)) :=
      ⟨Nat.le_refl _, fun _ _ hr => hr, List.subset_append_left _ _⟩
    exact {
      log := fun st hst => (h.log st hst).mono hext
      window := h.window
      opened := by
        intro ha
        show bridge.runActive = true ↔ _
        rw [hbridge]
        exact h.opened ha
      behind := h.behind
      keyed := h.keyed
      past := h.past
      channel := by
        intro hflight w tag' hw
        rcases List.mem_append.mp hw with hw | hw
        · exact (h.channel hflight w tag' hw).mono hext
        · obtain ⟨rfl, _⟩ := Message.event.inj (List.mem_singleton.mp hw)
          refine ⟨⟨t.sys.workerRun, t.now, w⟩, ?_, current, rfl, t.anchor, anchored,
            h.past _ _ anchored, Nat.le_refl _, hts⟩
          exact List.mem_append_right _ (List.mem_singleton.mpr rfl)
      seen := fun hflight hne => (h.seen hflight hne).mono hext
      stage := .running ha flight inbox (hbridge.trans hactive) current
        (by
          intro hd
          rcases List.mem_append.mp hd with hd | hd
          · exact open_ hd
          · cases List.mem_singleton.mp hd) anchored }

theorem clockInv_handleRun {t : Timed V} (h : ClockInv t) {sys : System V}
    (hs : t.sys.handleRun = some sys) : ClockInv ({ t with sys := sys }.seed .handleRun) := by
  unfold System.handleRun at hs
  split at hs
  · cases hs
  · rename_i r rest hinbox
    simp only [Option.ite_none_right_eq_some, Option.some.injEq] at hs
    obtain ⟨⟨ha, _⟩, rfl⟩ := hs
    cases h.stage with
    | idle _ _ inbox => rw [inbox] at hinbox; cases hinbox
    | running _ _ inbox => rw [inbox] at hinbox; cases hinbox
    | finishing _ _ _ _ inbox => rw [inbox] at hinbox; cases hinbox
    | dead alive => rw [alive] at ha; cases ha
    | posted alive flight inbox closed quiet open_ fresh =>
      rw [inbox] at hinbox
      obtain ⟨rfl, rfl⟩ := List.cons.inj hinbox
      have hset (r anchor : Nat) (hr : t.anchors.get? r = some anchor) : r ≠ t.sys.runs := by
        rintro rfl
        rw [fresh] at hr
        cases hr
      have hext : Extends t (({ t with
          sys := { t.sys with
            inbox := [], runState := .running, bridge := t.sys.bridge.resetCallIds.setRunActive,
            workerRun := t.sys.runs } } : Timed V).seed .handleRun) := by
        refine ⟨Nat.le_refl _, ?_, List.Subset.refl _⟩
        intro r anchor hr
        show (t.anchors.set t.sys.runs t.now).get? r = some anchor
        rw [OrderedMap.get?_set_of_ne _ _ _ (hset r anchor hr)]
        exact hr
      have hanchors (r anchor : Nat) (hr : (t.anchors.set t.sys.runs t.now).get? r = some anchor) :
          r ≤ t.sys.runs ∧ anchor ≤ t.now := by
        rw [OrderedMap.get?_set] at hr
        split at hr
        · rename_i hrun
          cases hr
          exact ⟨Nat.le_of_eq hrun, Nat.le_refl _⟩
        · exact ⟨(h.keyed r anchor hr).trans h.behind, h.past r anchor hr⟩
      exact {
        log := fun st hst => (h.log st hst).mono hext
        window := h.window
        opened := fun _ => iff_of_true rfl rfl
        behind := Nat.le_refl _
        keyed := fun r anchor hr => (hanchors r anchor hr).1
        past := fun r anchor hr => (hanchors r anchor hr).2
        channel := fun _ wire tag hmem => absurd hmem (quiet wire tag)
        seen := fun hflight hne => (h.seen hflight hne).mono hext
        stage := .running alive flight rfl rfl rfl open_ (OrderedMap.get?_set_self _ _ _) }

/-- The last steps of a run reset the anchor while the window is closed. -/
theorem clockInv_finalizeRun {t : Timed V} (h : ClockInv t) {sys : System V}
    (hs : t.sys.finalizeRun = some sys) : ClockInv ({ t with sys := sys }.seed .finalizeRun) := by
  simp only [System.finalizeRun, Option.ite_none_right_eq_some, Option.some.injEq] at hs
  obtain ⟨⟨ha, hstate⟩, rfl⟩ := hs
  obtain ⟨flight, inbox, _, open_, _⟩ := h.stage.emitting ha ((h.opened ha).mpr hstate)
  have hext : Extends t (({ t with
      sys := { t.sys with
        bridge := t.sys.bridge.clearRunActive, runState := .restoring,
        channel := t.sys.channel ++ [.done] } } : Timed V).seed .finalizeRun) :=
    ⟨Nat.le_refl _, fun _ _ hr => hr, List.Subset.refl _⟩
  exact {
    log := fun st hst => (h.log st hst).mono hext
    window := h.window
    opened := by simp [seed, Bridge.clearRunActive]
    behind := h.behind
    keyed := h.keyed
    past := h.past
    channel := by
      intro hflight wire tag hmem
      rcases List.mem_append.mp hmem with hmem | hmem
      · exact (h.channel hflight wire tag hmem).mono hext
      · cases List.mem_singleton.mp hmem
    seen := fun hflight hne => (h.seen hflight hne).mono hext
    stage := .finishing t.sys.channel [] ha flight inbox rfl rfl open_ (by simp [Quiet]) (by simp) }

theorem clockInv_restored {t : Timed V} (h : ClockInv t) {sys : System V}
    (hs : t.sys.restored = some sys) : ClockInv { t with sys := sys } := by
  simp only [System.restored, Option.ite_none_right_eq_some, Option.some.injEq] at hs
  obtain ⟨⟨ha, hstate⟩, rfl⟩ := hs
  have hclosed : t.sys.bridge.runActive = false := by
    rw [← Bool.not_eq_true, h.opened ha, hstate]
    simp
  exact { h with
    log := fun st hst => (h.log st hst).mono (extends_sys t _)
    opened := by simp [Bridge.rebind]
    channel := fun hflight wire tag hmem => (h.channel hflight wire tag hmem).mono (extends_sys t _)
    seen := fun hflight hne => (h.seen hflight hne).mono (extends_sys t _)
    stage := h.stage.congr rfl rfl rfl hclosed.symm rfl rfl rfl }

theorem clockInv_restoreFailed {t : Timed V} (h : ClockInv t) {sys : System V}
    (hs : t.sys.restoreFailed = some sys) : ClockInv { t with sys := sys } := by
  simp only [System.restoreFailed, Option.ite_none_right_eq_some, Option.some.injEq] at hs
  obtain ⟨⟨ha, hstate⟩, rfl⟩ := hs
  have hclosed : t.sys.bridge.runActive = false := by
    rw [← Bool.not_eq_true, h.opened ha, hstate]
    simp
  have hnew {m : Message V} (hm : m ∈ t.sys.channel ++ [.restoreFailed]) (hne : m ≠ .restoreFailed) :
      m ∈ t.sys.channel := by
    rcases List.mem_append.mp hm with hm | hm
    · exact hm
    · exact absurd (List.mem_singleton.mp hm) hne
  have hstage : Stage
      { t.sys with runState := .dead, channel := t.sys.channel ++ [.restoreFailed] } t.anchor
      t.anchors := by
    cases h.stage with
    | idle alive flight inbox closed quiet open_ =>
      exact .idle alive flight inbox closed (fun w tag hm => quiet w tag (hnew hm (by simp)))
        (fun hd => open_ (hnew hd (by simp)))
    | posted alive flight inbox closed quiet open_ fresh =>
      exact .posted alive flight inbox closed (fun w tag hm => quiet w tag (hnew hm (by simp)))
        (fun hd => open_ (hnew hd (by simp))) fresh
    | running _ _ _ opened => rw [opened] at hclosed; cases hclosed
    | finishing events rest alive flight inbox closed hchannel open_ quiet last =>
      refine .finishing events (rest ++ [.restoreFailed]) alive flight inbox closed
        (by simp [hchannel]) open_ ?_ (by simpa using last)
      intro w tag hm
      exact quiet w tag (by simpa using hm)
    | dead alive => rw [alive] at ha; cases ha
  exact { h with
    log := fun st hst => (h.log st hst).mono (extends_sys t _)
    opened := by simp [hclosed]
    channel := fun hflight wire tag hmem =>
      (h.channel hflight wire tag (hnew hmem (by simp))).mono (extends_sys t _)
    seen := fun hflight hne => (h.seen hflight hne).mono (extends_sys t _)
    stage := hstage }

/-! ## Every step -/

theorem posted_of_le {before after : List (Message V)} (h : after.length ≤ before.length) :
    posted before after = [] := by
  rw [posted, List.drop_eq_nil_of_le h]
  rfl

theorem posted_append (before new : List (Message V)) :
    posted before (before ++ new) = new.filterMap Message.wire? := by
  rw [posted, List.drop_left]

theorem note_nil (t : Timed V) : t.note [] = t := by
  simp [note]

theorem note_posted_of_le (t : Timed V) {before after : List (Message V)}
    (h : after.length ≤ before.length) : t.note (posted before after) = t := by
  rw [posted_of_le h, note_nil]

theorem note_posted_same (t : Timed V) {before after : List (Message V)} (h : after = before) :
    t.note (posted before after) = t :=
  note_posted_of_le t (Nat.le_of_eq (congrArg List.length h))

theorem note_posted_control (t : Timed V) (before : List (Message V)) {m : Message V}
    (h : m.wire? = none) : t.note (posted before (before ++ [m])) = t := by
  rw [posted_append, List.filterMap_cons_none h, List.filterMap_nil, note_nil]

theorem handleDeath_channel (s : System V) (death : Death V) :
    (s.handleDeath death).channel = s.channel := by
  unfold System.handleDeath
  split
  · cases death <;> rfl
  · rfl

theorem deliver_channel {s sys : System V} (h : s.deliver = some sys) :
    sys.channel.length ≤ s.channel.length := by
  unfold System.deliver at h
  split at h
  · cases h
  · rename_i message channel hc
    have hsys : sys.channel = channel := by
      cases message with
      | event wire tag => cases h; rfl
      | done => cases h; split <;> rfl
      | restoreFailed => cases h; split <;> rfl
    rw [hsys, hc]
    exact Nat.le_succ _

/-- What the worker posts in one step is noted with the instant of the step. -/
theorem note_post (t : Timed V) (sys : System V) (tag : Option CallTag) (event : Option (WireEvent V))
    (hchannel : sys.channel = t.sys.channel) :
    { t with sys := sys.post tag event }.note (posted t.sys.channel (sys.post tag event).channel) =
      t.emit sys tag event := by
  cases event with
  | none =>
    have hpost : (sys.post tag none).channel = t.sys.channel := hchannel
    rw [note_posted_same _ hpost, emit, Option.toList_none, note_nil]
  | some wire =>
    have hpost : (sys.post tag (some wire)).channel = t.sys.channel ++ [.event wire tag] := by
      simp [System.post, hchannel]
    rw [hpost, posted_append]
    rfl

theorem not_limit_of_clockStep {t : Timed V} {death : Death V} (hok : ClockStep t (.act (.workerError death)) ∨
    ClockStep t (.act (.workerExit death))) (dim : String) (clock : Clock) (input : V)
    (hd : t.limitReads death = .limit dim clock input) : t.sys.runInFlight = false := by
  cases death with
  | limit d c i => exact hok.elim id id
  | other reason => cases hd

theorem clockInv_step (t : Timed V) (a : TimedAction V) (t' : Timed V) (h : ClockInv t)
    (hok : ClockStep t a) (ht : t.step a = some t') : ClockInv t' := by
  cases a with
  | tick elapsed date =>
    cases ht
    exact clockInv_tick h elapsed date
  | act action =>
    obtain ⟨sys, hs, rfl⟩ := Option.map_eq_some_iff.mp ht
    cases action with
    | run =>
      cases hs
      have hchannel : t.sys.run.channel = t.sys.channel := by
        unfold System.run
        split <;> rfl
      rw [note_posted_same _ hchannel]
      exact clockInv_run h hok
    | handleRun =>
      have hchannel : sys.channel = t.sys.channel := by
        unfold System.step reads System.handleRun at hs
        grind
      rw [note_posted_same _ hchannel]
      exact clockInv_handleRun h hs
    | request clock options =>
      simp only [System.step, reads, System.request, Option.ite_none_right_eq_some,
        Option.some.injEq] at hs
      obtain ⟨ha, rfl⟩ := hs
      obtain ⟨hbridge, hevent⟩ := buildEvent_reads t.sys.bridge
        { clock with ts := tsUs t.anchor t.now } (options.kindPrefix ++ ".request") options.name
        .openCall ⟨options.input, none, none⟩
      show ClockInv ({ t with sys := _ }.note _)
      rw [note_post t _ _ _ (by rfl)]
      exact clockInv_emit h ha hbridge _ _ _ hevent
    | leaf clock kind name extra =>
      simp only [System.step, reads, System.leaf, Option.ite_none_right_eq_some,
        Option.some.injEq] at hs
      obtain ⟨ha, rfl⟩ := hs
      show ClockInv ({ t with sys := _ }.note _)
      rw [note_post t _ _ _ (by rfl)]
      exact clockInv_emit h ha rfl t.sys.pending t.sys.nextCall _
        (buildEvent_reads t.sys.bridge { clock with ts := tsUs t.anchor t.now } kind name .leaf extra).2
    | settle i clock outcome =>
      simp only [System.step, reads, System.settle] at hs
      split at hs
      · cases hs
      · rename_i p hp
        simp only [Option.ite_none_right_eq_some, Option.some.injEq] at hs
        obtain ⟨ha, rfl⟩ := hs
        show ClockInv ({ t with sys := _ }.note _)
        rw [note_post t _ _ _ (by rfl)]
        refine clockInv_emit h ha rfl _ t.sys.nextCall _ ?_
        cases outcome with
        | response output => exact (buildEvent_reads _ _ _ _ _ _).2
        | error error => exact (buildEvent_reads _ _ _ _ _ _).2
    | finalizeRun =>
      have hchannel : sys.channel = t.sys.channel ++ [.done] := by
        simp only [System.step, reads, System.finalizeRun, Option.ite_none_right_eq_some,
          Option.some.injEq] at hs
        rw [← hs.2]
      rw [hchannel, note_posted_control _ _ rfl]
      exact clockInv_finalizeRun h hs
    | restored =>
      have hchannel : sys.channel = t.sys.channel := by
        simp only [System.step, reads, System.restored, Option.ite_none_right_eq_some,
          Option.some.injEq] at hs
        rw [← hs.2]
      rw [note_posted_same _ hchannel]
      exact clockInv_restored h hs
    | restoreFailed =>
      have hchannel : sys.channel = t.sys.channel ++ [.restoreFailed] := by
        simp only [System.step, reads, System.restoreFailed, Option.ite_none_right_eq_some,
          Option.some.injEq] at hs
        rw [← hs.2]
      rw [hchannel, note_posted_control _ _ rfl]
      exact clockInv_restoreFailed h hs
    | deliver =>
      rw [note_posted_of_le _ (deliver_channel hs)]
      exact clockInv_deliver h hs
    | workerError death =>
      simp only [System.step, reads, System.workerError, Option.ite_none_right_eq_some,
        Option.some.injEq] at hs
      obtain ⟨_, rfl⟩ := hs
      rw [handleDeath_channel, note_posted_of_le _ (Nat.le_refl _)]
      exact clockInv_death h t.sys.channel t.sys.terminated _ (not_limit_of_clockStep (.inl hok))
    | workerExit death =>
      cases hs
      rw [note_posted_of_le]
      · exact clockInv_death h [] _ _ (not_limit_of_clockStep (.inr hok))
      · rw [System.workerExit, handleDeath_channel]
        exact Nat.zero_le _
    | dispose =>
      cases hs
      rw [note_posted_of_le _ (Nat.le_refl _)]
      exact h.main h.log h.window rfl rfl id rfl (Nat.le_refl _) h.channel h.seen
        (h.stage.congr rfl rfl rfl rfl rfl rfl rfl)

theorem clockInv_exec {as : List (TimedAction V)} {t : Timed V} (h : exec step init as = some t)
    (hok : Along step ClockStep init as) : ClockInv t :=
  exec_invariant_along clockInv_step clockInv_init hok h

instance (t : Timed V) : (a : TimedAction V) → Decidable (ClockStep t a)
  | .act .run => inferInstanceAs (Decidable (_ → _))
  | .act (.workerError (.limit ..)) | .act (.workerExit (.limit ..)) =>
    inferInstanceAs (Decidable (t.sys.runInFlight = false))
  | .act (.workerError (.other _)) | .act (.workerExit (.other _)) => isTrue trivial
  | .tick .. | .act .handleRun | .act (.request ..) | .act (.leaf ..) | .act (.settle ..)
  | .act .finalizeRun | .act .restored | .act .restoreFailed | .act .deliver | .act .dispose =>
    isTrue trivial

end Timed

end WorkflowEngine.Sandbox
