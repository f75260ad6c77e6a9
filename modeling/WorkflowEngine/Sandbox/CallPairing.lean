import WorkflowEngine.Sandbox.WorkerRuns

/-!
# Which open a close is paired with, across runs

A late settlement keeps the callId it captured, while the callIds start again at
zero in every run. `PairedByRun` is the pairing that the event log should have;
`Settles` names the settlements that keep it. The invariant follows the messages
in flight: replaying them over the owners of the open frames must end with the
calls that are still pending in the worker.
-/

namespace WorkflowEngine.Sandbox

open Lib
set_option autoImplicit false

universe u
variable {V : Type u}

/-- The open that call `tag` emitted, stamped in run `r`. -/
def Stamp.IsOpen (op : Stamp V) (r : Nat) (tag : Option CallTag) : Prop :=
  op.run = r ∧ ∃ wire k, op.origin = .wire wire tag ∧ wire.type = .openCall k

/-- What one stamp owes to the log: a close is paired with the open of its own call in its own
run, a synthesised close with an open of its run, and an event of a call is stamped in the run
that opened the call. -/
structure StampPaired (log : List (Stamp V)) (st : Stamp V) : Prop where
  close : ∀ wire tag k, st.origin = .wire wire tag → wire.type = .closeCall k →
    ∃ op ∈ log, op.IsOpen st.run tag ∧ st.event.ref = some op.event.seq
  synthesised : st.origin = .synthesised →
    ∃ op ∈ log, (∃ tag, op.IsOpen st.run tag) ∧ st.event.ref = some op.event.seq
  ownRun : ∀ wire tag, st.origin = .wire wire (some tag) → tag.openedIn = some st.run

def PairedByRun (log : List (Stamp V)) : Prop := ∀ st ∈ log, StampPaired log st

/-- A settlement inside a run window is of a call of that run, or of a call whose captured
callId no pending call of that run has. -/
def Settles (s : System V) (p : PendingCall V) : Prop :=
  s.bridge.runActive = true → p.tag.openedIn = some s.workerRun ∨
    ∀ q ∈ s.pending, q.tag.openedIn = some s.workerRun → q.callId ≠ p.callId

def Quiet (channel : List (Message V)) : Prop := ∀ wire tag, Message.event wire tag ∉ channel

/-- The steps that keep the pairing: `Settles` for settlements, and no new run on a worker that
has died while events it posted are still undelivered. -/
def PairingStep (s : System V) : Action V → Prop
  | .settle i _ _ => ∀ p, s.pending[i]? = some p → Settles s p
  | .run => s.alive = false → Quiet s.channel
  | _ => True

instance (s : System V) (p : PendingCall V) : Decidable (Settles s p) :=
  inferInstanceAs (Decidable (_ → _ ∨ _))

theorem quiet_iff (channel : List (Message V)) :
    Quiet channel ↔ ∀ m ∈ channel, m matches .done | .restoreFailed := by
  constructor
  · intro h m hm
    cases m with
    | event wire tag => exact absurd hm (h wire tag)
    | done => rfl
    | restoreFailed => rfl
  · intro h wire tag hm
    have := h _ hm
    simp at this

instance (channel : List (Message V)) : Decidable (Quiet channel) :=
  decidable_of_iff _ (quiet_iff channel).symm

instance (s : System V) : (a : Action V) → Decidable (PairingStep s a)
  | .settle i _ _ =>
    match h : s.pending[i]? with
    | none => isTrue (by simp [PairingStep, h])
    | some p => decidable_of_iff (Settles s p) (by simp [PairingStep, h])
  | .run => inferInstanceAs (Decidable (_ → _))
  | .handleRun | .request .. | .leaf .. | .finalizeRun | .restored | .restoreFailed | .deliver
  | .workerError _ | .workerExit _ | .dispose => isTrue trivial

/-! ## Replaying the messages in flight -/

/-- The owner of each open callId after one message of run `r`; `none` for a wrong pairing. -/
def track (r : Nat) (own : Nat → Option Nat) : Message V → Option (Nat → Option Nat)
  | .event wire tag =>
    match wire.type with
    | .leaf => if tag = none then some own else none
    | .openCall k =>
      match tag with
      | none => none
      | some t =>
        if t.openedIn = some r ∧ own k = none then some (Function.update own k (some t.call))
        else none
    | .closeCall k =>
      match own k with
      | none => some own
      | some c => if tag = some ⟨c, some r⟩ then some (Function.update own k none) else none
  | _ => some own

theorem track_quiet {r : Nat} {own : Nat → Option Nat} {channel : List (Message V)}
    (h : Quiet channel) : exec (track r) own channel = some own := by
  induction channel with
  | nil => rfl
  | cons m channel ih =>
    have hrest : Quiet channel := fun wire tag hm => h wire tag (List.mem_cons_of_mem m hm)
    cases m with
    | event wire tag => exact absurd List.mem_cons_self (h wire tag)
    | done => simpa [exec, track] using ih hrest
    | restoreFailed => simpa [exec, track] using ih hrest

/-- `own` gives the owner of every frame that the sequencer holds open. -/
def Owns (log : List (Stamp V)) (r : Nat) (sequencer : RunSequencer) (own : Nat → Option Nat) : Prop :=
  ∀ k, match own k with
    | none => sequencer.callMap.get? k = none
    | some c => ∃ entry, sequencer.callMap.get? k = some entry ∧
        ∃ op ∈ log, op.IsOpen r (some ⟨c, some r⟩) ∧ op.event.seq = entry.openSeq

theorem Owns.free {log : List (Stamp V)} {r : Nat} {sequencer : RunSequencer} {own : Nat → Option Nat}
    (h : Owns log r sequencer own) {k : Nat} (hk : own k = none) :
    sequencer.callMap.get? k = none := by
  have := h k
  rwa [hk] at this

theorem Owns.held {log : List (Stamp V)} {r : Nat} {sequencer : RunSequencer} {own : Nat → Option Nat}
    (h : Owns log r sequencer own) {k c : Nat} (hk : own k = some c) :
    ∃ entry, sequencer.callMap.get? k = some entry ∧
      ∃ op ∈ log, op.IsOpen r (some ⟨c, some r⟩) ∧ op.event.seq = entry.openSeq := by
  have := h k
  rwa [hk] at this

theorem Owns.of_get? {log : List (Stamp V)} {r : Nat} {sequencer : RunSequencer}
    {own : Nat → Option Nat} (h : Owns log r sequencer own) {k : Nat} {entry : CallMapEntry}
    (hk : sequencer.callMap.get? k = some entry) :
    ∃ op ∈ log, (∃ tag, op.IsOpen r tag) ∧ op.event.seq = entry.openSeq := by
  cases hown : own k with
  | none => rw [h.free hown] at hk; cases hk
  | some c =>
    obtain ⟨entry', hk', op, hop, hopen, hseq⟩ := h.held hown
    rw [hk] at hk'
    cases hk'
    exact ⟨op, hop, ⟨_, hopen⟩, hseq⟩

/-- The same frames under a log that has grown. -/
theorem Owns.mono {log log' : List (Stamp V)} {r : Nat} {sequencer sequencer' : RunSequencer}
    {own : Nat → Option Nat} (h : Owns log r sequencer own) (hlog : log ⊆ log')
    (hmap : sequencer'.callMap = sequencer.callMap) : Owns log' r sequencer' own := by
  intro k
  have hk := h k
  rw [hmap]
  cases hown : own k with
  | none => rwa [hown] at hk
  | some c =>
    rw [hown] at hk
    obtain ⟨entry, hget, op, hop, hrest⟩ := hk
    exact ⟨entry, hget, op, hlog hop, hrest⟩

theorem owns_empty (log : List (Stamp V)) (r : Nat) {sequencer : RunSequencer}
    (h : sequencer.callMap = .empty) : Owns log r sequencer fun _ => none := by
  intro k
  simp [h]

/-- `own` gives the owner of every call that is still pending in the current run. -/
structure Matches (s : System V) (own : Nat → Option Nat) : Prop where
  owner_iff : ∀ k c, own k = some c ↔
    ∃ p ∈ s.pending, p.callId = k ∧ p.tag = ⟨c, some s.workerRun⟩
  below : ∀ p ∈ s.pending, p.tag.openedIn = some s.workerRun → p.callId < s.bridge.nextCallId

/-! ## The invariant -/

/-- Where a run stands between the two threads. -/
inductive Phase (s : System V) (own : Nat → Option Nat) : Prop where
  | idle (alive : s.alive = true) (flight : s.runInFlight = false) (inbox : s.inbox = [])
      (closed : s.bridge.runActive = false) (quiet : Quiet s.channel) (open_ : Message.done ∉ s.channel)
  | posted (alive : s.alive = true) (flight : s.runInFlight = true) (inbox : s.inbox = [s.runs])
      (closed : s.bridge.runActive = false) (quiet : Quiet s.channel) (open_ : Message.done ∉ s.channel)
      (later : s.workerRun < s.runs) (empty : own = fun _ => none)
  | running (own' : Nat → Option Nat) (alive : s.alive = true) (flight : s.runInFlight = true)
      (inbox : s.inbox = []) (opened : s.bridge.runActive = true) (current : s.workerRun = s.runs)
      (open_ : Message.done ∉ s.channel) (replay : exec (track s.runs) own s.channel = some own')
      (pending : Matches s own')
  | finishing (own' : Nat → Option Nat) (events rest : List (Message V)) (alive : s.alive = true)
      (flight : s.runInFlight = true) (inbox : s.inbox = []) (closed : s.bridge.runActive = false)
      (channel : s.channel = events ++ .done :: rest) (open_ : Message.done ∉ events)
      (replay : exec (track s.runs) own events = some own') (quiet : Quiet rest)
      (last : Message.done ∉ rest)
  | dead (alive : s.alive = false) (quiet : s.runInFlight = true → Quiet s.channel)

/-- What holds of the worker whatever the phase. -/
structure WorkerSound (s : System V) : Prop where
  window : s.alive = true → (s.bridge.runActive = true ↔ s.runState = .running)
  distinct : (s.pending.map (·.tag.call)).Nodup
  minted : ∀ p ∈ s.pending, p.tag.call < s.nextCall
  opened : ∀ p ∈ s.pending, ∀ r, p.tag.openedIn = some r → r ≤ s.workerRun
  behind : s.workerRun ≤ s.runs

/-- The main thread has no part in what `WorkerSound` is about, beyond counting the runs. -/
theorem WorkerSound.frame {s t : System V} (h : WorkerSound s) (halive : t.alive = s.alive)
    (hactive : t.bridge.runActive = s.bridge.runActive) (hstate : t.runState = s.runState)
    (hpending : t.pending = s.pending) (hcall : t.nextCall = s.nextCall)
    (hrun : t.workerRun = s.workerRun) (hruns : s.runs ≤ t.runs) : WorkerSound t where
  window := by
    rw [halive, hactive, hstate]
    exact h.window
  distinct := by
    rw [hpending]
    exact h.distinct
  minted := by
    rw [hpending, hcall]
    exact h.minted
  opened := by
    rw [hpending, hrun]
    exact h.opened
  behind := by
    rw [hrun]
    exact h.behind.trans hruns

structure PairingInv (s : System V) : Prop where
  paired : PairedByRun s.log
  window : s.sequencer.runActive = s.runInFlight
  worker : WorkerSound s
  frames : ∃ own, Owns s.log s.runs s.sequencer own ∧ Phase s own

/-! ## The main thread -/

theorem StampPaired.mono {log log' : List (Stamp V)} {st : Stamp V} (h : StampPaired log st)
    (hlog : log ⊆ log') : StampPaired log' st where
  close := fun wire tag k ho hk =>
    let ⟨op, hop, hrest⟩ := h.close wire tag k ho hk
    ⟨op, hlog hop, hrest⟩
  synthesised := fun ho =>
    let ⟨op, hop, hrest⟩ := h.synthesised ho
    ⟨op, hlog hop, hrest⟩
  ownRun := h.ownRun

theorem PairedByRun.append {log new : List (Stamp V)} (h : PairedByRun log)
    (hnew : ∀ st ∈ new, StampPaired log st) : PairedByRun (log ++ new) := by
  intro st hst
  rcases List.mem_append.mp hst with hst | hst
  · exact (h st hst).mono (List.subset_append_left log new)
  · exact (hnew st hst).mono (List.subset_append_left log new)

theorem finalize_paired {s : System V} {own : Nat → Option Nat} (hp : PairedByRun s.log)
    (ho : Owns s.log s.runs s.sequencer own) (closeReason : Option String) :
    PairedByRun (s.finalize closeReason).log := by
  refine hp.append ?_
  intro st hst
  obtain ⟨event, hevent, rfl⟩ := List.mem_map.mp hst
  obtain ⟨k, entry, seq, reason, hk, _, rfl⟩ := mem_finish hevent
  obtain ⟨op, hop, hopen, hseq⟩ := ho.of_get? hk
  exact {
    close := by simp
    synthesised := fun _ => ⟨op, hop, hopen, by rw [hseq]⟩
    ownRun := by simp }

theorem dispatch_leaf {s : System V} {own : Nat → Option Nat} (hp : PairedByRun s.log)
    (ha : s.sequencer.runActive = true) (ho : Owns s.log s.runs s.sequencer own) (wire : WireEvent V)
    (hw : wire.type = .leaf) (origin : Origin V) (horigin : origin ≠ .synthesised)
    (hwire : ∀ w tag, origin = .wire w tag → w = wire ∧ tag = none) :
    PairedByRun (s.dispatch origin wire).log ∧
    (s.dispatch origin wire).sequencer.runActive = true ∧
    Owns (s.dispatch origin wire).log s.runs (s.dispatch origin wire).sequencer own := by
  obtain ⟨hstate, hevent⟩ := next_leaf ha hw
  refine ⟨hp.append ?_, ?_, ho.mono (List.subset_append_left _ _) ?_⟩
  · intro st hst
    rw [hevent] at hst
    obtain ⟨event, _, rfl⟩ := List.mem_map.mp hst
    refine ⟨?_, fun h => absurd h horigin, ?_⟩
    · intro w tag k hw' hk
      rw [(hwire w tag hw').1, hw] at hk
      cases hk
    · intro w tag hw'
      cases (hwire w _ hw').2
  · show (s.sequencer.next wire).state.runActive = true
    rw [hstate]
    exact ha
  · show (s.sequencer.next wire).state.callMap = s.sequencer.callMap
    rw [hstate]

theorem dispatch_open {s : System V} {own : Nat → Option Nat} (hp : PairedByRun s.log)
    (ha : s.sequencer.runActive = true) (ho : Owns s.log s.runs s.sequencer own) {wire : WireEvent V}
    {k c : Nat} (hw : wire.type = .openCall k) :
    let t := s.dispatch (.wire wire (some ⟨c, some s.runs⟩)) wire
    PairedByRun t.log ∧ t.sequencer.runActive = true ∧
    Owns t.log s.runs t.sequencer (Function.update own k (some c)) := by
  obtain ⟨hstate, hevent⟩ := next_open ha hw
  refine ⟨hp.append ?_, ?_, ?_⟩
  · intro st hst
    obtain ⟨event, _, rfl⟩ := List.mem_map.mp hst
    refine ⟨?_, by simp, ?_⟩
    · intro w tag j horigin hj
      cases horigin
      rw [hw] at hj
      cases hj
    · intro w tag horigin
      cases horigin
      rfl
  · show (s.sequencer.next wire).state.runActive = true
    rw [hstate]
    exact ha
  · intro j
    have hmap : (s.dispatch (.wire wire (some ⟨c, some s.runs⟩)) wire).sequencer.callMap =
        s.sequencer.callMap.set k
          ⟨s.sequencer.seq, wire.name, wire.kind, synthCloseKind wire.kind⟩ := by
      show (s.sequencer.next wire).state.callMap = _
      rw [hstate]
    rw [hmap, OrderedMap.get?_set]
    by_cases hj : j = k
    · subst hj
      simp only [Function.update_self, if_true]
      refine ⟨_, rfl, ⟨s.runs, .wire wire (some ⟨c, some s.runs⟩),
        buildSandboxEvent wire s.sequencer.seq s.sequencer.refStack.getLast?⟩, ?_, ?_, rfl⟩
      · simp [System.dispatch, System.record, hevent]
      · exact ⟨rfl, wire, j, rfl, hw⟩
    · simp only [Function.update_of_ne hj, if_neg hj]
      exact ho.mono (List.subset_append_left _ _) rfl j

theorem dispatch_close {s : System V} {own : Nat → Option Nat} (hp : PairedByRun s.log)
    (ha : s.sequencer.runActive = true) (ho : Owns s.log s.runs s.sequencer own) {wire : WireEvent V}
    {k c : Nat} (hw : wire.type = .closeCall k) (hown : own k = some c) :
    let t := s.dispatch (.wire wire (some ⟨c, some s.runs⟩)) wire
    PairedByRun t.log ∧ t.sequencer.runActive = true ∧
    Owns t.log s.runs t.sequencer (Function.update own k none) := by
  obtain ⟨entry, hget, op, hop, hopen, hseq⟩ := ho.held hown
  obtain ⟨hstate, hevent⟩ := next_close ha hw hget
  refine ⟨hp.append ?_, ?_, ?_⟩
  · intro st hst
    rw [hevent] at hst
    obtain ⟨event, hevent', rfl⟩ := List.mem_map.mp hst
    simp only [Option.toList_some, List.mem_singleton] at hevent'
    refine ⟨?_, by simp, ?_⟩
    · intro w tag j horigin hj
      cases horigin
      exact ⟨op, hop, hopen, by rw [hevent', hseq]; rfl⟩
    · intro w tag horigin
      cases horigin
      rfl
  · show (s.sequencer.next wire).state.runActive = true
    rw [hstate]
    exact ha
  · intro j
    have hmap : (s.dispatch (.wire wire (some ⟨c, some s.runs⟩)) wire).sequencer.callMap =
        s.sequencer.callMap.delete k := by
      show (s.sequencer.next wire).state.callMap = _
      rw [hstate]
    rw [hmap, OrderedMap.get?_delete]
    by_cases hj : j = k
    · simp [hj]
    · simp only [Function.update_of_ne hj, if_neg hj]
      exact ho.mono (List.subset_append_left _ _) rfl j

theorem dispatch_stray {s : System V} {own : Nat → Option Nat} (hp : PairedByRun s.log)
    (ha : s.sequencer.runActive = true) (ho : Owns s.log s.runs s.sequencer own) {wire : WireEvent V}
    {k : Nat} (hw : wire.type = .closeCall k) (hown : own k = none) (origin : Origin V) :
    PairedByRun (s.dispatch origin wire).log ∧
    (s.dispatch origin wire).sequencer.runActive = true ∧
    Owns (s.dispatch origin wire).log s.runs (s.dispatch origin wire).sequencer own := by
  obtain ⟨hstate, hevent⟩ := next_close_unknown ha hw (ho.free hown)
  refine ⟨hp.append ?_, ?_, ho.mono (List.subset_append_left _ _) ?_⟩
  · simp [hevent]
  · show (s.sequencer.next wire).state.runActive = true
    rw [hstate]
    exact ha
  · show (s.sequencer.next wire).state.callMap = s.sequencer.callMap
    rw [hstate]

/-- A message that replays without a wrong pairing is stamped without one. -/
theorem dispatch_tracked {s : System V} {own own' : Nat → Option Nat} (hp : PairedByRun s.log)
    (ha : s.sequencer.runActive = true) (ho : Owns s.log s.runs s.sequencer own) {wire : WireEvent V}
    {tag : Option CallTag} (ht : track s.runs own (.event wire tag) = some own') :
    let t := s.dispatch (.wire wire tag) wire
    PairedByRun t.log ∧ t.sequencer.runActive = true ∧ Owns t.log s.runs t.sequencer own' := by
  cases hw : wire.type with
  | leaf =>
    simp only [track, hw, Option.ite_none_right_eq_some, Option.some.injEq] at ht
    obtain ⟨rfl, rfl⟩ := ht
    exact dispatch_leaf hp ha ho wire hw _ (by simp) (by rintro w tag ⟨⟩; simp)
  | openCall k =>
    cases tag with
    | none => simp [track, hw] at ht
    | some t =>
      simp only [track, hw, Option.ite_none_right_eq_some, Option.some.injEq] at ht
      obtain ⟨⟨hrun, _⟩, rfl⟩ := ht
      obtain ⟨call, openedIn⟩ := t
      cases hrun
      exact dispatch_open hp ha ho hw
  | closeCall k =>
    cases hown : own k with
    | none =>
      simp only [track, hw, hown, Option.some.injEq] at ht
      cases ht
      exact dispatch_stray hp ha ho hw hown _
    | some c =>
      simp only [track, hw, hown, Option.ite_none_right_eq_some, Option.some.injEq] at ht
      obtain ⟨rfl, rfl⟩ := ht
      exact dispatch_close hp ha ho hw hown

theorem dead_of_finalize {s : System V} (hworker : WorkerSound s) (hp : PairedByRun s.log)
    {own : Nat → Option Nat} (ho : Owns s.log s.runs s.sequencer own) (hdead : s.alive = false)
    (closeReason : Option String) : PairingInv (s.finalize closeReason) where
  paired := finalize_paired hp ho closeReason
  window := rfl
  worker := hworker.frame rfl rfl rfl rfl rfl rfl (Nat.le_refl _)
  frames := ⟨fun _ => none, owns_empty _ _ rfl, .dead hdead (by simp [System.finalize])⟩

theorem dead_of_handleDeath {s : System V} (hworker : WorkerSound s) (hp : PairedByRun s.log)
    (hwindow : s.sequencer.runActive = s.runInFlight)
    {own : Nat → Option Nat} (ho : Owns s.log s.runs s.sequencer own) (hdead : s.alive = false)
    (death : Death V) : PairingInv (s.handleDeath death) := by
  unfold System.handleDeath
  split
  · rename_i hflight
    rw [hflight] at hwindow
    cases death with
    | limit dim clock input =>
      obtain ⟨hp', _, ho'⟩ := dispatch_leaf hp hwindow ho (System.limitLeaf dim clock input) rfl
        .limitLeaf (by simp) (by simp)
      have hworker' := hworker.frame (t := s.dispatch .limitLeaf (System.limitLeaf dim clock input))
        rfl rfl rfl rfl rfl rfl (Nat.le_refl _)
      exact dead_of_finalize hworker' hp' ho' hdead _
    | other closeReason => exact dead_of_finalize hworker hp ho hdead _
  · rename_i hflight
    exact ⟨hp, hwindow, hworker, own, ho, .dead hdead fun h => absurd h hflight⟩

theorem pairing_workerError {s t : System V} (h : PairingInv s) {death : Death V}
    (ht : s.workerError death = some t) : PairingInv t := by
  obtain ⟨own, ho, _⟩ := h.frames
  simp only [System.workerError, Option.ite_none_right_eq_some, Option.some.injEq] at ht
  obtain ⟨_, rfl⟩ := ht
  have hworker : WorkerSound { s with alive := false } :=
    ⟨by simp, h.worker.distinct, h.worker.minted, h.worker.opened, h.worker.behind⟩
  exact dead_of_handleDeath hworker h.paired h.window ho rfl death

theorem pairing_workerExit {s : System V} (h : PairingInv s) (death : Death V) :
    PairingInv (s.workerExit death) := by
  obtain ⟨own, ho, _⟩ := h.frames
  have hworker : WorkerSound
      { s with alive := false, channel := [], terminated := s.terminated || !s.disposed } :=
    ⟨by simp, h.worker.distinct, h.worker.minted, h.worker.opened, h.worker.behind⟩
  exact dead_of_handleDeath hworker h.paired h.window ho rfl death

theorem pairing_run {s : System V} (h : PairingInv s) (hok : s.alive = false → Quiet s.channel) :
    PairingInv s.run := by
  unfold System.run
  split
  · exact h
  · rename_i hidle
    have hflight : s.runInFlight = false := by
      cases hf : s.runInFlight with
      | false => rfl
      | true => exact absurd (Or.inr (Or.inr hf)) hidle
    have hbehind := h.worker.behind
    obtain ⟨own, ho, hphase⟩ := h.frames
    refine {
      paired := h.paired
      window := by simp [start_eq]
      worker := h.worker.frame rfl rfl rfl rfl rfl rfl (Nat.le_succ s.runs)
      frames := ⟨fun _ => none, owns_empty _ _ (by simp [start_eq]), ?_⟩ }
    cases hphase with
    | idle alive flight inbox closed quiet hdone =>
      exact .posted alive rfl (by simp [inbox]) closed quiet hdone (Nat.lt_succ_of_le hbehind) rfl
    | posted alive flight => rw [hflight] at flight; cases flight
    | running own' alive flight => rw [hflight] at flight; cases flight
    | finishing own' events rest alive flight => rw [hflight] at flight; cases flight
    | dead alive quiet => exact .dead alive fun _ => hok alive

/-- Delivering a message while the run's own messages are still replayed. -/
theorem deliver_event {s : System V} {own own' : Nat → Option Nat} {wire : WireEvent V}
    {tag : Option CallTag} {channel : List (Message V)} (h : PairingInv s)
    (ho : Owns s.log s.runs s.sequencer own) (hflight : s.runInFlight = true)
    (ht : track s.runs own (.event wire tag) = some own')
    (hphase : Phase ({ s with channel := channel }.dispatch (.wire wire tag) wire) own') :
    PairingInv ({ s with channel := channel }.dispatch (.wire wire tag) wire) := by
  have hactive : s.sequencer.runActive = true := by rw [h.window, hflight]
  obtain ⟨hp, ha, ho'⟩ :=
    dispatch_tracked (s := { s with channel := channel }) h.paired hactive ho ht
  exact {
    paired := hp
    window := ha.trans hflight.symm
    worker := h.worker.frame rfl rfl rfl rfl rfl rfl le_rfl
    frames := ⟨own', ho', hphase⟩ }

theorem Quiet.tail {m : Message V} {channel : List (Message V)} (h : Quiet (m :: channel)) :
    Quiet channel := fun wire tag hm => h wire tag (List.mem_cons_of_mem m hm)

/-- The `done` of a run closes its window on the main thread. -/
theorem deliver_done {s : System V} {own : Nat → Option Nat} {channel : List (Message V)}
    (h : PairingInv s) (ho : Owns s.log s.runs s.sequencer own)
    (hphase : Phase ({ s with channel := channel }.finalize none) fun _ => none) :
    PairingInv ({ s with channel := channel }.finalize none) where
  paired := finalize_paired (s := { s with channel := channel }) h.paired ho none
  window := rfl
  worker := h.worker.frame rfl rfl rfl rfl rfl rfl le_rfl
  frames := ⟨fun _ => none, owns_empty _ _ rfl, hphase⟩

/-- Dropping the head of the channel when it is neither an event nor the end of a run. -/
theorem Phase.drop {s : System V} {own : Nat → Option Nat} (h : Phase s own)
    {channel : List (Message V)} (hc : s.channel = .restoreFailed :: channel) (terminated : Bool) :
    Phase { s with channel := channel, terminated := terminated } own := by
  cases h with
  | idle alive flight inbox closed quiet hdone =>
    rw [hc] at quiet hdone
    exact .idle alive flight inbox closed quiet.tail fun h => hdone (List.mem_cons_of_mem _ h)
  | posted alive flight inbox closed quiet hdone later empty =>
    rw [hc] at quiet hdone
    exact .posted alive flight inbox closed quiet.tail (fun h => hdone (List.mem_cons_of_mem _ h))
      later empty
  | running own' alive flight inbox opened current hdone replay pending =>
    rw [hc] at hdone replay
    exact .running own' alive flight inbox opened current (fun h => hdone (List.mem_cons_of_mem _ h))
      (by simpa [exec, track] using replay) ⟨pending.owner_iff, pending.below⟩
  | finishing own' events rest alive flight inbox closed channel' hdone replay quiet last =>
    cases events with
    | nil => rw [hc] at channel'; cases channel'
    | cons m events =>
      rw [hc, List.cons_append, List.cons.injEq] at channel'
      obtain ⟨rfl, hrest⟩ := channel'
      exact .finishing own' events rest alive flight inbox closed hrest
        (fun h => hdone (List.mem_cons_of_mem _ h)) (by simpa [exec, track] using replay) quiet last
  | dead alive quiet =>
    rw [hc] at quiet
    exact .dead alive fun h => (quiet h).tail

theorem deliver_restoreFailed {s : System V} (h : PairingInv s) {channel : List (Message V)}
    (hc : s.channel = .restoreFailed :: channel) (terminated : Bool) :
    PairingInv { s with channel := channel, terminated := terminated } := by
  obtain ⟨own, ho, hphase⟩ := h.frames
  exact ⟨h.paired, h.window,
    h.worker.frame rfl rfl rfl rfl rfl rfl le_rfl,
    own, ho, hphase.drop hc terminated⟩

/-- Outside a run the sequencer drops every event. -/
theorem deliver_outside {s : System V} (h : PairingInv s) (hflight : s.runInFlight = false)
    (hdead : s.alive = false) (channel : List (Message V)) (origin : Origin V) (wire : WireEvent V) :
    PairingInv ({ s with channel := channel }.dispatch origin wire) := by
  obtain ⟨own, ho, _⟩ := h.frames
  have hinactive : s.sequencer.runActive = false := by rw [h.window, hflight]
  have hnext : (s.sequencer.next wire).state = s.sequencer ∧ (s.sequencer.next wire).event = none := by
    simp [RunSequencer.next, hinactive]
  exact {
    paired := by simpa [System.dispatch, System.record, hnext.2] using h.paired
    window := by simpa [System.dispatch, System.record, hnext.1] using h.window
    worker := h.worker.frame rfl rfl rfl rfl rfl rfl le_rfl
    frames := ⟨own, by simpa [System.dispatch, System.record, hnext.1, hnext.2] using ho,
      .dead hdead fun hf => by
        rw [show s.runInFlight = true from hf] at hflight
        cases hflight⟩ }

theorem pairing_deliver {s t : System V} (h : PairingInv s) (ht : s.deliver = some t) :
    PairingInv t := by
  obtain ⟨own, ho, hphase⟩ := h.frames
  cases hc : s.channel with
  | nil => simp [System.deliver, hc] at ht
  | cons m channel =>
    cases m with
    | restoreFailed =>
      simp only [System.deliver, hc, Option.some.injEq] at ht
      subst ht
      split
      · exact deliver_restoreFailed h hc s.terminated
      · exact deliver_restoreFailed h hc true
    | event wire tag =>
      simp only [System.deliver, hc, Option.some.injEq] at ht
      subst ht
      cases hphase with
      | idle alive flight inbox closed quiet => exact absurd (hc ▸ List.mem_cons_self) (quiet wire tag)
      | posted alive flight inbox closed quiet => exact absurd (hc ▸ List.mem_cons_self) (quiet wire tag)
      | running own' alive flight inbox opened current hdone replay pending =>
        rw [hc] at replay hdone
        obtain ⟨mid, hmid, hrest⟩ := exec_cons_eq_some.mp replay
        exact deliver_event h ho flight hmid (.running own' alive flight inbox opened current
          (fun h => hdone (List.mem_cons_of_mem _ h)) hrest ⟨pending.owner_iff, pending.below⟩)
      | finishing own' events rest alive flight inbox closed channel' hdone replay quiet last =>
        cases events with
        | nil => rw [hc] at channel'; cases channel'
        | cons m events =>
          rw [hc, List.cons_append, List.cons.injEq] at channel'
          obtain ⟨rfl, hchannel⟩ := channel'
          obtain ⟨mid, hmid, hrest⟩ := exec_cons_eq_some.mp replay
          exact deliver_event h ho flight hmid (.finishing own' events rest alive flight inbox closed
            hchannel (fun h => hdone (List.mem_cons_of_mem _ h)) hrest quiet last)
      | dead alive quiet =>
        by_cases hflight : s.runInFlight = true
        · exact absurd (hc ▸ List.mem_cons_self) (quiet hflight wire tag)
        · exact deliver_outside h (by simpa using hflight) alive channel _ wire
    | done =>
      simp only [System.deliver, hc, Option.some.injEq] at ht
      subst ht
      cases hphase with
      | idle alive flight inbox closed quiet hdone => exact absurd (hc ▸ List.mem_cons_self) hdone
      | posted alive flight inbox closed quiet hdone => exact absurd (hc ▸ List.mem_cons_self) hdone
      | running own' alive flight inbox opened current hdone =>
        exact absurd (hc ▸ List.mem_cons_self) hdone
      | finishing own' events rest alive flight inbox closed channel' hdone replay quiet last =>
        have hevents : events = [] := by
          cases events with
          | nil => rfl
          | cons m events =>
            rw [hc, List.cons_append, List.cons.injEq] at channel'
            exact absurd (channel'.1 ▸ List.mem_cons_self) hdone
        rw [hevents, hc, List.nil_append, List.cons.injEq] at channel'
        obtain ⟨_, rfl⟩ := channel'
        simp only [flight, if_true]
        exact deliver_done h ho (.idle alive rfl inbox closed quiet last)
      | dead alive quiet =>
        split
        · exact deliver_done h ho (.dead alive nofun)
        · rename_i hflight
          exact ⟨h.paired, h.window,
            h.worker.frame rfl rfl rfl rfl rfl rfl le_rfl,
            own, ho, .dead alive fun hf => absurd hf hflight⟩

/-! ## The worker -/

theorem Phase.of_active {s : System V} {own : Nat → Option Nat} (h : Phase s own)
    (halive : s.alive = true) (hactive : s.bridge.runActive = true) :
    ∃ own', s.runInFlight = true ∧ s.inbox = [] ∧ s.workerRun = s.runs ∧ Message.done ∉ s.channel ∧
      exec (track s.runs) own s.channel = some own' ∧ Matches s own' := by
  cases h with
  | idle _ _ _ closed => rw [hactive] at closed; cases closed
  | posted _ _ _ closed => rw [hactive] at closed; cases closed
  | running own' _ flight inbox _ current hdone replay pending =>
    exact ⟨own', flight, inbox, current, hdone, replay, pending⟩
  | finishing _ _ _ _ _ _ closed => rw [hactive] at closed; cases closed
  | dead alive => rw [halive] at alive; cases alive

/-- With the window closed, what the worker does to its own calls is invisible. -/
theorem Phase.of_closed {s t : System V} {own : Nat → Option Nat} (h : Phase s own)
    (hs : s.bridge.runActive = false) (ht : t.bridge.runActive = false) (halive : t.alive = s.alive)
    (hflight : t.runInFlight = s.runInFlight) (hinbox : t.inbox = s.inbox)
    (hchannel : t.channel = s.channel) (hrun : t.workerRun = s.workerRun) (hruns : t.runs = s.runs) :
    Phase t own := by
  cases h with
  | idle alive flight inbox closed quiet hdone =>
    exact .idle (halive.trans alive) (hflight.trans flight) (hinbox.trans inbox) ht (hchannel ▸ quiet)
      (hchannel ▸ hdone)
  | posted alive flight inbox closed quiet hdone later empty =>
    exact .posted (halive.trans alive) (hflight.trans flight) (by rw [hinbox, hruns, inbox]) ht
      (hchannel ▸ quiet) (hchannel ▸ hdone) (by rw [hrun, hruns]; exact later) empty
  | running _ _ _ _ opened => rw [hs] at opened; cases opened
  | finishing own' events rest alive flight inbox closed channel hdone replay quiet last =>
    exact .finishing own' events rest (halive.trans alive) (hflight.trans flight)
      (hinbox.trans inbox) ht (hchannel.trans channel) hdone (hruns ▸ replay) quiet last
  | dead alive quiet =>
    exact .dead (halive.trans alive) fun hf => hchannel ▸ quiet (hflight ▸ hf)

theorem replay_snoc {r : Nat} {own mid own' : Nat → Option Nat} {channel : List (Message V)}
    {m : Message V} (h : exec (track r) own channel = some mid) (hm : track r mid m = some own') :
    exec (track r) own (channel ++ [m]) = some own' :=
  exec_append_eq_some.mpr ⟨mid, h, by simp [exec, hm]⟩

theorem not_mem_snoc_event {channel : List (Message V)} (h : Message.done ∉ channel)
    (wire : WireEvent V) (tag : Option CallTag) : Message.done ∉ channel ++ [.event wire tag] := by
  simp [h]

theorem pairing_handleRun {s t : System V} (h : PairingInv s) (ht : s.handleRun = some t) :
    PairingInv t := by
  obtain ⟨own, ho, hphase⟩ := h.frames
  cases hinbox : s.inbox with
  | nil => simp [System.handleRun, hinbox] at ht
  | cons r inbox =>
    simp only [System.handleRun, hinbox, Option.ite_none_right_eq_some, Option.some.injEq] at ht
    obtain ⟨⟨halive, _⟩, rfl⟩ := ht
    cases hphase with
    | idle _ _ hnil => rw [hinbox] at hnil; cases hnil
    | running _ _ _ hnil => rw [hinbox] at hnil; cases hnil
    | finishing _ _ _ _ _ hnil => rw [hinbox] at hnil; cases hnil
    | dead hdead => rw [halive] at hdead; cases hdead
    | posted alive flight hone closed quiet hdone later empty =>
      rw [hinbox, List.cons.injEq] at hone
      obtain ⟨rfl, rfl⟩ := hone
      have hold : ∀ p ∈ s.pending, p.tag.openedIn ≠ some s.runs := by
        intro p hp hopened
        have := h.worker.opened p hp _ hopened
        omega
      refine {
        paired := h.paired
        window := h.window
        worker := ⟨by simp [Bridge.setRunActive], h.worker.distinct, h.worker.minted, ?_, le_refl _⟩
        frames := ⟨own, ho, .running own alive flight rfl rfl rfl hdone (track_quiet quiet) ⟨?_, ?_⟩⟩ }
      · exact fun p hp r hr => (h.worker.opened p hp r hr).trans h.worker.behind
      · intro k c
        subst empty
        simp only [reduceCtorEq, false_iff, not_exists, not_and]
        intro p hp _ htag
        exact hold p hp (by rw [htag])
      · exact fun p hp hopened => absurd hopened (hold p hp)

theorem WorkerSound.request {s : System V} (h : WorkerSound s) (bridge : Bridge)
    (hb : bridge.runActive = s.bridge.runActive) (openedIn : Option Nat)
    (hopened : ∀ r, openedIn = some r → r ≤ s.workerRun) (callId : Nat) (options : RequestOptions V)
    (channel : List (Message V)) :
    WorkerSound { s with
      bridge := bridge
      nextCall := s.nextCall + 1
      pending := s.pending ++ [⟨⟨s.nextCall, openedIn⟩, callId, options⟩]
      channel := channel } where
  window := by simpa [hb] using h.window
  distinct := by
    rw [List.map_append]
    refine List.nodup_append'.mpr ⟨h.distinct, by simp, ?_⟩
    intro c hc hc'
    obtain ⟨p, hp, rfl⟩ := List.mem_map.mp hc
    have := h.minted p hp
    simp at hc'
    omega
  minted := by
    intro p hp
    rcases List.mem_append.mp hp with hp | hp
    · exact Nat.lt_succ_of_lt (h.minted p hp)
    · rw [List.mem_singleton.mp hp]
      exact Nat.lt_succ_self _
  opened := by
    intro p hp r hr
    rcases List.mem_append.mp hp with hp | hp
    · exact h.opened p hp r hr
    · rw [List.mem_singleton.mp hp] at hr
      exact hopened r hr
  behind := h.behind

/-- A call that begins in the window gets a callId that no pending call of the run has. -/
theorem Matches.request {s : System V} {own : Nat → Option Nat} (h : Matches s own)
    (options : RequestOptions V) (channel : List (Message V)) :
    own s.bridge.nextCallId = none ∧
    Matches { s with
      bridge := { s.bridge with nextCallId := s.bridge.nextCallId + 1 }
      nextCall := s.nextCall + 1
      pending := s.pending ++ [⟨⟨s.nextCall, some s.workerRun⟩, s.bridge.nextCallId, options⟩]
      channel := channel } (Function.update own s.bridge.nextCallId (some s.nextCall)) := by
  have hfree : own s.bridge.nextCallId = none := by
    cases hown : own s.bridge.nextCallId with
    | none => rfl
    | some c =>
      obtain ⟨p, hp, hid, htag⟩ := (h.owner_iff _ _).mp hown
      have := h.below p hp (by rw [htag])
      omega
  refine ⟨hfree, ?_, ?_⟩
  · intro k c
    simp only [List.mem_append, List.mem_singleton]
    by_cases hk : k = s.bridge.nextCallId
    · subst hk
      simp only [Function.update_self, Option.some.injEq]
      constructor
      · rintro rfl
        exact ⟨_, Or.inr rfl, rfl, rfl⟩
      · rintro ⟨p, hp | rfl, hid, htag⟩
        · rw [(h.owner_iff _ c).mpr ⟨p, hp, hid, htag⟩] at hfree
          cases hfree
        · cases htag
          rfl
    · rw [Function.update_of_ne hk, h.owner_iff]
      constructor
      · rintro ⟨p, hp, hrest⟩
        exact ⟨p, Or.inl hp, hrest⟩
      · rintro ⟨p, hp | rfl, hid, htag⟩
        · exact ⟨p, hp, hid, htag⟩
        · exact absurd hid.symm hk
  · intro p hp hopened
    rcases List.mem_append.mp hp with hp | hp
    · exact Nat.lt_succ_of_lt (h.below p hp hopened)
    · rw [List.mem_singleton.mp hp]
      exact Nat.lt_succ_self _

theorem pairing_request {s t : System V} (h : PairingInv s) {clock : Clock}
    {options : RequestOptions V} (ht : s.request clock options = some t) : PairingInv t := by
  obtain ⟨own, ho, hphase⟩ := h.frames
  simp only [System.request, Option.ite_none_right_eq_some, Option.some.injEq] at ht
  obtain ⟨halive, rfl⟩ := ht
  by_cases hactive : s.bridge.runActive = true
  · obtain ⟨own', flight, inbox, current, hdone, replay, pending⟩ := hphase.of_active halive hactive
    obtain ⟨wire, hwire, _, hbuilt⟩ := emitRequest_active hactive clock options
    obtain ⟨hfree, hmatches⟩ := pending.request options
      (s.channel ++ [.event wire (some ⟨s.nextCall, some s.workerRun⟩)])
    rw [hbuilt]
    simp only [System.post, if_pos hactive]
    have hopened : ∀ r, some s.workerRun = some r → r ≤ s.workerRun := by
      rintro r ⟨⟩
      exact le_refl _
    have hworker := h.worker.request { s.bridge with nextCallId := s.bridge.nextCallId + 1 } rfl _
      hopened s.bridge.nextCallId options
      (s.channel ++ [.event wire (some ⟨s.nextCall, some s.workerRun⟩)])
    exact ⟨h.paired, h.window, hworker, own, ho,
      .running _ halive flight inbox hactive current (not_mem_snoc_event hdone _ _)
        (replay_snoc replay (by simp [track, hwire, hfree, current])) hmatches⟩
  · have hclosed : s.bridge.runActive = false := by simpa using hactive
    rw [emitRequest_inactive hclosed]
    simp only [System.post, if_neg hactive]
    exact ⟨h.paired, h.window, h.worker.request _ rfl none (by simp) _ _ _, own, ho,
      hphase.of_closed hclosed hclosed rfl rfl rfl rfl rfl rfl⟩

theorem pairing_leaf {s t : System V} (h : PairingInv s) {clock : Clock} {kind name : String}
    {extra : EmitExtra V} (ht : s.leaf clock kind name extra = some t) : PairingInv t := by
  obtain ⟨own, ho, hphase⟩ := h.frames
  simp only [System.leaf, Option.ite_none_right_eq_some, Option.some.injEq] at ht
  obtain ⟨halive, rfl⟩ := ht
  by_cases hactive : s.bridge.runActive = true
  · obtain ⟨own', flight, inbox, current, hdone, replay, pending⟩ := hphase.of_active halive hactive
    simp only [Bridge.buildEvent, hactive, if_true, Bridge.toWireFraming, System.post]
    exact ⟨h.paired, h.window,
      h.worker.frame rfl rfl rfl rfl rfl rfl le_rfl, own, ho,
      .running own' halive flight inbox hactive current (not_mem_snoc_event hdone _ _)
        (replay_snoc replay (by simp [track])) ⟨pending.owner_iff, pending.below⟩⟩
  · simpa [Bridge.buildEvent, hactive, System.post] using h

theorem mem_eraseIdx_of_nodup {α : Type*} {xs : List α} (h : xs.Nodup) {i : Nat} {x : α}
    (hx : xs[i]? = some x) (y : α) : y ∈ xs.eraseIdx i ↔ y ≠ x ∧ y ∈ xs := by
  classical
  obtain ⟨hi, rfl⟩ := List.getElem?_eq_some_iff.mp hx
  rw [← h.erase_getElem i hi, h.mem_erase_iff]

theorem WorkerSound.settle {s : System V} (h : WorkerSound s) (i : Nat)
    (channel : List (Message V)) :
    WorkerSound { s with pending := s.pending.eraseIdx i, channel := channel } where
  window := h.window
  distinct := h.distinct.sublist ((List.eraseIdx_sublist s.pending i).map _)
  minted := fun p hp => h.minted p (List.mem_of_mem_eraseIdx hp)
  opened := fun p hp => h.opened p (List.mem_of_mem_eraseIdx hp)
  behind := h.behind

/-- The settlement of a call of the current run closes the frame it owns. -/
theorem Matches.settle_own {s : System V} {own : Nat → Option Nat} (h : Matches s own)
    (hworker : WorkerSound s) {i : Nat} {p : PendingCall V} (hp : s.pending[i]? = some p)
    (hopened : p.tag.openedIn = some s.workerRun) (channel : List (Message V)) :
    own p.callId = some p.tag.call ∧
    Matches { s with pending := s.pending.eraseIdx i, channel := channel }
      (Function.update own p.callId none) := by
  have hnodup : s.pending.Nodup := hworker.distinct.of_map _
  have hmem : p ∈ s.pending := List.mem_of_getElem? hp
  have hown : own p.callId = some p.tag.call :=
    (h.owner_iff _ _).mpr ⟨p, hmem, rfl, by rw [← hopened]⟩
  refine ⟨hown, ?_, fun q hq => h.below q (List.mem_of_mem_eraseIdx hq)⟩
  intro k c
  simp only [mem_eraseIdx_of_nodup hnodup hp]
  by_cases hk : k = p.callId
  · subst hk
    simp only [Function.update_self, reduceCtorEq, false_iff]
    rintro ⟨q, ⟨hne, hq⟩, hid, htag⟩
    have hc := (h.owner_iff _ c).mpr ⟨q, hq, hid, htag⟩
    rw [hown, Option.some.injEq] at hc
    refine hne (List.inj_on_of_nodup_map hworker.distinct hq hmem ?_)
    rw [htag, hc]
  · rw [Function.update_of_ne hk, h.owner_iff]
    constructor
    · rintro ⟨q, hq, hid, htag⟩
      refine ⟨q, ⟨?_, hq⟩, hid, htag⟩
      rintro rfl
      exact hk hid.symm
    · rintro ⟨q, ⟨_, hq⟩, hrest⟩
      exact ⟨q, hq, hrest⟩

/-- The settlement of any other call leaves the frames of the current run alone. -/
theorem Matches.settle_other {s : System V} {own : Nat → Option Nat} (h : Matches s own)
    (hworker : WorkerSound s) {i : Nat} {p : PendingCall V} (hp : s.pending[i]? = some p)
    (hopened : p.tag.openedIn ≠ some s.workerRun) (channel : List (Message V)) :
    Matches { s with pending := s.pending.eraseIdx i, channel := channel } own := by
  have hnodup : s.pending.Nodup := hworker.distinct.of_map _
  refine ⟨?_, fun q hq => h.below q (List.mem_of_mem_eraseIdx hq)⟩
  intro k c
  simp only [mem_eraseIdx_of_nodup hnodup hp, h.owner_iff]
  constructor
  · rintro ⟨q, hq, hid, htag⟩
    refine ⟨q, ⟨?_, hq⟩, hid, htag⟩
    rintro rfl
    exact hopened (by rw [htag])
  · rintro ⟨q, ⟨_, hq⟩, hrest⟩
    exact ⟨q, hq, hrest⟩

theorem Matches.free_of_no_callId {s : System V} {own : Nat → Option Nat} (h : Matches s own) {k : Nat}
    (hk : ∀ q ∈ s.pending, q.tag.openedIn = some s.workerRun → q.callId ≠ k) : own k = none := by
  cases hown : own k with
  | none => rfl
  | some c =>
    obtain ⟨q, hq, hid, htag⟩ := (h.owner_iff _ _).mp hown
    exact absurd hid (hk q hq (by rw [htag]))

theorem pairing_settle {s t : System V} (h : PairingInv s) {i : Nat} {clock : Clock}
    {outcome : Outcome V} (hok : ∀ p, s.pending[i]? = some p → Settles s p)
    (ht : s.settle i clock outcome = some t) : PairingInv t := by
  obtain ⟨own, ho, hphase⟩ := h.frames
  cases hp : s.pending[i]? with
  | none => simp [System.settle, hp] at ht
  | some p =>
    simp only [System.settle, hp, Option.ite_none_right_eq_some, Option.some.injEq] at ht
    obtain ⟨halive, rfl⟩ := ht
    by_cases hactive : s.bridge.runActive = true
    · obtain ⟨own', flight, inbox, current, hdone, replay, pending⟩ := hphase.of_active halive hactive
      obtain ⟨wire, hwire, _, hbuilt⟩ :=
        emitSettlement_active hactive clock p.options p.callId outcome
      rw [hbuilt]
      simp only [System.post]
      by_cases hopened : p.tag.openedIn = some s.workerRun
      · obtain ⟨hown, hmatches⟩ := pending.settle_own h.worker hp hopened
          (s.channel ++ [.event wire (some p.tag)])
        refine ⟨h.paired, h.window, h.worker.settle i _, own, ho,
          .running _ halive flight inbox hactive current (not_mem_snoc_event hdone _ _)
            (replay_snoc replay ?_) hmatches⟩
        have htag : p.tag = ⟨p.tag.call, some s.runs⟩ := by rw [← current, ← hopened]
        simp only [track, hwire, hown]
        rw [if_pos (by rw [← htag])]
      · have hfree : own' p.callId = none :=
          pending.free_of_no_callId ((hok p hp hactive).resolve_left hopened)
        exact ⟨h.paired, h.window, h.worker.settle i _, own, ho,
          .running own' halive flight inbox hactive current (not_mem_snoc_event hdone _ _)
            (replay_snoc replay (by simp [track, hwire, hfree]))
            (pending.settle_other h.worker hp hopened _)⟩
    · have hclosed : s.bridge.runActive = false := by simpa using hactive
      rw [emitSettlement_inactive hclosed]
      exact ⟨h.paired, h.window, h.worker.settle i s.channel, own, ho,
        hphase.of_closed hclosed hclosed rfl rfl rfl rfl rfl rfl⟩

theorem pairing_finalizeRun {s t : System V} (h : PairingInv s) (ht : s.finalizeRun = some t) :
    PairingInv t := by
  obtain ⟨own, ho, hphase⟩ := h.frames
  simp only [System.finalizeRun, Option.ite_none_right_eq_some, Option.some.injEq] at ht
  obtain ⟨⟨halive, hrunning⟩, rfl⟩ := ht
  have hactive := (h.worker.window halive).mpr hrunning
  obtain ⟨own', flight, inbox, current, hdone, replay, _⟩ := hphase.of_active halive hactive
  exact {
    paired := h.paired
    window := h.window
    worker := ⟨by simp [Bridge.clearRunActive], h.worker.distinct, h.worker.minted, h.worker.opened,
      h.worker.behind⟩
    frames := ⟨own, ho, .finishing own' s.channel [] halive flight inbox rfl rfl hdone replay
      (by simp [Quiet]) (by simp)⟩ }

theorem closed_of_restoring {s : System V} (h : WorkerSound s) (halive : s.alive = true)
    (hrestoring : s.runState = .restoring) : s.bridge.runActive = false := by
  by_contra hactive
  have := (h.window halive).mp (by simpa using hactive)
  rw [hrestoring] at this
  cases this

theorem pairing_restored {s t : System V} (h : PairingInv s) (ht : s.restored = some t) :
    PairingInv t := by
  obtain ⟨own, ho, hphase⟩ := h.frames
  simp only [System.restored, Option.ite_none_right_eq_some, Option.some.injEq] at ht
  obtain ⟨⟨halive, hrestoring⟩, rfl⟩ := ht
  have hclosed := closed_of_restoring h.worker halive hrestoring
  exact {
    paired := h.paired
    window := h.window
    worker := ⟨by simp [Bridge.rebind], h.worker.distinct, h.worker.minted, h.worker.opened,
      h.worker.behind⟩
    frames := ⟨own, ho, hphase.of_closed hclosed rfl rfl rfl rfl rfl rfl rfl⟩ }

theorem Quiet.snoc_restoreFailed {channel : List (Message V)} (h : Quiet channel) :
    Quiet (channel ++ [.restoreFailed]) := by
  intro wire tag hm
  rcases List.mem_append.mp hm with hm | hm
  · exact h wire tag hm
  · simp at hm

theorem pairing_restoreFailed {s t : System V} (h : PairingInv s) (ht : s.restoreFailed = some t) :
    PairingInv t := by
  obtain ⟨own, ho, hphase⟩ := h.frames
  simp only [System.restoreFailed, Option.ite_none_right_eq_some, Option.some.injEq] at ht
  obtain ⟨⟨halive, hrestoring⟩, rfl⟩ := ht
  have hclosed := closed_of_restoring h.worker halive hrestoring
  refine ⟨h.paired, h.window, ⟨by simp [hclosed], h.worker.distinct, h.worker.minted, h.worker.opened,
    h.worker.behind⟩, own, ho, ?_⟩
  cases hphase with
  | idle alive flight inbox closed quiet hdone =>
    exact .idle alive flight inbox closed quiet.snoc_restoreFailed (by simp [hdone])
  | posted alive flight inbox closed quiet hdone later empty =>
    exact .posted alive flight inbox closed quiet.snoc_restoreFailed (by simp [hdone]) later empty
  | running _ _ _ _ opened => rw [hclosed] at opened; cases opened
  | finishing own' events rest alive flight inbox closed channel hdone replay quiet last =>
    exact .finishing own' events (rest ++ [.restoreFailed]) alive flight inbox closed
      (by simp [channel]) hdone replay quiet.snoc_restoreFailed (by simp [last])
  | dead alive => rw [halive] at alive; cases alive

theorem pairing_dispose {s : System V} (h : PairingInv s) :
    PairingInv { s with disposed := true } := by
  obtain ⟨own, ho, hphase⟩ := h.frames
  refine ⟨h.paired, h.window, h.worker.frame rfl rfl rfl rfl rfl rfl le_rfl, own, ho, ?_⟩
  cases hphase with
  | idle alive flight inbox closed quiet hdone => exact .idle alive flight inbox closed quiet hdone
  | posted alive flight inbox closed quiet hdone later empty =>
    exact .posted alive flight inbox closed quiet hdone later empty
  | running own' alive flight inbox opened current hdone replay pending =>
    exact .running own' alive flight inbox opened current hdone replay
      ⟨pending.owner_iff, pending.below⟩
  | finishing own' events rest alive flight inbox closed channel hdone replay quiet last =>
    exact .finishing own' events rest alive flight inbox closed channel hdone replay quiet last
  | dead alive quiet => exact .dead alive quiet

/-! ## Whole executions -/

theorem pairing_init : PairingInv (System.init : System V) where
  paired := by simp [PairedByRun, System.init]
  window := rfl
  worker := ⟨by simp [System.init, Bridge.create], by simp [System.init], by simp [System.init],
    by simp [System.init], le_refl _⟩
  frames := ⟨fun _ => none, owns_empty _ _ rfl,
    .idle rfl rfl rfl rfl (by simp [Quiet, System.init]) (by simp [System.init])⟩

theorem pairing_step (s : System V) (a : Action V) (t : System V) (h : PairingInv s)
    (hok : PairingStep s a) (ht : s.step a = some t) : PairingInv t := by
  cases a with
  | run => cases ht; exact pairing_run h hok
  | handleRun => exact pairing_handleRun h ht
  | request clock options => exact pairing_request h ht
  | leaf clock kind name extra => exact pairing_leaf h ht
  | settle i clock outcome => exact pairing_settle h hok ht
  | finalizeRun => exact pairing_finalizeRun h ht
  | restored => exact pairing_restored h ht
  | restoreFailed => exact pairing_restoreFailed h ht
  | deliver => exact pairing_deliver h ht
  | workerError death => exact pairing_workerError h ht
  | workerExit death => cases ht; exact pairing_workerExit h death
  | dispose => cases ht; exact pairing_dispose h

/-- In every execution whose steps are all `PairingStep`s, the event log is paired by run. -/
theorem log_pairedByRun {actions : List (Action V)} {s : System V}
    (hok : Along System.step PairingStep System.init actions)
    (h : exec System.step System.init actions = some s) : PairedByRun s.log :=
  (exec_invariant_along pairing_step pairing_init hok h).paired

def noClock : Clock := ⟨0, ""⟩

def triggerCall : RequestOptions Unit := ⟨"trigger", "handler", none⟩

def fetchCall (name : String) : RequestOptions Unit := ⟨"system", name, none⟩

/-- A run whose handler settles while its `fetch` is in flight. -/
def runLeavingFetch : List (Action Unit) :=
  [.run, .handleRun, .request noClock triggerCall, .request noClock (fetchCall "first"),
    .settle 0 noClock (.response none), .finalizeRun, .deliver, .deliver, .deliver, .deliver, .restored]

/-- The next run opens its own frames; then the first run's `fetch` settles. -/
def lateSettlement : List (Action Unit) :=
  runLeavingFetch ++
    [.run, .handleRun, .request noClock triggerCall, .request noClock (fetchCall "second"),
      .settle 0 noClock (.response none), .deliver, .deliver, .deliver]

/-- The stamp belongs to a call of another run. -/
def Stamp.foreign (st : Stamp V) : Bool :=
  match st.origin with
  | .wire _ (some tag) => tag.openedIn ≠ some st.run
  | _ => false

theorem PairedByRun.not_foreign {log : List (Stamp V)} (h : PairedByRun log) :
    log.any Stamp.foreign = false := by
  rw [List.any_eq_false]
  intro st hst
  have hown := (h st hst).ownRun
  unfold Stamp.foreign
  split
  · rename_i wire tag horigin
    simp [hown wire tag horigin]
  · simp

/-- The late close of `first` is stamped in the second run, against the open of `second`. -/
theorem lateSettlement_not_pairedByRun :
    ∃ s, exec System.step System.init lateSettlement = some s ∧ ¬ PairedByRun s.log := by
  refine ⟨(exec System.step System.init lateSettlement).get (by decide), by simp, ?_⟩
  intro h
  have hforeign : ((exec System.step System.init lateSettlement).get (by decide)).log.any
      Stamp.foreign = true := by decide
  rw [h.not_foreign] at hforeign
  cases hforeign

/-- The same two runs, with the first run's `fetch` settling before the second opens its own. -/
def earlySettlement : List (Action Unit) :=
  runLeavingFetch ++
    [.run, .handleRun, .request noClock triggerCall, .settle 0 noClock (.response none),
      .request noClock (fetchCall "second"), .deliver, .deliver, .deliver]

theorem earlySettlement_pairing : Along System.step PairingStep System.init earlySettlement := by
  decide

theorem log_pairedByRun_earlySettlement :
    ∃ s, exec System.step System.init earlySettlement = some s ∧ PairedByRun s.log :=
  ⟨(exec System.step System.init earlySettlement).get (by decide), by simp,
    log_pairedByRun earlySettlement_pairing (by simp)⟩

end WorkflowEngine.Sandbox
