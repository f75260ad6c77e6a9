import WorkflowEngine.Sandbox.CallableHandles
import Mathlib.Data.List.Perm.Basic

/-!
# The timers plugin

`createTimerRegistry` of `timers/index.ts` over the Callables of the bridge, with Node's timers around it. A callback
runs between `fire` and `returned`, and whatever the guest schedules and clears meanwhile are actions of their own, so
that `fire` goes on in the state which the callback has left.

`timers` is the history of the plugin: every timer that was scheduled, and what has become of it. It is kept from the
actions alone, never from `pending`. `invoked` has, for each call of a callback, what had become of its timer by then.
-/

namespace WorkflowEngine.Sandbox.CallableHandles

open Lib
set_option autoImplicit false

/-! ## Requested disposals -/

/-- The guard of `dispose`. -/
def Callable.disposeRequested (k : Callable) : Bool := k.disposed || k.pendingDispose

namespace Bridge

/-- For each Callable, whether its disposal was requested. -/
def requests (s : Bridge) : List Bool := s.callables.map Callable.disposeRequested

theorem requests_getElem? (s : Bridge) (c : Nat) :
    s.requests[c]? = (s.callables[c]?).map Callable.disposeRequested := List.getElem?_map

theorem requests_set {s t : Bridge} {c : Nat} {k k' : Callable} (hk : s.callables[c]? = some k)
    (ht : t.callables = s.callables.set c k') (hsame : k'.disposeRequested = k.disposeRequested) :
    t.requests = s.requests := by
  unfold requests
  rw [ht]
  exact map_set_of_eq _ hk hsame

theorem requests_makeCallable (s : Bridge) (descriptorName : String) :
    (s.makeCallable descriptorName).requests = s.requests ++ [false] := by
  simp [requests, makeCallable, Callable.disposeRequested]

theorem requests_dispose (s : Bridge) (c : Nat) : (s.dispose c).requests = s.requests.set c true := by
  cases hk : s.callables[c]? with
  | none =>
    have hlen : s.requests.length ≤ c := by
      rw [requests, List.length_map]
      exact List.getElem?_eq_none_iff.mp hk
    rw [List.set_eq_of_length_le hlen, dispose, hk]
  | some k =>
    have hset : ∀ k' : Callable, k'.disposeRequested = true →
        (s.callables.set c k').map Callable.disposeRequested = s.requests.set c true := by
      intro k' hk'
      rw [List.map_set, hk', requests]
    rcases dispose_cases hk with ⟨hasked, heq⟩ | ⟨_, _, heq⟩ | ⟨_, _, _, heq⟩
    · have hself : k.disposeRequested = true := Bool.or_eq_true_iff.mpr hasked
      rw [heq, ← hset k hself]
      exact (map_set_of_eq _ hk rfl).symm
    · rw [heq]
      exact hset _ (Bool.or_true _)
    · rw [heq]
      exact hset _ (Bool.true_or _)

theorem dispose_of_requested {s : Bridge} {c : Nat} (h : s.requests[c]? = some true) : s.dispose c = s := by
  rw [requests_getElem?] at h
  obtain ⟨k, hk, hasked⟩ := Option.map_eq_some_iff.mp h
  simp only [dispose, hk]
  exact if_pos hasked

theorem requests_invoke (s : Bridge) (c : Nat) (marshals : Bool) : (s.invoke c marshals).requests = s.requests := by
  cases hk : s.callables[c]? with
  | none => simp only [invoke, hk]
  | some k =>
    simp only [invoke, hk]
    split
    · rfl
    · split
      · exact requests_set hk rfl rfl
      · rfl

/-- Only a requested disposal is made up for. -/
theorem requests_invokeFinally (s : Bridge) (i c : Nat) : (s.invokeFinally i c).requests = s.requests := by
  cases hk : s.callables[c]? with
  | none => simp only [invokeFinally, hk, requests]
  | some k =>
    simp only [invokeFinally, hk]
    split
    · rename_i hrelease
      simp only [Bool.and_eq_true] at hrelease
      refine requests_set hk (List.set_set _) ?_
      rw [Callable.disposeRequested, Callable.disposeRequested, hrelease.1.2, Bool.or_true, Bool.or_true]
    · exact requests_set hk rfl rfl

theorem requests_afterReturn {s t : Bridge} {i : Nat} {awaits : Bool} (h : s.afterReturn i awaits = some t) :
    t.requests = s.requests := by
  obtain ⟨c, -, rfl | rfl⟩ := afterReturn_cases h
  · rfl
  · exact requests_invokeFinally s i c

theorem requests_afterSettle {s t : Bridge} {i : Nat} (h : s.afterSettle i = some t) : t.requests = s.requests := by
  obtain ⟨c, -, rfl⟩ := afterSettle_cases h
  exact requests_invokeFinally s i c

theorem requests_auditLeak (s : Bridge) (leak : Nat × String) :
    (s.auditLeak leak).requests = s.requests.set leak.1 true := by
  unfold auditLeak
  rw [requests_dispose]
  congr 1
  simp only [requests]
  cases hk : s.callables[leak.1]? with
  | none => rw [List.modify_eq_self (List.getElem?_eq_none_iff.mp hk)]
  | some k =>
    rw [modify_of_getElem? _ hk]
    exact map_set_of_eq _ hk rfl

theorem auditLeaks_frame (leaks : List (Nat × String)) (s : Bridge) :
    (leaks.foldl auditLeak s).calls = s.calls ∧ (leaks.foldl auditLeak s).requests.length = s.requests.length := by
  induction leaks generalizing s with
  | nil => exact ⟨rfl, rfl⟩
  | cons leak leaks ih =>
    obtain ⟨hcalls, hlength⟩ := ih (s.auditLeak leak)
    rw [requests_auditLeak, List.length_set] at hlength
    exact ⟨hcalls.trans (dispose_frame _ _).2.2.2, hlength⟩

theorem finalizeRun_frame (s : Bridge) :
    s.finalizeRun.calls = s.calls ∧ s.finalizeRun.requests.length = s.requests.length :=
  auditLeaks_frame s.liveCallables.entries { s with liveCallables := .empty }

/-- The audit takes no request back. -/
theorem requests_finalizeRun {s : Bridge} {c : Nat} (h : s.requests[c]? = some true) :
    s.finalizeRun.requests[c]? = some true := by
  have hkeep : ∀ (leaks : List (Nat × String)) (m : Bridge), m.requests[c]? = some true →
      (leaks.foldl auditLeak m).requests[c]? = some true := by
    intro leaks
    induction leaks with
    | nil => exact fun _ hm => hm
    | cons leak leaks ih =>
      intro m hm
      apply ih
      rw [requests_auditLeak, List.getElem?_set]
      split
      · rw [if_pos]
        rename_i heq
        rw [heq]
        exact lt_of_getElem?_eq_some hm
      · exact hm
  exact hkeep s.liveCallables.entries { s with liveCallables := .empty } h

/-! ## What the operations leave alone -/

theorem dispose_running (s : Bridge) (c : Nat) : (s.dispose c).running = s.running := by
  unfold dispose
  split
  · rfl
  · split
    · rfl
    · split <;> rfl

theorem length_requests (s : Bridge) : s.requests.length = s.callables.length := List.length_map _

/-- `invoke` lets the call in when no disposal was requested. -/
theorem invoke_entered {s : Bridge} {c : Nat} (h : s.requests[c]? = some false) :
    (s.invoke c true).invocations = s.invocations ++ [⟨c, .calling⟩] ∧
      (s.invoke c true).calls.map (·.callable) = s.calls.map (·.callable) ++ [c] ∧
      (s.invoke c true).alive = s.alive := by
  rw [requests_getElem?] at h
  obtain ⟨k, hk, hnot⟩ := Option.map_eq_some_iff.mp h
  obtain ⟨hdisposed, -⟩ := Bool.or_eq_false_iff.mp hnot
  simp [invoke, hk, hdisposed]

theorem invokeFinally_frame (s : Bridge) (i c : Nat) :
    (s.invokeFinally i c).calls = s.calls ∧ (s.invokeFinally i c).alive = s.alive := by
  unfold invokeFinally
  simp only
  split
  · exact ⟨rfl, rfl⟩
  · split <;> exact ⟨rfl, rfl⟩

theorem afterReturn_frame {s t : Bridge} {i : Nat} {awaits : Bool} (h : s.afterReturn i awaits = some t) :
    t.calls = s.calls ∧ t.alive = s.alive := by
  obtain ⟨c, -, rfl | rfl⟩ := afterReturn_cases h
  · exact ⟨rfl, rfl⟩
  · exact invokeFinally_frame s i c

theorem afterSettle_frame {s t : Bridge} {i : Nat} (h : s.afterSettle i = some t) :
    t.calls = s.calls ∧ t.alive = s.alive := by
  obtain ⟨c, -, rfl⟩ := afterSettle_cases h
  exact invokeFinally_frame s i c

end Bridge

end WorkflowEngine.Sandbox.CallableHandles

namespace WorkflowEngine.Sandbox.Timers

open Lib CallableHandles
set_option autoImplicit false

/-! ## The registry -/

inductive TimerKind where
  | setTimeout
  | setInterval
  deriving DecidableEq

inductive ClearKind where
  | clearTimeout
  | clearInterval
  deriving DecidableEq

structure PendingTimer where
  nodeId : Nat
  kind : TimerKind
  callable : Nat
  deriving DecidableEq

inductive Fate where
  | live
  | cleared
  | fired
  | ended
  deriving DecidableEq

/-- A timer that was scheduled. -/
structure Timer where
  numId : Nat
  kind : TimerKind
  callable : Nat
  fate : Fate
  deriving DecidableEq

structure Invoked where
  callable : Nat
  fate : Option Fate
  deriving DecidableEq

/-- A `fire` that waits for its callback to return. -/
structure Fire where
  numId : Nat
  kind : TimerKind
  callable : Nat
  invocation : Nat
  deriving DecidableEq

def TimerKind.clearKind : TimerKind → ClearKind
  | .setTimeout => .clearTimeout
  | .setInterval => .clearInterval

/-- `name` of the guest function, which its Callables are registered under. -/
def TimerKind.toString : TimerKind → String
  | .setTimeout => "setTimeout"
  | .setInterval => "setInterval"

def Timer.isLive (t : Timer) : Bool := t.fate = .live

/-- The end of a run has cleared the timer. -/
def Timer.hasEnded (t : Timer) : Bool := t.fate = .ended

def Timer.entry (t : Timer) : Nat × PendingTimer := (t.numId, ⟨t.numId, t.kind, t.callable⟩)

def Timer.clearLeaf (t : Timer) : ClearKind × Nat := (t.kind.clearKind, t.numId)

def Timer.retire (fate : Fate) (t : Timer) : Timer := if t.isLive then { t with fate := fate } else t

/-- The history in which the timer with this id becomes `fate`, if nothing has become of it. -/
def retireId (numId : Nat) (fate : Fate) (ts : List Timer) : List Timer :=
  ts.map fun t => if t.numId = numId then t.retire fate else t

/-- `armed` are Node's timers that may still fire, `leaves` what `clearAllPending` has emitted. -/
structure Registry where
  bridge : CallableHandles.Bridge
  pending : OrderedMap Nat PendingTimer
  armed : OrderedMap Nat TimerKind
  firing : Option Fire
  timers : List Timer
  invoked : List Invoked
  leaves : List (ClearKind × Nat)

namespace Registry

def init : Registry := ⟨.init, .empty, .empty, none, [], [], []⟩

def retire (s : Registry) (numId : Nat) (fate : Fate) : Registry :=
  { s with timers := retireId numId fate s.timers }

/-- `ctx.emit` posts nothing outside of a run. -/
def emit (s : Registry) (leaf : ClearKind × Nat) : Registry :=
  if s.bridge.running then { s with leaves := s.leaves ++ [leaf] } else s

def stopNodeTimer (s : Registry) (entry : PendingTimer) : Registry :=
  { s with armed := s.armed.delete entry.nodeId }

def disposeAndStop (s : Registry) (entry : PendingTimer) : Registry :=
  let s := s.stopNodeTimer entry
  { s with bridge := s.bridge.dispose entry.callable }

/-- One turn of the loop of `clearAllPending`. -/
def clearPending (s : Registry) (e : Nat × PendingTimer) : Registry :=
  (s.emit (e.2.kind.clearKind, e.1)).disposeAndStop e.2

def clearAllPending (s : Registry) : Registry :=
  { s.pending.entries.foldl clearPending s with pending := .empty }

/-- `scheduleOnce` and `scheduleInterval`, with the Callable that the trampoline has made of the argument. -/
def schedule (s : Registry) (kind : TimerKind) (numId : Nat) : Registry :=
  let cb := s.bridge.callables.length
  { s with
    bridge := s.bridge.makeCallable kind.toString
    armed := s.armed.set numId kind
    pending := s.pending.set numId ⟨numId, kind, cb⟩
    timers := s.timers ++ [⟨numId, kind, cb, .live⟩] }

def cancel (s : Registry) (id : Nat) : Registry :=
  match s.pending.get? id with
  | none => s
  | some entry =>
    let s := s.disposeAndStop entry
    { s with pending := s.pending.delete id }

/-- `fire` behind the call of `ctx.request`. -/
def resume (s : Registry) (f : Fire) : Registry :=
  if f.kind = .setTimeout then
    let s := { s with pending := s.pending.delete f.numId, bridge := s.bridge.dispose f.callable }
    s.retire f.numId .fired
  else s

/-- What has become of the timer with this id. -/
def fateOf (s : Registry) (numId : Nat) : Option Fate := (s.timers.find? (·.numId = numId)).map (·.fate)

/-- `entry.callable()`. -/
def call (s : Registry) (numId callable : Nat) : Registry :=
  { s with
    bridge := s.bridge.invoke callable true
    invoked := s.invoked ++ [⟨callable, s.fateOf numId⟩] }

/-- A call that is refused returns at once. -/
def fire (s : Registry) (numId : Nat) (kind : TimerKind) : Registry :=
  match s.pending.get? numId with
  | none => s
  | some entry =>
    let f : Fire := ⟨numId, kind, entry.callable, s.bridge.invocations.length⟩
    let s' := s.call numId entry.callable
    if s'.bridge.invocations.length = s.bridge.invocations.length then s'.resume f
    else { s' with firing := some f }

/-- `onRunFinished`, then the audit and the disposal of the VM. -/
def finalizeRun (s : Registry) : Registry :=
  let s := s.clearAllPending
  { s with
    timers := s.timers.map (Timer.retire .ended)
    bridge := s.bridge.finalizeRun }

end Registry

/-- `schedule` has the id that Node gives to the timer; in `scheduleFails` the delay cannot be made a number. The id
of `clear` is absent when the argument is no id. -/
inductive TimerAction where
  | handleRun
  | schedule (kind : TimerKind) (numId : Nat)
  | scheduleFails (kind : TimerKind)
  | clear (id : Option Nat)
  | fire (numId : Nat)
  | returned (awaits : Bool)
  | settled (i : Nat)
  | finalizeRun
  | rebind
  deriving DecidableEq

namespace Registry

def onBridge (s : Registry) (bridge : Option CallableHandles.Bridge) : Option Registry :=
  bridge.map fun b => { s with bridge := b }

/-- Guest code runs on a VM that is alive. Node gives no id twice, and its timers fire, and a run ends, with no
callback on the stack; a timeout is no longer armed when it fires. -/
def step (s : Registry) : TimerAction → Option Registry
  | .handleRun => s.onBridge (s.bridge.step .handleRun)
  | .schedule kind numId =>
    if s.bridge.alive && (s.timers.all fun t => t.numId ≠ numId) then some (s.schedule kind numId) else none
  | .scheduleFails kind => s.onBridge (s.bridge.step (.makeCallable kind.toString))
  | .clear none => if s.bridge.alive then some s else none
  | .clear (some id) => if s.bridge.alive then some ((s.cancel id).retire id .cleared) else none
  | .fire numId =>
    match s.firing, s.armed.get? numId with
    | none, some .setTimeout => some ({ s with armed := s.armed.delete numId }.fire numId .setTimeout)
    | none, some .setInterval => some (s.fire numId .setInterval)
    | _, _ => none
  | .returned awaits =>
    s.firing.bind fun f => (s.bridge.afterReturn f.invocation awaits).map fun b =>
      { s with bridge := b, firing := none }.resume f
  | .settled i => s.onBridge (s.bridge.afterSettle i)
  | .finalizeRun => if s.bridge.running && s.firing.isNone then some s.finalizeRun else none
  | .rebind => s.onBridge (s.bridge.step .rebind)

/-! ## What has to hold -/

/-- The Callables of the calls, in order. -/
def callees (s : Registry) : List Nat := s.invoked.map (·.callable)

/-- The map holds the live timers. The disposal of every other callback was requested, and no timer outlives its run;
handles are released once and outside of calls. A timeout's callback is called at most once, which ends the timer when
`fire` is over, and a callback only while its timer is live. The run ends have emitted one leaf for each timer that
they ended. -/
structure Conforms (s : Registry) : Prop where
  pending : s.pending.entries = (s.timers.filter Timer.isLive).map Timer.entry
  requested : ∀ t ∈ s.timers, t.fate ≠ .live →
    ∃ k : Callable, s.bridge.callables[t.callable]? = some k ∧ (k.disposed = true ∨ k.pendingDispose = true)
  outlived : s.bridge.alive = false → ∀ t ∈ s.timers, t.fate ≠ .live
  handles : s.bridge.Sound
  calls : s.bridge.calls.map (·.callable) = s.callees
  once : ∀ t ∈ s.timers, t.kind = .setTimeout → s.callees.count t.callable ≤ 1
  spent : ∀ t ∈ s.timers, t.kind = .setTimeout → t.fate = .live → t.callable ∈ s.callees →
    ∃ f, s.firing = some f ∧ f.callable = t.callable
  inTime : ∀ call ∈ s.invoked, call.fate = some .live
  leaves : s.leaves.Perm ((s.timers.filter Timer.hasEnded).map Timer.clearLeaf)

end Registry

/-! ## The history -/

section History
variable {fate : Fate} {t : Timer} {ts : List Timer} {numId : Nat}

theorem Timer.isLive_iff : t.isLive = true ↔ t.fate = .live := decide_eq_true_iff

theorem Timer.fate_ne_live (h : t.isLive = false) : t.fate ≠ .live := of_decide_eq_false h

theorem Timer.not_hasEnded (h : t.isLive = true) : ¬ t.hasEnded = true := by
  rw [Timer.hasEnded, Timer.isLive_iff.mp h]
  decide

theorem Timer.hasEnded_retire (h : t.isLive = true) : (t.retire fate).hasEnded = decide (fate = .ended) := by
  rw [Timer.hasEnded, Timer.retire, if_pos h]

@[simp] theorem Timer.retire_numId : (t.retire fate).numId = t.numId := by
  unfold Timer.retire
  split <;> rfl

@[simp] theorem Timer.retire_kind : (t.retire fate).kind = t.kind := by
  unfold Timer.retire
  split <;> rfl

@[simp] theorem Timer.retire_callable : (t.retire fate).callable = t.callable := by
  unfold Timer.retire
  split <;> rfl

theorem Timer.retire_of_not_live (h : t.isLive = false) : t.retire fate = t := by
  unfold Timer.retire
  rw [h]
  rfl

theorem Timer.isLive_retire (h : fate ≠ .live) : (t.retire fate).isLive = false := by
  unfold Timer.retire
  split
  · exact decide_eq_false h
  · rename_i hnot
    exact Bool.eq_false_iff.mpr hnot

theorem map_retireId {β : Type} (f : Timer → β) (hf : ∀ t, f (t.retire fate) = f t) :
    (retireId numId fate ts).map f = ts.map f := by
  unfold retireId
  rw [List.map_map]
  apply List.map_congr_left
  intro t _
  simp only [Function.comp_apply]
  split
  · exact hf t
  · rfl

/-- A timer of the new history is one of the old with this id, retired, or one with another id. -/
theorem mem_retireId {t' : Timer} (h : t' ∈ retireId numId fate ts) :
    ∃ t ∈ ts, t.numId = t'.numId ∧ t.kind = t'.kind ∧ t.callable = t'.callable ∧
      (t.numId = numId ∧ t' = t.retire fate ∨ t.numId ≠ numId ∧ t' = t) := by
  obtain ⟨t, ht, rfl⟩ := List.mem_map.mp h
  refine ⟨t, ht, ?_⟩
  by_cases hid : t.numId = numId
  · rw [if_pos hid]
    exact ⟨Timer.retire_numId.symm, Timer.retire_kind.symm, Timer.retire_callable.symm, .inl ⟨hid, rfl⟩⟩
  · rw [if_neg hid]
    exact ⟨rfl, rfl, rfl, .inr ⟨hid, rfl⟩⟩

theorem retireId_of_not_live (h : ∀ t ∈ ts, t.numId = numId → t.isLive = false) : retireId numId fate ts = ts := by
  have hself : ∀ t ∈ ts, (if t.numId = numId then t.retire fate else t) = t := by
    intro t ht
    split
    · rename_i hid
      exact Timer.retire_of_not_live (h t ht hid)
    · rfl
  exact (List.map_congr_left hself).trans (List.map_id ts)

theorem filter_live_retireId (h : fate ≠ .live) :
    (retireId numId fate ts).filter Timer.isLive = (ts.filter Timer.isLive).filter (·.numId ≠ numId) := by
  induction ts with
  | nil => rfl
  | cons t ts ih =>
    have hcons : retireId numId fate (t :: ts) =
        (if t.numId = numId then t.retire fate else t) :: retireId numId fate ts := rfl
    rw [hcons]
    by_cases hid : t.numId = numId
    · have hdead : ((if t.numId = numId then t.retire fate else t).isLive) = false := by
        rw [if_pos hid]
        exact Timer.isLive_retire h
      rw [List.filter_cons_of_neg (Bool.eq_false_iff.mp hdead), ih]
      cases hlive : t.isLive with
      | false => rw [List.filter_cons_of_neg (Bool.eq_false_iff.mp hlive)]
      | true =>
        rw [List.filter_cons_of_pos hlive, List.filter_cons_of_neg]
        simpa using hid
    · rw [if_neg hid]
      cases hlive : t.isLive with
      | false =>
        rw [List.filter_cons_of_neg (Bool.eq_false_iff.mp hlive), ih,
          List.filter_cons_of_neg (Bool.eq_false_iff.mp hlive)]
      | true =>
        rw [List.filter_cons_of_pos hlive, ih, List.filter_cons_of_pos hlive, List.filter_cons_of_pos]
        simpa using hid

theorem filter_ended_retireId (hended : fate ≠ .ended) :
    (retireId numId fate ts).filter Timer.hasEnded = ts.filter Timer.hasEnded := by
  induction ts with
  | nil => rfl
  | cons t ts ih =>
    have hcons : retireId numId fate (t :: ts) =
        (if t.numId = numId then t.retire fate else t) :: retireId numId fate ts := rfl
    rw [hcons]
    cases hl : t.isLive with
    | false =>
      rw [Timer.retire_of_not_live hl, ite_self, List.filter_cons, List.filter_cons, ih]
    | true =>
      have hnot := Timer.not_hasEnded hl
      have hnot' : ¬ (if t.numId = numId then t.retire fate else t).hasEnded = true := by
        split
        · rw [Timer.hasEnded_retire hl]
          simpa using hended
        · exact hnot
      rw [List.filter_cons_of_neg hnot, List.filter_cons_of_neg hnot', ih]

theorem filter_live_ended : (ts.map (Timer.retire .ended)).filter Timer.isLive = [] := by
  refine List.filter_eq_nil_iff.mpr ?_
  intro t' ht'
  obtain ⟨t, -, rfl⟩ := List.mem_map.mp ht'
  rw [Timer.isLive_retire (by decide)]
  decide

/-- What a run end adds to the timers that were ended are those that were live. -/
theorem perm_ended : (((ts.map (Timer.retire .ended)).filter Timer.hasEnded).map Timer.clearLeaf).Perm
    ((ts.filter Timer.hasEnded).map Timer.clearLeaf ++ (ts.filter Timer.isLive).map Timer.clearLeaf) := by
  induction ts with
  | nil => exact .nil
  | cons t ts ih =>
    rw [List.map_cons]
    cases hl : t.isLive with
    | true =>
      have hnot := Timer.not_hasEnded hl
      have hended : (t.retire .ended).hasEnded = true := Timer.hasEnded_retire hl
      have hleaf : (t.retire .ended).clearLeaf = t.clearLeaf := by
        rw [Timer.clearLeaf, Timer.clearLeaf, Timer.retire_kind, Timer.retire_numId]
      rw [List.filter_cons_of_pos hended, List.filter_cons_of_neg hnot, List.filter_cons_of_pos hl, List.map_cons,
        List.map_cons, hleaf]
      exact (ih.cons _).trans List.perm_middle.symm
    | false =>
      rw [Timer.retire_of_not_live hl, List.filter_cons_of_neg (p := Timer.isLive) (Bool.eq_false_iff.mp hl)]
      by_cases he : t.hasEnded = true
      · rw [List.filter_cons_of_pos he, List.filter_cons_of_pos he, List.map_cons, List.map_cons, List.cons_append]
        exact ih.cons _
      · rw [List.filter_cons_of_neg he, List.filter_cons_of_neg he]
        exact ih

end History

namespace Registry

/-! ## The invariant -/

structure Inv (s : Registry) : Prop where
  bridge : s.bridge.Inv
  ids : (s.timers.map (·.numId)).Nodup
  owners : (s.timers.map (·.callable)).Nodup
  pending : s.pending.entries = (s.timers.filter Timer.isLive).map Timer.entry
  requests : ∀ t ∈ s.timers, s.bridge.requests[t.callable]? = some (!t.isLive)
  armed : ∀ (id : Nat) (kind : TimerKind), s.armed.get? id = some kind →
    ∃ t ∈ s.timers, t.numId = id ∧ t.kind = kind ∧ t.isLive = true ∧
      (kind = .setTimeout → t.callable ∉ s.callees)
  outlived : s.bridge.alive = false → ∀ t ∈ s.timers, t.isLive = false
  calls : s.bridge.calls.map (·.callable) = s.callees
  known : ∀ c ∈ s.callees, c < s.bridge.requests.length
  inTime : ∀ call ∈ s.invoked, call.fate = some .live
  once : ∀ t ∈ s.timers, t.kind = .setTimeout → s.callees.count t.callable ≤ 1
  waits : ∀ t ∈ s.timers, t.kind = .setTimeout → t.isLive = true → t.callable ∈ s.callees →
    ∃ f, s.firing = some f ∧ f.callable = t.callable
  firing : ∀ f, s.firing = some f →
    ∃ t ∈ s.timers, t.numId = f.numId ∧ t.kind = f.kind ∧ t.callable = f.callable ∧ t.callable ∈ s.callees
  leaves : s.leaves.Perm ((s.timers.filter Timer.hasEnded).map Timer.clearLeaf)

theorem inv_init : Inv init where
  bridge := Bridge.inv_init
  ids := .nil
  owners := .nil
  pending := rfl
  requests := nofun
  armed := nofun
  outlived := nofun
  calls := rfl
  known := nofun
  inTime := nofun
  once := nofun
  waits := nofun
  firing := nofun
  leaves := .nil

section Lookup
variable {s : Registry} (h : Inv s) {t t' : Timer} (ht : t ∈ s.timers)
include h ht

theorem Inv.eq_of_numId (ht' : t' ∈ s.timers) (hid : t.numId = t'.numId) : t = t' :=
  List.inj_on_of_nodup_map h.ids ht ht' hid

theorem Inv.eq_of_callable (ht' : t' ∈ s.timers) (hcallable : t.callable = t'.callable) : t = t' :=
  List.inj_on_of_nodup_map h.owners ht ht' hcallable

theorem Inv.get?_pending (hlive : t.isLive = true) :
    s.pending.get? t.numId = some ⟨t.numId, t.kind, t.callable⟩ := by
  rw [OrderedMap.get?_eq_some_iff, h.pending]
  exact List.mem_map.mpr ⟨t, List.mem_filter.mpr ⟨ht, hlive⟩, rfl⟩

theorem Inv.fateOf_eq : s.fateOf t.numId = some t.fate := by
  unfold fateOf
  cases hfind : s.timers.find? (·.numId = t.numId) with
  | none =>
    have hne := List.find?_eq_none.mp hfind t ht
    simp at hne
  | some t' =>
    have hid : t'.numId = t.numId := by simpa using List.find?_some hfind
    rw [h.eq_of_numId (List.mem_of_find?_eq_some hfind) ht hid]
    rfl

omit ht in
theorem Inv.exists_of_get? {id : Nat} {entry : PendingTimer} (hentry : s.pending.get? id = some entry) :
    ∃ t ∈ s.timers, t.isLive = true ∧ t.numId = id ∧ entry = ⟨t.numId, t.kind, t.callable⟩ := by
  rw [OrderedMap.get?_eq_some_iff, h.pending] at hentry
  obtain ⟨t, ht, heq⟩ := List.mem_map.mp hentry
  obtain ⟨ht, hlive⟩ := List.mem_filter.mp ht
  obtain ⟨hid, hentry⟩ := Prod.mk.inj heq
  exact ⟨t, ht, hlive, hid, hentry.symm⟩

omit ht in
theorem Inv.get?_pending_eq_none {id : Nat} (hnone : ∀ t ∈ s.timers, t.numId = id → t.isLive = false) :
    s.pending.get? id = none := by
  cases hentry : s.pending.get? id with
  | none => rfl
  | some entry =>
    obtain ⟨t, ht, hlive, hid, -⟩ := h.exists_of_get? hentry
    rw [hnone t ht hid] at hlive
    cases hlive

end Lookup

theorem Inv.conforms {s : Registry} (h : Inv s) : s.Conforms where
  pending := h.pending
  requested := by
    intro t ht hfate
    have hrequest := h.requests t ht
    have hdead : t.isLive = false := decide_eq_false hfate
    rw [hdead, Bridge.requests_getElem?] at hrequest
    obtain ⟨k, hk, hrequested⟩ := Option.map_eq_some_iff.mp hrequest
    exact ⟨k, hk, Bool.or_eq_true_iff.mp hrequested⟩
  outlived := by
    intro hdead t ht
    exact Timer.fate_ne_live (h.outlived hdead t ht)
  handles := h.bridge.sound
  calls := h.calls
  once := h.once
  spent := fun t ht hkind hlive => h.waits t ht hkind (Timer.isLive_iff.mpr hlive)
  inTime := h.inTime
  leaves := h.leaves

/-! ## Steps of the bridge -/

/-- The bridge takes a step that requests no disposal. -/
theorem Inv.onBridge {s : Registry} {b : CallableHandles.Bridge} (h : Inv s) (hb : b.Inv)
    (hrequests : ∀ (c : Nat) (r : Bool), s.bridge.requests[c]? = some r → b.requests[c]? = some r)
    (hcalls : b.calls = s.bridge.calls) (halive : b.alive = false → s.bridge.alive = false) :
    Inv { s with bridge := b } where
  bridge := hb
  ids := h.ids
  owners := h.owners
  pending := h.pending
  requests := fun t ht => hrequests _ _ (h.requests t ht)
  armed := h.armed
  outlived := fun hdead => h.outlived (halive hdead)
  calls := (congrArg (List.map (·.callable)) hcalls).trans h.calls
  known := by
    intro c hc
    have hlt := h.known c hc
    exact lt_of_getElem?_eq_some (hrequests c _ (List.getElem?_eq_getElem hlt))
  inTime := h.inTime
  once := h.once
  waits := h.waits
  firing := h.firing
  leaves := h.leaves

theorem Inv.onBridge_same {s : Registry} {b : CallableHandles.Bridge} (h : Inv s) (hb : b.Inv)
    (hrequests : b.requests = s.bridge.requests) (hcalls : b.calls = s.bridge.calls)
    (halive : b.alive = s.bridge.alive) : Inv { s with bridge := b } := by
  refine h.onBridge hb ?_ hcalls ?_
  · intro c r hc
    rw [hrequests]
    exact hc
  · intro hdead
    rw [← halive]
    exact hdead

/-- A Callable that no timer owns is left to the audit. -/
theorem Inv.makeCallable {s : Registry} (h : Inv s) (halive : s.bridge.alive = true) (descriptorName : String) :
    Inv { s with bridge := s.bridge.makeCallable descriptorName } := by
  refine h.onBridge (h.bridge.makeCallable halive descriptorName) ?_ rfl id
  intro c r hc
  rw [Bridge.requests_makeCallable]
  exact getElem?_snoc_of_some hc

/-! ## The guest schedules and clears -/

theorem Inv.schedule {s : Registry} (h : Inv s) (halive : s.bridge.alive = true) (kind : TimerKind) {numId : Nat}
    (hfresh : ∀ t ∈ s.timers, t.numId ≠ numId) : Inv (s.schedule kind numId) := by
  have hmake := h.makeCallable halive kind.toString
  have hrequests := Bridge.requests_makeCallable s.bridge kind.toString
  have hlength := Bridge.length_requests s.bridge
  have hnew : ∀ t ∈ s.timers, t.callable ≠ s.bridge.callables.length := by
    intro t ht heq
    have hlt := lt_of_getElem?_eq_some (h.requests t ht)
    omega
  have huncalled : s.bridge.callables.length ∉ s.callees := by
    intro hc
    have hlt := h.known _ hc
    omega
  let t₀ : Timer := ⟨numId, kind, s.bridge.callables.length, .live⟩
  have hmem : ∀ {t}, t ∈ s.timers ++ [t₀] → t ∈ s.timers ∨ t = t₀ := by
    intro t ht
    rcases List.mem_append.mp ht with ht | ht
    · exact .inl ht
    · exact .inr (List.mem_singleton.mp ht)
  constructor
  case bridge => exact hmake.bridge
  case ids =>
    change ((s.timers ++ [t₀]).map (·.numId)).Nodup
    rw [List.map_append, List.nodup_append']
    refine ⟨h.ids, List.nodup_singleton _, ?_⟩
    intro id hid hid'
    obtain ⟨t, ht, rfl⟩ := List.mem_map.mp hid
    exact hfresh t ht (List.mem_singleton.mp hid')
  case owners =>
    change ((s.timers ++ [t₀]).map (·.callable)).Nodup
    rw [List.map_append, List.nodup_append']
    refine ⟨h.owners, List.nodup_singleton _, ?_⟩
    intro c hc hc'
    obtain ⟨t, ht, rfl⟩ := List.mem_map.mp hc
    exact hnew t ht (List.mem_singleton.mp hc')
  case pending =>
    have hnone : s.pending.get? numId = none := h.get?_pending_eq_none fun t ht hid => absurd hid (hfresh t ht)
    change (s.pending.set numId _).entries = ((s.timers ++ [t₀]).filter Timer.isLive).map Timer.entry
    rw [OrderedMap.entries_set_of_get?_none _ _ _ hnone, h.pending, List.filter_append, List.map_append]
    rfl
  case requests =>
    intro t ht
    rcases hmem ht with ht | rfl
    · exact hmake.requests t ht
    · change (s.bridge.makeCallable kind.toString).requests[s.bridge.callables.length]? = some false
      rw [hrequests, ← hlength, List.getElem?_concat_length]
  case armed =>
    intro id k hk
    rcases OrderedMap.get?_set_cases hk with ⟨rfl, rfl⟩ | ⟨-, hk⟩
    · exact ⟨t₀, List.mem_concat_self, rfl, rfl, rfl, fun _ => huncalled⟩
    · obtain ⟨t, ht, hrest⟩ := h.armed id k hk
      exact ⟨t, List.mem_append_left _ ht, hrest⟩
  case outlived =>
    intro hdead
    change s.bridge.alive = false at hdead
    rw [halive] at hdead
    cases hdead
  case calls => exact hmake.calls
  case known => exact hmake.known
  case inTime => exact h.inTime
  case once =>
    intro t ht hkind
    rcases hmem ht with ht | rfl
    · exact h.once t ht hkind
    · change s.callees.count s.bridge.callables.length ≤ 1
      rw [List.count_eq_zero_of_not_mem huncalled]
      exact Nat.zero_le 1
  case waits =>
    intro t ht hkind hlive hcalled
    rcases hmem ht with ht | rfl
    · exact h.waits t ht hkind hlive hcalled
    · exact absurd hcalled huncalled
  case firing =>
    intro f hf
    obtain ⟨t, ht, hrest⟩ := h.firing f hf
    exact ⟨t, List.mem_append_left _ ht, hrest⟩
  case leaves =>
    change s.leaves.Perm (((s.timers ++ [t₀]).filter Timer.hasEnded).map Timer.clearLeaf)
    rw [List.filter_append, List.map_append]
    exact h.leaves.trans (.of_eq (List.append_nil _).symm)

/-- A live timer leaves the map, and its Callable is disposed. -/
theorem Inv.retire {s : Registry} {t : Timer} (fate : Fate) (armed : OrderedMap Nat TimerKind) (h : Inv s)
    (ht : t ∈ s.timers) (hlive : t.isLive = true) (hfate : fate ≠ .live) (hended : fate ≠ .ended)
    (harmed : ∀ (id : Nat) (kind : TimerKind), armed.get? id = some kind →
      s.armed.get? id = some kind ∧ id ≠ t.numId) :
    Inv { s with
      bridge := s.bridge.dispose t.callable
      pending := s.pending.delete t.numId
      armed := armed
      timers := retireId t.numId fate s.timers } := by
  obtain ⟨-, halive, -, hcalls⟩ := Bridge.dispose_frame s.bridge t.callable
  constructor
  case bridge => exact h.bridge.dispose t.callable
  case ids =>
    change ((retireId t.numId fate s.timers).map (·.numId)).Nodup
    rw [map_retireId _ fun _ => Timer.retire_numId]
    exact h.ids
  case owners =>
    change ((retireId t.numId fate s.timers).map (·.callable)).Nodup
    rw [map_retireId _ fun _ => Timer.retire_callable]
    exact h.owners
  case pending =>
    change (s.pending.delete t.numId).entries = ((retireId t.numId fate s.timers).filter Timer.isLive).map Timer.entry
    rw [filter_live_retireId hfate, OrderedMap.entries_delete, h.pending, List.filter_map]
    rfl
  case requests =>
    intro t' ht'
    change (s.bridge.dispose t.callable).requests[t'.callable]? = some (!t'.isLive)
    obtain ⟨t₁, ht₁, hid, -, hcallable, ⟨hself, rfl⟩ | ⟨hother, rfl⟩⟩ := mem_retireId ht'
    · obtain rfl := h.eq_of_numId ht₁ ht hself
      rw [Bridge.requests_dispose, Timer.retire_callable, Timer.isLive_retire hfate,
        List.getElem?_set_self (lt_of_getElem?_eq_some (h.requests t₁ ht₁))]
      rfl
    · have hne : t.callable ≠ t'.callable := by
        intro heq
        exact hother (congrArg Timer.numId (h.eq_of_callable ht ht₁ heq)).symm
      rw [Bridge.requests_dispose, List.getElem?_set_ne hne]
      exact h.requests t' ht₁
  case armed =>
    intro id kind hkind
    obtain ⟨hkind, hne⟩ := harmed id kind hkind
    obtain ⟨t', ht', rfl, hrest⟩ := h.armed id kind hkind
    exact ⟨t', List.mem_map.mpr ⟨t', ht', if_neg hne⟩, rfl, hrest⟩
  case outlived =>
    intro hdead
    rw [h.outlived (halive.symm.trans hdead) t ht] at hlive
    cases hlive
  case calls => exact (congrArg (List.map (·.callable)) hcalls).trans h.calls
  case known =>
    intro c hc
    change c < (s.bridge.dispose t.callable).requests.length
    rw [Bridge.requests_dispose, List.length_set]
    exact h.known c hc
  case inTime => exact h.inTime
  case once =>
    intro t' ht' hkind'
    obtain ⟨t₁, ht₁, -, hkind, hcallable, -⟩ := mem_retireId ht'
    rw [← hcallable]
    exact h.once t₁ ht₁ (hkind.trans hkind')
  case waits =>
    intro t' ht' hkind' hlive' hcalled
    obtain ⟨t₁, ht₁, -, -, -, ⟨-, rfl⟩ | ⟨-, rfl⟩⟩ := mem_retireId ht'
    · rw [Timer.isLive_retire hfate] at hlive'
      cases hlive'
    · exact h.waits t' ht₁ hkind' hlive' hcalled
  case firing =>
    intro f hf
    obtain ⟨t', ht', hid, hkind, hcallable, hcalled⟩ := h.firing f hf
    refine ⟨if t'.numId = t.numId then t'.retire fate else t', List.mem_map_of_mem ht', ?_⟩
    split
    · rw [Timer.retire_numId, Timer.retire_kind, Timer.retire_callable]
      exact ⟨hid, hkind, hcallable, hcalled⟩
    · exact ⟨hid, hkind, hcallable, hcalled⟩
  case leaves =>
    change s.leaves.Perm (((retireId t.numId fate s.timers).filter Timer.hasEnded).map Timer.clearLeaf)
    rw [filter_ended_retireId hended]
    exact h.leaves

theorem Inv.cancel {s : Registry} (h : Inv s) (id : Nat) : Inv ((s.cancel id).retire id .cleared) := by
  unfold Registry.cancel
  cases hentry : s.pending.get? id with
  | none =>
    have hdead : ∀ t ∈ s.timers, t.numId = id → t.isLive = false := by
      intro t ht hid
      cases hlive : t.isLive with
      | false => rfl
      | true =>
        have hsome := h.get?_pending ht hlive
        rw [hid, hentry] at hsome
        cases hsome
    have hsame : s.retire id .cleared = s := by
      unfold Registry.retire
      rw [retireId_of_not_live hdead]
    change Inv (s.retire id .cleared)
    rw [hsame]
    exact h
  | some entry =>
    obtain ⟨t, ht, hlive, rfl, rfl⟩ := h.exists_of_get? hentry
    have hstopped : ∀ (id : Nat) (kind : TimerKind), (s.armed.delete t.numId).get? id = some kind →
        s.armed.get? id = some kind ∧ id ≠ t.numId := by
      intro id kind hkind
      rw [OrderedMap.get?_delete] at hkind
      split at hkind
      · cases hkind
      · rename_i hne
        exact ⟨hkind, hne⟩
    exact h.retire .cleared (s.armed.delete t.numId) ht hlive (by decide) (by decide) hstopped

/-! ## Node fires -/

theorem callees_call (s : Registry) (numId callable : Nat) : (s.call numId callable).callees = s.callees ++ [callable] :=
  List.map_append

/-- The callback of a live timer is called. -/
theorem Inv.call {s : Registry} {t : Timer} {armed : OrderedMap Nat TimerKind} (f : Fire) (h : Inv s)
    (hidle : s.firing = none) (ht : t ∈ s.timers) (hlive : t.isLive = true)
    (huncalled : t.kind = .setTimeout → t.callable ∉ s.callees)
    (harmed : ∀ (id : Nat) (kind : TimerKind), armed.get? id = some kind →
      s.armed.get? id = some kind ∧ (kind = .setTimeout → id ≠ t.numId))
    (hid : f.numId = t.numId) (hkind : f.kind = t.kind) (hcallable : f.callable = t.callable) :
    Inv { s.call t.numId t.callable with armed := armed, firing := some f } := by
  have hrequest : s.bridge.requests[t.callable]? = some false := by
    rw [h.requests t ht, hlive]
    rfl
  obtain ⟨-, hcalls, halive⟩ := Bridge.invoke_entered hrequest
  have hrequests := Bridge.requests_invoke s.bridge t.callable true
  -- the audit has not been at a Callable whose disposal was not requested
  have hlate : s.bridge.NoLateInvoke (.invoke t.callable true) := by
    intro k hk haudited
    have hasked : k.disposeRequested = true :=
      Bool.or_eq_true_iff.mpr ((h.bridge.kept _ k hk).asked haudited)
    rw [Bridge.requests_getElem?, hk, Option.map_some, hasked] at hrequest
    cases hrequest
  have hcallees : ({ s.call t.numId t.callable with armed := armed, firing := some f } : Registry).callees =
      s.callees ++ [t.callable] := callees_call s t.numId t.callable
  constructor
  case bridge => exact h.bridge.invoke t.callable true hlate
  case ids => exact h.ids
  case owners => exact h.owners
  case pending => exact h.pending
  case requests =>
    intro t' ht'
    change (s.bridge.invoke t.callable true).requests[t'.callable]? = _
    rw [hrequests]
    exact h.requests t' ht'
  case armed =>
    intro id kind hk
    obtain ⟨hk, hne⟩ := harmed id kind hk
    obtain ⟨t', ht', rfl, hkind', hlive', hnot⟩ := h.armed id kind hk
    refine ⟨t', ht', rfl, hkind', hlive', ?_⟩
    intro htimeout hmem
    rw [hcallees] at hmem
    rcases List.mem_append.mp hmem with hmem | hmem
    · exact hnot htimeout hmem
    · obtain rfl := h.eq_of_callable ht' ht (List.mem_singleton.mp hmem)
      exact hne htimeout rfl
  case outlived =>
    intro hdead
    exact h.outlived (halive.symm.trans hdead)
  case calls => rw [hcallees, ← h.calls, ← hcalls]; rfl
  case known =>
    intro c hc
    change c < (s.bridge.invoke t.callable true).requests.length
    rw [hcallees] at hc
    rw [hrequests]
    rcases List.mem_append.mp hc with hc | hc
    · exact h.known c hc
    · rw [List.mem_singleton.mp hc]
      exact lt_of_getElem?_eq_some hrequest
  case inTime =>
    intro call hcall
    rcases List.mem_append.mp hcall with hcall | hcall
    · exact h.inTime call hcall
    · rw [List.mem_singleton.mp hcall, h.fateOf_eq ht, Timer.isLive_iff.mp hlive]
  case once =>
    intro t' ht' hkind'
    rw [hcallees, List.count_append, List.count_singleton]
    split
    · rename_i heq
      obtain rfl := h.eq_of_callable ht' ht (beq_iff_eq.mp heq).symm
      rw [List.count_eq_zero_of_not_mem (huncalled hkind')]
    · exact h.once t' ht' hkind'
  case waits =>
    intro t' ht' hkind' hlive' hmem
    rw [hcallees] at hmem
    rcases List.mem_append.mp hmem with hmem | hmem
    · obtain ⟨f', hf', -⟩ := h.waits t' ht' hkind' hlive' hmem
      rw [hidle] at hf'
      cases hf'
    · exact ⟨f, rfl, hcallable.trans (List.mem_singleton.mp hmem).symm⟩
  case firing =>
    intro f' hf'
    cases hf'
    refine ⟨t, ht, hid.symm, hkind.symm, hcallable.symm, ?_⟩
    rw [hcallees]
    exact List.mem_concat_self
  case leaves => exact h.leaves

/-- `fire` finds the timer in the map, and the call is not refused. -/
theorem Inv.fire_eq {s : Registry} {t : Timer} (h : Inv s) (ht : t ∈ s.timers) (hlive : t.isLive = true)
    (armed : OrderedMap Nat TimerKind) :
    { s with armed := armed }.fire t.numId t.kind =
      { s.call t.numId t.callable with
        armed := armed
        firing := some ⟨t.numId, t.kind, t.callable, s.bridge.invocations.length⟩ } := by
  have hrequest : s.bridge.requests[t.callable]? = some false := by
    rw [h.requests t ht, hlive]
    rfl
  have hentered : (s.bridge.invoke t.callable true).invocations.length ≠ s.bridge.invocations.length := by
    rw [(Bridge.invoke_entered hrequest).1, List.length_append, List.length_singleton]
    omega
  unfold Registry.fire
  simp only [h.get?_pending ht hlive]
  exact if_neg hentered

theorem Inv.fire {s : Registry} {numId : Nat} {kind : TimerKind} (armed : OrderedMap Nat TimerKind) (h : Inv s)
    (hidle : s.firing = none) (hfires : s.armed.get? numId = some kind)
    (harmed : ∀ (id : Nat) (k : TimerKind), armed.get? id = some k →
      s.armed.get? id = some k ∧ (k = .setTimeout → id ≠ numId)) :
    Inv ({ s with armed := armed }.fire numId kind) := by
  obtain ⟨t, ht, rfl, rfl, hlive, huncalled⟩ := h.armed numId kind hfires
  rw [h.fire_eq ht hlive]
  exact h.call _ hidle ht hlive huncalled harmed rfl rfl rfl

/-- With no callback on the stack, no live timeout has been called. -/
theorem Inv.returned {s : Registry} (h : Inv s)
    (hdone : ∀ t ∈ s.timers, t.kind = .setTimeout → t.isLive = true → t.callable ∉ s.callees) :
    Inv { s with firing := none } where
  bridge := h.bridge
  ids := h.ids
  owners := h.owners
  pending := h.pending
  requests := h.requests
  armed := h.armed
  outlived := h.outlived
  calls := h.calls
  known := h.known
  inTime := h.inTime
  once := h.once
  waits := fun t ht hkind hlive hcalled => absurd hcalled (hdone t ht hkind hlive)
  firing := nofun
  leaves := h.leaves

/-- `fire` goes on when the callback has returned, whatever it has done to the timer. -/
theorem Inv.resume {s : Registry} {f : Fire} (h : Inv s) (hf : s.firing = some f) :
    Inv ({ s with firing := none }.resume f) := by
  obtain ⟨t, ht, hid, hkind, hcallable, hcalled⟩ := h.firing f hf
  have hother : ∀ t' ∈ s.timers, t'.kind = .setTimeout → t'.isLive = true → t'.callable ∈ s.callees → t' = t := by
    intro t' ht' hkind' hlive' hcalled'
    obtain ⟨f', hf', hcallable'⟩ := h.waits t' ht' hkind' hlive' hcalled'
    rw [hf] at hf'
    cases hf'
    exact h.eq_of_callable ht' ht (hcallable'.symm.trans hcallable.symm)
  unfold Registry.resume
  rw [← hid, ← hkind, ← hcallable]
  cases htimeout : t.kind with
  | setInterval =>
    refine h.returned ?_
    intro t' ht' hkind' hlive' hcalled'
    rw [hother t' ht' hkind' hlive' hcalled', htimeout] at hkind'
    cases hkind'
  | setTimeout =>
    rw [if_pos rfl]
    cases hlive : t.isLive with
    | true =>
      have hretired := h.retire .fired s.armed ht hlive (by decide) (by decide) ?_
      · refine hretired.returned ?_
        intro t' ht' hkind' hlive' hcalled'
        obtain ⟨t₁, ht₁, -, -, -, ⟨-, rfl⟩ | ⟨hne, rfl⟩⟩ := mem_retireId ht'
        · rw [Timer.isLive_retire (by decide)] at hlive'
          cases hlive'
        · exact hne (congrArg Timer.numId (hother t' ht₁ hkind' hlive' hcalled'))
      · intro id kind hkind'
        refine ⟨hkind', ?_⟩
        rintro rfl
        obtain ⟨t', ht', hid', hk, -, huncalled⟩ := h.armed t.numId kind hkind'
        obtain rfl := h.eq_of_numId ht' ht hid'
        exact huncalled (hk.symm.trans htimeout) hcalled
    | false =>
      -- the callback has cleared its own timer
      have hdead : ∀ t' ∈ s.timers, t'.numId = t.numId → t'.isLive = false := by
        intro t' ht' hid'
        rw [h.eq_of_numId ht' ht hid', hlive]
      have hpending := OrderedMap.delete_of_get?_none _ _ (h.get?_pending_eq_none hdead)
      have hrequest := h.requests t ht
      rw [hlive] at hrequest
      have hsame : ({ s with
          firing := none
          pending := s.pending.delete t.numId
          bridge := s.bridge.dispose t.callable
          timers := retireId t.numId .fired s.timers } : Registry) = { s with firing := none } := by
        rw [hpending, Bridge.dispose_of_requested hrequest, retireId_of_not_live hdead]
      change Inv { s with
          firing := none
          pending := s.pending.delete t.numId
          bridge := s.bridge.dispose t.callable
          timers := retireId t.numId .fired s.timers }
      rw [hsame]
      refine h.returned ?_
      intro t' ht' hkind' hlive' hcalled'
      rw [hother t' ht' hkind' hlive' hcalled', hlive] at hlive'
      cases hlive'

/-! ## The run ends -/

/-- What the loop of `clearAllPending` over `es` does. -/
structure Swept (es : List (Nat × PendingTimer)) (s t : Registry) : Prop where
  bridge : s.bridge.Inv → t.bridge.Inv
  timers : t.timers = s.timers
  invoked : t.invoked = s.invoked
  firing : t.firing = s.firing
  running : t.bridge.running = s.bridge.running
  calls : t.bridge.calls = s.bridge.calls
  length : t.bridge.requests.length = s.bridge.requests.length
  requests : ∀ c : Nat, s.bridge.requests[c]? = some true → t.bridge.requests[c]? = some true
  disposed : ∀ e ∈ es, e.2.callable < s.bridge.requests.length → t.bridge.requests[e.2.callable]? = some true
  stopped : ∀ (id : Nat) (kind : TimerKind), t.armed.get? id = some kind →
    s.armed.get? id = some kind ∧ ∀ e ∈ es, e.2.nodeId ≠ id
  leaves : s.bridge.running = true → t.leaves = s.leaves ++ es.map fun e => (e.2.kind.clearKind, e.1)

theorem Swept.trans {es es' : List (Nat × PendingTimer)} {s m t : Registry} (h : Swept es s m) (h' : Swept es' m t) :
    Swept (es ++ es') s t where
  bridge := fun hs => h'.bridge (h.bridge hs)
  timers := h'.timers.trans h.timers
  invoked := h'.invoked.trans h.invoked
  firing := h'.firing.trans h.firing
  running := h'.running.trans h.running
  calls := h'.calls.trans h.calls
  length := h'.length.trans h.length
  requests := fun c hc => h'.requests c (h.requests c hc)
  disposed := by
    intro e he hlt
    rcases List.mem_append.mp he with he | he
    · exact h'.requests _ (h.disposed e he hlt)
    · rw [← h.length] at hlt
      exact h'.disposed e he hlt
  stopped := by
    intro id kind hkind
    obtain ⟨hkind, hrest⟩ := h'.stopped id kind hkind
    obtain ⟨hkind, hfirst⟩ := h.stopped id kind hkind
    exact ⟨hkind, fun e he => (List.mem_append.mp he).elim (hfirst e) (hrest e)⟩
  leaves := by
    intro hrunning
    rw [h'.leaves (h.running.trans hrunning), h.leaves hrunning, List.map_append, List.append_assoc]

theorem emit_bridge (s : Registry) (leaf : ClearKind × Nat) : (s.emit leaf).bridge = s.bridge := by
  unfold emit
  split <;> rfl

theorem emit_frame (s : Registry) (leaf : ClearKind × Nat) :
    (s.emit leaf).timers = s.timers ∧ (s.emit leaf).invoked = s.invoked ∧ (s.emit leaf).firing = s.firing ∧
      (s.emit leaf).armed = s.armed := by
  unfold emit
  split <;> exact ⟨rfl, rfl, rfl, rfl⟩

theorem swept_clearPending (s : Registry) (e : Nat × PendingTimer) : Swept [e] s (s.clearPending e) := by
  have hbridge : (s.clearPending e).bridge = s.bridge.dispose e.2.callable :=
    congrArg (fun b => Bridge.dispose b e.2.callable) (emit_bridge s _)
  obtain ⟨htimers, hinvoked, hfiring, harmed⟩ := emit_frame s (e.2.kind.clearKind, e.1)
  have hrequests : (s.clearPending e).bridge.requests = s.bridge.requests.set e.2.callable true := by
    rw [hbridge, Bridge.requests_dispose]
  constructor
  case bridge =>
    intro hs
    rw [hbridge]
    exact hs.dispose e.2.callable
  case timers => exact htimers
  case invoked => exact hinvoked
  case firing => exact hfiring
  case running => rw [hbridge, Bridge.dispose_running]
  case calls =>
    rw [hbridge]
    exact (Bridge.dispose_frame _ _).2.2.2
  case length => rw [hrequests, List.length_set]
  case requests =>
    intro c hc
    rw [hrequests]
    by_cases hself : e.2.callable = c
    · rw [hself, List.getElem?_set_self (lt_of_getElem?_eq_some hc)]
    · rw [List.getElem?_set_ne hself]
      exact hc
  case disposed =>
    intro e' he' hlt
    obtain rfl := List.mem_singleton.mp he'
    rw [hrequests, List.getElem?_set_self hlt]
  case stopped =>
    intro id kind hkind
    change ((s.emit _).armed.delete e.2.nodeId).get? id = some kind at hkind
    rw [harmed, OrderedMap.get?_delete] at hkind
    split at hkind
    · cases hkind
    · rename_i hne
      refine ⟨hkind, ?_⟩
      intro e' he'
      rw [List.mem_singleton.mp he']
      exact Ne.symm hne
  case leaves =>
    intro hrunning
    change (s.emit _).leaves = _
    rw [emit, if_pos hrunning]
    rfl

theorem swept_clearAll (es : List (Nat × PendingTimer)) (s : Registry) : Swept es s (es.foldl clearPending s) := by
  induction es generalizing s with
  | nil =>
    refine ⟨id, rfl, rfl, rfl, rfl, rfl, rfl, fun _ hc => hc, nofun, fun _ _ hkind => ⟨hkind, nofun⟩, ?_⟩
    intro _
    exact (List.append_nil _).symm
  | cons e es ih =>
    have hrest := ih (s.clearPending e)
    exact (swept_clearPending s e).trans hrest

theorem Inv.finalizeRun {s : Registry} (h : Inv s) (hrunning : s.bridge.running = true) (hidle : s.firing = none) :
    Inv s.finalizeRun := by
  have hswept := swept_clearAll s.pending.entries s
  let m := s.pending.entries.foldl clearPending s
  have hcallees : s.finalizeRun.callees = s.callees := congrArg (List.map Invoked.callable) hswept.invoked
  have htimers : s.finalizeRun.timers = s.timers.map (Timer.retire .ended) :=
    congrArg (List.map (Timer.retire .ended)) hswept.timers
  have hentry : ∀ t ∈ s.timers, t.isLive = true → t.entry ∈ s.pending.entries := by
    intro t ht hlive
    rw [h.pending]
    exact List.mem_map_of_mem (List.mem_filter.mpr ⟨ht, hlive⟩)
  have hdead : ∀ t ∈ s.finalizeRun.timers, t.isLive = false := by
    intro t ht
    rw [htimers] at ht
    obtain ⟨t₀, -, rfl⟩ := List.mem_map.mp ht
    exact Timer.isLive_retire (by decide)
  obtain ⟨hcalls, hlength⟩ := Bridge.finalizeRun_frame m.bridge
  constructor
  case bridge => exact (hswept.bridge h.bridge).finalizeRun
  case ids =>
    rw [htimers, List.map_map]
    have hid : (fun t : Timer => t.numId) ∘ Timer.retire .ended = fun t => t.numId :=
      funext fun _ => Timer.retire_numId
    rw [hid]
    exact h.ids
  case owners =>
    rw [htimers, List.map_map]
    have hcallable : (fun t : Timer => t.callable) ∘ Timer.retire .ended = fun t => t.callable :=
      funext fun _ => Timer.retire_callable
    rw [hcallable]
    exact h.owners
  case pending =>
    rw [htimers, filter_live_ended]
    rfl
  case requests =>
    intro t ht
    rw [hdead t ht]
    rw [htimers] at ht
    obtain ⟨t₀, ht₀, rfl⟩ := List.mem_map.mp ht
    have hrequest := h.requests t₀ ht₀
    rw [Timer.retire_callable]
    refine Bridge.requests_finalizeRun ?_
    cases hlive : t₀.isLive with
    | true => exact hswept.disposed t₀.entry (hentry t₀ ht₀ hlive) (lt_of_getElem?_eq_some hrequest)
    | false =>
      rw [hlive] at hrequest
      exact hswept.requests _ hrequest
  case armed =>
    intro id kind hkind
    obtain ⟨hkind, hstopped⟩ := hswept.stopped id kind hkind
    obtain ⟨t, ht, rfl, -, hlive, -⟩ := h.armed id kind hkind
    exact absurd rfl (hstopped t.entry (hentry t ht hlive))
  case outlived => exact fun _ => hdead
  case calls =>
    rw [hcallees, ← h.calls, ← hswept.calls]
    exact congrArg (List.map (·.callable)) hcalls
  case known =>
    intro c hc
    rw [hcallees] at hc
    change c < m.bridge.finalizeRun.requests.length
    rw [hlength, hswept.length]
    exact h.known c hc
  case inTime =>
    intro call hcall
    change call ∈ m.invoked at hcall
    rw [hswept.invoked] at hcall
    exact h.inTime call hcall
  case once =>
    intro t ht hkind
    rw [htimers] at ht
    obtain ⟨t₀, ht₀, rfl⟩ := List.mem_map.mp ht
    rw [hcallees, Timer.retire_callable]
    exact h.once t₀ ht₀ (Timer.retire_kind.symm.trans hkind)
  case waits =>
    intro t ht _ hlive
    rw [hdead t ht] at hlive
    cases hlive
  case firing =>
    intro f hf
    change m.firing = some f at hf
    rw [hswept.firing, hidle] at hf
    cases hf
  case leaves =>
    change m.leaves.Perm _
    rw [hswept.leaves hrunning, h.pending, List.map_map, htimers]
    exact (h.leaves.append_right _).trans perm_ended.symm

/-! ## Steps and runs -/

theorem onBridge_eq_some {s t : Registry} {b : Option CallableHandles.Bridge} (h : s.onBridge b = some t) :
    ∃ b', b = some b' ∧ t = { s with bridge := b' } := by
  obtain ⟨b', hb', rfl⟩ := Option.map_eq_some_iff.mp h
  exact ⟨b', hb', rfl⟩

theorem step_inv {s t : Registry} {a : TimerAction} (h : Inv s) (hs : step s a = some t) : Inv t := by
  cases a with
  | handleRun =>
    obtain ⟨b, hb, rfl⟩ := onBridge_eq_some hs
    have hinv := Bridge.step_inv (a := .handleRun) h.bridge trivial hb
    simp only [Bridge.step] at hb
    split at hb
    · cases hb
    · cases hb
      exact h.onBridge_same hinv rfl rfl rfl
  | schedule kind numId =>
    simp only [step] at hs
    split at hs
    · rename_i hok
      cases hs
      obtain ⟨halive, hfresh⟩ := Bool.and_eq_true_iff.mp hok
      exact h.schedule halive kind fun t ht => of_decide_eq_true (List.all_eq_true.mp hfresh t ht)
    · cases hs
  | scheduleFails kind =>
    obtain ⟨b, hb, rfl⟩ := onBridge_eq_some hs
    simp only [Bridge.step] at hb
    split at hb
    · rename_i halive
      cases hb
      exact h.makeCallable halive kind.toString
    · cases hb
  | clear id =>
    cases id with
    | none =>
      simp only [step] at hs
      split at hs
      · cases hs
        exact h
      · cases hs
    | some id =>
      simp only [step] at hs
      split at hs
      · cases hs
        exact h.cancel id
      · cases hs
  | fire numId =>
    simp only [step] at hs
    split at hs
    · rename_i hidle hfires
      cases hs
      refine h.fire (s.armed.delete numId) hidle hfires ?_
      intro id kind hkind
      rw [OrderedMap.get?_delete] at hkind
      split at hkind
      · cases hkind
      · rename_i hne
        exact ⟨hkind, fun _ => hne⟩
    · rename_i hidle hfires
      cases hs
      refine h.fire s.armed hidle hfires ?_
      intro id kind hkind
      refine ⟨hkind, ?_⟩
      rintro rfl rfl
      rw [hkind] at hfires
      cases hfires
    · cases hs
  | returned awaits =>
    obtain ⟨f, hf, hs⟩ := Option.bind_eq_some_iff.mp hs
    obtain ⟨b, hb, rfl⟩ := Option.map_eq_some_iff.mp hs
    have hinv : b.Inv := Bridge.step_inv (a := .returned f.invocation awaits) h.bridge trivial hb
    obtain ⟨hcalls, halive⟩ := Bridge.afterReturn_frame hb
    exact (h.onBridge_same hinv (Bridge.requests_afterReturn hb) hcalls halive).resume hf
  | settled i =>
    obtain ⟨b, hb, rfl⟩ := onBridge_eq_some hs
    have hinv : b.Inv := Bridge.step_inv (a := .settled i) h.bridge trivial hb
    obtain ⟨hcalls, halive⟩ := Bridge.afterSettle_frame hb
    exact h.onBridge_same hinv (Bridge.requests_afterSettle hb) hcalls halive
  | finalizeRun =>
    simp only [step] at hs
    split at hs
    · rename_i hok
      cases hs
      obtain ⟨hrunning, hidle⟩ := Bool.and_eq_true_iff.mp hok
      exact h.finalizeRun hrunning (Option.isNone_iff_eq_none.mp hidle)
    · cases hs
  | rebind =>
    obtain ⟨b, hb, rfl⟩ := onBridge_eq_some hs
    have hinv := Bridge.step_inv (a := .rebind) h.bridge trivial hb
    simp only [Bridge.step] at hb
    split at hb
    · cases hb
    · cases hb
      refine h.onBridge hinv (fun _ _ hc => hc) rfl ?_
      intro hdead
      cases hdead

/-- In every state of every run, between two turns and while a callback is on the stack. -/
theorem run_conforms (as : List TimerAction) (s : Registry) (h : exec step init as = some s) : s.Conforms :=
  Inv.conforms (exec_invariant (fun _ _ _ hs hstep => step_inv hs hstep) inv_init h)

/-- A timeout clears itself and schedules another, an interval is cleared between two of its calls, a second interval
still awaits when the run ends, and the next run clears an id of the first. -/
def busyRun : List TimerAction :=
  [.handleRun, .schedule .setTimeout 7, .schedule .setInterval 9, .schedule .setInterval 10, .fire 7, .clear (some 7),
    .schedule .setTimeout 11, .returned true, .fire 9, .returned true, .clear (some 9), .clear none, .fire 10,
    .returned true, .settled 0, .finalizeRun, .settled 2, .rebind, .handleRun, .clear (some 10), .settled 1]

theorem run_conforms_busyRun : ∃ s, exec step init busyRun = some s ∧ s.Conforms ∧
    s.leaves = [(.clearInterval, 10), (.clearTimeout, 11)] ∧
    s.timers.map (·.fate) = [.cleared, .cleared, .ended, .ended] := by
  refine ⟨_, rfl, run_conforms busyRun _ rfl, by decide, by decide⟩

end Registry

end WorkflowEngine.Sandbox.Timers
