import WorkflowEngine.Runtime.ImapSteps

/-!
# Events of clients that an entry no longer uses

`setupConnection` attaches the close and error listeners to the client and never
takes them off, and what they call knows only the entry. An event of a client that
is no longer in the entry's slot is ignored while the entry has neither a client nor
a wakeup; once a reconnect has made one, the event tears the new connection down.
-/

namespace WorkflowEngine.Runtime.Imap

open Lib
set_option autoImplicit false

namespace SourceEntry

/-- A client with listeners that is not, or no longer, the client of the entry. -/
def Former (x : SourceEntry) (c : Nat) : Prop := x.isWired c = true ∧ x.client ≠ some c

instance (x : SourceEntry) (c : Nat) : Decidable (x.Former c) := inferInstanceAs (Decidable (_ ∧ _))

/-- Nothing of the entry has changed but whether client `c` is connected: nothing is torn down, no
reconnect is armed or put off and no failure is counted. -/
structure Undisturbed (c : Nat) (x x' : SourceEntry) : Prop where
  client : x'.client = x.client
  wakeup : x'.wakeup = x.wakeup
  reconnectTimer : x'.reconnectTimer = x.reconnectTimer
  timers : x'.timers = x.timers
  failures : x'.failures = x.failures
  disposed : x'.disposed = x.disposed
  phases : ∀ r, x'.phaseOf r = x.phaseOf r
  wakeups : ∀ w, x'.wakeupOf w = x.wakeupOf w
  connected : ∀ d, d ≠ c → x'.isConnected d = x.isConnected d

/-- The entry has no connection and none in the making, or is no longer served. -/
def Vacant (current : Bool) (x : SourceEntry) : Prop :=
  x.Alive current → x.client = none ∧ x.wakeup = none

instance (current : Bool) (x : SourceEntry) : Decidable (x.Vacant current) :=
  inferInstanceAs (Decidable (_ → _))

theorem undisturbed_refl (c : Nat) (x : SourceEntry) : Undisturbed c x x :=
  ⟨rfl, rfl, rfl, rfl, rfl, rfl, fun _ => rfl, fun _ => rfl, fun _ _ => rfl⟩

theorem undisturbed_logout (c : Nat) (x : SourceEntry) : Undisturbed c x (x.logout c) := by
  refine ⟨rfl, rfl, rfl, rfl, rfl, rfl, ?_, ?_, ?_⟩
  · intro r
    exact x.phaseOf_logout c r
  · intro w
    exact x.wakeupOf_logout c w
  · intro d hd
    rw [isConnected_logout, if_neg (Ne.symm hd)]

/-- The client's own state after its event. -/
def afterEvent (x : SourceEntry) (c : Nat) (event : LossEvent) : SourceEntry :=
  if event = .close then x.logout c else x

theorem undisturbed_afterEvent (x : SourceEntry) (c : Nat) (event : LossEvent) :
    Undisturbed c x (x.afterEvent c event) := by
  unfold afterEvent
  split
  · exact undisturbed_logout c x
  · exact undisturbed_refl c x

theorem vacant_afterEvent (x : SourceEntry) (c : Nat) (event : LossEvent) (current : Bool) :
    ((x.afterEvent c event).Vacant current ↔ x.Vacant current) ∧
      (x.afterEvent c event).failures = x.failures := by
  unfold afterEvent
  split <;> exact ⟨Iff.rfl, rfl⟩

theorem step_connectionLost {current : Bool} {x x' : SourceEntry} {c : Nat} {event : LossEvent}
    (h : x.step current (.connectionLost c event) = some x') :
    x' = onConnectionLost current (x.afterEvent c event) := by
  simp only [step] at h
  split at h
  · exact (Option.some.inj h).symm
  · cases h

theorem onConnectionLost_of_vacant {current : Bool} {y : SourceEntry} (h : y.Vacant current) :
    onConnectionLost current y = y := by
  unfold onConnectionLost
  by_cases hlive : y.Alive current
  · rw [alive_iff.mp hlive, if_pos (h hlive)]
    rfl
  · rw [alive_iff, Bool.not_eq_false] at hlive
    rw [hlive]
    rfl

theorem failures_onConnectionLost {current : Bool} {y : SourceEntry} (h : ¬y.Vacant current) :
    (onConnectionLost current y).failures = y.failures + 1 := by
  obtain ⟨hlive, hslots⟩ := Classical.not_imp.mp h
  have hlive' : { y with failures := y.failures + 1 }.Alive current := hlive
  unfold onConnectionLost
  rw [alive_iff.mp hlive, if_neg hslots, scheduleReconnect_of_alive hlive']
  exact failures_teardownConnection

/-- An event leaves the entry alone exactly when it finds it vacant. -/
theorem undisturbed_iff_vacant {current : Bool} {x x' : SourceEntry} {c : Nat} {event : LossEvent}
    (h : x.step current (.connectionLost c event) = some x') :
    Undisturbed c x x' ↔ x.Vacant current := by
  obtain ⟨hvacant, hfailures⟩ := x.vacant_afterEvent c event current
  rw [step_connectionLost h]
  constructor
  · intro hsame
    by_contra hnot
    have hcounted := failures_onConnectionLost (mt hvacant.mp hnot)
    have hkept := hsame.failures
    omega
  · intro hx
    rw [onConnectionLost_of_vacant (hvacant.mpr hx)]
    exact x.undisturbed_afterEvent c event

end SourceEntry

/-! ## Runs -/

/-- An event of a former client of an entry changes nothing of the entry. -/
def FormerHarmless (s : ImapSource) : SourceAction → Prop
  | .entry e (.connectionLost c event) =>
    ∀ x, s.entries[e]? = some x → x.Former c →
      ∀ x', x.step (s.isCurrent e) (.connectionLost c event) = some x' → SourceEntry.Undisturbed c x x'
  | _ => True

/-- An event of a former client finds its entry vacant. -/
def FormerVacant (s : ImapSource) : SourceAction → Prop
  | .entry e (.connectionLost c _) =>
    ∀ x ∈ s.entries[e]?, x.Former c → x.Vacant (s.isCurrent e)
  | _ => True

instance (s : ImapSource) : (a : SourceAction) → Decidable (FormerVacant s a)
  | .entry e (.connectionLost c _) =>
    inferInstanceAs (Decidable (∀ x ∈ s.entries[e]?, x.Former c → x.Vacant (s.isCurrent e)))
  | .entry _ (.connected ..) | .entry _ (.reported _) | .entry _ (.loggedOut _) | .entry _ (.opened ..)
  | .entry _ (.drain ..) | .entry _ (.resumed _) | .entry _ (.notified _) | .entry _ (.pollTimer ..)
  | .entry _ (.reconnectTimer _) | .reconfigure .. | .stop => isTrue trivial

theorem formerHarmless_iff_vacant (s : ImapSource) (a : SourceAction) :
    FormerHarmless s a ↔ FormerVacant s a := by
  cases a with
  | reconfigure owner repo ds => exact Iff.rfl
  | stop => exact Iff.rfl
  | entry e a =>
    cases a with
    | connectionLost c event =>
      constructor
      · intro h x hx hformer
        have hstep : x.step (s.isCurrent e) (.connectionLost c event) =
            some (SourceEntry.onConnectionLost (s.isCurrent e) (x.afterEvent c event)) := by
          simp only [SourceEntry.step, hformer.1, if_true]
          rfl
        exact (SourceEntry.undisturbed_iff_vacant hstep).mp (h x hx hformer _ hstep)
      · intro h x hx hformer x' hstep
        exact (SourceEntry.undisturbed_iff_vacant hstep).mpr (h x hx hformer)
    | _ => exact Iff.rfl

/-- Over every run of the source: no event of a former client disturbs an entry exactly when each of
them finds its entry vacant. -/
theorem formerHarmless_iff_vacant_along (as : List SourceAction) :
    Along step FormerHarmless createImapTriggerSource as ↔
      Along step FormerVacant createImapTriggerSource as :=
  along_congr formerHarmless_iff_vacant createImapTriggerSource as

/-- A connection breaks, and its client closes only after the entry has reconnected. -/
def lateClose : List SourceAction :=
  [.reconfigure "acme" "shop" [inbox],
    .entry 0 (.connected 0 (.accepted true)), .entry 0 (.opened 0 true),
    .entry 0 (.drain 0 (.searched (some []))), .entry 0 (.resumed 0), .entry 0 (.resumed 0),
    .entry 0 (.connectionLost 0 .error), .entry 0 (.resumed 0), .entry 0 (.reconnectTimer 0),
    .entry 0 (.connected 1 (.accepted true)), .entry 0 (.opened 1 true),
    .entry 0 (.drain 1 (.searched (some []))), .entry 0 (.resumed 1), .entry 0 (.resumed 1),
    .entry 0 (.connectionLost 0 .close)]

/-- The new client was in the slot before the event and is logged out after it, with a failure counted
and a new reconnect armed. -/
theorem lateClose_tears_down :
    (∃ s x, exec step createImapTriggerSource lateClose.dropLast = some s ∧ s.entries[0]? = some x ∧
      x.client = some 1 ∧ x.isConnected 1 = true ∧ x.failures = 0) ∧
    (∃ t y, exec step createImapTriggerSource lateClose = some t ∧ t.entries[0]? = some y ∧
      y.client = none ∧ y.isConnected 1 = false ∧ y.failures = 1 ∧ y.isPending 1 = true) ∧
    ¬Along step FormerHarmless createImapTriggerSource lateClose := by
  refine ⟨⟨_, _, rfl, rfl, rfl, rfl, rfl⟩, ⟨_, _, rfl, rfl, rfl, rfl, rfl, rfl⟩, ?_⟩
  rw [along_congr formerHarmless_iff_vacant]
  decide

end WorkflowEngine.Runtime.Imap
