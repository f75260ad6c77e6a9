import WorkflowEngine.Runtime.ImapSteps

/-!
# Disposed IMAP entries

`disposeEntry` sets a flag, clears the timer in the slot and closes what the
slots hold. What is not in a slot is not reached: a client between `connect`
and the assignment that follows `mailboxOpen`, and whatever a slot lost when it
was written again. `Orderly` lists the steps that do no such thing; in runs made
of them a disposed entry stays closed, fetches nothing and hands at most the
message in hand to the handler.
-/

namespace WorkflowEngine.Runtime.Imap

open Lib
set_option autoImplicit false

/-- The client of the run is connected and not yet recorded, or about to be closed by the run. -/
def Phase.startingUp : Phase → Bool
  | .opening | .reportingOpen | .reportingConnect => true
  | _ => false

/-- A run that starts up is not one that a wakeup lets go. -/
theorem Phase.startingUp_wake (p : Phase) (c : Prop) [Decidable c] :
    (if c then p.wake else p).startingUp = p.startingUp := by
  split
  · cases p <;> rfl
  · rfl

/-- The continuation schedules a reconnect. -/
def Phase.gaveUp : Phase → Bool
  | .drained _ _ failed => failed
  | _ => false

/-- The continuation is the head of the main loop. -/
def Phase.loops : Phase → Bool
  | .ready => true
  | .drained _ inLoop failed => inLoop && !failed
  | _ => false

theorem Wakeup.timers_next_of_idle {k : Wakeup} {r : Nat} (h : k.mode = .idle) :
    (k.next r).1.timers = k.timers ∧ (k.next r).1.timer = k.timer := by
  unfold next
  rw [h]
  dsimp only
  split <;> exact ⟨rfl, rfl⟩

namespace SourceEntry

def StartsUp (x : SourceEntry) (c : Nat) : Prop := ∃ p, x.phaseOf c = some p ∧ p.startingUp = true

/-! ## Slots -/

/-- What is open or armed stands in a slot, or belongs to a run that starts up. -/
structure Tidy (x : SourceEntry) : Prop where
  reconnect : ∀ t, x.isPending t = true → x.reconnectTimer = some t
  poll : ∀ w k t, x.wakeupOf w = some k → t ∈ k.timers → x.wakeup = some w ∧ k.timer = some t
  owned : ∀ c, x.isConnected c = true → x.client = some c ∨ x.StartsUp c
  closed : x.disposed = true →
    x.client = none ∧ x.reconnectTimer = none ∧ ∀ w k, x.wakeupOf w = some k → k.timers = []

section Conditions
variable (current : Bool) (x : SourceEntry)

/-- No reconnect timer would be lost from the slot. -/
def TimerFree : Prop := ∀ timer ∈ x.timers, timer.pending = false

/-- No poll timer hangs on the wakeup in the slot. -/
def PollFree : Prop := ∀ w ∈ x.wakeup, ∀ k ∈ x.wakeupOf w, k.timers = []

/-- The step neither overwrites a slot whose content is still open or armed, nor records a client for
a disposed entry, nor finds the wakeup gone that it is to dispose. -/
def Orderly : EntryAction → Prop
  | .connected _ (.accepted _) => x.PollFree
  | .opened _ true => x.disposed = false ∧ ∀ c ∈ x.client, x.isConnected c = false
  | .reported r => x.phaseOf r = some .reportingOpen → x.wakeup ≠ none
  | .loggedOut _ => x.Alive current → x.TimerFree
  | .resumed r =>
    ∀ p ∈ x.phaseOf r,
      (p.gaveUp = true → x.Alive current → x.TimerFree) ∧ (p.loops = true → x.Alive current → x.PollFree)
  | .connectionLost _ _ => x.Alive current → ¬(x.client = none ∧ x.wakeup = none) → x.TimerFree
  | _ => True

instance : Decidable x.TimerFree := inferInstanceAs (Decidable (∀ timer ∈ x.timers, timer.pending = false))

instance : Decidable x.PollFree :=
  inferInstanceAs (Decidable (∀ w ∈ x.wakeup, ∀ k ∈ x.wakeupOf w, k.timers = []))

instance : (a : EntryAction) → Decidable (x.Orderly current a)
  | .connected _ (.accepted _) => inferInstanceAs (Decidable x.PollFree)
  | .opened _ true =>
    inferInstanceAs (Decidable (x.disposed = false ∧ ∀ c ∈ x.client, x.isConnected c = false))
  | .reported r => inferInstanceAs (Decidable (x.phaseOf r = some .reportingOpen → x.wakeup ≠ none))
  | .loggedOut _ => inferInstanceAs (Decidable (x.Alive current → x.TimerFree))
  | .resumed r =>
    inferInstanceAs (Decidable (∀ p ∈ x.phaseOf r,
      (p.gaveUp = true → x.Alive current → x.TimerFree) ∧ (p.loops = true → x.Alive current → x.PollFree)))
  | .connectionLost _ _ =>
    inferInstanceAs (Decidable (x.Alive current → ¬(x.client = none ∧ x.wakeup = none) → x.TimerFree))
  | .connected _ .rejected | .opened _ false | .drain .. | .notified _ | .pollTimer .. | .reconnectTimer _ =>
    isTrue trivial

end Conditions

variable {x : SourceEntry}

theorem TimerFree.not_pending (h : x.TimerFree) (t : Nat) : x.isPending t = false := by
  unfold isPending
  cases hget : x.timers[t]? with
  | none => rfl
  | some timer => exact h timer (List.mem_of_getElem? hget)

/-- Where slots, timers and wakeups stay, only the clients are left to look at. -/
theorem Tidy.of_owned {x' : SourceEntry} (h : x.Tidy) (hwakeups : ∀ w, x'.wakeupOf w = x.wakeupOf w)
    (hpending : x'.isPending = x.isPending) (hclient : x'.client = x.client) (hwakeup : x'.wakeup = x.wakeup)
    (hslot : x'.reconnectTimer = x.reconnectTimer) (hdisposed : x'.disposed = x.disposed)
    (howned : ∀ c, x'.isConnected c = true → x'.client = some c ∨ x'.StartsUp c) : x'.Tidy := by
  refine ⟨?_, ?_, howned, ?_⟩
  · rw [hpending, hslot]
    exact h.reconnect
  · intro w k t hk
    rw [hwakeups] at hk
    rw [hwakeup]
    exact h.poll w k t hk
  · intro hd
    rw [hdisposed] at hd
    obtain ⟨hnone, hfree, hpoll⟩ := h.closed hd
    rw [hclient, hslot]
    refine ⟨hnone, hfree, ?_⟩
    intro w k hk
    rw [hwakeups] at hk
    exact hpoll w k hk

theorem Tidy.congr {x' : SourceEntry} (h : x.Tidy) (hphase : x'.phaseOf = x.phaseOf)
    (hconnected : x'.isConnected = x.isConnected) (hwakeups : x'.wakeupOf = x.wakeupOf)
    (hpending : x'.isPending = x.isPending) (hclient : x'.client = x.client) (hwakeup : x'.wakeup = x.wakeup)
    (hslot : x'.reconnectTimer = x.reconnectTimer) (hdisposed : x'.disposed = x.disposed) : x'.Tidy := by
  refine h.of_owned (congrFun hwakeups) hpending hclient hwakeup hslot hdisposed ?_
  unfold StartsUp
  rw [hconnected, hclient, hphase]
  exact h.owned

theorem Tidy.logout (h : x.Tidy) (c : Nat) : (x.logout c).Tidy := by
  refine h.of_owned (x.wakeupOf_logout c) rfl rfl rfl rfl rfl ?_
  intro i hi
  rw [isConnected_logout] at hi
  split at hi
  · cases hi
  · unfold StartsUp
    rw [phaseOf_logout]
    exact h.owned i hi

/-- A run that changes its phase keeps its claim on its client, or has none. -/
theorem Tidy.modifyRun (h : x.Tidy) {r : Nat} {p p' : Phase} {f : Run → Run} (hp : x.phaseOf r = some p)
    (hphase : ∀ run, (f run).phase = p') (hconnected : ∀ run, (f run).connected = run.connected)
    (hwakeup : ∀ run, (f run).wakeup = run.wakeup)
    (hstart : p.startingUp = true → p'.startingUp = true ∨ x.isConnected r = false) :
    (x.modifyRun r f).Tidy := by
  have hphases := fun i => x.phaseOf_modifyRun_const r i f hphase
  refine h.of_owned (fun w => x.wakeupOf_modifyRun r w f hwakeup) rfl rfl rfl rfl rfl ?_
  intro c hc
  rw [x.isConnected_modifyRun r c f hconnected] at hc
  refine (h.owned c hc).imp_right ?_
  rintro ⟨q, hq, hstarting⟩
  by_cases hr : r = c
  · subst hr
    obtain rfl : p = q := Option.some.inj (hp.symm.trans hq)
    rcases hstart hstarting with hp' | hnot
    · exact ⟨p', by simp [hphases, hp], hp'⟩
    · rw [hnot] at hc
      cases hc
  · exact ⟨q, by simpa [hphases, hr] using hq, hstarting⟩

theorem Tidy.setPhase (h : x.Tidy) {r : Nat} {p p' : Phase} (hp : x.phaseOf r = some p)
    (hstart : p.startingUp = true → p'.startingUp = true ∨ x.isConnected r = false) : (x.setPhase r p').Tidy :=
  h.modifyRun hp (fun _ => rfl) (fun _ => rfl) (fun _ => rfl) hstart

/-- A disposal of the wakeup in the slot leaves no poll timer. -/
theorem Tidy.no_poll_timers (h : x.Tidy) {w : Nat} {k : Wakeup}
    (hk : (if x.wakeup = some w then (x.wakeupOf w).map Wakeup.dispose else x.wakeupOf w) = some k) :
    k.timers = [] := by
  rw [List.eq_nil_iff_forall_not_mem]
  intro t ht
  split at hk
  · obtain ⟨k', hk', rfl⟩ := Option.map_eq_some_iff.mp hk
    unfold Wakeup.dispose at ht
    cases htimer : k'.timer with
    | none =>
      have hmem : t ∈ k'.timers := by simpa [htimer] using ht
      rw [(h.poll w k' t hk' hmem).2] at htimer
      cases htimer
    | some u =>
      have hmem : t ∈ k'.timers ∧ t ≠ u := by simpa [htimer] using ht
      rw [(h.poll w k' t hk' hmem.1).2] at htimer
      exact hmem.2 (Option.some.inj htimer)
  · rename_i hslot
    exact hslot (h.poll w k t hk ht).1

theorem StartsUp.wake {x' : SourceEntry} {c : Nat} {b : Prop} [Decidable b] (h : x.StartsUp c)
    (hphase : x'.phaseOf c = (x.phaseOf c).map fun p => if b then p.wake else p) : x'.StartsUp c := by
  obtain ⟨p, hp, hstarting⟩ := h
  refine ⟨if b then p.wake else p, ?_, ?_⟩
  · rw [hphase, hp]
    rfl
  · rw [Phase.startingUp_wake]
    exact hstarting

/-- What a teardown leaves connected belongs to a run that starts up. -/
theorem Tidy.startsUp_of_connected {x' : SourceEntry} (h : x.Tidy)
    (hconnected : ∀ c, x'.isConnected c = if x.client = some c then false else x.isConnected c)
    (hphase : ∀ i, x'.phaseOf i = (x.phaseOf i).map fun p => if x.woken i then p.wake else p)
    {c : Nat} (hc : x'.isConnected c = true) : x'.StartsUp c := by
  rw [hconnected] at hc
  split at hc
  · cases hc
  · rename_i hclient
    rcases h.owned c hc with howned | hstarts
    · exact absurd howned hclient
    · exact hstarts.wake (hphase c)

theorem Tidy.rescheduled (h : x.Tidy) (hlive : x.disposed = false) (hfree : x.TimerFree) :
    x.rescheduled.Tidy := by
  have hconnected := fun c => x.isConnected_teardownConnection c
  have hphase := fun i => x.phaseOf_teardownConnection i
  constructor
  · intro t ht
    rw [isPending_snoc rfl hfree.not_pending ht]
    rfl
  · intro w k t hk ht
    have hnone := h.no_poll_timers ((x.wakeupOf_teardownConnection w).symm.trans hk)
    rw [hnone] at ht
    cases ht
  · intro c hc
    have hstarts : x.teardownConnection.StartsUp c := h.startsUp_of_connected hconnected hphase hc
    exact Or.inr hstarts
  · intro hdisposed
    have hsame : x.teardownConnection.disposed = true := hdisposed
    rw [disposed_teardownConnection, hlive] at hsame
    cases hsame

theorem Tidy.disposed (h : x.Tidy) : x.disposeEntry.Tidy := by
  have hnopending : ∀ t, x.disposeEntry.isPending t = false := by
    intro t
    rw [Bool.eq_false_iff]
    intro ht
    obtain ⟨hne, hpending⟩ := isPending_disposeEntry ht
    exact hne (h.reconnect t hpending)
  have hnopoll : ∀ w k, x.disposeEntry.wakeupOf w = some k → k.timers = [] := by
    intro w k hk
    exact h.no_poll_timers ((x.wakeupOf_disposeEntry w).symm.trans hk)
  constructor
  · intro t ht
    rw [hnopending t] at ht
    cases ht
  · intro w k t hk ht
    rw [hnopoll w k hk] at ht
    cases ht
  · intro c hc
    exact Or.inr (h.startsUp_of_connected x.isConnected_disposeEntry x.phaseOf_disposeEntry hc)
  · intro _
    exact ⟨x.client_disposeEntry, x.reconnectTimer_disposeEntry, hnopoll⟩

theorem Tidy.elapsed (h : x.Tidy) {t : Nat} (ht : x.isPending t = true) : (x.elapsed t).Tidy := by
  refine ⟨?_, h.poll, h.owned, ?_⟩
  · intro i hi
    obtain ⟨hne, hpending⟩ := isPending_elapsed hi
    have hslot := (h.reconnect i hpending).symm.trans (h.reconnect t ht)
    exact absurd (Option.some.inj hslot) hne
  · intro hdisposed
    obtain ⟨hclient, _, hpoll⟩ := h.closed hdisposed
    exact ⟨hclient, rfl, hpoll⟩

theorem Tidy.start (h : x.Tidy) : x.started.Tidy := by
  refine h.of_owned x.wakeupOf_started rfl rfl rfl rfl rfl ?_
  intro c hc
  rw [isConnected_started] at hc
  rcases h.owned c hc with howned | ⟨p, hp, hstarting⟩
  · exact Or.inl howned
  · exact Or.inr ⟨p, x.phaseOf_started_of_some hp, hstarting⟩

theorem tidy_create (owner repo : String) (d : Descriptor) :
    ((create owner repo d).runEntry true).Tidy := by
  have hempty : (create owner repo d).Tidy := by
    refine ⟨?_, ?_, ?_, ?_⟩
    · intro t ht
      cases ht
    · intro w k t hk
      cases hk
    · intro c hc
      cases hc
    · intro hdisposed
      cases hdisposed
  exact hempty.start

/-- A wakeup that changes: what stays armed of it stands in its own slot. -/
theorem Tidy.updateWakeup (h : x.Tidy) {w : Nat} {k : Wakeup} {f : Wakeup → Wakeup} {resolves : Bool}
    (hk : x.wakeupOf w = some k)
    (hpoll : ∀ t ∈ (f k).timers, x.disposed = false ∧ x.wakeup = some w ∧ (f k).timer = some t) :
    (x.updateWakeup w f resolves).Tidy := by
  have hwakeups : ∀ i k', (x.updateWakeup w f resolves).wakeupOf i = some k' →
      (i = w ∧ k' = f k) ∨ x.wakeupOf i = some k' := by
    intro i k' hk'
    rw [wakeupOf_updateWakeup] at hk'
    split at hk'
    · rename_i hi
      subst hi
      rw [hk] at hk'
      exact Or.inl ⟨rfl, (Option.some.inj hk').symm⟩
    · exact Or.inr hk'
  refine ⟨h.reconnect, ?_, ?_, ?_⟩
  · intro i k' t hk' ht
    rcases hwakeups i k' hk' with ⟨rfl, rfl⟩ | hold
    · exact (hpoll t ht).2
    · exact h.poll i k' t hold ht
  · intro c hc
    rw [isConnected_updateWakeup] at hc
    rcases h.owned c hc with howned | hstarts
    · exact Or.inl howned
    · exact Or.inr (hstarts.wake (x.phaseOf_updateWakeup w c f resolves))
  · intro hdisposed
    obtain ⟨hclient, hslot, hold⟩ := h.closed hdisposed
    refine ⟨hclient, hslot, ?_⟩
    intro i k' hk'
    rcases hwakeups i k' hk' with ⟨rfl, rfl⟩ | hk'
    · rw [List.eq_nil_iff_forall_not_mem]
      intro t ht
      have hlive := (hpoll t ht).1
      have hsame : x.disposed = true := hdisposed
      rw [hlive] at hsame
      cases hsame
    · exact hold i k' hk'

theorem Tidy.disposeWakeup (h : x.Tidy) : x.disposeWakeup.Tidy := by
  have hnopoll : ∀ w k, x.disposeWakeup.wakeupOf w = some k → k.timers = [] := by
    intro w k hk
    exact h.no_poll_timers ((x.wakeupOf_disposeWakeup w).symm.trans hk)
  constructor
  · intro t ht
    unfold isPending at ht
    rw [timers_disposeWakeup] at ht
    rw [reconnectTimer_disposeWakeup]
    exact h.reconnect t ht
  · intro w k t hk ht
    rw [hnopoll w k hk] at ht
    cases ht
  · intro c hc
    rw [isConnected_disposeWakeup] at hc
    rw [client_disposeWakeup]
    rcases h.owned c hc with howned | hstarts
    · exact Or.inl howned
    · exact Or.inr (hstarts.wake (x.phaseOf_disposeWakeup c))
  · intro hdisposed
    rw [disposed_disposeWakeup] at hdisposed
    obtain ⟨hclient, hslot, _⟩ := h.closed hdisposed
    rw [client_disposeWakeup, reconnectTimer_disposeWakeup]
    exact ⟨hclient, hslot, hnopoll⟩

theorem wakeupOf_modifyRun_cases {r i : Nat} {f : Run → Run} {k : Wakeup}
    (hf : ∀ run k, (f run).wakeup = some k → run.wakeup = some k ∨ k.timers = [])
    (hk : (x.modifyRun r f).wakeupOf i = some k) : x.wakeupOf i = some k ∨ k.timers = [] := by
  obtain ⟨run, hrun, hwakeup⟩ := Option.bind_eq_some_iff.mp hk
  rw [runs_modifyRun] at hrun
  split at hrun
  · obtain ⟨old, hold, rfl⟩ := Option.map_eq_some_iff.mp hrun
    refine (hf old k hwakeup).imp_left ?_
    intro hwakeup
    simp [wakeupOf, hold, hwakeup]
  · left
    simp [wakeupOf, hrun, hwakeup]

/-- A client that connects belongs to a run that starts up; a wakeup it makes has no timer yet. -/
theorem Tidy.accepted (h : x.Tidy) {r : Nat} {f : Run → Run} {p : Phase} {slot : Option Nat}
    (hphase : ∀ run, (f run).phase = p) (hstarting : p.startingUp = true)
    (hwakeup : ∀ run k, (f run).wakeup = some k → run.wakeup = some k ∨ k.timers = [])
    (hslot : slot = x.wakeup ∨ x.PollFree) : { x.modifyRun r f with wakeup := slot }.Tidy := by
  refine ⟨h.reconnect, ?_, ?_, ?_⟩
  · intro w k t hk ht
    rcases wakeupOf_modifyRun_cases hwakeup hk with hold | hnil
    · obtain ⟨hw, htimer⟩ := h.poll w k t hold ht
      rcases hslot with rfl | hfree
      · exact ⟨hw, htimer⟩
      · rw [hfree w hw k hold] at ht
        cases ht
    · rw [hnil] at ht
      cases ht
  · intro c hc
    have hconnected : (x.modifyRun r f).isConnected c = true := hc
    have hruns := x.runs_modifyRun r c f
    by_cases hr : r = c
    · subst hr
      right
      rw [if_pos rfl] at hruns
      cases hrun : x.runs[r]? with
      | none =>
        rw [isConnected, hruns, hrun] at hconnected
        cases hconnected
      | some run =>
        refine ⟨p, ?_, hstarting⟩
        have hp := x.phaseOf_modifyRun_const r r f hphase
        rw [if_pos rfl] at hp
        refine hp.trans ?_
        simp [phaseOf, hrun]
    · rw [if_neg hr] at hruns
      rw [isConnected, hruns] at hconnected
      refine (h.owned c hconnected).imp_right ?_
      rintro ⟨q, hq, hstarting⟩
      refine ⟨q, ?_, hstarting⟩
      have hp := x.phaseOf_modifyRun_const r c f hphase
      rw [if_neg hr] at hp
      exact hp.trans hq
  · intro hdisposed
    obtain ⟨hclient, hreconnect, hpoll⟩ := h.closed hdisposed
    refine ⟨hclient, hreconnect, ?_⟩
    intro w k hk
    rcases wakeupOf_modifyRun_cases hwakeup hk with hold | hnil
    · exact hpoll w k hold
    · exact hnil

/-- A client is recorded over one that is closed. -/
theorem Tidy.recorded (h : x.Tidy) {r : Nat} {f : Run → Run} (hconnected : ∀ run, (f run).connected = run.connected)
    (hwakeup : ∀ run, (f run).wakeup = run.wakeup) (hlive : x.disposed = false)
    (hclosed : ∀ c ∈ x.client, x.isConnected c = false) : { x.modifyRun r f with client := some r }.Tidy := by
  refine ⟨h.reconnect, ?_, ?_, ?_⟩
  · intro w k t hk
    have hsame : x.wakeupOf w = some k := (x.wakeupOf_modifyRun r w f hwakeup).symm.trans hk
    exact h.poll w k t hsame
  · intro c hc
    have hold : x.isConnected c = true := (x.isConnected_modifyRun r c f hconnected).symm.trans hc
    by_cases hr : r = c
    · left
      exact congrArg some hr
    · right
      rcases h.owned c hold with hclient | ⟨p, hp, hstarting⟩
      · rw [hclosed c hclient] at hold
        cases hold
      · refine ⟨p, ?_, hstarting⟩
        have hruns := x.runs_modifyRun r c f
        rw [if_neg hr] at hruns
        have hphase : (x.modifyRun r f).phaseOf c = x.phaseOf c := congrArg (Option.map Run.phase) hruns
        exact hphase.trans hp
  · intro hdisposed
    have hsame : x.disposed = true := hdisposed
    rw [hlive] at hsame
    cases hsame

/-- A poll timer is armed on a wakeup that has none. -/
theorem Tidy.loopEntered (h : x.Tidy) {r w : Nat} {k : Wakeup} {resolves : Bool} (hk : x.wakeupOf w = some k)
    (hw : x.wakeup = some w) (hlive : x.disposed = false) (hfree : x.PollFree) :
    (x.updateWakeup w (fun _ => (k.next r).1) resolves).Tidy := by
  refine h.updateWakeup hk ?_
  intro t ht
  refine ⟨hlive, hw, ?_⟩
  have hnil := hfree w hw k hk
  cases hmode : k.mode with
  | idle =>
    rw [(Wakeup.timers_next_of_idle hmode).1, hnil] at ht
    cases ht
  | poll =>
    unfold Wakeup.next at ht ⊢
    simp only [hmode, hnil, List.nil_append, List.mem_singleton] at ht ⊢
    rw [ht]

/-- The poll timer that fires was the only one. -/
theorem Tidy.pollTimer (h : x.Tidy) {w t : Nat} {k : Wakeup} (hk : x.wakeupOf w = some k) (ht : t ∈ k.timers) :
    (x.updateWakeup w (·.timerFired t) true).Tidy := by
  refine h.updateWakeup hk ?_
  intro u hu
  obtain ⟨hmem, hne⟩ : u ∈ k.timers ∧ u ≠ t := by simpa [Wakeup.timerFired] using hu
  have hslot := (h.poll w k u hk hmem).2.symm.trans (h.poll w k t hk ht).2
  exact absurd (Option.some.inj hslot) hne

theorem Tidy.notified (h : x.Tidy) {w : Nat} {k : Wakeup} (hk : x.wakeupOf w = some k) :
    (x.updateWakeup w Wakeup.notify true).Tidy := by
  refine h.updateWakeup hk ?_
  intro t ht
  have hmem : t ∈ k.timers := ht
  obtain ⟨hw, htimer⟩ := h.poll w k t hk hmem
  refine ⟨?_, hw, htimer⟩
  rw [Bool.eq_false_iff]
  intro hdisposed
  rw [(h.closed hdisposed).2.2 w k hk] at hmem
  cases hmem

theorem Tidy.gaveUp (h : x.Tidy) {r : Nat} {p : Phase} (hp : x.phaseOf r = some p)
    (hstart : p.startingUp = false) (hlive : x.disposed = false) (hfree : x.TimerFree) :
    (x.rescheduled.setPhase r .returned).Tidy := by
  have htear := x.phaseOf_teardownConnection r
  rw [hp, Option.map_some] at htear
  refine (h.rescheduled hlive hfree).setPhase htear ?_
  intro hstarting
  rw [Phase.startingUp_wake, hstart] at hstarting
  cases hstarting

theorem Tidy.effect {current : Bool} {x' : SourceEntry} {a : EntryAction} (h : x.Tidy)
    (hok : x.Orderly current a) (heffect : Effect current x a x') : x'.Tidy := by
  cases heffect with
  | connectRejected hp => exact h.setPhase hp fun hstarting => by cases hstarting
  | idleMissing hp hidle =>
    exact h.accepted (fun _ => rfl) rfl (fun _ _ hk => Or.inl hk) (Or.inl rfl)
  | connectAccepted hp hidle =>
    refine h.accepted (fun _ => rfl) rfl ?_ (Or.inr hok)
    intro run k hk
    obtain rfl := Option.some.inj hk
    exact Or.inr rfl
  | @reportedConnect r hp =>
    have hp' : (x.logout r).phaseOf r = some .reportingConnect := by simpa using hp
    exact (h.logout r).setPhase hp' fun _ => Or.inr (by simp)
  | @reportedOpen r w hp hw =>
    have hp' : (x.disposeWakeup.logout r).phaseOf r = some .reportingOpen := by
      simp [hp, Phase.wake]
    exact (h.disposeWakeup.logout r).setPhase hp' fun _ => Or.inr (by simp)
  | reportedOpenUnset hp hw => exact absurd hw (hok hp)
  | openAccepted hp => exact h.recorded (fun _ => rfl) (fun _ => rfl) hok.1 hok.2
  | openFailed hp => exact h.setPhase hp fun _ => Or.inl rfl
  | drained hp hmove =>
    exact h.modifyRun hp (fun _ => rfl) (fun _ => rfl) (fun _ => rfl) fun hstarting => by cases hstarting
  | gaveUp hp ha hlive =>
    rcases ha with ⟨rfl, rfl⟩ | ⟨⟨c, l, rfl⟩, rfl⟩
    · exact h.gaveUp hp rfl hlive.1 (hok hlive)
    · exact h.gaveUp hp rfl hlive.1 ((hok _ hp).1 rfl hlive)
  | gaveUpDead hp ha hdead =>
    refine h.setPhase hp ?_
    rcases ha with ⟨rfl, _⟩ | ⟨⟨c, l, rfl⟩, _⟩ <;> exact fun hstarting => by cases hstarting
  | setUp hp => exact h.setPhase hp fun hstarting => by cases hstarting
  | loopLeft hp hloop =>
    refine h.setPhase hp ?_
    rcases hloop with rfl | ⟨c, rfl⟩ <;> exact fun hstarting => by cases hstarting
  | @loopEntered r w c p k hp hloop hlive hw hc hk =>
    have hfree : x.PollFree := by
      rcases hloop with rfl | ⟨c, rfl⟩
      · exact (hok _ hp).2 rfl hlive
      · exact (hok _ hp).2 rfl hlive
    have hp' : (x.updateWakeup w (fun _ => (k.next r).1) false).phaseOf r = some p := by
      simp [hp]
    refine (h.loopEntered hk hw hlive.1 hfree).setPhase hp' ?_
    rcases hloop with rfl | ⟨c, rfl⟩ <;> exact fun hstarting => by cases hstarting
  | wokenDead hp hdead => exact h.setPhase hp fun hstarting => by cases hstarting
  | wokenLive hp hlive hc => exact h.setPhase hp fun hstarting => by cases hstarting
  | notified hk => exact h.notified hk
  | pollTimer hk ht => exact h.pollTimer hk ht
  | connectionLost hy hwired hlive hset =>
    have hfree := hok hlive hset
    rcases hy with rfl | rfl
    · exact h.rescheduled hlive.1 hfree
    · exact (h.logout _).rescheduled hlive.1 hfree
  | connectionIgnored hy hwired hidle =>
    rcases hy with rfl | rfl
    · exact h
    · exact h.logout _
  | reconnected ht hlive => exact (h.elapsed ht).start
  | reconnectedDead ht hdead => exact h.elapsed ht

theorem Tidy.step {current : Bool} {x' : SourceEntry} {a : EntryAction} (h : x.Tidy)
    (hok : x.Orderly current a) (hstep : x.step current a = some x') : x'.Tidy := by
  obtain ⟨n, m, y, heffect, rfl⟩ := step_effect hstep
  have hbefore : { x with failures := n }.Tidy := h.congr rfl rfl rfl rfl rfl rfl rfl rfl
  have hafter := hbefore.effect hok heffect
  exact hafter.congr rfl rfl rfl rfl rfl rfl rfl rfl

end SourceEntry

/-! ## Messages in hand -/

/-- A message was fetched, or is being fetched, and has not been handed to `fire`. -/
def Phase.inHand : Phase → Bool
  | .draining d => d.stage.uncertain
  | _ => false

theorem Phase.inHand_wake (p : Phase) : p.wake.inHand = p.inHand := by
  cases p <;> rfl

namespace Run

/-- The `fire` calls made after the disposal. -/
def lateFires (run : Run) : Nat := run.fired.countP (·.2)

/-- Those, and the one that is still to come. -/
def handled (run : Run) : Nat := run.lateFires + if run.phase.inHand then 1 else 0

/-- The run fetches and fires nothing. -/
structure Keeps (run run' : Run) : Prop where
  fetched : run'.fetched = run.fetched
  fired : run'.fired = run.fired
  inHand : run'.phase.inHand = true → run.phase.inHand = true

theorem Keeps.refl (run : Run) : run.Keeps run := ⟨rfl, rfl, id⟩

theorem Keeps.trans {a b c : Run} (h : a.Keeps b) (h' : b.Keeps c) : a.Keeps c :=
  ⟨h'.fetched.trans h.fetched, h'.fired.trans h.fired, fun hc => h.inHand (h'.inHand hc)⟩

theorem Keeps.lateFires {run run' : Run} (h : run.Keeps run') : run'.lateFires = run.lateFires := by
  unfold Run.lateFires
  rw [h.fired]

theorem Keeps.handled_le {run run' : Run} (h : run.Keeps run') : run'.handled ≤ run.handled := by
  unfold handled
  rw [h.lateFires]
  cases hrun : run'.phase.inHand with
  | false => simp
  | true => simp [h.inHand hrun]

end Run

/-- The runs stay, and none of them fetches or fires. -/
def RunsKeep (l l' : List Run) : Prop :=
  l'.length = l.length ∧ ∀ (i : Nat) (run run' : Run), l[i]? = some run → l'[i]? = some run' → run.Keeps run'

theorem RunsKeep.refl (l : List Run) : RunsKeep l l := by
  refine ⟨rfl, ?_⟩
  intro i run run' hrun hrun'
  obtain rfl : run = run' := Option.some.inj (hrun.symm.trans hrun')
  exact Run.Keeps.refl run

theorem RunsKeep.trans {l m n : List Run} (h : RunsKeep l m) (h' : RunsKeep m n) : RunsKeep l n := by
  refine ⟨h'.1.trans h.1, ?_⟩
  intro i run run' hrun hrun'
  have hlt : i < m.length := by
    rw [h.1]
    exact lt_of_getElem?_eq_some hrun
  have hmid : m[i]? = some m[i] := List.getElem?_eq_getElem hlt
  exact (h.2 i run _ hrun hmid).trans (h'.2 i _ run' hmid hrun')

theorem RunsKeep.mem {l l' : List Run} (h : RunsKeep l l') {run' : Run} (hrun' : run' ∈ l') :
    ∃ run ∈ l, run.Keeps run' := by
  obtain ⟨i, hi⟩ := List.mem_iff_getElem?.mp hrun'
  have hlt : i < l.length := by
    rw [← h.1]
    exact lt_of_getElem?_eq_some hi
  exact ⟨l[i], List.getElem_mem hlt, h.2 i _ run' (List.getElem?_eq_getElem hlt) hi⟩

namespace SourceEntry
variable {x : SourceEntry}

theorem modifyRun_keeps (r : Nat) {f : Run → Run} (hf : ∀ run : Run, run.Keeps (f run)) :
    RunsKeep x.runs (x.modifyRun r f).runs := by
  refine ⟨by simp [modifyRun], ?_⟩
  intro i run run' hrun hrun'
  rw [runs_modifyRun, hrun] at hrun'
  split at hrun'
  · obtain rfl := Option.some.inj hrun'
    exact hf run
  · obtain rfl := Option.some.inj hrun'
    exact Run.Keeps.refl run

theorem setPhase_keeps (r : Nat) {p : Phase} (hp : p.inHand = false) :
    RunsKeep x.runs (x.setPhase r p).runs := by
  apply modifyRun_keeps
  intro run
  refine ⟨rfl, rfl, ?_⟩
  intro hinHand
  rw [hp] at hinHand
  cases hinHand

theorem logout_keeps (c : Nat) : RunsKeep x.runs (x.logout c).runs :=
  modifyRun_keeps c fun _ => ⟨rfl, rfl, id⟩

theorem updateWakeup_keeps (w : Nat) (f : Wakeup → Wakeup) (resolves : Bool) :
    RunsKeep x.runs (x.updateWakeup w f resolves).runs := by
  refine ⟨by simp [updateWakeup], ?_⟩
  intro i run run' hrun hrun'
  rw [runs_updateWakeup, hrun] at hrun'
  obtain rfl := Option.some.inj hrun'
  refine ⟨rfl, rfl, ?_⟩
  dsimp only
  split
  · rw [Phase.inHand_wake]
    exact id
  · exact id

theorem disposeWakeup_keeps (x : SourceEntry) : RunsKeep x.runs x.disposeWakeup.runs := by
  unfold disposeWakeup
  split
  · exact RunsKeep.refl _
  · exact updateWakeup_keeps _ _ _

theorem teardownConnection_keeps (x : SourceEntry) : RunsKeep x.runs x.teardownConnection.runs := by
  refine x.disposeWakeup_keeps.trans ?_
  unfold teardownConnection dropClient
  split
  · exact RunsKeep.refl _
  · exact logout_keeps _

theorem disposeEntry_keeps (x : SourceEntry) : RunsKeep x.runs x.disposeEntry.runs := by
  rw [disposeEntry_eq, ← x.runs_disposing]
  exact x.disposing.teardownConnection_keeps

def lateFires (x : SourceEntry) : Nat := (x.runs.map Run.lateFires).sum

def handled (x : SourceEntry) : Nat := (x.runs.map Run.handled).sum

/-- At most one run has a message in hand. -/
def OneInHand (x : SourceEntry) : Prop := x.runs.countP (·.phase.inHand) ≤ 1

/-- Nothing is fetched after the disposal, and what is fired or still in hand is one message. -/
structure Dispatched (x : SourceEntry) : Prop where
  fetched : ∀ run ∈ x.runs, ∀ f ∈ run.fetched, f.2 = false
  live : x.disposed = false → ∀ run ∈ x.runs, run.lateFires = 0
  late : x.disposed = true → x.handled ≤ 1

theorem lateFires_le_handled (x : SourceEntry) : x.lateFires ≤ x.handled := by
  refine sum_map_le_of_getElem? _ _ rfl ?_
  intro i run run' hrun hrun'
  obtain rfl : run = run' := Option.some.inj (hrun.symm.trans hrun')
  exact Nat.le_add_right _ _

theorem handled_le_of_keeps {x' : SourceEntry} (h : RunsKeep x.runs x'.runs) : x'.handled ≤ x.handled :=
  sum_map_le_of_getElem? _ _ h.1 fun i run run' hrun hrun' => (h.2 i run run' hrun hrun').handled_le

theorem Dispatched.keeps {x' : SourceEntry} (h : x.Dispatched) (hkeeps : RunsKeep x.runs x'.runs)
    (hdisposed : x'.disposed = x.disposed) : x'.Dispatched := by
  constructor
  · intro run' hrun'
    obtain ⟨run, hrun, hkeep⟩ := hkeeps.mem hrun'
    rw [hkeep.fetched]
    exact h.fetched run hrun
  · intro hlive run' hrun'
    obtain ⟨run, hrun, hkeep⟩ := hkeeps.mem hrun'
    rw [hkeep.lateFires]
    exact h.live (hdisposed.symm.trans hlive) run hrun
  · intro hlate
    have hle := handled_le_of_keeps hkeeps
    have hone := h.late (hdisposed.symm.trans hlate)
    omega

theorem Dispatched.disposed (h : x.Dispatched) (hone : x.OneInHand) : x.disposeEntry.Dispatched := by
  have hkeeps := x.disposeEntry_keeps
  constructor
  · intro run' hrun'
    obtain ⟨run, hrun, hkeep⟩ := hkeeps.mem hrun'
    rw [hkeep.fetched]
    exact h.fetched run hrun
  · intro hlive
    rw [disposed_disposeEntry] at hlive
    cases hlive
  · intro _
    have hle := handled_le_of_keeps hkeeps
    cases hdisposed : x.disposed with
    | true =>
      have hlate := h.late hdisposed
      omega
    | false =>
      have hhandled : x.handled = x.runs.countP (·.phase.inHand) := by
        have hzero : ∀ run ∈ x.runs, run.handled = if run.phase.inHand then 1 else 0 := by
          intro run hrun
          unfold Run.handled
          rw [h.live hdisposed run hrun, Nat.zero_add]
        unfold handled
        rw [List.map_congr_left hzero, sum_map_ite]
      unfold OneInHand at hone
      omega

theorem Dispatched.start (h : x.Dispatched) : x.started.Dispatched := by
  have hmem : ∀ run ∈ x.started.runs, run ∈ x.runs ∨ run = Run.create := by
    intro run hrun
    simpa [started] using hrun
  constructor
  · intro run hrun
    rcases hmem run hrun with hold | rfl
    · exact h.fetched run hold
    · intro f hf
      cases hf
  · intro hlive run hrun
    rcases hmem run hrun with hold | rfl
    · exact h.live hlive run hold
    · rfl
  · intro hlate
    have hsame : x.started.handled = x.handled := by
      simp [handled, started, Run.handled, Run.lateFires, Run.create, Phase.inHand]
    rw [hsame]
    exact h.late hlate

theorem dispatched_create (owner repo : String) (d : Descriptor) :
    ((create owner repo d).runEntry true).Dispatched := by
  have hempty : (create owner repo d).Dispatched := by
    refine ⟨?_, ?_, ?_⟩
    · intro run hrun
      cases hrun
    · intro _ run hrun
      cases hrun
    · intro hdisposed
      cases hdisposed
  exact hempty.start

theorem DrainMove.handled_le {d : Drain} {p : Phase} {fetched fired : List (Nat × Bool)} {run : Run}
    (hmove : DrainMove x d p fetched fired) (hdisposed : x.disposed = true) (hphase : run.phase = .draining d) :
    (drainUpdate p fetched fired run).handled ≤ run.handled := by
  have hbefore : run.handled = run.lateFires + if d.stage.uncertain then 1 else 0 := by
    unfold Run.handled
    rw [hphase]
    rfl
  rw [hbefore]
  rcases hmove.fires with rfl | ⟨uid, rfl, hd, d', rfl, hd'⟩
  · have hlate : (drainUpdate p fetched [] run).lateFires = run.lateFires := by
      simp [Run.lateFires, drainUpdate]
    have hp : p.inHand = true → d.stage.uncertain = true := by
      intro hp
      rcases hmove.target with ⟨d', rfl, _, _, hkeep⟩ | ⟨failed, rfl⟩
      · exact hkeep hp hdisposed
      · cases hp
    have hafter : (drainUpdate p fetched [] run).handled = run.lateFires + if p.inHand then 1 else 0 := by
      unfold Run.handled
      rw [hlate]
      rfl
    rw [hafter]
    cases hinHand : p.inHand with
    | false => simp
    | true => simp [hp hinHand]
  · have hlate : (drainUpdate (.draining d') fetched [(uid, x.disposed)] run).lateFires = run.lateFires + 1 := by
      simp [Run.lateFires, drainUpdate, hdisposed]
    unfold Run.handled
    rw [hlate, hd]
    simp [drainUpdate, Phase.inHand, hd']

/-- A drain that goes on fetches only for a live entry, and fires what it had in hand. -/
theorem Dispatched.drained (h : x.Dispatched) {r : Nat} {d : Drain} {p : Phase} {fetched fired : List (Nat × Bool)}
    (hp : x.phaseOf r = some (.draining d)) (hmove : DrainMove x d p fetched fired) :
    (x.modifyRun r (drainUpdate p fetched fired)).Dispatched := by
  have hmem : ∀ run' ∈ (x.modifyRun r (drainUpdate p fetched fired)).runs,
      run' ∈ x.runs ∨ ∃ run ∈ x.runs, run' = drainUpdate p fetched fired run := by
    intro run' hrun'
    obtain ⟨i, hi⟩ := List.mem_iff_getElem?.mp hrun'
    rw [runs_modifyRun] at hi
    split at hi
    · obtain ⟨run, hrun, rfl⟩ := Option.map_eq_some_iff.mp hi
      exact Or.inr ⟨run, List.mem_of_getElem? hrun, rfl⟩
    · exact Or.inl (List.mem_of_getElem? hi)
  constructor
  · intro run' hrun' f hf
    rcases hmem run' hrun' with hold | ⟨run, hrun, rfl⟩
    · exact h.fetched run' hold f hf
    · rcases List.mem_append.mp hf with hf | hf
      · exact h.fetched run hrun f hf
      · rcases hmove.fetches with rfl | ⟨uid, rfl⟩
        · cases hf
        · rw [List.mem_singleton.mp hf]
  · intro hlive run' hrun'
    rw [disposed_modifyRun] at hlive
    rcases hmem run' hrun' with hold | ⟨run, hrun, rfl⟩
    · exact h.live hlive run' hold
    · have hzero := h.live hlive run hrun
      unfold Run.lateFires at hzero ⊢
      simp only [drainUpdate, List.countP_append, hzero]
      rcases hmove.fires with rfl | ⟨uid, rfl, _⟩
      · rfl
      · simp [hlive]
  · intro hlate
    rw [disposed_modifyRun] at hlate
    refine Nat.le_trans ?_ (h.late hlate)
    refine sum_map_le_of_getElem? _ _ (by simp [modifyRun]) ?_
    intro i run run' hrun hrun'
    rw [runs_modifyRun, hrun] at hrun'
    split at hrun'
    · rename_i hi
      subst hi
      obtain rfl := Option.some.inj hrun'
      have hphase : run.phase = .draining d := by
        simpa [phaseOf, hrun] using hp
      exact hmove.handled_le hlate hphase
    · obtain rfl := Option.some.inj hrun'
      exact Nat.le_refl _

theorem Dispatched.setPhase (h : x.Dispatched) (r : Nat) {p : Phase} (hp : p.inHand = false) :
    (x.setPhase r p).Dispatched :=
  h.keeps (setPhase_keeps r hp) rfl

/-- A run that changes on its way to a drain. -/
theorem Dispatched.modified {x' : SourceEntry} {r : Nat} {f : Run → Run} (h : x.Dispatched)
    (hruns : x'.runs = (x.modifyRun r f).runs) (hdisposed : x'.disposed = x.disposed)
    (hf : ∀ run, (f run).fetched = run.fetched ∧ (f run).fired = run.fired ∧ (f run).phase.inHand = false) :
    x'.Dispatched := by
  refine h.keeps ?_ hdisposed
  rw [hruns]
  apply modifyRun_keeps
  intro run
  refine ⟨(hf run).1, (hf run).2.1, ?_⟩
  intro hinHand
  rw [(hf run).2.2] at hinHand
  cases hinHand

theorem Dispatched.rescheduled (h : x.Dispatched) : x.rescheduled.Dispatched :=
  h.keeps x.teardownConnection_keeps x.disposed_teardownConnection

theorem Dispatched.logout (h : x.Dispatched) (c : Nat) : (x.logout c).Dispatched :=
  h.keeps (logout_keeps c) rfl

theorem Dispatched.effect {current : Bool} {x' : SourceEntry} {a : EntryAction} (h : x.Dispatched)
    (heffect : Effect current x a x') : x'.Dispatched := by
  cases heffect with
  | connectRejected hp => exact h.setPhase _ rfl
  | idleMissing hp hidle => exact h.modified rfl rfl fun _ => ⟨rfl, rfl, rfl⟩
  | connectAccepted hp hidle => exact h.modified rfl rfl fun _ => ⟨rfl, rfl, rfl⟩
  | reportedConnect hp => exact (h.logout _).setPhase _ rfl
  | reportedOpen hp hw =>
    have hwakeup := h.keeps x.disposeWakeup_keeps x.disposed_disposeWakeup
    exact (hwakeup.logout _).setPhase _ rfl
  | reportedOpenUnset hp hw => exact h.setPhase _ rfl
  | openAccepted hp => exact h.modified rfl rfl fun _ => ⟨rfl, rfl, rfl⟩
  | openFailed hp => exact h.setPhase _ rfl
  | drained hp hmove => exact h.drained hp hmove
  | gaveUp hp ha hlive => exact h.rescheduled.setPhase _ rfl
  | gaveUpDead hp ha hdead => exact h.setPhase _ rfl
  | setUp hp => exact h.setPhase _ rfl
  | loopLeft hp hloop => exact h.setPhase _ rfl
  | loopEntered hp hloop hlive hw hc hk =>
    refine (h.keeps (updateWakeup_keeps _ _ _) rfl).setPhase _ ?_
    split <;> rfl
  | wokenDead hp hdead => exact h.setPhase _ rfl
  | wokenLive hp hlive hc => exact h.setPhase _ rfl
  | notified hk => exact h.keeps (updateWakeup_keeps _ _ _) rfl
  | pollTimer hk ht => exact h.keeps (updateWakeup_keeps _ _ _) rfl
  | connectionLost hy hwired hlive hset =>
    rcases hy with rfl | rfl
    · exact h.rescheduled
    · exact (h.logout _).rescheduled
  | connectionIgnored hy hwired hidle =>
    rcases hy with rfl | rfl
    · exact h
    · exact h.logout _
  | @reconnected t ht hlive =>
    have helapsed : (x.elapsed t).Dispatched := h.keeps (RunsKeep.refl _) rfl
    exact helapsed.start
  | reconnectedDead ht hdead => exact h.keeps (RunsKeep.refl _) rfl

theorem Dispatched.step {current : Bool} {x' : SourceEntry} {a : EntryAction} (h : x.Dispatched)
    (hstep : x.step current a = some x') : x'.Dispatched := by
  obtain ⟨n, m, y, heffect, rfl⟩ := step_effect hstep
  have hbefore : { x with failures := n }.Dispatched := h.keeps (RunsKeep.refl _) rfl
  exact (hbefore.effect heffect).keeps (RunsKeep.refl _) rfl

/-! ## Runs of the source -/

/-- A disposed entry: no client recorded, none connected but by a run that is about to close it, no
timer armed, nothing fetched since, and at most the message in hand fired since. -/
structure Quiet (x : SourceEntry) : Prop where
  client : x.client = none
  connected : ∀ c, x.isConnected c = true → x.StartsUp c
  reconnect : ∀ t, x.isPending t = false
  poll : ∀ w k, x.wakeupOf w = some k → k.timers = []
  fetched : ∀ run ∈ x.runs, ∀ f ∈ run.fetched, f.2 = false
  fired : x.lateFires ≤ 1

theorem quiet_of_disposed (htidy : x.Tidy) (hdispatched : x.Dispatched) (h : x.disposed = true) : x.Quiet := by
  obtain ⟨hclient, hslot, hpoll⟩ := htidy.closed h
  refine ⟨hclient, ?_, ?_, hpoll, hdispatched.fetched, ?_⟩
  · intro c hc
    rcases htidy.owned c hc with howned | hstarts
    · rw [hclient] at howned
      cases howned
    · exact hstarts
  · intro t
    rw [Bool.eq_false_iff]
    intro ht
    rw [htidy.reconnect t ht] at hslot
    cases hslot
  · exact Nat.le_trans x.lateFires_le_handled (hdispatched.late h)

end SourceEntry

/-- Every step is orderly, and no disposal finds two runs of an entry with a message in hand. -/
def OrderlySteps : ImapSource → SourceAction → Prop :=
  EntryOk (fun current x a => x.Orderly current a) SourceEntry.OneInHand

instance (x : SourceEntry) : Decidable x.OneInHand :=
  inferInstanceAs (Decidable (x.runs.countP (·.phase.inHand) ≤ 1))

instance (s : ImapSource) (a : SourceAction) : Decidable (OrderlySteps s a) :=
  inferInstanceAs (Decidable (EntryOk (fun current x a => x.Orderly current a) SourceEntry.OneInHand s a))

theorem tidy_step {s t : ImapSource} {a : SourceAction}
    (hs : Each (fun _ x => x.Tidy ∧ x.Dispatched) s) (hok : OrderlySteps s a) (h : step s a = some t) :
    Each (fun _ x => x.Tidy ∧ x.Dispatched) t := by
  refine each_step ?_ ?_ ?_ hs hok h
  · intro _ owner repo d
    exact ⟨SourceEntry.tidy_create owner repo d, SourceEntry.dispatched_create owner repo d⟩
  · intro _ _ x hx hone
    exact ⟨hx.1.disposed, hx.2.disposed hone⟩
  · intro _ x a x' hx hok hstep
    exact ⟨hx.1.step hok hstep, hx.2.step hstep⟩

/-- In every state of a run of orderly steps, the disposed entries are quiet. -/
theorem disposed_quiet {as : List SourceAction} {s : ImapSource}
    (h : exec step createImapTriggerSource as = some s)
    (hok : Along step OrderlySteps createImapTriggerSource as) {e : Nat} {x : SourceEntry}
    (hx : s.entries[e]? = some x) (hdisposed : x.disposed = true) : x.Quiet := by
  have hinitial : Each (fun _ x => x.Tidy ∧ x.Dispatched) createImapTriggerSource := by
    intro e x hx
    cases hx
  have hs := exec_invariant_along (fun _ _ _ hs hok => tidy_step hs hok) hinitial hok h
  exact SourceEntry.quiet_of_disposed (hs e x hx).1 (hs e x hx).2 hdisposed

/-- The entry is removed while a message is being parsed. -/
def removedMidDrain : List SourceAction :=
  [.reconfigure "acme" "shop" [inbox],
    .entry 0 (.connected 0 (.accepted true)), .entry 0 (.opened 0 true),
    .entry 0 (.drain 0 (.searched (some [7, 8]))), .entry 0 (.drain 0 (.fetched true)),
    .reconfigure "acme" "shop" [], .entry 0 (.drain 0 (.parsed true)),
    .entry 0 (.drain 0 (.fired (some []))), .entry 0 (.resumed 0), .entry 0 (.resumed 0)]

theorem disposed_quiet_removedMidDrain :
    ∃ s x, exec step createImapTriggerSource removedMidDrain = some s ∧ s.entries[0]? = some x ∧
      x.disposed = true ∧ x.lateFires = 1 ∧ x.Quiet := by
  have hok : Along step OrderlySteps createImapTriggerSource removedMidDrain := by decide
  refine ⟨_, _, rfl, rfl, rfl, rfl, ?_⟩
  exact @disposed_quiet removedMidDrain _ rfl hok 0 _ rfl rfl

/-- The entry is removed while its client connects. -/
def removedWhileConnecting : List SourceAction :=
  [.reconfigure "acme" "shop" [inbox], .reconfigure "acme" "shop" [],
    .entry 0 (.connected 0 (.accepted true)), .entry 0 (.opened 0 true)]

/-- The disposed entry records the client, which stays connected. -/
theorem disposed_entry_records_client :
    ∃ s x, exec step createImapTriggerSource removedWhileConnecting = some s ∧ s.entries[0]? = some x ∧
      x.disposed = true ∧ x.client = some 0 ∧ x.isConnected 0 = true ∧ ¬x.Quiet := by
  refine ⟨_, _, rfl, rfl, rfl, rfl, rfl, ?_⟩
  intro hquiet
  have hclient := hquiet.client
  cases hclient

end WorkflowEngine.Runtime.Imap
