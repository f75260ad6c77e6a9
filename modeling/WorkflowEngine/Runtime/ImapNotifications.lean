import Mathlib.Data.Prod.Lex
import WorkflowEngine.Lib.Behaviour
import WorkflowEngine.Runtime.ImapSteps

/-!
# EXISTS notifications

An `idleWakeup` remembers an EXISTS in a flag, and the main loop of `runEntry` is to
answer it with a drain. While a wakeup listens there is a run at work on its
connection: it still has `next()` ahead and finds the flag, or is blocked in `next()`
and is woken, or is on its way to a drain. That holds as long as no run puts its wakeup
over another one in the slot, where the disposal of the first would no longer find it.
-/

namespace WorkflowEngine.Runtime.Imap

open Lib
set_option autoImplicit false

/-! ## Phases -/

/-- Run `r` works on the connection of wakeup `w`, or on the client that the entry has. -/
def Phase.AtWork (client : Option Nat) (w r : Nat) : Phase → Prop
  | .opening | .reportingOpen => r = w
  | .draining d => client = some d.client
  | .drained c _ _ => client = some c
  | .ready => client ≠ none
  | .woken c => client = some c
  | _ => False

/-- The next `next()` of the run is still to come. -/
def Phase.early : Phase → Bool
  | .draining _ | .drained .. | .ready => true
  | _ => false

def Phase.blocked : Phase → Bool
  | .waiting .. => true
  | _ => false

/-- The run has come back from `next()`. -/
def Phase.awake : Phase → Bool
  | .woken _ => true
  | _ => false

theorem Phase.wake_of_not_blocked {p : Phase} (h : p.blocked = false) {c : Prop} [Decidable c] :
    (if c then p.wake else p) = p := by
  split
  · cases p <;> first | rfl | cases h
  · rfl

def Phase.StartsDrain (p p' : Phase) : Prop := (∃ d, p' = .draining d) ∧ ∀ d, p ≠ .draining d

def triple (a b c : Nat) : ℕ ×ₗ ℕ ×ₗ ℕ := toLex (a, toLex (b, c))

theorem triple_lt {a b c a' b' c' : Nat} :
    triple a b c < triple a' b' c' ↔ a < a' ∨ a = a' ∧ (b < b' ∨ b = b' ∧ c < c') := by
  simp [triple, Prod.Lex.toLex_lt_toLex]

/-- How far a drain is from its end: the search, then the messages, then the report. -/
def DrainStage.rank : DrainStage → ℕ ×ₗ ℕ ×ₗ ℕ
  | .searching => triple 2 0 0
  | .fetching _ rest => triple 1 (rest.length + 1) 3
  | .parsing _ rest => triple 1 (rest.length + 1) 2
  | .firing _ rest => triple 1 (rest.length + 1) 1
  | .disposing _ commands rest => triple 1 rest.length (commands.length + 4)
  | .excepting _ => triple 0 0 4

/-- How far a run at work is from its next drain. -/
def Phase.rank : Phase → ℕ ×ₗ ℕ ×ₗ ℕ
  | .draining d => d.stage.rank
  | .drained .. => triple 0 0 3
  | .opening => triple 0 0 3
  | .ready => triple 0 0 2
  | .reportingOpen => triple 0 0 1
  | _ => triple 0 0 0

theorem Phase.rank_lt_of_early {p : Phase} (h : p.early = true) (c : Nat) : (Phase.woken c).rank < p.rank := by
  cases p with
  | draining d =>
    obtain ⟨client, inLoop, failed, stage⟩ := d
    cases stage <;> exact triple_lt.mpr (by simp)
  | drained c l f => exact triple_lt.mpr (by simp)
  | ready => exact triple_lt.mpr (by simp)
  | _ => cases h

namespace Wakeup

/-- A wakeup of an entry in this mode: only an `idleWakeup` listens, and only a `pollWakeup` has timers. -/
structure Kind (mode : Mode) (k : Wakeup) : Prop where
  made : k.mode = mode
  listens : k.listening = true → mode = .idle
  timerless : mode = .idle → k.timers = []

theorem kind_create (mode : Mode) : Kind mode (create mode) :=
  ⟨rfl, of_decide_eq_true, fun _ => rfl⟩

section Kind
variable {mode : Mode} {k : Wakeup}

theorem Kind.dispose (h : Kind mode k) : Kind mode k.dispose := by
  refine ⟨h.made, ?_, ?_⟩
  · intro hlistening
    cases hlistening
  · intro hidle
    have hnone := h.timerless hidle
    unfold Wakeup.dispose
    cases k.timer <;> simp [hnone]

theorem Kind.notify (h : Kind mode k) : Kind mode k.notify := ⟨h.made, h.listens, h.timerless⟩

theorem Kind.timerFired (h : Kind mode k) (t : Nat) : Kind mode (k.timerFired t) := by
  refine ⟨h.made, h.listens, ?_⟩
  intro hidle
  have hnone := h.timerless hidle
  simp [Wakeup.timerFired, hnone]

/-- A `next()` that comes back at once has used the flag up; one that blocks has not found it. -/
theorem next_of_idle (h : k.mode = .idle) (r : Nat) :
    (k.next r).1 = { k with dirty := false, pendingResolve := if k.dirty then none else some r } ∧
      (k.next r).2 = k.dirty := by
  unfold Wakeup.next
  simp only [h]
  cases hdirty : k.dirty with
  | true => exact ⟨rfl, rfl⟩
  | false => exact ⟨rfl, rfl⟩

theorem next_of_poll (h : k.mode = .poll) (r : Nat) :
    (k.next r).1.mode = .poll ∧ (k.next r).1.listening = k.listening ∧
      (k.next r).1.dirty = k.dirty ∧ (k.next r).1.pendingResolve = some r ∧ (k.next r).2 = false := by
  simp [Wakeup.next, h]

theorem Kind.next (h : Kind mode k) (r : Nat) : Kind mode (k.next r).1 := by
  cases hmode : k.mode with
  | idle =>
    rw [(next_of_idle hmode r).1]
    exact ⟨h.made, h.listens, h.timerless⟩
  | poll =>
    obtain ⟨hmode', hlistening, _⟩ := next_of_poll hmode r
    have hpoll : mode = .poll := h.made.symm.trans hmode
    refine ⟨hmode'.trans hpoll.symm, ?_, ?_⟩
    · rw [hlistening]
      exact h.listens
    · intro hidle
      rw [hpoll] at hidle
      cases hidle

theorem resolver_next {r i : Nat} (h : (k.next r).1.pendingResolve = some i) :
    i = r ∧ (k.next r).2 = false := by
  cases hmode : k.mode with
  | poll =>
    obtain ⟨_, _, _, hpending, hblocks⟩ := next_of_poll hmode r
    rw [hpending] at h
    exact ⟨(Option.some.inj h).symm, hblocks⟩
  | idle =>
    obtain ⟨hnext, hresolved⟩ := next_of_idle hmode r
    rw [hnext] at h
    cases hdirty : k.dirty with
    | true =>
      rw [hdirty] at h
      cases h
    | false =>
      rw [hdirty] at h
      exact ⟨(Option.some.inj h).symm, hresolved.trans hdirty⟩

end Kind

end Wakeup

namespace SourceEntry

/-! ### A drain comes to its end -/

theorem phaseOf_setPhase_self {x : SourceEntry} {r : Nat} {p p' q : Phase} (hp : x.phaseOf r = some p)
    (h : (x.setPhase r p').phaseOf r = some q) : q = p' := by
  rw [phaseOf_setPhase, if_pos rfl, hp] at h
  exact (Option.some.inj h).symm

theorem finishDrain_rank {x : SourceEntry} {r : Nat} {p q : Phase} (d : Drain) (hp : x.phaseOf r = some p)
    (h : (x.finishDrain r d).phaseOf r = some q) : q.rank ≤ triple 0 0 4 := by
  unfold finishDrain at h
  split at h
  · rw [phaseOf_setPhase_self hp h]
    exact (triple_lt.mpr (by simp)).le
  · rw [phaseOf_setPhase_self hp h]
    exact le_refl _

theorem nextUid_rank {x : SourceEntry} {r : Nat} {p q : Phase} (d : Drain) (uids : List Nat)
    (hp : x.phaseOf r = some p) (h : (x.nextUid r d uids).phaseOf r = some q) :
    q.rank ≤ triple 1 uids.length 3 := by
  have hend : triple 0 0 4 ≤ triple 1 uids.length 3 := (triple_lt.mpr (by simp)).le
  cases uids with
  | nil => exact (finishDrain_rank d hp h).trans hend
  | cons uid rest =>
    simp only [nextUid] at h
    split at h
    · exact (finishDrain_rank d hp h).trans hend
    · rw [phaseOf_modifyRun_const (p := .draining { d with stage := .fetching uid rest }) x r r _ fun _ => rfl,
        if_pos rfl, hp] at h
      obtain rfl := Option.some.inj h
      exact le_refl _

theorem applyDispositions_rank {x : SourceEntry} {r uid : Nat} {p q : Phase} (d : Drain) (rest : List Nat)
    (commands : List String) (hp : x.phaseOf r = some p)
    (h : (x.applyDispositions r d uid rest commands).phaseOf r = some q) :
    q.rank ≤ triple 1 rest.length (commands.length + 4) := by
  cases commands with
  | nil =>
    have hnext := nextUid_rank d rest hp h
    exact hnext.trans (triple_lt.mpr (by simp)).le
  | cons command commands =>
    rw [phaseOf_setPhase_self hp h]
    exact le_refl _

theorem drainStep_rank {x x' : SourceEntry} {r : Nat} {d : Drain} {event : DrainEvent} {q : Phase}
    (hp : x.phaseOf r = some (.draining d)) (h : x.drainStep r d d.stage event = some x')
    (hq : x'.phaseOf r = some q) : q.rank < d.stage.rank := by
  unfold drainStep at h
  split at h
  · rename_i hstage
    obtain rfl := Option.some.inj h
    rw [hstage, phaseOf_setPhase_self hp hq]
    exact triple_lt.mpr (by simp)
  · rename_i uids hstage
    obtain rfl := Option.some.inj h
    rw [hstage]
    exact (nextUid_rank d uids hp hq).trans_lt (triple_lt.mpr (by simp))
  · rename_i uid rest hstage
    obtain rfl := Option.some.inj h
    rw [hstage, phaseOf_setPhase_self hp hq]
    exact triple_lt.mpr (by simp)
  · rename_i uid rest hstage
    obtain rfl := Option.some.inj h
    rw [hstage]
    exact (nextUid_rank _ rest hp hq).trans_lt (triple_lt.mpr (by simp))
  · rename_i uid rest hstage
    obtain rfl := Option.some.inj h
    unfold fire at hq
    rw [phaseOf_modifyRun_const (p := .draining { d with stage := .firing uid rest }) x r r _ fun _ => rfl,
      if_pos rfl, hp] at hq
    obtain rfl := Option.some.inj hq
    rw [hstage]
    exact triple_lt.mpr (by simp)
  · rename_i uid rest hstage
    obtain rfl := Option.some.inj h
    rw [hstage]
    exact (nextUid_rank _ rest hp hq).trans_lt (triple_lt.mpr (by simp))
  · rename_i uid rest commands hstage
    obtain rfl := Option.some.inj h
    rw [hstage]
    exact (applyDispositions_rank d rest _ hp hq).trans_lt (triple_lt.mpr (by simp))
  · rename_i uid commands rest hstage
    obtain rfl := Option.some.inj h
    rw [hstage]
    cases commands with
    | nil => exact (nextUid_rank d rest hp hq).trans_lt (triple_lt.mpr (by simp))
    | cons command commands =>
      exact (applyDispositions_rank d rest _ hp hq).trans_lt (triple_lt.mpr (by simp))
  · rename_i hstage
    obtain rfl := Option.some.inj h
    rw [hstage, phaseOf_setPhase_self hp hq]
    exact triple_lt.mpr (by simp)
  · rename_i failed hstage
    obtain rfl := Option.some.inj h
    rw [hstage, phaseOf_setPhase_self hp hq]
    exact triple_lt.mpr (by simp)
  · cases h

/-! ### What a step means to the wakeups -/

def Listening (x : SourceEntry) (w : Nat) : Prop := ∃ k, x.wakeupOf w = some k ∧ k.listening = true

def Dirty (x : SourceEntry) (w : Nat) : Prop := ∃ k, x.wakeupOf w = some k ∧ k.dirty = true

/-- A connection in idle mode is only made for an entry that is served and has no wakeup. -/
def ConnectsFree (current : Bool) (x : SourceEntry) : EntryAction → Prop
  | .connected _ (.accepted true) => x.descriptor.mode = .idle → x.Alive current ∧ x.wakeup = none
  | _ => True

instance (current : Bool) (x : SourceEntry) : (a : EntryAction) → Decidable (x.ConnectsFree current a)
  | .connected _ (.accepted true) => inferInstanceAs (Decidable (_ → _))
  | .connected _ (.accepted false) | .connected _ .rejected | .reported _ | .loggedOut _ | .opened ..
  | .drain .. | .resumed _ | .notified _ | .pollTimer .. | .connectionLost .. | .reconnectTimer _ =>
    isTrue trivial

/-- A run at work comes nearer to its next drain, or starts it. -/
def Advances (current : Bool) (x : SourceEntry) (r : Nat) (p p' : Phase) : Prop :=
  ∀ w, x.Alive current → x.Listening w → x.wakeup = some w → p.AtWork x.client w r →
    p'.AtWork x.client w r ∧ (p.StartsDrain p' ∨ (p'.rank < p.rank ∧ (p'.early = true → p.early = true)))

structure SameSlots (x x' : SourceEntry) : Prop where
  client : x'.client = x.client
  wakeup : x'.wakeup = x.wakeup
  disposed : x'.disposed = x.disposed
  wakeups : ∀ w, x'.wakeupOf w = x.wakeupOf w

/-- The steps of an entry as its wakeups see them: a run moves on elsewhere, connects, opens its mailbox
or calls `next()`, the entry is torn down, or a wakeup is notified. -/
inductive Turn (current : Bool) (x : SourceEntry) (a : Option EntryAction) (x' : SourceEntry) : Prop where
  | stays (hphase : ∀ i, x'.phaseOf i = x.phaseOf i ∨ (x.phaseOf i = none ∧ x'.phaseOf i = some .connecting))
      (hsame : x.SameSlots x')
  | moved {r : Nat} {p p' : Phase} (hp : x.phaseOf r = some p) (hblocked : p.blocked = false)
      (hphase : ∀ i, x'.phaseOf i = if r = i then some p' else x.phaseOf i)
      (hblocked' : p'.blocked = false) (hawake : p'.awake = false) (hsame : x.SameSlots x')
      (hadvances : x.Advances current r p p')
  | connected {r : Nat} {idle : Bool} (ha : a = some (.connected r (.accepted idle)))
      (hidle : ¬(x.descriptor.mode = .idle ∧ idle = false)) (hp : x.phaseOf r = some .connecting)
      (hphase : ∀ i, x'.phaseOf i = if r = i then some .opening else x.phaseOf i)
      (hwakeups : ∀ w, x'.wakeupOf w =
        if w = r then some (Wakeup.create x.descriptor.mode) else x.wakeupOf w)
      (hwakeup : x'.wakeup = some r) (hclient : x'.client = x.client) (hdisposed : x'.disposed = x.disposed)
  | opened {r : Nat} (hp : x.phaseOf r = some .opening)
      (hphase : ∀ i, x'.phaseOf i = if r = i then some (.draining ⟨r, false, [], .searching⟩) else x.phaseOf i)
      (hclient : x'.client = some r) (hwakeup : x'.wakeup = x.wakeup) (hdisposed : x'.disposed = x.disposed)
      (hwakeups : ∀ w, x'.wakeupOf w = x.wakeupOf w)
  | tornDown
      (hphase : ∀ i, x'.phaseOf i = (x.phaseOf i).map (fun p => if x.woken i then p.wake else p) ∨
        ∃ p p', x.phaseOf i = some p ∧ x'.phaseOf i = some p' ∧ p.blocked = false ∧ p'.blocked = false ∧
          p'.awake = false)
      (hwakeups : ∀ w, x'.wakeupOf w =
        if x.wakeup = some w then (x.wakeupOf w).map Wakeup.dispose else x.wakeupOf w)
  | entered {r w c : Nat} {p : Phase} {k : Wakeup} (hp : x.phaseOf r = some p) (hearly : p.early = true)
      (hw : x.wakeup = some w) (hc : x.client = some c) (hk : x.wakeupOf w = some k)
      (hphase : ∀ i, x'.phaseOf i =
        if r = i then some (if (k.next r).2 then .woken c else .waiting w c) else x.phaseOf i)
      (hwakeups : ∀ v, x'.wakeupOf v = if v = w then some (k.next r).1 else x.wakeupOf v)
      (hclient : x'.client = x.client) (hwakeup : x'.wakeup = x.wakeup) (hdisposed : x'.disposed = x.disposed)
  | resolved {w : Nat} {k : Wakeup} {f : Wakeup → Wakeup} (hk : x.wakeupOf w = some k)
      (hf : a = some (.notified w) ∧ f = Wakeup.notify ∨ ∃ t ∈ k.timers, f = (·.timerFired t))
      (hphase : ∀ i, x'.phaseOf i =
        (x.phaseOf i).map fun p => if x.resolver w = some i then p.wake else p)
      (hwakeups : ∀ v, x'.wakeupOf v = if v = w then (x.wakeupOf v).map f else x.wakeupOf v)
      (hclient : x'.client = x.client) (hwakeup : x'.wakeup = x.wakeup) (hdisposed : x'.disposed = x.disposed)

section Turn
variable {current : Bool} {x x' : SourceEntry}

theorem sameSlots_refl (x : SourceEntry) : x.SameSlots x := ⟨rfl, rfl, rfl, fun _ => rfl⟩

theorem sameSlots_logout (x : SourceEntry) (c : Nat) : x.SameSlots (x.logout c) :=
  ⟨rfl, rfl, rfl, x.wakeupOf_logout c⟩

/-- The wakeup in the slot and the client are there for the run that enters the loop. -/
theorem enterLoop_of_alive {w c r : Nat} {k : Wakeup} (hlive : x.Alive current) (hw : x.wakeup = some w)
    (hc : x.client = some c) (hk : x.wakeupOf w = some k) :
    enterLoop current x r = (x.updateWakeup w (fun _ => (k.next r).1) false).setPhase r
      (if (k.next r).2 then .woken c else .waiting w c) := by
  have hk' : x.runs[w]?.bind Run.wakeup = some k := hk
  unfold enterLoop
  rw [alive_iff.mp hlive, hw, hc]
  simp only [hk', Bool.false_eq_true, if_false]

/-- The loop is not left while the entry has a connection. -/
theorem resumed_of_connected {w c r : Nat} {k : Wakeup} {p : Phase} (hlive : x.Alive current)
    (hw : x.wakeup = some w) (hc : x.client = some c) (hk : x.wakeupOf w = some k)
    (hp : x.phaseOf r = some p) (hloop : p = .ready ∨ ∃ c, p = .drained c true false)
    (h : x.step current (.resumed r) = some x') : x'.phaseOf r ≠ some .returned := by
  have hnot : ∀ y : SourceEntry, y.Alive current → y.wakeup = some w → y.client = some c →
      y.wakeupOf w = some k → (enterLoop current y r).phaseOf r ≠ some .returned := by
    intro y hlive hw hc hk hreturned
    rw [enterLoop_of_alive hlive hw hc hk, phaseOf_setPhase, if_pos rfl] at hreturned
    obtain ⟨q, _, hq⟩ := Option.map_eq_some_iff.mp hreturned
    split at hq <;> cases hq
  simp only [step, hp, Option.bind_some] at h
  rcases hloop with rfl | ⟨d, rfl⟩
  · obtain rfl := Option.some.inj h
    exact hnot x hlive hw hc hk
  · obtain rfl := Option.some.inj h
    exact hnot { x with failures := 0 } hlive hw hc hk

theorem sameSlots_setPhase (x : SourceEntry) (r : Nat) (p : Phase) : x.SameSlots (x.setPhase r p) :=
  ⟨rfl, rfl, rfl, fun w => x.wakeupOf_setPhase r w p⟩

theorem SameSlots.trans {x'' : SourceEntry} (h : x.SameSlots x') (h' : x'.SameSlots x'') : x.SameSlots x'' :=
  ⟨h'.client.trans h.client, h'.wakeup.trans h.wakeup, h'.disposed.trans h.disposed,
    fun w => (h'.wakeups w).trans (h.wakeups w)⟩

/-- The phases after one run has changed its own. -/
theorem phaseOf_modifyRun_of_some {r : Nat} {p p' : Phase} {f : Run → Run} (hp : x.phaseOf r = some p)
    (hf : ∀ run, (f run).phase = p') (i : Nat) :
    (x.modifyRun r f).phaseOf i = if r = i then some p' else x.phaseOf i := by
  rw [x.phaseOf_modifyRun_const r i f hf]
  split
  · rename_i hr
    rw [← hr, hp]
    rfl
  · rfl

theorem phaseOf_setPhase_of_some {r : Nat} {p p' : Phase} (hp : x.phaseOf r = some p) (i : Nat) :
    (x.setPhase r p').phaseOf i = if r = i then some p' else x.phaseOf i :=
  phaseOf_modifyRun_of_some (f := fun run => { run with phase := p' }) hp (fun _ => rfl) i

theorem turn_modifyRun {a : Option EntryAction} {r : Nat} {p p' : Phase} {f : Run → Run}
    (hp : x.phaseOf r = some p) (hblocked : p.blocked = false) (hf : ∀ run, (f run).phase = p')
    (hwakeup : ∀ run, (f run).wakeup = run.wakeup) (hblocked' : p'.blocked = false)
    (hawake : p'.awake = false) (hadvances : x.Advances current r p p') :
    Turn current x a (x.modifyRun r f) :=
  .moved hp hblocked (phaseOf_modifyRun_of_some hp hf) hblocked' hawake
    ⟨rfl, rfl, rfl, fun w => x.wakeupOf_modifyRun r w f hwakeup⟩ hadvances

theorem advances_of_idle {r : Nat} {p p' : Phase} (h : ∀ w, ¬p.AtWork x.client w r) :
    x.Advances current r p p' :=
  fun w _ _ _ hwork => absurd hwork (h w)

theorem turn_disposeEntry (a : Option EntryAction) (x : SourceEntry) : Turn current x a x.disposeEntry :=
  .tornDown (fun i => Or.inl (x.phaseOf_disposeEntry i)) x.wakeupOf_disposeEntry

theorem turn_gaveUp {a : Option EntryAction} {r : Nat} {p : Phase} (hp : x.phaseOf r = some p)
    (hblocked : p.blocked = false) : Turn current x a (x.rescheduled.setPhase r .returned) := by
  refine .tornDown ?_ ?_
  · intro i
    have hphase : x.rescheduled.phaseOf i = (x.phaseOf i).map fun p => if x.woken i then p.wake else p :=
      x.phaseOf_teardownConnection i
    by_cases hr : r = i
    · subst hr
      refine Or.inr ⟨p, .returned, hp, ?_, hblocked, rfl, rfl⟩
      rw [phaseOf_setPhase, if_pos rfl, hphase, hp]
      rfl
    · left
      rw [phaseOf_setPhase, if_neg hr]
      exact hphase
  · intro w
    rw [wakeupOf_setPhase]
    exact x.wakeupOf_teardownConnection w

theorem turn_reportedOpen {a : Option EntryAction} {r : Nat} (hp : x.phaseOf r = some .reportingOpen) :
    Turn current x a ((x.disposeWakeup.logout r).setPhase r .loggingOut) := by
  refine .tornDown ?_ ?_
  · intro i
    by_cases hr : r = i
    · subst hr
      refine Or.inr ⟨_, .loggingOut, hp, ?_, rfl, rfl, rfl⟩
      rw [phaseOf_setPhase, if_pos rfl, phaseOf_logout, phaseOf_disposeWakeup, hp]
      rfl
    · left
      rw [phaseOf_setPhase, if_neg hr, phaseOf_logout]
      exact x.phaseOf_disposeWakeup i
  · intro w
    rw [wakeupOf_setPhase, wakeupOf_logout]
    exact x.wakeupOf_disposeWakeup w

theorem DrainMove.advances {r : Nat} {d : Drain} {p : Phase} {fetched fired : List (Nat × Bool)}
    (h : DrainMove x d p fetched fired) (hrank : p.rank < d.stage.rank) :
    x.Advances current r (.draining d) p := by
  intro w _ _ _ hwork
  refine ⟨?_, Or.inr ⟨hrank, fun _ => rfl⟩⟩
  rcases h.target with ⟨d', rfl, hclient, _⟩ | ⟨failed, rfl⟩
  · rw [Phase.AtWork, hclient]
    exact hwork
  · exact hwork

/-- What an effect does not say of a drain step and of the head of the loop. -/
structure Progress (current : Bool) (x : SourceEntry) (a : EntryAction) (x' : SourceEntry) : Prop where
  drains : ∀ r event d p, a = .drain r event → x.phaseOf r = some (.draining d) → x'.phaseOf r = some p →
    p.rank < d.stage.rank
  loops : ∀ r p w c k, a = .resumed r → x.phaseOf r = some p → (p = .ready ∨ ∃ c, p = .drained c true false) →
    x.Alive current → x.wakeup = some w → x.client = some c → x.wakeupOf w = some k →
    x'.phaseOf r ≠ some .returned

theorem step_progress {a : EntryAction} (h : x.step current a = some x') : x.Progress current a x' := by
  constructor
  · intro r event d p ha hp hp'
    subst ha
    simp only [step, hp] at h
    exact drainStep_rank hp h hp'
  · intro r p w c k ha hp hloop hlive hw hc hk
    subst ha
    exact resumed_of_connected hlive hw hc hk hp hloop h

theorem advances_of_left {a : EntryAction} {r : Nat} {p : Phase} (hprogress : x.Progress current a x')
    (ha : a = .resumed r) (hp : x.phaseOf r = some p) (hloop : p = .ready ∨ ∃ c, p = .drained c true false)
    (hreturned : x'.phaseOf r = some .returned) : x.Advances current r p .returned := by
  intro w hlive hlistening hw hwork
  obtain ⟨k, hk, _⟩ := hlistening
  have hclient : x.client ≠ none := by
    rcases hloop with rfl | ⟨c, rfl⟩
    · exact hwork
    · intro hnone
      rw [Phase.AtWork, hnone] at hwork
      cases hwork
  obtain ⟨c, hc⟩ := Option.ne_none_iff_exists'.mp hclient
  exact absurd hreturned (hprogress.loops r p w c k ha hp hloop hlive hw hc hk)

theorem turn_stays {a : Option EntryAction} (hphase : ∀ i, x'.phaseOf i = x.phaseOf i)
    (hsame : x.SameSlots x') : Turn current x a x' :=
  .stays (fun i => Or.inl (hphase i)) hsame

theorem turn_connectAccepted {r : Nat} {idle : Bool} (hp : x.phaseOf r = some .connecting)
    (hidle : ¬(x.descriptor.mode = .idle ∧ idle = false)) :
    Turn current x (some (.connected r (.accepted idle)))
      { x.modifyRun r fun run =>
          { run with
            phase := .opening
            connected := true
            wakeup := some (Wakeup.create x.descriptor.mode) } with
        wakeup := some r } := by
  refine .connected rfl hidle hp (phaseOf_modifyRun_of_some hp fun _ => rfl) ?_ rfl rfl rfl
  intro w
  have hrun := x.runs_modifyRun r w
    fun run => { run with phase := .opening, connected := true, wakeup := some (Wakeup.create x.descriptor.mode) }
  unfold wakeupOf
  rw [hrun]
  split
  · rename_i hr
    subst hr
    obtain ⟨run, hrun', _⟩ := Option.map_eq_some_iff.mp hp
    rw [if_pos rfl, hrun']
    rfl
  · rename_i hr
    rw [if_neg (Ne.symm hr)]

theorem turn_reportedConnect {a : Option EntryAction} {r : Nat} (hp : x.phaseOf r = some .reportingConnect) :
    Turn current x a ((x.logout r).setPhase r .loggingOut) := by
  have hp' : (x.logout r).phaseOf r = some .reportingConnect := (x.phaseOf_logout r r).trans hp
  have hphase : ∀ i, ((x.logout r).setPhase r .loggingOut).phaseOf i = if r = i then some .loggingOut else x.phaseOf i := by
    intro i
    rw [← x.phaseOf_logout r i]
    exact phaseOf_setPhase_of_some hp' i
  exact .moved hp rfl hphase rfl rfl ((x.sameSlots_logout r).trans (sameSlots_setPhase _ r _))
    (advances_of_idle fun _ => id)

theorem turn_loopEntered {a : Option EntryAction} {r w c : Nat} {p : Phase} {k : Wakeup}
    (hp : x.phaseOf r = some p) (hloop : p = .ready ∨ ∃ c, p = .drained c true false)
    (hw : x.wakeup = some w) (hc : x.client = some c) (hk : x.wakeupOf w = some k) :
    Turn current x a ((x.updateWakeup w (fun _ => (k.next r).1) false).setPhase r
      (if (k.next r).2 then .woken c else .waiting w c)) := by
  refine .entered hp ?_ hw hc hk ?_ ?_ rfl rfl rfl
  · rcases hloop with rfl | ⟨c, rfl⟩ <;> rfl
  · intro i
    have hphase : ∀ j, (x.updateWakeup w (fun _ => (k.next r).1) false).phaseOf j = x.phaseOf j := by
      intro j
      simp
    have hp' := (hphase r).trans hp
    rw [← hphase i]
    exact phaseOf_setPhase_of_some hp' i
  · intro v
    rw [wakeupOf_setPhase, wakeupOf_updateWakeup]
    split
    · rename_i hv
      rw [hv, hk]
      rfl
    · rfl

theorem turn_connectionLost {a : Option EntryAction} {c : Nat} {y : SourceEntry} (hy : y = x ∨ y = x.logout c) :
    Turn current x a y.rescheduled := by
  have hsame : y.wakeup = x.wakeup ∧ (∀ i, y.phaseOf i = x.phaseOf i) ∧ ∀ w, y.wakeupOf w = x.wakeupOf w := by
    rcases hy with rfl | rfl
    · exact ⟨rfl, fun _ => rfl, fun _ => rfl⟩
    · exact ⟨rfl, x.phaseOf_logout c, x.wakeupOf_logout c⟩
  obtain ⟨hwakeup, hphase, hwakeups⟩ := hsame
  have hwoken : ∀ i, y.woken i ↔ x.woken i := by
    intro i
    simp only [woken, hwakeup, resolver_eq, hwakeups]
  refine .tornDown ?_ ?_
  · intro i
    have htorn : y.rescheduled.phaseOf i = (y.phaseOf i).map fun p => if y.woken i then p.wake else p :=
      y.phaseOf_teardownConnection i
    left
    rw [htorn, hphase]
    simp only [hwoken]
  · intro w
    have htorn : y.rescheduled.wakeupOf w =
        if y.wakeup = some w then (y.wakeupOf w).map Wakeup.dispose else y.wakeupOf w :=
      y.wakeupOf_teardownConnection w
    rw [htorn, hwakeup, hwakeups]

theorem turn_reconnected {a : Option EntryAction} (t : Nat) : Turn current x a (x.elapsed t).started := by
  refine .stays ?_ ⟨rfl, rfl, rfl, fun w => (x.elapsed t).wakeupOf_started w⟩
  intro i
  have hrun : (x.elapsed t).started.runs[i]? = x.runs[i]? ∨
      (x.runs[i]? = none ∧ (x.elapsed t).started.runs[i]? = some Run.create) :=
    (x.elapsed t).runs_started_cases i
  unfold phaseOf
  rcases hrun with hrun | ⟨hnone, hrun⟩
  · left
    rw [hrun]
  · right
    rw [hnone, hrun]
    exact ⟨rfl, rfl⟩

theorem turn_effect {a : EntryAction} (h : Effect current x a x') (hprogress : x.Progress current a x') :
    Turn current x (some a) x' := by
  cases h with
  | connectRejected hp =>
    exact turn_modifyRun hp rfl (fun _ => rfl) (fun _ => rfl) rfl rfl (advances_of_idle fun _ => id)
  | idleMissing hp hidle =>
    exact turn_modifyRun hp rfl (fun _ => rfl) (fun _ => rfl) rfl rfl (advances_of_idle fun _ => id)
  | connectAccepted hp hidle => exact turn_connectAccepted hp hidle
  | reportedConnect hp => exact turn_reportedConnect hp
  | reportedOpen hp hw => exact turn_reportedOpen hp
  | reportedOpenUnset hp hw =>
    refine turn_modifyRun hp rfl (fun _ => rfl) (fun _ => rfl) rfl rfl ?_
    intro w _ _ hslot
    rw [hw] at hslot
    cases hslot
  | openAccepted hp =>
    exact .opened hp (phaseOf_modifyRun_of_some hp fun _ => rfl) rfl rfl rfl
      (fun w => x.wakeupOf_modifyRun _ w _ fun _ => rfl)
  | openFailed hp =>
    refine turn_modifyRun hp rfl (fun _ => rfl) (fun _ => rfl) rfl rfl ?_
    intro w _ _ _ hwork
    exact ⟨hwork, Or.inr ⟨triple_lt.mpr (by simp), fun h => by cases h⟩⟩
  | @drained r d event p fetched fired hp hmove =>
    have hphase := phaseOf_modifyRun_of_some (f := drainUpdate p fetched fired) hp fun _ => rfl
    have hrank := hprogress.drains r event d p rfl hp (by rw [hphase, if_pos rfl])
    have hquiet : p.blocked = false ∧ p.awake = false := by
      rcases hmove.target with ⟨d', rfl, _⟩ | ⟨failed, rfl⟩ <;> exact ⟨rfl, rfl⟩
    exact turn_modifyRun hp rfl (fun _ => rfl) (fun _ => rfl) hquiet.1 hquiet.2 (hmove.advances hrank)
  | gaveUp hp ha hlive =>
    refine turn_gaveUp hp ?_
    rcases ha with ⟨rfl, _⟩ | ⟨⟨c, l, rfl⟩, _⟩ <;> rfl
  | gaveUpDead hp ha hdead =>
    refine turn_modifyRun hp ?_ (fun _ => rfl) (fun _ => rfl) rfl rfl ?_
    · rcases ha with ⟨rfl, _⟩ | ⟨⟨c, l, rfl⟩, _⟩ <;> rfl
    · intro w hlive
      exact absurd hlive hdead
  | setUp hp =>
    refine turn_modifyRun hp rfl (fun _ => rfl) (fun _ => rfl) rfl rfl ?_
    intro w _ _ _ hwork
    refine ⟨?_, Or.inr ⟨triple_lt.mpr (by simp), fun _ => rfl⟩⟩
    intro hnone
    rw [Phase.AtWork, hnone] at hwork
    cases hwork
  | @loopLeft r p hp hloop =>
    have hreturned : (x.setPhase r .returned).phaseOf r = some .returned := by
      rw [phaseOf_setPhase_of_some hp, if_pos rfl]
    refine turn_modifyRun hp ?_ (fun _ => rfl) (fun _ => rfl) rfl rfl
      (advances_of_left hprogress rfl hp hloop hreturned)
    rcases hloop with rfl | ⟨c, rfl⟩ <;> rfl
  | loopEntered hp hloop hlive hw hc hk => exact turn_loopEntered hp hloop hw hc hk
  | wokenDead hp hdead =>
    refine turn_modifyRun hp rfl (fun _ => rfl) (fun _ => rfl) rfl rfl ?_
    intro w hlive _ _ hwork
    exact absurd ⟨hlive, hwork⟩ hdead
  | wokenLive hp hlive hc =>
    refine turn_modifyRun hp rfl (fun _ => rfl) (fun _ => rfl) rfl rfl ?_
    intro w _ _ _ hwork
    exact ⟨hwork, Or.inl ⟨⟨_, rfl⟩, fun d hd => by cases hd⟩⟩
  | notified hk =>
    refine .resolved hk (Or.inl ⟨rfl, rfl⟩) ?_ (fun v => x.wakeupOf_updateWakeup _ v _ _) rfl rfl rfl
    intro i
    simp
  | @pollTimer w t k hk ht =>
    refine .resolved hk (Or.inr ⟨t, ht, rfl⟩) ?_ (fun v => x.wakeupOf_updateWakeup _ v _ _) rfl rfl rfl
    intro i
    simp
  | connectionLost hy hwired hlive hset => exact turn_connectionLost hy
  | @connectionIgnored c event y hy hwired hidle =>
    rcases hy with rfl | rfl
    · exact turn_stays (fun _ => rfl) (sameSlots_refl _)
    · exact turn_stays (x.phaseOf_logout c) (x.sameSlots_logout c)
  | @reconnected t ht hlive => exact turn_reconnected t
  | reconnectedDead ht hdead => exact turn_stays (fun _ => rfl) ⟨rfl, rfl, rfl, fun _ => rfl⟩

/-- The failure counter is not looked at. -/
theorem Turn.failures {a : Option EntryAction} {n m : Nat}
    (h : Turn current { x with failures := n } a x') : Turn current x a { x' with failures := m } := by
  cases h with
  | stays hphase hsame => exact .stays hphase ⟨hsame.client, hsame.wakeup, hsame.disposed, hsame.wakeups⟩
  | moved hp hblocked hphase hblocked' hawake hsame hadvances =>
    exact .moved hp hblocked hphase hblocked' hawake
      ⟨hsame.client, hsame.wakeup, hsame.disposed, hsame.wakeups⟩ hadvances
  | connected ha hidle hp hphase hwakeups hwakeup hclient hdisposed =>
    exact .connected ha hidle hp hphase hwakeups hwakeup hclient hdisposed
  | opened hp hphase hclient hwakeup hdisposed hwakeups =>
    exact .opened hp hphase hclient hwakeup hdisposed hwakeups
  | tornDown hphase hwakeups => exact .tornDown hphase hwakeups
  | entered hp hearly hw hc hk hphase hwakeups hclient hwakeup hdisposed =>
    exact .entered hp hearly hw hc hk hphase hwakeups hclient hwakeup hdisposed
  | resolved hk hf hphase hwakeups hclient hwakeup hdisposed =>
    exact .resolved hk hf hphase hwakeups hclient hwakeup hdisposed

theorem step_turn {a : EntryAction} (h : x.step current a = some x') : Turn current x (some a) x' := by
  have hprogress := step_progress h
  obtain ⟨n, m, y, heffect, rfl⟩ := step_effect h
  have hprogress' : Progress current { x with failures := n } a y := ⟨hprogress.drains, hprogress.loops⟩
  exact (turn_effect heffect hprogress').failures

end Turn

/-! ### Who waits for what -/

/-- The run in a resolver is blocked in `next()` of that wakeup. -/
structure Waits (x : SourceEntry) : Prop where
  blocked : ∀ w i, x.resolver w = some i → ∃ c, x.phaseOf i = some (.waiting w c)
  kinds : ∀ w k, x.wakeupOf w = some k → k.Kind x.descriptor.mode

section Waits
variable {current : Bool} {x x' : SourceEntry} {a : Option EntryAction}

theorem Waits.mode_of_listening (h : x.Waits) {w : Nat} (hw : x.Listening w) : x.descriptor.mode = .idle := by
  obtain ⟨k, hk, hlistening⟩ := hw
  exact (h.kinds w k hk).listens hlistening

theorem resolver_congr {w : Nat} (h : x'.wakeupOf w = x.wakeupOf w) : x'.resolver w = x.resolver w := by
  rw [resolver_eq, resolver_eq, h]

/-- A run that has changed its phase was not the one in a resolver. -/
theorem Waits.blocked_of_moved (h : x.Waits) {r : Nat} {p p' : Phase} (hp : x.phaseOf r = some p)
    (hblocked : p.blocked = false) (hphase : ∀ i, x'.phaseOf i = if r = i then some p' else x.phaseOf i)
    {w i : Nat} (hres : x.resolver w = some i) : ∃ c, x'.phaseOf i = some (.waiting w c) := by
  obtain ⟨c, hc⟩ := h.blocked w i hres
  refine ⟨c, ?_⟩
  rw [hphase, if_neg]
  · exact hc
  · intro hr
    subst hr
    obtain rfl := Option.some.inj (hp.symm.trans hc)
    cases hblocked

/-- No run waits for two wakeups. -/
theorem Waits.resolver_unique (h : x.Waits) {v w i : Nat} (hv : x.resolver v = some i) (hw : x.resolver w = some i) :
    v = w := by
  obtain ⟨c, hc⟩ := h.blocked v i hv
  obtain ⟨c', hc'⟩ := h.blocked w i hw
  rw [hc] at hc'
  cases hc'
  rfl

theorem Waits.blocked_tornDown (h : x.Waits)
    (hphase : ∀ i, x'.phaseOf i = (x.phaseOf i).map (fun p => if x.woken i then p.wake else p) ∨
      ∃ p p', x.phaseOf i = some p ∧ x'.phaseOf i = some p' ∧ p.blocked = false ∧ p'.blocked = false ∧
        p'.awake = false)
    (hwakeups : ∀ w, x'.wakeupOf w =
      if x.wakeup = some w then (x.wakeupOf w).map Wakeup.dispose else x.wakeupOf w)
    {w i : Nat} (hres : x'.resolver w = some i) : ∃ c, x'.phaseOf i = some (.waiting w c) := by
  have hkept := hwakeups w
  split at hkept
  · rw [resolver_eq, hkept] at hres
    cases hk : x.wakeupOf w with
    | none =>
      rw [hk] at hres
      cases hres
    | some k =>
      rw [hk] at hres
      cases hres
  · rename_i hslot
    rw [resolver_congr hkept] at hres
    obtain ⟨c, hc⟩ := h.blocked w i hres
    refine ⟨c, ?_⟩
    have hnot : ¬x.woken i := by
      rintro ⟨v, hv, hres'⟩
      rw [h.resolver_unique hres' hres] at hv
      exact hslot hv
    rcases hphase i with hwake | ⟨p, p', hp, _, hblocked, _⟩
    · rw [hwake, hc]
      simp [hnot]
    · rw [hc] at hp
      cases hp
      cases hblocked

theorem Waits.blocked_resolved (h : x.Waits) {v : Nat} {k : Wakeup} {f : Wakeup → Wakeup}
    (hk : x.wakeupOf v = some k) (hpending : (f k).pendingResolve = none)
    (hphase : ∀ i, x'.phaseOf i = (x.phaseOf i).map fun p => if x.resolver v = some i then p.wake else p)
    (hwakeups : ∀ u, x'.wakeupOf u = if u = v then (x.wakeupOf u).map f else x.wakeupOf u)
    {w i : Nat} (hres : x'.resolver w = some i) : ∃ c, x'.phaseOf i = some (.waiting w c) := by
  by_cases hw : w = v
  · subst hw
    rw [resolver_eq, hwakeups, if_pos rfl, hk] at hres
    simp [hpending] at hres
  · have hkept := hwakeups w
    rw [if_neg hw] at hkept
    rw [resolver_congr hkept] at hres
    obtain ⟨c, hc⟩ := h.blocked w i hres
    refine ⟨c, ?_⟩
    have hnot : x.resolver v ≠ some i := fun hres' => hw (h.resolver_unique hres hres')
    rw [hphase, hc]
    simp [hnot]

theorem Waits.blocked_turn (h : x.Waits) (hturn : Turn current x a x') {w i : Nat}
    (hres : x'.resolver w = some i) : ∃ c, x'.phaseOf i = some (.waiting w c) := by
  cases hturn with
  | stays hphase hsame =>
    rw [resolver_congr (hsame.wakeups w)] at hres
    obtain ⟨c, hc⟩ := h.blocked w i hres
    refine ⟨c, ?_⟩
    rcases hphase i with hkept | ⟨hnone, _⟩
    · exact hkept.trans hc
    · rw [hnone] at hc
      cases hc
  | moved hp hblocked hphase hblocked' hawake hsame hadvances =>
    rw [resolver_congr (hsame.wakeups w)] at hres
    exact h.blocked_of_moved hp hblocked hphase hres
  | @connected r idle ha hidle hp hphase hwakeups hwakeup hclient hdisposed =>
    by_cases hw : w = r
    · rw [resolver_eq, hwakeups, if_pos hw] at hres
      cases hres
    · have hkept := hwakeups w
      rw [if_neg hw] at hkept
      rw [resolver_congr hkept] at hres
      exact h.blocked_of_moved hp rfl hphase hres
  | opened hp hphase hclient hwakeup hdisposed hwakeups =>
    rw [resolver_congr (hwakeups w)] at hres
    exact h.blocked_of_moved hp rfl hphase hres
  | tornDown hphase hwakeups => exact h.blocked_tornDown hphase hwakeups hres
  | @entered r v c p k hp hearly hv hc hk hphase hwakeups hclient hwakeup hdisposed =>
    have hblocked : p.blocked = false := by
      cases p <;> first | rfl | cases hearly
    by_cases hw : w = v
    · subst hw
      rw [resolver_eq, hwakeups, if_pos rfl] at hres
      obtain ⟨rfl, hnext⟩ := Wakeup.resolver_next hres
      refine ⟨c, ?_⟩
      rw [hphase, if_pos rfl, hnext]
      rfl
    · have hkept := hwakeups w
      rw [if_neg hw] at hkept
      rw [resolver_congr hkept] at hres
      exact h.blocked_of_moved hp hblocked hphase hres
  | @resolved v k f hk hf hphase hwakeups hclient hwakeup hdisposed =>
    have hpending : (f k).pendingResolve = none := by
      rcases hf with ⟨_, rfl⟩ | ⟨t, _, rfl⟩ <;> rfl
    exact h.blocked_resolved hk hpending hphase hwakeups hres

theorem Waits.kinds_turn (h : x.Waits) (hturn : Turn current x a x') {w : Nat} {k : Wakeup}
    (hk : x'.wakeupOf w = some k) : k.Kind x.descriptor.mode := by
  cases hturn with
  | stays hphase hsame =>
    rw [hsame.wakeups] at hk
    exact h.kinds w k hk
  | moved hp hblocked hphase hblocked' hawake hsame hadvances =>
    rw [hsame.wakeups] at hk
    exact h.kinds w k hk
  | connected ha hidle hp hphase hwakeups hwakeup hclient hdisposed =>
    rw [hwakeups] at hk
    split at hk
    · obtain rfl := Option.some.inj hk
      exact Wakeup.kind_create _
    · exact h.kinds w k hk
  | opened hp hphase hclient hwakeup hdisposed hwakeups =>
    rw [hwakeups] at hk
    exact h.kinds w k hk
  | tornDown hphase hwakeups =>
    rw [hwakeups] at hk
    split at hk
    · obtain ⟨k', hk', rfl⟩ := Option.map_eq_some_iff.mp hk
      exact (h.kinds w k' hk').dispose
    · exact h.kinds w k hk
  | @entered r v c p k' hp hearly hv hc hk' hphase hwakeups hclient hwakeup hdisposed =>
    rw [hwakeups] at hk
    split at hk
    · obtain rfl := Option.some.inj hk
      exact (h.kinds v k' hk').next r
    · exact h.kinds w k hk
  | @resolved v k' f hk' hf hphase hwakeups hclient hwakeup hdisposed =>
    rw [hwakeups] at hk
    split at hk
    · obtain ⟨k'', hk'', rfl⟩ := Option.map_eq_some_iff.mp hk
      have hkind := h.kinds w k'' hk''
      rcases hf with ⟨_, rfl⟩ | ⟨t, _, rfl⟩
      · exact hkind.notify
      · exact hkind.timerFired t
    · exact h.kinds w k hk

theorem Waits.turn (h : x.Waits) (hmode : x'.descriptor.mode = x.descriptor.mode)
    (hturn : Turn current x a x') : x'.Waits where
  blocked _ _ hres := h.blocked_turn hturn hres
  kinds w k hk := by
    rw [hmode]
    exact h.kinds_turn hturn hk

end Waits

/-! ### Runs that carry a wakeup -/

/-- The run keeps wakeup `w` served, and answers it where an EXISTS is `due`: it is at work and finds the
flag when it comes to `next()`, or it is the one that the next EXISTS wakes. -/
inductive Carries (x : SourceEntry) (due : Prop) (w r : Nat) : Phase → Prop where
  | working {p : Phase} (hwork : p.AtWork x.client w r) (hflag : p.early = true → due → x.Dirty w) :
      Carries x due w r p
  | blocked {c : Nat} (hdue : ¬due) (hclient : x.client = some c) (hres : x.resolver w = some r) :
      Carries x due w r (.waiting w c)

section Carries
variable {current : Bool} {x x' : SourceEntry} {a : Option EntryAction} {due : Prop} {w r : Nat} {p : Phase}

theorem dirty_congr (h : x'.wakeupOf w = x.wakeupOf w) : x'.Dirty w ↔ x.Dirty w := by
  unfold Dirty
  rw [h]

theorem listening_congr (h : x'.wakeupOf w = x.wakeupOf w) : x'.Listening w ↔ x.Listening w := by
  unfold Listening
  rw [h]

theorem Carries.congr (h : x.Carries due w r p) (hclient : x'.client = x.client)
    (hw : x'.wakeupOf w = x.wakeupOf w) : x'.Carries due w r p := by
  cases h with
  | working hwork hflag =>
    refine .working ?_ ?_
    · rw [hclient]
      exact hwork
    · rw [dirty_congr hw]
      exact hflag
  | blocked hdue hc hres =>
    refine .blocked hdue (hclient.trans hc) ?_
    rw [resolver_congr hw]
    exact hres

/-- Who carries a wakeup with an EXISTS due carries it. -/
theorem Carries.mono (h : x.Carries True w r p) : x.Carries due w r p := by
  cases h with
  | working hwork hflag => exact .working hwork fun hearly _ => hflag hearly trivial
  | blocked hdue => exact absurd trivial hdue

theorem Carries.of_idle (hwork : p.AtWork x.client w r) (hearly : p.early = false) : x.Carries due w r p := by
  refine .working hwork ?_
  intro hnot
  rw [hearly] at hnot
  cases hnot

/-- A carrier after an update that resolves the `next()` of wakeup `v`. -/
theorem Carries.resolved {v : Nat} {k : Wakeup} {f : Wakeup → Wakeup} (hwaits : x.Waits) (hk : x.wakeupOf v = some k)
    (hf : (f k).dirty = true)
    (hphase : ∀ i, x'.phaseOf i = (x.phaseOf i).map fun p => if x.resolver v = some i then p.wake else p)
    (hwakeups : ∀ u, x'.wakeupOf u = if u = v then (x.wakeupOf u).map f else x.wakeupOf u)
    (hclient : x'.client = x.client) (hp : x.phaseOf r = some p) (h : x.Carries due w r p) :
    ∃ p', x'.phaseOf r = some p' ∧ x'.Carries due w r p' ∧ (w = v → x'.Carries True w r p') ∧
      (due → p' = p) := by
  have hdirty : x'.Dirty v := by
    refine ⟨f k, ?_, hf⟩
    rw [hwakeups, if_pos rfl, hk]
    rfl
  have hp' := hphase r
  rw [hp] at hp'
  cases h with
  | working hwork hflag =>
    -- a run at work is not blocked in `next()`
    have hnot : x.resolver v ≠ some r := by
      intro hres
      obtain ⟨c, hc⟩ := hwaits.blocked v r hres
      obtain rfl := Option.some.inj (hp.symm.trans hc)
      exact hwork
    rw [Option.map_some, if_neg hnot] at hp'
    have hwork' : p.AtWork x'.client w r := by
      rw [hclient]
      exact hwork
    refine ⟨p, hp', ?_, ?_, fun _ => rfl⟩
    · refine .working hwork' ?_
      intro hearly hdue
      by_cases hwv : w = v
      · rw [hwv]
        exact hdirty
      · have hkept := hwakeups w
        rw [if_neg hwv] at hkept
        exact (dirty_congr hkept).mpr (hflag hearly hdue)
    · intro hwv
      subst hwv
      exact .working hwork' fun _ _ => hdirty
  | @blocked c hdue hc hres =>
    by_cases hwv : w = v
    · subst hwv
      rw [Option.map_some, if_pos hres] at hp'
      have hwoken : (Phase.woken c).AtWork x'.client w r := hclient.trans hc
      refine ⟨.woken c, hp', ?_, ?_, fun h => absurd h hdue⟩
      · exact .of_idle hwoken rfl
      · intro _
        exact .of_idle hwoken rfl
    · have hnot : x.resolver v ≠ some r := by
        intro hres'
        obtain ⟨c', hc'⟩ := hwaits.blocked v r hres'
        cases Option.some.inj (hp.symm.trans hc')
        exact hwv rfl
      rw [Option.map_some, if_neg hnot] at hp'
      have hkept := hwakeups w
      rw [if_neg hwv] at hkept
      refine ⟨_, hp', (Carries.blocked hdue hc hres).congr hclient hkept, fun h => absurd h hwv, fun _ => rfl⟩

/-- A run of the entry begins a drain. -/
def DrainStarts (x x' : SourceEntry) : Prop :=
  ∃ r p p', x.phaseOf r = some p ∧ x'.phaseOf r = some p' ∧ p.StartsDrain p'

/-- After a step there is a carrier again: the same run where it was, or one nearer to its next drain. -/
def Carried (due : Prop) (w r : Nat) (p : Phase) (x' : SourceEntry) : Prop :=
  ∃ r' p', x'.phaseOf r' = some p' ∧ x'.Carries due w r' p' ∧ (due → (r' = r ∧ p' = p) ∨ p'.rank < p.rank)

theorem carried_of_kept (hp : x'.phaseOf r = some p) (h : x'.Carries due w r p) : Carried due w r p x' :=
  ⟨r, p, hp, h, fun _ => Or.inl ⟨rfl, rfl⟩⟩

theorem carried_of_not_due {r' : Nat} {p' : Phase} (hdue : ¬due) (hp : x'.phaseOf r' = some p')
    (h : x'.Carries due w r' p') : Carried due w r p x' :=
  ⟨r', p', hp, h, fun h => absurd h hdue⟩

/-- The wakeup that a torn down entry had no longer listens. -/
theorem not_listening_of_tornDown (hslot : x.wakeup = some w)
    (hwakeups : x'.wakeupOf w = if x.wakeup = some w then (x.wakeupOf w).map Wakeup.dispose else x.wakeupOf w) :
    ¬x'.Listening w := by
  rintro ⟨k, hk, hlistening⟩
  rw [hwakeups, if_pos hslot] at hk
  obtain ⟨k', _, rfl⟩ := Option.map_eq_some_iff.mp hk
  cases hlistening

/-- A run calls `next()`: it takes the flag along, or is now the one to be woken. -/
theorem carried_of_entered {r₀ c : Nat} {p₀ : Phase} {k : Wakeup} (hwaits : x.Waits) (hlistening : x.Listening w)
    (hp₀ : x.phaseOf r₀ = some p₀) (hearly : p₀.early = true) (hc : x.client = some c)
    (hk : x.wakeupOf w = some k)
    (hphase : ∀ i, x'.phaseOf i = if r₀ = i then some (if (k.next r₀).2 then .woken c else .waiting w c)
      else x.phaseOf i)
    (hwakeup : x'.wakeupOf w = some (k.next r₀).1) (hclient : x'.client = x.client)
    (hp : x.phaseOf r = some p) (h : x.Carries due w r p) : Carried due w r p x' := by
  have hmode : k.mode = .idle := (hwaits.kinds w k hk).made.trans (hwaits.mode_of_listening hlistening)
  obtain ⟨hnext, hresolved⟩ := Wakeup.next_of_idle hmode r₀
  have hp₀' := hphase r₀
  rw [if_pos rfl, hresolved] at hp₀'
  -- a carrier that is not about to call `next()` stays where it is
  have hother : r₀ ≠ r → p.early = false → p.blocked = false → Carried due w r p x' := by
    intro hr hnot hblocked
    have hp' := hphase r
    rw [if_neg hr, hp] at hp'
    refine carried_of_kept hp' ?_
    cases h with
    | working hwork hflag =>
      refine .of_idle ?_ hnot
      rw [hclient]
      exact hwork
    | blocked => cases hblocked
  have hne : p.early = false → r₀ ≠ r := by
    intro hnot hr
    subst hr
    obtain rfl := Option.some.inj (hp.symm.trans hp₀)
    rw [hearly] at hnot
    cases hnot
  cases hdirty : k.dirty with
  | true =>
    rw [hdirty] at hp₀'
    have hwoken : x'.Carries due w r₀ (.woken c) := .of_idle (hclient.trans hc) rfl
    cases hpe : p.early with
    | true => exact ⟨r₀, .woken c, hp₀', hwoken, fun _ => Or.inr (Phase.rank_lt_of_early hpe c)⟩
    | false =>
      cases h with
      | working hwork hflag =>
        refine hother (hne hpe) hpe ?_
        cases p <;> first | rfl | exact hwork.elim
      | blocked hdue => exact carried_of_not_due hdue hp₀' hwoken
  | false =>
    rw [hdirty] at hp₀'
    by_cases hdue : due
    · cases h with
      | working hwork hflag =>
        have hpe : p.early = false := by
          rw [Bool.eq_false_iff]
          intro hpe
          obtain ⟨k', hk', hflagged⟩ := hflag hpe hdue
          cases hk.symm.trans hk'
          rw [hdirty] at hflagged
          cases hflagged
        refine hother (hne hpe) hpe ?_
        cases p <;> first | rfl | exact hwork.elim
      | blocked hnot => exact absurd hdue hnot
    · refine carried_of_not_due hdue hp₀' (.blocked hdue (hclient.trans hc) ?_)
      rw [resolver_eq, hwakeup, hnext, hdirty]
      rfl

/-- One step: while a wakeup listens it stays carried, until a drain starts. -/
theorem Turn.carried (hturn : Turn current x a x') (hwaits : x.Waits)
    (hok : ∀ b ∈ a, x.ConnectsFree current b) (hlive : x.Alive current) (hslot : x.wakeup = some w)
    (hlistening : x.Listening w) (hlistening' : x'.Listening w) (hp : x.phaseOf r = some p)
    (h : x.Carries due w r p) : (due ∧ x.DrainStarts x') ∨ Carried due w r p x' := by
  cases hturn with
  | stays hphase hsame =>
    right
    have hkept := h.congr hsame.client (hsame.wakeups w)
    rcases hphase r with hp' | ⟨hnone, _⟩
    · exact carried_of_kept (hp'.trans hp) hkept
    · rw [hnone] at hp
      cases hp
  | @moved r₀ p₀ p₀' hp₀ hblocked hphase hblocked' hawake hsame hadvances =>
    have hkept := h.congr hsame.client (hsame.wakeups w)
    by_cases hr : r₀ = r
    · subst hr
      obtain rfl := Option.some.inj (hp.symm.trans hp₀)
      have hp' := hphase r₀
      rw [if_pos rfl] at hp'
      cases h with
      | blocked => cases hblocked
      | working hwork hflag =>
        obtain ⟨hwork', hnearer⟩ := hadvances w hlive hlistening hslot hwork
        rw [← hsame.client] at hwork'
        rcases hnearer with hstarts | ⟨hrank, hearly⟩
        · by_cases hdue : due
          · exact Or.inl ⟨hdue, r₀, p, p₀', hp, hp', hstarts⟩
          · exact Or.inr (carried_of_not_due hdue hp' (.working hwork' fun _ h => absurd h hdue))
        · right
          refine ⟨r₀, p₀', hp', .working hwork' ?_, fun _ => Or.inr hrank⟩
          intro hpe hdue
          exact (dirty_congr (hsame.wakeups w)).mpr (hflag (hearly hpe) hdue)
    · right
      have hp' := hphase r
      rw [if_neg hr, hp] at hp'
      exact carried_of_kept hp' hkept
  | @connected r₀ idle ha hidle hp₀ hphase hwakeups hwakeup hclient hdisposed =>
    have hmode := hwaits.mode_of_listening hlistening
    cases idle with
    | false => exact absurd ⟨hmode, rfl⟩ hidle
    | true =>
      obtain ⟨_, hnone⟩ := hok _ ha hmode
      rw [hslot] at hnone
      cases hnone
  | @opened r₀ hp₀ hphase hclient hwakeup hdisposed hwakeups =>
    have hp₀' := hphase r₀
    rw [if_pos rfl] at hp₀'
    by_cases hdue : due
    · exact Or.inl ⟨hdue, r₀, _, _, hp₀, hp₀', ⟨_, rfl⟩, fun d hd => by cases hd⟩
    · exact Or.inr (carried_of_not_due hdue hp₀' (.working hclient fun _ h => absurd h hdue))
  | tornDown hphase hwakeups => exact absurd hlistening' (not_listening_of_tornDown hslot (hwakeups w))
  | @entered r₀ v c p₀ k hp₀ hearly hv hc hk hphase hwakeups hclient hwakeup hdisposed =>
    obtain rfl : v = w := Option.some.inj (hv.symm.trans hslot)
    have hnext := hwakeups v
    rw [if_pos rfl] at hnext
    exact Or.inr (carried_of_entered hwaits hlistening hp₀ hearly hc hk hphase hnext hclient hp h)
  | @resolved v k f hk hf hphase hwakeups hclient hwakeup hdisposed =>
    rcases hf with ⟨_, rfl⟩ | ⟨t, ht, rfl⟩
    · obtain ⟨p', hp', hcarries, _, hsame⟩ := h.resolved hwaits hk rfl hphase hwakeups hclient hp
      exact Or.inr ⟨r, p', hp', hcarries, fun hdue => Or.inl ⟨rfl, hsame hdue⟩⟩
    · rw [(hwaits.kinds v k hk).timerless (hwaits.mode_of_listening hlistening)] at ht
      cases ht

end Carries

/-! ### The invariant -/

/-- A wakeup that listens stands in the slot of an entry that is served, and some run carries it. -/
structure Attended (current : Bool) (x : SourceEntry) : Prop where
  waits : x.Waits
  served : ∀ w, x.Listening w →
    x.wakeup = some w ∧ x.Alive current ∧ ∃ r p, x.phaseOf r = some p ∧ x.Carries False w r p

section Attended
variable {current : Bool} {x x' : SourceEntry} {a : Option EntryAction} {w : Nat}

theorem alive_congr (h : x'.disposed = x.disposed) : x'.Alive current ↔ x.Alive current := by
  unfold Alive
  rw [h]

/-- A step neither moves a wakeup that listens out of its slot nor makes it listen again; the wakeup of
a new connection is the only one to come. -/
theorem Turn.listening (hturn : Turn current x a x') (hwaits : x.Waits)
    (hok : ∀ b ∈ a, x.ConnectsFree current b)
    (hserved : x.Listening w → x.wakeup = some w ∧ x.Alive current) (h : x'.Listening w) :
    x'.wakeup = some w ∧ x'.Alive current ∧
      (x.Listening w ∨ (x'.phaseOf w = some .opening ∧ ¬x.Listening w)) := by
  have hkept : x'.wakeup = x.wakeup → x'.disposed = x.disposed → x.Listening w →
      x'.wakeup = some w ∧ x'.Alive current ∧
        (x.Listening w ∨ (x'.phaseOf w = some .opening ∧ ¬x.Listening w)) := by
    intro hwakeup hdisposed hlistening
    obtain ⟨hslot, hlive⟩ := hserved hlistening
    exact ⟨hwakeup.trans hslot, (alive_congr hdisposed).mpr hlive, Or.inl hlistening⟩
  cases hturn with
  | stays hphase hsame =>
    exact hkept hsame.wakeup hsame.disposed ((listening_congr (hsame.wakeups w)).mp h)
  | moved hp hblocked hphase hblocked' hawake hsame hadvances =>
    exact hkept hsame.wakeup hsame.disposed ((listening_congr (hsame.wakeups w)).mp h)
  | @connected r idle ha hidle hp hphase hwakeups hwakeup hclient hdisposed =>
    have hmode : x.descriptor.mode = .idle := by
      obtain ⟨k, hk, hlistening⟩ := h
      rw [hwakeups] at hk
      split at hk
      · obtain rfl := Option.some.inj hk
        exact (Wakeup.kind_create _).listens hlistening
      · exact hwaits.mode_of_listening ⟨k, hk, hlistening⟩
    have hfree : x.Alive current ∧ x.wakeup = none := by
      cases idle with
      | false => exact absurd ⟨hmode, rfl⟩ hidle
      | true => exact hok _ ha hmode
    have hnot : ¬x.Listening w := by
      intro hlistening
      obtain ⟨hslot, _⟩ := hserved hlistening
      rw [hfree.2] at hslot
      cases hslot
    have hwr : w = r := by
      by_contra hne
      have hsame := hwakeups w
      rw [if_neg hne] at hsame
      exact hnot ((listening_congr hsame).mp h)
    subst hwr
    refine ⟨hwakeup, (alive_congr hdisposed).mpr hfree.1, Or.inr ⟨?_, hnot⟩⟩
    rw [hphase, if_pos rfl]
  | opened hp hphase hclient hwakeup hdisposed hwakeups =>
    exact hkept hwakeup hdisposed ((listening_congr (hwakeups w)).mp h)
  | tornDown hphase hwakeups =>
    by_cases hslot : x.wakeup = some w
    · exact absurd h (not_listening_of_tornDown hslot (hwakeups w))
    · have hsame := hwakeups w
      rw [if_neg hslot] at hsame
      exact absurd (hserved ((listening_congr hsame).mp h)).1 hslot
  | @entered r v c p k hp hearly hv hc hk hphase hwakeups hclient hwakeup hdisposed =>
    apply hkept hwakeup hdisposed
    by_cases hwv : w = v
    · subst hwv
      obtain ⟨k', hk', hlistening⟩ := h
      rw [hwakeups, if_pos rfl] at hk'
      obtain rfl := Option.some.inj hk'
      refine ⟨k, hk, ?_⟩
      cases hmode : k.mode with
      | idle =>
        rw [(Wakeup.next_of_idle hmode r).1] at hlistening
        exact hlistening
      | poll => exact (Wakeup.next_of_poll hmode r).2.1.symm.trans hlistening
    · have hsame := hwakeups w
      rw [if_neg hwv] at hsame
      exact (listening_congr hsame).mp h
  | @resolved v k f hk hf hphase hwakeups hclient hwakeup hdisposed =>
    apply hkept hwakeup hdisposed
    by_cases hwv : w = v
    · subst hwv
      obtain ⟨k', hk', hlistening⟩ := h
      rw [hwakeups, if_pos rfl, hk] at hk'
      obtain rfl := Option.some.inj hk'
      refine ⟨k, hk, ?_⟩
      rcases hf with ⟨_, rfl⟩ | ⟨t, _, rfl⟩ <;> exact hlistening
    · have hsame := hwakeups w
      rw [if_neg hwv] at hsame
      exact (listening_congr hsame).mp h

theorem Attended.turn (h : x.Attended current) (hmode : x'.descriptor.mode = x.descriptor.mode)
    (hok : ∀ b ∈ a, x.ConnectsFree current b) (hturn : Turn current x a x') : x'.Attended current := by
  refine ⟨h.waits.turn hmode hturn, ?_⟩
  intro w hlistening'
  have hserved : x.Listening w → x.wakeup = some w ∧ x.Alive current := by
    intro hlistening
    obtain ⟨hslot, hlive, _⟩ := h.served w hlistening
    exact ⟨hslot, hlive⟩
  obtain ⟨hslot', hlive', hlistening | ⟨hopening, _⟩⟩ := hturn.listening h.waits hok hserved hlistening'
  · refine ⟨hslot', hlive', ?_⟩
    obtain ⟨hslot, hlive, r, p, hp, hcarries⟩ := h.served w hlistening
    rcases hturn.carried h.waits hok hlive hslot hlistening hlistening' hp hcarries with hdrain | hcarried
    · exact hdrain.1.elim
    · obtain ⟨r', p', hp', hcarries', _⟩ := hcarried
      exact ⟨r', p', hp', hcarries'⟩
  · exact ⟨hslot', hlive', w, .opening, hopening, .of_idle rfl rfl⟩

theorem descriptor_of_identity (h : x'.identity = x.identity) : x'.descriptor = x.descriptor :=
  congrArg (fun id : String × String × Descriptor => id.2.2) h

theorem descriptor_disposeEntry (x : SourceEntry) : x.disposeEntry.descriptor = x.descriptor := by
  rw [disposeEntry_eq, descriptor_of_identity x.disposing.identity_teardownConnection]
  unfold disposing
  split <;> rfl

theorem Waits.disposed (h : x.Waits) : x.disposeEntry.Waits := by
  have hturn : Turn true x none x.disposeEntry := turn_disposeEntry none x
  exact h.turn (congrArg Descriptor.mode x.descriptor_disposeEntry) hturn

/-- No wakeup of a disposed entry listens. -/
theorem Attended.disposed {current' : Bool} (h : x.Attended current) : x.disposeEntry.Attended current' := by
  refine ⟨h.waits.disposed, ?_⟩
  intro w hlistening
  by_cases hslot : x.wakeup = some w
  · exact absurd hlistening (not_listening_of_tornDown hslot (x.wakeupOf_disposeEntry w))
  · have hsame := x.wakeupOf_disposeEntry w
    rw [if_neg hslot] at hsame
    exact absurd (h.served w ((listening_congr hsame).mp hlistening)).1 hslot

theorem wakeupOf_create (owner repo : String) (d : Descriptor) (w : Nat) :
    ((create owner repo d).runEntry true).wakeupOf w = none :=
  (create owner repo d).wakeupOf_started w

theorem waits_create (owner repo : String) (d : Descriptor) : ((create owner repo d).runEntry true).Waits := by
  refine ⟨?_, ?_⟩
  · intro w i hres
    rw [resolver_eq, wakeupOf_create] at hres
    cases hres
  · intro w k hk
    rw [wakeupOf_create] at hk
    cases hk

theorem attended_create (current : Bool) (owner repo : String) (d : Descriptor) :
    ((create owner repo d).runEntry true).Attended current := by
  refine ⟨waits_create owner repo d, ?_⟩
  intro w hlistening
  obtain ⟨k, hk, _⟩ := hlistening
  rw [wakeupOf_create] at hk
  cases hk

theorem descriptor_step {b : EntryAction} (h : x.step current b = some x') : x'.descriptor = x.descriptor :=
  descriptor_of_identity (identity_step h)

theorem Waits.step {b : EntryAction} (h : x.Waits) (hstep : x.step current b = some x') : x'.Waits :=
  h.turn (congrArg Descriptor.mode (descriptor_step hstep)) (step_turn hstep)

theorem Attended.step {b : EntryAction} (h : x.Attended current) (hok : x.ConnectsFree current b)
    (hstep : x.step current b = some x') : x'.Attended current := by
  refine h.turn (congrArg Descriptor.mode (descriptor_step hstep)) ?_ (step_turn hstep)
  intro b' hb'
  obtain rfl := Option.some.inj hb'
  exact hok

end Attended

/-! ### What lets a run out of `next()` -/

/-- Run `i` was blocked in `next()` of wakeup `w` and is let go. -/
def LetGo (x x' : SourceEntry) (w i : Nat) : Prop :=
  (∃ c, x.phaseOf i = some (.waiting w c)) ∧ ∃ c, x'.phaseOf i = some (.woken c)

/-- Run `i` calls `next()` of wakeup `w`, which comes back at once. -/
def ShortCircuits (x x' : SourceEntry) (w i : Nat) : Prop :=
  x.wakeup = some w ∧ (∃ p, x.phaseOf i = some p ∧ p.blocked = false ∧ p.awake = false) ∧
    ∃ c, x'.phaseOf i = some (.woken c)

section LetGo
variable {current : Bool} {x x' : SourceEntry} {a : Option EntryAction} {w i : Nat}

theorem phase_ne {p : Phase} {c : Nat} (hp : x.phaseOf i = some p) (hnot : p.awake = false)
    (h : x.phaseOf i = some (.woken c)) : False := by
  obtain rfl := Option.some.inj (hp.symm.trans h)
  cases hnot

/-- A run that wakes after one run's step was that run, and has woken by that step. -/
theorem awake_of_moved {r c : Nat} {p' q : Phase} (hp' : p'.awake = false)
    (hphase : ∀ i, x'.phaseOf i = if r = i then some p' else x.phaseOf i) (hq : x.phaseOf i = some q)
    (hnot : q.awake = false) (h : x'.phaseOf i = some (.woken c)) : False := by
  rw [hphase] at h
  split at h
  · obtain rfl := Option.some.inj h
    cases hp'
  · exact phase_ne hq hnot h

theorem Turn.letGo (hturn : Turn current x a x') (hwaits : x.Waits) (hidle : x.descriptor.mode = .idle)
    (h : x.LetGo x' w i) : a = some (.notified w) ∨ ¬x'.Listening w := by
  obtain ⟨⟨c, hc⟩, d, hd⟩ := h
  cases hturn with
  | stays hphase hsame =>
    rcases hphase i with hkept | ⟨hnone, _⟩
    · exact (phase_ne hc rfl (hkept.symm.trans hd)).elim
    · rw [hnone] at hc
      cases hc
  | moved hp hblocked hphase hblocked' hawake hsame hadvances =>
    exact (awake_of_moved hawake hphase hc rfl hd).elim
  | connected ha hmissing hp hphase hwakeups hwakeup hclient hdisposed =>
    exact (awake_of_moved rfl hphase hc rfl hd).elim
  | opened hp hphase hclient hwakeup hdisposed hwakeups =>
    exact (awake_of_moved rfl hphase hc rfl hd).elim
  | tornDown hphase hwakeups =>
    right
    rcases hphase i with hwake | ⟨p, p', hp, _, hblocked, _⟩
    · have hwoken : x.woken i := by
        by_contra hnot
        rw [hwake, hc, Option.map_some, if_neg hnot] at hd
        cases hd
      obtain ⟨v, hv, hres⟩ := hwoken
      obtain ⟨c', hc'⟩ := hwaits.blocked v i hres
      cases Option.some.inj (hc.symm.trans hc')
      exact not_listening_of_tornDown hv (hwakeups w)
    · cases Option.some.inj (hc.symm.trans hp)
      cases hblocked
  | @entered r v c' p k hp hearly hv hc' hk hphase hwakeups hclient hwakeup hdisposed =>
    rw [hphase] at hd
    split at hd
    · rename_i hr
      subst hr
      cases Option.some.inj (hc.symm.trans hp)
      cases hearly
    · exact (phase_ne hc rfl hd).elim
  | @resolved v k f hk hf hphase hwakeups hclient hwakeup hdisposed =>
    left
    have hres : x.resolver v = some i := by
      by_contra hnot
      rw [hphase, hc, Option.map_some, if_neg hnot] at hd
      cases hd
    obtain ⟨c', hc'⟩ := hwaits.blocked v i hres
    cases Option.some.inj (hc.symm.trans hc')
    rcases hf with ⟨ha, _⟩ | ⟨t, ht, _⟩
    · exact ha
    · rw [(hwaits.kinds w k hk).timerless hidle] at ht
      cases ht

/-- A short-circuit finds the flag up and takes it down. -/
theorem Turn.shortCircuits (hturn : Turn current x a x') (hwaits : x.Waits) (hidle : x.descriptor.mode = .idle)
    (h : x.ShortCircuits x' w i) : x.Dirty w ∧ ¬x'.Dirty w := by
  obtain ⟨hslot, ⟨q, hq, hblocked, hnot⟩, d, hd⟩ := h
  cases hturn with
  | stays hphase hsame =>
    rcases hphase i with hkept | ⟨hnone, _⟩
    · exact (phase_ne hq hnot (hkept.symm.trans hd)).elim
    · rw [hnone] at hq
      cases hq
  | moved hp hb hphase hb' hawake hsame hadvances => exact (awake_of_moved hawake hphase hq hnot hd).elim
  | connected ha hmissing hp hphase hwakeups hwakeup hclient hdisposed =>
    exact (awake_of_moved rfl hphase hq hnot hd).elim
  | opened hp hphase hclient hwakeup hdisposed hwakeups => exact (awake_of_moved rfl hphase hq hnot hd).elim
  | tornDown hphase hwakeups =>
    rcases hphase i with hwake | ⟨p, p', _, hp', _, _, hawake⟩
    · rw [hwake, hq, Option.map_some, Phase.wake_of_not_blocked hblocked] at hd
      exact (phase_ne hq hnot (hq.trans hd)).elim
    · obtain rfl := Option.some.inj (hp'.symm.trans hd)
      cases hawake
  | @entered r v c p k hp hearly hv hc hk hphase hwakeups hclient hwakeup hdisposed =>
    obtain rfl : v = w := Option.some.inj (hv.symm.trans hslot)
    obtain ⟨hnext, hresolved⟩ := Wakeup.next_of_idle ((hwaits.kinds v k hk).made.trans hidle) r
    have hdirty : k.dirty = true := by
      rw [hphase] at hd
      split at hd
      · rw [hresolved] at hd
        by_contra hclean
        rw [if_neg hclean] at hd
        cases hd
      · exact (phase_ne hq hnot hd).elim
    refine ⟨⟨k, hk, hdirty⟩, ?_⟩
    rintro ⟨k', hk', hdirty'⟩
    rw [hwakeups, if_pos rfl, hnext] at hk'
    obtain rfl := Option.some.inj hk'
    cases hdirty'
  | @resolved v k f hk hf hphase hwakeups hclient hwakeup hdisposed =>
    rw [hphase, hq, Option.map_some, Phase.wake_of_not_blocked hblocked] at hd
    exact (phase_ne hq hnot (hq.trans hd)).elim

/-- Only an EXISTS puts the flag up. -/
theorem Turn.dirty (hturn : Turn current x a x') (hwaits : x.Waits) (hidle : x.descriptor.mode = .idle)
    (h : x'.Dirty w) : a = some (.notified w) ∨ x.Dirty w := by
  cases hturn with
  | stays hphase hsame => exact Or.inr ((dirty_congr (hsame.wakeups w)).mp h)
  | moved hp hblocked hphase hblocked' hawake hsame hadvances =>
    exact Or.inr ((dirty_congr (hsame.wakeups w)).mp h)
  | @connected r idle ha hmissing hp hphase hwakeups hwakeup hclient hdisposed =>
    have hsame := hwakeups w
    split at hsame
    · obtain ⟨k, hk, hdirty⟩ := h
      obtain rfl := Option.some.inj (hsame.symm.trans hk)
      cases hdirty
    · exact Or.inr ((dirty_congr hsame).mp h)
  | opened hp hphase hclient hwakeup hdisposed hwakeups => exact Or.inr ((dirty_congr (hwakeups w)).mp h)
  | tornDown hphase hwakeups =>
    right
    obtain ⟨k, hk, hdirty⟩ := h
    rw [hwakeups] at hk
    split at hk
    · obtain ⟨k', hk', rfl⟩ := Option.map_eq_some_iff.mp hk
      exact ⟨k', hk', hdirty⟩
    · exact ⟨k, hk, hdirty⟩
  | @entered r v c p k hp hearly hv hc hk hphase hwakeups hclient hwakeup hdisposed =>
    have hsame := hwakeups w
    split at hsame
    · obtain ⟨k', hk', hdirty⟩ := h
      rename_i hw
      subst hw
      rw [(Wakeup.next_of_idle ((hwaits.kinds w k hk).made.trans hidle) r).1] at hsame
      obtain rfl := Option.some.inj (hsame.symm.trans hk')
      cases hdirty
    · exact Or.inr ((dirty_congr hsame).mp h)
  | @resolved v k f hk hf hphase hwakeups hclient hwakeup hdisposed =>
    have hsame := hwakeups w
    split at hsame
    · rename_i hw
      subst hw
      rcases hf with ⟨ha, _⟩ | ⟨t, ht, _⟩
      · exact Or.inl ha
      · rw [(hwaits.kinds w k hk).timerless hidle] at ht
        cases ht
    · exact Or.inr ((dirty_congr hsame).mp h)

end LetGo

end SourceEntry

/-! ## The source -/

/-- What an action of the source does on entry `e` itself. -/
def SourceAction.on (e : Nat) : SourceAction → Option EntryAction
  | .entry f a => if f = e then some a else none
  | _ => none

theorem SourceAction.on_eq_some {e : Nat} {a : SourceAction} {b : EntryAction} :
    a.on e = some b ↔ a = .entry e b := by
  cases a with
  | reconfigure owner repo ds => simp [SourceAction.on]
  | stop => simp [SourceAction.on]
  | entry f a' => simp [SourceAction.on]

section Source
variable {s t : ImapSource} {a : SourceAction} {e : Nat} {x : SourceEntry}

theorem turn_of_disposed {current : Bool} {y : SourceEntry} {ids : List Nat} {b : Option EntryAction}
    (h : e ∈ ids ∧ y = x.disposeEntry ∨ e ∉ ids ∧ y = x) :
    y.descriptor = x.descriptor ∧ SourceEntry.Turn current x b y := by
  rcases h with ⟨_, rfl⟩ | ⟨_, rfl⟩
  · exact ⟨x.descriptor_disposeEntry, SourceEntry.turn_disposeEntry b x⟩
  · exact ⟨rfl, SourceEntry.turn_stays (fun _ => rfl) (SourceEntry.sameSlots_refl _)⟩

theorem disposeAll_turn (ids : List Nat) (hx : s.entries[e]? = some x) (current : Bool) (b : Option EntryAction) :
    ∃ y, (s.disposeAll ids).entries[e]? = some y ∧ y.descriptor = x.descriptor ∧
      SourceEntry.Turn current x b y := by
  refine ⟨if e ∈ ids then x.disposeEntry else x, ?_, ?_⟩
  · simp [ImapSource.disposeAll, List.getElem?_mapIdx, hx]
  · apply turn_of_disposed
    by_cases hids : e ∈ ids
    · exact Or.inl ⟨hids, if_pos hids⟩
    · exact Or.inr ⟨hids, if_neg hids⟩

/-- An entry is never lost, and what a step of the source does to it is a turn. -/
theorem step_entry (h : step s a = some t) (hx : s.entries[e]? = some x) :
    ∃ y, t.entries[e]? = some y ∧ y.descriptor = x.descriptor ∧
      SourceEntry.Turn (s.isCurrent e) x (a.on e) y := by
  cases a with
  | stop =>
    obtain rfl := Option.some.inj h
    exact disposeAll_turn _ hx _ _
  | reconfigure owner repo ds =>
    obtain rfl := Option.some.inj h
    obtain ⟨y, hy, hturn⟩ := disposeAll_turn (s.cancelled (.reconfigure owner repo ds)) hx
      (s.isCurrent e) (SourceAction.on e (.reconfigure owner repo ds))
    refine ⟨y, ?_, hturn⟩
    unfold ImapSource.reconfigure
    simp only [cancelPair_eq s owner repo ds]
    split
    · exact hy
    · exact List.getElem?_append_left (lt_of_getElem?_eq_some hy) ▸ hy
  | entry f b =>
    simp only [step] at h
    split at h
    · cases h
    · rename_i z hz
      obtain ⟨z', hstep, rfl⟩ := Option.map_eq_some_iff.mp h
      by_cases hf : f = e
      · subst hf
        obtain rfl := Option.some.inj (hx.symm.trans hz)
        refine ⟨z', entries_set hz z', SourceEntry.descriptor_step hstep, ?_⟩
        rw [SourceAction.on, if_pos rfl]
        exact SourceEntry.step_turn hstep
      · refine ⟨x, ?_, rfl, SourceEntry.turn_stays (fun _ => rfl) (SourceEntry.sameSlots_refl _)⟩
        simpa [List.getElem?_set_ne hf] using hx

theorem entry_before (h : step s a = some t) {y : SourceEntry} (hy : t.entries[e]? = some y) :
    (∃ x, s.entries[e]? = some x) ∨ ∃ owner repo d, y = (SourceEntry.create owner repo d).runEntry true := by
  cases a with
  | stop =>
    obtain rfl := Option.some.inj h
    obtain ⟨x, hx, _⟩ := disposeAll_entries hy
    exact Or.inl ⟨x, hx⟩
  | reconfigure owner repo ds =>
    obtain rfl := Option.some.inj h
    rcases reconfigure_entries hy with ⟨x, hx, _⟩ | hnew
    · exact Or.inl ⟨x, hx⟩
    · exact Or.inr hnew
  | entry f b =>
    simp only [step] at h
    split at h
    · cases h
    · obtain ⟨z', _, rfl⟩ := Option.map_eq_some_iff.mp h
      rcases getElem?_set_cases hy with ⟨rfl, _⟩ | ⟨_, hold⟩
      · exact Or.inl ⟨_, ‹_›⟩
      · exact Or.inl ⟨y, hold⟩

end Source

/-- Every connection in idle mode is made for an entry that is served and has no wakeup. -/
def ConnectsFree : ImapSource → SourceAction → Prop :=
  EntryOk (fun current x a => x.ConnectsFree current a) fun _ => True

instance (s : ImapSource) (a : SourceAction) : Decidable (ConnectsFree s a) :=
  inferInstanceAs (Decidable (EntryOk (fun current x a => x.ConnectsFree current a) (fun _ => True) s a))

def AllAttended : ImapSource → Prop := Each fun current x => x.Attended current

def AllWait : ImapSource → Prop := Each fun _ x => x.Waits

theorem allAttended_step {s t : ImapSource} {a : SourceAction} (hs : AllAttended s) (hok : ConnectsFree s a)
    (h : step s a = some t) : AllAttended t :=
  each_step SourceEntry.attended_create (fun _ _ _ hx _ => hx.disposed)
    (fun _ _ _ _ hx hok hstep => hx.step hok hstep) hs hok h

theorem allWait_step {s t : ImapSource} {a : SourceAction} (hs : AllWait s) (h : step s a = some t) :
    AllWait t := by
  have hok : EntryOk (fun _ _ _ => True) (fun _ => True) s a := by
    cases a with
    | reconfigure owner repo ds => exact fun _ _ _ _ => trivial
    | stop => exact fun _ _ _ _ => trivial
    | entry e b => exact fun _ _ => trivial
  exact each_step (fun _ => SourceEntry.waits_create) (fun _ _ _ hx _ => hx.disposed)
    (fun _ _ _ _ hx _ hstep => hx.step hstep) hs hok h

/-! ## Behaviours of the source -/

section Behaviour
variable (b : Behaviour step)

/-- At this moment a run of the entry begins a drain. -/
def DrainStartsAt (e m : Nat) : Prop :=
  ∃ x x', (b.state m).entries[e]? = some x ∧ (b.state (m + 1)).entries[e]? = some x' ∧ x.DrainStarts x'

def DisposedAt (e w m : Nat) : Prop := ∃ x, (b.state m).entries[e]? = some x ∧ ¬x.Listening w

/-- From here on a run at work on the connection of wakeup `w` stays where it is: what it awaits never
settles. -/
def StandsStillFrom (e w m : Nat) : Prop :=
  ∃ r p, ∀ k, m ≤ k →
    ∃ x, (b.state k).entries[e]? = some x ∧ x.phaseOf r = some p ∧ p.AtWork x.client w r

/-- After every EXISTS a drain starts, unless the wakeup is disposed or an await does not settle. -/
def NoNotificationLost : Prop :=
  ∀ n e w, b.action n = some (.entry e (.notified w)) →
    ∃ m, n < m ∧ (DrainStartsAt b e m ∨ DisposedAt b e w m ∨ StandsStillFrom b e w m)

def ShortCircuitAt (e w m : Nat) : Prop :=
  ∃ x x' i, (b.state m).entries[e]? = some x ∧ (b.state (m + 1)).entries[e]? = some x' ∧
    x.ShortCircuits x' w i

/-- `next()` of an `idleWakeup` only resolves by an EXISTS since the last short-circuit, or by disposal. -/
def ResolvedRightly : Prop :=
  ∀ n e w i x x', (b.state n).entries[e]? = some x → (b.state (n + 1)).entries[e]? = some x' →
    x.descriptor.mode = .idle → x.LetGo x' w i ∨ x.ShortCircuits x' w i →
      (∃ k ≤ n, b.action k = some (.entry e (.notified w)) ∧ ∀ j, k < j → j < n → ¬ShortCircuitAt b e w j) ∨
        DisposedAt b e w (n + 1)

variable {b}

/-- What the action at a moment does on entry `e`. -/
def actionOn (b : Behaviour step) (e n : Nat) : Option EntryAction := (b.action n).bind (·.on e)

theorem actionOn_eq_some {e n : Nat} {a : EntryAction} :
    actionOn b e n = some a ↔ b.action n = some (.entry e a) := by
  unfold actionOn
  rw [Option.bind_eq_some_iff]
  constructor
  · rintro ⟨a', ha', hon⟩
    rw [ha', SourceAction.on_eq_some.mp hon]
  · intro ha
    exact ⟨_, ha, SourceAction.on_eq_some.mpr rfl⟩

theorem entry_turn {n e : Nat} {x : SourceEntry} (hx : (b.state n).entries[e]? = some x) :
    ∃ y, (b.state (n + 1)).entries[e]? = some y ∧ y.descriptor = x.descriptor ∧
      SourceEntry.Turn ((b.state n).isCurrent e) x (actionOn b e n) y := by
  unfold actionOn
  cases ha : b.action n with
  | none =>
    rw [b.next_of_none ha]
    exact ⟨x, hx, rfl, SourceEntry.turn_stays (fun _ => rfl) (SourceEntry.sameSlots_refl x)⟩
  | some a => exact step_entry (b.next_of_some ha) hx

theorem entry_turn_of {n e : Nat} {x x' : SourceEntry} (hx : (b.state n).entries[e]? = some x)
    (hx' : (b.state (n + 1)).entries[e]? = some x') :
    x'.descriptor = x.descriptor ∧ SourceEntry.Turn ((b.state n).isCurrent e) x (actionOn b e n) x' := by
  obtain ⟨y, hy, hturn⟩ := entry_turn hx
  obtain rfl := Option.some.inj (hx'.symm.trans hy)
  exact hturn

theorem allWait_state (hstart : b.state 0 = createImapTriggerSource) (n : Nat) : AllWait (b.state n) := by
  have hkeep : ∀ s a t, AllWait s → True → step s a = some t → AllWait t :=
    fun _ _ _ hs _ h => allWait_step hs h
  refine b.invariant_along hkeep (fun _ _ _ => trivial) ?_ n
  rw [hstart]
  intro e x hx
  cases hx

/-! ### Where a flag comes from -/

/-- A flag that is up was put up by an EXISTS, and no short-circuit has come since. -/
theorem dirty_since (hstart : b.state 0 = createImapTriggerSource) {e w : Nat} (n : Nat) (x : SourceEntry)
    (hx : (b.state n).entries[e]? = some x) (hidle : x.descriptor.mode = .idle) (hdirty : x.Dirty w) :
    ∃ k < n, b.action k = some (.entry e (.notified w)) ∧ ∀ j, k < j → j < n → ¬ShortCircuitAt b e w j := by
  induction n generalizing x with
  | zero =>
    rw [hstart] at hx
    cases hx
  | succ n ih =>
    have hbefore : ∃ y, (b.state n).entries[e]? = some y := by
      cases ha : b.action n with
      | none =>
        rw [b.next_of_none ha] at hx
        exact ⟨x, hx⟩
      | some a =>
        rcases entry_before (b.next_of_some ha) hx with hold | ⟨owner, repo, d, rfl⟩
        · exact hold
        · -- a new entry has no wakeup yet
          obtain ⟨k, hk, _⟩ := hdirty
          rw [SourceEntry.wakeupOf_create] at hk
          cases hk
    obtain ⟨y, hy⟩ := hbefore
    obtain ⟨hdescriptor, hturn⟩ := entry_turn_of hy hx
    rw [hdescriptor] at hidle
    have hwaits := allWait_state hstart n e y hy
    rcases hturn.dirty hwaits hidle hdirty with hnotified | hold
    · refine ⟨n, Nat.lt_succ_self n, actionOn_eq_some.mp hnotified, ?_⟩
      intro j hj hjn
      omega
    · obtain ⟨k, hk, ha, hnone⟩ := ih y hy hidle hold
      refine ⟨k, by omega, ha, ?_⟩
      intro j hkj hj
      by_cases hjn : j < n
      · exact hnone j hkj hjn
      · obtain rfl : j = n := by omega
        rintro ⟨z, z', i, hz, hz', hshort⟩
        obtain rfl := Option.some.inj (hy.symm.trans hz)
        obtain rfl := Option.some.inj (hx.symm.trans hz')
        exact (hturn.shortCircuits hwaits hidle hshort).2 hdirty

theorem resolvedRightly (hstart : b.state 0 = createImapTriggerSource) : ResolvedRightly b := by
  intro n e w i x x' hx hx' hidle hresolves
  obtain ⟨_, hturn⟩ := entry_turn_of hx hx'
  have hwaits := allWait_state hstart n e x hx
  rcases hresolves with hletgo | hshort
  · rcases hturn.letGo hwaits hidle hletgo with hnotified | hdisposed
    · left
      refine ⟨n, Nat.le_refl n, actionOn_eq_some.mp hnotified, ?_⟩
      intro j hj hjn
      omega
    · exact Or.inr ⟨x', hx', hdisposed⟩
  · obtain ⟨hdirty, _⟩ := hturn.shortCircuits hwaits hidle hshort
    obtain ⟨k, hk, ha, hnone⟩ := dirty_since hstart n x hx hidle hdirty
    exact Or.inl ⟨k, by omega, ha, hnone⟩

/-! ### Every notification is answered -/

def ConnectsFreeAll (b : Behaviour step) : Prop := ∀ n a, b.action n = some a → ConnectsFree (b.state n) a

theorem allAttended_state (hstart : b.state 0 = createImapTriggerSource) (hok : ConnectsFreeAll b) (n : Nat) :
    AllAttended (b.state n) := by
  refine b.invariant_along (fun _ _ _ hs hok h => allAttended_step hs hok h) hok ?_ n
  rw [hstart]
  intro e x hx
  cases hx

theorem connectsFree_on (hok : ConnectsFreeAll b) {n e : Nat} {x : SourceEntry}
    (hx : (b.state n).entries[e]? = some x) :
    ∀ a ∈ actionOn b e n, x.ConnectsFree ((b.state n).isCurrent e) a := by
  intro a ha
  have hentry := hok n _ (actionOn_eq_some.mp ha)
  exact hentry x hx

/-- The run that carries a wakeup with an EXISTS due. -/
def CarriesAt (b : Behaviour step) (e w m : Nat) (i : Nat × Phase) : Prop :=
  ∃ x, (b.state m).entries[e]? = some x ∧ x.phaseOf i.1 = some i.2 ∧ x.Carries True w i.1 i.2

theorem notified_carries (hstart : b.state 0 = createImapTriggerSource) (hok : ConnectsFreeAll b) {n e w : Nat}
    (ha : b.action n = some (.entry e (.notified w))) : ∃ i, CarriesAt b e w (n + 1) i := by
  have hstep := b.next_of_some ha
  simp only [step] at hstep
  split at hstep
  · cases hstep
  · rename_i x hx
    obtain ⟨x', hnotified, hnext⟩ := Option.map_eq_some_iff.mp hstep
    have hx' : (b.state (n + 1)).entries[e]? = some x' := by
      rw [← hnext]
      exact entries_set hx x'
    have hattended := allAttended_state hstart hok n e x hx
    simp only [SourceEntry.step] at hnotified
    split at hnotified
    · rename_i k hk
      split at hnotified
      · rename_i hlistening
        obtain rfl := Option.some.inj hnotified
        obtain ⟨_, _, r, p, hp, hcarries⟩ := hattended.served w ⟨k, hk, hlistening⟩
        have hphase : ∀ i, (x.updateWakeup w Wakeup.notify true).phaseOf i =
            (x.phaseOf i).map fun p => if x.resolver w = some i then p.wake else p := by
          intro i
          simp
        obtain ⟨p', hp', _, hdue, _⟩ := hcarries.resolved hattended.waits hk rfl hphase
          (fun u => x.wakeupOf_updateWakeup w u _ _) rfl hp
        exact ⟨(r, p'), _, hx', hp', hdue rfl⟩
      · cases hnotified
    · cases hnotified

theorem noNotificationLost (hstart : b.state 0 = createImapTriggerSource) (hok : ConnectsFreeAll b) :
    NoNotificationLost b := by
  intro n e w ha
  by_contra hlost
  have hnever : ∀ m, n < m → ¬(DrainStartsAt b e m ∨ DisposedAt b e w m ∨ StandsStillFrom b e w m) :=
    fun m hm h => hlost ⟨m, hm, h⟩
  have hlistening : ∀ m x, n < m → (b.state m).entries[e]? = some x → x.Listening w := by
    intro m x hm hx
    by_contra hnot
    exact hnever m hm (Or.inr (Or.inl ⟨x, hx, hnot⟩))
  obtain ⟨i, hi⟩ := notified_carries hstart hok ha
  have hstep : ∀ m, n + 1 ≤ m → ∀ i, CarriesAt b e w m i →
      CarriesAt b e w (m + 1) i ∨ ∃ j, CarriesAt b e w (m + 1) j ∧ j.2.rank < i.2.rank := by
    rintro m hm ⟨r, p⟩ ⟨x, hx, hp, hcarries⟩
    obtain ⟨x', hx', _, hturn⟩ := entry_turn hx
    have hattended := allAttended_state hstart hok m e x hx
    have hl := hlistening m x (by omega) hx
    obtain ⟨hslot, hlive, _⟩ := hattended.served w hl
    rcases hturn.carried hattended.waits (connectsFree_on hok hx) hlive hslot hl
      (hlistening (m + 1) x' (by omega) hx') hp hcarries with ⟨_, hdrain⟩ | hcarried
    · exact absurd (Or.inl ⟨x, x', hx, hx', hdrain⟩) (hnever m (by omega))
    · obtain ⟨r', p', hp', hcarries', hnearer⟩ := hcarried
      rcases hnearer trivial with ⟨rfl, rfl⟩ | hrank
      · exact Or.inl ⟨x', hx', hp', hcarries'⟩
      · exact Or.inr ⟨(r', p'), ⟨x', hx', hp', hcarries'⟩, hrank⟩
  obtain ⟨m, hm, ⟨r, p⟩, hrest⟩ := Behaviour.settles (CarriesAt b e w) (fun i => i.2.rank) hstep hi
  apply hnever m (by omega)
  refine Or.inr (Or.inr ⟨r, p, ?_⟩)
  intro k hk
  obtain ⟨x, hx, hp, hcarries⟩ := hrest k hk
  refine ⟨x, hx, hp, ?_⟩
  cases hcarries with
  | working hwork hflag => exact hwork
  | blocked hdue => exact absurd trivial hdue

/-- In every behaviour of the source `next()` is only resolved by an EXISTS or a disposal; where every
connection is made for an entry without a wakeup, no EXISTS goes without a drain. -/
theorem notifications_answered (b : Behaviour step) (hstart : b.state 0 = createImapTriggerSource) :
    ResolvedRightly b ∧ (ConnectsFreeAll b → NoNotificationLost b) :=
  ⟨resolvedRightly hstart, noNotificationLost hstart⟩

end Behaviour

/-- A mailbox in idle mode. -/
def idleInbox : Descriptor := ⟨"mail", "inbox", .idle, []⟩

/-- A mailbox that waits for mail, and gets some. -/
def mailArrives : List SourceAction :=
  [.reconfigure "acme" "shop" [idleInbox],
    .entry 0 (.connected 0 (.accepted true)), .entry 0 (.opened 0 true),
    .entry 0 (.drain 0 (.searched (some []))), .entry 0 (.resumed 0), .entry 0 (.resumed 0),
    .entry 0 (.notified 0), .entry 0 (.resumed 0)]

theorem notifications_answered_mailArrives :
    ResolvedRightly (Behaviour.ofRun createImapTriggerSource mailArrives rfl) ∧
      NoNotificationLost (Behaviour.ofRun createImapTriggerSource mailArrives rfl) := by
  obtain ⟨hresolved, hanswered⟩ :=
    notifications_answered (Behaviour.ofRun createImapTriggerSource mailArrives rfl) rfl
  refine ⟨hresolved, hanswered ?_⟩
  apply Behaviour.ofRun_ok
  decide

/-- The connection breaks during the drain, which then fails and arms a second reconnect. Each of the two
timers makes a connection, and the wakeup of the second takes the slot of the first. Then mail arrives on
the first. -/
def slotOverwritten : List SourceAction :=
  [.reconfigure "acme" "shop" [idleInbox],
    .entry 0 (.connected 0 (.accepted true)), .entry 0 (.opened 0 true), .entry 0 (.connectionLost 0 .close),
    .entry 0 (.drain 0 (.searched none)), .entry 0 (.drain 0 .excepted), .entry 0 (.resumed 0),
    .entry 0 (.reconnectTimer 0), .entry 0 (.connected 1 (.accepted true)), .entry 0 (.opened 1 true),
    .entry 0 (.drain 1 (.searched (some []))), .entry 0 (.resumed 1), .entry 0 (.resumed 1),
    .entry 0 (.reconnectTimer 1), .entry 0 (.connected 2 (.accepted true)), .entry 0 (.opened 2 true),
    .entry 0 (.drain 2 (.searched (some []))), .entry 0 (.resumed 2), .entry 0 (.resumed 2),
    .entry 0 (.notified 1), .entry 0 (.resumed 1)]

theorem SourceEntry.mem_phases {x : SourceEntry} {r : Nat} {p : Phase} (h : x.phaseOf r = some p) :
    p ∈ x.runs.map Run.phase := by
  apply List.mem_of_getElem? (i := r)
  rw [List.getElem?_map]
  exact h

/-- After the EXISTS of wakeup 1 its run returns and no drain starts; the wakeup still listens, and the
only run left waits for another one. -/
theorem slotOverwritten_loses_notification :
    ¬NoNotificationLost (Behaviour.ofRun createImapTriggerSource slotOverwritten rfl) := by
  intro h
  obtain ⟨s, x, hs, hx, hxl, hxp⟩ : ∃ s x,
      exec step createImapTriggerSource (slotOverwritten.take 20) = some s ∧ s.entries[0]? = some x ∧
        x.Listening 1 ∧ x.runs.map Run.phase = [.returned, .woken 1, .waiting 2 2] :=
    ⟨_, _, rfl, rfl, ⟨_, rfl, rfl⟩, rfl⟩
  obtain ⟨t, y, ht, hy, hyl, hyp⟩ : ∃ t y,
      exec step createImapTriggerSource slotOverwritten = some t ∧ t.entries[0]? = some y ∧
        y.Listening 1 ∧ y.runs.map Run.phase = [.returned, .returned, .waiting 2 2] :=
    ⟨_, _, rfl, rfl, ⟨_, rfl, rfl⟩, rfl⟩
  have hmiddle := Behaviour.ofRun_state hs rfl
  have hend : ∀ k, 21 ≤ k → (Behaviour.ofRun createImapTriggerSource slotOverwritten rfl).state k = t :=
    fun k hk => Behaviour.ofRun_state_of_le ht hk rfl
  obtain ⟨m, hm, ⟨_, x', _, hx', hdrain⟩ | ⟨x', hx', hnot⟩ | ⟨r, p, hrest⟩⟩ := h 19 0 1 rfl
  · rw [hend (m + 1) (by omega)] at hx'
    obtain rfl := Option.some.inj (hy.symm.trans hx')
    obtain ⟨r, _, p, _, hp, ⟨d, rfl⟩, _⟩ := hdrain
    have hmem := SourceEntry.mem_phases hp
    rw [hyp] at hmem
    simp at hmem
  · by_cases hm20 : m = 20
    · subst hm20
      rw [hmiddle] at hx'
      obtain rfl := Option.some.inj (hx.symm.trans hx')
      exact hnot hxl
    · rw [hend m (by omega)] at hx'
      obtain rfl := Option.some.inj (hy.symm.trans hx')
      exact hnot hyl
  · obtain ⟨x', hx', hp, hwork⟩ := hrest (m + 21) (by omega)
    rw [hend (m + 21) (by omega)] at hx'
    obtain rfl := Option.some.inj (hy.symm.trans hx')
    have hmem := SourceEntry.mem_phases hp
    rw [hyp] at hmem
    rcases List.mem_cons.mp hmem with rfl | hmem
    · exact hwork
    · rcases List.mem_pair.mp hmem with rfl | rfl <;> exact hwork

end WorkflowEngine.Runtime.Imap
