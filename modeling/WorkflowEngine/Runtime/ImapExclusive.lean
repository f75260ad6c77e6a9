import WorkflowEngine.Runtime.ImapSteps

/-!
# One loop for each IMAP entry

An entry is to have at most one of a pending reconnect timer and a `runEntry`
call that is connecting or looping. `onConnectionLost` schedules a reconnect
whatever its caller's loop is doing: a run blocked in `next()` is woken by the
teardown and leaves, a run inside `drain` or inside the start-up goes on beside
the timer. The entries are exclusive in every state exactly as long as no
connection is lost while a run is busy.
-/

namespace WorkflowEngine.Runtime.Imap

open Lib
set_option autoImplicit false

inductive Activity where
  | reconnectTimer (t : Nat)
  | run (r : Nat)
  deriving DecidableEq

/-- A run in its start-up, or inside `drain`. -/
def Phase.busy : Phase → Bool
  | .returned | .waiting .. | .woken .. => false
  | _ => true

/-- The client of the run has no listeners yet. -/
def Phase.unwired : Phase → Bool
  | .connecting | .opening => true
  | _ => false

theorem Phase.unwired_wake (p : Phase) : p.wake.unwired = p.unwired := by
  cases p <;> rfl

namespace SourceEntry
variable (current : Bool) (x : SourceEntry)

/-- A run that has not returned. One that `next()` let go returns at once when the entry's client is
no longer its own, so it only counts where it goes on to drain. -/
def live : Phase → Prop
  | .returned => False
  | .woken c => x.Alive current ∧ x.client = some c
  | _ => True

def Active : Activity → Prop
  | .reconnectTimer t => x.isPending t = true
  | .run r => ∃ p, x.phaseOf r = some p ∧ x.live current p

def Exclusive : Prop := ∀ a b, x.Active current a → x.Active current b → a = b

/-- A connection that is lost is not lost under a busy run. -/
def LostIdle : EntryAction → Prop
  | .connectionLost c _ =>
    x.isWired c = true → x.Alive current → ¬(x.client = none ∧ x.wakeup = none) →
      ∀ r p, x.phaseOf r = some p → p.busy = false
  | _ => True

theorem all_idle_iff : (∀ run ∈ x.runs, run.phase.busy = false) ↔
    ∀ r p, x.phaseOf r = some p → p.busy = false := by
  constructor
  · intro h r p hp
    obtain ⟨run, hrun, rfl⟩ := Option.map_eq_some_iff.mp hp
    exact h run (List.mem_of_getElem? hrun)
  · intro h run hrun
    obtain ⟨r, hr⟩ := List.mem_iff_getElem?.mp hrun
    exact h r run.phase (by simp [phaseOf, hr])

instance : (a : EntryAction) → Decidable (x.LostIdle current a)
  | .connectionLost c _ =>
    decidable_of_iff
      (x.isWired c = true → x.Alive current → ¬(x.client = none ∧ x.wakeup = none) →
        ∀ run ∈ x.runs, run.phase.busy = false)
      (by rw [x.all_idle_iff]; exact Iff.rfl)
  | .connected .. | .reported _ | .loggedOut _ | .opened .. | .drain .. | .resumed _ | .notified _
  | .pollTimer .. | .reconnectTimer _ => isTrue trivial

/-- Exclusion, with what a blocked run rests on. -/
structure Settled : Prop where
  exclusive : x.Exclusive current
  torn : ∀ t, x.isPending t = true → x.client = none ∧ x.wakeup = none
  blocked : ∀ r w c, x.phaseOf r = some (.waiting w c) →
    x.wakeup = some w ∧ x.client = some c ∧ x.resolver w = some r
  clientWired : ∀ c, x.client = some c → x.isWired c = true
  wokenWired : ∀ r c, x.phaseOf r = some (.woken c) → x.isWired c = true
  startsUnwired : ∀ r p, x.phaseOf r = some p → p.unwired = true → x.isWired r = false

/-- A run that neither acts nor waits. -/
def Spent (p : Phase) : Prop := p = .returned ∨ ∃ c, p = .woken c ∧ ¬(x.Alive current ∧ x.client = some c)

variable {current x}

theorem spent_of_not_live {p : Phase} (h : ¬x.live current p) : x.Spent current p := by
  cases p with
  | returned => exact Or.inl rfl
  | woken c => exact Or.inr ⟨c, rfl, h⟩
  | _ => exact absurd trivial h

theorem live_of_busy {p : Phase} (h : p.busy = true) : x.live current p := by
  cases p with
  | returned => cases h
  | waiting w c => cases h
  | woken c => cases h
  | _ => trivial

/-- While a run acts, no timer is pending and no other run is more than spent. -/
theorem Settled.alone (h : x.Settled current) {r : Nat} {p : Phase} (hp : x.phaseOf r = some p)
    (hlive : x.live current p) :
    (∀ t, x.isPending t = false) ∧
      ∀ i q, i ≠ r → x.phaseOf i = some q → x.Spent current q := by
  have hr : x.Active current (.run r) := ⟨p, hp, hlive⟩
  constructor
  · intro t
    rw [Bool.eq_false_iff]
    intro ht
    have heq := h.exclusive (.reconnectTimer t) (.run r) ht hr
    cases heq
  · intro i q hi hq
    apply spent_of_not_live
    intro hlive'
    have heq := h.exclusive (.run i) (.run r) ⟨q, hq, hlive'⟩ hr
    exact hi (Activity.run.inj heq)

theorem Spent.wake {p : Phase} (h : x.Spent current p) : p.wake = p := by
  rcases h with rfl | ⟨c, rfl, _⟩ <;> rfl

/-- What the phase a run comes to rests on. -/
def Landed (x : SourceEntry) (r : Nat) : Phase → Prop
  | .waiting w c => x.wakeup = some w ∧ x.client = some c ∧ x.resolver w = some r
  | .woken c => x.client = some c
  | .connecting | .opening => x.isWired r = false
  | _ => True

theorem Landed.unwired {r : Nat} {p : Phase} (h : x.Landed r p) (hp : p.unwired = true) : x.isWired r = false := by
  cases p with
  | connecting => exact h
  | opening => exact h
  | _ => cases hp

theorem Spent.wired {p : Phase} (h : x.Spent current p) : p.unwired = false := by
  rcases h with rfl | ⟨c, rfl, _⟩ <;> rfl

theorem exclusive_of_one_run {r : Nat} (hpending : ∀ t, x.isPending t = false)
    (hrun : ∀ i, x.Active current (.run i) → i = r) : x.Exclusive current := by
  have hall : ∀ a, x.Active current a → a = .run r := by
    intro a ha
    cases a with
    | reconnectTimer t =>
      have ht : x.isPending t = true := ha
      rw [hpending t] at ht
      cases ht
    | run i => rw [hrun i ha]
  intro a b ha hb
  rw [hall a ha, hall b hb]

/-- A step of a run that acts, with no reconnect scheduled. -/
theorem Settled.act {x' : SourceEntry} (h : x.Settled current) {r : Nat} {p p' : Phase}
    (hp : x.phaseOf r = some p) (hlive : x.live current p) (htimers : x'.timers = x.timers)
    (hdisposed : x'.disposed = x.disposed) (hp' : x'.phaseOf r = some p')
    (hothers : ∀ i, i ≠ r → x'.phaseOf i = x.phaseOf i ∨ x'.phaseOf i = (x.phaseOf i).map Phase.wake)
    (hwired : ∀ c, x.isWired c = true → x'.isWired c = true)
    (hclient : ∀ c, x'.client = some c → x'.isWired c = true ∧ (x.client = some c ∨ x.isWired c = false))
    (hlanded : x'.Landed r p') : x'.Settled current := by
  obtain ⟨hpending, hspent⟩ := h.alone hp hlive
  have hpending' : ∀ t, x'.isPending t = false := by
    intro t
    unfold isPending
    rw [htimers]
    exact hpending t
  have hsame : ∀ i, i ≠ r → x'.phaseOf i = x.phaseOf i := by
    intro i hi
    rcases hothers i hi with hi' | hi'
    · exact hi'
    · rw [hi']
      cases hq : x.phaseOf i with
      | none => rfl
      | some q => exact congrArg some (hspent i q hi hq).wake
  have hold : ∀ i q, i ≠ r → x'.phaseOf i = some q → x.Spent current q := by
    intro i q hi hq
    rw [hsame i hi] at hq
    exact hspent i q hi hq
  have hdead : ∀ i, x'.Active current (.run i) → i = r := by
    rintro i ⟨q, hq, hl⟩
    by_contra hi
    rcases hold i q hi hq with rfl | ⟨c, rfl, hnot⟩
    · exact hl
    · rcases (hclient c hl.2).2 with hc | hc
      · refine hnot ⟨?_, hc⟩
        have halive := hl.1
        unfold Alive at halive ⊢
        rw [hdisposed] at halive
        exact halive
      · rw [hsame i hi] at hq
        rw [h.wokenWired i c hq] at hc
        cases hc
  refine ⟨exclusive_of_one_run hpending' hdead, ?_, ?_, fun c hc => (hclient c hc).1, ?_, ?_⟩
  · intro t ht
    rw [hpending' t] at ht
    cases ht
  · intro i w c hi
    by_cases hir : i = r
    · subst hir
      obtain rfl : p' = .waiting w c := Option.some.inj (hp'.symm.trans hi)
      exact hlanded
    · rcases hold i _ hir hi with hq | ⟨_, hq, _⟩ <;> cases hq
  · intro i c hi
    by_cases hir : i = r
    · subst hir
      obtain rfl : p' = .woken c := Option.some.inj (hp'.symm.trans hi)
      exact (hclient c hlanded).1
    · rw [hsame i hir] at hi
      exact hwired c (h.wokenWired i c hi)
  · intro i q hi hunwired
    by_cases hir : i = r
    · subst hir
      obtain rfl : p' = q := Option.some.inj (hp'.symm.trans hi)
      exact hlanded.unwired hunwired
    · rw [(hold i q hir hi).wired] at hunwired
      cases hunwired

/-- A step that lets no run and no timer become active. -/
theorem Exclusive.of_active {x' : SourceEntry} (h : x.Exclusive current)
    (hactive : ∀ a, x'.Active current a → x.Active current a) : x'.Exclusive current :=
  fun a b ha hb => h a b (hactive a ha) (hactive b hb)

/-- A reconnect that is scheduled when no timer is pending and every run is let go. -/
theorem settled_rescheduled {x' : SourceEntry} {delay : Nat} (hpending : ∀ t, x.isPending t = false)
    (htimers : x'.timers = x.timers ++ [⟨delay, true⟩]) (hclient : x'.client = none)
    (hwakeup : x'.wakeup = none)
    (hphases : ∀ i q, x'.phaseOf i = some q → q = .returned ∨ ∃ c, q = .woken c ∧ x'.isWired c = true) :
    x'.Settled current := by
  have hdead : ∀ i, ¬x'.Active current (.run i) := by
    rintro i ⟨q, hq, hl⟩
    rcases hphases i q hq with rfl | ⟨c, rfl, _⟩
    · exact hl
    · rw [hl.2] at hclient
      cases hclient
  have honly : ∀ t, x'.isPending t = true → t = x.timers.length :=
    fun t ht => isPending_snoc htimers hpending ht
  refine ⟨?_, fun _ _ => ⟨hclient, hwakeup⟩, ?_, ?_, ?_, ?_⟩
  · intro a b ha hb
    cases a with
    | run i => exact absurd ha (hdead i)
    | reconnectTimer t =>
      cases b with
      | run i => exact absurd hb (hdead i)
      | reconnectTimer t' => rw [honly t ha, honly t' hb]
  · intro r w c hr
    rcases hphases r _ hr with hq | ⟨_, hq, _⟩ <;> cases hq
  · intro c hc
    rw [hclient] at hc
    cases hc
  · intro r c hr
    rcases hphases r _ hr with hq | ⟨c', hq, hwired⟩
    · cases hq
    · cases hq
      exact hwired
  · intro r q hr hunwired
    rcases hphases r q hr with rfl | ⟨_, rfl, _⟩ <;> cases hunwired

/-- A run that acts and only changes what is its own. -/
theorem Settled.modifyRun (h : x.Settled current) {r : Nat} {p p' : Phase} {f : Run → Run}
    (hp : x.phaseOf r = some p) (hlive : x.live current p) (hphase : ∀ run, (f run).phase = p')
    (hwired : ∀ run, (f run).wired = run.wired) (hlanded : (x.modifyRun r f).Landed r p') :
    (x.modifyRun r f).Settled current := by
  have hphases := fun i => x.phaseOf_modifyRun_const r i f hphase
  have hsame := fun i => x.isWired_modifyRun r i f hwired
  have hp' : (x.modifyRun r f).phaseOf r = some p' := by simp [hphases, hp]
  refine h.act hp hlive rfl rfl hp' ?_ ?_ ?_ hlanded
  · intro i hi
    exact Or.inl (by simp [hphases, Ne.symm hi])
  · intro c hc
    rw [hsame]
    exact hc
  · intro c hc
    rw [hsame]
    exact ⟨h.clientWired c hc, Or.inl hc⟩

theorem Settled.setPhase (h : x.Settled current) {r : Nat} {p p' : Phase} (hp : x.phaseOf r = some p)
    (hlive : x.live current p) (hlanded : (x.setPhase r p').Landed r p') :
    (x.setPhase r p').Settled current :=
  h.modifyRun hp hlive (fun _ => rfl) (fun _ => rfl) hlanded

/-- What the invariant reads of an entry. -/
theorem Settled.congr {x' : SourceEntry} (h : x.Settled current) (hphase : x'.phaseOf = x.phaseOf)
    (hwired : x'.isWired = x.isWired) (hresolver : x'.resolver = x.resolver) (hclient : x'.client = x.client)
    (hwakeup : x'.wakeup = x.wakeup) (htimers : x'.timers = x.timers)
    (hdisposed : x'.disposed = x.disposed) : x'.Settled current := by
  have hpending : x'.isPending = x.isPending := by
    funext t
    unfold isPending
    rw [htimers]
  have hlive : ∀ p, x'.live current p ↔ x.live current p := by
    intro p
    cases p with
    | woken c =>
      simp only [live, Alive, hdisposed, hclient]
    | _ => exact Iff.rfl
  refine ⟨?_, ?_, ?_, ?_, ?_, ?_⟩
  · apply h.exclusive.of_active
    intro a ha
    cases a with
    | reconnectTimer t =>
      unfold Active at ha ⊢
      rwa [hpending] at ha
    | run r =>
      obtain ⟨p, hp, hl⟩ := ha
      rw [hphase] at hp
      exact ⟨p, hp, (hlive p).mp hl⟩
  · rw [hpending, hclient, hwakeup]
    exact h.torn
  · rw [hphase, hclient, hwakeup, hresolver]
    exact h.blocked
  · rw [hclient, hwired]
    exact h.clientWired
  · rw [hphase, hwired]
    exact h.wokenWired
  · rw [hphase, hwired]
    exact h.startsUnwired

theorem Settled.logout (h : x.Settled current) (c : Nat) : (x.logout c).Settled current := by
  refine h.congr ?_ ?_ ?_ rfl rfl rfl rfl
  · funext i
    simp
  · funext i
    simp
  · funext i
    rw [resolver_eq, resolver_eq, wakeupOf_logout]

/-- A wakeup that resolves `next()`: the run it blocked goes on in its place. -/
theorem Settled.wake (h : x.Settled current) (w : Nat) (f : Wakeup → Wakeup) :
    (x.updateWakeup w f true).Settled current := by
  have hphase : ∀ i q, (x.updateWakeup w f true).phaseOf i = some q →
      (x.phaseOf i = some q ∧ x.resolver w ≠ some i) ∨
        ∃ q', x.phaseOf i = some q' ∧ x.resolver w = some i ∧ q = q'.wake := by
    intro i q hq
    rw [phaseOf_updateWakeup] at hq
    obtain ⟨q', hq', rfl⟩ := Option.map_eq_some_iff.mp hq
    by_cases hres : x.resolver w = some i
    · exact Or.inr ⟨q', hq', hres, by simp [hres]⟩
    · exact Or.inl ⟨by simpa [hres] using hq', hres⟩
  have hwoken : ∀ i q, x.phaseOf i = some q → q.wake = q ∨
      ∃ w c, q = .waiting w c ∧ q.wake = .woken c ∧ x.wakeup = some w ∧ x.client = some c := by
    intro i q hq
    cases q with
    | waiting w c => exact Or.inr ⟨w, c, rfl, rfl, (h.blocked i w c hq).1, (h.blocked i w c hq).2.1⟩
    | _ => exact Or.inl rfl
  refine ⟨?_, h.torn, ?_, ?_, ?_, ?_⟩
  · apply h.exclusive.of_active
    intro a ha
    cases a with
    | reconnectTimer t => exact ha
    | run i =>
      obtain ⟨q, hq, hl⟩ := ha
      rcases hphase i q hq with ⟨hq', _⟩ | ⟨q', hq', _, rfl⟩
      · exact ⟨q, hq', hl⟩
      · refine ⟨q', hq', ?_⟩
        rcases hwoken i q' hq' with hsame | ⟨w, c, rfl, _⟩
        · rw [hsame] at hl
          exact hl
        · trivial
  · intro i w' c hi
    rcases hphase i _ hi with ⟨hq, hres⟩ | ⟨q', hq', _, hq⟩
    · obtain ⟨hwakeup, hclient, hresolver⟩ := h.blocked i w' c hq
      refine ⟨hwakeup, hclient, ?_⟩
      have hne : w' ≠ w := by
        rintro rfl
        exact hres hresolver
      rw [resolver_eq, wakeupOf_updateWakeup, if_neg hne, ← resolver_eq]
      exact hresolver
    · cases q' <;> cases hq
  · intro c hc
    simpa using h.clientWired c hc
  · intro i c hi
    rw [isWired_updateWakeup]
    rcases hphase i _ hi with ⟨hq, _⟩ | ⟨q', hq', _, hq⟩
    · exact h.wokenWired i c hq
    · rcases hwoken i q' hq' with hsame | ⟨w, c', rfl, _, _, hclient⟩
      · rw [hsame] at hq
        subst hq
        exact h.wokenWired i c hq'
      · cases hq
        exact h.clientWired c hclient
  · intro i q hi hunwired
    rw [isWired_updateWakeup]
    rcases hphase i q hi with ⟨hq, _⟩ | ⟨q', hq', _, rfl⟩
    · exact h.startsUnwired i q hq hunwired
    · rw [Phase.unwired_wake] at hunwired
      exact h.startsUnwired i q' hq' hunwired

/-- The timer that fires was the only activity. -/
theorem Settled.elapsed (h : x.Settled current) {t : Nat} (ht : x.isPending t = true) :
    (x.elapsed t).Settled current ∧ (∀ i, (x.elapsed t).isPending i = false) ∧
      ∀ i p, x.phaseOf i = some p → x.Spent current p := by
  have honly : ∀ a, x.Active current a → a = .reconnectTimer t := fun a ha => h.exclusive a _ ha ht
  refine ⟨⟨?_, ?_, h.blocked, h.clientWired, h.wokenWired, h.startsUnwired⟩, ?_, ?_⟩
  · apply h.exclusive.of_active
    intro a ha
    cases a with
    | reconnectTimer i => exact (isPending_elapsed ha).2
    | run r => exact ha
  · intro i hi
    exact h.torn i (isPending_elapsed hi).2
  · intro i
    rw [Bool.eq_false_iff]
    intro hi
    obtain ⟨hne, hpending⟩ := isPending_elapsed hi
    exact hne (Activity.reconnectTimer.inj (honly (.reconnectTimer i) hpending))
  · intro i p hp
    apply spent_of_not_live
    intro hl
    cases honly (.run i) ⟨p, hp, hl⟩

/-- A run that starts when no timer is pending and every other run is spent. -/
theorem Settled.start (h : x.Settled current) (hpending : ∀ t, x.isPending t = false)
    (hspent : ∀ i p, x.phaseOf i = some p → x.Spent current p) : x.started.Settled current := by
  have hphase : ∀ i p, x.started.phaseOf i = some p →
      x.phaseOf i = some p ∨ i = x.runs.length ∧ p = .connecting := by
    intro i p hp
    obtain ⟨run, hrun, rfl⟩ := Option.map_eq_some_iff.mp hp
    rcases x.runs_started hrun with hold | ⟨_, hi, rfl⟩
    · exact Or.inl (by simp [phaseOf, hold])
    · exact Or.inr ⟨hi, rfl⟩
  have hnew : ∀ i, x.started.Active current (.run i) → i = x.runs.length := by
    rintro i ⟨p, hp, hl⟩
    rcases hphase i p hp with hold | ⟨hi, _⟩
    · rcases hspent i p hold with rfl | ⟨c, rfl, hnot⟩
      · exact hl.elim
      · exact absurd hl hnot
    · exact hi
  refine ⟨exclusive_of_one_run hpending hnew, h.torn, ?_, ?_, ?_, ?_⟩
  · intro r w c hr
    rcases hphase r _ hr with hold | ⟨_, hq⟩
    · rcases hspent r _ hold with hq | ⟨_, hq, _⟩ <;> cases hq
    · cases hq
  · intro c hc
    rw [isWired_started]
    exact h.clientWired c hc
  · intro r c hr
    rw [isWired_started]
    rcases hphase r _ hr with hold | ⟨_, hq⟩
    · exact h.wokenWired r c hold
    · cases hq
  · intro r p hr hunwired
    rw [isWired_started]
    rcases hphase r p hr with hold | ⟨rfl, _⟩
    · exact h.startsUnwired r p hold hunwired
    · simp [isWired]

/-- A run that gives up was alone, so its reconnect is the only activity left. -/
theorem Settled.gaveUp (h : x.Settled current) {r : Nat} {p : Phase} (hp : x.phaseOf r = some p)
    (hlive : x.live current p) : (x.rescheduled.setPhase r .returned).Settled current := by
  obtain ⟨hpending, hspent⟩ := h.alone hp hlive
  refine settled_rescheduled hpending rfl ?_ ?_ ?_
  · exact x.client_teardownConnection
  · exact x.wakeup_teardownConnection
  · intro i q hq
    rw [phaseOf_setPhase] at hq
    have htear : x.rescheduled.phaseOf i = x.teardownConnection.phaseOf i := rfl
    rw [htear, phaseOf_teardownConnection] at hq
    by_cases hi : r = i
    · subst hi
      simp only [hp, if_true, Option.map_some, Option.some.injEq] at hq
      exact Or.inl hq.symm
    · simp only [hi, if_false] at hq
      obtain ⟨q', hq', rfl⟩ := Option.map_eq_some_iff.mp hq
      have hs := hspent i q' (Ne.symm hi) hq'
      have hsame : (if x.woken i then q'.wake else q') = q' := by
        split
        · exact hs.wake
        · rfl
      rw [hsame]
      rcases hs with hret | ⟨c, rfl, _⟩
      · exact Or.inl hret
      · refine Or.inr ⟨c, rfl, ?_⟩
        have hwired := x.isWired_teardownConnection c
        rw [h.wokenWired i c hq'] at hwired
        rw [isWired_setPhase]
        exact hwired

/-- A connection lost under idle runs: the teardown lets the blocked one go. -/
theorem Settled.lostIdle (h : x.Settled current) (hset : ¬(x.client = none ∧ x.wakeup = none))
    (hidle : ∀ r p, x.phaseOf r = some p → p.busy = false) : x.rescheduled.Settled current := by
  have hpending : ∀ t, x.isPending t = false := by
    intro t
    rw [Bool.eq_false_iff]
    intro ht
    exact hset (h.torn t ht)
  refine settled_rescheduled hpending rfl ?_ ?_ ?_
  · exact x.client_teardownConnection
  · exact x.wakeup_teardownConnection
  · intro i q hq
    have htear : x.rescheduled.phaseOf i = x.teardownConnection.phaseOf i := rfl
    rw [htear, phaseOf_teardownConnection] at hq
    obtain ⟨q', hq', rfl⟩ := Option.map_eq_some_iff.mp hq
    have hwired : ∀ c, x.isWired c = true → x.rescheduled.isWired c = true := by
      intro c hc
      rw [← x.isWired_teardownConnection c] at hc
      exact hc
    have hnot := hidle i q' hq'
    cases q' with
    | returned =>
      left
      split <;> rfl
    | woken c =>
      right
      refine ⟨c, ?_, hwired c (h.wokenWired i c hq')⟩
      split <;> rfl
    | waiting w c =>
      obtain ⟨hwakeup, hclient, hresolver⟩ := h.blocked i w c hq'
      have hwoken : x.woken i := ⟨w, hwakeup, hresolver⟩
      right
      exact ⟨c, by simp [hwoken, Phase.wake], hwired c (h.clientWired c hclient)⟩
    | _ => cases hnot

theorem Settled.disposed {current' : Bool} (h : x.Settled current) : x.disposeEntry.Settled current' := by
  have hclient := x.client_disposeEntry
  have hphase : ∀ i q, x.disposeEntry.phaseOf i = some q →
      ∃ q', x.phaseOf i = some q' ∧ ((q' = q ∧ ∀ w c, q ≠ .waiting w c) ∨
        ∃ w c, q' = .waiting w c ∧ q = .woken c ∧ x.client = some c) := by
    intro i q hq
    rw [phaseOf_disposeEntry] at hq
    obtain ⟨q', hq', rfl⟩ := Option.map_eq_some_iff.mp hq
    refine ⟨q', hq', ?_⟩
    cases q' with
    | waiting w c =>
      obtain ⟨hwakeup, hc, hresolver⟩ := h.blocked i w c hq'
      have hwoken : x.woken i := ⟨w, hwakeup, hresolver⟩
      exact Or.inr ⟨w, c, rfl, by simp [hwoken, Phase.wake], hc⟩
    | _ =>
      left
      split <;> simp [Phase.wake]
  refine ⟨?_, ?_, ?_, ?_, ?_, ?_⟩
  · intro a b ha hb
    have hactive : ∀ a, x.disposeEntry.Active current' a → x.Active current a := by
      intro a ha
      cases a with
      | reconnectTimer t => exact (isPending_disposeEntry ha).2
      | run r =>
        obtain ⟨q, hq, hl⟩ := ha
        obtain ⟨q', hq', ⟨rfl, _⟩ | ⟨w, c, rfl, rfl, _⟩⟩ := hphase r q hq
        · refine ⟨q', hq', ?_⟩
          cases q' with
          | woken c =>
            have hc := hl.2
            rw [hclient] at hc
            cases hc
          | returned => exact hl
          | _ => trivial
        · exact ⟨_, hq', trivial⟩
    exact h.exclusive a b (hactive a ha) (hactive b hb)
  · intro t _
    exact ⟨hclient, x.wakeup_disposeEntry⟩
  · intro r w c hr
    obtain ⟨q', _, ⟨_, hnot⟩ | ⟨_, _, _, hq, _⟩⟩ := hphase r _ hr
    · exact absurd rfl (hnot w c)
    · cases hq
  · intro c hc
    rw [hclient] at hc
    cases hc
  · intro r c hr
    rw [isWired_disposeEntry]
    obtain ⟨q', hq', ⟨rfl, _⟩ | ⟨w, c', rfl, hq, hc⟩⟩ := hphase r _ hr
    · exact h.wokenWired r c hq'
    · cases hq
      exact h.clientWired c hc
  · intro r q hr hunwired
    rw [isWired_disposeEntry]
    obtain ⟨q', hq', ⟨rfl, _⟩ | ⟨_, _, _, rfl, _⟩⟩ := hphase r q hr
    · exact h.startsUnwired r q' hq' hunwired
    · cases hunwired

theorem settled_create (current : Bool) (owner repo : String) (d : Descriptor) :
    ((create owner repo d).runEntry true).Settled current := by
  have hempty : (create owner repo d).Settled current := by
    refine ⟨?_, ?_, ?_, ?_, ?_, ?_⟩
    · intro a b ha
      cases a with
      | reconnectTimer t => cases ha
      | run r =>
        obtain ⟨p, hp, _⟩ := ha
        cases hp
    · intro t ht
      cases ht
    · intro r w c hr
      cases hr
    · intro c hc
      cases hc
    · intro r c hr
      cases hr
    · intro r p hr
      cases hr
  refine hempty.start ?_ ?_
  · intro t
    rfl
  · intro i p hp
    cases hp

theorem Settled.connectAccepted (h : x.Settled current) {r : Nat} {k : Wakeup}
    (hp : x.phaseOf r = some .connecting) :
    { x.modifyRun r fun run => { run with phase := .opening, connected := true, wakeup := some k } with
      wakeup := some r }.Settled current := by
  have hphases := fun i => x.phaseOf_modifyRun_const r i
    (fun run => { run with phase := .opening, connected := true, wakeup := some k }) fun _ => rfl
  have hwired := fun i => x.isWired_modifyRun r i
    (fun run => { run with phase := .opening, connected := true, wakeup := some k }) fun _ => rfl
  have hp' := hphases r
  rw [if_pos rfl, hp, Option.map_some] at hp'
  refine h.act hp trivial rfl rfl hp' ?_ ?_ ?_ ?_
  · intro i hi
    exact Or.inl ((hphases i).trans (by simp [Ne.symm hi]))
  · intro c hc
    exact (hwired c).trans hc
  · intro c hc
    exact ⟨(hwired c).trans (h.clientWired c hc), Or.inl hc⟩
  · exact (hwired r).trans (h.startsUnwired r _ hp rfl)

/-- A client that is recorded is new, so no spent run finds its own again. -/
theorem Settled.openAccepted (h : x.Settled current) {r : Nat} {d : Drain}
    (hp : x.phaseOf r = some .opening) :
    { x.modifyRun r fun run => { run with phase := .draining d, wired := true } with
      client := some r }.Settled current := by
  have hphases := fun i => x.phaseOf_modifyRun_const r i
    (fun run => { run with phase := .draining d, wired := true }) fun _ => rfl
  have hruns := fun i => x.runs_modifyRun r i fun run => { run with phase := .draining d, wired := true }
  have hnew : (x.modifyRun r fun run => { run with phase := .draining d, wired := true }).isWired r = true := by
    obtain ⟨run, hrun, _⟩ := Option.map_eq_some_iff.mp hp
    simp [isWired, hruns, hrun]
  have hwired : ∀ c, x.isWired c = true →
      (x.modifyRun r fun run => { run with phase := .draining d, wired := true }).isWired c = true := by
    intro c hc
    by_cases hr : r = c
    · subst hr
      exact hnew
    · unfold isWired at hc ⊢
      rw [hruns, if_neg hr]
      exact hc
  have hp' := hphases r
  rw [if_pos rfl, hp, Option.map_some] at hp'
  refine h.act hp trivial rfl rfl hp' ?_ hwired ?_ trivial
  · intro i hi
    exact Or.inl ((hphases i).trans (by simp [Ne.symm hi]))
  · intro c hc
    obtain rfl : r = c := Option.some.inj hc
    exact ⟨hnew, Or.inr (h.startsUnwired r _ hp rfl)⟩

/-- The disposal of the wakeup finds no other run blocked. -/
theorem Settled.reportedOpen (h : x.Settled current) {r : Nat} (hp : x.phaseOf r = some .reportingOpen) :
    ((x.disposeWakeup.logout r).setPhase r .loggingOut).Settled current := by
  have hwired : ∀ c, ((x.disposeWakeup.logout r).setPhase r .loggingOut).isWired c = x.isWired c := by
    simp
  have hp' : ((x.disposeWakeup.logout r).setPhase r .loggingOut).phaseOf r = some .loggingOut := by
    simp [hp]
  refine h.act hp trivial x.timers_disposeWakeup x.disposed_disposeWakeup hp' ?_ ?_ ?_ trivial
  · intro i hi
    simp only [phaseOf_setPhase, Ne.symm hi, if_false, phaseOf_logout, phaseOf_disposeWakeup]
    by_cases hwoken : x.woken i
    · right
      simp [hwoken]
    · left
      simp [hwoken]
  · intro c hc
    rw [hwired]
    exact hc
  · intro c hc
    rw [hwired]
    have hc' : x.client = some c := x.client_disposeWakeup.symm.trans hc
    exact ⟨h.clientWired c hc', Or.inl hc'⟩

/-- The head of the loop: the run blocks in `next()`, or finds its wakeup dirty. -/
theorem Settled.loopEntered (h : x.Settled current) {r w c : Nat} {p : Phase} {k : Wakeup}
    (hp : x.phaseOf r = some p) (hloop : p = .ready ∨ ∃ c, p = .drained c true false)
    (hw : x.wakeup = some w) (hc : x.client = some c) (hk : x.wakeupOf w = some k) :
    ((x.updateWakeup w (fun _ => (k.next r).1) false).setPhase r
      (if (k.next r).2 then .woken c else .waiting w c)).Settled current := by
  have hlive : x.live current p := by
    rcases hloop with rfl | ⟨c, rfl⟩ <;> trivial
  have hp' := (x.updateWakeup w (fun _ => (k.next r).1) false).phaseOf_setPhase r r
    (if (k.next r).2 then .woken c else .waiting w c)
  rw [if_pos rfl, phaseOf_updateWakeup, hp, Option.map_some, Option.map_some] at hp'
  refine h.act hp hlive rfl rfl hp' ?_ ?_ ?_ ?_
  · intro i hi
    left
    simp [Ne.symm hi]
  · intro c' hc'
    simpa using hc'
  · intro c' hc'
    exact ⟨by simpa using h.clientWired c' hc', Or.inl hc'⟩
  · split
    · exact hc
    · rename_i hresolved
      refine ⟨hw, hc, ?_⟩
      rw [resolver_eq, wakeupOf_setPhase, wakeupOf_updateWakeup, if_pos rfl, hk]
      exact Wakeup.next_blocks hresolved

/-- A spent run that returns was not active. -/
theorem Settled.wokenDead (h : x.Settled current) {r c : Nat} (hp : x.phaseOf r = some (.woken c)) :
    (x.setPhase r .returned).Settled current := by
  have hphase : ∀ i q, q ≠ .returned → (x.setPhase r .returned).phaseOf i = some q → x.phaseOf i = some q := by
    intro i q hq hi
    rw [phaseOf_setPhase] at hi
    split at hi
    · rename_i hr
      subst hr
      rw [hp] at hi
      exact absurd (Option.some.inj hi).symm hq
    · exact hi
  refine ⟨?_, h.torn, ?_, ?_, ?_, ?_⟩
  · apply h.exclusive.of_active
    intro a ha
    cases a with
    | reconnectTimer t => exact ha
    | run i =>
      obtain ⟨q, hq, hl⟩ := ha
      refine ⟨q, hphase i q ?_ hq, hl⟩
      rintro rfl
      exact hl
  · intro i w c' hi
    rw [resolver_eq, wakeupOf_setPhase, ← resolver_eq]
    exact h.blocked i w c' (hphase i _ (by simp) hi)
  · intro c' hc'
    simpa using h.clientWired c' hc'
  · intro i c' hi
    simpa using h.wokenWired i c' (hphase i _ (by simp) hi)
  · intro i q hi hunwired
    rw [isWired_setPhase]
    refine h.startsUnwired i q (hphase i q ?_ hi) hunwired
    rintro rfl
    cases hunwired

theorem Settled.effect {x' : SourceEntry} {a : EntryAction} (h : x.Settled current)
    (hok : x.LostIdle current a) (heffect : Effect current x a x') : x'.Settled current := by
  cases heffect with
  | connectRejected hp => exact h.setPhase hp trivial trivial
  | idleMissing hp hidle => exact h.modifyRun hp trivial (fun _ => rfl) (fun _ => rfl) trivial
  | connectAccepted hp hidle => exact h.connectAccepted hp
  | @reportedConnect r hp =>
    have hp' : (x.logout r).phaseOf r = some .reportingConnect := by simpa using hp
    exact (h.logout r).setPhase hp' trivial trivial
  | reportedOpen hp hw => exact h.reportedOpen hp
  | reportedOpenUnset hp hw => exact h.setPhase hp trivial trivial
  | openAccepted hp => exact h.openAccepted hp
  | openFailed hp => exact h.setPhase hp trivial trivial
  | drained hp hmove =>
    refine h.modifyRun hp trivial (fun _ => rfl) (fun _ => rfl) ?_
    rcases hmove.target with ⟨d', rfl, _⟩ | ⟨failed, rfl⟩ <;> trivial
  | gaveUp hp ha hlive =>
    refine h.gaveUp hp ?_
    rcases ha with ⟨rfl, _⟩ | ⟨⟨c, l, rfl⟩, _⟩ <;> trivial
  | gaveUpDead hp ha hdead =>
    refine h.setPhase hp ?_ trivial
    rcases ha with ⟨rfl, _⟩ | ⟨⟨c, l, rfl⟩, _⟩ <;> trivial
  | setUp hp => exact h.setPhase hp trivial trivial
  | loopLeft hp hloop =>
    refine h.setPhase hp ?_ trivial
    rcases hloop with rfl | ⟨c, rfl⟩ <;> trivial
  | loopEntered hp hloop hlive hw hc hk => exact h.loopEntered hp hloop hw hc hk
  | wokenDead hp hdead => exact h.wokenDead hp
  | wokenLive hp hlive hc => exact h.setPhase hp ⟨hlive, hc⟩ trivial
  | notified hk => exact h.wake _ _
  | pollTimer hk ht => exact h.wake _ _
  | connectionLost hy hwired hlive hset =>
    have hidle := hok hwired hlive hset
    rcases hy with rfl | rfl
    · exact h.lostIdle hset hidle
    · exact (h.logout _).lostIdle hset (by simpa using hidle)
  | connectionIgnored hy hwired hidle =>
    rcases hy with rfl | rfl
    · exact h
    · exact h.logout _
  | reconnected ht hlive =>
    obtain ⟨hsettled, hpending, hspent⟩ := h.elapsed ht
    exact hsettled.start hpending hspent
  | reconnectedDead ht hdead => exact (h.elapsed ht).1

theorem Settled.step {x' : SourceEntry} {a : EntryAction} (h : x.Settled current)
    (hok : x.LostIdle current a) (hstep : x.step current a = some x') : x'.Settled current := by
  obtain ⟨n, m, y, heffect, rfl⟩ := step_effect hstep
  have hbefore : { x with failures := n }.Settled current := h.congr rfl rfl rfl rfl rfl rfl rfl
  have hafter := hbefore.effect hok heffect
  exact hafter.congr rfl rfl rfl rfl rfl rfl rfl

theorem isPending_rescheduled (x : SourceEntry) : x.rescheduled.isPending x.timers.length = true := by
  simp [isPending, rescheduled]

theorem phaseOf_rescheduled_busy (x : SourceEntry) {r : Nat} {p : Phase} (hp : x.phaseOf r = some p)
    (hbusy : p.busy = true) : x.rescheduled.phaseOf r = some p := by
  have hwake : p.wake = p := by
    cases p with
    | waiting w c => cases hbusy
    | _ => rfl
  have htear := x.phaseOf_teardownConnection r
  rw [hp, Option.map_some, hwake, ite_self] at htear
  exact htear

/-- A connection lost under a busy run arms a timer beside it. -/
theorem lostIdle_of_exclusive {x' : SourceEntry} {a : EntryAction} (hstep : x.step current a = some x')
    (hexclusive : x'.Exclusive current) : x.LostIdle current a := by
  cases a with
  | connectionLost c event =>
    intro hwired hlive hset r p hp
    rw [Bool.eq_false_iff]
    intro hbusy
    obtain ⟨n, m, y, heffect, rfl⟩ := step_effect hstep
    cases heffect with
    | connectionIgnored hy hwired hidle => exact hset (hidle hlive)
    | @connectionLost _ _ z hy hwired hlive hset =>
      have hz : z.phaseOf r = some p := by
        rcases hy with rfl | rfl
        · exact hp
        · exact (phaseOf_logout _ c r).trans hp
      have heq := hexclusive (.reconnectTimer z.timers.length) (.run r) z.isPending_rescheduled
        ⟨p, z.phaseOf_rescheduled_busy hz hbusy, live_of_busy hbusy⟩
      cases heq
    | gaveUp _ ha => rcases ha with ⟨_, ha⟩ | ⟨_, ha⟩ <;> cases ha
    | gaveUpDead _ ha => rcases ha with ⟨_, ha⟩ | ⟨_, ha⟩ <;> cases ha
  | _ => trivial

end SourceEntry

/-! ## Runs of the source -/

/-- No step loses a connection under a busy run. -/
def LostIdleOnly : ImapSource → SourceAction → Prop :=
  EntryOk (fun current x a => x.LostIdle current a) fun _ => True

instance (s : ImapSource) (a : SourceAction) : Decidable (LostIdleOnly s a) :=
  inferInstanceAs (Decidable (EntryOk (fun current x a => x.LostIdle current a) (fun _ => True) s a))

def ExclusiveEntries : ImapSource → Prop := Each fun current x => x.Exclusive current

theorem settled_step {s t : ImapSource} {a : SourceAction} (hs : Each (fun current x => x.Settled current) s)
    (hok : LostIdleOnly s a) (h : step s a = some t) : Each (fun current x => x.Settled current) t :=
  each_step SourceEntry.settled_create (fun _ _ _ hx _ => hx.disposed)
    (fun _ _ _ _ hx hok hstep => hx.step hok hstep) hs hok h

theorem settled_initial : Each (fun current x => x.Settled current) createImapTriggerSource := by
  intro e x hx
  cases hx

theorem lostIdleOnly_of_exclusive {s t : ImapSource} {a : SourceAction} (h : step s a = some t)
    (ht : ExclusiveEntries t) : LostIdleOnly s a := by
  cases a with
  | reconfigure owner repo ds =>
    intro e x _ _
    trivial
  | stop =>
    intro e x _ _
    trivial
  | entry e a =>
    intro x hx
    simp only [step, hx] at h
    obtain ⟨x', hstep, rfl⟩ := Option.map_eq_some_iff.mp h
    have hexclusive := ht e x' (entries_set hx x')
    rw [isCurrent_set hx (SourceEntry.identity_step hstep)] at hexclusive
    exact SourceEntry.lostIdle_of_exclusive hstep hexclusive

/-- Runs that drain at once are the same run. -/
theorem SourceEntry.Exclusive.one_drain {current : Bool} {x : SourceEntry} (h : x.Exclusive current)
    {r r' : Nat} {d d' : Drain} (hr : x.phaseOf r = some (.draining d))
    (hr' : x.phaseOf r' = some (.draining d')) : r = r' :=
  Activity.run.inj (h (.run r) (.run r') ⟨_, hr, trivial⟩ ⟨_, hr', trivial⟩)

/-- In every state of a run each entry has at most one pending reconnect timer, connection attempt or
loop, exactly when no step loses a connection under a busy run; no mailbox is then drained twice at once. -/
theorem exclusive_iff_lostIdleOnly {as : List SourceAction} {s : ImapSource}
    (h : exec step createImapTriggerSource as = some s) :
    (Always step ExclusiveEntries createImapTriggerSource as ↔
        Along step LostIdleOnly createImapTriggerSource as) ∧
      (Along step LostIdleOnly createImapTriggerSource as →
        ∀ (e : Nat) (x : SourceEntry), s.entries[e]? = some x → ∀ r r' d d',
          x.phaseOf r = some (.draining d) → x.phaseOf r' = some (.draining d') → r = r') := by
  constructor
  · apply always_iff_along _ _ _ settled_initial h
    · intro s hs e x hx
      exact (hs e x hx).exclusive
    · intro s a t hs hok hstep
      exact settled_step hs hok hstep
    · intro s a t _ hstep ht
      exact lostIdleOnly_of_exclusive hstep ht
  · intro hok e x hx r r' d d' hr hr'
    have hs := exec_invariant_along (fun _ _ _ hs hok => settled_step hs hok) settled_initial hok h
    exact (hs e x hx).exclusive.one_drain hr hr'

/-- The connection is lost while the run waits for the next poll. -/
def lostWhileWaiting : List SourceAction :=
  [.reconfigure "acme" "shop" [inbox],
    .entry 0 (.connected 0 (.accepted true)), .entry 0 (.opened 0 true),
    .entry 0 (.drain 0 (.searched (some []))), .entry 0 (.resumed 0), .entry 0 (.resumed 0),
    .entry 0 (.connectionLost 0 .close), .entry 0 (.reconnectTimer 0), .entry 0 (.resumed 0)]

theorem exclusive_iff_lostIdleOnly_waiting :
    ∃ s, exec step createImapTriggerSource lostWhileWaiting = some s ∧
      Always step ExclusiveEntries createImapTriggerSource lostWhileWaiting :=
  ⟨_, rfl, (exclusive_iff_lostIdleOnly rfl).1.mpr (by decide)⟩

/-- A message is fetched and handed to the handler when the connection closes; the entry reconnects
after the delay and finds the message still unseen. -/
def closedMidDrain : List SourceAction :=
  [.reconfigure "acme" "shop" [inbox],
    .entry 0 (.connected 0 (.accepted true)), .entry 0 (.opened 0 true),
    .entry 0 (.drain 0 (.searched (some [7]))), .entry 0 (.drain 0 (.fetched true)),
    .entry 0 (.drain 0 (.parsed true)), .entry 0 (.connectionLost 0 .close),
    .entry 0 (.reconnectTimer 0), .entry 0 (.connected 1 (.accepted true)),
    .entry 0 (.opened 1 true), .entry 0 (.drain 1 (.searched (some [7]))),
    .entry 0 (.drain 1 (.fetched true)), .entry 0 (.drain 1 (.parsed true))]

/-- Both runs of the entry are inside `fire` with the same message. -/
theorem two_runs_fire_one_message :
    ∃ s x, exec step createImapTriggerSource closedMidDrain = some s ∧ s.entries[0]? = some x ∧
      x.phaseOf 0 = some (.draining ⟨0, false, [], .firing 7 []⟩) ∧
      x.phaseOf 1 = some (.draining ⟨1, false, [], .firing 7 []⟩) ∧ ¬ExclusiveEntries s := by
  refine ⟨_, _, rfl, rfl, rfl, rfl, ?_⟩
  intro hexclusive
  have hone : 0 = 1 := (hexclusive 0 _ rfl).one_drain rfl rfl
  cases hone

end WorkflowEngine.Runtime.Imap
