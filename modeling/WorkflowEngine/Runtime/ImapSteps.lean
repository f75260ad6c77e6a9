import WorkflowEngine.Lib.ListIndex
import WorkflowEngine.Lib.Transition
import WorkflowEngine.Runtime.ImapSource

/-!
# Steps of the IMAP source

How the operations on an entry read back, what a step of an entry can do
(`Effect`), and the rule by which an invariant of single entries becomes one of
the source: the pairs only decide which entries are current, and an entry that
loses that rank is disposed in the same step.
-/

namespace WorkflowEngine.Runtime.Imap

open Lib
set_option autoImplicit false

/-- A `next()` that is not resolved at once blocks its caller. -/
theorem Wakeup.next_blocks {k : Wakeup} {r : Nat} (h : ¬(k.next r).2 = true) :
    (k.next r).1.pendingResolve = some r := by
  unfold Wakeup.next at h ⊢
  cases hmode : k.mode with
  | poll => rfl
  | idle =>
    simp only [hmode] at h ⊢
    split
    · rename_i hdirty
      simp [hdirty] at h
    · rfl

/-- A message is on its way that has not been handed to `fire` yet. -/
def DrainStage.uncertain : DrainStage → Bool
  | .fetching .. | .parsing .. => true
  | _ => false

/-! ## How the operations read -/

namespace SourceEntry
variable (x : SourceEntry)

theorem runs_modifyRun (r i : Nat) (f : Run → Run) :
    (x.modifyRun r f).runs[i]? = if r = i then x.runs[i]?.map f else x.runs[i]? := by
  unfold modifyRun
  rw [List.getElem?_modify]
  split
  · rfl
  · simp

@[simp] theorem disposed_modifyRun (r : Nat) (f : Run → Run) : (x.modifyRun r f).disposed = x.disposed := rfl

theorem phaseOf_modifyRun (r i : Nat) (f : Run → Run) {p : Phase → Phase}
    (hf : ∀ run, (f run).phase = p run.phase) :
    (x.modifyRun r f).phaseOf i = if r = i then (x.phaseOf i).map p else x.phaseOf i := by
  unfold phaseOf
  rw [runs_modifyRun]
  split
  · cases x.runs[i]? with
    | none => rfl
    | some run => simp [hf]
  · rfl

theorem phaseOf_modifyRun_const (r i : Nat) (f : Run → Run) {p : Phase} (hf : ∀ run, (f run).phase = p) :
    (x.modifyRun r f).phaseOf i = if r = i then (x.phaseOf i).map (fun _ => p) else x.phaseOf i :=
  x.phaseOf_modifyRun r i f (p := fun _ => p) hf

/-- What is read of a run without its changed fields stays. -/
theorem read_modifyRun {β : Type} (g : Option Run → β) (r i : Nat) (f : Run → Run)
    (hg : ∀ run, g (some (f run)) = g (some run)) : g (x.modifyRun r f).runs[i]? = g x.runs[i]? := by
  rw [runs_modifyRun]
  split
  · cases x.runs[i]? with
    | none => rfl
    | some run => exact hg run
  · rfl

theorem isWired_modifyRun (r i : Nat) (f : Run → Run) (hf : ∀ run, (f run).wired = run.wired) :
    (x.modifyRun r f).isWired i = x.isWired i :=
  x.read_modifyRun (fun run => (run.map Run.wired).getD false) r i f hf

theorem isConnected_modifyRun (r i : Nat) (f : Run → Run) (hf : ∀ run, (f run).connected = run.connected) :
    (x.modifyRun r f).isConnected i = x.isConnected i :=
  x.read_modifyRun (fun run => (run.map Run.connected).getD false) r i f hf

theorem wakeupOf_modifyRun (r i : Nat) (f : Run → Run) (hf : ∀ run, (f run).wakeup = run.wakeup) :
    (x.modifyRun r f).wakeupOf i = x.wakeupOf i :=
  x.read_modifyRun (fun run => run.bind Run.wakeup) r i f hf

theorem resolver_eq (w : Nat) : x.resolver w = (x.wakeupOf w).bind Wakeup.pendingResolve := rfl

@[simp] theorem phaseOf_setPhase (r i : Nat) (p : Phase) :
    (x.setPhase r p).phaseOf i = if r = i then (x.phaseOf i).map (fun _ => p) else x.phaseOf i :=
  x.phaseOf_modifyRun r i _ fun _ => rfl

@[simp] theorem isWired_setPhase (r i : Nat) (p : Phase) : (x.setPhase r p).isWired i = x.isWired i :=
  x.isWired_modifyRun r i _ fun _ => rfl

@[simp] theorem wakeupOf_setPhase (r i : Nat) (p : Phase) : (x.setPhase r p).wakeupOf i = x.wakeupOf i :=
  x.wakeupOf_modifyRun r i _ fun _ => rfl

@[simp] theorem phaseOf_logout (c i : Nat) : (x.logout c).phaseOf i = x.phaseOf i := by
  have h : (x.logout c).phaseOf i = if c = i then (x.phaseOf i).map id else x.phaseOf i :=
    x.phaseOf_modifyRun c i (fun run => { run with connected := false }) fun _ => rfl
  simpa using h

@[simp] theorem isWired_logout (c i : Nat) : (x.logout c).isWired i = x.isWired i :=
  x.isWired_modifyRun c i _ fun _ => rfl

@[simp] theorem isConnected_logout (c i : Nat) :
    (x.logout c).isConnected i = if c = i then false else x.isConnected i := by
  unfold isConnected logout
  rw [runs_modifyRun]
  split
  · cases x.runs[i]? <;> rfl
  · rfl

@[simp] theorem wakeupOf_logout (c i : Nat) : (x.logout c).wakeupOf i = x.wakeupOf i :=
  x.wakeupOf_modifyRun c i _ fun _ => rfl

theorem runs_updateWakeup (w i : Nat) (f : Wakeup → Wakeup) (resolves : Bool) :
    (x.updateWakeup w f resolves).runs[i]? = x.runs[i]?.map fun run =>
      { run with
        phase := if resolves ∧ x.resolver w = some i then run.phase.wake else run.phase
        wakeup := if i = w then run.wakeup.map f else run.wakeup } := by
  simp [updateWakeup, List.getElem?_mapIdx]

@[simp] theorem phaseOf_updateWakeup (w i : Nat) (f : Wakeup → Wakeup) (resolves : Bool) :
    (x.updateWakeup w f resolves).phaseOf i =
      (x.phaseOf i).map fun p => if resolves ∧ x.resolver w = some i then p.wake else p := by
  unfold phaseOf
  rw [runs_updateWakeup]
  cases x.runs[i]? <;> rfl

theorem read_updateWakeup {β : Type} (g : Option Run → β) (w i : Nat) (f : Wakeup → Wakeup) (resolves : Bool)
    (hg : ∀ run p k, g (some { run with phase := p, wakeup := k }) = g (some run)) :
    g (x.updateWakeup w f resolves).runs[i]? = g x.runs[i]? := by
  rw [runs_updateWakeup]
  cases x.runs[i]? with
  | none => rfl
  | some run => exact hg run _ _

@[simp] theorem isWired_updateWakeup (w i : Nat) (f : Wakeup → Wakeup) (resolves : Bool) :
    (x.updateWakeup w f resolves).isWired i = x.isWired i :=
  x.read_updateWakeup (fun run => (run.map Run.wired).getD false) w i f resolves fun _ _ _ => rfl

@[simp] theorem isConnected_updateWakeup (w i : Nat) (f : Wakeup → Wakeup) (resolves : Bool) :
    (x.updateWakeup w f resolves).isConnected i = x.isConnected i :=
  x.read_updateWakeup (fun run => (run.map Run.connected).getD false) w i f resolves fun _ _ _ => rfl

@[simp] theorem wakeupOf_updateWakeup (w i : Nat) (f : Wakeup → Wakeup) (resolves : Bool) :
    (x.updateWakeup w f resolves).wakeupOf i =
      if i = w then (x.wakeupOf i).map f else x.wakeupOf i := by
  unfold wakeupOf
  rw [runs_updateWakeup]
  cases x.runs[i]? with
  | none => simp
  | some run => split <;> simp_all

/-- The run that a disposal of the entry's wakeup wakes. -/
def woken (i : Nat) : Prop := ∃ w, x.wakeup = some w ∧ x.resolver w = some i

instance (i : Nat) : Decidable (x.woken i) :=
  match h : x.wakeup with
  | none => isFalse (by simp [woken, h])
  | some w => decidable_of_iff (x.resolver w = some i) (by simp [woken, h])

@[simp] theorem phaseOf_disposeWakeup (i : Nat) :
    x.disposeWakeup.phaseOf i = (x.phaseOf i).map fun p => if x.woken i then p.wake else p := by
  unfold disposeWakeup
  split
  · rename_i h
    simp [woken, h]
  · rename_i w h
    have hwoken : x.woken i ↔ x.resolver w = some i := by simp [woken, h]
    simp only [hwoken]
    have hphase := x.phaseOf_updateWakeup w i Wakeup.dispose true
    simp only [true_and] at hphase
    exact hphase

@[simp] theorem isWired_disposeWakeup (i : Nat) : x.disposeWakeup.isWired i = x.isWired i := by
  unfold disposeWakeup
  split
  · rfl
  · exact x.isWired_updateWakeup _ i _ _

@[simp] theorem isConnected_disposeWakeup (i : Nat) : x.disposeWakeup.isConnected i = x.isConnected i := by
  unfold disposeWakeup
  split
  · rfl
  · exact x.isConnected_updateWakeup _ i _ _

@[simp] theorem wakeupOf_disposeWakeup (i : Nat) :
    x.disposeWakeup.wakeupOf i =
      if x.wakeup = some i then (x.wakeupOf i).map Wakeup.dispose else x.wakeupOf i := by
  unfold disposeWakeup
  split
  · rename_i h
    simp [h]
  · rename_i w h
    have hwakeup := x.wakeupOf_updateWakeup w i Wakeup.dispose true
    simp only [h, Option.some.injEq, eq_comm (a := w)]
    exact hwakeup

@[simp] theorem wakeup_disposeWakeup : x.disposeWakeup.wakeup = none := by
  unfold disposeWakeup
  split
  · assumption
  · rfl

@[simp] theorem client_disposeWakeup : x.disposeWakeup.client = x.client := by
  unfold disposeWakeup
  split <;> rfl

@[simp] theorem timers_disposeWakeup : x.disposeWakeup.timers = x.timers := by
  unfold disposeWakeup
  split <;> rfl

@[simp] theorem disposed_disposeWakeup : x.disposeWakeup.disposed = x.disposed := by
  unfold disposeWakeup
  split <;> rfl

@[simp] theorem reconnectTimer_disposeWakeup : x.disposeWakeup.reconnectTimer = x.reconnectTimer := by
  unfold disposeWakeup
  split <;> rfl

@[simp] theorem phaseOf_dropClient (i : Nat) : x.dropClient.phaseOf i = x.phaseOf i := by
  unfold dropClient
  split
  · rfl
  · exact x.phaseOf_logout _ i

@[simp] theorem isWired_dropClient (i : Nat) : x.dropClient.isWired i = x.isWired i := by
  unfold dropClient
  split
  · rfl
  · exact x.isWired_logout _ i

@[simp] theorem isConnected_dropClient (i : Nat) :
    x.dropClient.isConnected i = if x.client = some i then false else x.isConnected i := by
  unfold dropClient
  split
  · rename_i h
    simp [h]
  · rename_i c h
    have hconnected := x.isConnected_logout c i
    simp only [h, Option.some.injEq]
    exact hconnected

@[simp] theorem wakeupOf_dropClient (i : Nat) : x.dropClient.wakeupOf i = x.wakeupOf i := by
  unfold dropClient
  split
  · rfl
  · exact x.wakeupOf_logout _ i

@[simp] theorem client_dropClient : x.dropClient.client = none := by
  unfold dropClient
  split
  · assumption
  · rfl

@[simp] theorem wakeup_dropClient : x.dropClient.wakeup = x.wakeup := by
  unfold dropClient
  split <;> rfl

@[simp] theorem timers_dropClient : x.dropClient.timers = x.timers := by
  unfold dropClient
  split <;> rfl

@[simp] theorem disposed_dropClient : x.dropClient.disposed = x.disposed := by
  unfold dropClient
  split <;> rfl

@[simp] theorem reconnectTimer_dropClient : x.dropClient.reconnectTimer = x.reconnectTimer := by
  unfold dropClient
  split <;> rfl

/-- A teardown empties both slots and wakes the run that waits on the entry's wakeup. -/
@[simp] theorem phaseOf_teardownConnection (i : Nat) :
    x.teardownConnection.phaseOf i = (x.phaseOf i).map fun p => if x.woken i then p.wake else p := by
  simp [teardownConnection]

@[simp] theorem isWired_teardownConnection (i : Nat) : x.teardownConnection.isWired i = x.isWired i := by
  simp [teardownConnection]

@[simp] theorem isConnected_teardownConnection (i : Nat) :
    x.teardownConnection.isConnected i = if x.client = some i then false else x.isConnected i := by
  simp [teardownConnection]

@[simp] theorem wakeupOf_teardownConnection (i : Nat) :
    x.teardownConnection.wakeupOf i =
      if x.wakeup = some i then (x.wakeupOf i).map Wakeup.dispose else x.wakeupOf i := by
  simp [teardownConnection]

@[simp] theorem wakeup_teardownConnection : x.teardownConnection.wakeup = none := by
  simp [teardownConnection]

@[simp] theorem client_teardownConnection : x.teardownConnection.client = none := by
  simp [teardownConnection]

@[simp] theorem timers_teardownConnection : x.teardownConnection.timers = x.timers := by
  simp [teardownConnection]

@[simp] theorem disposed_teardownConnection : x.teardownConnection.disposed = x.disposed := by
  simp [teardownConnection]

@[simp] theorem reconnectTimer_teardownConnection :
    x.teardownConnection.reconnectTimer = x.reconnectTimer := by
  simp [teardownConnection]

/-- A timer that has fired or was cleared: it is no longer pending, and the slot is empty. -/
def elapsed (x : SourceEntry) (t : Nat) : SourceEntry :=
  { x with
    timers := x.timers.modify t fun timer => { timer with pending := false }
    reconnectTimer := none }

theorem isPending_elapsed {x : SourceEntry} {t i : Nat} (h : (x.elapsed t).isPending i = true) :
    i ≠ t ∧ x.isPending i = true := by
  unfold isPending elapsed at h
  simp only [List.getElem?_modify] at h
  unfold isPending
  cases hget : x.timers[i]? with
  | none =>
    rw [hget] at h
    cases h
  | some timer =>
    rw [hget] at h
    by_cases hi : t = i
    · simp [hi] at h
    · refine ⟨Ne.symm hi, ?_⟩
      simpa [hi] using h

theorem isPending_snoc {x x' : SourceEntry} {timer : ReconnectTimer} {t : Nat}
    (htimers : x'.timers = x.timers ++ [timer]) (hpending : ∀ t, x.isPending t = false)
    (ht : x'.isPending t = true) : t = x.timers.length := by
  unfold isPending at ht
  rw [htimers] at ht
  cases hget : (x.timers ++ [timer])[t]? with
  | none =>
    rw [hget] at ht
    cases ht
  | some timer' =>
    rcases getElem?_snoc_cases hget with hold | ⟨hnew, _⟩
    · have hnot := hpending t
      unfold isPending at hnot
      rw [hold] at hnot
      rw [hget, hnot] at ht
      cases ht
    · exact hnew

/-- `disposeEntry` before its teardown. -/
def disposing (x : SourceEntry) : SourceEntry :=
  match x.reconnectTimer with
  | none => { x with disposed := true }
  | some t => { x.elapsed t with disposed := true }

theorem disposeEntry_eq : x.disposeEntry = x.disposing.teardownConnection := by
  unfold disposeEntry disposing
  cases x.reconnectTimer <;> rfl

theorem runs_disposing : x.disposing.runs = x.runs := by
  unfold disposing
  split <;> rfl

theorem slots_disposing : x.disposing.client = x.client ∧ x.disposing.wakeup = x.wakeup := by
  unfold disposing
  split <;> exact ⟨rfl, rfl⟩

@[simp] theorem client_disposeEntry : x.disposeEntry.client = none := by
  simp [disposeEntry_eq]

@[simp] theorem wakeup_disposeEntry : x.disposeEntry.wakeup = none := by
  simp [disposeEntry_eq]

@[simp] theorem disposed_disposeEntry : x.disposeEntry.disposed = true := by
  rw [disposeEntry_eq, disposed_teardownConnection]
  unfold disposing
  split <;> rfl

@[simp] theorem reconnectTimer_disposeEntry : x.disposeEntry.reconnectTimer = none := by
  rw [disposeEntry_eq, reconnectTimer_teardownConnection]
  unfold disposing
  split
  · assumption
  · rfl

@[simp] theorem phaseOf_disposeEntry (i : Nat) :
    x.disposeEntry.phaseOf i = (x.phaseOf i).map fun p => if x.woken i then p.wake else p := by
  have hphase : x.disposing.phaseOf i = x.phaseOf i := by
    unfold phaseOf
    rw [runs_disposing]
  have hwoken : x.disposing.woken i ↔ x.woken i := by
    unfold woken resolver
    rw [x.slots_disposing.2, runs_disposing]
  rw [disposeEntry_eq, phaseOf_teardownConnection, hphase]
  simp only [hwoken]

@[simp] theorem isWired_disposeEntry (i : Nat) : x.disposeEntry.isWired i = x.isWired i := by
  rw [disposeEntry_eq, isWired_teardownConnection]
  unfold isWired
  rw [runs_disposing]

@[simp] theorem isConnected_disposeEntry (i : Nat) :
    x.disposeEntry.isConnected i = if x.client = some i then false else x.isConnected i := by
  rw [disposeEntry_eq, isConnected_teardownConnection, x.slots_disposing.1]
  unfold isConnected
  rw [runs_disposing]

@[simp] theorem wakeupOf_disposeEntry (i : Nat) :
    x.disposeEntry.wakeupOf i =
      if x.wakeup = some i then (x.wakeupOf i).map Wakeup.dispose else x.wakeupOf i := by
  rw [disposeEntry_eq, wakeupOf_teardownConnection, x.slots_disposing.2]
  unfold wakeupOf
  rw [runs_disposing]

theorem isPending_disposeEntry {x : SourceEntry} {t : Nat} (h : x.disposeEntry.isPending t = true) :
    x.reconnectTimer ≠ some t ∧ x.isPending t = true := by
  have hdisposing : x.disposing.isPending t = true := by
    rw [disposeEntry_eq] at h
    unfold isPending at h ⊢
    rw [timers_teardownConnection] at h
    exact h
  unfold disposing at hdisposing
  split at hdisposing
  · rename_i hnone
    rw [hnone]
    exact ⟨by simp, hdisposing⟩
  · rename_i s hs
    obtain ⟨hne, hpending⟩ := isPending_elapsed hdisposing
    rw [hs]
    exact ⟨fun heq => hne (Option.some.inj heq).symm, hpending⟩

/-- The entry with a `runEntry` call more. -/
def started (x : SourceEntry) : SourceEntry := { x with runs := x.runs ++ [Run.create] }

theorem runs_started {i : Nat} {run : Run} (h : x.started.runs[i]? = some run) :
    x.runs[i]? = some run ∨ (x.runs[i]? = none ∧ i = x.runs.length ∧ run = Run.create) := by
  rcases getElem?_snoc_cases h with hold | ⟨hi, hrun⟩
  · exact Or.inl hold
  · exact Or.inr ⟨List.getElem?_eq_none (Nat.le_of_eq hi.symm), hi, hrun⟩

theorem runs_started_cases (i : Nat) :
    x.started.runs[i]? = x.runs[i]? ∨ (x.runs[i]? = none ∧ x.started.runs[i]? = some Run.create) := by
  cases hget : x.started.runs[i]? with
  | none =>
    left
    have hlength : x.runs.length + 1 ≤ i := by simpa [started] using List.getElem?_eq_none_iff.mp hget
    exact (List.getElem?_eq_none (by omega)).symm
  | some run =>
    rcases x.runs_started hget with hold | ⟨hnone, _, rfl⟩
    · exact Or.inl hold.symm
    · exact Or.inr ⟨hnone, rfl⟩

/-- The new run reads as no run, but for its phase. -/
theorem read_started {β : Type} (g : Option Run → β) (i : Nat) (hg : g (some Run.create) = g none) :
    g x.started.runs[i]? = g x.runs[i]? := by
  rcases x.runs_started_cases i with hold | ⟨hnone, hnew⟩
  · rw [hold]
  · rw [hnone, hnew]
    exact hg

@[simp] theorem isWired_started (i : Nat) : x.started.isWired i = x.isWired i :=
  x.read_started (fun run => (run.map Run.wired).getD false) i rfl

@[simp] theorem isConnected_started (i : Nat) : x.started.isConnected i = x.isConnected i :=
  x.read_started (fun run => (run.map Run.connected).getD false) i rfl

@[simp] theorem wakeupOf_started (i : Nat) : x.started.wakeupOf i = x.wakeupOf i :=
  x.read_started (fun run => run.bind Run.wakeup) i rfl

theorem phaseOf_started_of_some {i : Nat} {p : Phase} (h : x.phaseOf i = some p) :
    x.started.phaseOf i = some p := by
  obtain ⟨run, hrun, rfl⟩ := Option.map_eq_some_iff.mp h
  simp [phaseOf, started, getElem?_snoc_of_some hrun]

/-! ## One step of a drain -/

/-- A drain goes on or ends; a new fetch only happens on a live entry, a `fire` only after a fetch. -/
structure DrainMove (x : SourceEntry) (d : Drain) (p : Phase) (fetched fired : List (Nat × Bool)) : Prop where
  target : (∃ d', p = .draining d' ∧ d'.client = d.client ∧ d'.inLoop = d.inLoop ∧
      (d'.stage.uncertain = true → x.disposed = true → d.stage.uncertain = true)) ∨
    ∃ failed, p = .drained d.client d.inLoop failed
  fetches : fetched = [] ∨ ∃ uid, fetched = [(uid, false)]
  fires : fired = [] ∨ ∃ uid, fired = [(uid, x.disposed)] ∧ d.stage.uncertain = true ∧
    ∃ d', p = .draining d' ∧ d'.stage.uncertain = false

/-- The update of a run that a drain step makes. -/
def drainUpdate (p : Phase) (fetched fired : List (Nat × Bool)) (run : Run) : Run :=
  { run with phase := p, fetched := run.fetched ++ fetched, fired := run.fired ++ fired }

theorem setPhase_eq_drainUpdate (x : SourceEntry) (r : Nat) (p : Phase) :
    x.setPhase r p = x.modifyRun r (drainUpdate p [] []) := by
  unfold setPhase
  congr
  funext run
  simp [drainUpdate]

theorem setPhase_moves {x : SourceEntry} {r : Nat} {d : Drain} {p : Phase} (h : DrainMove x d p [] []) :
    ∃ p' fetched fired, x.setPhase r p = x.modifyRun r (drainUpdate p' fetched fired) ∧
      DrainMove x d p' fetched fired :=
  ⟨p, [], [], setPhase_eq_drainUpdate x r p, h⟩

theorem finishDrain_moves (x : SourceEntry) (r : Nat) {d d' : Drain} (hclient : d'.client = d.client)
    (hloop : d'.inLoop = d.inLoop) :
    ∃ p fetched fired, x.finishDrain r d' = x.modifyRun r (drainUpdate p fetched fired) ∧
      DrainMove x d p fetched fired := by
  unfold finishDrain
  split
  · refine setPhase_moves ⟨Or.inr ⟨false, ?_⟩, Or.inl rfl, Or.inl rfl⟩
    rw [hclient, hloop]
  · refine setPhase_moves ⟨Or.inl ⟨_, rfl, hclient, hloop, ?_⟩, Or.inl rfl, Or.inl rfl⟩
    intro h
    cases h

theorem nextUid_moves (x : SourceEntry) (r : Nat) {d d' : Drain} (hclient : d'.client = d.client)
    (hloop : d'.inLoop = d.inLoop) (uids : List Nat) :
    ∃ p fetched fired, x.nextUid r d' uids = x.modifyRun r (drainUpdate p fetched fired) ∧
      DrainMove x d p fetched fired := by
  cases uids with
  | nil => exact finishDrain_moves x r hclient hloop
  | cons uid rest =>
    simp only [nextUid]
    split
    · exact finishDrain_moves x r hclient hloop
    · rename_i hlive
      have hlive : x.disposed = false := by simpa using hlive
      refine ⟨.draining { d' with stage := .fetching uid rest }, [(uid, x.disposed)], [], ?_,
        ⟨Or.inl ⟨_, rfl, hclient, hloop, ?_⟩, ?_, Or.inl rfl⟩⟩
      · congr
        funext run
        simp [drainUpdate]
      · intro _ hdisposed
        rw [hlive] at hdisposed
        cases hdisposed
      · exact Or.inr ⟨uid, by rw [hlive]⟩

theorem applyDispositions_moves (x : SourceEntry) (r : Nat) (d : Drain) (uid : Nat) (rest : List Nat)
    (commands : List String) :
    ∃ p fetched fired,
      x.applyDispositions r d uid rest commands = x.modifyRun r (drainUpdate p fetched fired) ∧
        DrainMove x d p fetched fired := by
  cases commands with
  | nil => exact nextUid_moves x r rfl rfl rest
  | cons c cs =>
    refine setPhase_moves ⟨Or.inl ⟨_, rfl, rfl, rfl, ?_⟩, Or.inl rfl, Or.inl rfl⟩
    intro h
    cases h

theorem fatal_moves (x : SourceEntry) (r : Nat) (d : Drain) :
    ∃ p fetched fired, x.fatal r d = x.modifyRun r (drainUpdate p fetched fired) ∧
      DrainMove x d p fetched fired := by
  refine setPhase_moves ⟨Or.inl ⟨_, rfl, rfl, rfl, ?_⟩, Or.inl rfl, Or.inl rfl⟩
  intro h
  cases h

theorem fetchFailed_moves (x : SourceEntry) (r : Nat) (d : Drain) (uid : Nat) (rest : List Nat) :
    ∃ p fetched fired, x.fetchFailed r d uid rest = x.modifyRun r (drainUpdate p fetched fired) ∧
      DrainMove x d p fetched fired := by
  have hclient : { d with failedFetchUids := d.failedFetchUids ++ [uid] }.client = d.client := rfl
  exact nextUid_moves x r hclient rfl rest

theorem fire_moves (x : SourceEntry) (r : Nat) {d : Drain} {uid : Nat} {rest : List Nat}
    (hstage : d.stage = .parsing uid rest) :
    ∃ p fetched fired, x.fire r d uid rest = x.modifyRun r (drainUpdate p fetched fired) ∧
      DrainMove x d p fetched fired := by
  have huncertain : d.stage.uncertain = true := by
    rw [hstage]
    rfl
  refine ⟨.draining { d with stage := .firing uid rest }, [], [(uid, x.disposed)], ?_, ?_⟩
  · unfold fire
    congr
    funext run
    simp [drainUpdate]
  · refine ⟨Or.inl ⟨_, rfl, rfl, rfl, ?_⟩, Or.inl rfl, Or.inr ⟨uid, rfl, huncertain, _, rfl, rfl⟩⟩
    intro h
    cases h

theorem drainStep_moves {x x' : SourceEntry} {r : Nat} {d : Drain} {event : DrainEvent}
    (h : x.drainStep r d d.stage event = some x') :
    ∃ p fetched fired, x' = x.modifyRun r (drainUpdate p fetched fired) ∧
      DrainMove x d p fetched fired := by
  unfold drainStep at h
  split at h
  · obtain rfl := Option.some.inj h
    exact fatal_moves x r d
  · obtain rfl := Option.some.inj h
    exact nextUid_moves x r rfl rfl _
  · rename_i uid rest hstage
    obtain rfl := Option.some.inj h
    refine setPhase_moves ⟨Or.inl ⟨_, rfl, rfl, rfl, ?_⟩, Or.inl rfl, Or.inl rfl⟩
    intro _ _
    rw [hstage]
    rfl
  · obtain rfl := Option.some.inj h
    exact fetchFailed_moves x r d _ _
  · rename_i uid rest hstage
    obtain rfl := Option.some.inj h
    exact fire_moves x r hstage
  · obtain rfl := Option.some.inj h
    exact fetchFailed_moves x r d _ _
  · obtain rfl := Option.some.inj h
    exact applyDispositions_moves x r d _ _ _
  · obtain rfl := Option.some.inj h
    exact applyDispositions_moves x r d _ _ _
  · obtain rfl := Option.some.inj h
    exact fatal_moves x r d
  · obtain rfl := Option.some.inj h
    exact setPhase_moves ⟨Or.inr ⟨_, rfl⟩, Or.inl rfl, Or.inl rfl⟩
  · cases h

/-! ## What a step can do -/

section Effect

/-- `scheduleReconnect` past its guard. -/
def rescheduled (x : SourceEntry) : SourceEntry :=
  { x.teardownConnection with
    timers := x.timers ++ [⟨nextDelay x.failures, true⟩]
    reconnectTimer := some x.timers.length }

/-- The guard of `scheduleReconnect`, `runEntry`, `onConnectionLost` and the main loop. -/
def Alive (current : Bool) (x : SourceEntry) : Prop := x.disposed = false ∧ current = true

instance (current : Bool) (x : SourceEntry) : Decidable (x.Alive current) :=
  inferInstanceAs (Decidable (_ ∧ _))

/-- The steps of an entry, read past their branches and up to the failure counter. -/
inductive Effect (current : Bool) (x : SourceEntry) : EntryAction → SourceEntry → Prop where
  | connectRejected {r : Nat} (hp : x.phaseOf r = some .connecting) :
      Effect current x (.connected r .rejected) (x.setPhase r .reportingConnect)
  | idleMissing {r : Nat} {idle : Bool} (hp : x.phaseOf r = some .connecting)
      (hidle : x.descriptor.mode = .idle ∧ idle = false) :
      Effect current x (.connected r (.accepted idle))
        (x.modifyRun r fun run => { run with phase := .reportingConnect, connected := true })
  | connectAccepted {r : Nat} {idle : Bool} (hp : x.phaseOf r = some .connecting)
      (hidle : ¬(x.descriptor.mode = .idle ∧ idle = false)) :
      Effect current x (.connected r (.accepted idle))
        { x.modifyRun r fun run =>
            { run with
              phase := .opening
              connected := true
              wakeup := some (Wakeup.create x.descriptor.mode) } with
          wakeup := some r }
  | reportedConnect {r : Nat} (hp : x.phaseOf r = some .reportingConnect) :
      Effect current x (.reported r) ((x.logout r).setPhase r .loggingOut)
  | reportedOpen {r w : Nat} (hp : x.phaseOf r = some .reportingOpen) (hw : x.wakeup = some w) :
      Effect current x (.reported r) ((x.disposeWakeup.logout r).setPhase r .loggingOut)
  | reportedOpenUnset {r : Nat} (hp : x.phaseOf r = some .reportingOpen) (hw : x.wakeup = none) :
      Effect current x (.reported r) (x.setPhase r .returned)
  | openAccepted {r : Nat} (hp : x.phaseOf r = some .opening) :
      Effect current x (.opened r true)
        { x.modifyRun r fun run =>
            { run with phase := .draining ⟨r, false, [], .searching⟩, wired := true } with
          client := some r }
  | openFailed {r : Nat} (hp : x.phaseOf r = some .opening) :
      Effect current x (.opened r false) (x.setPhase r .reportingOpen)
  | drained {r : Nat} {d : Drain} {event : DrainEvent} {p : Phase} {fetched fired : List (Nat × Bool)}
      (hp : x.phaseOf r = some (.draining d)) (hmove : DrainMove x d p fetched fired) :
      Effect current x (.drain r event) (x.modifyRun r (drainUpdate p fetched fired))
  | gaveUp {r : Nat} {p : Phase} {a : EntryAction} (hp : x.phaseOf r = some p)
      (ha : p = .loggingOut ∧ a = .loggedOut r ∨ (∃ c l, p = .drained c l true) ∧ a = .resumed r)
      (hlive : x.Alive current) :
      Effect current x a (x.rescheduled.setPhase r .returned)
  | gaveUpDead {r : Nat} {p : Phase} {a : EntryAction} (hp : x.phaseOf r = some p)
      (ha : p = .loggingOut ∧ a = .loggedOut r ∨ (∃ c l, p = .drained c l true) ∧ a = .resumed r)
      (hdead : ¬x.Alive current) :
      Effect current x a (x.setPhase r .returned)
  | setUp {r c : Nat} (hp : x.phaseOf r = some (.drained c false false)) :
      Effect current x (.resumed r) (x.setPhase r .ready)
  | loopLeft {r : Nat} {p : Phase} (hp : x.phaseOf r = some p)
      (hloop : p = .ready ∨ ∃ c, p = .drained c true false) :
      Effect current x (.resumed r) (x.setPhase r .returned)
  | loopEntered {r w c : Nat} {p : Phase} {k : Wakeup} (hp : x.phaseOf r = some p)
      (hloop : p = .ready ∨ ∃ c, p = .drained c true false) (hlive : x.Alive current)
      (hw : x.wakeup = some w) (hc : x.client = some c) (hk : x.wakeupOf w = some k) :
      Effect current x (.resumed r)
        ((x.updateWakeup w (fun _ => (k.next r).1) false).setPhase r
          (if (k.next r).2 then .woken c else .waiting w c))
  | wokenDead {r c : Nat} (hp : x.phaseOf r = some (.woken c))
      (hdead : ¬(x.Alive current ∧ x.client = some c)) :
      Effect current x (.resumed r) (x.setPhase r .returned)
  | wokenLive {r c : Nat} (hp : x.phaseOf r = some (.woken c)) (hlive : x.Alive current)
      (hc : x.client = some c) :
      Effect current x (.resumed r) (x.setPhase r (.draining ⟨c, true, [], .searching⟩))
  | notified {w : Nat} {k : Wakeup} (hk : x.wakeupOf w = some k) :
      Effect current x (.notified w) (x.updateWakeup w Wakeup.notify true)
  | pollTimer {w t : Nat} {k : Wakeup} (hk : x.wakeupOf w = some k) (ht : t ∈ k.timers) :
      Effect current x (.pollTimer w t) (x.updateWakeup w (·.timerFired t) true)
  | connectionLost {c : Nat} {event : LossEvent} {y : SourceEntry} (hy : y = x ∨ y = x.logout c)
      (hwired : x.isWired c = true) (hlive : x.Alive current)
      (hset : ¬(x.client = none ∧ x.wakeup = none)) :
      Effect current x (.connectionLost c event) y.rescheduled
  | connectionIgnored {c : Nat} {event : LossEvent} {y : SourceEntry} (hy : y = x ∨ y = x.logout c)
      (hwired : x.isWired c = true) (hidle : x.Alive current → x.client = none ∧ x.wakeup = none) :
      Effect current x (.connectionLost c event) y
  | reconnected {t : Nat} (ht : x.isPending t = true) (hlive : x.Alive current) :
      Effect current x (.reconnectTimer t) (x.elapsed t).started
  | reconnectedDead {t : Nat} (ht : x.isPending t = true) (hdead : ¬x.Alive current) :
      Effect current x (.reconnectTimer t) (x.elapsed t)

variable {current : Bool} {x x' : SourceEntry}

theorem alive_iff : x.Alive current ↔ (x.disposed || !current) = false := by
  simp [Alive]

@[simp] theorem failures_teardownConnection : x.teardownConnection.failures = x.failures := by
  have hwakeup : x.disposeWakeup.failures = x.failures := by
    unfold disposeWakeup
    split <;> rfl
  rw [← hwakeup]
  unfold teardownConnection dropClient
  split <;> rfl

theorem scheduleReconnect_of_alive (h : x.Alive current) : scheduleReconnect current x = x.rescheduled := by
  unfold scheduleReconnect
  rw [alive_iff.mp h]
  simp [rescheduled]

theorem scheduleReconnect_of_not_alive (h : ¬x.Alive current) : scheduleReconnect current x = x := by
  unfold scheduleReconnect
  rw [alive_iff, Bool.not_eq_false] at h
  rw [h]
  rfl

theorem runEntry_of_alive (h : x.Alive current) :
    runEntry current x = x.started := by
  unfold runEntry
  rw [alive_iff.mp h]
  rfl

theorem runEntry_of_not_alive (h : ¬x.Alive current) : runEntry current x = x := by
  unfold runEntry
  rw [alive_iff, Bool.not_eq_false] at h
  rw [h]
  rfl

theorem gaveUp_effect {r : Nat} {p : Phase} {a : EntryAction} (n : Nat) (hp : x.phaseOf r = some p)
    (ha : p = .loggingOut ∧ a = .loggedOut r ∨ (∃ c l, p = .drained c l true) ∧ a = .resumed r) :
    Effect current { x with failures := n } a
      ((scheduleReconnect current { x with failures := n }).setPhase r .returned) := by
  by_cases hlive : { x with failures := n }.Alive current
  · rw [scheduleReconnect_of_alive hlive]
    exact .gaveUp hp ha hlive
  · rw [scheduleReconnect_of_not_alive hlive]
    exact .gaveUpDead hp ha hlive

theorem enterLoop_effect {r : Nat} {p : Phase} (hp : x.phaseOf r = some p)
    (hloop : p = .ready ∨ ∃ c, p = .drained c true false) :
    Effect current x (.resumed r) (enterLoop current x r) := by
  unfold enterLoop
  split
  · exact .loopLeft hp hloop
  · rename_i hlive
    have hlive : x.Alive current := alive_iff.mpr (by simpa using hlive)
    split
    · rename_i w c hw hc
      split
      · exact .loopLeft hp hloop
      · rename_i k hk
        exact .loopEntered hp hloop hlive hw hc hk
    · exact .loopLeft hp hloop

theorem afterWake_effect {r c : Nat} (hp : x.phaseOf r = some (.woken c)) :
    Effect current x (.resumed r) (afterWake current x r c) := by
  unfold afterWake
  split
  · rename_i hdead
    refine .wokenDead hp ?_
    intro hlive
    rw [alive_iff.mp hlive.1] at hdead
    cases hdead
  · rename_i hlive
    have hlive : x.Alive current := alive_iff.mpr (by simpa using hlive)
    split
    · rename_i hc
      exact .wokenDead hp fun h => hc h.2
    · rename_i hc
      exact .wokenLive hp hlive (by simpa using hc)

theorem onConnectionLost_effect {c : Nat} {event : LossEvent} {y : SourceEntry}
    (hy : y = x ∨ y = x.logout c) (hwired : x.isWired c = true) :
    ∃ n m z, Effect current { x with failures := n } (.connectionLost c event) z ∧
      onConnectionLost current y = { z with failures := m } := by
  have hsame : y.disposed = x.disposed ∧ y.client = x.client ∧ y.wakeup = x.wakeup := by
    rcases hy with rfl | rfl <;> exact ⟨rfl, rfl, rfl⟩
  obtain ⟨hdisposed, hclient, hwakeup⟩ := hsame
  have hguard : y.Alive current ↔ x.Alive current := by
    unfold Alive
    rw [hdisposed]
  unfold onConnectionLost
  by_cases hlive : x.Alive current
  · rw [alive_iff.mp (hguard.mpr hlive)]
    simp only [Bool.false_eq_true, if_false]
    split
    · rename_i hidle
      rw [hclient, hwakeup] at hidle
      exact ⟨x.failures, _, _, .connectionIgnored hy hwired fun _ => hidle, rfl⟩
    · rename_i hset
      rw [hclient, hwakeup] at hset
      have hlive' : { y with failures := y.failures + 1 }.Alive current := hguard.mpr hlive
      rw [scheduleReconnect_of_alive hlive']
      refine ⟨y.failures + 1, _, _, .connectionLost ?_ hwired hlive hset, rfl⟩
      rcases hy with rfl | rfl
      · exact Or.inl rfl
      · exact Or.inr rfl
  · have hdead : (y.disposed || !current) = true := by
      rw [← Bool.not_eq_false, ← alive_iff]
      exact fun h => hlive (hguard.mp h)
    rw [if_pos hdead]
    exact ⟨x.failures, _, _, .connectionIgnored hy hwired fun h => absurd h hlive, rfl⟩

theorem exists_effect {a : EntryAction} (h : Effect current x a x') :
    ∃ n m y, Effect current { x with failures := n } a y ∧ x' = { y with failures := m } :=
  ⟨x.failures, x'.failures, x', h, rfl⟩

theorem afterConnect_effect {r : Nat} (hp : x.phaseOf r = some .connecting) (outcome : ConnectOutcome) :
    Effect current x (.connected r outcome) (x.afterConnect r outcome) := by
  cases outcome with
  | rejected => exact .connectRejected hp
  | accepted idle =>
    simp only [afterConnect]
    split
    · rename_i hidle
      exact .idleMissing hp hidle
    · rename_i hidle
      exact .connectAccepted hp hidle

theorem afterReport_effect {r : Nat} {p : Phase} (hp : x.phaseOf r = some p)
    (h : x.afterReport r p = some x') : Effect current x (.reported r) x' := by
  unfold afterReport at h
  split at h
  · obtain rfl := Option.some.inj h
    exact .reportedConnect hp
  · split at h
    · rename_i hw
      obtain rfl := Option.some.inj h
      exact .reportedOpenUnset hp hw
    · rename_i hw
      obtain ⟨w, hw⟩ := Option.ne_none_iff_exists'.mp hw
      obtain rfl := Option.some.inj h
      exact .reportedOpen hp hw
  · cases h

theorem resume_effect {r : Nat} {p : Phase} (hp : x.phaseOf r = some p)
    (h : resume current x r p = some x') :
    ∃ n m y, Effect current { x with failures := n } (.resumed r) y ∧ x' = { y with failures := m } := by
  unfold resume at h
  split at h
  · rename_i c failed
    obtain rfl := Option.some.inj h
    cases failed with
    | true => exact ⟨x.failures, _, _, gaveUp_effect _ hp (Or.inr ⟨⟨_, _, rfl⟩, rfl⟩), rfl⟩
    | false => exact ⟨0, _, _, .setUp hp, rfl⟩
  · rename_i c failed
    obtain rfl := Option.some.inj h
    cases failed with
    | true => exact ⟨x.failures + 1, _, _, gaveUp_effect _ hp (Or.inr ⟨⟨_, _, rfl⟩, rfl⟩), rfl⟩
    | false =>
      have hp' : { x with failures := 0 }.phaseOf r = some (.drained c true false) := hp
      exact ⟨0, _, _, enterLoop_effect hp' (Or.inr ⟨c, rfl⟩), rfl⟩
  · obtain rfl := Option.some.inj h
    exact exists_effect (enterLoop_effect hp (Or.inl rfl))
  · obtain rfl := Option.some.inj h
    exact exists_effect (afterWake_effect hp)
  · cases h

theorem reconnectTimer_effect {t : Nat} (ht : x.isPending t = true) :
    Effect current x (.reconnectTimer t) (runEntry current (x.elapsed t)) := by
  by_cases hlive : x.Alive current
  · have hlive' : (x.elapsed t).Alive current := hlive
    rw [runEntry_of_alive hlive']
    exact .reconnected ht hlive
  · have hdead : ¬(x.elapsed t).Alive current := hlive
    rw [runEntry_of_not_alive hdead]
    exact .reconnectedDead ht hlive

theorem step_effect {a : EntryAction} (h : x.step current a = some x') :
    ∃ n m y, Effect current { x with failures := n } a y ∧ x' = { y with failures := m } := by
  cases a with
  | connected r outcome =>
    simp only [step] at h
    split at h
    · rename_i hp
      obtain rfl := Option.some.inj h
      exact exists_effect (afterConnect_effect hp outcome)
    · cases h
  | reported r =>
    obtain ⟨p, hp, hreport⟩ := Option.bind_eq_some_iff.mp h
    exact exists_effect (afterReport_effect hp hreport)
  | loggedOut r =>
    simp only [step] at h
    split at h
    · rename_i hp
      obtain rfl := Option.some.inj h
      exact ⟨x.failures + 1, _, _, gaveUp_effect _ hp (Or.inl ⟨rfl, rfl⟩), rfl⟩
    · cases h
  | opened r ok =>
    simp only [step] at h
    split at h
    · rename_i hp
      obtain rfl := Option.some.inj h
      apply exists_effect
      cases ok with
      | false => exact .openFailed hp
      | true => exact .openAccepted hp
    · cases h
  | drain r event =>
    simp only [step] at h
    split at h
    · rename_i d hp
      obtain ⟨p, fetched, fired, rfl, hmove⟩ := drainStep_moves h
      exact exists_effect (.drained hp hmove)
    · cases h
  | resumed r =>
    obtain ⟨p, hp, hresume⟩ := Option.bind_eq_some_iff.mp h
    exact resume_effect hp hresume
  | notified w =>
    simp only [step] at h
    split at h
    · rename_i k hk
      split at h
      · obtain rfl := Option.some.inj h
        exact exists_effect (.notified hk)
      · cases h
    · cases h
  | pollTimer w t =>
    simp only [step] at h
    split at h
    · rename_i k hk
      split at h
      · rename_i ht
        obtain rfl := Option.some.inj h
        exact exists_effect (.pollTimer hk ht)
      · cases h
    · cases h
  | connectionLost c event =>
    simp only [step] at h
    split at h
    · rename_i hwired
      obtain rfl := Option.some.inj h
      apply onConnectionLost_effect _ hwired
      cases event with
      | close => exact Or.inr rfl
      | error => exact Or.inl rfl
    · cases h
  | reconnectTimer t =>
    simp only [step] at h
    split at h
    · rename_i ht
      obtain rfl := Option.some.inj h
      exact exists_effect (reconnectTimer_effect ht)
    · cases h

end Effect

end SourceEntry

/-! ## Invariants of every entry -/

namespace SourceEntry

/-- What `isCurrent` looks an entry up by. -/
def identity (x : SourceEntry) : String × String × Descriptor := (x.owner, x.repo, x.descriptor)

@[simp] theorem identity_teardownConnection (x : SourceEntry) :
    x.teardownConnection.identity = x.identity := by
  have hwakeup : x.disposeWakeup.identity = x.identity := by
    unfold disposeWakeup
    split <;> rfl
  rw [← hwakeup]
  unfold teardownConnection dropClient
  split <;> rfl

@[simp] theorem identity_rescheduled (x : SourceEntry) : x.rescheduled.identity = x.identity :=
  x.identity_teardownConnection

theorem identity_effect {current : Bool} {x x' : SourceEntry} {a : EntryAction}
    (h : Effect current x a x') : x'.identity = x.identity := by
  cases h with
  | reportedOpen hp hw =>
    unfold disposeWakeup
    split <;> rfl
  | gaveUp hp ha hlive => exact x.identity_rescheduled
  | connectionLost hy hwired hlive hset =>
    rw [identity_rescheduled]
    rcases hy with rfl | rfl <;> rfl
  | connectionIgnored hy hwired hidle => rcases hy with rfl | rfl <;> rfl
  | _ => rfl

theorem identity_step {current : Bool} {x x' : SourceEntry} {a : EntryAction}
    (h : x.step current a = some x') : x'.identity = x.identity := by
  obtain ⟨n, m, y, heffect, rfl⟩ := step_effect h
  have hid := identity_effect heffect
  exact hid

end SourceEntry

/-- `I` holds of every entry ever made, read with whether it is current. -/
def Each (I : Bool → SourceEntry → Prop) (s : ImapSource) : Prop :=
  ∀ (e : Nat) (x : SourceEntry), s.entries[e]? = some x → I (s.isCurrent e) x

section Each
variable {I : Bool → SourceEntry → Prop}

theorem isCurrent_eq {s : ImapSource} {e : Nat} {x : SourceEntry} (hx : s.entries[e]? = some x) :
    s.isCurrent e = true ↔ ∃ pairMap, s.pairs.get? (pairKey x.owner x.repo) = some pairMap ∧
      pairMap.get? (entryKey x.descriptor) = some e := by
  unfold ImapSource.isCurrent
  rw [hx]
  simp only
  cases s.pairs.get? (pairKey x.owner x.repo) with
  | none => simp
  | some pairMap => simp

/-- The pairs decide what is current; the entries only give the key. -/
theorem isCurrent_congr {s t : ImapSource} {e : Nat} {x y : SourceEntry} (hx : s.entries[e]? = some x)
    (hy : t.entries[e]? = some y) (hid : y.identity = x.identity)
    (hpairs : t.pairs.get? (pairKey x.owner x.repo) = s.pairs.get? (pairKey x.owner x.repo)) :
    t.isCurrent e = s.isCurrent e := by
  obtain ⟨howner, hrepo, hdescriptor⟩ :
      y.owner = x.owner ∧ y.repo = x.repo ∧ y.descriptor = x.descriptor := by
    simpa [SourceEntry.identity] using hid
  unfold ImapSource.isCurrent
  rw [hx, hy]
  simp only [howner, hrepo, hdescriptor, hpairs]

theorem entries_set {s : ImapSource} {e : Nat} {x : SourceEntry} (hx : s.entries[e]? = some x)
    (x' : SourceEntry) : (s.entries.set e x')[e]? = some x' := by
  simp [lt_of_getElem?_eq_some hx]

theorem isCurrent_set {s : ImapSource} {e : Nat} {x x' : SourceEntry} (hx : s.entries[e]? = some x)
    (hid : x'.identity = x.identity) :
    ImapSource.isCurrent { s with entries := s.entries.set e x' } e = s.isCurrent e :=
  isCurrent_congr hx (entries_set hx x') hid rfl

theorem each_entry {s : ImapSource} (hs : Each I s) {e : Nat} {x x' : SourceEntry}
    (hx : s.entries[e]? = some x) (hid : x'.identity = x.identity) (hx' : I (s.isCurrent e) x') :
    Each I { s with entries := s.entries.set e x' } := by
  intro f y hy
  rcases getElem?_set_cases hy with ⟨rfl, rfl⟩ | ⟨hne, hold⟩
  · rw [isCurrent_set hx hid]
    exact hx'
  · rw [isCurrent_congr hold hy rfl rfl]
    exact hs f y hold

theorem pairMapOf_ge (n : Nat) (ds : List Descriptor) {key : String} {e : Nat}
    (h : (ImapSource.pairMapOf n ds).get? key = some e) : n ≤ e := by
  have hfold : ∀ (es : List (Descriptor × Nat)) (m : OrderedMap String Nat),
      (∀ d ∈ es, n ≤ d.2) → (∀ k f, m.get? k = some f → n ≤ f) →
      ∀ k f, (es.foldl (fun m d => m.set (entryKey d.1) d.2) m).get? k = some f → n ≤ f := by
    intro es
    induction es with
    | nil =>
      intro m _ hm
      exact hm
    | cons d es ih =>
      intro m hes hm
      refine ih _ (fun d' hd' => hes d' (List.mem_cons_of_mem _ hd')) ?_
      intro k f hf
      rw [OrderedMap.get?_set] at hf
      split at hf
      · obtain rfl := Option.some.inj hf
        exact hes d List.mem_cons_self
      · exact hm k f hf
  refine hfold (ds.zipIdx n) .empty ?_ ?_ key e h
  · intro d hd
    exact List.le_snd_of_mem_zipIdx hd
  · intro k f hf
    cases hf

/-- The entries that an action disposes. -/
def ImapSource.cancelled (s : ImapSource) : SourceAction → List Nat
  | .reconfigure owner repo _ => ((s.pairs.get? (pairKey owner repo)).map OrderedMap.values).getD []
  | .stop => s.pairs.values.flatMap OrderedMap.values
  | .entry _ _ => []

/-- A side condition on the entry that an action steps, or on those it disposes. -/
def EntryOk (ok : Bool → SourceEntry → EntryAction → Prop) (okDispose : SourceEntry → Prop)
    (s : ImapSource) : SourceAction → Prop
  | .entry e a => ∀ x, s.entries[e]? = some x → ok (s.isCurrent e) x a
  | a => ∀ e x, e ∈ s.cancelled a → s.entries[e]? = some x → okDispose x

instance (ok : Bool → SourceEntry → EntryAction → Prop) [∀ current x a, Decidable (ok current x a)]
    (okDispose : SourceEntry → Prop) [∀ x, Decidable (okDispose x)] (s : ImapSource) :
    (a : SourceAction) → Decidable (EntryOk ok okDispose s a)
  | .entry e a =>
    decidable_of_iff (∀ x ∈ s.entries[e]?, ok (s.isCurrent e) x a) (by simp [EntryOk])
  | .reconfigure owner repo ds =>
    decidable_of_iff (∀ e ∈ s.cancelled (.reconfigure owner repo ds), ∀ x ∈ s.entries[e]?, okDispose x)
      (by simp only [EntryOk, Option.mem_def]; exact forall_congr' fun e => forall_comm)
  | .stop =>
    decidable_of_iff (∀ e ∈ s.cancelled .stop, ∀ x ∈ s.entries[e]?, okDispose x)
      (by simp only [EntryOk, Option.mem_def]; exact forall_congr' fun e => forall_comm)

theorem disposeAll_entries {s : ImapSource} {ids : List Nat} {e : Nat} {y : SourceEntry}
    (h : (s.disposeAll ids).entries[e]? = some y) :
    ∃ x, s.entries[e]? = some x ∧ ((e ∈ ids ∧ y = x.disposeEntry) ∨ (e ∉ ids ∧ y = x)) := by
  unfold ImapSource.disposeAll at h
  simp only [List.getElem?_mapIdx] at h
  obtain ⟨x, hx, rfl⟩ := Option.map_eq_some_iff.mp h
  refine ⟨x, hx, ?_⟩
  split
  · rename_i hids
    exact Or.inl ⟨hids, rfl⟩
  · rename_i hids
    exact Or.inr ⟨hids, rfl⟩

theorem cancelPair_eq (s : ImapSource) (owner repo : String) (ds : List Descriptor) :
    s.cancelPair (pairKey owner repo) = s.disposeAll (s.cancelled (.reconfigure owner repo ds)) := by
  unfold ImapSource.cancelPair
  split
  · rename_i hpair
    have hnone : s.entries.mapIdx (fun _ x => x) = s.entries := by
      apply List.ext_getElem?
      simp
    simp [ImapSource.cancelled, hpair, ImapSource.disposeAll, hnone]
  · rename_i pairMap hpair
    simp [ImapSource.cancelled, hpair]

/-- A current entry is one of those that a disposal of its pair reaches. -/
theorem current_mem_cancelled {s : ImapSource} {e : Nat} {x : SourceEntry} (hx : s.entries[e]? = some x)
    (hcurrent : s.isCurrent e = true) (ds : List Descriptor) :
    e ∈ s.cancelled (.reconfigure x.owner x.repo ds) ∧ e ∈ s.cancelled .stop := by
  obtain ⟨pairMap, hpair, hkey⟩ := (isCurrent_eq hx).mp hcurrent
  constructor
  · simp only [ImapSource.cancelled, hpair]
    exact OrderedMap.mem_values_of_get? hkey
  · exact List.mem_flatMap.mpr ⟨pairMap, OrderedMap.mem_values_of_get? hpair, OrderedMap.mem_values_of_get? hkey⟩

theorem reconfigure_entries {s : ImapSource} {owner repo : String} {ds : List Descriptor} {e : Nat}
    {y : SourceEntry} (h : (s.reconfigure owner repo ds).entries[e]? = some y) :
    (∃ x, s.entries[e]? = some x ∧ ((e ∈ s.cancelled (.reconfigure owner repo ds) ∧ y = x.disposeEntry) ∨
        (e ∉ s.cancelled (.reconfigure owner repo ds) ∧ y = x))) ∨
      ∃ owner repo d, y = (SourceEntry.create owner repo d).runEntry true := by
  unfold ImapSource.reconfigure at h
  simp only [cancelPair_eq s owner repo ds] at h
  split at h
  · exact Or.inl (disposeAll_entries h)
  · simp only [List.getElem?_append] at h
    split at h
    · exact Or.inl (disposeAll_entries h)
    · obtain ⟨d, _, rfl⟩ := List.mem_map.mp (List.mem_of_getElem? h)
      exact Or.inr ⟨owner, repo, d, rfl⟩

theorem reconfigure_pair_of_ne (s : ImapSource) {owner repo key : String} (ds : List Descriptor)
    (hkey : key ≠ pairKey owner repo) :
    (s.reconfigure owner repo ds).pairs.get? key = s.pairs.get? key := by
  have hsame : ∀ ids, (s.disposeAll ids).pairs = s.pairs := fun _ => rfl
  unfold ImapSource.reconfigure
  simp only [cancelPair_eq s owner repo ds, hsame]
  split
  · exact OrderedMap.get?_delete_of_ne _ hkey
  · rw [OrderedMap.get?_set_of_ne _ _ _ hkey]
    exact OrderedMap.get?_delete_of_ne _ hkey

/-- The pair that was configured holds new entries only. -/
theorem reconfigure_pair_ge {s : ImapSource} {owner repo : String} {ds : List Descriptor}
    {pairMap : OrderedMap String Nat} {key : String} {e : Nat}
    (hpair : (s.reconfigure owner repo ds).pairs.get? (pairKey owner repo) = some pairMap)
    (he : pairMap.get? key = some e) : s.entries.length ≤ e := by
  have hlength : ∀ ids, (s.disposeAll ids).entries.length = s.entries.length := by
    simp [ImapSource.disposeAll]
  unfold ImapSource.reconfigure at hpair
  simp only [cancelPair_eq s owner repo ds, hlength] at hpair
  split at hpair
  · rw [OrderedMap.get?_delete_self] at hpair
    cases hpair
  · rw [OrderedMap.get?_set_self] at hpair
    obtain rfl := Option.some.inj hpair
    exact pairMapOf_ge _ ds he

section Dispose
variable {okDispose : SourceEntry → Prop}
  (hfresh : ∀ current owner repo d, I current ((SourceEntry.create owner repo d).runEntry true))
  (hdispose : ∀ current current' x, I current x → okDispose x → I current' x.disposeEntry)
include hfresh hdispose

/-- A disposal of some entries keeps `I` where an entry outside them is as current as before. -/
theorem each_dispose {s t : ImapSource} {ids : List Nat} (hs : Each I s)
    (hok : ∀ e x, e ∈ ids → s.entries[e]? = some x → okDispose x)
    (hentries : ∀ e y, t.entries[e]? = some y → (∃ x, s.entries[e]? = some x ∧
        ((e ∈ ids ∧ y = x.disposeEntry) ∨ (e ∉ ids ∧ y = x))) ∨
      ∃ owner repo d, y = (SourceEntry.create owner repo d).runEntry true)
    (hcurrent : ∀ e x, s.entries[e]? = some x → t.entries[e]? = some x → e ∉ ids →
      t.isCurrent e = s.isCurrent e) : Each I t := by
  intro e y hy
  rcases hentries e y hy with ⟨x, hx, ⟨hids, rfl⟩ | ⟨hids, rfl⟩⟩ | ⟨owner, repo, d, rfl⟩
  · exact hdispose _ _ x (hs e x hx) (hok e x hids hx)
  · rw [hcurrent e y hx hy hids]
    exact hs e y hx
  · exact hfresh _ owner repo d

theorem each_stop {s : ImapSource} (hs : Each I s)
    (hok : ∀ e x, e ∈ s.cancelled .stop → s.entries[e]? = some x → okDispose x) : Each I s.stop := by
  refine each_dispose hfresh hdispose hs hok (fun e y hy => Or.inl (disposeAll_entries hy)) ?_
  intro e x hx hx' hids
  have hafter : s.stop.isCurrent e = false := by
    rw [Bool.eq_false_iff, ne_eq, isCurrent_eq hx']
    rintro ⟨pairMap, hpair, _⟩
    cases hpair
  rw [hafter, eq_comm, Bool.eq_false_iff]
  intro hcurrent
  exact hids (current_mem_cancelled hx hcurrent []).2

theorem each_reconfigure {s : ImapSource} (hs : Each I s) {owner repo : String} {ds : List Descriptor}
    (hok : ∀ e x, e ∈ s.cancelled (.reconfigure owner repo ds) → s.entries[e]? = some x → okDispose x) :
    Each I (s.reconfigure owner repo ds) := by
  refine each_dispose hfresh hdispose hs hok (fun e y hy => reconfigure_entries hy) ?_
  intro e x hx hx' hids
  by_cases hkey : pairKey x.owner x.repo = pairKey owner repo
  · have hbefore : s.isCurrent e = false := by
      rw [Bool.eq_false_iff]
      intro hcurrent
      have hmem := (current_mem_cancelled hx hcurrent ds).1
      simp only [ImapSource.cancelled, hkey] at hmem
      exact hids hmem
    rw [hbefore, Bool.eq_false_iff, ne_eq, isCurrent_eq hx', hkey]
    rintro ⟨pairMap, hpair, he⟩
    have hge := reconfigure_pair_ge hpair he
    have hlt := lt_of_getElem?_eq_some hx
    omega
  · exact isCurrent_congr hx hx' rfl (reconfigure_pair_of_ne s ds hkey)

end Dispose

/-- An invariant of single entries is one of the source. -/
theorem each_step {ok : Bool → SourceEntry → EntryAction → Prop} {okDispose : SourceEntry → Prop}
    (hfresh : ∀ current owner repo d, I current ((SourceEntry.create owner repo d).runEntry true))
    (hdispose : ∀ current current' x, I current x → okDispose x → I current' x.disposeEntry)
    (hentry : ∀ current x a x', I current x → ok current x a → x.step current a = some x' → I current x')
    {s t : ImapSource} {a : SourceAction} (hs : Each I s) (hok : EntryOk ok okDispose s a)
    (h : step s a = some t) : Each I t := by
  cases a with
  | reconfigure owner repo ds =>
    obtain rfl := Option.some.inj h
    exact each_reconfigure hfresh hdispose hs hok
  | stop =>
    obtain rfl := Option.some.inj h
    exact each_stop hfresh hdispose hs hok
  | entry e a =>
    simp only [step] at h
    split at h
    · cases h
    · rename_i x hx
      obtain ⟨x', hstep, rfl⟩ := Option.map_eq_some_iff.mp h
      exact each_entry hs hx (SourceEntry.identity_step hstep) (hentry _ x a x' (hs e x hx) (hok x hx) hstep)

end Each

end WorkflowEngine.Runtime.Imap
