import WorkflowEngine.Lib.Transition
import Mathlib.Data.Finset.Basic

/-!
# Host resources of a run

`sendMail`, `executeSql` and `fetch` each hold one host resource, tracked in a set of their
plugin until the call releases it or the end of the run drains the set. `sendMail` and
`executeSql` make their resource only after an awaited host lookup, and that lookup may
outlive the run. Connections of undici's pool belong to no call.
-/

namespace WorkflowEngine.Sandbox.RunScopedHandles

open Lib
set_option autoImplicit false

/-! ## The tracker -/

/-- `createRunScopedHandles`: the tracked handles, and how often each was closed. -/
structure Handles where
  tracked : Finset Nat
  closes : Nat → Nat

namespace Handles

def empty : Handles := ⟨∅, fun _ => 0⟩

def track (h : Handles) (handle : Nat) : Handles := { h with tracked := insert handle h.tracked }

/-- The handle is deleted before it is closed. -/
def release (h : Handles) (handle : Nat) : Handles :=
  if handle ∈ h.tracked then
    { tracked := h.tracked.erase handle
      closes := fun j => if j = handle then h.closes j + 1 else h.closes j }
  else h

def drain (h : Handles) : Handles where
  tracked := ∅
  closes j := if j ∈ h.tracked then h.closes j + 1 else h.closes j

/-- The closings of a handle, the one to come included. -/
def due (h : Handles) (handle : Nat) : Nat := h.closes handle + if handle ∈ h.tracked then 1 else 0

theorem due_of_not_mem {h : Handles} {handle : Nat} (hn : handle ∉ h.tracked) : h.due handle = h.closes handle := by
  rw [due, if_neg hn, Nat.add_zero]

theorem not_mem_of_due_eq_zero {h : Handles} {handle : Nat} (hdue : h.due handle = 0) : handle ∉ h.tracked := by
  intro hmem
  rw [due, if_pos hmem] at hdue
  omega

theorem due_track {h : Handles} {handle : Nat} (hn : handle ∉ h.tracked) (j : Nat) :
    (h.track handle).due j = if j = handle then h.due j + 1 else h.due j := by
  unfold due track
  by_cases hj : j = handle
  · subst hj
    simp [hn]
  · simp [hj]

theorem due_release (h : Handles) (handle j : Nat) : (h.release handle).due j = h.due j := by
  unfold release
  split
  · rename_i hmem
    unfold due
    by_cases hj : j = handle
    · subst hj
      simp [hmem]
    · simp [hj]
  · rfl

theorem due_drain (h : Handles) (j : Nat) : h.drain.due j = h.due j := by
  unfold due drain
  by_cases hj : j ∈ h.tracked <;> simp [hj]

theorem mem_track (h : Handles) (handle j : Nat) : j ∈ (h.track handle).tracked ↔ j = handle ∨ j ∈ h.tracked :=
  Finset.mem_insert

theorem mem_release (h : Handles) (handle j : Nat) :
    j ∈ (h.release handle).tracked ↔ j ≠ handle ∧ j ∈ h.tracked := by
  unfold release
  split
  · exact Finset.mem_erase
  · rename_i hn
    constructor
    · intro hj
      refine ⟨?_, hj⟩
      rintro rfl
      exact hn hj
    · exact fun hj => hj.2

theorem not_mem_drain (h : Handles) (j : Nat) : j ∉ h.drain.tracked := Finset.notMem_empty j

end Handles

/-! ## The worker -/

inductive Kind where
  | mail | sql | fetch
  deriving DecidableEq

inductive Phase where
  /-- `assertHostIsPublic` is awaited. -/
  | lookup
  /-- The driver works on the handle of the call. -/
  | working
  | settled
  deriving DecidableEq

structure Call where
  kind : Kind
  startedIn : Nat
  phase : Phase
  deriving DecidableEq

/-- The making of a handle, and when that was. -/
structure Opening where
  call : Nat
  run : Nat
  active : Bool
  deriving DecidableEq

/-- A worker over its runs. A call is known by its place in `calls`, and so is its handle. -/
structure Worker where
  run : Nat
  active : Bool
  calls : List Call
  handles : Kind → Handles
  openings : List Opening

namespace Worker

def init : Worker where
  run := 0
  active := false
  calls := []
  handles _ := .empty
  openings := []

/-- `onRunFinished` of run `n` is over. -/
def drained (s : Worker) (n : Nat) : Bool := n < s.run || (n == s.run && !s.active)

def setHandles (s : Worker) (kind : Kind) (h : Handles) : Worker :=
  { s with handles := fun k => if k = kind then h else s.handles k }

def addCall (s : Worker) (kind : Kind) (phase : Phase) : Worker :=
  { s with calls := s.calls ++ [{ kind, startedIn := s.run, phase }] }

def setPhase (s : Worker) (i : Nat) (c : Call) (phase : Phase) : Worker :=
  { s with calls := s.calls.set i { c with phase } }

/-- A handle is made and tracked. -/
def allocate (s : Worker) (i : Nat) (kind : Kind) : Worker :=
  { s.setHandles kind ((s.handles kind).track i) with
    openings := s.openings ++ [{ call := i, run := s.run, active := s.active }] }

end Worker

/-- What can happen on the worker. The guest calls only during a run. -/
inductive Action where
  | beginRun
  | call (kind : Kind)
  /-- The lookup finds a public address, and the driver takes the options. -/
  | resolved (i : Nat)
  /-- The lookup fails, or the driver's constructor throws. -/
  | rejected (i : Nat)
  /-- The driver's promise settles, and the `finally` of the call runs. -/
  | settle (i : Nat)
  | endRun
  deriving DecidableEq

def step (s : Worker) : Action → Option Worker
  | .beginRun => if s.active then none else some { s with run := s.run + 1, active := true }
  | .call kind =>
    if s.active then
      match kind with
      -- the controller is tracked before anything is awaited
      | .fetch => some ((s.addCall .fetch .working).allocate s.calls.length .fetch)
      | kind => some (s.addCall kind .lookup)
    else none
  | .resolved i =>
    match s.calls[i]? with
    | some c => if c.phase = .lookup then some ((s.setPhase i c .working).allocate i c.kind) else none
    | none => none
  | .rejected i =>
    match s.calls[i]? with
    | some c => if c.phase = .lookup then some (s.setPhase i c .settled) else none
    | none => none
  | .settle i =>
    match s.calls[i]? with
    | some c =>
      if c.phase = .working then
        some ((s.setPhase i c .settled).setHandles c.kind ((s.handles c.kind).release i))
      else none
    | none => none
  | .endRun =>
    if s.active then some { s with active := false, handles := fun kind => (s.handles kind).drain } else none

/-! ## The property -/

def Worker.allocated (s : Worker) (i : Nat) : Prop := ∃ o ∈ s.openings, o.call = i

/-- The end of run `n` was before the opening. -/
def Opening.after (o : Opening) (n : Nat) : Bool := n < o.run || (n == o.run && !o.active)

/-- Every handle is closed exactly once, and no call does anything after the end of its run.
`stops` are the drivers that closing a handle stops. -/
structure Isolated (stops : Kind → Bool) (s : Worker) : Prop where
  once : ∀ (i : Nat) (c : Call), s.calls[i]? = some c → (s.handles c.kind).closes i ≤ 1
  closed : ∀ (i : Nat) (c : Call), s.calls[i]? = some c → s.allocated i →
    c.phase = .settled ∨ s.drained c.startedIn = true → (s.handles c.kind).closes i = 1
  quiet : ∀ (i : Nat) (c : Call), s.calls[i]? = some c → s.drained c.startedIn = true → c.phase = .working →
    stops c.kind = true
  opened : ∀ o ∈ s.openings, ∀ c : Call, s.calls[o.call]? = some c → o.after c.startedIn = false

/-- A lookup does not succeed after the end of its run, and a run does not end under a driver
that closing does not stop. -/
def EndsClean (stops : Kind → Bool) (s : Worker) : Action → Prop
  | .resolved i => ∀ c : Call, c ∈ s.calls[i]? → s.drained c.startedIn = false
  | .endRun => ∀ c : Call, c ∈ s.calls → c.phase = .working → stops c.kind = true
  | _ => True

instance (stops : Kind → Bool) (s : Worker) : (a : Action) → Decidable (EndsClean stops s a)
  | .resolved i => inferInstanceAs (Decidable (∀ c : Call, c ∈ s.calls[i]? → s.drained c.startedIn = false))
  | .endRun => inferInstanceAs (Decidable (∀ c : Call, c ∈ s.calls → c.phase = .working → stops c.kind = true))
  | .beginRun => isTrue trivial
  | .call _ => isTrue trivial
  | .rejected _ => isTrue trivial
  | .settle _ => isTrue trivial

/-! ## One call -/

namespace Worker
variable (s : Worker)

theorem drained_iff (n : Nat) : s.drained n = true ↔ n < s.run ∨ (n = s.run ∧ s.active = false) := by
  simp [drained]

@[simp] theorem calls_addCall (kind : Kind) (phase : Phase) :
    (s.addCall kind phase).calls = s.calls ++ [{ kind, startedIn := s.run, phase }] := rfl

@[simp] theorem calls_setPhase (i : Nat) (c : Call) (phase : Phase) :
    (s.setPhase i c phase).calls = s.calls.set i { c with phase } := rfl

theorem handles_setHandles (kind : Kind) (h : Handles) (k : Kind) :
    (s.setHandles kind h).handles k = if k = kind then h else s.handles k := rfl

theorem handles_allocate (i : Nat) (kind k : Kind) :
    (s.allocate i kind).handles k = if k = kind then (s.handles kind).track i else s.handles k := rfl

end Worker

/-- What is known of a call and its handle. -/
structure CallOk (stops : Kind → Bool) (s : Worker) (i : Nat) (c : Call) : Prop where
  started : c.startedIn ≤ s.run
  due_le : (s.handles c.kind).due i ≤ 1
  allocated : s.allocated i → (s.handles c.kind).due i = 1
  lookup : c.phase = .lookup → (s.handles c.kind).due i = 0
  working : c.phase = .working → (s.handles c.kind).due i = 1
  settled : c.phase = .settled → i ∉ (s.handles c.kind).tracked
  drained : s.drained c.startedIn = true → i ∉ (s.handles c.kind).tracked
  quiet : s.drained c.startedIn = true → c.phase = .working → stops c.kind = true

section Calls
variable {stops : Kind → Bool} {s t : Worker} {i : Nat} {c : Call}

/-- A step that is not about the call. -/
theorem CallOk.frame (h : CallOk stops s i c) (hrun : s.run ≤ t.run)
    (hdrained : t.drained c.startedIn = true → s.drained c.startedIn = true)
    (hdue : (t.handles c.kind).due i = (s.handles c.kind).due i)
    (htracked : i ∈ (t.handles c.kind).tracked → i ∈ (s.handles c.kind).tracked)
    (hallocated : t.allocated i → s.allocated i) : CallOk stops t i c where
  started := Nat.le_trans h.started hrun
  due_le := by
    rw [hdue]
    exact h.due_le
  allocated := by
    intro hi
    rw [hdue]
    exact h.allocated (hallocated hi)
  lookup := by
    intro hphase
    rw [hdue]
    exact h.lookup hphase
  working := by
    intro hphase
    rw [hdue]
    exact h.working hphase
  settled hphase hi := h.settled hphase (htracked hi)
  drained hn hi := h.drained (hdrained hn) (htracked hi)
  quiet hn := h.quiet (hdrained hn)

theorem CallOk.isolated (h : CallOk stops s i c) :
    (s.handles c.kind).closes i ≤ 1 ∧
      (s.allocated i → c.phase = .settled ∨ s.drained c.startedIn = true → (s.handles c.kind).closes i = 1) := by
  constructor
  · exact Nat.le_trans (Nat.le_add_right _ _) h.due_le
  · intro hi hover
    have hn : i ∉ (s.handles c.kind).tracked := by
      rcases hover with hphase | hdrained
      · exact h.settled hphase
      · exact h.drained hdrained
    rw [← Handles.due_of_not_mem hn]
    exact h.allocated hi

end Calls

/-! ## Runs -/

structure Inv (stops : Kind → Bool) (s : Worker) : Prop where
  calls : ∀ i c, s.calls[i]? = some c → CallOk stops s i c
  fresh : ∀ kind i, s.calls.length ≤ i → i ∉ (s.handles kind).tracked ∧ (s.handles kind).due i = 0
  openings : ∀ o ∈ s.openings, ∃ c, s.calls[o.call]? = some c ∧ o.after c.startedIn = false

section Runs
variable {stops : Kind → Bool}

theorem inv_init : Inv stops .init where
  calls := by
    intro i c hc
    cases hc
  fresh _ i _ := ⟨Finset.notMem_empty i, rfl⟩
  openings := by
    intro o ho
    cases ho

theorem Inv.isolated {s : Worker} (h : Inv stops s) : Isolated stops s where
  once i c hc := (h.calls i c hc).isolated.1
  closed i c hc := (h.calls i c hc).isolated.2
  quiet i c hc := (h.calls i c hc).quiet
  opened := by
    intro o ho c hc
    obtain ⟨c', hc', hafter⟩ := h.openings o ho
    rw [hc] at hc'
    cases hc'
    exact hafter

theorem Inv.addCall {s : Worker} (h : Inv stops s) (kind : Kind) :
    Inv stops (s.addCall kind .lookup) where
  calls := by
    intro i c hc
    rw [Worker.calls_addCall, List.getElem?_append] at hc
    split at hc
    · exact (h.calls i c hc).frame (Nat.le_refl _) id rfl id id
    · rename_i hlength
      rw [List.getElem?_singleton] at hc
      split at hc
      · cases hc
        have hfresh := h.fresh kind i (Nat.le_of_not_lt hlength)
        have hopen : ¬s.allocated i := by
          rintro ⟨o, ho, rfl⟩
          obtain ⟨c', hc', _⟩ := h.openings o ho
          exact hlength (List.getElem?_eq_some_iff.mp hc').1
        refine ⟨Nat.le_refl _, ?_, fun hi => absurd hi hopen, fun _ => hfresh.2, ?_, ?_, fun _ => hfresh.1, ?_⟩
        · exact le_of_eq_of_le hfresh.2 (Nat.zero_le 1)
        · intro hphase
          cases hphase
        · intro hphase
          cases hphase
        · intro _ hphase
          cases hphase
      · cases hc
  fresh := by
    intro k i hi
    rw [Worker.calls_addCall, List.length_append] at hi
    exact h.fresh k i (by omega)
  openings := by
    intro o ho
    obtain ⟨c, hc, hafter⟩ := h.openings o ho
    refine ⟨c, ?_, hafter⟩
    rw [Worker.calls_addCall, List.getElem?_append_left (List.getElem?_eq_some_iff.mp hc).1]
    exact hc

/-- A step of one call leaves the other calls as they are. -/
theorem Inv.update {s t : Worker} {i : Nat} {c : Call} {phase : Phase} (h : Inv stops s)
    (hc : s.calls[i]? = some c) (hcalls : t.calls = s.calls.set i { c with phase }) (hrun : t.run = s.run)
    (hactive : t.active = s.active)
    (hother : ∀ k j, j ≠ i → (t.handles k).due j = (s.handles k).due j ∧
      (j ∈ (t.handles k).tracked → j ∈ (s.handles k).tracked))
    (hopenings : ∀ o ∈ t.openings, o ∈ s.openings ∨ (o.call = i ∧ o.after c.startedIn = false))
    (hnew : CallOk stops t i { c with phase }) : Inv stops t where
  calls := by
    intro j d hd
    rw [hcalls, List.getElem?_set] at hd
    split at hd
    · subst j
      split at hd
      · cases hd
        exact hnew
      · cases hd
    · rename_i hne
      have hne : j ≠ i := Ne.symm hne
      refine (h.calls j d hd).frame (Nat.le_of_eq hrun.symm) ?_ (hother d.kind j hne).1 (hother d.kind j hne).2 ?_
      · rw [Worker.drained_iff, Worker.drained_iff, hrun, hactive]
        exact id
      · rintro ⟨o, ho, rfl⟩
        rcases hopenings o ho with ho | ho
        · exact ⟨o, ho, rfl⟩
        · exact absurd ho.1 hne
  fresh := by
    intro k j hj
    rw [hcalls, List.length_set] at hj
    have hne : j ≠ i := by
      rintro rfl
      exact absurd (List.getElem?_eq_some_iff.mp hc).1 (Nat.not_lt.mpr hj)
    have hfresh := h.fresh k j hj
    refine ⟨fun hmem => hfresh.1 ((hother k j hne).2 hmem), ?_⟩
    rw [(hother k j hne).1]
    exact hfresh.2
  openings := by
    intro o ho
    have hself : ∃ d, t.calls[i]? = some d ∧ d.startedIn = c.startedIn := by
      refine ⟨{ c with phase }, ?_, rfl⟩
      rw [hcalls, List.getElem?_set_self (List.getElem?_eq_some_iff.mp hc).1]
    obtain ⟨d, hd, hstarted⟩ := hself
    rcases hopenings o ho with ho | ⟨rfl, hafter⟩
    · obtain ⟨c', hc', hafter⟩ := h.openings o ho
      by_cases hi : o.call = i
      · subst hi
        rw [hc] at hc'
        cases hc'
        exact ⟨d, hd, hstarted ▸ hafter⟩
      · refine ⟨c', ?_, hafter⟩
        rw [hcalls, List.getElem?_set_ne (Ne.symm hi)]
        exact hc'
    · exact ⟨d, hd, hstarted ▸ hafter⟩

theorem Inv.opened {s : Worker} {i : Nat} {c : Call} (h : Inv stops s) (hc : s.calls[i]? = some c)
    (hphase : c.phase = .lookup) (hopen : s.drained c.startedIn = false) :
    Inv stops ((s.setPhase i c .working).allocate i c.kind) := by
  have hcall := h.calls i c hc
  have hdue := hcall.lookup hphase
  have hn := Handles.not_mem_of_due_eq_zero hdue
  have hdue' : (((s.setPhase i c .working).allocate i c.kind).handles c.kind).due i = 1 := by
    rw [Worker.handles_allocate, if_pos rfl]
    change ((s.handles c.kind).track i).due i = 1
    rw [Handles.due_track hn, if_pos rfl, hdue]
  refine h.update hc rfl rfl rfl ?_ ?_ ?_
  · intro k j hj
    rw [Worker.handles_allocate]
    split
    · rename_i hk
      subst hk
      constructor
      · exact (Handles.due_track hn j).trans (if_neg hj)
      · exact fun hmem => ((Handles.mem_track _ i j).mp hmem).resolve_left hj
    · exact ⟨rfl, id⟩
  · intro o ho
    rcases List.mem_append.mp ho with ho | ho
    · exact Or.inl ho
    · rw [List.mem_singleton.mp ho]
      exact Or.inr ⟨rfl, hopen⟩
  · refine ⟨hcall.started, Nat.le_of_eq hdue', fun _ => hdue', ?_, fun _ => hdue', ?_, ?_, ?_⟩
    · intro hlookup
      cases hlookup
    · intro hsettled
      cases hsettled
    · intro hdrained
      exact absurd hdrained (Bool.not_eq_true _ ▸ hopen)
    · intro hdrained
      exact absurd hdrained (Bool.not_eq_true _ ▸ hopen)

theorem Inv.rejected {s : Worker} {i : Nat} {c : Call} (h : Inv stops s) (hc : s.calls[i]? = some c)
    (hphase : c.phase = .lookup) : Inv stops (s.setPhase i c .settled) := by
  have hcall := h.calls i c hc
  have hdue := hcall.lookup hphase
  have hn := Handles.not_mem_of_due_eq_zero hdue
  refine h.update hc rfl rfl rfl (fun k j _ => ⟨rfl, id⟩) (fun o ho => Or.inl ho) ?_
  refine ⟨hcall.started, hcall.due_le, hcall.allocated, ?_, ?_, fun _ => hn, fun _ => hn, ?_⟩
  · intro hlookup
    cases hlookup
  · intro hworking
    cases hworking
  · intro _ hworking
    cases hworking

theorem Inv.settled {s : Worker} {i : Nat} {c : Call} (h : Inv stops s) (hc : s.calls[i]? = some c)
    (hphase : c.phase = .working) :
    Inv stops ((s.setPhase i c .settled).setHandles c.kind ((s.handles c.kind).release i)) := by
  have hcall := h.calls i c hc
  have hdue : ((s.handles c.kind).release i).due i = 1 := by
    rw [Handles.due_release]
    exact hcall.working hphase
  have hn : i ∉ ((s.handles c.kind).release i).tracked := by
    intro hmem
    exact ((Handles.mem_release _ i i).mp hmem).1 rfl
  refine h.update hc rfl rfl rfl ?_ (fun o ho => Or.inl ho) ?_
  · intro k j hj
    rw [Worker.handles_setHandles]
    split
    · rename_i hk
      subst hk
      exact ⟨Handles.due_release _ i j, fun hmem => ((Handles.mem_release _ i j).mp hmem).2⟩
    · exact ⟨rfl, id⟩
  · have hself : ((s.setPhase i c .settled).setHandles c.kind ((s.handles c.kind).release i)).handles c.kind =
        (s.handles c.kind).release i := if_pos rfl
    refine ⟨hcall.started, ?_, ?_, ?_, ?_, ?_, ?_, ?_⟩
    · rw [hself]
      exact Nat.le_of_eq hdue
    · intro _
      rw [hself]
      exact hdue
    · intro hlookup
      cases hlookup
    · intro hworking
      cases hworking
    · intro _
      rw [hself]
      exact hn
    · intro _
      rw [hself]
      exact hn
    · intro _ hworking
      cases hworking

theorem Inv.beginRun {s : Worker} (h : Inv stops s) (hactive : s.active = false) :
    Inv stops { s with run := s.run + 1, active := true } where
  calls := by
    intro i c hc
    refine (h.calls i c hc).frame (Nat.le_succ _) ?_ rfl id id
    rw [Worker.drained_iff, Worker.drained_iff, hactive]
    change c.startedIn < s.run + 1 ∨ (c.startedIn = s.run + 1 ∧ true = false) → _
    simp only [reduceCtorEq, and_false, or_false, and_true]
    omega
  fresh := h.fresh
  openings := h.openings

theorem Inv.endRun {s : Worker} (h : Inv stops s)
    (hok : ∀ c : Call, c ∈ s.calls → c.phase = .working → stops c.kind = true) :
    Inv stops { s with active := false, handles := fun kind => (s.handles kind).drain } where
  calls := by
    intro i c hc
    have hcall := h.calls i c hc
    refine ⟨hcall.started, ?_, ?_, ?_, ?_, fun _ => Handles.not_mem_drain _ i, fun _ => Handles.not_mem_drain _ i, ?_⟩
    · exact (Handles.due_drain _ i).trans_le hcall.due_le
    · exact fun hi => (Handles.due_drain _ i).trans (hcall.allocated hi)
    · exact fun hphase => (Handles.due_drain _ i).trans (hcall.lookup hphase)
    · exact fun hphase => (Handles.due_drain _ i).trans (hcall.working hphase)
    · exact fun _ => hok c (List.mem_of_getElem? hc)
  fresh := by
    intro k i hi
    exact ⟨Handles.not_mem_drain _ i, (Handles.due_drain _ i).trans (h.fresh k i hi).2⟩
  openings := h.openings

theorem inv_step {s t : Worker} {a : Action} (h : Inv stops s) (hok : EndsClean stops s a)
    (hstep : step s a = some t) : Inv stops t := by
  cases a with
  | beginRun =>
    simp only [step] at hstep
    split at hstep
    · cases hstep
    · rename_i hactive
      cases hstep
      exact h.beginRun (Bool.eq_false_of_not_eq_true hactive)
  | call kind =>
    simp only [step] at hstep
    split at hstep
    · rename_i hactive
      cases kind with
      | fetch =>
        cases hstep
        -- the controller is made as if a lookup had been passed at once
        have hadded := h.addCall .fetch
        have hc : (s.addCall .fetch .lookup).calls[s.calls.length]? =
            some { kind := .fetch, startedIn := s.run, phase := .lookup } := by simp
        have hopen : (s.addCall .fetch .lookup).drained s.run = false := by
          rw [← Bool.not_eq_true, Worker.drained_iff]
          change ¬(s.run < s.run ∨ (s.run = s.run ∧ s.active = false))
          simp [hactive]
        have hopened := hadded.opened hc rfl hopen
        have hsame : (s.addCall .fetch .lookup).setPhase s.calls.length
            { kind := .fetch, startedIn := s.run, phase := .lookup } .working = s.addCall .fetch .working := by
          simp [Worker.setPhase, Worker.addCall]
        rwa [hsame] at hopened
      | mail =>
        cases hstep
        exact h.addCall .mail
      | sql =>
        cases hstep
        exact h.addCall .sql
    · cases hstep
  | resolved i =>
    simp only [step] at hstep
    split at hstep
    · rename_i c hc
      split at hstep
      · rename_i hphase
        cases hstep
        exact h.opened hc hphase (hok c hc)
      · cases hstep
    · cases hstep
  | rejected i =>
    simp only [step] at hstep
    split at hstep
    · rename_i c hc
      split at hstep
      · rename_i hphase
        cases hstep
        exact h.rejected hc hphase
      · cases hstep
    · cases hstep
  | settle i =>
    simp only [step] at hstep
    split at hstep
    · rename_i c hc
      split at hstep
      · rename_i hphase
        cases hstep
        exact h.settled hc hphase
      · cases hstep
    · cases hstep
  | endRun =>
    simp only [step] at hstep
    split at hstep
    · cases hstep
      exact h.endRun hok
    · cases hstep

/-- What the property after a step shows of the step. -/
theorem endsClean_of_isolated {s t : Worker} {a : Action} (h : Inv stops s) (hstep : step s a = some t)
    (ht : Isolated stops t) : EndsClean stops s a := by
  cases a with
  | resolved i =>
    intro c hc
    have hc : s.calls[i]? = some c := hc
    simp only [step, hc] at hstep
    split at hstep
    · cases hstep
      have hself : ((s.setPhase i c .working).allocate i c.kind).calls[i]? = some { c with phase := .working } := by
        change (s.calls.set i _)[i]? = _
        rw [List.getElem?_set_self (List.getElem?_eq_some_iff.mp hc).1]
      have hopened := ht.opened _ (List.mem_append_right _ (List.mem_singleton.mpr rfl)) { c with phase := .working }
      exact hopened hself
    · cases hstep
  | endRun =>
    intro c hmem hphase
    simp only [step] at hstep
    split at hstep
    · cases hstep
      obtain ⟨i, hc⟩ := List.getElem?_of_mem hmem
      refine ht.quiet i c hc ?_ hphase
      rw [Worker.drained_iff]
      have hle : c.startedIn ≤ s.run := (h.calls i c hc).started
      change c.startedIn < s.run ∨ (c.startedIn = s.run ∧ false = false)
      simp only [and_true]
      omega
    · cases hstep
  | beginRun => trivial
  | call kind => trivial
  | rejected i => trivial
  | settle i => trivial

/-- The resources of every run end with it, and are closed once, exactly where no lookup succeeds
after the end of its run and no run ends under a driver that closing does not stop. -/
theorem isolated_iff_endsClean (stops : Kind → Bool) {t : Worker} {as : List Action}
    (h : exec step .init as = some t) :
    Always step (Isolated stops) .init as ↔ Along step (EndsClean stops) .init as := by
  have hkeep : ∀ s a t, Inv stops s → EndsClean stops s a → step s a = some t → Inv stops t := by
    intro s a t hs hok hstep
    exact inv_step hs hok hstep
  have honly : ∀ s a t, Inv stops s → step s a = some t → Isolated stops t → EndsClean stops s a := by
    intro s a t hs hstep ht
    exact endsClean_of_isolated hs hstep ht
  exact always_iff_along (fun s hs => hs.isolated) hkeep honly inv_init h

/-- `sql.end({ timeout: 0 })` and `abort()` stop their drivers; nodemailer's `close` does no I/O. -/
def closeStops : Kind → Bool
  | .mail => false
  | .sql => true
  | .fetch => true

theorem isolated_awaited :
    Always step (Isolated closeStops) .init
      [.beginRun, .call .sql, .resolved 0, .call .mail, .settle 0, .rejected 1, .call .fetch, .endRun, .beginRun,
        .settle 2] :=
  (isolated_iff_endsClean closeStops rfl).mpr (by decide)

/-- A connection that is opened in the run after its own, whatever the drivers do on closing. -/
theorem lateLookup_not_isolated :
    ¬Always step (Isolated fun _ => true) .init [.beginRun, .call .sql, .endRun, .beginRun, .resolved 0] := by
  intro h
  have hrun₁ := (h.2 _ rfl).2 _ rfl
  have hrun₂ := ((hrun₁.2 _ rfl).2 _ rfl).2 _ rfl
  have hafter := hrun₂.opened { call := 0, run := 2, active := true } (List.mem_singleton.mpr rfl)
    { kind := .sql, startedIn := 1, phase := .working } rfl
  cases hafter

end Runs

end WorkflowEngine.Sandbox.RunScopedHandles
