import WorkflowEngine.Lib.Transition
import WorkflowEngine.Sandbox.WorkerRuns

/-!
# The worker's run state and its snapshot restore

Model of `handleRun` and `startRestore` of `worker.ts` after the init message:
the field `runState`, the shared `restorePromise`, and one frame for each call
of `handleRun` that has not returned. Run messages may arrive at any time, also
while another run is under way. `late` marks a frame whose message came after a
restore had failed; `ran` lists the lifecycle hooks and guest handlers in the
order in which frames reached them.
-/

namespace WorkflowEngine.Sandbox

open Lib
set_option autoImplicit false

/-- A `restorePromise` that is not null; a fulfilled one is null again. -/
inductive RestorePromise where
  | pending
  | rejected
  deriving DecidableEq

/-- Where a call of `handleRun` stands: at `await state.restorePromise`, after it on either side, or
at `await invokeGuestHandler`. -/
inductive FramePhase where
  | awaiting
  | resumed
  | throwing
  | invoking
  deriving DecidableEq

structure RunFrame where
  phase : FramePhase
  late : Bool
  deriving DecidableEq

inductive HookStage where
  | onBeforeRunStarted
  | guestHandler
  | onRunFinished
  deriving DecidableEq

structure HookCall where
  stage : HookStage
  late : Bool
  deriving DecidableEq

structure WorkerRestore where
  alive : Bool
  runState : RunState
  restorePromise : Option RestorePromise
  failed : Bool
  frames : List RunFrame
  ran : List HookCall
  deriving DecidableEq

inductive RestoreAction where
  | runMessage
  | resume (i : Nat)
  | finish (i : Nat)
  | restored
  | restoreFailed
  deriving DecidableEq

/-- What the settlement of the restore makes of a frame that awaits it. -/
def RunFrame.settled (outcome : FramePhase) (f : RunFrame) : RunFrame :=
  if f.phase = .awaiting then { f with phase := outcome } else f

namespace WorkerRestore

def init : WorkerRestore := ⟨true, .ready, none, false, [], []⟩

/-- `handleRun` from `state.runState = "running"` to the guest invocation. -/
def beginRun (s : WorkerRestore) (late : Bool) : WorkerRestore :=
  { s with
    runState := .running
    frames := s.frames ++ [⟨.invoking, late⟩]
    ran := s.ran ++ [⟨.onBeforeRunStarted, late⟩, ⟨.guestHandler, late⟩] }

/-- The arrival of a run message: `await` when a restore is recorded, else straight on. -/
def runMessage (s : WorkerRestore) : WorkerRestore :=
  match s.runState, s.restorePromise with
  | .restoring, some .pending => { s with frames := s.frames ++ [⟨.awaiting, s.failed⟩] }
  | .restoring, some .rejected => { s with frames := s.frames ++ [⟨.throwing, s.failed⟩] }
  | _, _ => s.beginRun s.failed

/-- The continuation of `await state.restorePromise`; a rejection ends the worker. -/
def resume (s : WorkerRestore) (i : Nat) : Option WorkerRestore :=
  match s.frames[i]? with
  | some ⟨.resumed, late⟩ => some ({ s with frames := s.frames.eraseIdx i }.beginRun late)
  | some ⟨.throwing, _⟩ => some { s with alive := false }
  | _ => none

/-- `finalizeRun`, the `done` message and `startRestore`, which keeps a recorded promise. -/
def finish (s : WorkerRestore) (i : Nat) : Option WorkerRestore :=
  match s.frames[i]? with
  | some ⟨.invoking, late⟩ =>
    some { s with
      frames := s.frames.eraseIdx i
      ran := s.ran ++ [⟨.onRunFinished, late⟩]
      runState := .restoring
      restorePromise := s.restorePromise <|> some .pending }
  | _ => none

def restored (s : WorkerRestore) : Option WorkerRestore :=
  if s.restorePromise = some .pending then
    some { s with
      runState := .ready
      restorePromise := none
      frames := s.frames.map (RunFrame.settled .resumed) }
  else none

def restoreFailed (s : WorkerRestore) : Option WorkerRestore :=
  if s.restorePromise = some .pending then
    some { s with
      runState := .dead
      restorePromise := some .rejected
      failed := true
      frames := s.frames.map (RunFrame.settled .throwing) }
  else none

def step (s : WorkerRestore) (a : RestoreAction) : Option WorkerRestore :=
  if s.alive then
    match a with
    | .runMessage => some s.runMessage
    | .resume i => s.resume i
    | .finish i => s.finish i
    | .restored => s.restored
    | .restoreFailed => s.restoreFailed
  else none

/-- No hook and no guest handler ran for a message that came after a failed restore. -/
def NoLateRun (s : WorkerRestore) : Prop := ∀ r ∈ s.ran, r.late = false

/-- A run message handled after a failed restore finds `runState = "restoring"`. -/
def FindsRestoring (s : WorkerRestore) (a : RestoreAction) : Prop :=
  a = .runMessage → s.failed = true → s.runState = .restoring

instance (s : WorkerRestore) : Decidable s.NoLateRun := inferInstanceAs (Decidable (∀ _ ∈ _, _))

instance (s : WorkerRestore) (a : RestoreAction) : Decidable (FindsRestoring s a) :=
  inferInstanceAs (Decidable (_ → _ → _))

structure Inv (s : WorkerRestore) : Prop where
  failed : s.failed = true ↔ s.restorePromise = some .rejected
  waiting : ∀ f ∈ s.frames, f.late = true → f.phase = .throwing ∨ f.phase = .invoking
  invoking : ∀ f ∈ s.frames, f.late = true → f.phase = .invoking → ∃ r ∈ s.ran, r.late = true

theorem inv_init : Inv init := ⟨by simp [init], by simp [init], by simp [init]⟩

/-! ## The effect of one step -/

/-- The three ways a run message is taken. -/
theorem runMessage_cases (s : WorkerRestore) :
    (s.runState = .restoring ∧ s.restorePromise = some .pending ∧
      s.runMessage = { s with frames := s.frames ++ [⟨.awaiting, s.failed⟩] }) ∨
    (s.runState = .restoring ∧ s.restorePromise = some .rejected ∧
      s.runMessage = { s with frames := s.frames ++ [⟨.throwing, s.failed⟩] }) ∨
    ((s.runState = .restoring → s.restorePromise = none) ∧
      s.runMessage = s.beginRun s.failed) := by
  unfold runMessage
  split
  · rename_i hr hp
    exact Or.inl ⟨hr, hp, rfl⟩
  · rename_i hr hp
    exact Or.inr (Or.inl ⟨hr, hp, rfl⟩)
  · rename_i h1 h2
    refine Or.inr (Or.inr ⟨fun hr => ?_, rfl⟩)
    cases hp : s.restorePromise with
    | none => rfl
    | some p =>
      cases p with
      | pending => exact absurd hp (h1 hr)
      | rejected => exact absurd hp (h2 hr)

theorem mem_settled {outcome : FramePhase} {frames : List RunFrame} {f : RunFrame}
    (h : f ∈ frames.map (RunFrame.settled outcome)) :
    ∃ g ∈ frames, g.late = f.late ∧
      (g.phase = .awaiting ∧ f.phase = outcome ∨ g = f) := by
  obtain ⟨g, hg, rfl⟩ := List.mem_map.mp h
  refine ⟨g, hg, ?_⟩
  unfold RunFrame.settled
  split
  · rename_i hw
    exact ⟨rfl, Or.inl ⟨hw, rfl⟩⟩
  · exact ⟨rfl, Or.inr rfl⟩

/-- Frames that await the restore came before it failed, so settling it keeps the invariant. -/
theorem inv_settle {s t : WorkerRestore} (h : Inv s) (outcome : FramePhase)
    (hframes : t.frames = s.frames.map (RunFrame.settled outcome)) (hran : t.ran = s.ran)
    (hfailed : t.failed = true ↔ t.restorePromise = some .rejected) : Inv t := by
  have hold : ∀ f ∈ t.frames, f.late = true → f ∈ s.frames := by
    intro f hf hlate
    rw [hframes] at hf
    obtain ⟨g, hg, hl, ⟨hw, -⟩ | rfl⟩ := mem_settled hf
    · rcases h.waiting g hg (hl.trans hlate) with hx | hx
      · simp [hw] at hx
      · simp [hw] at hx
    · exact hg
  refine ⟨hfailed, fun f hf hlate => h.waiting f (hold f hf hlate) hlate, fun f hf hlate hp => ?_⟩
  rw [hran]
  exact h.invoking f (hold f hf hlate) hlate hp

theorem inv_beginRun {s : WorkerRestore} (h : Inv s) (late : Bool) : Inv (s.beginRun late) := by
  refine ⟨h.failed, fun f hf hlate => ?_, fun f hf hlate hp => ?_⟩
  · rcases List.mem_append.mp hf with hf | hf
    · exact h.waiting f hf hlate
    · rw [List.mem_singleton.mp hf]
      exact Or.inr rfl
  · rcases List.mem_append.mp hf with hf | hf
    · obtain ⟨r, hr, hl⟩ := h.invoking f hf hlate hp
      exact ⟨r, List.mem_append_left _ hr, hl⟩
    · rw [List.mem_singleton.mp hf] at hlate
      exact ⟨⟨.guestHandler, late⟩, by simp [beginRun], hlate⟩

theorem inv_eraseIdx {s : WorkerRestore} (h : Inv s) (i : Nat) :
    Inv { s with frames := s.frames.eraseIdx i } :=
  ⟨h.failed, fun f hf => h.waiting f (List.mem_of_mem_eraseIdx hf),
    fun f hf => h.invoking f (List.mem_of_mem_eraseIdx hf)⟩

theorem inv_arrive {s : WorkerRestore} (h : Inv s) (phase : FramePhase)
    (hp : s.failed = true → phase = .throwing) :
    Inv { s with frames := s.frames ++ [⟨phase, s.failed⟩] } := by
  refine ⟨h.failed, fun f hf hlate => ?_, fun f hf hlate hi => ?_⟩
  · rcases List.mem_append.mp hf with hf | hf
    · exact h.waiting f hf hlate
    · rw [List.mem_singleton.mp hf] at hlate ⊢
      exact Or.inl (hp hlate)
  · rcases List.mem_append.mp hf with hf | hf
    · exact h.invoking f hf hlate hi
    · rw [List.mem_singleton.mp hf] at hlate hi
      simp [hp hlate] at hi

/-- What one step adds to `ran`: nothing, or the calls of one frame. As long as no late frame has
run, the calls are late exactly when a late message found another state than `restoring`. -/
inductive Effect (s t : WorkerRestore) (a : RestoreAction) : Prop where
  | silent (ran : t.ran = s.ran) (finds : FindsRestoring s a)
  | calls (stages : List HookStage) (late : Bool) (nonempty : stages ≠ [])
      (ran : t.ran = s.ran ++ stages.map fun stage => ⟨stage, late⟩)
      (early : late = false → FindsRestoring s a)
      (late_iff : late = true → s.NoLateRun → ¬ FindsRestoring s a)

theorem effect_of_ne {s t : WorkerRestore} {a : RestoreAction} (ha : a ≠ .runMessage)
    (h : t.ran = s.ran) : Effect s t a :=
  .silent h fun he => absurd he ha

theorem runMessage_effect {s : WorkerRestore} (h : Inv s) :
    Inv s.runMessage ∧ Effect s s.runMessage .runMessage := by
  rcases runMessage_cases s with ⟨hr, hp, he⟩ | ⟨hr, hp, he⟩ | ⟨hn, he⟩
  · rw [he]
    refine ⟨inv_arrive h _ fun hf => ?_, .silent rfl fun _ _ => hr⟩
    rw [h.failed, hp] at hf
    simp at hf
  · rw [he]
    exact ⟨inv_arrive h _ fun _ => rfl, .silent rfl fun _ _ => hr⟩
  · rw [he]
    refine ⟨inv_beginRun h s.failed, ?_⟩
    refine .calls [.onBeforeRunStarted, .guestHandler] s.failed (by simp) rfl ?_ ?_
    · intro hf _ hf'
      simp [hf] at hf'
    · intro hf _ hfinds
      have hnone := hn (hfinds rfl hf)
      rw [h.failed, hnone] at hf
      simp at hf

theorem resume_effect {s t : WorkerRestore} {i : Nat} (h : Inv s) (hs : s.resume i = some t) :
    Inv t ∧ Effect s t (.resume i) := by
  unfold resume at hs
  split at hs
  · rename_i late hi
    cases hs
    refine ⟨inv_beginRun (inv_eraseIdx h i) late, ?_⟩
    have hlate : late = false := by
      by_contra hne
      rcases h.waiting _ (List.mem_of_getElem? hi) (by simpa using hne) with hx | hx
      · simp at hx
      · simp at hx
    refine .calls [.onBeforeRunStarted, .guestHandler] late (by simp) rfl ?_ ?_
    · intro _ ha
      cases ha
    · intro hl
      simp [hlate] at hl
  · cases hs
    exact ⟨⟨h.failed, h.waiting, h.invoking⟩, effect_of_ne (by simp) rfl⟩
  · cases hs

theorem finish_effect {s t : WorkerRestore} {i : Nat} (h : Inv s) (hs : s.finish i = some t) :
    Inv t ∧ Effect s t (.finish i) := by
  unfold finish at hs
  split at hs
  · rename_i late hi
    cases hs
    have herase := inv_eraseIdx h i
    refine ⟨⟨?_, herase.waiting, fun f hf hl hp => ?_⟩, ?_⟩
    · rw [h.failed]
      cases s.restorePromise <;> simp
    · obtain ⟨r, hr, hlr⟩ := herase.invoking f hf hl hp
      exact ⟨r, List.mem_append_left _ hr, hlr⟩
    · refine .calls [.onRunFinished] late (by simp) rfl ?_ ?_
      · intro _ ha
        cases ha
      · intro hl hgood
        obtain ⟨r, hr, hlr⟩ := h.invoking _ (List.mem_of_getElem? hi) hl rfl
        rw [hgood r hr] at hlr
        cases hlr
  · cases hs

theorem restored_effect {s t : WorkerRestore} (h : Inv s) (hs : s.restored = some t) :
    Inv t ∧ Effect s t .restored := by
  unfold restored at hs
  split at hs
  · rename_i hp
    cases hs
    refine ⟨inv_settle h .resumed rfl rfl ?_, effect_of_ne (by simp) rfl⟩
    simp [h.failed, hp]
  · cases hs

theorem restoreFailed_effect {s t : WorkerRestore} (h : Inv s) (hs : s.restoreFailed = some t) :
    Inv t ∧ Effect s t .restoreFailed := by
  unfold restoreFailed at hs
  split at hs
  · cases hs
    exact ⟨inv_settle h .throwing rfl rfl (by simp), effect_of_ne (by simp) rfl⟩
  · cases hs

theorem step_effect {s t : WorkerRestore} {a : RestoreAction} (h : Inv s)
    (hs : s.step a = some t) : Inv t ∧ Effect s t a := by
  unfold step at hs
  split at hs
  · cases a with
    | runMessage =>
      cases hs
      exact runMessage_effect h
    | resume i => exact resume_effect h hs
    | finish i => exact finish_effect h hs
    | restored => exact restored_effect h hs
    | restoreFailed => exact restoreFailed_effect h hs
  · cases hs

theorem Effect.noLateRun_iff {s t : WorkerRestore} {a : RestoreAction} (h : Effect s t a)
    (hs : s.NoLateRun) : t.NoLateRun ↔ FindsRestoring s a := by
  cases h with
  | silent hran hfinds =>
    unfold NoLateRun at hs ⊢
    rw [hran]
    exact ⟨fun _ => hfinds, fun _ => hs⟩
  | calls stages late hne hran hearly hlate =>
    cases late with
    | false =>
      refine ⟨fun _ => hearly rfl, fun _ r hr => ?_⟩
      rw [hran] at hr
      rcases List.mem_append.mp hr with hr | hr
      · exact hs r hr
      · obtain ⟨stage, -, rfl⟩ := List.mem_map.mp hr
        rfl
    | true =>
      refine ⟨fun ht => ?_, fun hfinds => absurd hfinds (hlate rfl hs)⟩
      obtain ⟨stage, hstage⟩ := List.exists_mem_of_ne_nil stages hne
      have := ht ⟨stage, true⟩ (by
        rw [hran]
        exact List.mem_append_right _ (List.mem_map_of_mem hstage))
      simp at this

theorem Effect.noLateRun_of {s t : WorkerRestore} {a : RestoreAction} (h : Effect s t a)
    (ht : t.NoLateRun) : s.NoLateRun := by
  intro r hr
  cases h with
  | silent hran => exact ht r (hran ▸ hr)
  | calls stages late _ hran =>
    apply ht r
    rw [hran]
    exact List.mem_append_left _ hr

/-- A worker runs no hook and no guest handler for a message that comes after a failed restore
exactly when every such message finds `runState = "restoring"`. -/
theorem noLateRun_iff_findsRestoring (as : List RestoreAction) (s : WorkerRestore)
    (h : exec step init as = some s) : s.NoLateRun ↔ Along step FindsRestoring init as :=
  exec_good_iff_along (fun _ _ _ hi hs => (step_effect hi hs).1)
    (fun _ _ _ hi hg hs => (step_effect hi hs).2.noLateRun_iff hg)
    (fun _ _ _ hi hs hg => (step_effect hi hs).2.noLateRun_of hg) inv_init
    (by simp [NoLateRun, init]) h

/-- Two overlapping runs: the second ends after the restore of the first has failed, so the message
that comes then awaits the rejected promise. -/
theorem noLateRun_iff_findsRestoring_overlapping :
    ∃ s, exec step init [.runMessage, .runMessage, .finish 0, .restoreFailed, .finish 0,
        .runMessage, .resume 0] = some s ∧ s.failed = true ∧ s.alive = false ∧
      (s.NoLateRun ↔ Along step FindsRestoring init [.runMessage, .runMessage, .finish 0,
        .restoreFailed, .finish 0, .runMessage, .resume 0]) :=
  ⟨_, rfl, rfl, rfl, noLateRun_iff_findsRestoring _ _ rfl⟩

/-- One run, a failed restore, and the run message that main posted before it learnt of it. -/
theorem late_message_runs_hooks :
    ¬ ∀ (as : List RestoreAction) (s : WorkerRestore), exec step init as = some s →
      s.NoLateRun := by
  intro h
  have hlate := h [.runMessage, .finish 0, .restoreFailed, .runMessage] _ rfl
  revert hlate
  decide

end WorkerRestore

end WorkflowEngine.Sandbox
