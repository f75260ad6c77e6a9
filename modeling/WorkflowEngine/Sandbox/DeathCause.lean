import WorkflowEngine.Sandbox.RunDispatch

/-!
# The cause of a death, read twice

`handleDeath` of `sandbox.ts` closes the frames of a run with `termination.cause()`,
and `onTerminated` receives what `dispatch(classify())` hands on. Both are computed
from the same mutable flags, at two different moments. A `Witnessed` main thread
carries what has to be compared: whether the CPU watchdog has ever called
`worker.terminate()`, and what `cause()` returned at each death of a run.
-/

namespace WorkflowEngine.Sandbox

open Lib
set_option autoImplicit false

universe u
variable {V : Type u}

namespace WorkerTermination

/-- The flags that `classify` reads. -/
def signals (t : WorkerTermination) :
    Option WorkerError × Bool × Option Int × Option WorkerError :=
  (t.restoreFailedErr, t.cpuBudgetExpired, t.observedOnExpiry, t.lastError)

theorem classify_congr {t u : WorkerTermination} (h : u.signals = t.signals) :
    u.classify = t.classify := by
  simp only [signals, Prod.mk.injEq] at h
  obtain ⟨hr, he, ho, hl⟩ := h
  simp only [classify, hr, he, ho, hl]

theorem classify_of_expired {t : WorkerTermination} (hr : t.restoreFailedErr = none)
    (he : t.cpuBudgetExpired = true) : t.classify = .limit .cpu t.observedOnExpiry := by
  simp [classify, hr, he]

theorem classify_of_restoreFailed {t : WorkerTermination} {err : WorkerError}
    (hr : t.restoreFailedErr = some err) : t.classify = .restoreFailed err := by
  simp [classify, hr]

/-- Arming the budget again changes nothing for a worker whose budget has not run out. -/
theorem classify_armCpuBudget {t : WorkerTermination} (he : t.cpuBudgetExpired = false) (now : Int)
    (ms : Nat) : (t.armCpuBudget now ms).classify = t.classify := by
  simp [classify, armCpuBudget, he]

theorem onError_of_lastError {t : WorkerTermination} (h : t.lastError.isSome = true)
    (thrown : Thrown) : t.onError thrown = t := by
  obtain ⟨err, herr⟩ := Option.isSome_iff_exists.mp h
  simp [onError, herr]

theorem onError_lastError (t : WorkerTermination) (thrown : Thrown) :
    (t.onError thrown).lastError.isSome = true := by
  unfold onError
  split
  · rename_i err herr
    simp [herr]
  · rfl

@[simp] theorem onError_restoreFailedErr (t : WorkerTermination) (thrown : Thrown) :
    (t.onError thrown).restoreFailedErr = t.restoreFailedErr := by
  unfold onError; split <;> rfl

@[simp] theorem onError_cpuBudgetExpired (t : WorkerTermination) (thrown : Thrown) :
    (t.onError thrown).cpuBudgetExpired = t.cpuBudgetExpired := by
  unfold onError; split <;> rfl

/-- Once a terminating signal is recorded, `cause` is the classification. -/
theorem cause_of_signal {t : WorkerTermination} (hd : t.disposing = false)
    (h : t.cpuBudgetExpired = true ∨ t.lastError.isSome = true ∨ t.restoreFailedErr.isSome = true) :
    t.cause = some t.classify := by
  simp [cause, hd, h]

theorem cause_of_ne_none {t : WorkerTermination} (h : t.cause ≠ none) :
    t.cause = some t.classify := by
  unfold cause at h ⊢
  split
  · rename_i hd
    simp [hd] at h
  · rename_i hd
    split
    · rfl
    · rename_i hs
      simp [hd, hs] at h

theorem onExit_open {t : WorkerTermination} (hd : t.disposing = false) (hf : t.fired = false) :
    t.onExit = ({ t with fired := true }, some t.classify) := by
  simp [onExit, dispatch, hd, hf]

theorem onExit_fired {t : WorkerTermination} (hf : t.fired = true) : t.onExit = (t, none) := by
  simp [onExit, dispatch, hf]

end WorkerTermination

namespace MainThread

/-! ## What the end of a run leaves alone -/

/-- No cause is dispatched and no flag that `classify` reads is touched. -/
structure SameCause (s t : MainThread V) : Prop where
  terminatedCause : t.terminatedCause = s.terminatedCause
  signals : t.termination.signals = s.termination.signals
  disposed : t.disposed = false → s.disposed = false

theorem SameCause.refl (s : MainThread V) : SameCause s s := ⟨rfl, rfl, fun h => h⟩

theorem SameCause.trans {s t r : MainThread V} (h : SameCause s t) (h' : SameCause t r) :
    SameCause s r :=
  ⟨h'.terminatedCause.trans h.terminatedCause, h'.signals.trans h.signals,
    fun hr => h.disposed (h'.disposed hr)⟩

theorem sameCause_dispose (s : MainThread V) : SameCause s s.dispose := by
  unfold dispose
  split
  · exact SameCause.refl s
  · exact ⟨rfl, rfl, fun hd => by simp at hd⟩

theorem sameCause_call {s : MainThread V} (limits : SandboxLimits V)
    (h : s.rejection.isSome = true) (c : SandboxCall) : SameCause s (s.call limits c) := by
  cases c with
  | run now =>
    obtain ⟨message, hm⟩ := Option.isSome_iff_exists.mp h
    have he : s.run limits now = { s with promises := s.promises ++ [some (.rejected message)] } := by
      simp [run, hm]
    simp only [call, he]
    exact ⟨rfl, rfl, fun hd => hd⟩
  | dispose => exact sameCause_dispose s
  | onTerminated cb => exact ⟨rfl, rfl, fun hd => hd⟩

theorem sameCause_calls (limits : SandboxLimits V) (cs : List SandboxCall) {s : MainThread V}
    (h : s.rejection.isSome = true) : SameCause s (s.calls limits cs) := by
  induction cs generalizing s with
  | nil => exact SameCause.refl s
  | cons c cs ih => exact (sameCause_call limits h c).trans (ih (quiet_call limits h c).rejecting)

/-- Callbacks that do not dispose the sandbox leave the whole termination machine alone. -/
theorem calls_termination (limits : SandboxLimits V) (cs : List SandboxCall) {s : MainThread V}
    (h : s.rejection.isSome = true) (hcs : SandboxCall.dispose ∉ cs) :
    (s.calls limits cs).termination = s.termination := by
  induction cs generalizing s with
  | nil => rfl
  | cons c cs ih =>
    have hone : (s.call limits c).termination = s.termination := by
      cases c with
      | run now =>
        obtain ⟨message, hm⟩ := Option.isSome_iff_exists.mp h
        simp [call, run, hm]
      | dispose => simp at hcs
      | onTerminated cb => rfl
    refine Eq.trans (ih (quiet_call limits h c).rejecting ?_) hone
    exact fun hmem => hcs (List.mem_cons_of_mem c hmem)

theorem sameCause_finish {s : MainThread V} (limits : SandboxLimits V)
    (hf : s.runInFlight = true) (i : Nat) (closeReason : Option String) (re : Reentry)
    (outcome : Settlement V) : SameCause s (s.finish limits i closeReason re outcome) := by
  unfold finish finalize
  simp only [forward, settle]
  split
  · split
    · exact ⟨rfl, rfl, fun hd => hd⟩
    · have hcalls := sameCause_calls limits re.synth (s :=
        { s with
          sequencer := (s.sequencer.finish closeReason : FinishResult V).state
          ops := s.ops ++ [SequencerOp.finish i]
          pendingRunRejects := s.pendingRunRejects.filter (· ≠ i)
          listeners := s.listeners.erase i
          termination := s.termination.disarmCpuBudget
          forwarded := s.forwarded ++ (s.sequencer.finish closeReason : FinishResult V).events })
        ((rejection_isSome _).mpr (Or.inr (Or.inr hf)))
      exact ⟨hcalls.terminatedCause, hcalls.signals, hcalls.disposed⟩
  · exact ⟨rfl, rfl, fun hd => hd⟩

theorem sameCause_limitLeaf {s : MainThread V} (limits : SandboxLimits V)
    (hf : s.runInFlight = true) (dim : LimitDim) (observed : Option Int) (clock : Clock)
    (re : Reentry) :
    SameCause s (s.limitLeaf limits dim observed clock re) ∧
      (s.limitLeaf limits dim observed clock re).runInFlight = true := by
  simp only [limitLeaf, forward]
  split
  · have hr : ({ s with
        sequencer := (s.sequencer.next
          (System.limitLeaf dim.text clock (limits.exhaustionInput dim observed))).state
        forwarded := s.forwarded ++ (s.sequencer.next
          (System.limitLeaf dim.text clock (limits.exhaustionInput dim observed))).event.toList } :
        MainThread V).rejection.isSome = true :=
      (rejection_isSome _).mpr (Or.inr (Or.inr hf))
    have hcalls := sameCause_calls limits re.leaf hr
    exact ⟨⟨hcalls.terminatedCause, hcalls.signals, hcalls.disposed⟩,
      (quiet_calls limits re.leaf hr).runInFlight.trans hf⟩
  · exact ⟨⟨rfl, rfl, fun hd => hd⟩, hf⟩

theorem sameCause_handleDeath {s : MainThread V} (limits : SandboxLimits V)
    (hf : s.runInFlight = true) (i : Nat) (fallback : Thrown) (clock : Clock) (re : Reentry) :
    SameCause s (s.handleDeath limits i fallback clock re) := by
  unfold handleDeath
  split
  · rename_i dim observed _
    obtain ⟨hleaf, hf'⟩ := sameCause_limitLeaf limits hf dim observed clock re
    exact hleaf.trans (sameCause_finish limits hf' i _ re _)
  · exact sameCause_finish limits hf i _ re _

/-- An emission reaches the one run in flight, or nobody. -/
theorem sameCause_emit {s : MainThread V} (h : Inv none s) {is : List Nat} (his : s.listeners = is)
    (listener : MainThread V → Nat → MainThread V)
    (hlistener : ∀ i, s.runInFlight = true → SameCause s (listener s i)) :
    SameCause s (s.emit is listener) := by
  subst his
  rcases h.listeners_cases with hl | ⟨i, hl, hf⟩
  · rw [hl]
    exact SameCause.refl s
  · rw [hl]
    exact hlistener i hf

theorem sameCause_emit_handleDeath {s : MainThread V} (limits : SandboxLimits V) (h : Inv none s)
    {is : List Nat} (his : s.listeners = is) (fallback : Thrown) (clock : Clock) (re : Reentry) :
    SameCause s (s.emit is fun s i => s.handleDeath limits i fallback clock re) :=
  sameCause_emit h his _ fun i hf => sameCause_handleDeath limits hf i fallback clock re

/-- The registered callback records the cause before anything else can run. -/
theorem sameCause_terminated (limits : SandboxLimits V) (s : MainThread V) (re : Reentry)
    (cause : TerminationCause) :
    SameCause { s with terminatedCause := some cause } (s.terminated limits re (some cause)) := by
  simp only [terminated]
  split
  · exact ⟨rfl, rfl, fun hd => hd⟩
  · rename_i cb _
    have hcalls := sameCause_calls limits re.terminated (s :=
      { s with
        terminatedCause := some cause
        dispatched := s.dispatched ++ [cause]
        delivered := s.delivered ++ [(cb, cause)] })
      ((rejection_isSome _).mpr (Or.inr (Or.inl rfl)))
    exact ⟨hcalls.terminatedCause, hcalls.signals, hcalls.disposed⟩

theorem terminated_termination (limits : SandboxLimits V) (s : MainThread V) (re : Reentry)
    (cause : TerminationCause)
    (hre : s.terminatedCb.isSome = true → SandboxCall.dispose ∉ re.terminated) :
    (s.terminated limits re (some cause)).termination = s.termination := by
  simp only [terminated]
  split
  · rfl
  · rename_i cb hcb
    refine calls_termination limits re.terminated ?_ (hre (by simp [hcb]))
    exact (rejection_isSome _).mpr (Or.inr (Or.inl rfl))

/-- What `cause()` returns in the `handleDeath` of each run that an event kills. The listeners of
the termination machine have run before. A disposed sandbox has no cause by design. -/
def deathCauses (limits : SandboxLimits V) (s : MainThread V) :
    MainEvent V → List (Option TerminationCause)
  | .error thrown _ _ =>
    if s.disposed then [] else s.listeners.map fun _ => (s.termination.onError thrown).cause
  | .exit _ _ re =>
    let r := s.termination.onExit
    if s.disposed then []
    else s.listeners.map fun _ =>
      ({ s with termination := r.1 }.terminated limits re r.2).termination.cause
  | _ => []

def isWatchdog : MainEvent V → Bool
  | .watchdog _ => true
  | _ => false

end MainThread

/-- A main thread with its past: whether the watchdog has terminated the worker, and the causes
that the deaths of runs were closed with. -/
structure Witnessed (V : Type u) where
  main : MainThread V
  expired : Bool
  deaths : List (Option TerminationCause)
  deriving DecidableEq

namespace Witnessed

open MainThread

def init : Witnessed V := ⟨MainThread.init, false, []⟩

def step (limits : SandboxLimits V) (w : Witnessed V) (e : MainEvent V) : Option (Witnessed V) :=
  (w.main.step limits e).map fun s =>
    ⟨s, w.expired || isWatchdog e, w.deaths ++ w.main.deathCauses limits e⟩

/-- A worker that the watchdog terminated is reported as such, and a run dies of what is reported. -/
structure Faithful (w : Witnessed V) : Prop where
  cpu : w.expired = true → ∀ d ∈ w.main.dispatched, ∃ observed, d = .limit .cpu observed
  same : ∀ c ∈ w.deaths, ∀ d ∈ w.main.dispatched, c = some d

/-- No run is accepted on a worker whose budget ran out; the watchdog fires and `restore-failed`
comes only while neither the other nor a death has been seen; and when the worker exits under a
run, a signal is on record and the callback does not dispose the sandbox. -/
def Timely (w : Witnessed V) : MainEvent V → Prop
  | .call (.run _) => w.main.rejection = none → w.main.termination.cpuBudgetExpired = false
  | .watchdog _ => w.main.terminatedCause = none ∧ w.deaths = []
  | .restoreFailed _ _ => w.main.disposed = false → w.main.terminatedCause = none →
      w.main.termination.cpuBudgetExpired = false ∧ w.deaths = []
  | .exit _ _ re => w.main.disposed = false → w.main.listeners ≠ [] →
      w.main.termination.cause ≠ none ∧
        (w.main.terminatedCause = none → w.main.terminatedCb.isSome = true →
          SandboxCall.dispose ∉ re.terminated)
  | _ => True

instance (w : Witnessed V) : (e : MainEvent V) → Decidable (w.Timely e)
  | .call (.run _) => inferInstanceAs (Decidable (_ → _))
  | .call .dispose => isTrue trivial
  | .call (.onTerminated _) => isTrue trivial
  | .event _ => isTrue trivial
  | .done _ _ => isTrue trivial
  | .error _ _ _ => isTrue trivial
  | .exit _ _ _ => inferInstanceAs (Decidable (_ → _))
  | .watchdog _ => inferInstanceAs (Decidable (_ ∧ _))
  | .restoreFailed _ _ => inferInstanceAs (Decidable (_ → _))

/-! ## The invariant -/

/-- Before a cause is dispatched the flags still say what the past says; afterwards the deaths agree
with the cause, and a run that is still in flight will die of the same `restore-failed`. -/
structure Inv (w : Witnessed V) : Prop where
  main : MainThread.Inv none w.main
  unreported : w.main.terminatedCause = none → w.main.disposed = false →
    w.main.termination.restoreFailedErr = none ∧
      (w.expired = true → w.main.termination.cpuBudgetExpired = true) ∧
      (w.deaths ≠ [] → w.main.termination.lastError.isSome = true) ∧
      ∀ c ∈ w.deaths, c = some w.main.termination.classify
  reported : ∀ d, w.main.terminatedCause = some d →
    (w.expired = true → ∃ observed, d = .limit .cpu observed) ∧
      (∀ c ∈ w.deaths, c = some d) ∧
      (w.main.disposed = false → w.main.listeners ≠ [] →
        ∃ err, d = .restoreFailed err ∧ w.main.termination.restoreFailedErr = some err)

theorem inv_init : Inv (init : Witnessed V) where
  main := MainThread.inv_init
  unreported := fun _ _ => ⟨rfl, by simp [init], by simp [init], by simp [init]⟩
  reported := fun d hd => by simp [init, MainThread.init] at hd

theorem Inv.faithful {w : Witnessed V} (h : Inv w) : Faithful w := by
  have hd : ∀ d ∈ w.main.dispatched, w.main.terminatedCause = some d := by
    intro d hd
    rw [h.main.dispatched] at hd
    simpa using hd
  exact ⟨fun hx d hmem => (h.reported d (hd d hmem)).1 hx,
    fun c hc d hmem => (h.reported d (hd d hmem)).2.1 c hc⟩

/-- A step that dispatches nothing, touches no signal and kills no run. -/
theorem Inv.sameCause {w : Witnessed V} (h : Inv w) {s : MainThread V}
    (hmain : MainThread.Inv none s) (hsame : SameCause w.main s)
    (hl : ∀ i ∈ s.listeners, i ∈ w.main.listeners) : Inv ⟨s, w.expired, w.deaths⟩ := by
  have hsig := hsame.signals
  simp only [WorkerTermination.signals, Prod.mk.injEq] at hsig
  obtain ⟨hrf, hexp, -, hlast⟩ := hsig
  refine ⟨hmain, ?_, ?_⟩
  · intro hnone hdis
    obtain ⟨h1, h2, h3, h4⟩ :=
      h.unreported (hsame.terminatedCause.symm.trans hnone) (hsame.disposed hdis)
    rw [WorkerTermination.classify_congr hsame.signals, hrf, hexp, hlast]
    exact ⟨h1, h2, h3, h4⟩
  · intro d hd
    obtain ⟨h1, h2, h3⟩ := h.reported d (hsame.terminatedCause.symm.trans hd)
    refine ⟨h1, h2, ?_⟩
    intro hdis hne
    rw [hrf]
    refine h3 (hsame.disposed hdis) ?_
    intro hnil
    obtain ⟨i, hi⟩ := List.exists_mem_of_ne_nil _ hne
    have := hl i hi
    simp [hnil] at this

theorem inv_call {w : Witnessed V} (limits : SandboxLimits V) (h : Inv w) (c : SandboxCall)
    (hok : w.Timely (.call c)) : Inv ⟨w.main.call limits c, w.expired, w.deaths⟩ := by
  have hmain := MainThread.inv_call limits h.main c
  cases c with
  | dispose =>
    refine h.sameCause hmain (sameCause_dispose w.main) ?_
    intro i hi
    simp only [call, dispose] at hi
    split at hi
    · exact hi
    · exact hi
  | onTerminated cb => exact h.sameCause hmain ⟨rfl, rfl, fun hd => hd⟩ fun i hi => hi
  | run now =>
    rcases run_cases limits w.main now with ⟨message, hr, he⟩ | ⟨hd, hc, hf, he⟩
    · refine h.sameCause hmain (sameCause_call limits (by simp [hr]) (.run now)) ?_
      intro i hi
      simpa only [call, he] using hi
    · have hnone : w.main.rejection = none := by simp [rejection, hd, hc, hf]
      have hlive := hok hnone
      obtain ⟨h1, h2, h3, h4⟩ := h.unreported hc hd
      simp only [call, he] at hmain ⊢
      refine ⟨hmain, ?_, ?_⟩
      · intro _ _
        refine ⟨h1, ?_, h3, ?_⟩
        · intro hx
          simp [h2 hx] at hlive
        · intro c hc
          rw [WorkerTermination.classify_armCpuBudget hlive]
          exact h4 c hc
      · intro d hx
        simp [hc] at hx

/-- The `error` listener of the termination machine, with the death that the event brings. -/
theorem inv_error {w : Witnessed V} (limits : SandboxLimits V) (h : Inv w) (thrown : Thrown)
    (clock : Clock) (re : Reentry) :
    Inv
      ⟨{ w.main with termination := w.main.termination.onError thrown }, w.expired,
        w.deaths ++ w.main.deathCauses limits (.error thrown clock re)⟩ := by
  have hdeath : ∀ c ∈ w.main.deathCauses limits (.error thrown clock re),
      w.main.disposed = false ∧ w.main.listeners ≠ [] ∧
        c = some (w.main.termination.onError thrown).classify := by
    intro c hc
    simp only [deathCauses] at hc
    split at hc
    · simp at hc
    · rename_i hd
      obtain ⟨i, hi, rfl⟩ := List.mem_map.mp hc
      have hdis : w.main.disposed = false := by simpa using hd
      refine ⟨hdis, List.ne_nil_of_mem hi, ?_⟩
      apply WorkerTermination.cause_of_signal
      · rw [WorkerTermination.onError_disposing, h.main.disposing, hdis]
      · exact Or.inr (Or.inl (WorkerTermination.onError_lastError _ _))
  refine ⟨inv_termination h.main (by simp) (by simp) (by simp), ?_, ?_⟩
  · intro hnone hdis
    obtain ⟨h1, h2, h3, h4⟩ := h.unreported hnone hdis
    refine ⟨by simpa using h1, by simpa using h2,
      fun _ => WorkerTermination.onError_lastError _ _, ?_⟩
    intro c hc
    rcases List.mem_append.mp hc with hold | hnew
    · have hlast := h3 (List.ne_nil_of_mem hold)
      simp only [WorkerTermination.onError_of_lastError hlast]
      exact h4 c hold
    · exact (hdeath c hnew).2.2
  · intro d hd
    obtain ⟨h1, h2, h3⟩ := h.reported d hd
    refine ⟨h1, ?_, by simpa using h3⟩
    intro c hc
    rcases List.mem_append.mp hc with hold | hnew
    · exact h2 c hold
    · obtain ⟨hdis, hne, rfl⟩ := hdeath c hnew
      obtain ⟨err, rfl, herr⟩ := h3 hdis hne
      rw [WorkerTermination.classify_of_restoreFailed (by simpa using herr)]

theorem inv_watchdog {w : Witnessed V} (h : Inv w) (now : Int) (hok : w.Timely (.watchdog now))
    (hmain : MainThread.Inv none
      { w.main with termination := w.main.termination.expire now, terminating := true }) :
    Inv
      ⟨{ w.main with termination := w.main.termination.expire now, terminating := true }, true,
        w.deaths⟩ := by
  obtain ⟨hnone, hdeaths⟩ := hok
  refine ⟨hmain, ?_, ?_⟩
  · intro _ hdis
    obtain ⟨h1, -, -, -⟩ := h.unreported hnone hdis
    refine ⟨h1, fun _ => rfl, ?_, ?_⟩
    · intro hne
      exact absurd hdeaths hne
    · intro c hc
      simp [hdeaths] at hc
  · intro d hd
    simp [hnone] at hd

/-- An `exit` that dispatches nothing: the sandbox is disposed, or `restore-failed` came first. -/
theorem deathCauses_exit_silent {w : Witnessed V} (limits : SandboxLimits V)
    (hs : w.main.termination.onExit = (w.main.termination, none)) (code : Int) (clock : Clock)
    (re : Reentry) {c : Option TerminationCause}
    (hc : c ∈ w.main.deathCauses limits (.exit code clock re)) :
    w.main.disposed = false ∧ w.main.listeners ≠ [] ∧ c = w.main.termination.cause := by
  simp only [deathCauses, hs, terminated] at hc
  split at hc
  · simp at hc
  · rename_i hd
    obtain ⟨i, hi, rfl⟩ := List.mem_map.mp hc
    exact ⟨by simpa using hd, List.ne_nil_of_mem hi, rfl⟩

theorem inv_exit_silent {w : Witnessed V} (limits : SandboxLimits V) (h : Inv w)
    (hs : w.main.termination.onExit = (w.main.termination, none))
    (hwhy : w.main.disposed = true ∨ w.main.terminatedCause.isSome = true) (code : Int)
    (clock : Clock) (re : Reentry) :
    Inv ⟨w.main, w.expired, w.deaths ++ w.main.deathCauses limits (.exit code clock re)⟩ := by
  refine ⟨h.main, ?_, ?_⟩
  · intro hnone hdis
    rcases hwhy with hx | hx
    · cases hx.symm.trans hdis
    · rw [show w.main.terminatedCause = none from hnone] at hx
      cases hx
  · intro d hd
    obtain ⟨h1, h2, h3⟩ := h.reported d hd
    refine ⟨h1, ?_, h3⟩
    intro c hc
    rcases List.mem_append.mp hc with hold | hnew
    · exact h2 c hold
    · obtain ⟨hdis, hne, rfl⟩ := deathCauses_exit_silent limits hs code clock re hnew
      obtain ⟨err, rfl, herr⟩ := h3 hdis hne
      rw [WorkerTermination.cause_of_signal (h.main.disposing.trans hdis)
          (Or.inr (Or.inr (by simp [herr]))),
        WorkerTermination.classify_of_restoreFailed herr]

/-- The `exit` that dispatches: every death so far, and the one it brings, is what is dispatched. -/
theorem inv_exit_dispatches {w : Witnessed V} (limits : SandboxLimits V) (h : Inv w)
    (hd : w.main.disposed = false) (hnone : w.main.terminatedCause = none) (code : Int)
    (clock : Clock) (re : Reentry) (hok : w.Timely (.exit code clock re)) :
    Inv
      ⟨w.main.onExit limits code clock re, w.expired,
        w.deaths ++ w.main.deathCauses limits (.exit code clock re)⟩ := by
  obtain ⟨hmain, hnil⟩ := MainThread.inv_onExit limits h.main code clock re
  obtain ⟨h1, h2, -, h4⟩ := h.unreported hnone hd
  have hfired : w.main.termination.fired = false := by simp [h.main.fired, hnone]
  have hexit := WorkerTermination.onExit_open (h.main.disposing.trans hd) hfired
  obtain ⟨hinv, hl, -⟩ :=
    MainThread.inv_terminated limits h.main re w.main.termination.onExit_dispatches
  have hend := sameCause_emit_handleDeath limits hinv hl
    (.error (.new ("worker exited with code " ++ toString code))) clock re
  have hcause : (w.main.onExit limits code clock re).terminatedCause =
      some w.main.termination.classify := by
    refine Eq.trans hend.terminatedCause ?_
    rw [hexit]
    exact (sameCause_terminated limits _ re _).terminatedCause
  refine ⟨hmain, ?_, ?_⟩
  · intro hx
    simp [hcause] at hx
  · intro d hx
    obtain rfl : w.main.termination.classify = d := Option.some.inj (hcause.symm.trans hx)
    refine ⟨?_, ?_, fun _ hne => absurd hnil hne⟩
    · intro hexp
      exact ⟨_, WorkerTermination.classify_of_expired h1 (h2 hexp)⟩
    · intro c hc
      rcases List.mem_append.mp hc with hold | hnew
      · exact h4 c hold
      · simp only [deathCauses, hexit] at hnew
        rw [if_neg (by simp [hd])] at hnew
        obtain ⟨i, hi, rfl⟩ := List.mem_map.mp hnew
        obtain ⟨hne, hre⟩ := hok hd (List.ne_nil_of_mem hi)
        have hterm := terminated_termination limits
          { w.main with termination := { w.main.termination with fired := true } } re
          w.main.termination.classify (hre hnone)
        refine Eq.trans (congrArg WorkerTermination.cause hterm) ?_
        exact WorkerTermination.cause_of_ne_none hne

theorem inv_exit {w : Witnessed V} (limits : SandboxLimits V) (h : Inv w) (code : Int)
    (clock : Clock) (re : Reentry) (hok : w.Timely (.exit code clock re)) :
    Inv
      ⟨w.main.onExit limits code clock re, w.expired,
        w.deaths ++ w.main.deathCauses limits (.exit code clock re)⟩ := by
  have hsilent : w.main.termination.onExit = (w.main.termination, none) →
      w.main.disposed = true ∨ w.main.terminatedCause.isSome = true →
      Inv
        ⟨w.main.onExit limits code clock re, w.expired,
          w.deaths ++ w.main.deathCauses limits (.exit code clock re)⟩ := by
    intro hs hwhy
    obtain ⟨hmain, hnil⟩ := MainThread.inv_onExit limits h.main code clock re
    refine (inv_exit_silent limits h hs hwhy code clock re).sameCause hmain ?_ ?_
    · have hend := sameCause_emit_handleDeath limits h.main rfl
        (.error (.new ("worker exited with code " ++ toString code))) clock re
      simp only [MainThread.onExit, hs, terminated]
      exact ⟨hend.terminatedCause, hend.signals, hend.disposed⟩
    · intro i hi
      simp [hnil] at hi
  cases hd : w.main.disposed with
  | true =>
    refine hsilent ?_ (Or.inl hd)
    simp [WorkerTermination.onExit, h.main.disposing, hd]
  | false =>
    cases hc : w.main.terminatedCause with
    | none => exact inv_exit_dispatches limits h hd hc code clock re hok
    | some d =>
      refine hsilent (WorkerTermination.onExit_fired ?_) (Or.inr (by simp [hc]))
      simp [h.main.fired, hc]

theorem inv_restoreFailed {w : Witnessed V} (limits : SandboxLimits V) (h : Inv w)
    (err : WorkerError) (re : Reentry) (hok : w.Timely (.restoreFailed err re)) :
    Inv ⟨w.main.onRestoreFailed limits err re, w.expired, w.deaths⟩ := by
  obtain ⟨hmain, hl, -⟩ := MainThread.inv_terminated limits h.main re
    (w.main.termination.markRestoreFailed_dispatches err)
  cases hd : w.main.disposed with
  | true =>
    have hs : w.main.termination.markRestoreFailed err = (w.main.termination, none) := by
      simp [WorkerTermination.markRestoreFailed, h.main.disposing, hd]
    simp only [onRestoreFailed, hs, terminated]
    exact h
  | false =>
    have hdis := h.main.disposing.trans hd
    cases hc : w.main.terminatedCause with
    | some d =>
      have hs : w.main.termination.markRestoreFailed err =
          ({ w.main.termination with
            restoreFailedErr := w.main.termination.restoreFailedErr <|> some err }, none) := by
        simp [WorkerTermination.markRestoreFailed, WorkerTermination.dispatch, hdis,
          h.main.fired, hc]
      simp only [hs] at hmain
      simp only [onRestoreFailed, hs, terminated] at hmain ⊢
      obtain ⟨h1, h2, h3⟩ := h.reported d hc
      refine ⟨hmain, fun hnone => by simp [hc] at hnone, ?_⟩
      intro d' hd'
      obtain rfl : d = d' := Option.some.inj (hc.symm.trans hd')
      refine ⟨h1, h2, ?_⟩
      intro _ hne
      obtain ⟨e, he, hr⟩ := h3 hd hne
      exact ⟨e, he, by simp [hr]⟩
    | none =>
      obtain ⟨hlive, hdeaths⟩ := hok hd hc
      obtain ⟨h1, h2, -, -⟩ := h.unreported hc hd
      have hs : w.main.termination.markRestoreFailed err =
          ({ w.main.termination with restoreFailedErr := some err, fired := true },
            some (.restoreFailed err)) := by
        simp [WorkerTermination.markRestoreFailed, WorkerTermination.dispatch,
          WorkerTermination.classify, hdis, h.main.fired, hc, h1]
      have hsame := sameCause_terminated limits
        { w.main with
          termination := { w.main.termination with restoreFailedErr := some err, fired := true } }
        re (.restoreFailed err)
      have hsig := hsame.signals
      simp only [WorkerTermination.signals, Prod.mk.injEq] at hsig
      simp only [hs] at hmain
      simp only [onRestoreFailed, hs]
      refine ⟨hmain, fun hnone => ?_, ?_⟩
      · have := hsame.terminatedCause.symm.trans hnone
        simp at this
      · intro d hx
        obtain rfl : TerminationCause.restoreFailed err = d :=
          Option.some.inj (hsame.terminatedCause.symm.trans hx)
        refine ⟨?_, ?_, fun _ _ => ⟨err, rfl, hsig.1⟩⟩
        · intro hexp
          simp [h2 hexp] at hlive
        · intro c hcm
          simp [hdeaths] at hcm

theorem inv_step {limits : SandboxLimits V} {w v : Witnessed V} {e : MainEvent V} (h : Inv w)
    (hok : w.Timely e) (hstep : w.step limits e = some v) : Inv v := by
  obtain ⟨s, hs, rfl⟩ := Option.map_eq_some_iff.mp hstep
  have hmain := MainThread.inv_step h.main hs
  cases e with
  | call c =>
    cases hs
    simpa [isWatchdog, deathCauses] using inv_call limits h c hok
  | event wire =>
    cases hs
    have hsame : SameCause w.main (w.main.onEvent wire) := ⟨rfl, rfl, fun hd => hd⟩
    simpa [isWatchdog, deathCauses] using h.sameCause hmain hsame fun i hi => hi
  | done payload re =>
    cases hs
    have hsame : SameCause w.main (w.main.onDone limits payload re) :=
      sameCause_emit h.main rfl _ fun i hf =>
        sameCause_finish limits hf i none re (.resolved payload)
    have hnil : (w.main.onDone limits payload re).listeners = [] :=
      (inv_emit h.main _ fun i hl => inv_finish limits h.main hl none re (.resolved payload)).2
    simpa [isWatchdog, deathCauses] using h.sameCause hmain hsame fun i hi => by simp [hnil] at hi
  | error thrown clock re =>
    cases hs
    have hrec := inv_error limits h thrown clock re
    have hsame := sameCause_emit_handleDeath limits hrec.main rfl thrown clock re
    have hnil : (w.main.onError limits thrown clock re).listeners = [] :=
      (inv_emit_handleDeath limits hrec.main rfl thrown clock re).2
    simpa [isWatchdog] using hrec.sameCause hmain hsame fun i hi => by simp [hnil] at hi
  | exit code clock re =>
    cases hs
    simpa [isWatchdog] using inv_exit limits h code clock re hok
  | watchdog now =>
    simp only [MainThread.step] at hs
    split at hs
    · cases hs
      simpa [isWatchdog, deathCauses] using inv_watchdog h now hok hmain
    · cases hs
  | restoreFailed err re =>
    cases hs
    simpa [isWatchdog, deathCauses] using inv_restoreFailed limits h err re hok

/-- In every run whose events are timely, the watchdog's victim is reported as `limit cpu`, and the
frames of every run that dies are closed with the cause that `onTerminated` receives. -/
theorem death_cause_dispatched (limits : SandboxLimits V) (es : List (MainEvent V))
    (w : Witnessed V) (hw : exec (step limits) init es = some w)
    (hok : Along (step limits) Timely init es) : Faithful w :=
  (exec_invariant_along (fun _ _ _ hi ho hs => inv_step hi ho hs) inv_init hok hw).faithful

/-- A run completes, and the watchdog ends the next one, which the worker leaves by an error. -/
def timelyTrace : List (MainEvent Nat) :=
  [.call (.onTerminated 0), .call (.run 0), .done 7 ⟨[], [], []⟩, .call (.run 10), .watchdog 60,
    .error (.error (.new "boom")) ⟨70, "T"⟩ ⟨[], [], []⟩, .exit 1 ⟨70, "T"⟩ ⟨[], [], []⟩]

theorem death_cause_dispatched_watchdog : ∃ w : Witnessed Nat,
    exec (step ⟨50, fun _ _ => 0⟩) init timelyTrace = some w ∧
      Along (step ⟨50, fun _ _ => 0⟩) Timely init timelyTrace ∧
      (w.expired = true ∧ w.deaths = [some (.limit .cpu (some 50))] ∧
        w.main.dispatched = [.limit .cpu (some 50)]) ∧ Faithful w := by
  have hok : Along (step ⟨50, fun _ _ => 0⟩) Timely init timelyTrace := by decide
  exact ⟨_, rfl, hok, by decide, death_cause_dispatched _ timelyTrace _ rfl hok⟩

/-- The `done` of a run is queued when its watchdog fires, so a next run is accepted and arms the
budget again; its exit is reported as a crash. -/
def rearmedTrace : List (MainEvent Nat) :=
  [.call (.run 0), .watchdog 50, .done 7 ⟨[], [], []⟩, .call (.run 51),
    .exit 1 ⟨60, "T"⟩ ⟨[], [], []⟩]

/-- A run dies of an error, and the watchdog of the run after it fires before the worker exits. -/
def relabelledTrace : List (MainEvent Nat) :=
  [.call (.run 0), .error (.error (.new "boom")) ⟨9, "T"⟩ ⟨[], [], []⟩, .call (.run 10),
    .watchdog 60, .exit 1 ⟨70, "T"⟩ ⟨[], [], []⟩]

theorem death_cause_not_dispatched :
    (∃ w : Witnessed Nat, exec (step ⟨50, fun _ _ => 0⟩) init rearmedTrace = some w ∧
      w.expired = true ∧ w.main.dispatched = [.crash (.new "worker exited")] ∧
      w.deaths = [none] ∧ ¬ Faithful w) ∧
    ∃ w : Witnessed Nat, exec (step ⟨50, fun _ _ => 0⟩) init relabelledTrace = some w ∧
      w.deaths = [some (.crash (.new "boom")), some (.limit .cpu (some 50))] ∧
      w.main.dispatched = [.limit .cpu (some 50)] ∧ ¬ Faithful w := by
  refine ⟨⟨_, rfl, rfl, rfl, rfl, ?_⟩, ⟨_, rfl, rfl, rfl, ?_⟩⟩
  · intro h
    obtain ⟨observed, hx⟩ := h.cpu rfl (.crash (.new "worker exited")) (List.mem_singleton.mpr rfl)
    cases hx
  · intro h
    have hx := h.same (some (.crash (.new "boom"))) List.mem_cons_self
      (.limit .cpu (some 50)) (List.mem_singleton.mpr rfl)
    cases hx

end Witnessed

end WorkflowEngine.Sandbox
