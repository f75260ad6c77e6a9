import WorkflowEngine.Lib.ListIndex
import WorkflowEngine.Lib.OrderedMap
import WorkflowEngine.Lib.Transition

/-!
# Callables and the run-end audit

`makeCallable`, `drainCallableLeaks` and `rebind` of `bridge.ts` with the audit
of `runLifecycleAfter` and the VM swap of `startRestore`. An invocation is on the
stack of the VM until the guest function returns (`calling`), then its promise
is awaited. Guest code that runs inside a call may make, invoke and dispose
Callables, so these are actions of their own. The audit and the disposal of the
outgoing VM are one turn of the worker.

`releases` has, for each `dup.dispose()`, the number of invocations in progress
at that moment; `audited` marks the Callables on which the audit has called
`dispose`; `calls` lists every `invoke` with what became of it.
-/

namespace WorkflowEngine.Sandbox.CallableHandles

open Lib
set_option autoImplicit false

structure Callable where
  vm : Nat
  disposed : Bool
  depth : Nat
  pendingDispose : Bool
  releases : List Nat
  audited : Bool
  deriving DecidableEq

inductive Stage where
  | calling
  | awaiting
  | finished
  deriving DecidableEq

structure Invocation where
  callable : Nat
  stage : Stage
  deriving DecidableEq

def Invocation.isOpen (c : Nat) (i : Invocation) : Bool := i.callable = c && i.stage ≠ .finished

/-- `entered vm`: the guest function was called on that VM. -/
inductive Outcome where
  | entered (vm : Nat)
  | callableDisposed
  | unmarshallable
  deriving DecidableEq

structure Call where
  callable : Nat
  audited : Bool
  outcome : Outcome
  deriving DecidableEq

/-- VMs are numbered by the restores that made them; `alive` is whether `currentVm` is not disposed. -/
structure Bridge where
  currentVm : Nat
  alive : Bool
  running : Bool
  callables : List Callable
  liveCallables : OrderedMap Nat String
  invocations : List Invocation
  calls : List Call
  leaks : List String

namespace Bridge

/-- After `createBridge`. -/
def init : Bridge := ⟨0, true, false, [], .empty, [], [], []⟩

/-- The invocations of a Callable that have not reached their `finally`. -/
def inProgress (s : Bridge) (c : Nat) : Nat := s.invocations.countP (Invocation.isOpen c)

def makeCallable (s : Bridge) (descriptorName : String) : Bridge :=
  { s with
    callables := s.callables ++ [⟨s.currentVm, false, 0, false, [], false⟩]
    liveCallables := s.liveCallables.set s.callables.length descriptorName }

/-- `disposed = true; dup.dispose(); liveCallables.delete(callable)`. -/
def release (s : Bridge) (c : Nat) (k : Callable) : Bridge :=
  { s with
    callables := s.callables.set c
      { k with disposed := true, releases := k.releases ++ [s.inProgress c] }
    liveCallables := s.liveCallables.delete c }

def dispose (s : Bridge) (c : Nat) : Bridge :=
  match s.callables[c]? with
  | none => s
  | some k =>
    if k.disposed || k.pendingDispose then s
    else if k.depth > 0 then { s with callables := s.callables.set c { k with pendingDispose := true } }
    else s.release c k

def reject (s : Bridge) (c : Nat) (k : Callable) (outcome : Outcome) : Bridge :=
  { s with calls := s.calls ++ [⟨c, k.audited, outcome⟩] }

/-- `invoke` up to its first await; `marshals` is whether every argument could be marshalled. -/
def invoke (s : Bridge) (c : Nat) (marshals : Bool) : Bridge :=
  match s.callables[c]? with
  | none => s
  | some k =>
    if k.disposed then s.reject c k .callableDisposed
    else if marshals then
      { s with
        callables := s.callables.set c { k with depth := k.depth + 1 }
        invocations := s.invocations ++ [⟨c, .calling⟩]
        calls := s.calls ++ [⟨c, k.audited, .entered s.currentVm⟩] }
    else s.reject c k .unmarshallable

/-- The `finally` block of invocation `i` of Callable `c`. -/
def invokeFinally (s : Bridge) (i c : Nat) : Bridge :=
  let s := { s with invocations := s.invocations.set i ⟨c, .finished⟩ }
  match s.callables[c]? with
  | none => s
  | some k =>
    let k := { k with depth := k.depth - 1 }
    let s := { s with callables := s.callables.set c k }
    if k.depth = 0 && k.pendingDispose && !k.disposed then s.release c k else s

/-- One turn of the audit loop. -/
def auditLeak (s : Bridge) (leak : Nat × String) : Bridge :=
  let s := { s with
    leaks := s.leaks ++ [leak.2]
    callables := s.callables.modify leak.1 fun k => { k with audited := true } }
  s.dispose leak.1

/-- The audit of `runLifecycleAfter`, over what `drainCallableLeaks` returns. -/
def runLifecycleAfter (s : Bridge) : Bridge :=
  s.liveCallables.entries.foldl auditLeak { s with liveCallables := .empty }

/-- `finalizeRun` and the first turn of `startRestore`, which disposes the VM. -/
def finalizeRun (s : Bridge) : Bridge :=
  { s.runLifecycleAfter with running := false, alive := false }

def rebind (s : Bridge) : Bridge := { s with currentVm := s.currentVm + 1, alive := true }

end Bridge

inductive CallableAction where
  | handleRun
  | makeCallable (descriptorName : String)
  | invoke (c : Nat) (marshals : Bool)
  | returned (i : Nat) (awaits : Bool)
  | settled (i : Nat)
  | dispose (c : Nat)
  | finalizeRun
  | rebind
  deriving DecidableEq

namespace Bridge

/-- The guest function of invocation `i` returned a value to await, or the call threw. -/
def afterReturn (s : Bridge) (i : Nat) (awaits : Bool) : Option Bridge :=
  match s.invocations[i]? with
  | some ⟨c, .calling⟩ =>
    if awaits then some { s with invocations := s.invocations.set i ⟨c, .awaiting⟩ }
    else some (s.invokeFinally i c)
  | _ => none

def afterSettle (s : Bridge) (i : Nat) : Option Bridge :=
  match s.invocations[i]? with
  | some ⟨c, .awaiting⟩ => some (s.invokeFinally i c)
  | _ => none

/-- Guest code runs on a VM that is alive, and the audit runs with no guest code on the stack. -/
def step (s : Bridge) : CallableAction → Option Bridge
  | .handleRun => if s.running then none else some { s with running := true }
  | .makeCallable descriptorName => if s.alive then some (s.makeCallable descriptorName) else none
  | .invoke c marshals => if c < s.callables.length then some (s.invoke c marshals) else none
  | .returned i awaits => s.afterReturn i awaits
  | .settled i => s.afterSettle i
  | .dispose c => if c < s.callables.length then some (s.dispose c) else none
  | .finalizeRun =>
    if s.running && s.invocations.all (·.stage ≠ .calling) then some s.finalizeRun else none
  | .rebind => if s.alive then none else some s.rebind

/-! ## What has to hold -/

/-- Handles are released at most once and with no invocation in progress, once as soon as the audit
has been there or a disposal was deferred and no invocation is left; a call after the audit is
refused, and a call that is made is made on the VM of the handle. -/
structure Sound (s : Bridge) : Prop where
  once : ∀ (c : Nat) (k : Callable), s.callables[c]? = some k → k.releases = [] ∨ k.releases = [0]
  released : ∀ (c : Nat) (k : Callable), s.callables[c]? = some k →
    k.audited = true ∨ k.pendingDispose = true → s.inProgress c = 0 → k.releases = [0]
  refused : ∀ call ∈ s.calls, call.audited = true → call.outcome = .callableDisposed
  touched : ∀ call ∈ s.calls, ∀ vm, call.outcome = .entered vm →
    ∃ k : Callable, s.callables[call.callable]? = some k ∧ k.vm = vm

/-- A Callable that the audit has disposed is invoked only when none of its invocations is left. -/
def NoLateInvoke (s : Bridge) : CallableAction → Prop
  | .invoke c _ => ∀ k : Callable, s.callables[c]? = some k → k.audited = true → s.inProgress c = 0
  | _ => True

instance (s : Bridge) : (a : CallableAction) → Decidable (s.NoLateInvoke a)
  | .invoke c _ =>
    inferInstanceAs (Decidable (∀ k ∈ s.callables[c]?, k.audited = true → s.inProgress c = 0))
  | .handleRun => isTrue trivial
  | .makeCallable _ => isTrue trivial
  | .returned _ _ => isTrue trivial
  | .settled _ => isTrue trivial
  | .dispose _ => isTrue trivial
  | .finalizeRun => isTrue trivial
  | .rebind => isTrue trivial

/-! ## The invariant -/

/-- The fields of a Callable with `n` invocations in progress. -/
structure Kept (n : Nat) (k : Callable) : Prop where
  depth : k.depth = n
  releases : k.releases = if k.disposed then [0] else []
  idle : k.disposed = true → n = 0
  waits : k.pendingDispose = true → k.disposed = false → 0 < n
  asked : k.audited = true → k.disposed = true ∨ k.pendingDispose = true

/-- `registered` are the Callables that the registry has, or those that the audit has still to visit. -/
structure Good (registered : List Nat) (s : Bridge) : Prop where
  kept : ∀ (c : Nat) (k : Callable), s.callables[c]? = some k → Kept (s.inProgress c) k
  live : ∀ (c : Nat) (k : Callable), s.callables[c]? = some k → k.disposed = false →
    k.audited = false → c ∈ registered ∧ k.vm = s.currentVm ∧ s.alive = true
  known : ∀ i ∈ s.invocations, i.callable < s.callables.length
  refused : ∀ call ∈ s.calls, call.audited = true → call.outcome = .callableDisposed
  touched : ∀ call ∈ s.calls, ∀ vm, call.outcome = .entered vm →
    ∃ k : Callable, s.callables[call.callable]? = some k ∧ k.vm = vm

def Inv (s : Bridge) : Prop := Good s.liveCallables.keys s

theorem Kept.disposed_of_asked {k : Callable} (h : Kept 0 k)
    (ha : k.audited = true ∨ k.pendingDispose = true) : k.disposed = true := by
  have hpending : k.pendingDispose = true → k.disposed = true := by
    intro hpending
    cases hd : k.disposed with
    | true => rfl
    | false =>
      have hpos := h.waits hpending hd
      omega
  rcases ha with ha | ha
  · exact (h.asked ha).elim id hpending
  · exact hpending ha

theorem Inv.sound {s : Bridge} (h : Inv s) : Sound s where
  once := by
    intro c k hk
    rw [(h.kept c k hk).releases]
    split
    · exact Or.inr rfl
    · exact Or.inl rfl
  released := by
    intro c k hk ha hnone
    have hkept := h.kept c k hk
    rw [hnone] at hkept
    rw [hkept.releases, hkept.disposed_of_asked ha]
    rfl
  refused := h.refused
  touched := h.touched

theorem inv_init : Inv init := by
  refine ⟨?_, ?_, ?_, ?_, ?_⟩ <;> simp [init]

/-! ### One Callable changes -/

/-- A call keeps pointing at a Callable with the VM it had. -/
theorem touched_set {calls : List Call} {cs : List Callable} {c : Nat} {k k' : Callable}
    (h : ∀ call ∈ calls, ∀ vm, call.outcome = .entered vm →
      ∃ k : Callable, cs[call.callable]? = some k ∧ k.vm = vm)
    (hk : cs[c]? = some k) (hvm : k'.vm = k.vm) :
    ∀ call ∈ calls, ∀ vm, call.outcome = .entered vm →
      ∃ k : Callable, (cs.set c k')[call.callable]? = some k ∧ k.vm = vm := by
  intro call hcall vm hentered
  obtain ⟨x, hx, rfl⟩ := h call hcall vm hentered
  by_cases hc : call.callable = c
  · rw [hc] at hx ⊢
    obtain rfl : k = x := Option.some.inj (hk.symm.trans hx)
    refine ⟨k', ?_, hvm⟩
    rw [List.getElem?_set_self (lt_of_getElem?_eq_some hk)]
  · refine ⟨x, ?_, rfl⟩
    rw [List.getElem?_set_ne (Ne.symm hc)]
    exact hx

/-- Callable `c` becomes `k'`, and the number of its invocations in progress becomes `n`. -/
theorem Good.change {registered registered' : List Nat} {s t : Bridge} {c n : Nat} {k k' : Callable}
    (h : Good registered s) (hk : s.callables[c]? = some k)
    (hcallables : t.callables = s.callables.set c k') (hvm : k'.vm = k.vm)
    (hcurrent : t.currentVm = s.currentVm) (halive : t.alive = s.alive)
    (hself : t.inProgress c = n) (hother : ∀ d, d ≠ c → t.inProgress d = s.inProgress d)
    (hknown : ∀ i ∈ t.invocations, i.callable = c ∨ ∃ j ∈ s.invocations, j.callable = i.callable)
    (hcalls : t.calls = s.calls) (hkept : Kept n k')
    (hlive : k'.disposed = false → k'.audited = false →
      k.disposed = false ∧ k.audited = false ∧ (c ∈ registered → c ∈ registered'))
    (hrest : ∀ d, d ≠ c → d ∈ registered → d ∈ registered') : Good registered' t where
  kept := by
    intro d x hx
    rw [hcallables] at hx
    rcases getElem?_set_cases hx with ⟨rfl, rfl⟩ | ⟨hne, hx⟩
    · rw [hself]
      exact hkept
    · rw [hother d hne]
      exact h.kept d x hx
  live := by
    intro d x hx hdisposed haudited
    rw [hcurrent, halive]
    rw [hcallables] at hx
    rcases getElem?_set_cases hx with ⟨rfl, rfl⟩ | ⟨hne, hx⟩
    · obtain ⟨hd, ha, hreg⟩ := hlive hdisposed haudited
      obtain ⟨hmem, hown, hup⟩ := h.live d k hk hd ha
      exact ⟨hreg hmem, hvm.trans hown, hup⟩
    · obtain ⟨hmem, hown, hup⟩ := h.live d x hx hdisposed haudited
      exact ⟨hrest d hne hmem, hown, hup⟩
  known := by
    intro i hi
    rw [hcallables, List.length_set]
    rcases hknown i hi with hc | ⟨j, hj, hc⟩
    · rw [hc]
      exact lt_of_getElem?_eq_some hk
    · rw [← hc]
      exact h.known j hj
  refused := by
    rw [hcalls]
    exact h.refused
  touched := by
    rw [hcalls, hcallables]
    exact touched_set h.touched hk hvm

/-- Nothing of the invocations changes. -/
theorem Good.update {registered registered' : List Nat} {s t : Bridge} {c : Nat} {k k' : Callable}
    (h : Good registered s) (hk : s.callables[c]? = some k)
    (hcallables : t.callables = s.callables.set c k') (hvm : k'.vm = k.vm)
    (hcurrent : t.currentVm = s.currentVm) (halive : t.alive = s.alive)
    (hinvocations : t.invocations = s.invocations) (hcalls : t.calls = s.calls)
    (hkept : Kept (s.inProgress c) k')
    (hlive : k'.disposed = false → k'.audited = false →
      k.disposed = false ∧ k.audited = false ∧ (c ∈ registered → c ∈ registered'))
    (hrest : ∀ d, d ≠ c → d ∈ registered → d ∈ registered') : Good registered' t := by
  have hsame : ∀ d, t.inProgress d = s.inProgress d := by
    intro d
    unfold inProgress
    rw [hinvocations]
  refine h.change hk hcallables hvm hcurrent halive (hsame c) (fun d _ => hsame d) ?_ hcalls hkept
    hlive hrest
  intro i hi
  rw [hinvocations] at hi
  exact Or.inr ⟨i, hi, rfl⟩

/-! ### Disposal -/

theorem dispose_cases {s : Bridge} {c : Nat} {k : Callable} (hk : s.callables[c]? = some k) :
    ((k.disposed = true ∨ k.pendingDispose = true) ∧ s.dispose c = s) ∨
    (k.disposed = false ∧ 0 < k.depth ∧
      s.dispose c = { s with callables := s.callables.set c { k with pendingDispose := true } }) ∨
    (k.disposed = false ∧ k.pendingDispose = false ∧ k.depth = 0 ∧ s.dispose c = s.release c k) := by
  unfold dispose
  rw [hk]
  simp only
  cases hd : k.disposed with
  | true => simp
  | false =>
    cases hp : k.pendingDispose with
    | true => simp
    | false =>
      by_cases hdepth : k.depth > 0
      · simp [hdepth]
      · simp [Nat.eq_zero_of_not_pos hdepth]

/-- A handle is released with no invocation in progress. -/
theorem Kept.release {n : Nat} {k : Callable} (h : Kept n k) (hn : n = 0) (hd : k.disposed = false) :
    Kept n { k with disposed := true, releases := k.releases ++ [n] } := by
  have hreleases := h.releases
  rw [hd] at hreleases
  refine ⟨h.depth, ?_, fun _ => hn, ?_, fun _ => Or.inl rfl⟩
  · rw [hreleases, hn]
    rfl
  · intro _ hfalse
    cases hfalse

theorem Kept.deferred {n : Nat} {k : Callable} (h : Kept n k) (hpos : 0 < k.depth) :
    Kept n { k with pendingDispose := true } := by
  refine ⟨h.depth, h.releases, h.idle, ?_, fun _ => Or.inr rfl⟩
  intro _ _
  rw [← h.depth]
  exact hpos

theorem Inv.release {s : Bridge} {c : Nat} {k : Callable} (h : Inv s) (hk : s.callables[c]? = some k)
    (hd : k.disposed = false) (hdepth : k.depth = 0) : Inv (s.release c k) := by
  have hkept := h.kept c k hk
  have hnone : s.inProgress c = 0 := by rw [← hkept.depth, hdepth]
  refine h.update hk rfl rfl rfl rfl rfl rfl (hkept.release hnone hd) ?_ ?_
  · intro hfalse
    cases hfalse
  · intro d hne hmem
    exact (OrderedMap.mem_keys_delete _ _ _).mpr ⟨hne, hmem⟩

theorem Inv.dispose {s : Bridge} (h : Inv s) (c : Nat) : Inv (s.dispose c) := by
  cases hk : s.callables[c]? with
  | none =>
    have hsame : s.dispose c = s := by
      unfold Bridge.dispose
      rw [hk]
    rw [hsame]
    exact h
  | some k =>
    rcases dispose_cases hk with ⟨_, heq⟩ | ⟨hd, hpos, heq⟩ | ⟨hd, _, hzero, heq⟩
    · rw [heq]
      exact h
    · rw [heq]
      refine h.update hk rfl rfl rfl rfl rfl rfl ((h.kept c k hk).deferred hpos) ?_ ?_
      · intro _ ha
        exact ⟨hd, ha, fun hmem => hmem⟩
      · intro d _ hmem
        exact hmem
    · rw [heq]
      exact h.release hk hd hzero

/-! ### The audit -/

/-- What the audit makes of a Callable. -/
theorem auditLeak_eq {s : Bridge} {leak : Nat × String} {k : Callable}
    (hk : s.callables[leak.1]? = some k) (h : Kept (s.inProgress leak.1) k) :
    ∃ k', (s.auditLeak leak).callables = s.callables.set leak.1 k' ∧
      Kept (s.inProgress leak.1) k' ∧ k'.vm = k.vm ∧ k'.audited = true := by
  let s' : Bridge := { s with
    leaks := s.leaks ++ [leak.2]
    callables := s.callables.set leak.1 { k with audited := true } }
  have hmodify : s.auditLeak leak = s'.dispose leak.1 := by
    unfold auditLeak
    rw [modify_of_getElem? _ hk]
  have hk' : s'.callables[leak.1]? = some { k with audited := true } :=
    List.getElem?_set_self (lt_of_getElem?_eq_some hk)
  rw [hmodify]
  rcases dispose_cases hk' with ⟨hasked, heq⟩ | ⟨hd, hpos, heq⟩ | ⟨hd, _, hzero, heq⟩
  · rw [heq]
    exact ⟨{ k with audited := true }, rfl, ⟨h.depth, h.releases, h.idle, h.waits, fun _ => hasked⟩,
      rfl, rfl⟩
  · rw [heq]
    refine ⟨{ k with audited := true, pendingDispose := true }, ?_, ?_, rfl, rfl⟩
    · exact List.set_set _
    · have hkept := h.deferred hpos
      exact ⟨hkept.depth, hkept.releases, hkept.idle, hkept.waits, fun _ => Or.inr rfl⟩
  · rw [heq]
    have hnone : s.inProgress leak.1 = 0 := by
      rw [← h.depth]
      exact hzero
    let k' : Callable :=
      { k with disposed := true, releases := k.releases ++ [s.inProgress leak.1], audited := true }
    refine ⟨k', ?_, ?_, rfl, rfl⟩
    · exact List.set_set _
    · have hkept := h.release hnone hd
      exact ⟨hkept.depth, hkept.releases, hkept.idle, hkept.waits, fun _ => Or.inl rfl⟩

/-- The fields that `dispose` does not touch. -/
theorem dispose_frame (s : Bridge) (c : Nat) :
    (s.dispose c).currentVm = s.currentVm ∧ (s.dispose c).alive = s.alive ∧
      (s.dispose c).invocations = s.invocations ∧ (s.dispose c).calls = s.calls := by
  unfold dispose
  split
  · exact ⟨rfl, rfl, rfl, rfl⟩
  · split
    · exact ⟨rfl, rfl, rfl, rfl⟩
    · split <;> exact ⟨rfl, rfl, rfl, rfl⟩

theorem auditLeak_of_none {s : Bridge} {leak : Nat × String} (hk : s.callables[leak.1]? = none) :
    s.auditLeak leak = { s with leaks := s.leaks ++ [leak.2] } := by
  have hsame : s.callables.modify leak.1 (fun k => { k with audited := true }) = s.callables :=
    List.modify_eq_self (List.getElem?_eq_none_iff.mp hk)
  unfold auditLeak dispose
  rw [hsame]
  simp only [hk]

theorem Good.auditLeak {rest : List Nat} {s : Bridge} {leak : Nat × String}
    (h : Good (leak.1 :: rest) s) : Good rest (s.auditLeak leak) := by
  cases hk : s.callables[leak.1]? with
  | none =>
    rw [auditLeak_of_none hk]
    refine ⟨h.kept, ?_, h.known, h.refused, h.touched⟩
    intro d x hx hd ha
    obtain ⟨hmem, hown⟩ := h.live d x hx hd ha
    rcases List.mem_cons.mp hmem with rfl | hmem
    · rw [hk] at hx
      cases hx
    · exact ⟨hmem, hown⟩
  | some k =>
    obtain ⟨k', hcallables, hkept, hvm, haudited⟩ := auditLeak_eq hk (h.kept _ k hk)
    obtain ⟨hcurrent, halive, hinvocations, hcalls⟩ := dispose_frame
      { s with
        leaks := s.leaks ++ [leak.2]
        callables := s.callables.modify leak.1 fun k => { k with audited := true } } leak.1
    refine h.update hk hcallables hvm hcurrent halive hinvocations hcalls hkept ?_ ?_
    · intro _ hfalse
      rw [haudited] at hfalse
      cases hfalse
    · intro d hne hmem
      exact (List.mem_cons.mp hmem).resolve_left hne

/-- After the loop every Callable is disposed or has been visited. -/
theorem Good.auditLeaks {s : Bridge} (leaks : List (Nat × String)) (h : Good (leaks.map Prod.fst) s) :
    Good [] (leaks.foldl Bridge.auditLeak s) := by
  induction leaks generalizing s with
  | nil => exact h
  | cons leak leaks ih =>
    rw [List.foldl_cons]
    apply ih
    exact Good.auditLeak h

theorem Good.of_none {registered : List Nat} {s t : Bridge} (h : Good [] s)
    (hcallables : t.callables = s.callables) (hinvocations : t.invocations = s.invocations)
    (hcalls : t.calls = s.calls) : Good registered t := by
  have hsame : ∀ d, t.inProgress d = s.inProgress d := by
    intro d
    unfold inProgress
    rw [hinvocations]
  refine ⟨?_, ?_, ?_, ?_, ?_⟩
  · intro c k hk
    rw [hcallables] at hk
    rw [hsame]
    exact h.kept c k hk
  · intro c k hk hd ha
    rw [hcallables] at hk
    cases (h.live c k hk hd ha).1
  · rw [hcallables, hinvocations]
    exact h.known
  · rw [hcalls]
    exact h.refused
  · rw [hcalls, hcallables]
    exact h.touched

theorem Inv.audited {s : Bridge} (h : Inv s) : Good [] s.runLifecycleAfter := by
  apply Good.auditLeaks
  exact ⟨h.kept, h.live, h.known, h.refused, h.touched⟩

theorem Inv.finalizeRun {s : Bridge} (h : Inv s) : Inv s.finalizeRun :=
  h.audited.of_none rfl rfl rfl

/-! ### Invocations -/

theorem countP_isOpen_snoc (is : List Invocation) (c d : Nat) :
    (is ++ [(⟨c, .calling⟩ : Invocation)]).countP (Invocation.isOpen d) =
      is.countP (Invocation.isOpen d) + if d = c then 1 else 0 := by
  rw [List.countP_append, List.countP_singleton]
  by_cases hd : d = c
  · simp [Invocation.isOpen, hd]
  · simp [Invocation.isOpen, hd, Ne.symm hd]

/-- An invocation of `c` that was open becomes `stage`. -/
theorem countP_isOpen_set {is : List Invocation} {i c : Nat} {stage : Stage} (stage' : Stage)
    (hi : is[i]? = some ⟨c, stage⟩) (hopen : stage ≠ .finished) (d : Nat) :
    (is.set i ⟨c, stage'⟩).countP (Invocation.isOpen d) + (if d = c then 1 else 0) =
      is.countP (Invocation.isOpen d) + if d = c ∧ stage' ≠ .finished then 1 else 0 := by
  have hcount := countP_set_add (y := ⟨c, stage'⟩) (Invocation.isOpen d) hi
  by_cases hd : d = c
  · subst hd
    simpa [Invocation.isOpen, hopen] using hcount
  · have hne : ¬ c = d := fun h => hd h.symm
    simpa [Invocation.isOpen, hd, hne] using hcount

theorem Inv.reject {s : Bridge} {c : Nat} {k : Callable} {outcome : Outcome} (h : Inv s)
    (hrefused : k.audited = true → outcome = .callableDisposed) (hentered : ∀ vm, outcome ≠ .entered vm) :
    Inv (s.reject c k outcome) := by
  refine ⟨h.kept, h.live, h.known, ?_, ?_⟩
  · intro call hcall
    rcases List.mem_append.mp hcall with hcall | hcall
    · exact h.refused call hcall
    · rw [List.mem_singleton.mp hcall]
      exact hrefused
  · intro call hcall vm hvm
    rcases List.mem_append.mp hcall with hcall | hcall
    · exact h.touched call hcall vm hvm
    · rw [List.mem_singleton.mp hcall] at hvm
      exact absurd hvm (hentered vm)

/-- `invoke` of a Callable whose handle is not released. -/
theorem Inv.enter {s t : Bridge} {c : Nat} {k : Callable} (h : Inv s) (hk : s.callables[c]? = some k)
    (hd : k.disposed = false) (ha : k.audited = false)
    (ht : t = { s with
      callables := s.callables.set c { k with depth := k.depth + 1 }
      invocations := s.invocations ++ [⟨c, .calling⟩]
      calls := s.calls ++ [⟨c, k.audited, .entered s.currentVm⟩] }) : Inv t := by
  subst ht
  have hkept := h.kept c k hk
  have hraised : Kept (s.inProgress c + 1) { k with depth := k.depth + 1 } := by
    refine ⟨?_, hkept.releases, ?_, ?_, hkept.asked⟩
    · rw [← hkept.depth]
    · intro hdisposed
      rw [hd] at hdisposed
      cases hdisposed
    · intro _ _
      omega
  have hgood : Good s.liveCallables.keys { s with
      callables := s.callables.set c { k with depth := k.depth + 1 }
      invocations := s.invocations ++ [⟨c, .calling⟩] } := by
    refine h.change hk rfl rfl rfl rfl ?_ ?_ ?_ rfl hraised (fun _ _ => ⟨hd, ha, fun hmem => hmem⟩)
      (fun d _ hmem => hmem)
    · unfold inProgress
      rw [countP_isOpen_snoc, if_pos rfl]
    · intro d hne
      unfold inProgress
      rw [countP_isOpen_snoc, if_neg hne]
      rfl
    · intro i hi
      rcases List.mem_append.mp hi with hi | hi
      · exact Or.inr ⟨i, hi, rfl⟩
      · rw [List.mem_singleton.mp hi]
        exact Or.inl rfl
  refine ⟨hgood.kept, hgood.live, hgood.known, ?_, ?_⟩
  · intro call hcall
    rcases List.mem_append.mp hcall with hcall | hcall
    · exact h.refused call hcall
    · rw [List.mem_singleton.mp hcall, ha]
      intro hfalse
      cases hfalse
  · intro call hcall vm hvm
    rcases List.mem_append.mp hcall with hcall | hcall
    · exact hgood.touched call hcall vm hvm
    · rw [List.mem_singleton.mp hcall] at hvm ⊢
      refine ⟨{ k with depth := k.depth + 1 }, List.getElem?_set_self (lt_of_getElem?_eq_some hk), ?_⟩
      rw [← Outcome.entered.inj hvm]
      exact (h.live c k hk hd ha).2.1

theorem Inv.invoke {s : Bridge} (h : Inv s) (c : Nat) (marshals : Bool)
    (hok : s.NoLateInvoke (.invoke c marshals)) : Inv (s.invoke c marshals) := by
  unfold Bridge.invoke
  cases hk : s.callables[c]? with
  | none => exact h
  | some k =>
    have hkept := h.kept c k hk
    -- a Callable that the audit has visited and that is idle has been disposed
    have hlive : k.disposed = false → k.audited = false := by
      intro hd
      cases ha : k.audited with
      | false => rfl
      | true =>
        rw [hok k hk ha] at hkept
        rw [hkept.disposed_of_asked (Or.inl ha)] at hd
        cases hd
    simp only
    split
    · exact h.reject (fun _ => rfl) (fun vm => by simp)
    · rename_i hd
      have hd := Bool.eq_false_iff.mpr hd
      have ha := hlive hd
      split
      · exact h.enter hk hd ha rfl
      · apply h.reject
        · intro hfalse
          rw [ha] at hfalse
          cases hfalse
        · intro vm
          simp

/-- The depth follows the invocation that ends, and the last one releases a deferred handle. -/
theorem Inv.invokeFinally {s : Bridge} {i c : Nat} {stage : Stage} (h : Inv s)
    (hi : s.invocations[i]? = some ⟨c, stage⟩) (hopen : stage ≠ .finished) :
    Inv (s.invokeFinally i c) := by
  have hlt : c < s.callables.length := h.known _ (List.mem_of_getElem? hi)
  obtain ⟨k, hk⟩ : ∃ k, s.callables[c]? = some k := ⟨_, List.getElem?_eq_getElem hlt⟩
  have hkept := h.kept c k hk
  let t : Bridge := { s with
    invocations := s.invocations.set i ⟨c, .finished⟩
    callables := s.callables.set c { k with depth := k.depth - 1 } }
  have hcount := countP_isOpen_set .finished hi hopen
  have hself : t.inProgress c + 1 = s.inProgress c := by
    simpa [inProgress] using hcount c
  have hother : ∀ d, d ≠ c → t.inProgress d = s.inProgress d := by
    intro d hne
    simpa [inProgress, hne] using hcount d
  have hd : k.disposed = false := by
    cases hd : k.disposed with
    | false => rfl
    | true =>
      have hzero := hkept.idle hd
      omega
  have hknown : ∀ j ∈ t.invocations, j.callable = c ∨ ∃ x ∈ s.invocations, x.callable = j.callable := by
    intro j hj
    rcases List.mem_or_eq_of_mem_set hj with hj | rfl
    · exact Or.inr ⟨j, hj, rfl⟩
    · exact Or.inl rfl
  have hdepth : k.depth - 1 = t.inProgress c := by
    rw [hkept.depth]
    omega
  have hfinal : s.invokeFinally i c =
      if k.depth - 1 = 0 && k.pendingDispose && !k.disposed then
        t.release c { k with depth := k.depth - 1 } else t := by
    unfold Bridge.invokeFinally
    simp only [hk]
    rfl
  by_cases hlast : k.depth - 1 = 0 ∧ k.pendingDispose = true
  · rw [hfinal, if_pos (by simp [hlast, hd])]
    have hzero : t.inProgress c = 0 := by omega
    let k' : Callable := { k with
      disposed := true
      depth := k.depth - 1
      releases := k.releases ++ [t.inProgress c] }
    have hset : (t.release c { k with depth := k.depth - 1 }).callables = s.callables.set c k' := List.set_set _
    refine h.change hk hset rfl rfl rfl rfl hother hknown rfl ?_ ?_ ?_
    · refine ⟨hdepth, ?_, fun _ => hzero, ?_, fun _ => Or.inl rfl⟩
      · have hreleases := hkept.releases
        rw [hd] at hreleases
        change k.releases ++ [t.inProgress c] = [0]
        rw [hreleases, hzero]
        rfl
      · intro _ hfalse
        cases hfalse
    · intro hfalse
      cases hfalse
    · intro d hne hmem
      exact (OrderedMap.mem_keys_delete _ _ _).mpr ⟨hne, hmem⟩
  · have hmore : ¬ (k.depth - 1 = 0 && k.pendingDispose && !k.disposed) = true := by
      intro htrue
      apply hlast
      simp only [Bool.and_eq_true, decide_eq_true_eq] at htrue
      exact htrue.1
    rw [hfinal, if_neg hmore]
    refine h.change hk rfl rfl rfl rfl rfl hother hknown rfl ?_ ?_ (fun d _ hmem => hmem)
    · refine ⟨hdepth, hkept.releases, ?_, ?_, hkept.asked⟩
      · intro hfalse
        rw [hd] at hfalse
        cases hfalse
      · intro hpending _
        have hpos : k.depth - 1 ≠ 0 := fun hzero => hlast ⟨hzero, hpending⟩
        omega
    · intro _ ha
      exact ⟨hd, ha, fun hmem => hmem⟩

theorem Inv.awaits {s : Bridge} {i c : Nat} (h : Inv s) (hi : s.invocations[i]? = some ⟨c, .calling⟩) :
    Inv { s with invocations := s.invocations.set i ⟨c, .awaiting⟩ } := by
  have hcount := countP_isOpen_set .awaiting hi (by simp)
  have hsame : ∀ d, (s.invocations.set i ⟨c, .awaiting⟩).countP (Invocation.isOpen d) = s.inProgress d := by
    intro d
    have hd := hcount d
    simp only [ne_eq, reduceCtorEq, not_false_eq_true, and_true] at hd
    exact Nat.add_right_cancel hd
  refine ⟨?_, h.live, ?_, h.refused, h.touched⟩
  · intro d k hk
    have hkept := h.kept d k hk
    rw [← hsame d] at hkept
    exact hkept
  · intro j hj
    rcases List.mem_or_eq_of_mem_set hj with hj | rfl
    · exact h.known j hj
    · exact h.known ⟨c, .calling⟩ (List.mem_of_getElem? hi)

theorem Inv.makeCallable {s : Bridge} (h : Inv s) (halive : s.alive = true) (descriptorName : String) :
    Inv (s.makeCallable descriptorName) := by
  have hfresh : s.inProgress s.callables.length = 0 := by
    refine List.countP_eq_zero.mpr ?_
    intro i hi
    have hlt := h.known i hi
    have hne : i.callable ≠ s.callables.length := by omega
    simp [Invocation.isOpen, hne]
  have hkeys : ∀ c, c ∈ s.liveCallables.keys ∨ c = s.callables.length →
      c ∈ (s.makeCallable descriptorName).liveCallables.keys := by
    intro c hc
    exact (OrderedMap.mem_keys_set _ _ _ _).mpr hc.symm
  refine ⟨?_, ?_, ?_, h.refused, ?_⟩
  · intro c k hk
    rcases getElem?_snoc_cases hk with hk | ⟨rfl, rfl⟩
    · exact h.kept c k hk
    · refine ⟨hfresh.symm, rfl, ?_, ?_, ?_⟩ <;> simp
  · intro c k hk hd ha
    rcases getElem?_snoc_cases hk with hk | ⟨rfl, rfl⟩
    · obtain ⟨hmem, hown⟩ := h.live c k hk hd ha
      exact ⟨hkeys c (Or.inl hmem), hown⟩
    · exact ⟨hkeys _ (Or.inr rfl), rfl, halive⟩
  · intro i hi
    have hlt := h.known i hi
    simp only [Bridge.makeCallable, List.length_append, List.length_singleton]
    omega
  · intro call hcall vm hvm
    obtain ⟨k, hk, heq⟩ := h.touched call hcall vm hvm
    exact ⟨k, getElem?_snoc_of_some hk, heq⟩

/-- The VM is swapped only after the audit, which leaves no Callable of it unvisited. -/
theorem Inv.rebind {s : Bridge} (h : Inv s) (hdead : s.alive = false) : Inv s.rebind := by
  refine ⟨h.kept, ?_, h.known, h.refused, h.touched⟩
  intro c k hk hd ha
  have halive := (h.live c k hk hd ha).2.2
  rw [hdead] at halive
  cases halive

/-! ## Steps and runs -/

theorem afterReturn_cases {s t : Bridge} {i : Nat} {awaits : Bool} (h : s.afterReturn i awaits = some t) :
    ∃ c, s.invocations[i]? = some ⟨c, .calling⟩ ∧
      (t = { s with invocations := s.invocations.set i ⟨c, .awaiting⟩ } ∨ t = s.invokeFinally i c) := by
  unfold afterReturn at h
  split at h
  · rename_i c hi
    refine ⟨c, hi, ?_⟩
    split at h
    · exact Or.inl (Option.some.inj h).symm
    · exact Or.inr (Option.some.inj h).symm
  · cases h

theorem afterSettle_cases {s t : Bridge} {i : Nat} (h : s.afterSettle i = some t) :
    ∃ c, s.invocations[i]? = some ⟨c, .awaiting⟩ ∧ t = s.invokeFinally i c := by
  unfold afterSettle at h
  split at h
  · rename_i c hi
    exact ⟨c, hi, (Option.some.inj h).symm⟩
  · cases h

theorem step_invoke {s t : Bridge} {c : Nat} {marshals : Bool}
    (h : step s (.invoke c marshals) = some t) : t = s.invoke c marshals := by
  simp only [step] at h
  split at h
  · exact (Option.some.inj h).symm
  · cases h

theorem step_inv {s t : Bridge} {a : CallableAction} (h : Inv s) (hok : s.NoLateInvoke a)
    (hs : step s a = some t) : Inv t := by
  cases a with
  | handleRun =>
    simp only [step] at hs
    split at hs
    · cases hs
    · cases hs
      exact ⟨h.kept, h.live, h.known, h.refused, h.touched⟩
  | makeCallable descriptorName =>
    simp only [step] at hs
    split at hs
    · rename_i halive
      cases hs
      exact h.makeCallable halive descriptorName
    · cases hs
  | invoke c marshals =>
    rw [step_invoke hs]
    exact h.invoke c marshals hok
  | returned i awaits =>
    obtain ⟨c, hi, rfl | rfl⟩ := afterReturn_cases hs
    · exact h.awaits hi
    · exact h.invokeFinally hi (by simp)
  | settled i =>
    obtain ⟨c, hi, rfl⟩ := afterSettle_cases hs
    exact h.invokeFinally hi (by simp)
  | dispose c =>
    simp only [step] at hs
    split at hs
    · cases hs
      exact h.dispose c
    · cases hs
  | finalizeRun =>
    simp only [step] at hs
    split at hs
    · cases hs
      exact h.finalizeRun
    · cases hs
  | rebind =>
    simp only [step] at hs
    split at hs
    · cases hs
    · rename_i hdead
      cases hs
      exact h.rebind (Bool.eq_false_iff.mpr hdead)

/-- An invocation that the audit has left behind lets the next `invoke` in. -/
theorem noLateInvoke_of_sound {s t : Bridge} {a : CallableAction} (h : Inv s) (hs : step s a = some t)
    (ht : t.Sound) : s.NoLateInvoke a := by
  cases a with
  | invoke c marshals =>
    intro k hk ha
    have hkept := h.kept c k hk
    cases hd : k.disposed with
    | true => exact hkept.idle hd
    | false =>
      rw [step_invoke hs] at ht
      have hcalls : ∃ outcome, outcome ≠ .callableDisposed ∧
          (⟨c, k.audited, outcome⟩ : Call) ∈ (s.invoke c marshals).calls := by
        cases marshals with
        | true => exact ⟨.entered s.currentVm, by simp, by simp [invoke, hk, hd]⟩
        | false => exact ⟨.unmarshallable, by simp, by simp [invoke, hk, hd, reject]⟩
      obtain ⟨outcome, hne, hmem⟩ := hcalls
      exact absurd (ht.refused _ hmem ha) hne
  | handleRun => trivial
  | makeCallable descriptorName => trivial
  | returned i awaits => trivial
  | settled i => trivial
  | dispose c => trivial
  | finalizeRun => trivial
  | rebind => trivial

/-- In every run of the worker, over every interleaving of Callables with run ends and restores. -/
theorem sound_iff_noLateInvoke (as : List CallableAction) (t : Bridge) (h : exec step init as = some t) :
    Always step Sound init as ↔ Along step NoLateInvoke init as :=
  always_iff_along (fun _ hs => hs.sound) (fun _ _ _ hs hok hstep => step_inv hs hok hstep)
    (fun _ _ _ hs hstep ht => noLateInvoke_of_sound hs hstep ht) inv_init h

/-- A timer callback disposes its own Callable; an interval whose callback has ended is left to the
audit and invoked once more in the next run. -/
def leakedInterval : List CallableAction :=
  [.handleRun, .makeCallable "setTimeout", .makeCallable "setInterval", .invoke 0 true, .dispose 0,
    .returned 0 true, .invoke 1 true, .invoke 1 true, .returned 2 false, .returned 1 true, .settled 0,
    .settled 1, .finalizeRun, .rebind, .handleRun, .invoke 1 true]

theorem sound_iff_noLateInvoke_leakedInterval :
    Along step NoLateInvoke init leakedInterval ∧ Always step Sound init leakedInterval := by
  have hok : Along step NoLateInvoke init leakedInterval := by decide
  exact ⟨hok, (sound_iff_noLateInvoke leakedInterval _ rfl).mpr hok⟩

/-- The callback of an interval still awaits when the run ends; the interval is invoked once more
after the restore. -/
def awaitedInterval : List CallableAction :=
  [.handleRun, .makeCallable "setInterval", .invoke 0 true, .returned 0 true, .finalizeRun, .rebind,
    .handleRun, .invoke 0 true]

/-- The call is let in, on the restored VM and with the handle of the VM before. -/
theorem awaitedInterval_enters_restored_vm :
    ∃ t, exec step init awaitedInterval = some t ∧ ⟨0, true, .entered 1⟩ ∈ t.calls ∧
      t.callables.map (·.vm) = [0] ∧ ¬ t.Sound := by
  refine ⟨_, rfl, by decide, by decide, ?_⟩
  intro hsound
  have hrefused := hsound.refused ⟨0, true, .entered 1⟩ (by decide) rfl
  cases hrefused

end Bridge

end WorkflowEngine.Sandbox.CallableHandles
