import WorkflowEngine.Lib.ListIndex
import WorkflowEngine.Lib.Transition
import WorkflowEngine.Runtime.Invocation

/-!
# The executor of one sandbox

Model of `createExecutor` and `createRunQueue` for the invocations that resolve
to one sandbox: the run queue, the `activeMeta` slot, the `emitTail` chain of
records and `runInvocationWith` with its suspension points. A turn is known by
its position in the queue, a record by its position in the chain.

The sandbox delivers an event only between the call of `sb.run` and its
settlement. Invocation ids are UUIDs, so a new one differs from those in use.
Log lines have no effect on the executor; the failed records of
`executor.event-store-record-failed` are kept in `recordErrors`. `emitted` keeps
the events the sandbox delivered, each with the turn whose run emitted it.
-/

namespace WorkflowEngine.Runtime

open Lib Sandbox
set_option autoImplicit false

universe u
variable {V : Type u}

/-- The arguments of `invoke` that reach the run. -/
structure InvokeArgs (V : Type u) where
  owner : String
  repo : String
  workflow : String
  workflowSha : String
  triggerName : String
  triggerKind : String
  input : V
  dispatch : Option V

/-- `extras.queue`. -/
structure QueueExtras where
  repo : String
  invocationId : String
  triggerKind : String
  triggerName : String

/-- A call `sb.run(name, input, extras)`. -/
structure RunCall (V : Type u) where
  name : String
  input : V
  queue : QueueExtras

/-- How `sb.run` settled: the two forms of a `RunResult`, or a rejection. -/
inductive RunOutcome (V : Type u) where
  | ok (result : V)
  | failed (message stack : String)
  | rejected (message : String) (stack : Option String)

inductive Executor.InvokeResult (V : Type u) where
  | ok (output : V)
  | error (message : String) (stack : Option String)

def RunOutcome.toInvokeResult : RunOutcome V → Executor.InvokeResult V
  | .ok result => .ok result
  | .failed message stack => .error message (if stack = "" then none else some stack)
  | .rejected message stack => .error message (stack.filter (· ≠ ""))

/-- A turn of the run queue; `draining` holds the length of the chain at `await state.emitTail`. -/
inductive TurnPhase where
  | queued
  | running
  | draining (tail : Nat)
  | settled
  deriving DecidableEq

structure Turn (V : Type u) where
  args : InvokeArgs V
  info : Option (InvocationMeta V)
  phase : TurnPhase

/-- A call of `eventStore.record`. -/
structure RecordCall (V : Type u) where
  event : InvocationEvent V
  settled : Bool

structure Executor (V : Type u) where
  turns : List (Turn V)
  activeMeta : Option (InvocationMeta V)
  jobs : List (InvocationEvent V)
  records : List (RecordCall V)
  calls : List (RunCall V)
  results : List (Nat × Executor.InvokeResult V)
  recordErrors : List (InvocationEvent V)
  emitted : List (Nat × SandboxEvent V)

inductive ExecutorAction (V : Type u) where
  | invoke (args : InvokeArgs V)
  | startTurn (k : Nat) (id : String)
  | event (k : Nat) (event : SandboxEvent V)
  | runSettles (k : Nat) (outcome : RunOutcome V)
  | startRecord
  | recordSettles (ok : Bool)
  | finishTurn (k : Nat)

def InvokeArgs.invocationMeta (args : InvokeArgs V) (defaultDispatch : V) (id : String) :
    InvocationMeta V where
  id := id
  owner := args.owner
  repo := args.repo
  workflow := args.workflow
  workflowSha := args.workflowSha
  dispatch := args.dispatch.getD defaultDispatch

def InvokeArgs.runCall (args : InvokeArgs V) (id : String) : RunCall V where
  name := args.triggerName
  input := args.input
  queue := ⟨args.repo, id, args.triggerKind, args.triggerName⟩

namespace Executor

def init : Executor V := ⟨[], none, [], [], [], [], [], []⟩

/-- `state.runQueue.run(fn)`. -/
def invoke (s : Executor V) (args : InvokeArgs V) : Executor V :=
  { s with turns := s.turns ++ [⟨args, none, .queued⟩] }

def turnSettled (s : Executor V) (k : Nat) : Bool :=
  (s.turns[k]?.map fun t => decide (t.phase = .settled)).getD false

/-- `tail.then(fn)`: the previous turn has settled, with a value or with an error. -/
def myTurn (s : Executor V) : Nat → Bool
  | 0 => true
  | k + 1 => s.turnSettled k

def freshId (s : Executor V) (id : String) : Bool :=
  s.turns.all fun t => t.info.all fun info => info.id ≠ id

/-- `runInvocationWith` up to `await sb.run(..)`. -/
def startTurn (defaultDispatch : V) (s : Executor V) (k : Nat) (id : String) :
    Option (Executor V) :=
  match s.turns[k]? with
  | none => none
  | some t =>
    if t.phase = .queued ∧ s.myTurn k = true ∧ s.freshId id = true then
      some { s with
        turns := s.turns.set k { t with
          info := some (t.args.invocationMeta defaultDispatch id), phase := .running }
        activeMeta := some (t.args.invocationMeta defaultDispatch id)
        calls := s.calls ++ [t.args.runCall id] }
    else none

/-- The `sb.onEvent` callback on an event of the run of turn `k`. -/
def onEvent (s : Executor V) (k : Nat) (event : SandboxEvent V) : Option (Executor V) :=
  match s.turns[k]? with
  | none => none
  | some t =>
    if t.phase = .running then
      some { s with
        emitted := s.emitted ++ [(k, event)]
        jobs := s.jobs ++ (s.activeMeta.map fun info => widen info event).toList }
    else none

/-- The settlement of `sb.run`, the `finally` block and the read of `state.emitTail`. -/
def runSettles (s : Executor V) (k : Nat) (outcome : RunOutcome V) : Option (Executor V) :=
  match s.turns[k]? with
  | none => none
  | some t =>
    if t.phase = .running then
      some { s with
        turns := s.turns.set k { t with phase := .draining s.jobs.length }
        activeMeta := none
        results := s.results ++ [(k, outcome.toInvokeResult)] }
    else none

/-- The record at position `n` of the chain has settled. -/
def recordSettled (s : Executor V) (n : Nat) : Bool := (s.records[n]?.map (·.settled)).getD false

/-- The chain up to length `n` has settled: its last record has. -/
def tailSettled (s : Executor V) : Nat → Bool
  | 0 => true
  | n + 1 => s.recordSettled n

/-- The next link of the chain calls `eventStore.record`. -/
def startRecord (s : Executor V) : Option (Executor V) :=
  match s.jobs[s.records.length]? with
  | none => none
  | some event =>
    if s.tailSettled s.records.length = true then
      some { s with records := s.records ++ [⟨event, false⟩] }
    else none

/-- The last record settles; a rejection is logged. -/
def recordSettles (s : Executor V) (ok : Bool) : Option (Executor V) :=
  match s.records.getLast? with
  | none => none
  | some call =>
    if call.settled = false then
      some { s with
        records := s.records.dropLast ++ [{ call with settled := true }]
        recordErrors := s.recordErrors ++ if ok then [] else [call.event] }
    else none

/-- The end of `runInvocationWith`: the awaited tail has settled and `invoke` resolves. -/
def finishTurn (s : Executor V) (k : Nat) : Option (Executor V) :=
  match s.turns[k]? with
  | none => none
  | some t =>
    match t.phase with
    | .draining tail =>
      if s.tailSettled tail = true then
        some { s with turns := s.turns.set k { t with phase := .settled } }
      else none
    | _ => none

def step (defaultDispatch : V) (s : Executor V) : ExecutorAction V → Option (Executor V)
  | .invoke args => some (s.invoke args)
  | .startTurn k id => s.startTurn defaultDispatch k id
  | .event k event => s.onEvent k event
  | .runSettles k outcome => s.runSettles k outcome
  | .startRecord => s.startRecord
  | .recordSettles ok => s.recordSettles ok
  | .finishTurn k => s.finishTurn k

/-! ## The invariant -/

/-- The first `calls.length` turns have started and all of them but the last have settled; the
chain holds the emitted events under the labels of their turns; its first `records.length` links
have started and all of them but the last have settled. -/
structure Inv (s : Executor V) : Prop where
  started_le : s.calls.length ≤ s.turns.length
  queued_iff : ∀ (k : Nat) (t : Turn V), s.turns[k]? = some t → (t.phase = .queued ↔ s.calls.length ≤ k)
  serial : ∀ (k : Nat) (t : Turn V), s.turns[k]? = some t → k + 1 < s.calls.length → t.phase = .settled
  labelled : ∀ (k : Nat) (t : Turn V), s.turns[k]? = some t → t.phase ≠ .queued →
    ∃ info, t.info = some info ∧ s.calls[k]? = some (t.args.runCall info.id)
  unlabelled : ∀ (k : Nat) (t : Turn V), s.turns[k]? = some t → t.phase = .queued → t.info = none
  fresh : ∀ (j k : Nat) (t u : Turn V) info info', s.turns[j]? = some t → s.turns[k]? = some u →
    t.info = some info → u.info = some info' → info.id = info'.id → j = k
  active : ∀ (k : Nat) (t : Turn V), s.turns[k]? = some t → t.phase = .running → s.activeMeta = t.info
  jobs_length : s.jobs.length = s.emitted.length
  jobs : ∀ (i k : Nat) event, s.emitted[i]? = some (k, event) → ∃ t info, s.turns[k]? = some t ∧
    t.phase ≠ .queued ∧ t.info = some info ∧ s.jobs[i]? = some (widen info event)
  tail : ∀ (k : Nat) (t : Turn V) n, s.turns[k]? = some t → t.phase = .draining n →
    ∀ (i : Nat) event, s.emitted[i]? = some (k, event) → i < n
  records : ∀ (i : Nat) (call : RecordCall V), s.records[i]? = some call → s.jobs[i]? = some call.event
  oneAtATime : ∀ (i : Nat) (call : RecordCall V), s.records[i]? = some call → i + 1 < s.records.length →
    call.settled = true
  drained : ∀ (k : Nat) (t : Turn V), s.turns[k]? = some t → t.phase = .settled →
    ∀ (i : Nat) event, s.emitted[i]? = some (k, event) → s.recordSettled i = true

theorem inv_init : Inv (init : Executor V) := by
  constructor <;> simp [init]

theorem recordSettled_iff (s : Executor V) (n : Nat) :
    s.recordSettled n = true ↔ ∃ call, s.records[n]? = some call ∧ call.settled = true := by
  unfold recordSettled
  cases s.records[n]? <;> simp

theorem turnSettled_iff (s : Executor V) (k : Nat) :
    s.turnSettled k = true ↔ ∃ t, s.turns[k]? = some t ∧ t.phase = .settled := by
  unfold turnSettled
  cases s.turns[k]? <;> simp

/-! ## The turns -/

/-- A turn that is under way is the last one that started. -/
theorem Inv.current {s : Executor V} (h : Inv s) {k : Nat} {t : Turn V}
    (ht : s.turns[k]? = some t) (hq : t.phase ≠ .queued) (hd : t.phase ≠ .settled) :
    k + 1 = s.calls.length := by
  have hlt : ¬ s.calls.length ≤ k := fun hle => hq ((h.queued_iff k t ht).mpr hle)
  have hlast : ¬ k + 1 < s.calls.length := fun hlt => hd (h.serial k t ht hlt)
  omega

theorem inv_invoke {s : Executor V} (h : Inv s) (args : InvokeArgs V) : Inv (s.invoke args) := by
  have hnew : ∀ (k : Nat) (t : Turn V), (s.turns ++ [⟨args, none, .queued⟩])[k]? = some t →
      t.phase ≠ .queued → s.turns[k]? = some t := by
    intro k t ht hq
    rcases getElem?_snoc_cases ht with ht | ⟨-, rfl⟩
    · exact ht
    · exact absurd rfl hq
  refine ⟨?_, ?_, ?_, ?_, ?_, ?_, ?_, h.jobs_length, ?_, ?_, h.records, h.oneAtATime, ?_⟩
  · have := h.started_le
    simp only [invoke, List.length_append, List.length_singleton]
    omega
  · intro k t ht
    rcases getElem?_snoc_cases ht with ht | ⟨rfl, rfl⟩
    · exact h.queued_iff k t ht
    · exact ⟨fun _ => h.started_le, fun _ => rfl⟩
  · intro k t ht hk
    rcases getElem?_snoc_cases ht with ht | ⟨rfl, rfl⟩
    · exact h.serial k t ht hk
    · have hle := h.started_le
      simp only [invoke] at hk
      omega
  · intro k t ht hq
    exact h.labelled k t (hnew k t ht hq) hq
  · intro k t ht hq
    rcases getElem?_snoc_cases ht with ht | ⟨-, rfl⟩
    · exact h.unlabelled k t ht hq
    · rfl
  · intro j k t u info info' ht hu hi hi' hid
    rcases getElem?_snoc_cases ht with ht | ⟨-, rfl⟩
    · rcases getElem?_snoc_cases hu with hu | ⟨-, rfl⟩
      · exact h.fresh j k t u info info' ht hu hi hi' hid
      · cases hi'
    · cases hi
  · intro k t ht hr
    exact h.active k t (hnew k t ht (by simp [hr])) hr
  · intro i k event he
    obtain ⟨t, info, ht, hq, hi, hj⟩ := h.jobs i k event he
    exact ⟨t, info, getElem?_snoc_of_some ht, hq, hi, hj⟩
  · intro k t n ht hp
    exact h.tail k t n (hnew k t ht (by simp [hp])) hp
  · intro k t ht hp
    exact h.drained k t (hnew k t ht (by simp [hp])) hp

theorem startTurn_cases {defaultDispatch : V} {s t : Executor V} {k : Nat} {id : String}
    (hs : s.startTurn defaultDispatch k id = some t) :
    ∃ turn, s.turns[k]? = some turn ∧ turn.phase = .queued ∧ s.myTurn k = true ∧
      s.freshId id = true ∧
      t = { s with
        turns := s.turns.set k { turn with
          info := some (turn.args.invocationMeta defaultDispatch id), phase := .running }
        activeMeta := some (turn.args.invocationMeta defaultDispatch id)
        calls := s.calls ++ [turn.args.runCall id] } := by
  unfold startTurn at hs
  split at hs
  · cases hs
  · rename_i turn hturn
    split at hs
    · rename_i hc
      exact ⟨turn, hturn, hc.1, hc.2.1, hc.2.2, (Option.some.inj hs).symm⟩
    · cases hs

/-- The queue lets a turn start only after every earlier one has settled. -/
theorem Inv.turn_next {s : Executor V} (h : Inv s) {k : Nat} {t : Turn V}
    (ht : s.turns[k]? = some t) (hq : t.phase = .queued) (hmy : s.myTurn k = true) :
    k = s.calls.length ∧ ∀ j u, s.turns[j]? = some u → j < k → u.phase = .settled := by
  have hge := (h.queued_iff k t ht).mp hq
  cases k with
  | zero => exact ⟨by omega, fun j u _ hj => by omega⟩
  | succ k =>
    obtain ⟨u, hu, hsettled⟩ := (turnSettled_iff s k).mp hmy
    have hlt : ¬ s.calls.length ≤ k := fun hle => by
      have := (h.queued_iff k u hu).mpr hle
      simp [hsettled] at this
    refine ⟨by omega, fun j w hw hj => ?_⟩
    by_cases hjk : j = k
    · subst hjk
      rw [hu] at hw
      cases hw
      exact hsettled
    · exact h.serial j w hw (by omega)

theorem freshId_ne {s : Executor V} {id : String} (h : s.freshId id = true) {k : Nat}
    {t : Turn V} {info : InvocationMeta V} (ht : s.turns[k]? = some t) (hi : t.info = some info) :
    info.id ≠ id := by
  have hall := List.all_eq_true.mp h t (List.mem_of_getElem? ht)
  simpa [hi] using hall

theorem inv_startTurn {defaultDispatch : V} {s t : Executor V} {k : Nat} {id : String}
    (h : Inv s) (hs : s.startTurn defaultDispatch k id = some t) : Inv t := by
  obtain ⟨turn, hturn, hq, hmy, hfresh, rfl⟩ := startTurn_cases hs
  obtain ⟨hk, hbefore⟩ := h.turn_next hturn hq hmy
  have hklt := lt_of_getElem?_eq_some hturn
  have hnotk : ∀ (j : Nat) (u : Turn V), s.turns[j]? = some u → u.phase ≠ .queued → j ≠ k := by
    rintro j u hu hne rfl
    rw [hturn] at hu
    cases hu
    exact hne hq
  refine ⟨?_, ?_, ?_, ?_, ?_, ?_, ?_, h.jobs_length, ?_, ?_, h.records, h.oneAtATime, ?_⟩
  · simp only [List.length_append, List.length_singleton, List.length_set]
    omega
  · intro j u hu
    rcases getElem?_set_cases hu with ⟨rfl, rfl⟩ | ⟨hj, hu⟩
    · simp [hk]
    · rw [h.queued_iff j u hu]
      simp only [List.length_append, List.length_singleton]
      omega
  · intro j u hu hlt
    simp only [List.length_append, List.length_singleton] at hlt
    rcases getElem?_set_cases hu with ⟨rfl, rfl⟩ | ⟨hj, hu⟩
    · omega
    · exact hbefore j u hu (by omega)
  · intro j u hu hne
    rcases getElem?_set_cases hu with ⟨rfl, rfl⟩ | ⟨hj, hu⟩
    · exact ⟨_, rfl, by simp [hk, InvokeArgs.invocationMeta]⟩
    · obtain ⟨info, hi, hcall⟩ := h.labelled j u hu hne
      exact ⟨info, hi, getElem?_snoc_of_some hcall⟩
  · intro j u hu hne
    rcases getElem?_set_cases hu with ⟨rfl, rfl⟩ | ⟨hj, hu⟩
    · cases hne
    · exact h.unlabelled j u hu hne
  · intro i j u w info info' hu hw hi hi' hid
    rcases getElem?_set_cases hu with ⟨hik, rfl⟩ | ⟨-, hold⟩
    · rcases getElem?_set_cases hw with ⟨hjk, -⟩ | ⟨-, hold'⟩
      · exact hik.trans hjk.symm
      · cases hi
        exact absurd hid.symm (freshId_ne hfresh hold' hi')
    · rcases getElem?_set_cases hw with ⟨-, rfl⟩ | ⟨-, hold'⟩
      · cases hi'
        exact absurd hid (freshId_ne hfresh hold hi)
      · exact h.fresh i j u w info info' hold hold' hi hi' hid
  · intro j u hu hr
    rcases getElem?_set_cases hu with ⟨rfl, rfl⟩ | ⟨hj, hu⟩
    · rfl
    · have hcur := h.current hu (by simp [hr]) (by simp [hr])
      have := hbefore j u hu (by omega)
      simp [hr] at this
  · intro i j event he
    obtain ⟨u, info, hu, hne, hi, hjob⟩ := h.jobs i j event he
    refine ⟨u, info, ?_, hne, hi, hjob⟩
    rw [List.getElem?_set_ne (Ne.symm (hnotk j u hu hne))]
    exact hu
  · intro j u n hu hp
    rcases getElem?_set_cases hu with ⟨rfl, rfl⟩ | ⟨hj, hu⟩
    · cases hp
    · exact h.tail j u n hu hp
  · intro j u hu hp
    rcases getElem?_set_cases hu with ⟨rfl, rfl⟩ | ⟨hj, hu⟩
    · cases hp
    · exact h.drained j u hu hp

/-- A later phase of a turn that has started. -/
theorem inv_setPhase {s : Executor V} (h : Inv s) {k : Nat} {turn : Turn V}
    (hturn : s.turns[k]? = some turn) (hcur : turn.phase ≠ .queued ∧ turn.phase ≠ .settled)
    {phase : TurnPhase} (hnew : phase ≠ .queued ∧ phase ≠ .running)
    {activeMeta : Option (InvocationMeta V)} {results : List (Nat × InvokeResult V)}
    (htail : ∀ n, phase = .draining n → ∀ (i : Nat) event, s.emitted[i]? = some (k, event) → i < n)
    (hdrained : phase = .settled →
      ∀ (i : Nat) event, s.emitted[i]? = some (k, event) → s.recordSettled i = true) :
    Inv { s with
      turns := s.turns.set k { turn with phase := phase }
      activeMeta := activeMeta
      results := results } := by
  have hklt := lt_of_getElem?_eq_some hturn
  have hlast := h.current hturn hcur.1 hcur.2
  refine ⟨?_, ?_, ?_, ?_, ?_, ?_, ?_, h.jobs_length, ?_, ?_, h.records, h.oneAtATime, ?_⟩
  · simpa using h.started_le
  · intro j u hu
    rcases getElem?_set_cases hu with ⟨rfl, rfl⟩ | ⟨-, hu⟩
    · simp only [hnew.1, false_iff]
      omega
    · exact h.queued_iff j u hu
  · intro j u hu hlt
    rcases getElem?_set_cases hu with ⟨rfl, rfl⟩ | ⟨-, hu⟩
    · simp only at hlt
      omega
    · exact h.serial j u hu hlt
  · intro j u hu hne
    rcases getElem?_set_cases hu with ⟨rfl, rfl⟩ | ⟨-, hu⟩
    · exact h.labelled j turn hturn hcur.1
    · exact h.labelled j u hu hne
  · intro j u hu hne
    rcases getElem?_set_cases hu with ⟨rfl, rfl⟩ | ⟨-, hu⟩
    · exact absurd hne hnew.1
    · exact h.unlabelled j u hu hne
  · intro i j u w info info' hu hw hi hi' hid
    have hback : ∀ (j : Nat) (u : Turn V),
        (s.turns.set k { turn with phase := phase })[j]? = some u →
        ∃ v, s.turns[j]? = some v ∧ v.info = u.info := by
      intro j u hu
      rcases getElem?_set_cases hu with ⟨rfl, rfl⟩ | ⟨-, hu⟩
      · exact ⟨turn, hturn, rfl⟩
      · exact ⟨u, hu, rfl⟩
    obtain ⟨v, hv, hvi⟩ := hback i u hu
    obtain ⟨v', hv', hvi'⟩ := hback j w hw
    exact h.fresh i j v v' info info' hv hv' (hvi.trans hi) (hvi'.trans hi') hid
  · intro j u hu hr
    rcases getElem?_set_cases hu with ⟨rfl, rfl⟩ | ⟨hj, hu⟩
    · exact absurd hr hnew.2
    · have := h.current hu (by simp [hr]) (by simp [hr])
      omega
  · intro i j event he
    obtain ⟨u, info, hu, hne, hi, hjob⟩ := h.jobs i j event he
    by_cases hj : j = k
    · subst hj
      rw [hturn] at hu
      cases hu
      exact ⟨{ turn with phase := phase }, info, by simp [hklt], hnew.1, hi, hjob⟩
    · exact ⟨u, info, by rw [List.getElem?_set_ne (Ne.symm hj)]; exact hu, hne, hi, hjob⟩
  · intro j u n hu hp
    rcases getElem?_set_cases hu with ⟨rfl, rfl⟩ | ⟨-, hu⟩
    · exact htail n hp
    · exact h.tail j u n hu hp
  · intro j u hu hp
    rcases getElem?_set_cases hu with ⟨rfl, rfl⟩ | ⟨-, hu⟩
    · exact hdrained hp
    · exact h.drained j u hu hp

theorem inv_runSettles {s t : Executor V} {k : Nat} {outcome : RunOutcome V} (h : Inv s)
    (hs : s.runSettles k outcome = some t) : Inv t := by
  unfold runSettles at hs
  split at hs
  · cases hs
  · rename_i turn hturn
    split at hs
    · rename_i hr
      cases hs
      refine inv_setPhase h hturn (by simp [hr]) (by simp) ?_ (by simp)
      intro n hn i event he
      cases hn
      rw [h.jobs_length]
      exact lt_of_getElem?_eq_some he
    · cases hs

/-- The chain is sequential, so a settled link settles every link before it. -/
theorem Inv.recordSettled_of_tail {s : Executor V} (h : Inv s) {n i : Nat}
    (ht : s.tailSettled n = true) (hi : i < n) : s.recordSettled i = true := by
  cases n with
  | zero => omega
  | succ n =>
    by_cases hin : i = n
    · subst hin
      exact ht
    · obtain ⟨call, hcall, -⟩ := (recordSettled_iff s n).mp ht
      have hn := lt_of_getElem?_eq_some hcall
      have hlt : i < s.records.length := by omega
      have hget := List.getElem?_eq_getElem hlt
      exact (recordSettled_iff s i).mpr ⟨_, hget, h.oneAtATime i _ hget (by omega)⟩

theorem inv_finishTurn {s t : Executor V} {k : Nat} (h : Inv s)
    (hs : s.finishTurn k = some t) : Inv t := by
  unfold finishTurn at hs
  split at hs
  · cases hs
  · rename_i turn hturn
    split at hs
    · rename_i n hp
      split at hs
      · rename_i htail
        cases hs
        refine inv_setPhase h hturn (by simp [hp]) (by simp) (by simp) ?_
        intro _ i event he
        exact h.recordSettled_of_tail htail (h.tail k turn n hturn hp i event he)
      · cases hs
    · cases hs

/-! ## The events and their records -/

theorem inv_onEvent {s t : Executor V} {k : Nat} {event : SandboxEvent V} (h : Inv s)
    (hs : s.onEvent k event = some t) : Inv t := by
  unfold onEvent at hs
  split at hs
  · cases hs
  · rename_i turn hturn
    split at hs
    · rename_i hr
      obtain ⟨info, hi, -⟩ := h.labelled k turn hturn (by simp [hr])
      have hactive : s.activeMeta = some info := (h.active k turn hturn hr).trans hi
      rw [hactive] at hs
      cases hs
      refine { h with
        active := fun j u hu hr' => hactive.symm.trans (h.active j u hu hr')
        jobs_length := ?_
        jobs := ?_
        tail := ?_
        records := ?_
        drained := ?_ }
      · simp [h.jobs_length]
      · intro i j e he
        rcases getElem?_snoc_cases he with he | ⟨hlast, hx⟩
        · obtain ⟨u, info', hu, hne, hi', hjob⟩ := h.jobs i j e he
          exact ⟨u, info', hu, hne, hi', getElem?_snoc_of_some hjob⟩
        · cases hx
          refine ⟨turn, info, hturn, by simp [hr], hi, ?_⟩
          simp [hlast, ← h.jobs_length]
      · intro j u n hu hp i e he
        rcases getElem?_snoc_cases he with he | ⟨-, hx⟩
        · exact h.tail j u n hu hp i e he
        · cases hx
          rw [hturn] at hu
          cases hu
          simp [hr] at hp
      · intro i call hcall
        exact getElem?_snoc_of_some (h.records i call hcall)
      · intro j u hu hp i e he
        rcases getElem?_snoc_cases he with he | ⟨-, hx⟩
        · exact h.drained j u hu hp i e he
        · cases hx
          rw [hturn] at hu
          cases hu
          simp [hr] at hp
    · cases hs

theorem inv_startRecord {s t : Executor V} (h : Inv s) (hs : s.startRecord = some t) : Inv t := by
  unfold startRecord at hs
  split at hs
  · cases hs
  · rename_i event hevent
    split at hs
    · rename_i htail
      cases hs
      refine { h with records := ?_, oneAtATime := ?_, drained := ?_ }
      · intro i call hcall
        rcases getElem?_snoc_cases hcall with hcall | ⟨rfl, rfl⟩
        · exact h.records i call hcall
        · exact hevent
      · intro i call hcall hlt
        simp only [List.length_append, List.length_singleton] at hlt
        rcases getElem?_snoc_cases hcall with hcall | ⟨rfl, rfl⟩
        · obtain ⟨c, hc, hsettled⟩ :=
            (recordSettled_iff s i).mp (h.recordSettled_of_tail htail (by omega))
          rw [hcall] at hc
          cases hc
          exact hsettled
        · omega
      · intro k turn hturn hp i e he
        obtain ⟨c, hc, hsettled⟩ := (recordSettled_iff s i).mp (h.drained k turn hturn hp i e he)
        exact (recordSettled_iff _ i).mpr ⟨c, getElem?_snoc_of_some hc, hsettled⟩
    · cases hs

theorem inv_recordSettles {s t : Executor V} {ok : Bool} (h : Inv s)
    (hs : s.recordSettles ok = some t) : Inv t := by
  unfold recordSettles at hs
  split at hs
  · cases hs
  · rename_i call hlast
    split at hs
    · obtain ⟨pre, hpre⟩ := List.getLast?_eq_some_iff.mp hlast
      cases hs
      have hdrop : s.records.dropLast = pre := by simp [hpre]
      rw [hdrop]
      refine { h with records := ?_, oneAtATime := ?_, drained := ?_ }
      · intro i c hc
        rcases getElem?_snoc_cases hc with hc | ⟨rfl, rfl⟩
        · exact h.records i c (by rw [hpre]; exact getElem?_snoc_of_some hc)
        · exact h.records pre.length call (by simp [hpre])
      · intro i c hc hlt
        rcases getElem?_snoc_cases hc with hc | ⟨rfl, rfl⟩
        · refine h.oneAtATime i c (by rw [hpre]; exact getElem?_snoc_of_some hc) ?_
          simpa [hpre] using hlt
        · rfl
      · intro k turn hturn hp i e he
        obtain ⟨c, hc, hsettled⟩ := (recordSettled_iff s i).mp (h.drained k turn hturn hp i e he)
        rw [hpre] at hc
        rcases getElem?_snoc_cases hc with hc | ⟨rfl, rfl⟩
        · exact (recordSettled_iff _ i).mpr ⟨c, getElem?_snoc_of_some hc, hsettled⟩
        · exact (recordSettled_iff _ pre.length).mpr ⟨{ c with settled := true }, by simp, rfl⟩
    · cases hs

theorem inv_step {defaultDispatch : V} {s t : Executor V} {a : ExecutorAction V} (h : Inv s)
    (hs : s.step defaultDispatch a = some t) : Inv t := by
  cases a with
  | invoke args =>
    cases hs
    exact inv_invoke h args
  | startTurn k id => exact inv_startTurn h hs
  | event k event => exact inv_onEvent h hs
  | runSettles k outcome => exact inv_runSettles h hs
  | startRecord => exact inv_startRecord h hs
  | recordSettles ok => exact inv_recordSettles h hs
  | finishTurn k => exact inv_finishTurn h hs

theorem exec_inv {defaultDispatch : V} {as : List (ExecutorAction V)} {s : Executor V}
    (h : exec (step defaultDispatch) init as = some s) : Inv s :=
  exec_invariant (fun _ _ _ hi hs => inv_step hi hs) inv_init h

/-! ## Outcomes do not matter to the queue -/

/-- Everything but the results handed to callers and the failed records handed to the logger. -/
def core (s : Executor V) : Executor V := { s with results := [], recordErrors := [] }

/-- An action without the outcome of the run or of the record that it reports. -/
def shape : ExecutorAction V → ExecutorAction V
  | .runSettles k _ => .runSettles k (.failed "" "")
  | .recordSettles _ => .recordSettles true
  | a => a

theorem core_step (defaultDispatch : V) (s : Executor V) (a : ExecutorAction V) :
    (s.step defaultDispatch a).map core =
      (s.core.step defaultDispatch (shape a)).map core := by
  cases a with
  | invoke args => rfl
  | startTurn k id =>
    simp only [step, shape, startTurn, core]
    cases s.turns[k]? with
    | none => rfl
    | some t =>
      by_cases hc : t.phase = .queued ∧ s.myTurn k = true ∧ s.freshId id = true
      · have hc' : t.phase = .queued ∧ s.core.myTurn k = true ∧ s.core.freshId id = true := by
          cases k <;> exact hc
        simp only [core] at hc'
        simp only [hc, hc', and_self, if_true]
        rfl
      · have hc' : ¬ (t.phase = .queued ∧ s.core.myTurn k = true ∧ s.core.freshId id = true) := by
          cases k <;> exact hc
        simp only [core] at hc'
        simp only [hc, hc', if_false]
  | event k event =>
    simp only [step, shape, onEvent, core]
    cases s.turns[k]? with
    | none => rfl
    | some t => by_cases hc : t.phase = .running <;> simp [hc, core]
  | runSettles k outcome =>
    simp only [step, shape, runSettles, core]
    cases s.turns[k]? with
    | none => rfl
    | some t => by_cases hc : t.phase = .running <;> simp [hc, core]
  | startRecord =>
    simp only [step, shape, startRecord, core]
    cases s.jobs[s.records.length]? with
    | none => rfl
    | some event =>
      have hsame : s.core.tailSettled s.records.length = s.tailSettled s.records.length := by
        cases s.records.length <;> rfl
      simp only [core] at hsame
      by_cases hc : s.tailSettled s.records.length = true <;> simp [hsame, hc, core]
  | recordSettles ok =>
    simp only [step, shape, recordSettles, core]
    cases s.records.getLast? with
    | none => rfl
    | some call => by_cases hc : call.settled = false <;> simp [hc, core]
  | finishTurn k =>
    simp only [step, shape, finishTurn, core]
    cases s.turns[k]? with
    | none => rfl
    | some t =>
      cases hp : t.phase with
      | draining tail =>
        have hsame : s.core.tailSettled tail = s.tailSettled tail := by cases tail <;> rfl
        simp only [core] at hsame
        by_cases hc : s.tailSettled tail = true <;> simp [hp, hsame, hc, core]
      | queued => simp [hp]
      | running => simp [hp]
      | settled => simp [hp]

/-- Runs that differ only in the outcomes of runs and records reach the same queue, the same labels
and the same records. -/
theorem exec_core_congr (defaultDispatch : V) {s t : Executor V} {as bs : List (ExecutorAction V)}
    (hst : s.core = t.core) (h : as.map shape = bs.map shape) :
    (exec (step defaultDispatch) s as).map core = (exec (step defaultDispatch) t bs).map core := by
  refine exec_map_congr (fun s t a b hs hab => ?_) hst h
  rw [core_step, core_step defaultDispatch t b, hs, hab]

/-! ## Runs -/

/-- What holds in every state of the executor of one sandbox. -/
structure Serial (defaultDispatch : V) (s : Executor V) : Prop where
  order : ∀ (j k : Nat) (t u : Turn V), j < k → s.turns[j]? = some t → s.turns[k]? = some u →
    u.phase ≠ .queued → t.phase = .settled
  calls : ∀ (k : Nat) call, s.calls[k]? = some call → ∃ t info, s.turns[k]? = some t ∧
    t.info = some info ∧ call = t.args.runCall info.id
  label : ∀ (i : Nat) call, s.records[i]? = some call → ∃ k t info event,
    s.emitted[i]? = some (k, event) ∧ s.turns[k]? = some t ∧ t.info = some info ∧
      call.event = widen info event ∧ ∀ (j : Nat) u info', s.turns[j]? = some u →
        u.info = some info' → info'.id = call.event.id → j = k
  oneAtATime : ∀ (i : Nat) call, s.records[i]? = some call → i + 1 < s.records.length →
    call.settled = true
  committed : ∀ (k : Nat) t, s.turns[k]? = some t → t.phase = .settled →
    ∀ (i : Nat) event, s.emitted[i]? = some (k, event) → s.recordSettled i = true
  next : ∀ (k : Nat) t id, s.turns[k]? = some t → t.phase = .queued →
    (∀ (j : Nat) u, j < k → s.turns[j]? = some u → u.phase = .settled) → s.freshId id = true →
    (s.startTurn defaultDispatch k id).isSome = true

theorem Inv.order {s : Executor V} (h : Inv s) {j k : Nat} {t u : Turn V} (hjk : j < k)
    (ht : s.turns[j]? = some t) (hu : s.turns[k]? = some u) (hne : u.phase ≠ .queued) :
    t.phase = .settled := by
  have hk : ¬ s.calls.length ≤ k := fun hle => hne ((h.queued_iff k u hu).mpr hle)
  exact h.serial j t ht (by omega)

theorem Inv.label {s : Executor V} (h : Inv s) {i : Nat} {call : RecordCall V}
    (hcall : s.records[i]? = some call) : ∃ k t info event, s.emitted[i]? = some (k, event) ∧
      s.turns[k]? = some t ∧ t.info = some info ∧ call.event = widen info event ∧
      ∀ (j : Nat) u info', s.turns[j]? = some u → u.info = some info' →
        info'.id = call.event.id → j = k := by
  have hjob := h.records i call hcall
  have hlt : i < s.emitted.length := by
    rw [← h.jobs_length]
    exact lt_of_getElem?_eq_some hjob
  obtain ⟨⟨k, event⟩, he⟩ : ∃ x, s.emitted[i]? = some x := ⟨_, List.getElem?_eq_getElem hlt⟩
  obtain ⟨t, info, ht, -, hi, hj⟩ := h.jobs i k event he
  rw [hjob] at hj
  refine ⟨k, t, info, event, he, ht, hi, Option.some.inj hj, fun j u info' hu hi' hid => ?_⟩
  rw [Option.some.inj hj] at hid
  exact h.fresh j k u t info' info hu ht hi' hi hid

theorem Inv.next {defaultDispatch : V} {s : Executor V} {k : Nat} {t : Turn V} {id : String}
    (ht : s.turns[k]? = some t) (hq : t.phase = .queued)
    (hbefore : ∀ (j : Nat) u, j < k → s.turns[j]? = some u → u.phase = .settled)
    (hid : s.freshId id = true) : (s.startTurn defaultDispatch k id).isSome = true := by
  have hmy : s.myTurn k = true := by
    cases k with
    | zero => rfl
    | succ k =>
      have hlt := lt_of_getElem?_eq_some ht
      have hget := List.getElem?_eq_getElem (show k < s.turns.length by omega)
      exact (turnSettled_iff s k).mpr ⟨_, hget, hbefore k _ (by omega) hget⟩
  simp [startTurn, ht, hq, hmy, hid]

theorem Inv.runs_serial {s : Executor V} (h : Inv s) (defaultDispatch : V) :
    Serial defaultDispatch s where
  order := fun _ _ _ _ hjk ht hu hne => h.order hjk ht hu hne
  calls := by
    intro k call hcall
    have hlt := lt_of_getElem?_eq_some hcall
    have hle := h.started_le
    have hget := List.getElem?_eq_getElem (show k < s.turns.length by omega)
    have hne : (s.turns[k]).phase ≠ .queued := fun hq => by
      have := (h.queued_iff k _ hget).mp hq
      omega
    obtain ⟨info, hi, hc⟩ := h.labelled k _ hget hne
    exact ⟨_, info, hget, hi, Option.some.inj (hcall.symm.trans hc)⟩
  label := fun _ _ hcall => h.label hcall
  oneAtATime := h.oneAtATime
  committed := h.drained
  next := fun _ _ _ ht hq hbefore hid => Inv.next ht hq hbefore hid

/-- The runs of one sandbox never overlap and follow the queue, every record carries the label of
the run that emitted it, records are made one at a time in emission order and before `invoke`
resolves, and how a run or a record ends changes nothing for the others. -/
theorem invocations_serialised (defaultDispatch : V) (as : List (ExecutorAction V))
    (s : Executor V) (h : exec (step defaultDispatch) init as = some s) :
    Serial defaultDispatch s ∧
      ∀ bs : List (ExecutorAction V), as.map shape = bs.map shape →
        ∃ t, exec (step defaultDispatch) init bs = some t ∧ t.core = s.core := by
  refine ⟨(exec_inv h).runs_serial defaultDispatch, fun bs hbs => ?_⟩
  have hmap := exec_core_congr defaultDispatch (rfl : init.core = init.core) hbs
  rw [h] at hmap
  obtain ⟨t, ht, hcore⟩ := Option.map_eq_some_iff.mp hmap.symm
  exact ⟨t, ht, hcore⟩

/-- Two invocations queued at once; the run of the first rejects, and so does one of its records. -/
def rejectedRun : List (ExecutorAction Nat) :=
  let args : InvokeArgs Nat := ⟨"acme", "site", "w", "sha", "onTick", "cron", 0, none⟩
  let event : SandboxEvent Nat := ⟨⟨"trigger.request", "onTick", 0, "", none, none, none⟩, 0, none⟩
  [.invoke args, .invoke args, .startTurn 0 "evt_1", .event 0 event, .event 0 event,
    .startRecord, .runSettles 0 (.rejected "Sandbox is disposed" none), .recordSettles false,
    .startRecord, .recordSettles true, .finishTurn 0, .startTurn 1 "evt_2", .event 1 event,
    .runSettles 1 (.ok 1), .startRecord, .recordSettles true, .finishTurn 1]

theorem invocations_serialised_rejectedRun : ∃ s : Executor Nat,
    exec (step 0) init rejectedRun = some s ∧
      s.records.map (fun call => call.event.id) = ["evt_1", "evt_1", "evt_2"] ∧
      Serial 0 s ∧ ∀ bs : List (ExecutorAction Nat), rejectedRun.map shape = bs.map shape →
        ∃ t, exec (step 0) init bs = some t ∧ t.core = s.core :=
  ⟨_, rfl, rfl, invocations_serialised 0 rejectedRun _ rfl⟩

end Executor

end WorkflowEngine.Runtime
