import WorkflowEngine.Lib.OrderedMap
import WorkflowEngine.Lib.Transition
import WorkflowEngine.Sandbox.Protocol

/-!
# The event store

Model of `event-store.ts`: the accumulator, `record`, the commit loop with its
retries, and `drainAndClose`. A commit that awaits its insert or its backoff is
an entry of `commits`; the outcome of each insert and the order in which inserts
settle are chosen by the environment. An INSERT is one statement, so a batch is
inserted as a whole or not at all. Rows are the events themselves: the JSON
encoding of `eventToRow`, `prune` and the query surface are left out. The event
field `meta` is `metadata`, because `meta` is a Lean keyword.

The fields `inserted` and `dropped` keep what the database received and what the
`commit-dropped` entries of the log reported; `accepted` keeps what `record` took.
-/

namespace WorkflowEngine.Runtime

open Lib Sandbox
set_option autoImplicit false

universe u
variable {V : Type u}

structure InvocationEvent (V : Type u) extends SandboxEvent V where
  id : String
  owner : String
  repo : String
  workflow : String
  workflowSha : String
  metadata : Option V
  deriving DecidableEq

def terminalKinds : List String :=
  ["trigger.response", "trigger.error", "trigger.exception", "trigger.rejection", "system.upload"]

def isTerminal (kind : String) : Bool := kind ∈ terminalKinds

structure EventStoreConfig where
  commitMaxRetries : Nat

/-- The events of one `commitInvocation`. The drain loop pushes a synthetic last event. -/
structure Batch (V : Type u) where
  id : String
  owner : String
  repo : String
  recorded : List (InvocationEvent V)
  synthetic : Option (InvocationEvent V)
  deriving DecidableEq

def Batch.events (b : Batch V) : List (InvocationEvent V) := b.recorded ++ b.synthetic.toList

/-- A `commitWithRetry` that has not returned. -/
structure Commit (V : Type u) where
  batch : Batch V
  attempt : Nat
  deriving DecidableEq

inductive DropReason where
  | primaryKeyViolation
  | attempts (count : Nat)
  deriving DecidableEq

inductive InsertOutcome where
  | ok
  | failed
  | constraintViolation
  deriving DecidableEq

inductive DrainState where
  | notStarted
  | draining
  | timedOut
  | closed
  deriving DecidableEq

structure EventStore (V : Type u) where
  accumulator : OrderedMap String (List (InvocationEvent V))
  stopped : Bool
  commits : List (Commit V)
  inserted : List (Batch V)
  dropped : List (Batch V × DropReason)
  drain : DrainState
  accepted : List (InvocationEvent V)
  deriving DecidableEq

inductive StoreAction (V : Type u) where
  | record (event : InvocationEvent V)
  | attempt (i : Nat) (outcome : InsertOutcome)
  | drainAndClose
  | drainEntry (atIso : String) (pastDeadline : Bool)
  | drainEnd
  deriving DecidableEq

namespace EventStore

def create : EventStore V := ⟨.empty, false, [], [], [], .notStarted, []⟩

def appendToAccumulator (s : EventStore V) (event : InvocationEvent V) : EventStore V :=
  { s with
    accumulator := s.accumulator.set event.id ((s.accumulator.get? event.id).getD [] ++ [event]) }

/-- Evicts the entry and starts `commitWithRetry` on its events. -/
def commitInvocation (s : EventStore V) (id : String) (synthetic : Option (InvocationEvent V)) :
    EventStore V :=
  match s.accumulator.get? id with
  | none => s
  | some [] => s
  | some (first :: rest) =>
    { s with
      accumulator := s.accumulator.delete id
      commits := s.commits ++ [⟨⟨id, first.owner, first.repo, first :: rest, synthetic⟩, 0⟩] }

def record (s : EventStore V) (event : InvocationEvent V) : EventStore V :=
  if s.stopped then s
  else
    let s' := { s.appendToAccumulator event with accepted := s.accepted ++ [event] }
    if isTerminal event.kind then s'.commitInvocation event.id none else s'

/-- One settlement of `commitOnce` inside the retry loop. -/
def attempt (config : EventStoreConfig) (s : EventStore V) (i : Nat) (outcome : InsertOutcome) :
    Option (EventStore V) :=
  match s.commits[i]? with
  | none => none
  | some c =>
    match outcome with
    | .ok => some { s with commits := s.commits.eraseIdx i, inserted := s.inserted ++ [c.batch] }
    | .constraintViolation =>
      some { s with
        commits := s.commits.eraseIdx i
        dropped := s.dropped ++ [(c.batch, .primaryKeyViolation)] }
    | .failed =>
      if c.attempt < config.commitMaxRetries then
        some { s with commits := s.commits.set i { c with attempt := c.attempt + 1 } }
      else
        some { s with
          commits := s.commits.eraseIdx i
          dropped := s.dropped ++ [(c.batch, .attempts (config.commitMaxRetries + 1))] }

/-- The drain loop awaits the commit it started. -/
def awaitsCommit (s : EventStore V) : Bool := s.commits.any fun c => c.batch.synthetic.isSome

def syntheticError (id atIso : String) (first last : InvocationEvent V) : InvocationEvent V where
  kind := "trigger.error"
  id := id
  seq := last.seq + 1
  ref := none
  atIso := atIso
  ts := last.ts
  owner := first.owner
  repo := first.repo
  workflow := first.workflow
  workflowSha := first.workflowSha
  name := first.name
  input := none
  output := none
  error := some ⟨"runtime shutting down", none, none, some "shutdown"⟩
  metadata := none

/-- One iteration of the drain loop, on the first entry that is left. -/
def drainEntry (s : EventStore V) (atIso : String) (pastDeadline : Bool) : Option (EventStore V) :=
  if s.drain = .draining ∧ s.awaitsCommit = false then
    match s.accumulator.entries with
    | [] => none
    | (id, events) :: _ =>
      if pastDeadline then some { s with drain := .timedOut }
      else
        match events with
        | [] => some { s with accumulator := s.accumulator.delete id }
        | first :: rest =>
          some (s.commitInvocation id
            (some (syntheticError id atIso first ((first :: rest).getLast (by simp)))))
  else none

/-- The loop finds no entry left and `drainAndClose` resolves. -/
def drainEnd (s : EventStore V) : Option (EventStore V) :=
  if s.drain = .draining ∧ s.awaitsCommit = false ∧ s.accumulator.entries = [] then
    some { s with drain := .closed }
  else none

def step (config : EventStoreConfig) (s : EventStore V) : StoreAction V → Option (EventStore V)
  | .record event => some (s.record event)
  | .attempt i outcome => s.attempt config i outcome
  | .drainAndClose =>
    if s.drain = .notStarted then some { s with stopped := true, drain := .draining } else none
  | .drainEntry atIso pastDeadline => s.drainEntry atIso pastDeadline
  | .drainEnd => s.drainEnd

/-! ## Batches and the events they hold -/

/-- Every batch that left the accumulator: in flight, inserted or dropped. -/
def batches (s : EventStore V) : List (Batch V) :=
  s.commits.map (·.batch) ++ s.inserted ++ s.dropped.map Prod.fst

/-- Every recorded event, wherever it is. -/
def held (s : EventStore V) : List (InvocationEvent V) :=
  s.accumulator.entries.flatMap Prod.snd ++ s.batches.flatMap (·.recorded)

theorem record_stopped {s : EventStore V} (h : s.stopped = true) (event : InvocationEvent V) :
    s.record event = s := by
  simp [record, h]

theorem record_open {s : EventStore V} (h : s.stopped = false) {event : InvocationEvent V}
    (hkind : isTerminal event.kind = false) :
    s.record event =
      { s with
        accumulator :=
          s.accumulator.set event.id ((s.accumulator.get? event.id).getD [] ++ [event])
        accepted := s.accepted ++ [event] } := by
  simp [record, h, hkind, appendToAccumulator]

/-- A terminal event takes its invocation out of the accumulator in the same call. -/
theorem record_terminal {s : EventStore V} (h : s.stopped = false) {event : InvocationEvent V}
    (hkind : isTerminal event.kind = true) :
    ∃ owner repo, s.record event =
      { s with
        accumulator := s.accumulator.delete event.id
        commits := s.commits ++
          [⟨⟨event.id, owner, repo, (s.accumulator.get? event.id).getD [] ++ [event], none⟩, 0⟩]
        accepted := s.accepted ++ [event] } := by
  simp only [record, h, hkind, appendToAccumulator, commitInvocation, if_true, Bool.false_eq_true,
    if_false, OrderedMap.get?_set_self]
  cases hget : (s.accumulator.get? event.id).getD [] with
  | nil => exact ⟨event.owner, event.repo, by simp [OrderedMap.delete_set_self]⟩
  | cons first rest => exact ⟨first.owner, first.repo, by simp [OrderedMap.delete_set_self]⟩

/-- What a record does to the accumulator, seen from outside. -/
theorem record_running {s : EventStore V} (h : s.stopped = false) (event : InvocationEvent V) :
    (s.record event).stopped = false ∧ (s.record event).accepted = s.accepted ++ [event] ∧
    ∀ id, ((s.record event).accumulator.get? id).isSome =
      if id = event.id then !isTerminal event.kind else (s.accumulator.get? id).isSome := by
  cases hkind : isTerminal event.kind with
  | false =>
    rw [record_open h hkind]
    refine ⟨h, rfl, ?_⟩
    intro id
    rw [OrderedMap.get?_set]
    by_cases hid : id = event.id <;> simp [hid]
  | true =>
    obtain ⟨owner, repo, hrec⟩ := record_terminal h hkind
    rw [hrec]
    refine ⟨h, rfl, ?_⟩
    intro id
    rw [OrderedMap.get?_delete]
    by_cases hid : id = event.id <;> simp [hid]

theorem perm_batches_erase {s : EventStore V} {i : Nat} {c : Commit V} (h : s.commits[i]? = some c) :
    (s.commits.map (·.batch)).Perm (c.batch :: (s.commits.eraseIdx i).map (·.batch)) := by
  obtain ⟨hi, rfl⟩ := List.getElem?_eq_some_iff.mp h
  exact ((List.getElem_cons_eraseIdx_perm hi).map _).symm

/-- A settled insert moves one batch out of flight, or leaves every batch where it is. -/
theorem attempt_cases {config : EventStoreConfig} {s t : EventStore V} {i : Nat}
    {outcome : InsertOutcome} (h : s.attempt config i outcome = some t) :
    ∃ c, s.commits[i]? = some c ∧
      ((t = { s with commits := s.commits.eraseIdx i, inserted := s.inserted ++ [c.batch] }) ∨
      (∃ reason, t = { s with
        commits := s.commits.eraseIdx i, dropped := s.dropped ++ [(c.batch, reason)] }) ∨
      (t = { s with commits := s.commits.set i { c with attempt := c.attempt + 1 } })) := by
  unfold attempt at h
  split at h
  · cases h
  · rename_i c hc
    refine ⟨c, hc, ?_⟩
    cases outcome with
    | ok => exact Or.inl (Option.some.inj h).symm
    | constraintViolation => exact Or.inr (Or.inl ⟨_, (Option.some.inj h).symm⟩)
    | failed =>
      simp only at h
      split at h
      · exact Or.inr (Or.inr (Option.some.inj h).symm)
      · exact Or.inr (Or.inl ⟨_, (Option.some.inj h).symm⟩)

theorem map_batch_set {commits : List (Commit V)} {i : Nat} {c : Commit V}
    (h : commits[i]? = some c) (attempt : Nat) :
    (commits.set i { c with attempt := attempt }).map (·.batch) = commits.map (·.batch) := by
  apply List.ext_getElem?
  intro j
  rw [List.getElem?_map, List.getElem?_map, List.getElem?_set]
  by_cases hj : i = j
  · subst hj
    obtain ⟨hi, rfl⟩ := List.getElem?_eq_some_iff.mp h
    simp [hi]
  · simp [hj]

theorem attempt_perm {config : EventStoreConfig} {s t : EventStore V} {i : Nat}
    {outcome : InsertOutcome} (h : s.attempt config i outcome = some t) : t.batches.Perm s.batches := by
  obtain ⟨c, hc, rfl | ⟨reason, rfl⟩ | rfl⟩ := attempt_cases h
  · have hp := perm_batches_erase hc
    simp only [batches]
    refine List.Perm.append_right _ ?_
    refine (List.perm_append_comm.trans ?_).trans (hp.append_right s.inserted).symm
    rw [List.append_assoc]
    exact List.perm_append_comm.trans (by simp)
  · have hp := perm_batches_erase hc
    simp only [batches, List.map_append, List.map_cons, List.map_nil]
    refine List.Perm.trans ?_ ((hp.append_right s.inserted).append_right _).symm
    rw [← List.append_assoc]
    exact List.perm_append_comm
  · simp [batches, map_batch_set hc]

/-- What an iteration of the drain loop can do. -/
theorem drainEntry_cases {s t : EventStore V} {atIso : String} {pastDeadline : Bool}
    (h : s.drainEntry atIso pastDeadline = some t) :
    s.drain = .draining ∧ ∃ id events rest, s.accumulator.entries = (id, events) :: rest ∧
      (t = { s with drain := .timedOut } ∨
      (events = [] ∧ t = { s with accumulator := s.accumulator.delete id }) ∨
      ∃ first tail last owner repo, events = first :: tail ∧
        t = { s with
          accumulator := s.accumulator.delete id
          commits := s.commits ++
            [⟨⟨id, owner, repo, events, some (syntheticError id atIso first last)⟩, 0⟩] }) := by
  simp only [drainEntry, Option.ite_none_right_eq_some] at h
  obtain ⟨⟨hdrain, _⟩, h⟩ := h
  refine ⟨hdrain, ?_⟩
  cases hentries : s.accumulator.entries with
  | nil => simp [hentries] at h
  | cons e rest =>
    obtain ⟨id, events⟩ := e
    refine ⟨id, events, rest, rfl, ?_⟩
    have hget : s.accumulator.get? id = some events :=
      (s.accumulator.get?_eq_some_iff _ _).mpr (by rw [hentries]; simp)
    simp only [hentries] at h
    split at h
    · exact Or.inl (Option.some.inj h).symm
    · cases events with
      | nil => exact Or.inr (Or.inl ⟨rfl, (Option.some.inj h).symm⟩)
      | cons first tail =>
        simp only [commitInvocation, hget, Option.some.injEq] at h
        exact Or.inr (Or.inr ⟨first, tail, _, _, _, rfl, h.symm⟩)

end EventStore

end WorkflowEngine.Runtime
