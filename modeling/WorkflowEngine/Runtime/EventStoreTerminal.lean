import WorkflowEngine.Runtime.EventStoreDrain

/-!
# Terminal events per invocation

An event that arrives after the terminal event of its invocation opens a new
entry of the accumulator, and the drain closes that entry with a synthetic
`trigger.error`. The weight of an invocation counts the terminal rows that left
the accumulator, and one more for an entry that the drain would still close.
-/

namespace WorkflowEngine.Runtime

open Lib Sandbox
set_option autoImplicit false

universe u
variable {V : Type u}

def terminalOf (id : String) (e : InvocationEvent V) : Bool := e.id = id ∧ isTerminal e.kind = true

/-- The terminal events of an invocation among the rows of some batches. -/
def terminalRows (bs : List (Batch V)) (id : String) : Nat :=
  (bs.flatMap Batch.events).countP (terminalOf id)

/-- No event of invocation `id` follows a terminal event of `id`. -/
def TerminalLast (id : String) (events : List (InvocationEvent V)) : Prop :=
  events.Pairwise fun a b => b.id = id → terminalOf id a = false

theorem terminalLast_snoc (id : String) (events : List (InvocationEvent V))
    (event : InvocationEvent V) :
    TerminalLast id (events ++ [event]) ↔
      TerminalLast id events ∧ (event.id = id → events.countP (terminalOf id) = 0) := by
  simp only [TerminalLast, List.pairwise_append, List.pairwise_singleton, List.mem_singleton,
    true_and, List.countP_eq_zero, Bool.not_eq_true]
  constructor
  · rintro ⟨hevents, hlast⟩
    exact ⟨hevents, fun hid a ha => hlast a ha event rfl hid⟩
  · rintro ⟨hevents, hlast⟩
    exact ⟨hevents, fun a ha b hb hid => hlast (hb ▸ hid) a ha⟩

theorem terminalLast_of_none {id : String} {events : List (InvocationEvent V)}
    (h : events.countP (terminalOf id) = 0) : TerminalLast id events := by
  rw [List.countP_eq_zero] at h
  refine List.Pairwise.imp_of_mem ?_ (List.pairwise_of_forall fun _ _ => trivial)
  intro a b ha _ _ _
  simpa using h a ha

namespace EventStore

def waiting (s : EventStore V) (id : String) : Nat :=
  if (s.accumulator.get? id).isSome then 1 else 0

def weight (s : EventStore V) (id : String) : Nat := terminalRows s.batches id + s.waiting id

/-- How the weight of an invocation depends on the order of its accepted events. -/
structure Weighed (s : EventStore V) (id : String) : Prop where
  running : s.stopped = false → terminalRows s.batches id = s.accepted.countP (terminalOf id)
  late : ¬ TerminalLast id s.accepted → 2 ≤ s.weight id
  orderly : TerminalLast id s.accepted → s.weight id ≤ 1

theorem terminalRows_perm {bs cs : List (Batch V)} (h : bs.Perm cs) (id : String) :
    terminalRows bs id = terminalRows cs id := (h.flatMap_right _).countP_eq _

theorem terminalRows_cons (b : Batch V) (bs : List (Batch V)) (id : String) :
    terminalRows (b :: bs) id = b.events.countP (terminalOf id) + terminalRows bs id := by
  simp [terminalRows, List.countP_append]

theorem countP_terminalOf_of_ne {id : String} {events : List (InvocationEvent V)} (other : String)
    (h : ∀ e ∈ events, e.id = other) (hne : other ≠ id) : events.countP (terminalOf id) = 0 := by
  rw [List.countP_eq_zero]
  intro e he
  simp [terminalOf, h e he, hne]

theorem countP_terminalOf_of_open {id : String} {events : List (InvocationEvent V)}
    (h : ∀ e ∈ events, isTerminal e.kind = false) : events.countP (terminalOf id) = 0 := by
  rw [List.countP_eq_zero]
  intro e he
  simp [terminalOf, h e he]

/-- The rows a batch adds to its own invocation, and to no other. -/
theorem countP_events {b : Batch V} (hb : BatchSound b) (id : String) :
    b.events.countP (terminalOf id) =
      if b.id = id then b.recorded.countP (terminalOf id) + b.synthetic.toList.length else 0 := by
  rw [Batch.events, List.countP_append]
  by_cases hid : b.id = id
  · rw [if_pos hid]
    congr 1
    cases hs : b.synthetic with
    | none => rfl
    | some e =>
      obtain ⟨heid, hterm⟩ := hb.synthetic e hs
      simp [terminalOf, heid, hid, hterm]
  · rw [if_neg hid, countP_terminalOf_of_ne b.id hb.sameId hid, Nat.zero_add]
    refine countP_terminalOf_of_ne b.id ?_ hid
    intro e he
    exact (hb.synthetic e (by simpa using he)).1

theorem Weighed.of_perm {s t : EventStore V} {id : String} (h : Weighed s id)
    (hacc : t.accumulator = s.accumulator) (hstopped : t.stopped = false → s.stopped = false)
    (haccepted : t.accepted = s.accepted) (hb : t.batches.Perm s.batches) : Weighed t id := by
  have hrows := terminalRows_perm hb id
  have hweight : t.weight id = s.weight id := by simp [weight, waiting, hrows, hacc]
  exact {
    running := fun hs => by rw [hrows, haccepted]; exact h.running (hstopped hs)
    late := fun hl => by rw [hweight]; exact h.late (haccepted ▸ hl)
    orderly := fun ho => by rw [hweight]; exact h.orderly (haccepted ▸ ho) }

theorem weighed_attempt {config : EventStoreConfig} {s t : EventStore V} {i : Nat}
    {outcome : InsertOutcome} {id : String} (h : Weighed s id)
    (ht : s.attempt config i outcome = some t) : Weighed t id := by
  have hperm := attempt_perm ht
  obtain ⟨c, _, rfl | ⟨reason, rfl⟩ | rfl⟩ := attempt_cases ht
  · exact h.of_perm rfl (fun hs => hs) rfl hperm
  · exact h.of_perm rfl (fun hs => hs) rfl hperm
  · exact h.of_perm rfl (fun hs => hs) rfl hperm

/-- An accepted event makes the weight of its invocation one more than its terminal rows were. -/
theorem Weighed.accept {s t : EventStore V} {id : String} (h : Weighed s id)
    {event : InvocationEvent V} (hid : event.id = id) (hs : s.stopped = false)
    (haccepted : t.accepted = s.accepted ++ [event])
    (hrows : terminalRows t.batches id = t.accepted.countP (terminalOf id))
    (hweight : t.weight id = terminalRows s.batches id + 1) : Weighed t id where
  running := fun _ => hrows
  late := by
    intro hl
    rw [haccepted, terminalLast_snoc] at hl
    have hsome : s.accepted.countP (terminalOf id) ≠ 0 :=
      fun hzero => hl ⟨terminalLast_of_none hzero, fun _ => hzero⟩
    rw [hweight, h.running hs]
    omega
  orderly := by
    intro ho
    rw [haccepted, terminalLast_snoc] at ho
    have hrunning := h.running hs
    have hzero := ho.2 hid
    omega

/-- An event of another invocation leaves the weight alone. -/
theorem Weighed.other {s t : EventStore V} {id : String} (h : Weighed s id)
    {event : InvocationEvent V} (hid : event.id ≠ id) (hs : s.stopped = false)
    (haccepted : t.accepted = s.accepted ++ [event])
    (hrows : terminalRows t.batches id = terminalRows s.batches id)
    (hget : t.accumulator.get? id = s.accumulator.get? id) : Weighed t id := by
  have hcount : t.accepted.countP (terminalOf id) = s.accepted.countP (terminalOf id) := by
    rw [haccepted, List.countP_append]
    simp [terminalOf, hid]
  have hlast : TerminalLast id t.accepted ↔ TerminalLast id s.accepted := by
    rw [haccepted, terminalLast_snoc]
    exact ⟨fun h => h.1, fun h => ⟨h, fun he => absurd he hid⟩⟩
  have hweight : t.weight id = s.weight id := by simp [weight, waiting, hrows, hget]
  exact {
    running := fun _ => by rw [hrows, hcount]; exact h.running hs
    late := fun hl => by rw [hweight]; exact h.late (hlast.not.mp hl)
    orderly := fun ho => by rw [hweight]; exact h.orderly (hlast.mp ho) }

theorem weighed_record {s : EventStore V} (hsound : Sound s) {id : String} (h : Weighed s id)
    (event : InvocationEvent V) : Weighed (s.record event) id := by
  cases hs : s.stopped with
  | true => rw [record_stopped hs]; exact h
  | false =>
    cases hkind : isTerminal event.kind with
    | false =>
      rw [record_open hs hkind]
      by_cases hid : event.id = id
      · refine h.accept hid hs rfl ?_ ?_
        · show terminalRows s.batches id = _
          rw [h.running hs, List.countP_append]
          simp [terminalOf, hkind]
        · show terminalRows s.batches id + _ = _
          simp [waiting, hid]
      · exact h.other hid hs rfl rfl (OrderedMap.get?_set_of_ne _ _ _ (Ne.symm hid))
    | true =>
      obtain ⟨owner, repo, hrec⟩ := record_terminal hs hkind
      rw [hrec]
      have hb : BatchSound (⟨event.id, owner, repo,
          (s.accumulator.get? event.id).getD [] ++ [event], none⟩ : Batch V) :=
        ⟨by simp, fun e he => (EntrySound.push hsound e he).1, by simp⟩
      have hrows := (terminalRows_perm (batches_push s ⟨event.id, owner, repo,
        (s.accumulator.get? event.id).getD [] ++ [event], none⟩ (s.accumulator.delete event.id)
        (s.accepted ++ [event])) id).trans (terminalRows_cons _ _ _)
      rw [countP_events hb] at hrows
      by_cases hid : event.id = id
      · subst hid
        have hold : ((s.accumulator.get? event.id).getD []).countP (terminalOf event.id) = 0 := by
          cases hget : s.accumulator.get? event.id with
          | none => rfl
          | some events => exact countP_terminalOf_of_open (hsound.entries _ _ hget).open_
        have hone : terminalOf event.id event = true := by simp [terminalOf, hkind]
        simp only [if_true, List.countP_append, hold, List.countP_singleton, hone,
          Option.toList_none, List.length_nil] at hrows
        refine h.accept rfl hs rfl ?_ ?_
        · rw [hrows, h.running hs, List.countP_append, List.countP_singleton, if_pos hone]
          omega
        · rw [weight, hrows]
          simp [waiting]
          omega
      · refine h.other hid hs rfl ?_ (OrderedMap.get?_delete_of_ne _ (Ne.symm hid))
        rw [hrows, if_neg hid, Nat.zero_add]

/-- The drain turns a waiting entry into one terminal row. -/
theorem weighed_drainEntry {s t : EventStore V} (hsound : Sound s) {id : String} (h : Weighed s id)
    {atIso : String} {pastDeadline : Bool} (ht : s.drainEntry atIso pastDeadline = some t) :
    Weighed t id := by
  obtain ⟨hdrain, key, events, rest, hentries, hcases⟩ := drainEntry_cases ht
  have hget : s.accumulator.get? key = some events :=
    (s.accumulator.get?_eq_some_iff _ _).mpr (by rw [hentries]; simp)
  have hentry := hsound.entries _ _ hget
  have hstopped : s.stopped ≠ false := by
    intro hs
    rw [hsound.stopped_iff.mp hs] at hdrain
    cases hdrain
  rcases hcases with rfl | ⟨rfl, _⟩ | ⟨first, tail, last, owner, repo, _, rfl⟩
  · exact h.of_perm rfl (fun hs => hs) rfl (List.Perm.refl _)
  · exact absurd rfl hentry.nonempty
  · have hb : BatchSound (⟨key, owner, repo, events, some (syntheticError key atIso first last)⟩ : Batch V) :=
      ⟨hentry.nonempty, hentry.sameId, by rintro e ⟨⟩; exact ⟨rfl, rfl⟩⟩
    have hrows := (terminalRows_perm (batches_push s ⟨key, owner, repo, events,
      some (syntheticError key atIso first last)⟩ (s.accumulator.delete key) s.accepted) id).trans
      (terminalRows_cons _ _ _)
    rw [countP_events hb] at hrows
    have hweight : weight { s with
        accumulator := s.accumulator.delete key
        commits := s.commits ++
          [⟨⟨key, owner, repo, events, some (syntheticError key atIso first last)⟩, 0⟩] } id =
        s.weight id := by
      rw [weight, hrows]
      by_cases hid : key = id
      · subst hid
        simp only [if_true, countP_terminalOf_of_open hentry.open_, weight, waiting, hget,
          OrderedMap.get?_delete_self, Option.toList_some, List.length_singleton, Option.isSome_none,
          Option.isSome_some, Bool.false_eq_true, if_false]
        omega
      · simp only [if_neg hid, weight, waiting, OrderedMap.get?_delete_of_ne _ (Ne.symm hid)]
        omega
    exact {
      running := fun hs => absurd hs hstopped
      late := fun hl => hweight ▸ h.late hl
      orderly := fun ho => hweight ▸ h.orderly ho }

theorem weighed_step (config : EventStoreConfig) {s t : EventStore V} {a : StoreAction V}
    (hsound : Sound s) {id : String} (h : Weighed s id) (ht : s.step config a = some t) :
    Weighed t id := by
  cases a with
  | record event => cases ht; exact weighed_record hsound h event
  | attempt i outcome => exact weighed_attempt h ht
  | drainAndClose =>
    simp only [step, Option.ite_none_right_eq_some, Option.some.injEq] at ht
    obtain ⟨_, rfl⟩ := ht
    exact h.of_perm rfl (fun hs => by cases hs) rfl (List.Perm.refl _)
  | drainEntry atIso pastDeadline => exact weighed_drainEntry hsound h ht
  | drainEnd =>
    simp only [step, drainEnd, Option.ite_none_right_eq_some, Option.some.injEq] at ht
    obtain ⟨_, rfl⟩ := ht
    exact h.of_perm rfl (fun hs => hs) rfl (List.Perm.refl _)

theorem weighed_exec {config : EventStoreConfig} {actions : List (StoreAction V)} {s : EventStore V}
    (h : exec (step config) create actions = some s) (id : String) : Weighed s id := by
  have hinit : Sound (create : EventStore V) ∧ Weighed (create : EventStore V) id := by
    refine ⟨sound_create, fun _ => rfl, fun hl => absurd List.Pairwise.nil hl, fun _ => ?_⟩
    simp [weight, terminalRows, waiting, create, batches]
  have hstep : ∀ (s : EventStore V) a t, Sound s ∧ Weighed s id → s.step config a = some t →
      Sound t ∧ Weighed t id :=
    fun s a t hinv ht => ⟨sound_step config s a t hinv.1 ht, weighed_step config hinv.1 hinv.2 ht⟩
  exact (exec_invariant hstep hinit h).2

/-! ## A run in which every insert succeeds -/

def serve (events : List (InvocationEvent V)) : List (StoreAction V) :=
  events.flatMap fun e =>
    .record e :: if isTerminal e.kind then [.attempt 0 .ok] else []

theorem exec_serve (config : EventStoreConfig) (events : List (InvocationEvent V)) {s : EventStore V}
    (hs : s.stopped = false) (hc : s.commits = []) :
    ∃ t, exec (step config) s (serve events) = some t ∧ t.stopped = false ∧ t.commits = [] ∧
      t.dropped = s.dropped ∧ t.drain = s.drain ∧ t.accepted = s.accepted ++ events := by
  induction events generalizing s with
  | nil => exact ⟨s, rfl, hs, hc, rfl, rfl, by simp⟩
  | cons e events ih =>
    cases hkind : isTerminal e.kind with
    | false =>
      obtain ⟨t, hexec, h1, h2, h3, h4, h5⟩ := ih (s := s.record e)
        (by rw [record_open hs hkind]; exact hs) (by rw [record_open hs hkind]; exact hc)
      refine ⟨t, ?_, h1, h2, ?_, ?_, ?_⟩
      · simpa [serve, hkind, exec, step] using hexec
      · rw [h3, record_open hs hkind]
      · rw [h4, record_open hs hkind]
      · rw [h5, record_open hs hkind]; simp
    | true =>
      obtain ⟨owner, repo, hrec⟩ := record_terminal hs hkind
      obtain ⟨t, hexec, h1, h2, h3, h4, h5⟩ := ih
        (s := { s with
          accumulator := s.accumulator.delete e.id
          inserted := s.inserted ++ [⟨e.id, owner, repo, (s.accumulator.get? e.id).getD [] ++ [e], none⟩]
          accepted := s.accepted ++ [e] }) hs hc
      refine ⟨t, ?_, h1, h2, h3, h4, by rw [h5]; simp⟩
      rw [← hexec]
      simp [serve, hkind, exec, step, hrec, hc, attempt]

def drainAll (n : Nat) : List (StoreAction V) :=
  (List.replicate n [.drainEntry "" false, .attempt 0 .ok]).flatten

theorem exec_drainAll (config : EventStoreConfig) (n : Nat) {s : EventStore V} (h : Sound s)
    (hdrain : s.drain = .draining) (hc : s.commits = []) (hn : s.accumulator.entries.length = n) :
    ∃ t, exec (step config) s (drainAll n) = some t ∧ t.commits = [] ∧ t.dropped = s.dropped ∧
      t.accumulator.entries = [] ∧ t.accepted = s.accepted := by
  induction n generalizing s with
  | zero => exact ⟨s, rfl, hc, rfl, List.length_eq_zero_iff.mp hn, rfl⟩
  | succ n ih =>
    obtain ⟨⟨id, events⟩, rest, hentries⟩ := List.exists_cons_of_length_eq_add_one hn
    have hget : s.accumulator.get? id = some events :=
      (s.accumulator.get?_eq_some_iff _ _).mpr (by rw [hentries]; simp)
    have hlen : (s.accumulator.delete id).entries.length = n := by
      have := (s.accumulator.perm_entries_delete hget).length_eq
      simp only [List.length_cons] at this
      omega
    obtain ⟨first, tail, rfl⟩ := List.exists_cons_of_ne_nil (h.entries _ _ hget).nonempty
    have hentry : ∃ owner repo synthetic, s.step config (.drainEntry "" false) =
        some { s with
          accumulator := s.accumulator.delete id
          commits := [⟨⟨id, owner, repo, first :: tail, some synthetic⟩, 0⟩] } := by
      refine ⟨first.owner, first.repo,
        syntheticError id "" first ((first :: tail).getLast (by simp)), ?_⟩
      simp only [step, drainEntry, hdrain, awaitsCommit, hc, List.any_nil, and_self, if_true, hentries,
        Bool.false_eq_true, if_false, commitInvocation, hget, List.nil_append]
    obtain ⟨owner, repo, synthetic, hentry⟩ := hentry
    have hsound := sound_step config _ _ _ h hentry
    have hinsert : step config { s with
          accumulator := s.accumulator.delete id
          commits := [⟨⟨id, owner, repo, first :: tail, some synthetic⟩, 0⟩] } (.attempt 0 .ok) =
        some { s with
          accumulator := s.accumulator.delete id
          inserted := s.inserted ++ [⟨id, owner, repo, first :: tail, some synthetic⟩] } := by
      simp [step, attempt, hc]
    obtain ⟨t, hexec, h1, h2, h3, h4⟩ := ih (sound_step config _ _ _ hsound hinsert) hdrain hc hlen
    refine ⟨t, ?_, h1, h2, h3, h4⟩
    rw [drainAll, List.replicate_succ, List.flatten_cons, List.cons_append, List.cons_append,
      List.nil_append]
    exact exec_cons_eq_some.mpr ⟨_, hentry, exec_cons_eq_some.mpr ⟨_, hinsert, hexec⟩⟩

/-- Some shutdown commits everything that was accepted, and a synthetic end for what was left. -/
theorem exists_full_commit (config : EventStoreConfig) (events : List (InvocationEvent V)) :
    ∃ actions t, exec (step config) create actions = some t ∧ t.accepted = events ∧
      t.batches = t.inserted ∧ t.accumulator.entries = [] := by
  obtain ⟨s, hserve, hstopped, hc, hdropped, hnot, haccepted⟩ :=
    exec_serve config events (s := create) rfl rfl
  have hclose : s.step config .drainAndClose = some { s with stopped := true, drain := .draining } := by
    simp [step, hnot, create]
  have hrun : exec (step config) create (serve events ++ [.drainAndClose]) =
      some { s with stopped := true, drain := .draining } :=
    exec_append_eq_some.mpr ⟨s, hserve, by simp [exec, hclose]⟩
  obtain ⟨t, hdrain, hc', hdropped', hentries, haccepted'⟩ :=
    exec_drainAll config s.accumulator.entries.length (sound_exec hrun) rfl hc rfl
  refine ⟨_, t, exec_append_eq_some.mpr ⟨_, hrun, hdrain⟩, ?_, ?_, hentries⟩
  · rw [haccepted']
    simpa [create] using haccepted
  · have hnone : t.dropped = [] := hdropped'.trans hdropped
    simp [batches, hc', hnone]

/-- At most one terminal event per invocation has been committed. -/
def OneTerminal (s : EventStore V) : Prop := ∀ id, terminalRows s.inserted id ≤ 1

theorem terminalRows_inserted_le (s : EventStore V) (id : String) :
    terminalRows s.inserted id ≤ terminalRows s.batches id :=
  (flatMap_sublist (inserted_sublist s) _).countP_le

/-- For any arrival order: no run that accepts these events commits a second terminal event of an
invocation, exactly if no event of an invocation arrives after its terminal event. -/
theorem oneTerminal_iff (config : EventStoreConfig) (events : List (InvocationEvent V)) :
    (∀ actions (s : EventStore V), exec (step config) create actions = some s →
      s.accepted = events → s.OneTerminal) ↔
    events.Pairwise fun a b => a.id = b.id → isTerminal a.kind = false := by
  constructor
  · intro hone
    obtain ⟨actions, t, hrun, haccepted, hbatches, hentries⟩ := exists_full_commit config events
    have hlast : ∀ id, TerminalLast id events := by
      intro id
      by_contra hlate
      have htwo := (weighed_exec hrun id).late (haccepted ▸ hlate)
      have hle := hone actions t hrun haccepted id
      have hget : t.accumulator.get? id = none := by
        simp [OrderedMap.get?, hentries]
      rw [weight, waiting, hget, hbatches] at htwo
      simp only [Option.isSome_none, Bool.false_eq_true, if_false] at htwo
      omega
    rw [List.pairwise_iff_forall_sublist]
    intro a b hab hid
    have hpair := List.pairwise_iff_forall_sublist.mp (hlast a.id) hab hid.symm
    simpa [terminalOf] using hpair
  · intro horder actions s hrun haccepted id
    have hlast : TerminalLast id s.accepted := by
      rw [haccepted]
      refine horder.imp ?_
      intro a b hab hid
      by_cases ha : a.id = id
      · simp [terminalOf, ha, hab (ha.trans hid.symm)]
      · simp [terminalOf, ha]
    have hweight := (weighed_exec hrun id).orderly hlast
    have hle := terminalRows_inserted_le s id
    rw [weight] at hweight
    omega

/-- A late event after the terminal one, then a shutdown. -/
def lateEventThenDrain : List (StoreAction Unit) :=
  [.record (storedEvent "evt_1" 0 "trigger.request"), .record (storedEvent "evt_1" 1 "trigger.response"),
    .record (storedEvent "evt_1" 2 "system.call"), .drainAndClose, .drainEntry "" false,
    .attempt 0 .ok, .attempt 0 .ok, .drainEnd]

theorem lateEventThenDrain_two_terminals :
    ∃ s, exec (step ⟨5⟩) create lateEventThenDrain = some s ∧
      (∀ id, s.accepted.countP (terminalOf id) ≤ 1) ∧ ¬ s.OneTerminal := by
  refine ⟨(exec (step ⟨5⟩) create lateEventThenDrain).get (by decide), by simp, ?_, ?_⟩
  · intro id
    have haccepted : ((exec (step ⟨5⟩) create lateEventThenDrain).get (by decide)).accepted =
        [storedEvent "evt_1" 0 "trigger.request", storedEvent "evt_1" 1 "trigger.response",
          storedEvent "evt_1" 2 "system.call"] := by decide
    rw [haccepted]
    by_cases hid : "evt_1" = id
    · subst hid
      decide
    · rw [countP_terminalOf_of_ne "evt_1" (by decide) hid]
      omega
  · intro hone
    have htwo : terminalRows ((exec (step ⟨5⟩) create lateEventThenDrain).get (by decide)).inserted
        "evt_1" = 2 := by decide
    have hle := hone "evt_1"
    omega

end EventStore

end WorkflowEngine.Runtime
