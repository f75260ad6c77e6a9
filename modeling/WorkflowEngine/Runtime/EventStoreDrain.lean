import WorkflowEngine.Runtime.EventStore
import Mathlib.Data.List.Count

/-!
# What the drain of the event store accounts for

Every accepted event is in exactly one place: the accumulator, a commit in
flight, the database, or a `commit-dropped` report. `drainAndClose` empties the
accumulator but waits only for the commits it starts itself.
-/

namespace WorkflowEngine.Runtime

open Lib Sandbox
set_option autoImplicit false

universe u
variable {V : Type u}

namespace EventStore

/-- The events of each invocation that waits in the accumulator. -/
structure EntrySound (id : String) (events : List (InvocationEvent V)) : Prop where
  nonempty : events ≠ []
  sameId : ∀ e ∈ events, e.id = id
  open_ : ∀ e ∈ events, isTerminal e.kind = false

structure BatchSound (b : Batch V) : Prop where
  nonempty : b.recorded ≠ []
  sameId : ∀ e ∈ b.recorded, e.id = b.id
  synthetic : ∀ e, b.synthetic = some e → e.id = b.id ∧ isTerminal e.kind = true

def syntheticIds (bs : List (Batch V)) : List String := bs.filterMap fun b => b.synthetic.map (·.id)

structure Sound (s : EventStore V) : Prop where
  accounted : s.held.Perm s.accepted
  stopped_iff : s.stopped = false ↔ s.drain = .notStarted
  entries : ∀ id events, s.accumulator.get? id = some events → EntrySound id events
  batches : ∀ b ∈ s.batches, BatchSound b
  synthetics : (syntheticIds s.batches).Nodup
  drained : ∀ id ∈ syntheticIds s.batches, s.stopped = true ∧ s.accumulator.get? id = none

theorem mem_syntheticIds_perm {bs cs : List (Batch V)} (h : bs.Perm cs) (id : String) :
    id ∈ syntheticIds bs ↔ id ∈ syntheticIds cs := (h.filterMap _).mem_iff

theorem perm_held_of_batches {s t : EventStore V} (hacc : t.accumulator = s.accumulator)
    (hb : t.batches.Perm s.batches) : t.held.Perm s.held := by
  simp only [held, hacc]
  exact (hb.flatMap_right _).append_left _

/-- Steps that only move batches between flight, database and report. -/
theorem Sound.of_perm {s t : EventStore V} (h : Sound s) (hacc : t.accumulator = s.accumulator)
    (hstopped : t.stopped = s.stopped) (hdrain : t.drain = s.drain) (haccepted : t.accepted = s.accepted)
    (hb : t.batches.Perm s.batches) : Sound t where
  accounted := by
    rw [haccepted]
    exact (perm_held_of_batches hacc hb).trans h.accounted
  stopped_iff := by rw [hstopped, hdrain]; exact h.stopped_iff
  entries := by rw [hacc]; exact h.entries
  batches := fun b hb' => h.batches b (hb.mem_iff.mp hb')
  synthetics := (hb.filterMap _).nodup_iff.mpr h.synthetics
  drained := by
    intro id hid
    rw [hstopped, hacc]
    exact h.drained id ((mem_syntheticIds_perm hb id).mp hid)

theorem sound_attempt {config : EventStoreConfig} {s t : EventStore V} {i : Nat}
    {outcome : InsertOutcome} (h : Sound s) (ht : s.attempt config i outcome = some t) : Sound t := by
  have hperm := attempt_perm ht
  obtain ⟨c, _, rfl | ⟨reason, rfl⟩ | rfl⟩ := attempt_cases ht
  · exact h.of_perm rfl rfl rfl rfl hperm
  · exact h.of_perm rfl rfl rfl rfl hperm
  · exact h.of_perm rfl rfl rfl rfl hperm

theorem perm_flatMap_delete (m : OrderedMap String (List (InvocationEvent V))) (id : String) :
    (m.entries.flatMap Prod.snd).Perm
      ((m.get? id).getD [] ++ (m.delete id).entries.flatMap Prod.snd) := by
  cases hget : m.get? id with
  | none => simp [m.delete_of_get?_none id hget]
  | some events => simpa using (m.perm_entries_delete hget).flatMap_right Prod.snd

theorem perm_flatMap_push (m : OrderedMap String (List (InvocationEvent V)))
    (event : InvocationEvent V) :
    ((m.set event.id ((m.get? event.id).getD [] ++ [event])).entries.flatMap Prod.snd).Perm
      (m.entries.flatMap Prod.snd ++ [event]) := by
  refine ((m.perm_entries_set _ _).flatMap_right Prod.snd).trans ?_
  simp only [List.flatMap_cons]
  refine List.Perm.trans ?_ ((perm_flatMap_delete m event.id).append_right [event]).symm
  rw [List.append_assoc, List.append_assoc]
  exact List.perm_append_comm.append_left _

/-- The entry that an event joins. -/
theorem EntrySound.push {s : EventStore V} (h : Sound s) {event : InvocationEvent V}
    (e : InvocationEvent V) (he : e ∈ (s.accumulator.get? event.id).getD [] ++ [event]) :
    e.id = event.id ∧ (isTerminal event.kind = false → isTerminal e.kind = false) := by
  rcases List.mem_append.mp he with he | he
  · cases hget : s.accumulator.get? event.id with
    | none => simp [hget] at he
    | some events =>
      simp only [hget, Option.getD_some] at he
      have hs := h.entries _ _ hget
      exact ⟨hs.sameId e he, fun _ => hs.open_ e he⟩
  · rw [List.mem_singleton.mp he]
    exact ⟨rfl, id⟩

theorem no_synthetic_of_running {s : EventStore V} (h : Sound s) (hs : s.stopped = false) :
    syntheticIds s.batches = [] := by
  rw [List.eq_nil_iff_forall_not_mem]
  intro id hid
  have := (h.drained id hid).1
  rw [hs] at this
  cases this

theorem batches_push (s : EventStore V) (b : Batch V)
    (accumulator : OrderedMap String (List (InvocationEvent V))) (accepted : List (InvocationEvent V)) :
    ({ s with
      accumulator := accumulator
      commits := s.commits ++ [⟨b, 0⟩]
      accepted := accepted } : EventStore V).batches.Perm (b :: s.batches) := by
  simp only [batches, List.map_append, List.map_cons, List.map_nil, List.append_assoc]
  exact List.perm_middle

/-- An invocation leaves the accumulator as one batch. -/
theorem Sound.evict {s : EventStore V} (h : Sound s) (b : Batch V) (extra : List (InvocationEvent V))
    (hrec : b.recorded = (s.accumulator.get? b.id).getD [] ++ extra) (hb : BatchSound b)
    (hsyn : b.synthetic ≠ none → s.stopped = true ∧ s.accumulator.get? b.id ≠ none) :
    Sound { s with
      accumulator := s.accumulator.delete b.id
      commits := s.commits ++ [⟨b, 0⟩]
      accepted := s.accepted ++ extra } := by
  have hperm := batches_push s b (s.accumulator.delete b.id) (s.accepted ++ extra)
  have hfresh : b.synthetic ≠ none → b.id ∉ syntheticIds s.batches :=
    fun hne hid => (hsyn hne).2 (h.drained _ hid).2
  have hids : ∀ e, b.synthetic = some e →
      syntheticIds (b :: s.batches) = b.id :: syntheticIds s.batches := by
    intro e he
    simp [syntheticIds, he, (hb.synthetic e he).1]
  have hnone : b.synthetic = none → syntheticIds (b :: s.batches) = syntheticIds s.batches := by
    intro he
    simp [syntheticIds, he]
  exact {
    accounted := by
      refine List.Perm.trans ?_ (h.accounted.append_right extra)
      simp only [held]
      refine ((hperm.flatMap_right _).append_left _).trans ?_
      rw [List.flatMap_cons, hrec]
      refine List.Perm.trans ?_
        (((perm_flatMap_delete s.accumulator b.id).append_right _).append_right extra).symm
      simp only [List.append_assoc]
      exact (List.perm_append_comm_assoc _ _ _).trans
        ((List.perm_append_comm.append_left _).append_left _)
    stopped_iff := h.stopped_iff
    entries := by
      intro id events hget
      rw [OrderedMap.get?_delete] at hget
      split at hget
      · cases hget
      · exact h.entries id events hget
    batches := by
      intro c hc
      rcases List.mem_cons.mp (hperm.mem_iff.mp hc) with rfl | hc
      · exact hb
      · exact h.batches c hc
    synthetics := by
      rw [syntheticIds, (hperm.filterMap _).nodup_iff]
      cases hsome : b.synthetic with
      | none => rw [← syntheticIds, hnone hsome]; exact h.synthetics
      | some e =>
        rw [← syntheticIds, hids e hsome, List.nodup_cons]
        exact ⟨hfresh (by simp [hsome]), h.synthetics⟩
    drained := by
      intro id hid
      rw [mem_syntheticIds_perm hperm] at hid
      have hold : id ∈ syntheticIds s.batches →
          s.stopped = true ∧ (s.accumulator.delete b.id).get? id = none := by
        intro hmem
        refine ⟨(h.drained id hmem).1, ?_⟩
        rw [OrderedMap.get?_delete, (h.drained id hmem).2]
        simp
      cases hsome : b.synthetic with
      | none => exact hold (hnone hsome ▸ hid)
      | some e =>
        rw [hids e hsome] at hid
        rcases List.mem_cons.mp hid with rfl | hid
        · exact ⟨(hsyn (by simp [hsome])).1, by simp⟩
        · exact hold hid }

theorem sound_record {s : EventStore V} (h : Sound s) (event : InvocationEvent V) :
    Sound (s.record event) := by
  cases hs : s.stopped with
  | true => rw [record_stopped hs]; exact h
  | false =>
    cases hkind : isTerminal event.kind with
    | false =>
      rw [record_open hs hkind]
      exact {
        accounted := by
          refine List.Perm.trans ?_ (h.accounted.append_right [event])
          simp only [held]
          refine ((perm_flatMap_push s.accumulator event).append_right _).trans ?_
          rw [List.append_assoc, List.append_assoc]
          exact List.perm_append_comm.append_left _
        stopped_iff := h.stopped_iff
        entries := by
          intro id events hget
          rw [OrderedMap.get?_set] at hget
          split at hget
          · rename_i hid
            cases hget
            subst hid
            exact ⟨by simp, fun e he => (EntrySound.push h e he).1,
              fun e he => (EntrySound.push h e he).2 hkind⟩
          · exact h.entries id events hget
        batches := h.batches
        synthetics := h.synthetics
        drained := by
          intro id hid
          have hmem : id ∈ syntheticIds s.batches := hid
          rw [no_synthetic_of_running h hs] at hmem
          cases hmem }
    | true =>
      obtain ⟨owner, repo, hrec⟩ := record_terminal hs hkind
      rw [hrec]
      exact h.evict ⟨event.id, owner, repo, _, none⟩ [event] rfl
        ⟨by simp, fun e he => (EntrySound.push h e he).1, by simp⟩ (by simp)

theorem sound_drainEntry {s t : EventStore V} (h : Sound s) {atIso : String} {pastDeadline : Bool}
    (ht : s.drainEntry atIso pastDeadline = some t) : Sound t := by
  obtain ⟨hdrain, id, events, rest, hentries, hcases⟩ := drainEntry_cases ht
  have hstopped : s.stopped = true := by
    by_contra hs
    rw [h.stopped_iff.mp (by simpa using hs)] at hdrain
    cases hdrain
  have hget : s.accumulator.get? id = some events :=
    (s.accumulator.get?_eq_some_iff _ _).mpr (by rw [hentries]; simp)
  have hentry := h.entries _ _ hget
  rcases hcases with rfl | ⟨rfl, _⟩ | ⟨first, tail, last, owner, repo, _, rfl⟩
  · exact {
      accounted := h.accounted
      stopped_iff := by simp [hstopped]
      entries := h.entries
      batches := h.batches
      synthetics := h.synthetics
      drained := h.drained }
  · exact absurd rfl hentry.nonempty
  · have hb : BatchSound (⟨id, owner, repo, events, some (syntheticError id atIso first last)⟩ : Batch V) :=
      ⟨hentry.nonempty, hentry.sameId, by rintro e ⟨⟩; exact ⟨rfl, rfl⟩⟩
    simpa using h.evict ⟨id, owner, repo, events, _⟩ [] (by simp [hget]) hb
      (by simp [hstopped, hget])

theorem sound_step (config : EventStoreConfig) (s : EventStore V) (a : StoreAction V) (t : EventStore V)
    (h : Sound s) (ht : s.step config a = some t) : Sound t := by
  cases a with
  | record event => cases ht; exact sound_record h event
  | attempt i outcome => exact sound_attempt h ht
  | drainAndClose =>
    simp only [step, Option.ite_none_right_eq_some, Option.some.injEq] at ht
    obtain ⟨_, rfl⟩ := ht
    exact {
      accounted := h.accounted
      stopped_iff := by simp
      entries := h.entries
      batches := h.batches
      synthetics := h.synthetics
      drained := fun id hid => ⟨rfl, (h.drained id hid).2⟩ }
  | drainEntry atIso pastDeadline => exact sound_drainEntry h ht
  | drainEnd =>
    simp only [step, drainEnd, Option.ite_none_right_eq_some, Option.some.injEq] at ht
    obtain ⟨⟨hdrain, _⟩, rfl⟩ := ht
    refine ⟨h.accounted, ?_, h.entries, h.batches, h.synthetics, h.drained⟩
    have := h.stopped_iff
    rw [hdrain] at this
    simpa using this

theorem sound_create : Sound (create : EventStore V) where
  accounted := List.Perm.refl _
  stopped_iff := by simp [create]
  entries := by simp [create]
  batches := by simp [create, batches]
  synthetics := List.nodup_nil
  drained := by simp [create, batches, syntheticIds]

theorem sound_exec {config : EventStoreConfig} {actions : List (StoreAction V)} {s : EventStore V}
    (h : exec (step config) create actions = some s) : Sound s :=
  exec_invariant (sound_step config) sound_create h

/-- Every event that `record` accepted was inserted or reported as dropped. -/
def Reported (s : EventStore V) : Prop :=
  ∀ e ∈ s.accepted, (∃ b ∈ s.inserted, e ∈ b.recorded) ∨ ∃ d ∈ s.dropped, e ∈ d.1.recorded

theorem held_nodup {s : EventStore V} (h : Sound s)
    (hdistinct : (s.accepted.map fun e => (e.id, e.seq)).Nodup) : s.held.Nodup :=
  h.accounted.nodup_iff.mpr (hdistinct.of_map _)

theorem inserted_sublist (s : EventStore V) : s.inserted.Sublist s.batches :=
  (List.sublist_append_right _ _).trans (List.sublist_append_left _ _)

theorem flatMap_sublist {α β : Type*} {xs ys : List α} (h : xs.Sublist ys) (f : α → List β) :
    (xs.flatMap f).Sublist (ys.flatMap f) := by
  induction h with
  | slnil => exact List.Sublist.refl _
  | cons a _ ih => exact ih.trans (List.sublist_append_right _ _)
  | cons_cons a _ ih => exact ih.append_left _

/-- With nothing in flight and nothing accumulated, everything has been reported. -/
theorem reported_of_quiet {s : EventStore V} (h : Sound s) (hacc : s.accumulator.entries = [])
    (hcommits : s.commits = []) : s.Reported := by
  intro e he
  have hheld := h.accounted.mem_iff.mpr he
  simp only [held, hacc, List.flatMap_nil, List.nil_append, batches, hcommits, List.map_nil,
    List.mem_flatMap, List.mem_append, List.mem_map] at hheld
  obtain ⟨b, hb | ⟨d, hd, rfl⟩, hmem⟩ := hheld
  · exact Or.inl ⟨b, hb, hmem⟩
  · exact Or.inr ⟨d, hd, hmem⟩

/-- An event whose commit is in flight is neither in the database nor in a report. -/
theorem commits_nil_of_reported {s : EventStore V} (h : Sound s)
    (hdistinct : (s.accepted.map fun e => (e.id, e.seq)).Nodup) (hreported : s.Reported) :
    s.commits = [] := by
  rw [List.eq_nil_iff_forall_not_mem]
  intro c hc
  have hb : c.batch ∈ s.commits.map (·.batch) := List.mem_map_of_mem hc
  obtain ⟨e, he⟩ := List.exists_mem_of_ne_nil _
    (h.batches c.batch (List.mem_append_left _ (List.mem_append_left _ hb))).nonempty
  have hflight : e ∈ (s.commits.map (·.batch)).flatMap (·.recorded) :=
    List.mem_flatMap.mpr ⟨c.batch, hb, he⟩
  have hsplit := held_nodup h hdistinct
  simp only [held, batches, List.append_assoc, List.flatMap_append] at hsplit
  have hdisjoint := (List.nodup_append'.mp (List.nodup_append'.mp hsplit).2.1).2.2
  have haccepted : e ∈ s.accepted := by
    refine h.accounted.mem_iff.mp (List.mem_append_right _ ?_)
    exact List.mem_flatMap.mpr ⟨c.batch, List.mem_append_left _ (List.mem_append_left _ hb), he⟩
  refine hdisjoint hflight ?_
  rcases hreported e haccepted with ⟨b, hb, hmem⟩ | ⟨d, hd, hmem⟩
  · exact List.mem_append_left _ (List.mem_flatMap.mpr ⟨b, hb, hmem⟩)
  · exact List.mem_append_right _ (List.mem_flatMap.mpr ⟨d.1, List.mem_map_of_mem hd, hmem⟩)

end EventStore

def storedEvent (id : String) (seq : Nat) (kind : String) : InvocationEvent Unit where
  kind := kind
  id := id
  seq := seq
  ref := none
  atIso := ""
  ts := 0
  owner := "acme"
  repo := "shop"
  workflow := "orders"
  workflowSha := "sha"
  name := "handler"
  input := none
  output := none
  error := none
  metadata := none

namespace EventStore

instance (s : EventStore Unit) : Decidable s.Reported :=
  inferInstanceAs (Decidable (∀ e ∈ s.accepted, _))

/-- The commit of a terminal event waits for its insert when the process shuts down. -/
def drainDuringCommit : List (StoreAction Unit) :=
  [.record (storedEvent "evt_1" 0 "trigger.request"), .record (storedEvent "evt_1" 1 "trigger.response"),
    .drainAndClose, .drainEnd]

/-- The same shutdown after the insert has settled. -/
def drainAfterCommit : List (StoreAction Unit) :=
  [.record (storedEvent "evt_1" 0 "trigger.request"), .record (storedEvent "evt_1" 1 "trigger.response"),
    .attempt 0 .failed, .attempt 0 .ok, .record (storedEvent "evt_2" 0 "trigger.request"),
    .drainAndClose, .drainEntry "" false, .attempt 0 .constraintViolation]

end EventStore

end WorkflowEngine.Runtime
