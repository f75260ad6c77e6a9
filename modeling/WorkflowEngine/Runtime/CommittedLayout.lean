import WorkflowEngine.Runtime.Flamegraph
import WorkflowEngine.Runtime.TriggerFrame

/-!
# The flame graph of a committed invocation

From the events of one run, however it ends, through the event store with any
interleaving of other invocations and of its shutdown, to `computeLayout` on the
rows that were inserted. The store takes an invocation out of the accumulator
with its terminal event or with a synthetic one of the drain; only the first
refers to the trigger request.
-/

namespace WorkflowEngine.Runtime

open Lib Sandbox
set_option autoImplicit false

universe u
variable {V : Type u}

/-- The rows of one invocation. -/
def committed (s : EventStore V) (id : String) : List (InvocationEvent V) :=
  (s.inserted.flatMap (·.events)).filter fun e => e.id = id

def isDrain : StoreAction V → Bool
  | .drainAndClose => true
  | _ => false

/-- What the executor recorded of an invocation before the store began to shut down. -/
def recordedBeforeDrain (id : String) (actions : List (StoreAction V)) : List (InvocationEvent V) :=
  (actions.takeWhile fun a => !isDrain a).filterMap (ownRecord id)

/-- What a step does to the flag of the shutdown and to the events that the store has taken. -/
theorem step_stopped_accepted {config : EventStoreConfig} {s t : EventStore V} {a : StoreAction V}
    (h : s.step config a = some t) : t.stopped = (s.stopped || isDrain a) ∧
      (t.accepted = s.accepted ∨ ∃ event, a = .record event ∧ t.accepted = s.accepted ++ [event]) := by
  cases a with
  | record event =>
    cases h
    cases hs : s.stopped with
    | true =>
      rw [EventStore.record_stopped hs, hs]
      exact ⟨rfl, Or.inl rfl⟩
    | false =>
      obtain ⟨hstopped, haccepted, _⟩ := EventStore.record_running hs event
      exact ⟨hstopped, Or.inr ⟨event, rfl, haccepted⟩⟩
  | attempt i outcome =>
    obtain ⟨c, _, rfl | ⟨reason, rfl⟩ | rfl⟩ := EventStore.attempt_cases h <;> simp [isDrain]
  | drainAndClose =>
    simp only [EventStore.step, Option.ite_none_right_eq_some, Option.some.injEq] at h
    rw [← h.2]
    simp [isDrain]
  | drainEntry atIso pastDeadline =>
    obtain ⟨_, _, _, _, _, rfl | ⟨_, rfl⟩ | ⟨_, _, _, _, _, _, rfl⟩⟩ := EventStore.drainEntry_cases h <;>
      simp [isDrain]
  | drainEnd =>
    simp only [EventStore.step, EventStore.drainEnd, Option.ite_none_right_eq_some,
      Option.some.injEq] at h
    rw [← h.2]
    simp [isDrain]

/-- How the store holds the invocation of `r`, of which it has taken `served`. As long as `r` waits,
or if the drain took it, nothing terminal has been served; every other batch holds something
terminal. -/
structure Tracked (r : InvocationEvent V) (served : List (InvocationEvent V)) (s : EventStore V) :
    Prop where
  sound : s.Sound
  accepted : ∀ e ∈ s.accepted, e.id = r.id → e ∈ served
  waiting : ∀ events, s.accumulator.get? r.id = some events → r ∈ events →
    ∀ e ∈ served, isTerminal e.kind = false
  drained : ∀ b ∈ s.batches, b.synthetic ≠ none → r ∈ b.recorded →
    ∀ e ∈ served, isTerminal e.kind = false
  closed : ∀ b ∈ s.batches, b.synthetic = none → ∃ e ∈ b.recorded, isTerminal e.kind = true
  synthetic : ∀ b ∈ s.batches, ∀ e, b.synthetic = some e → e.kind = "trigger.error" ∧ e.ref = none

theorem tracked_create (r : InvocationEvent V) : Tracked r [] (EventStore.create : EventStore V) where
  sound := EventStore.sound_create
  accepted := by simp [EventStore.create]
  waiting := by simp
  drained := by simp
  closed := by simp [EventStore.create, EventStore.batches]
  synthetic := by simp [EventStore.create, EventStore.batches]

theorem synthetic_none_of_running {s : EventStore V} (h : s.Sound) (hs : s.stopped = false)
    {b : Batch V} (hb : b ∈ s.batches) : b.synthetic = none := by
  cases hsyn : b.synthetic with
  | none => rfl
  | some e =>
    have hmem : e.id ∈ EventStore.syntheticIds s.batches :=
      List.mem_filterMap.mpr ⟨b, hb, by simp [hsyn]⟩
    rw [EventStore.no_synthetic_of_running h hs] at hmem
    cases hmem

/-- Steps that only move batches between flight, database and report. -/
theorem Tracked.of_perm {r : InvocationEvent V} {served : List (InvocationEvent V)} {s t : EventStore V}
    (h : Tracked r served s) (hsound : t.Sound) (haccepted : t.accepted = s.accepted)
    (hacc : t.accumulator = s.accumulator) (hb : t.batches.Perm s.batches) : Tracked r served t where
  sound := hsound
  accepted := haccepted ▸ h.accepted
  waiting := hacc ▸ h.waiting
  drained := fun b hmem => h.drained b (hb.mem_iff.mp hmem)
  closed := fun b hmem => h.closed b (hb.mem_iff.mp hmem)
  synthetic := fun b hmem => h.synthetic b (hb.mem_iff.mp hmem)

theorem Tracked.record {r : InvocationEvent V} {served : List (InvocationEvent V)} {s : EventStore V}
    (h : Tracked r served s) (hs : s.stopped = false) (event : InvocationEvent V)
    (hfirst : event = r → served = []) :
    Tracked r (served ++ (ownRecord r.id (.record event)).toList) (s.record event) := by
  have hsound := EventStore.sound_record h.sound event
  have hrunning := (EventStore.record_running hs event).1
  have hnone : ∀ b ∈ (s.record event).batches, b.synthetic = none :=
    fun b => synthetic_none_of_running hsound hrunning
  have haccepted : ∀ e ∈ (s.record event).accepted, e.id = r.id →
      e ∈ served ++ (ownRecord r.id (.record event)).toList := by
    intro e he hid
    rw [(EventStore.record_running hs event).2.1] at he
    rcases List.mem_append.mp he with he | he
    · exact List.mem_append_left _ (h.accepted e he hid)
    · rw [List.mem_singleton] at he
      subst he
      simp [ownRecord, hid]
  refine {
    sound := hsound
    accepted := haccepted
    waiting := ?_
    drained := fun b hb hsyn => absurd (hnone b hb) hsyn
    closed := ?_
    synthetic := fun b hb e he => by rw [hnone b hb] at he; cases he }
  · intro events hget hr e he
    cases hkind : isTerminal event.kind with
    | true =>
      obtain ⟨owner, repo, hrec⟩ := EventStore.record_terminal hs hkind
      rw [hrec, OrderedMap.get?_delete] at hget
      split at hget
      · cases hget
      · rename_i hid
        rw [ownRecord, if_neg (Ne.symm hid), Option.toList_none, List.append_nil] at he
        exact h.waiting events hget hr e he
    | false =>
      rw [EventStore.record_open hs hkind, OrderedMap.get?_set] at hget
      split at hget
      · rename_i hid
        cases hget
        rw [ownRecord, if_pos hid.symm, Option.toList_some] at he
        rcases List.mem_append.mp he with he | he
        · rcases List.mem_append.mp hr with hr | hr
          · cases hold : s.accumulator.get? event.id with
            | none => simp [hold] at hr
            | some old =>
              rw [hold, Option.getD_some] at hr
              exact h.waiting old (hid ▸ hold) hr e he
          · rw [hfirst (List.mem_singleton.mp hr).symm] at he
            cases he
        · rw [List.mem_singleton.mp he]
          exact hkind
      · rename_i hid
        rw [ownRecord, if_neg (Ne.symm hid), Option.toList_none, List.append_nil] at he
        exact h.waiting events hget hr e he
  · intro b hb hsyn
    cases hkind : isTerminal event.kind with
    | true =>
      obtain ⟨owner, repo, hrec⟩ := EventStore.record_terminal hs hkind
      rw [hrec] at hb
      rcases List.mem_cons.mp ((EventStore.batches_push s _ _ _).mem_iff.mp hb) with rfl | hb
      · exact ⟨event, by simp, hkind⟩
      · exact h.closed b hb hsyn
    | false =>
      rw [EventStore.record_open hs hkind] at hb
      exact h.closed b hb hsyn

theorem Tracked.drainEntry {r : InvocationEvent V} {served : List (InvocationEvent V)}
    {s t : EventStore V} (h : Tracked r served s) {atIso : String} {pastDeadline : Bool}
    (ht : s.drainEntry atIso pastDeadline = some t) : Tracked r served t := by
  have hsound := EventStore.sound_drainEntry h.sound ht
  obtain ⟨_, id, events, rest, hentries, hcases⟩ := EventStore.drainEntry_cases ht
  have hget : s.accumulator.get? id = some events :=
    (s.accumulator.get?_eq_some_iff _ _).mpr (by rw [hentries]; simp)
  have hentry := h.sound.entries id events hget
  rcases hcases with rfl | ⟨rfl, _⟩ | ⟨first, tail, last, owner, repo, _, rfl⟩
  · exact { h with sound := hsound }
  · exact absurd rfl hentry.nonempty
  · have hpush := EventStore.batches_push s
      ⟨id, owner, repo, events, some (EventStore.syntheticError id atIso first last)⟩
      (s.accumulator.delete id) s.accepted
    refine {
      sound := hsound
      accepted := h.accepted
      waiting := ?_
      drained := ?_
      closed := ?_
      synthetic := ?_ }
    · intro events' hget'
      rw [OrderedMap.get?_delete] at hget'
      split at hget'
      · cases hget'
      · exact h.waiting events' hget'
    · intro b hb hsyn hr
      rcases List.mem_cons.mp (hpush.mem_iff.mp hb) with rfl | hb
      · have hid : r.id = id := hentry.sameId r hr
        exact h.waiting events (hid ▸ hget) hr
      · exact h.drained b hb hsyn hr
    · intro b hb hsyn
      rcases List.mem_cons.mp (hpush.mem_iff.mp hb) with rfl | hb
      · cases hsyn
      · exact h.closed b hb hsyn
    · intro b hb e he
      rcases List.mem_cons.mp (hpush.mem_iff.mp hb) with rfl | hb
      · cases he
        exact ⟨rfl, rfl⟩
      · exact h.synthetic b hb e he

theorem Tracked.step {config : EventStoreConfig} {r : InvocationEvent V}
    {served : List (InvocationEvent V)} {s t : EventStore V} {a : StoreAction V}
    (h : Tracked r served s) (hfirst : s.stopped = false → a = .record r → served = [])
    (ht : s.step config a = some t) :
    Tracked r (if s.stopped then served else served ++ (ownRecord r.id a).toList) t := by
  have hsound := EventStore.sound_step config s a t h.sound ht
  cases a with
  | record event =>
    cases ht
    cases hs : s.stopped with
    | true => simpa [EventStore.record_stopped hs] using h
    | false => simpa using h.record hs event fun heq => hfirst hs (by rw [heq])
  | attempt i outcome =>
    have hperm := EventStore.attempt_perm ht
    obtain ⟨c, _, rfl | ⟨reason, rfl⟩ | rfl⟩ := EventStore.attempt_cases ht <;>
      simpa [ownRecord] using h.of_perm hsound rfl rfl hperm
  | drainAndClose =>
    simp only [EventStore.step, Option.ite_none_right_eq_some, Option.some.injEq] at ht
    obtain ⟨_, rfl⟩ := ht
    simpa [ownRecord] using h.of_perm hsound rfl rfl (List.Perm.refl _)
  | drainEntry atIso pastDeadline => simpa [ownRecord] using h.drainEntry ht
  | drainEnd =>
    simp only [EventStore.step, EventStore.drainEnd, Option.ite_none_right_eq_some,
      Option.some.injEq] at ht
    obtain ⟨_, rfl⟩ := ht
    simpa [ownRecord] using h.of_perm hsound rfl rfl (List.Perm.refl _)

theorem Tracked.exec_stopped {config : EventStoreConfig} {r : InvocationEvent V}
    {served : List (InvocationEvent V)} {s t : EventStore V} (h : Tracked r served s)
    (hs : s.stopped = true) {actions : List (StoreAction V)}
    (ht : exec (EventStore.step config) s actions = some t) : Tracked r served t := by
  have hkeep (s : EventStore V) (a : StoreAction V) (t : EventStore V)
      (hinv : s.stopped = true ∧ Tracked r served s) (hstep : s.step config a = some t) :
      t.stopped = true ∧ Tracked r served t := by
    refine ⟨by rw [(step_stopped_accepted hstep).1, hinv.1, Bool.true_or], ?_⟩
    have := hinv.2.step (by simp [hinv.1]) hstep
    rwa [hinv.1] at this
  exact (exec_invariant hkeep ⟨hs, h⟩ ht).2

/-- `r` is the first event of its invocation and is recorded once. -/
theorem Tracked.exec {config : EventStoreConfig} {r : InvocationEvent V}
    {served rest : List (InvocationEvent V)} {s t : EventStore V} (h : Tracked r served s)
    (hs : s.stopped = false) (hr : r ∉ rest) {actions : List (StoreAction V)}
    (hown : served ++ actions.filterMap (ownRecord r.id) <+: r :: rest)
    (ht : Lib.exec (EventStore.step config) s actions = some t) :
    Tracked r (served ++ recordedBeforeDrain r.id actions) t := by
  induction actions generalizing s served with
  | nil =>
    cases ht
    simpa [recordedBeforeDrain] using h
  | cons a actions ih =>
    obtain ⟨m, hm, ht⟩ := exec_cons_eq_some.mp ht
    have hfirst : s.stopped = false → a = .record r → served = [] := by
      rintro _ rfl
      cases served with
      | nil => rfl
      | cons x served =>
        refine absurd ?_ hr
        obtain ⟨_, hrest⟩ := List.cons_prefix_cons.mp hown
        exact hrest.subset (by simp [ownRecord])
    have hstep := h.step hfirst hm
    rw [hs, if_neg Bool.false_ne_true] at hstep
    have hstopped := (step_stopped_accepted hm).1
    rw [hs, Bool.false_or] at hstopped
    cases hdrain : isDrain a with
    | true =>
      have hnil : (ownRecord r.id a).toList = [] := by
        cases a <;> simp_all [isDrain, ownRecord]
      rw [hnil, List.append_nil] at hstep
      have hend := hstep.exec_stopped (hstopped.trans hdrain) ht
      simpa [recordedBeforeDrain, hdrain] using hend
    | false =>
      have hcons : recordedBeforeDrain r.id (a :: actions) =
          (ownRecord r.id a).toList ++ recordedBeforeDrain r.id actions := by
        cases ha : ownRecord r.id a <;> simp [recordedBeforeDrain, hdrain, ha]
      rw [hcons, ← List.append_assoc]
      refine ih hstep (hstopped.trans hdrain) ?_ ht
      rw [List.append_assoc]
      cases ha : ownRecord r.id a <;> simpa [ha] using hown

/-! ## From the rows to the layout -/

theorem Tracked.committed_cases {r : InvocationEvent V} {served : List (InvocationEvent V)}
    {s : EventStore V} (h : Tracked r served s) {e : InvocationEvent V} (he : e ∈ committed s r.id) :
    e ∈ served ∨ (e.kind = "trigger.error" ∧ e.ref = none) := by
  obtain ⟨hrow, hid⟩ := List.mem_filter.mp he
  obtain ⟨b, hb, heb⟩ := List.mem_flatMap.mp hrow
  have hbatch : b ∈ s.batches := (EventStore.inserted_sublist s).subset hb
  rcases List.mem_append.mp heb with heb | heb
  · refine Or.inl (h.accepted e ?_ (by simpa using hid))
    exact h.sound.accounted.mem_iff.mp
      (List.mem_append_right _ (List.mem_flatMap.mpr ⟨b, hbatch, heb⟩))
  · exact Or.inr (h.synthetic b hbatch e (Option.mem_toList.mp heb))

/-- The batch of `r` was closed by a terminal event of its invocation, if one was served. -/
theorem Tracked.committed_terminal {r : InvocationEvent V} {served : List (InvocationEvent V)}
    {s : EventStore V} (h : Tracked r served s) (hr : r ∈ committed s r.id)
    (hkind : r.kind = "trigger.request") {e : InvocationEvent V} (he : e ∈ served)
    (hterm : isTerminal e.kind = true) :
    ∃ x ∈ committed s r.id, x ∈ served ∧ isTerminal x.kind = true := by
  obtain ⟨hrow, _⟩ := List.mem_filter.mp hr
  obtain ⟨b, hb, hrb⟩ := List.mem_flatMap.mp hrow
  have hbatch : b ∈ s.batches := (EventStore.inserted_sublist s).subset hb
  have hrec : r ∈ b.recorded := by
    rcases List.mem_append.mp hrb with hrb | hrb
    · exact hrb
    · have := (h.synthetic b hbatch r (Option.mem_toList.mp hrb)).1
      rw [hkind] at this
      exact absurd this (by decide)
  have hid : r.id = b.id := (h.sound.batches b hbatch).sameId r hrec
  have hopen : b.synthetic = none := by
    by_contra hne
    rw [h.drained b hbatch hne hrec e he] at hterm
    cases hterm
  obtain ⟨x, hx, hxterm⟩ := h.closed b hbatch hopen
  have hxid : x.id = r.id := ((h.sound.batches b hbatch).sameId x hx).trans hid.symm
  refine ⟨x, List.mem_filter.mpr ⟨List.mem_flatMap.mpr ⟨b, hb, List.mem_append_left _ hx⟩,
    by simpa using hxid⟩, h.accepted x ?_ hxid, hxterm⟩
  exact h.sound.accounted.mem_iff.mp (List.mem_append_right _ (List.mem_flatMap.mpr ⟨b, hbatch, hx⟩))

/-- `computeLayout` returns a layout, neither `null` nor an exception. -/
def LaidOut (view : InputView V) (events : List (InvocationEvent V)) : Prop :=
  ∃ layout, computeLayout view events = .layout layout

theorem laidOut_iff {view : InputView V} {events : List (InvocationEvent V)}
    (hback : ∀ e ∈ events, ∀ r, e.ref = some r → r < e.seq) :
    LaidOut view events ↔ ∃ trigger, findTrigger events = some trigger ∧
      ∃ terminal, findTerminal events trigger = some terminal := by
  constructor
  · rintro ⟨layout, h⟩
    obtain ⟨_, trigger, terminal, htrigger, hterminal, _⟩ := computeLayout_eq_layout h
    exact ⟨trigger, htrigger, terminal, hterminal⟩
  · rintro ⟨trigger, htrigger, terminal, hterminal⟩
    obtain ⟨places, hplaces⟩ := exists_classifyAll hback
    exact ⟨layOut view events places trigger terminal, by
      simp only [computeLayout, htrigger, hterminal, hplaces]⟩

/-- The rows of an invocation, `r` its trigger request. -/
theorem Tracked.laidOut_iff {r : InvocationEvent V} {served : List (InvocationEvent V)}
    {s : EventStore V} (h : Tracked r served s) (view : InputView V)
    (hstamps : ∀ e ∈ served, FramedStamp e.toSandboxEvent) (hr : r ∈ committed s r.id)
    (hserved : r ∈ served) (hkind : r.kind = "trigger.request") :
    LaidOut view (committed s r.id) ↔ ∃ e ∈ served, isTerminal e.kind = true := by
  have hback : ∀ e ∈ committed s r.id, ∀ n, e.ref = some n → n < e.seq := by
    intro e he n hn
    rcases h.committed_cases he with he | ⟨_, href⟩
    · exact (hstamps e he).back n hn
    · rw [href] at hn
      cases hn
  obtain ⟨hseq, href⟩ := (hstamps r hserved).request hkind
  rw [Runtime.laidOut_iff hback]
  constructor
  · rintro ⟨trigger, _, terminal, hterminal⟩
    have hmem := List.mem_of_find?_eq_some hterminal
    have hprop := List.find?_some hterminal
    simp only [Bool.and_eq_true, Bool.or_eq_true, decide_eq_true_eq] at hprop
    rcases h.committed_cases hmem with hterm | ⟨_, hnone⟩
    · refine ⟨terminal, hterm, ?_⟩
      rcases hprop.1 with hk | hk <;> rw [hk] <;> decide
    · rw [hnone] at hprop
      cases hprop.2
  · rintro ⟨e, he, hterm⟩
    obtain ⟨x, hx, hxserved, hxterm⟩ := h.committed_terminal hr hkind he hterm
    obtain ⟨hclose, hxref⟩ := (hstamps x hxserved).terminal hxterm
    obtain ⟨trigger, htrigger⟩ := Option.isSome_iff_exists.mp
      (List.find?_isSome.mpr ⟨r, hr, by simp [hkind, href]⟩ : (findTrigger (committed s r.id)).isSome)
    have htprop := List.find?_some htrigger
    simp only [Bool.and_eq_true, decide_eq_true_eq] at htprop
    have htseq : trigger.seq = 0 := by
      rcases h.committed_cases (List.mem_of_find?_eq_some htrigger) with ht | ⟨hk, _⟩
      · exact ((hstamps trigger ht).request htprop.1).1
      · rw [hk] at htprop
        exact absurd htprop.1 (by decide)
    refine ⟨trigger, htrigger, Option.isSome_iff_exists.mp (List.find?_isSome.mpr ⟨x, hx, ?_⟩)⟩
    rw [htseq, hxref]
    simpa [isTriggerClose] using hclose

theorem mem_accepted_exec {config : EventStoreConfig} {s t : EventStore V}
    {actions : List (StoreAction V)} (ht : exec (EventStore.step config) s actions = some t)
    {e : InvocationEvent V} (he : e ∈ t.accepted) : e ∈ s.accepted ∨ .record e ∈ actions := by
  induction actions generalizing s with
  | nil =>
    cases ht
    exact Or.inl he
  | cons a actions ih =>
    obtain ⟨m, hm, ht⟩ := exec_cons_eq_some.mp ht
    rcases ih ht with hmem | hmem
    · rcases (step_stopped_accepted hm).2 with heq | ⟨event, rfl, heq⟩
      · exact Or.inl (heq ▸ hmem)
      · rw [heq] at hmem
        rcases List.mem_append.mp hmem with hmem | hmem
        · exact Or.inl hmem
        · rw [List.mem_singleton.mp hmem]
          exact Or.inr List.mem_cons_self
    · exact Or.inr (List.mem_cons_of_mem a hmem)

/-- A trigger request among the rows of an invocation was recorded. -/
theorem mem_records_of_committed {config : EventStoreConfig} {t : EventStore V}
    {actions : List (StoreAction V)}
    (ht : exec (EventStore.step config) EventStore.create actions = some t) {id : String}
    {e : InvocationEvent V} (he : e ∈ committed t id) (hkind : isTerminal e.kind = false) :
    e.id = id ∧ e ∈ actions.filterMap (ownRecord id) := by
  obtain ⟨hrow, hid⟩ := List.mem_filter.mp he
  have hid : e.id = id := by simpa using hid
  obtain ⟨b, hb, heb⟩ := List.mem_flatMap.mp hrow
  have hsound := EventStore.sound_exec ht
  have hbatch : b ∈ t.batches := (EventStore.inserted_sublist t).subset hb
  have hrec : e ∈ b.recorded := by
    rcases List.mem_append.mp heb with heb | heb
    · exact heb
    · rw [((hsound.batches b hbatch).synthetic e (Option.mem_toList.mp heb)).2] at hkind
      cases hkind
  have haccepted : e ∈ t.accepted := hsound.accounted.mem_iff.mp
    (List.mem_append_right _ (List.mem_flatMap.mpr ⟨b, hbatch, hrec⟩))
  rcases mem_accepted_exec ht haccepted with h | h
  · cases h
  · exact ⟨hid, List.mem_filterMap.mpr ⟨_, h, by simp [ownRecord, hid]⟩⟩

theorem recordedBeforeDrain_subset (id : String) (actions : List (StoreAction V)) :
    recordedBeforeDrain id actions ⊆ actions.filterMap (ownRecord id) :=
  ((List.takeWhile_sublist _).filterMap _).subset

/-- Seqs that count from zero: the event with seq `0` is the first, and the only one. -/
theorem eq_cons_of_seqs {events : List (InvocationEvent V)} {n : Nat}
    (hseqs : events.map (·.seq) = List.range n) {r : InvocationEvent V} (hr : r ∈ events)
    (hzero : r.seq = 0) : ∃ rest, events = r :: rest ∧ r ∉ rest := by
  have hnodup : (events.map (·.seq)).Nodup := hseqs ▸ List.nodup_range
  cases events with
  | nil => cases hr
  | cons x rest =>
    cases n with
    | zero => cases hseqs
    | succ n =>
      rw [List.range_succ_eq_map, List.map_cons] at hseqs
      obtain ⟨hx, _⟩ := List.cons.inj hseqs
      have heq : r = x := List.inj_on_of_nodup_map hnodup hr List.mem_cons_self (hzero.trans hx.symm)
      subst heq
      refine ⟨rest, rfl, ?_⟩
      intro hmem
      rw [List.map_cons, List.nodup_cons] at hnodup
      exact hnodup.1 (List.mem_map_of_mem hmem)

/-- Whatever ends the run and however the store is interleaved: if the trigger request of an
invocation is committed, its flame graph is drawn exactly if a terminal event of the run was
recorded before the store began to shut down. -/
theorem laidOut_iff_terminal_recorded (config : EventStoreConfig) (view : InputView V)
    (ops : PayloadOps V) (req : RunRequest V) (sequencer : RunSequencer)
    (timers : OrderedMap Nat TimerKind) (plaintexts : List String) (body : List (BodyStep V))
    (ending : RunEnd V) (info : InvocationMeta V) {actions : List (StoreAction V)} {t : EventStore V}
    (hexec : exec (EventStore.step config) EventStore.create actions = some t)
    (hown : actions.filterMap (ownRecord info.id) <+:
      invocationEvents ops req sequencer timers plaintexts body ending info)
    (hrequest : ∃ e ∈ committed t info.id, e.kind = "trigger.request") :
    LaidOut view (committed t info.id) ↔
      ∃ e ∈ recordedBeforeDrain info.id actions, isTerminal e.kind = true := by
  obtain ⟨⟨n, hseqs⟩, hstamps⟩ :=
    framed_invocationEvents ops req sequencer timers plaintexts body ending info
  obtain ⟨r, hr, hkind⟩ := hrequest
  have hopen : isTerminal r.kind = false := by
    rw [hkind]
    decide
  obtain ⟨hid, hrecord⟩ := mem_records_of_committed hexec hr hopen
  have hmem := hown.subset hrecord
  have hzero := ((hstamps r hmem).1.request hkind).1
  obtain ⟨rest, hevents, hrest⟩ := eq_cons_of_seqs hseqs hmem hzero
  rw [hevents] at hown
  rw [← hid] at hown hr ⊢
  have htracked := (tracked_create r).exec rfl hrest (by simpa using hown) hexec
  rw [List.nil_append] at htracked
  refine htracked.laidOut_iff view ?_ hr ?_ hkind
  · intro e he
    have hmem' := hown.subset (recordedBeforeDrain_subset r.id actions he)
    rw [← hevents] at hmem'
    exact (hstamps e hmem').1
  · rcases htracked.committed_cases hr with hserved | ⟨hk, _⟩
    · exact hserved
    · rw [hk] at hkind
      exact absurd hkind (by decide)

def unitView : InputView Unit := ⟨fun _ => none, fun _ => none, fun _ => none⟩

/-- The events of an order whose worker crashes in its first request. -/
def crashedOrder : List (InvocationEvent Unit) :=
  invocationEvents unitOps okRequest createRunSequencer .empty []
    [.request ⟨0, ""⟩ .system "fetch" none] (.death 2 (.other "crash:boom")) orderInfo

def commitOrder : List (StoreAction Unit) := crashedOrder.map .record ++ [.attempt 0 .ok]

theorem laidOut_iff_terminal_recorded_crash :
    ∃ t, exec (EventStore.step ⟨5⟩) EventStore.create commitOrder = some t ∧
      (∃ e ∈ committed t "evt_1", e.kind = "trigger.request") ∧
      LaidOut unitView (committed t "evt_1") := by
  have hexec : exec (EventStore.step ⟨5⟩) EventStore.create commitOrder =
      some ((exec (EventStore.step ⟨5⟩) EventStore.create commitOrder).get (by decide)) := by simp
  refine ⟨_, hexec, by decide, ?_⟩
  exact (laidOut_iff_terminal_recorded ⟨5⟩ unitView unitOps okRequest createRunSequencer .empty []
    [.request ⟨0, ""⟩ .system "fetch" none] (.death 2 (.other "crash:boom")) orderInfo hexec
    (by decide) (by decide)).mpr (by decide)

/-- The shutdown finds the order with its request recorded. -/
def drainOrder : List (StoreAction Unit) :=
  (crashedOrder.take 1).map .record ++ [.drainAndClose, .drainEntry "" false, .attempt 0 .ok, .drainEnd]

/-- The synthetic terminal event of the drain refers to nothing, so `computeLayout` gives `null`. -/
theorem drained_not_laidOut :
    ∃ t, exec (EventStore.step ⟨5⟩) EventStore.create drainOrder = some t ∧
      drainOrder.filterMap (ownRecord "evt_1") <+: crashedOrder ∧
      (committed t "evt_1").map (fun e => (e.kind, e.ref)) =
        [("trigger.request", none), ("trigger.error", none)] ∧
      ¬ LaidOut unitView (committed t "evt_1") := by
  have hexec : exec (EventStore.step ⟨5⟩) EventStore.create drainOrder =
      some ((exec (EventStore.step ⟨5⟩) EventStore.create drainOrder).get (by decide)) := by simp
  refine ⟨_, hexec, by decide, by decide, ?_⟩
  rintro ⟨layout, h⟩
  obtain ⟨_, trigger, terminal, _, hterminal, _⟩ := computeLayout_eq_layout h
  have hrefs : ∀ e ∈ committed ((exec (EventStore.step ⟨5⟩) EventStore.create drainOrder).get
      (by decide)) "evt_1", e.ref = none := by decide
  have href := hrefs terminal (List.mem_of_find?_eq_some hterminal)
  have hfound := List.find?_some hterminal
  simp [href] at hfound

end WorkflowEngine.Runtime
