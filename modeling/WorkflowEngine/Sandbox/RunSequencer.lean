import WorkflowEngine.Lib.OrderedMap
import WorkflowEngine.Sandbox.Protocol
import Mathlib.Order.Bounds.Basic
import Mathlib.Data.List.Range
import Mathlib.Data.List.Induction

/-!
# The main-side run sequencer

Model of `run-sequencer.ts`: `start`, `next` and `finish` over the two
structures `refStack` and `callMap`, and the stamping law of one run window.
The law is stated over the trace of wire events with what `next` returned for
each, never over the sequencer's own state.
-/

namespace WorkflowEngine.Sandbox

open Lib
set_option autoImplicit false

universe u
variable {V : Type u}

structure CallMapEntry where
  openSeq : Nat
  name : String
  kind : String
  closeKind : String
  deriving DecidableEq

/-- The mutable state that the closure of `createRunSequencer` holds. -/
structure RunSequencer where
  seq : Nat
  refStack : List Nat
  callMap : OrderedMap Nat CallMapEntry
  runActive : Bool
  lastSeenTs : Int
  lastSeenAt : String
  deriving DecidableEq

inductive SequencerWarning where
  | dirtyStart (seq refStackDepth callMapSize : Nat)
  | eventOutsideRun (kind name atIso : String)
  | closeWithoutOpen (kind name : String) (callId : Nat)
  | danglingFrame (count : Nat) (kinds : List String)
  deriving DecidableEq

def createRunSequencer : RunSequencer := ⟨0, [], .empty, false, 0, ""⟩

/-- The prefix before the first dot, with `.error` appended. -/
def synthCloseKind (openKind : String) : String :=
  String.ofList (openKind.toList.takeWhile (· ≠ '.')) ++ ".error"

/-- `Array.prototype.lastIndexOf`, with `-1` as `none`. -/
def lastIndexOf (xs : List Nat) (x : Nat) : Option Nat :=
  (xs.reverse.idxOf? x).map fun i => xs.length - 1 - i

/-- The pop-or-splice of `handleClose`. -/
def removeRef (refStack : List Nat) (openSeq : Nat) : List Nat :=
  if refStack.getLast? = some openSeq then refStack.dropLast
  else
    match lastIndexOf refStack openSeq with
    | some idx => refStack.eraseIdx idx
    | none => refStack

def buildSandboxEvent (wire : WireEvent V) (assignedSeq : Nat) (ref : Option Nat) :
    SandboxEvent V :=
  { toEventInfo := wire.toEventInfo, seq := assignedSeq, ref := ref }

structure NextResult (V : Type u) where
  state : RunSequencer
  event : Option (SandboxEvent V)
  warning : Option SequencerWarning

structure FinishResult (V : Type u) where
  state : RunSequencer
  events : List (SandboxEvent V)
  warning : Option SequencerWarning

namespace RunSequencer

def start (s : RunSequencer) : RunSequencer × Option SequencerWarning :=
  if s.seq ≠ 0 ∨ s.refStack.length > 0 ∨ s.callMap.size > 0 then
    ({ s with seq := 0, refStack := [], callMap := .empty, runActive := true },
      some (.dirtyStart s.seq s.refStack.length s.callMap.size))
  else ({ s with runActive := true }, none)

def handleClose (s : RunSequencer) (wire : WireEvent V) (callId : Nat) : NextResult V :=
  match s.callMap.get? callId with
  | none => ⟨s, none, some (.closeWithoutOpen wire.kind wire.name callId)⟩
  | some entry =>
    ⟨{ s with
        seq := s.seq + 1
        refStack := removeRef s.refStack entry.openSeq
        callMap := s.callMap.delete callId },
      some (buildSandboxEvent wire s.seq (some entry.openSeq)), none⟩

def next (s : RunSequencer) (wire : WireEvent V) : NextResult V :=
  if s.runActive then
    let s := { s with lastSeenTs := wire.ts, lastSeenAt := wire.atIso }
    match wire.type with
    | .leaf =>
      ⟨{ s with seq := s.seq + 1 }, some (buildSandboxEvent wire s.seq s.refStack.getLast?), none⟩
    | .openCall callId =>
      ⟨{ s with
          seq := s.seq + 1
          refStack := s.refStack ++ [s.seq]
          callMap := s.callMap.set callId
            ⟨s.seq, wire.name, wire.kind, synthCloseKind wire.kind⟩ },
        some (buildSandboxEvent wire s.seq s.refStack.getLast?), none⟩
    | .closeCall callId => s.handleClose wire callId
  else ⟨s, none, some (.eventOutsideRun wire.kind wire.name wire.atIso)⟩

/-- The death-path loop over the reversed `callMap` values. -/
def synthesise (s : RunSequencer) (closeReason : String) :
    List CallMapEntry → Nat → List (SandboxEvent V)
  | [], _ => []
  | entry :: entries, assignedSeq =>
    { kind := entry.closeKind, name := entry.name, ts := s.lastSeenTs, atIso := s.lastSeenAt,
      input := none, output := none, error := some ⟨closeReason, none, none, none⟩,
      seq := assignedSeq, ref := some entry.openSeq } ::
      synthesise s closeReason entries (assignedSeq + 1)

def finish (s : RunSequencer) (closeReason : Option String) : FinishResult V :=
  let synthesised :=
    match closeReason with
    | none => []
    | some reason => s.synthesise reason s.callMap.values.reverse s.seq
  let warning :=
    match closeReason with
    | none =>
      if s.callMap.size > 0 then
        some (.danglingFrame s.callMap.size (s.callMap.values.map (·.kind)))
      else none
    | some _ => none
  ⟨createRunSequencer, synthesised, warning⟩

/-- The `next` calls of one window, each wire event with what `next` returned for it. -/
def feed (s : RunSequencer) :
    List (WireEvent V) → RunSequencer × List (WireEvent V × Option (SandboxEvent V))
  | [] => (s, [])
  | wire :: wires =>
    let r := s.next wire
    let rest := feed r.state wires
    (rest.1, (wire, r.event) :: rest.2)

structure Window (V : Type u) where
  trace : List (WireEvent V × Option (SandboxEvent V))
  synthesised : List (SandboxEvent V)
  state : RunSequencer

/-- `start()`, one `next` for each wire event, then `finish(opts)`. -/
def window (s : RunSequencer) (wires : List (WireEvent V)) (closeReason : Option String) :
    Window V :=
  let fed := s.start.1.feed wires
  let finished := fed.1.finish closeReason
  ⟨fed.2, finished.events, finished.state⟩

end RunSequencer

/-! ## Open frames, read off the trace -/

abbrev Trace (V : Type u) := List (WireEvent V × Option (SandboxEvent V))

def stamped (tr : Trace V) : List (SandboxEvent V) := tr.filterMap Prod.snd

/-- The call `c` has an open stamped `n`, and no close of `c` was returned since. -/
def LiveOpen (tr : Trace V) (c n : Nat) : Prop :=
  ∃ pre wire event post, tr = pre ++ (wire, some event) :: post ∧
    wire.type = .openCall c ∧ event.seq = n ∧
    ∀ x ∈ post, x.1.type = .closeCall c → x.2 = none

/-- The seqs of the opens not yet closed. -/
def OpenSeqs (tr : Trace V) : Set Nat := {n | ∃ c, LiveOpen tr c n}

def closeRef (x : WireEvent V × Option (SandboxEvent V)) : Option Nat :=
  match x.1.type with
  | .closeCall _ => x.2.bind (·.ref)
  | _ => none

/-- The refs of the closes that `next` returned. -/
def closeRefs (tr : Trace V) : List Nat := tr.filterMap closeRef

theorem liveOpen_nil (c n : Nat) : ¬ LiveOpen ([] : Trace V) c n := by
  rintro ⟨pre, wire, event, post, h, _⟩
  cases pre <;> simp at h

theorem liveOpen_snoc (tr : Trace V) (x : WireEvent V × Option (SandboxEvent V)) (c n : Nat) :
    LiveOpen (tr ++ [x]) c n ↔
      (LiveOpen tr c n ∧ (x.1.type = .closeCall c → x.2 = none)) ∨
      (x.1.type = .openCall c ∧ ∃ event, x.2 = some event ∧ event.seq = n) := by
  constructor
  · rintro ⟨pre, wire, event, post, h, hopen, hseq, hpost⟩
    rcases List.eq_nil_or_concat post with rfl | ⟨post, y, rfl⟩
    · obtain ⟨rfl, hx⟩ := List.append_inj' h rfl
      cases hx
      exact Or.inr ⟨hopen, event, rfl, hseq⟩
    · rw [List.concat_eq_append, ← List.cons_append, ← List.append_assoc] at h
      obtain ⟨rfl, hx⟩ := List.append_inj' h rfl
      cases hx
      refine Or.inl ⟨⟨pre, wire, event, post, rfl, hopen, hseq, ?_⟩, ?_⟩
      · exact fun z hz => hpost z (by simp [hz])
      · exact hpost x (by simp)
  · rintro (⟨⟨pre, wire, event, post, rfl, hopen, hseq, hpost⟩, hx⟩ | ⟨hopen, event, hx, hseq⟩)
    · refine ⟨pre, wire, event, post ++ [x], by simp, hopen, hseq, ?_⟩
      intro z hz
      rcases List.mem_append.mp hz with hz | hz
      · exact hpost z hz
      · rw [List.mem_singleton.mp hz]
        exact hx
    · exact ⟨tr, x.1, event, [], by rw [← hx], hopen, hseq, by simp⟩

theorem liveOpen_mem {tr : Trace V} {c n : Nat} (h : LiveOpen tr c n) :
    c ∈ tr.filterMap (fun x => x.1.type.opens) := by
  obtain ⟨pre, wire, event, post, rfl, hopen, _⟩ := h
  exact List.mem_filterMap.mpr ⟨(wire, some event), by simp, by simp [hopen, WireFraming.opens]⟩

/-! ## The reference stack -/

theorem getElem?_of_lastIndexOf {xs : List Nat} {x i : Nat} (h : lastIndexOf xs x = some i) :
    xs[i]? = some x := by
  obtain ⟨j, hj, rfl⟩ := Option.map_eq_some_iff.mp h
  obtain ⟨hlt, hx, _⟩ := List.idxOf?_eq_some_iff.mp hj
  rw [List.length_reverse] at hlt
  rw [List.getElem_reverse] at hx
  rw [List.getElem?_eq_some_iff]
  exact ⟨by omega, by simpa using hx⟩

theorem not_mem_of_lastIndexOf {xs : List Nat} {x : Nat} (h : lastIndexOf xs x = none) : x ∉ xs := by
  have hr := Option.map_eq_none_iff.mp h
  rw [List.idxOf?_eq_none_iff] at hr
  simpa using hr

/-- Popping, splicing and doing nothing all remove `n` from a stack without repeats. -/
theorem removeRef_eq_filter {xs : List Nat} (hxs : xs.Nodup) (n : Nat) :
    removeRef xs n = xs.filter (· ≠ n) := by
  have herase : xs.erase n = xs.filter (· ≠ n) := by
    rw [hxs.erase_eq_filter]
    apply List.filter_congr
    intro x _
    by_cases hx : x = n <;> simp [hx]
  unfold removeRef
  split
  · rename_i hlast
    obtain ⟨ys, rfl⟩ := List.getLast?_eq_some_iff.mp hlast
    have hn : n ∉ ys := fun hn => (List.nodup_append'.mp hxs).2.2 hn (by simp)
    rw [← herase, List.erase_append_right _ hn]
    simp
  · split
    · rename_i i hi
      obtain ⟨hlt, hx⟩ := List.getElem?_eq_some_iff.mp (getElem?_of_lastIndexOf hi)
      rw [← herase, ← hx, hxs.erase_getElem]
    · rename_i hi
      rw [← herase, List.erase_of_not_mem (not_mem_of_lastIndexOf hi)]

theorem removeRef_subset (xs : List Nat) (n : Nat) : removeRef xs n ⊆ xs := by
  unfold removeRef
  split
  · exact (List.dropLast_sublist xs).subset
  · split
    · exact (List.eraseIdx_sublist xs _).subset
    · exact List.Subset.refl xs

theorem isGreatest_getLast {xs : List Nat} (hxs : xs.Pairwise (· < ·)) {n : Nat}
    (hn : xs.getLast? = some n) : IsGreatest {m | m ∈ xs} n := by
  obtain ⟨ys, rfl⟩ := List.getLast?_eq_some_iff.mp hn
  refine ⟨by simp, ?_⟩
  intro m hm
  rcases List.mem_append.mp hm with hm | hm
  · exact Nat.le_of_lt ((List.pairwise_append.mp hxs).2.2 m hm n (by simp))
  · rw [List.mem_singleton.mp hm]

theorem values_delete_openSeq (m : OrderedMap Nat CallMapEntry) {c : Nat} {entry : CallMapEntry}
    (hm : (m.values.map (·.openSeq)).Nodup) (hc : m.get? c = some entry) :
    (m.delete c).values.map (·.openSeq) =
      (m.values.map (·.openSeq)).filter (· ≠ entry.openSeq) := by
  have hmem := (m.get?_eq_some_iff c entry).mp hc
  simp only [OrderedMap.values, OrderedMap.entries_delete, List.map_map] at hm ⊢
  rw [List.filter_map]
  congr 1
  apply List.filter_congr
  intro x hx
  have hiff : x.1 = c ↔ x.2.openSeq = entry.openSeq := by
    constructor
    · intro h
      have := (m.get?_eq_some_iff x.1 x.2).mpr hx
      rw [h, hc] at this
      cases this
      rfl
    · intro h
      have := List.inj_on_of_nodup_map hm hx hmem h
      rw [this]
  simp [hiff]

/-! ## One step of `next` -/

/-- What the trace so far says about the state of the sequencer. -/
structure Tracks (tr : Trace V) (s : RunSequencer) : Prop where
  active : s.runActive = true
  seqs : (stamped tr).map (·.seq) = List.range s.seq
  refStack_eq : s.refStack = s.callMap.values.map (·.openSeq)
  sorted : s.refStack.Pairwise (· < ·)
  below : ∀ n ∈ s.refStack, n < s.seq
  live : ∀ c n, LiveOpen tr c n ↔ ∃ entry, s.callMap.get? c = some entry ∧ entry.openSeq = n
  closed : (closeRefs tr).Nodup
  closed_below : ∀ n ∈ closeRefs tr, n < s.seq ∧ n ∉ s.refStack

namespace Tracks

theorem mem_refStack_iff {tr : Trace V} {s : RunSequencer} (h : Tracks tr s) (n : Nat) :
    n ∈ s.refStack ↔ n ∈ OpenSeqs tr := by
  rw [h.refStack_eq]
  simp only [OrderedMap.values, List.map_map, List.mem_map, OpenSeqs, Set.mem_ofPred_eq, h.live]
  constructor
  · rintro ⟨e, he, rfl⟩
    exact ⟨e.1, e.2, (s.callMap.get?_eq_some_iff _ _).mpr he, rfl⟩
  · rintro ⟨c, entry, hc, rfl⟩
    exact ⟨(c, entry), (s.callMap.get?_eq_some_iff _ _).mp hc, rfl⟩

theorem refStack_nodup {tr : Trace V} {s : RunSequencer} (h : Tracks tr s) : s.refStack.Nodup :=
  h.sorted.imp fun hlt => Nat.ne_of_lt hlt

theorem fresh {tr : Trace V} {s : RunSequencer} (h : Tracks tr s) {c : Nat}
    (hc : c ∉ tr.filterMap fun x => x.1.type.opens) : s.callMap.get? c = none := by
  cases hget : s.callMap.get? c with
  | none => rfl
  | some entry => exact absurd (liveOpen_mem ((h.live c _).mpr ⟨entry, hget, rfl⟩)) hc

end Tracks

theorem start_eq (s : RunSequencer) :
    s.start.1 = { s with seq := 0, refStack := [], callMap := .empty, runActive := true } := by
  unfold RunSequencer.start
  split
  · rfl
  · rename_i h
    have hseq : s.seq = 0 := by omega
    have hstack : s.refStack = [] := List.length_eq_zero_iff.mp (by omega)
    have hmap : s.callMap = .empty :=
      OrderedMap.ext_entries (List.length_eq_zero_iff.mp (by simp only [OrderedMap.size] at h; omega))
    rw [← hseq, ← hstack, ← hmap]

theorem tracks_start (s : RunSequencer) : Tracks ([] : Trace V) s.start.1 := by
  rw [start_eq]
  exact {
    active := rfl
    seqs := rfl
    refStack_eq := rfl
    sorted := List.Pairwise.nil
    below := by simp
    live := by simp [liveOpen_nil]
    closed := List.nodup_nil
    closed_below := by simp [closeRefs] }

theorem stamped_snoc (tr : Trace V) (x : WireEvent V × Option (SandboxEvent V)) :
    stamped (tr ++ [x]) = stamped tr ++ x.2.toList := by
  cases hx : x.2 <;> simp [stamped, hx]

theorem closeRefs_snoc (tr : Trace V) (x : WireEvent V × Option (SandboxEvent V)) :
    closeRefs (tr ++ [x]) = closeRefs tr ++ (closeRef x).toList := by
  cases hx : closeRef x <;> simp [closeRefs, hx]

theorem next_leaf {s : RunSequencer} (hs : s.runActive = true) {w : WireEvent V}
    (hw : w.type = .leaf) :
    (s.next w).state = { s with seq := s.seq + 1, lastSeenTs := w.ts, lastSeenAt := w.atIso } ∧
    (s.next w).event = some (buildSandboxEvent w s.seq s.refStack.getLast?) := by
  simp [RunSequencer.next, hs, hw]

theorem next_open {s : RunSequencer} (hs : s.runActive = true) {w : WireEvent V} {c : Nat}
    (hw : w.type = .openCall c) :
    (s.next w).state =
      { s with
        seq := s.seq + 1
        refStack := s.refStack ++ [s.seq]
        callMap := s.callMap.set c ⟨s.seq, w.name, w.kind, synthCloseKind w.kind⟩
        lastSeenTs := w.ts
        lastSeenAt := w.atIso } ∧
    (s.next w).event = some (buildSandboxEvent w s.seq s.refStack.getLast?) := by
  simp [RunSequencer.next, hs, hw]

theorem next_close_unknown {s : RunSequencer} (hs : s.runActive = true) {w : WireEvent V} {c : Nat}
    (hw : w.type = .closeCall c) (hc : s.callMap.get? c = none) :
    (s.next w).state = { s with lastSeenTs := w.ts, lastSeenAt := w.atIso } ∧
    (s.next w).event = none := by
  simp [RunSequencer.next, RunSequencer.handleClose, hs, hw, hc]

theorem next_close {s : RunSequencer} (hs : s.runActive = true) {w : WireEvent V} {c : Nat}
    (hw : w.type = .closeCall c) {entry : CallMapEntry} (hc : s.callMap.get? c = some entry) :
    (s.next w).state =
      { s with
        seq := s.seq + 1
        refStack := removeRef s.refStack entry.openSeq
        callMap := s.callMap.delete c
        lastSeenTs := w.ts
        lastSeenAt := w.atIso } ∧
    (s.next w).event = some (buildSandboxEvent w s.seq (some entry.openSeq)) := by
  simp [RunSequencer.next, RunSequencer.handleClose, hs, hw, hc]

theorem next_runActive {s : RunSequencer} (hs : s.runActive = true) (w : WireEvent V) :
    (s.next w).state.runActive = true := by
  cases hw : w.type with
  | leaf => rw [(next_leaf hs hw).1]; exact hs
  | openCall c => rw [(next_open hs hw).1]; exact hs
  | closeCall c =>
    cases hc : s.callMap.get? c with
    | none => rw [(next_close_unknown hs hw hc).1]; exact hs
    | some entry => rw [(next_close hs hw hc).1]; exact hs

theorem next_lastSeenTs {s : RunSequencer} (hs : s.runActive = true) (w : WireEvent V) :
    (s.next w).state.lastSeenTs = w.ts := by
  cases hw : w.type with
  | leaf => rw [(next_leaf hs hw).1]
  | openCall c => rw [(next_open hs hw).1]
  | closeCall c =>
    cases hc : s.callMap.get? c with
    | none => rw [(next_close_unknown hs hw hc).1]
    | some entry => rw [(next_close hs hw hc).1]

/-- What `next` returns is the wire event with a seq and a ref. -/
theorem next_event_info {s : RunSequencer} {w : WireEvent V} {event : SandboxEvent V}
    (h : (s.next w).event = some event) : event.toEventInfo = w.toEventInfo := by
  unfold RunSequencer.next RunSequencer.handleClose at h
  split at h
  · cases hw : w.type with
    | leaf => simp only [hw] at h; cases h; rfl
    | openCall c => simp only [hw] at h; cases h; rfl
    | closeCall c =>
      simp only [hw] at h
      split at h
      · cases h
      · cases h
        rfl
  · cases h

theorem next_inactive {s : RunSequencer} (hs : s.runActive = false) (w : WireEvent V) :
    (s.next w).state = s ∧ (s.next w).event = none := by
  simp [RunSequencer.next, hs]

/-- The greatest seq among the opens not yet closed, or null when there is none. -/
def TopRef (tr : Trace V) (ref : Option Nat) : Prop :=
  (ref = none ∧ OpenSeqs tr = ∅) ∨ ∃ n, ref = some n ∧ IsGreatest (OpenSeqs tr) n

/-- What `next` owes for one wire event, given the trace before it. -/
def EventLaw (before : Trace V) (x : WireEvent V × Option (SandboxEvent V)) : Prop :=
  match x.1.type, x.2 with
  | .closeCall c, none => ∀ n, ¬ LiveOpen before c n
  | .closeCall c, some event => ∃ n, event.ref = some n ∧ LiveOpen before c n
  | _, result => ∃ event, result = some event ∧ TopRef before event.ref

theorem Tracks.topRef {tr : Trace V} {s : RunSequencer} (h : Tracks tr s) :
    TopRef tr s.refStack.getLast? := by
  have hset : {m | m ∈ s.refStack} = OpenSeqs tr := Set.ext h.mem_refStack_iff
  cases hlast : s.refStack.getLast? with
  | none =>
    rw [List.getLast?_eq_none_iff] at hlast
    refine Or.inl ⟨rfl, ?_⟩
    rw [← hset, hlast]
    simp
  | some n => exact Or.inr ⟨n, rfl, hset ▸ isGreatest_getLast h.sorted hlast⟩

theorem Tracks.eventLaw {tr : Trace V} {s : RunSequencer} (h : Tracks tr s) (w : WireEvent V) :
    EventLaw tr (w, (s.next w).event) := by
  cases hw : w.type with
  | leaf =>
    rw [(next_leaf h.active hw).2]
    simpa [EventLaw, hw, buildSandboxEvent] using h.topRef
  | openCall c =>
    rw [(next_open h.active hw).2]
    simpa [EventLaw, hw, buildSandboxEvent] using h.topRef
  | closeCall c =>
    cases hc : s.callMap.get? c with
    | none =>
      rw [(next_close_unknown h.active hw hc).2]
      simp [EventLaw, hw, h.live, hc]
    | some entry =>
      rw [(next_close h.active hw hc).2]
      simp [EventLaw, hw, h.live, hc, buildSandboxEvent]

theorem Tracks.leaf {tr : Trace V} {s : RunSequencer} (h : Tracks tr s) {w : WireEvent V}
    (hw : w.type = .leaf) : Tracks (tr ++ [(w, (s.next w).event)]) (s.next w).state := by
  obtain ⟨hstate, hevent⟩ := next_leaf h.active hw
  rw [hstate, hevent]
  exact {
    active := h.active
    seqs := by simp [stamped_snoc, h.seqs, List.range_succ, buildSandboxEvent]
    refStack_eq := h.refStack_eq
    sorted := h.sorted
    below := fun n hn => Nat.lt_succ_of_lt (h.below n hn)
    live := fun c n => by rw [liveOpen_snoc]; simp [hw, h.live]
    closed := by simpa [closeRefs_snoc, closeRef, hw] using h.closed
    closed_below := by
      intro n hn
      have hb := h.closed_below n (by simpa [closeRefs_snoc, closeRef, hw] using hn)
      exact ⟨Nat.lt_succ_of_lt hb.1, hb.2⟩ }

theorem Tracks.openCall {tr : Trace V} {s : RunSequencer} (h : Tracks tr s) {w : WireEvent V} {c : Nat}
    (hw : w.type = .openCall c) (hfresh : c ∉ tr.filterMap fun x => x.1.type.opens) :
    Tracks (tr ++ [(w, (s.next w).event)]) (s.next w).state := by
  obtain ⟨hstate, hevent⟩ := next_open h.active hw
  have hnone := h.fresh hfresh
  rw [hstate, hevent]
  exact {
    active := h.active
    seqs := by simp [stamped_snoc, h.seqs, List.range_succ, buildSandboxEvent]
    refStack_eq := by
      simp [OrderedMap.values, OrderedMap.entries_set_of_get?_none _ _ _ hnone, h.refStack_eq]
    sorted := by
      simp only [List.pairwise_append, List.pairwise_singleton, List.mem_singleton, true_and]
      exact ⟨h.sorted, fun n hn m hm => hm ▸ h.below n hn⟩
    below := by
      intro n hn
      rcases List.mem_append.mp hn with hn | hn
      · exact Nat.lt_succ_of_lt (h.below n hn)
      · rw [List.mem_singleton.mp hn]
        exact Nat.lt_succ_self _
    live := by
      intro d n
      rw [liveOpen_snoc, OrderedMap.get?_set]
      by_cases hd : d = c
      · subst hd
        simp [hw, h.live, hnone, buildSandboxEvent]
      · simp [hw, h.live, hd, Ne.symm hd]
    closed := by simpa [closeRefs_snoc, closeRef, hw] using h.closed
    closed_below := by
      intro n hn
      have := h.closed_below n (by simpa [closeRefs_snoc, closeRef, hw] using hn)
      refine ⟨Nat.lt_succ_of_lt this.1, ?_⟩
      simp only [List.mem_append, List.mem_singleton, not_or]
      exact ⟨this.2, Nat.ne_of_lt this.1⟩ }

theorem Tracks.closeUnknown {tr : Trace V} {s : RunSequencer} (h : Tracks tr s) {w : WireEvent V}
    {c : Nat} (hw : w.type = .closeCall c) (hc : s.callMap.get? c = none) :
    Tracks (tr ++ [(w, (s.next w).event)]) (s.next w).state := by
  obtain ⟨hstate, hevent⟩ := next_close_unknown h.active hw hc
  rw [hstate, hevent]
  exact {
    active := h.active
    seqs := by simp [stamped_snoc, h.seqs]
    refStack_eq := h.refStack_eq
    sorted := h.sorted
    below := h.below
    live := fun d n => by rw [liveOpen_snoc]; simp [hw, h.live]
    closed := by simpa [closeRefs_snoc, closeRef, hw] using h.closed
    closed_below := by simpa [closeRefs_snoc, closeRef, hw] using h.closed_below }

theorem Tracks.closeCall {tr : Trace V} {s : RunSequencer} (h : Tracks tr s) {w : WireEvent V}
    {c : Nat} (hw : w.type = .closeCall c) {entry : CallMapEntry}
    (hc : s.callMap.get? c = some entry) :
    Tracks (tr ++ [(w, (s.next w).event)]) (s.next w).state := by
  obtain ⟨hstate, hevent⟩ := next_close h.active hw hc
  have hmem : entry.openSeq ∈ s.refStack :=
    (h.mem_refStack_iff _).mpr ⟨c, (h.live c _).mpr ⟨entry, hc, rfl⟩⟩
  have hstack := removeRef_eq_filter h.refStack_nodup entry.openSeq
  have hrefs : closeRefs (tr ++ [(w, (s.next w).event)]) = closeRefs tr ++ [entry.openSeq] := by
    simp [closeRefs_snoc, closeRef, hw, hevent, buildSandboxEvent]
  rw [hevent] at hrefs
  rw [hstate, hevent]
  exact {
    active := h.active
    seqs := by simp [stamped_snoc, h.seqs, List.range_succ, buildSandboxEvent]
    refStack_eq := by
      have hn := h.refStack_nodup
      rw [h.refStack_eq] at hn hstack
      rw [values_delete_openSeq _ hn hc, ← hstack, h.refStack_eq]
    sorted := by
      simp only [hstack]
      exact h.sorted.filter _
    below := by
      intro n hn
      simp only [hstack, List.mem_filter] at hn
      exact Nat.lt_succ_of_lt (h.below n hn.1)
    live := by
      intro d n
      rw [liveOpen_snoc, OrderedMap.get?_delete]
      by_cases hd : d = c
      · simp [hw, hd]
      · simp [hw, h.live, hd, Ne.symm hd]
    closed := by
      rw [hrefs]
      exact List.nodup_append'.mpr ⟨h.closed, by simp, by
        intro n hn hn'
        exact (h.closed_below n hn).2 (List.mem_singleton.mp hn' ▸ hmem)⟩
    closed_below := by
      intro n hn
      rw [hrefs] at hn
      simp only [hstack, List.mem_filter]
      rcases List.mem_append.mp hn with hn | hn
      · have := h.closed_below n hn
        exact ⟨Nat.lt_succ_of_lt this.1, fun hf => this.2 hf.1⟩
      · rw [List.mem_singleton.mp hn]
        exact ⟨Nat.lt_succ_of_lt (h.below _ hmem), by simp⟩ }

theorem Tracks.next {tr : Trace V} {s : RunSequencer} (h : Tracks tr s) (w : WireEvent V)
    (hfresh : ∀ c, w.type = .openCall c → c ∉ tr.filterMap fun x => x.1.type.opens) :
    Tracks (tr ++ [(w, (s.next w).event)]) (s.next w).state := by
  cases hw : w.type with
  | leaf => exact h.leaf hw
  | openCall c => exact h.openCall hw (hfresh c hw)
  | closeCall c =>
    cases hc : s.callMap.get? c with
    | none => exact h.closeUnknown hw hc
    | some entry => exact h.closeCall hw hc

/-! ## A whole window -/

theorem feed_fst (s : RunSequencer) (wires : List (WireEvent V)) :
    (s.feed wires).2.map Prod.fst = wires := by
  induction wires generalizing s with
  | nil => rfl
  | cons w wires ih => simp [RunSequencer.feed, ih]

theorem feed_append (s : RunSequencer) (before after : List (WireEvent V)) :
    s.feed (before ++ after) =
      (((s.feed before).1.feed after).1, (s.feed before).2 ++ ((s.feed before).1.feed after).2) := by
  induction before generalizing s with
  | nil => rfl
  | cons w before ih => simp [RunSequencer.feed, ih]

theorem Tracks.feed {tr : Trace V} {s : RunSequencer} (h : Tracks tr s) (wires : List (WireEvent V))
    (hopens : (tr.filterMap (fun x => x.1.type.opens) ++
      wires.filterMap (fun w => w.type.opens)).Nodup) :
    Tracks (tr ++ (s.feed wires).2) (s.feed wires).1 ∧
    ∀ pre x post, (s.feed wires).2 = pre ++ x :: post → EventLaw (tr ++ pre) x := by
  induction wires generalizing tr s with
  | nil => simpa [RunSequencer.feed] using h
  | cons w wires ih =>
    have hfresh : ∀ c, w.type = .openCall c → c ∉ tr.filterMap fun x => x.1.type.opens := by
      intro c hc hmem
      have hw : c ∈ (w :: wires).filterMap fun w => w.type.opens :=
        List.mem_filterMap.mpr ⟨w, by simp, by simp [hc, WireFraming.opens]⟩
      exact (List.nodup_append'.mp hopens).2.2 hmem hw
    have hstep := h.next w hfresh
    have hrest : ((tr ++ [(w, (s.next w).event)]).filterMap (fun x => x.1.type.opens) ++
        wires.filterMap (fun w => w.type.opens)).Nodup := by
      cases hw : w.type.opens <;> simpa [List.filterMap_cons, hw] using hopens
    obtain ⟨htracks, hlaw⟩ := ih hstep hrest
    refine ⟨by simpa [RunSequencer.feed] using htracks, ?_⟩
    intro pre x post hx
    cases pre with
    | nil =>
      simp only [RunSequencer.feed, List.nil_append, List.cons.injEq] at hx
      rw [List.append_nil, ← hx.1]
      exact h.eventLaw w
    | cons y pre =>
      simp only [RunSequencer.feed, List.cons_append, List.cons.injEq] at hx
      have := hlaw pre x post hx.2
      rw [hx.1] at this
      simpa using this

theorem synthesise_seq (s : RunSequencer) (reason : String) (entries : List CallMapEntry) (n : Nat) :
    (s.synthesise reason entries n : List (SandboxEvent V)).map (·.seq) =
      List.range' n entries.length := by
  induction entries generalizing n with
  | nil => rfl
  | cons entry entries ih => simp [RunSequencer.synthesise, ih, List.range'_succ]

/-- A synthesised close ends one of the open frames, with the timestamp of the last event seen. -/
theorem mem_synthesise {s : RunSequencer} {reason : String} {entries : List CallMapEntry} {n : Nat}
    {event : SandboxEvent V} (h : event ∈ s.synthesise reason entries n) :
    ∃ entry ∈ entries, ∃ seq, n ≤ seq ∧
      event = {
        kind := entry.closeKind, name := entry.name, ts := s.lastSeenTs, atIso := s.lastSeenAt,
        input := none, output := none, error := some ⟨reason, none, none, none⟩, seq := seq,
        ref := some entry.openSeq } := by
  induction entries generalizing n with
  | nil => cases h
  | cons entry entries ih =>
    rcases List.mem_cons.mp h with heq | h
    · exact ⟨entry, List.mem_cons_self, n, Nat.le_refl _, heq⟩
    · obtain ⟨entry', hmem, seq, hle, heq⟩ := ih h
      exact ⟨entry', List.mem_cons_of_mem _ hmem, seq, Nat.le_of_succ_le hle, heq⟩

theorem mem_finish {sequencer : RunSequencer} {closeReason : Option String} {event : SandboxEvent V}
    (h : event ∈ (sequencer.finish closeReason).events) :
    ∃ k entry seq reason, sequencer.callMap.get? k = some entry ∧ sequencer.seq ≤ seq ∧
      event = {
        kind := entry.closeKind, name := entry.name, ts := sequencer.lastSeenTs,
        atIso := sequencer.lastSeenAt, input := none, output := none,
        error := some ⟨reason, none, none, none⟩, seq := seq, ref := some entry.openSeq } := by
  cases closeReason with
  | none => cases h
  | some reason =>
    obtain ⟨entry, hentry, seq, hseq, heq⟩ := mem_synthesise h
    obtain ⟨k, hk⟩ := OrderedMap.get?_of_mem_values (List.mem_reverse.mp hentry)
    exact ⟨k, entry, seq, reason, hk, hseq, heq⟩

theorem synthesise_ref (s : RunSequencer) (reason : String) (entries : List CallMapEntry) (n : Nat) :
    (s.synthesise reason entries n : List (SandboxEvent V)).map (·.ref) =
      entries.map fun entry => some entry.openSeq := by
  induction entries generalizing n with
  | nil => rfl
  | cons entry entries ih => simp [RunSequencer.synthesise, ih]

/-- The synthesised closes go down the reference stack. -/
theorem finish_ref {tr : Trace V} {s : RunSequencer} (h : Tracks tr s) (reason : String) :
    (s.finish (V := V) (some reason)).events.map (·.ref) = s.refStack.reverse.map some := by
  rw [h.refStack_eq]
  simp [RunSequencer.finish, synthesise_ref, Function.comp_def]

/-- Every seq and ref that one window hands out, against the trace alone. -/
structure StampingLaw (tr : Trace V) (synthesised : List (SandboxEvent V))
    (closeReason : Option String) : Prop where
  gapless : (stamped tr ++ synthesised).map (·.seq) =
    List.range (stamped tr ++ synthesised).length
  events : ∀ pre x post, tr = pre ++ x :: post → EventLaw pre x
  closedOnce : (closeRefs tr ++ synthesised.filterMap (·.ref)).Nodup
  cleanEnd : closeReason = none → synthesised = []
  deathEnd : closeReason.isSome → ∃ ns : List Nat,
    synthesised.map (·.ref) = ns.map some ∧ ns.Pairwise (· > ·) ∧ ∀ n, n ∈ ns ↔ n ∈ OpenSeqs tr

theorem Tracks.finish {tr : Trace V} {s : RunSequencer} (h : Tracks tr s)
    (hlaw : ∀ pre x post, tr = pre ++ x :: post → EventLaw pre x) (closeReason : Option String) :
    StampingLaw tr (s.finish closeReason).events closeReason := by
  cases closeReason with
  | none =>
    have hnil : (s.finish (V := V) none).events = [] := rfl
    rw [hnil]
    exact {
      gapless := by
        have hlen := congrArg List.length h.seqs
        simp only [List.length_map, List.length_range] at hlen
        simp [h.seqs, hlen]
      events := hlaw
      closedOnce := by simpa using h.closed
      cleanEnd := fun _ => rfl
      deathEnd := by simp }
  | some reason =>
    have href := finish_ref h reason
    have hrefs : (s.finish (V := V) (some reason)).events.filterMap (·.ref) = s.refStack.reverse := by
      have := congrArg (List.filterMap id) href
      simpa [List.filterMap_map, Function.comp_def] using this
    exact {
      gapless := by
        have hlen := congrArg List.length h.seqs
        have hsyn := congrArg List.length
          (synthesise_seq (V := V) s reason s.callMap.values.reverse s.seq)
        simp only [List.length_map, List.length_range, List.length_range'] at hlen hsyn
        simp only [RunSequencer.finish, List.map_append, List.length_append, h.seqs, synthesise_seq,
          hlen, hsyn]
        rw [List.range_eq_range', List.range_eq_range']
        simpa using List.range'_append_1 (s := 0) (m := s.seq) (n := s.callMap.values.reverse.length)
      events := hlaw
      closedOnce := by
        rw [hrefs]
        refine List.nodup_append'.mpr ⟨h.closed, List.nodup_reverse.mpr h.refStack_nodup, ?_⟩
        intro n hn hn'
        exact (h.closed_below n hn).2 (List.mem_reverse.mp hn')
      cleanEnd := by simp
      deathEnd := by
        intro _
        refine ⟨s.refStack.reverse, href, List.pairwise_reverse.mpr h.sorted, ?_⟩
        intro n
        rw [List.mem_reverse, h.mem_refStack_iff] }

/-- Two states that stamp alike: only the last-seen timestamps may differ. -/
def SameFrames (s t : RunSequencer) : Prop :=
  t = { s with lastSeenTs := t.lastSeenTs, lastSeenAt := t.lastSeenAt }

theorem SameFrames.next {s t : RunSequencer} (h : SameFrames s t) (w : WireEvent V) :
    SameFrames (s.next w).state (t.next w).state ∧ (s.next w).event = (t.next w).event := by
  rw [h]
  unfold RunSequencer.next
  cases ha : s.runActive with
  | false => simp [SameFrames, ha]
  | true =>
    cases w.type with
    | leaf => simp [SameFrames]
    | openCall c => simp [SameFrames]
    | closeCall c =>
      simp only [if_true, RunSequencer.handleClose]
      cases s.callMap.get? c <;> simp [SameFrames]

theorem SameFrames.feed {s t : RunSequencer} (h : SameFrames s t) (wires : List (WireEvent V)) :
    SameFrames (s.feed wires).1 (t.feed wires).1 ∧ (s.feed wires).2 = (t.feed wires).2 := by
  induction wires generalizing s t with
  | nil => exact ⟨h, rfl⟩
  | cons w wires ih =>
    obtain ⟨hstate, hevent⟩ := h.next w
    obtain ⟨hrest, htrace⟩ := ih hstate
    exact ⟨hrest, by simp [RunSequencer.feed, hevent, htrace]⟩

theorem synthesise_stamps (s t : RunSequencer) (reason : String) (entries : List CallMapEntry)
    (n : Nat) :
    (s.synthesise reason entries n : List (SandboxEvent V)).map (fun e => (e.seq, e.ref)) =
      (t.synthesise reason entries n : List (SandboxEvent V)).map (fun e => (e.seq, e.ref)) := by
  induction entries generalizing n with
  | nil => rfl
  | cons entry entries ih => simp [RunSequencer.synthesise, ih]

theorem SameFrames.finish {s t : RunSequencer} (h : SameFrames s t) (closeReason : Option String) :
    (s.finish (V := V) closeReason).events.map (fun e => (e.seq, e.ref)) =
      (t.finish (V := V) closeReason).events.map (fun e => (e.seq, e.ref)) := by
  cases closeReason with
  | none => rfl
  | some reason =>
    rw [h]
    exact synthesise_stamps s _ reason _ _

/-- A close that names no live open: the rest of the window is stamped as if it were absent. -/
theorem feed_unknown_close (s : RunSequencer) (before after : List (WireEvent V)) {w : WireEvent V}
    {c : Nat} (hw : w.type = .closeCall c) (hs : (s.feed before).1.runActive = true)
    (hc : (s.feed before).1.callMap.get? c = none) :
    SameFrames (s.feed (before ++ after)).1 (s.feed (before ++ w :: after)).1 ∧
    (s.feed (before ++ w :: after)).2 =
      (s.feed before).2 ++ (w, none) :: ((s.feed before).1.feed after).2 := by
  obtain ⟨hstate, hevent⟩ := next_close_unknown hs hw hc
  have hsame : SameFrames (s.feed before).1 ((s.feed before).1.next w).state := by
    rw [hstate]
    rfl
  obtain ⟨hrest, htrace⟩ := hsame.feed after
  rw [feed_append, feed_append]
  refine ⟨hrest, ?_⟩
  simp only [RunSequencer.feed, hevent, htrace]

/-- One run window, from any state the sequencer may be in. -/
theorem window_stamping (s : RunSequencer) (wires : List (WireEvent V)) (closeReason : Option String)
    (hopens : (wires.filterMap fun w => w.type.opens).Nodup) :
    let run := s.window wires closeReason
    run.trace.map Prod.fst = wires ∧
    StampingLaw run.trace run.synthesised closeReason ∧
    (∀ before w after c, wires = before ++ w :: after → w.type = .closeCall c →
      (∀ n, ¬ LiveOpen (run.trace.take before.length) c n) →
      let without := s.window (before ++ after) closeReason
      run.trace = without.trace.take before.length ++ (w, none) :: without.trace.drop before.length ∧
      run.synthesised.map (fun e => (e.seq, e.ref)) =
        without.synthesised.map (fun e => (e.seq, e.ref))) ∧
    ∀ (wires' : List (WireEvent V)) closeReason',
      run.state.window wires' closeReason' = createRunSequencer.window wires' closeReason' := by
  have htracks (ws : List (WireEvent V)) (hws : (ws.filterMap fun w => w.type.opens).Nodup) :=
    (tracks_start (V := V) s).feed ws (by simpa using hws)
  refine ⟨feed_fst _ _, ?_, ?_, fun _ _ => rfl⟩
  · obtain ⟨h, hlaw⟩ := htracks wires hopens
    exact h.finish (by simpa using hlaw) closeReason
  · rintro before w after c rfl hw hdead
    have hlen : (s.start.1.feed before).2.length = before.length := by
      simpa using congrArg List.length (feed_fst s.start.1 before)
    have hbefore : (before.filterMap fun w => w.type.opens).Nodup := by
      rw [List.filterMap_append] at hopens
      exact (List.nodup_append'.mp hopens).1
    have h := (htracks before hbefore).1
    have htake (ws : List (WireEvent V)) :
        (s.window (before ++ ws) closeReason).trace.take before.length = (s.start.1.feed before).2 := by
      simp only [RunSequencer.window, feed_append, ← hlen, List.take_left]
    have hdrop (ws : List (WireEvent V)) :
        (s.window (before ++ ws) closeReason).trace.drop before.length =
          ((s.start.1.feed before).1.feed ws).2 := by
      simp only [RunSequencer.window, feed_append, ← hlen, List.drop_left]
    have hnone : (s.start.1.feed before).1.callMap.get? c = none := by
      rw [htake] at hdead
      cases hget : (s.start.1.feed before).1.callMap.get? c with
      | none => rfl
      | some entry => exact absurd ((h.live c _).mpr ⟨entry, hget, rfl⟩) (hdead _)
    obtain ⟨hsame, htrace⟩ := feed_unknown_close s.start.1 before after hw h.active hnone
    refine ⟨?_, (hsame.finish closeReason).symm⟩
    rw [htake, hdrop]
    exact htrace

def frame (type : WireFraming) : WireEvent Unit :=
  { kind := "system.request", name := "fetch", ts := 0, atIso := "", input := none, output := none,
    error := none, type := type }

/-- Two overlapping calls closed out of order, a stray close, and a worker death. -/
theorem window_stamping_overlapping :
    let wires := [frame (.openCall 0), frame (.openCall 1), frame (.closeCall 0), frame (.closeCall 7),
      frame .leaf]
    (wires.filterMap fun w => w.type.opens).Nodup ∧
    StampingLaw (createRunSequencer.window wires (some "worker exited")).trace
      (createRunSequencer.window wires (some "worker exited")).synthesised (some "worker exited") :=
  ⟨by decide, (window_stamping createRunSequencer _ (some "worker exited") (by decide)).2.1⟩

end WorkflowEngine.Sandbox
