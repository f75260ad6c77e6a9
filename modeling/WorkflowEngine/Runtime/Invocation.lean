import WorkflowEngine.Runtime.EventStoreTerminal
import WorkflowEngine.Runtime.PluginRun

/-!
# One invocation, from the hooks of its run to the event store

The executor records the stamped events of a run one after the other and
`invoke` waits for all of them. The store commits an invocation when it sees a
terminal kind, so everything is committed or reported exactly if the last
stamped event is terminal. The first half of this module says when that is, in
terms of the run; the second half follows the records through the store.
-/

namespace WorkflowEngine.Runtime

open Lib Sandbox
set_option autoImplicit false

universe u
variable {V : Type u}

/-- The last event is terminal, or there is none. -/
def endsTerminal (kinds : List String) : Bool :=
  match kinds.getLast? with
  | none => true
  | some kind => isTerminal kind

theorem endsTerminal_snoc (kinds : List String) (kind : String) :
    endsTerminal (kinds ++ [kind]) = isTerminal kind := by
  simp [endsTerminal]

theorem endsTerminal_of_open {kinds : List String} (hne : kinds ≠ [])
    (h : ∀ kind ∈ kinds, isTerminal kind = false) : endsTerminal kinds = false := by
  rw [endsTerminal, List.getLast?_eq_some_getLast hne]
  exact h _ (List.getLast_mem hne)

/-! ## What one posted event does to the sequencer -/

theorem feed_snoc (s : RunSequencer) (wires : List (WireEvent V)) (w : WireEvent V) :
    s.feed (wires ++ [w]) =
      (((s.feed wires).1.next w).state, (s.feed wires).2 ++ [(w, ((s.feed wires).1.next w).event)]) := by
  rw [feed_append]
  rfl

theorem stampedEvents_snoc (sequencer : RunSequencer) (wires : List (WireEvent V)) (w : WireEvent V) :
    stampedEvents sequencer (wires ++ [w]) =
      stampedEvents sequencer wires ++
        ((sequencer.start.1.feed wires).1.next w).event.toList := by
  rw [stampedEvents, feed_snoc, stamped_snoc]
  rfl

theorem next_kind {s : RunSequencer} {w : WireEvent V} {event : SandboxEvent V}
    (h : (s.next w).event = some event) : event.kind = w.kind := by
  rw [next_event_info h]

/-- Only an open or a close of callId `0` touches the frame of callId `0`. -/
theorem next_frame {s : RunSequencer} (hs : s.runActive = true) {w : WireEvent V}
    (hopen : w.type ≠ .openCall 0) :
    ((s.next w).state.callMap.get? 0).isSome =
      if w.type = .closeCall 0 then false else (s.callMap.get? 0).isSome := by
  cases hw : w.type with
  | leaf => rw [(next_leaf hs hw).1]; simp
  | openCall c =>
    have hc : 0 ≠ c := by
      rintro rfl
      exact hopen hw
    rw [(next_open hs hw).1]
    simp [OrderedMap.get?_set_of_ne _ _ _ hc]
  | closeCall c =>
    cases hc : s.callMap.get? c with
    | none =>
      rw [(next_close_unknown hs hw hc).1]
      by_cases h0 : c = 0
      · subst h0
        simp [hc]
      · simp [h0]
    | some entry =>
      rw [(next_close hs hw hc).1]
      by_cases h0 : c = 0
      · subst h0
        simp
      · simp [h0, OrderedMap.get?_delete_of_ne _ (Ne.symm h0)]

/-! ## The run up to the settlement of the handler -/

section Run
variable (ops : PayloadOps V) (req : RunRequest V) (sequencer : RunSequencer)

/-- The trigger frame is open on the main thread exactly if `frameOpen`, and nothing terminal has
been stamped. -/
structure BodyInv (plaintexts : List String) (frameOpen : Bool) (r : PluginRun V) : Prop where
  window : r.bridge.runActive = true
  minted : 1 ≤ r.bridge.nextCallId
  opened : r.openCallId = some 0
  grows : plaintexts ⊆ r.plaintexts
  active : (sequencer.start.1.feed r.sent).1.runActive = true
  kinds : ∀ e ∈ stampedEvents sequencer r.sent, isTerminal e.kind = false
  hidden : ¬ Intact plaintexts "event" → r.sent = []
  shown : Intact plaintexts "event" → stampedEvents sequencer r.sent ≠ []
  frame : Intact r.plaintexts "event" →
    ((sequencer.start.1.feed r.sent).1.callMap.get? 0).isSome = frameOpen

variable {sequencer}

theorem BodyInv.post {plaintexts : List String} {frameOpen : Bool} {r : PluginRun V}
    (h : BodyInv sequencer plaintexts frameOpen r) (built : BuildResult V) {w : WireEvent V}
    (hevent : built.event = some w) (hactive : built.bridge.runActive = true)
    (hminted : 1 ≤ built.bridge.nextCallId) (hopen : w.type ≠ .openCall 0)
    (hkind : isTerminal w.kind = false) :
    BodyInv sequencer plaintexts (if w.type = .closeCall 0 then false else frameOpen)
      (r.post ops built) := by
  cases hpost : onPost ops r.plaintexts w with
  | none =>
    have hsent : (r.post ops built).sent = r.sent := by simp [PluginRun.post, hevent, hpost]
    refine ⟨hactive, hminted, h.opened, h.grows, by rw [hsent]; exact h.active,
      by rw [hsent]; exact h.kinds, by rw [hsent]; exact h.hidden, by rw [hsent]; exact h.shown, ?_⟩
    intro hintact
    have hleaf := ((onPost_eq_none_iff ops r.plaintexts w).mp hpost).resolve_left
      fun hnot => hnot hintact
    rw [hsent, if_neg (by rw [hleaf.1]; simp)]
    exact h.frame hintact
  | some posted =>
    obtain ⟨htype, hscrubbed⟩ := onPost_type hpost
    have hsent : (r.post ops built).sent = r.sent ++ [posted] := by
      simp [PluginRun.post, hevent, hpost]
    have hvisible : Intact r.plaintexts "event" := by
      by_contra hnot
      rw [(onPost_eq_none_iff ops r.plaintexts w).mpr (Or.inl hnot)] at hpost
      cases hpost
    refine ⟨hactive, hminted, h.opened, h.grows, ?_, ?_, ?_, ?_, ?_⟩
    · rw [hsent, feed_snoc]
      exact next_runActive h.active posted
    · rw [hsent, stampedEvents_snoc]
      intro e he
      rcases List.mem_append.mp he with he | he
      · exact h.kinds e he
      · rw [next_kind (by simpa using he), hscrubbed]
        by_contra hterm
        rw [((isTerminal_scrubString _ _).mp (by simpa using hterm)).1] at hkind
        cases hkind
    · exact fun hnot => absurd (hvisible.mono h.grows) hnot
    · intro hintact
      rw [hsent, stampedEvents_snoc]
      exact List.append_ne_nil_of_left_ne_nil (h.shown hintact) _
    · intro _
      rw [hsent, feed_snoc, next_frame h.active (by rw [htype]; exact hopen), htype,
        h.frame hvisible]

theorem isTerminal_body (kind : RequestKind) (outcome : Outcome V) :
    isTerminal (kind.toPrefix ++ ".request") = false ∧
    isTerminal (kind.toPrefix ++ outcome.kindSuffix) = false := by
  refine ⟨by cases kind <;> decide, ?_⟩
  cases outcome <;> simp only [Outcome.kindSuffix] <;> cases kind <;> decide

theorem isTerminal_call : isTerminal "system.call" = false := by decide

theorem BodyInv.emitLeaf {plaintexts : List String} {frameOpen : Bool} {r : PluginRun V}
    (h : BodyInv sequencer plaintexts frameOpen r) (clock : Clock) {kind : String} (name : String)
    (extra : EmitExtra V) (hkind : isTerminal kind = false) :
    BodyInv sequencer plaintexts frameOpen (r.emitLeaf ops clock kind name extra) := by
  have hbuild : ∃ w : WireEvent V, w.type = .leaf ∧ w.kind = kind ∧
      r.bridge.buildEvent clock kind name .leaf extra = ⟨r.bridge, some w, 0⟩ := by
    simp [Bridge.buildEvent, Bridge.toWireFraming, h.window]
  obtain ⟨w, htype, hk, hbuild⟩ := hbuild
  have hpost := h.post ops ⟨r.bridge, some w, 0⟩ rfl h.window h.minted (by rw [htype]; simp)
    (by rw [hk]; exact hkind)
  rw [PluginRun.emitLeaf, hbuild]
  simpa [htype] using hpost

theorem BodyInv.emitOpen {plaintexts : List String} {frameOpen : Bool} {r : PluginRun V}
    (h : BodyInv sequencer plaintexts frameOpen r) (clock : Clock) (options : RequestOptions V)
    (hkind : isTerminal (options.kindPrefix ++ ".request") = false) :
    BodyInv sequencer plaintexts frameOpen (r.emitOpen ops clock options) := by
  obtain ⟨w, htype, hk, hbuild⟩ := emitRequest_active h.window clock options
  have hminted := h.minted
  have hpost := h.post ops ⟨{ r.bridge with nextCallId := r.bridge.nextCallId + 1 }, some w,
    r.bridge.nextCallId⟩ rfl h.window (Nat.le_add_left 1 _)
    (by rw [htype]; simp; omega) (by rw [hk]; exact hkind)
  rw [PluginRun.emitOpen, hbuild]
  simpa [htype] using hpost

theorem BodyInv.emitClose {plaintexts : List String} {frameOpen : Bool} {r : PluginRun V}
    (h : BodyInv sequencer plaintexts frameOpen r) (clock : Clock) (options : RequestOptions V)
    (callId : Nat) (outcome : Outcome V)
    (hkind : isTerminal (options.kindPrefix ++ outcome.kindSuffix) = false) :
    BodyInv sequencer plaintexts (if callId = 0 then false else frameOpen)
      (r.emitClose ops clock options callId outcome) := by
  obtain ⟨w, htype, hk, hbuild⟩ := emitSettlement_active h.window clock options callId outcome
  have hpost := h.post ops ⟨r.bridge, some w, 0⟩ rfl h.window h.minted (by rw [htype]; simp)
    (by rw [hk]; exact hkind)
  rw [PluginRun.emitClose, hbuild]
  simpa [htype] using hpost

/-- The body closes the trigger frame with a callId that some other call captured. -/
def closesTrigger : BodyStep V → Bool
  | .settle _ _ _ _ callId _ => callId = 0
  | _ => false

/-- Which timers are pending shows in no event. -/
theorem BodyInv.withTimers {plaintexts : List String} {frameOpen : Bool} {r : PluginRun V}
    (h : BodyInv sequencer plaintexts frameOpen r) (timers : OrderedMap Nat TimerKind) :
    BodyInv sequencer plaintexts frameOpen { r with timers := timers } :=
  ⟨h.window, h.minted, h.opened, h.grows, h.active, h.kinds, h.hidden, h.shown, h.frame⟩

theorem BodyInv.bodyStep {plaintexts : List String} {frameOpen : Bool} {r : PluginRun V}
    (h : BodyInv sequencer plaintexts frameOpen r) (step : BodyStep V) :
    BodyInv sequencer plaintexts (frameOpen && !closesTrigger step) (r.bodyStep ops step) := by
  cases step with
  | leaf clock kind name extra =>
    have hkind : isTerminal kind.toKind = false := by cases kind <;> decide
    simp only [PluginRun.bodyStep, closesTrigger, Bool.not_false, Bool.and_true]
    exact h.emitLeaf ops clock name extra hkind
  | request clock kind name input =>
    have hkind := (isTerminal_body kind (.response none : Outcome V)).1
    simp only [PluginRun.bodyStep, closesTrigger, Bool.not_false, Bool.and_true]
    exact h.emitOpen ops clock ⟨kind.toPrefix, name, input⟩ hkind
  | settle clock kind name input callId outcome =>
    have hclose := h.emitClose ops clock ⟨kind.toPrefix, name, input⟩ callId outcome
      (isTerminal_body kind outcome).2
    have hflag : (frameOpen && !closesTrigger (.settle clock kind name input callId outcome)) =
        if callId = 0 then false else frameOpen := by
      by_cases h0 : callId = 0 <;> simp [closesTrigger, h0]
    rw [hflag]
    exact hclose
  | addSecret value =>
    simp only [PluginRun.bodyStep, closesTrigger, Bool.not_false, Bool.and_true]
    split
    · exact h
    · have hsub : r.plaintexts ⊆ resortLongestFirst (r.plaintexts ++ [value]) := by
        intro p hp
        simp [resortLongestFirst, hp]
      exact ⟨h.window, h.minted, h.opened, List.Subset.trans h.grows hsub, h.active, h.kinds, h.hidden,
        h.shown, fun hintact => h.frame (hintact.mono hsub)⟩
  | setTimer clock numId kind extra =>
    have hleaf := h.emitLeaf ops clock kind.setName extra isTerminal_call
    simp only [PluginRun.bodyStep, closesTrigger, Bool.not_false, Bool.and_true]
    exact hleaf.withTimers _
  | clearTimer clock numId kind extra =>
    have hleaf := h.emitLeaf ops clock kind.clearName extra isTerminal_call
    simp only [PluginRun.bodyStep, closesTrigger, Bool.not_false, Bool.and_true]
    exact hleaf.withTimers _
  | fireTimer clock numId =>
    simp only [PluginRun.bodyStep, closesTrigger, Bool.not_false, Bool.and_true]
    split
    · exact h
    · rename_i kind _
      have hopen := h.emitOpen ops clock ⟨"system", kind.setName, some (ops.timerId numId)⟩
        (isTerminal_body .system (.response none : Outcome V)).1
      split
      · exact hopen.withTimers _
      · exact hopen

theorem BodyInv.body {plaintexts : List String} {frameOpen : Bool} {r : PluginRun V}
    (h : BodyInv sequencer plaintexts frameOpen r) (body : List (BodyStep V)) :
    BodyInv sequencer plaintexts (frameOpen && !body.any closesTrigger)
      (body.foldl (PluginRun.bodyStep ops) r) := by
  induction body generalizing frameOpen r with
  | nil => simpa using h
  | cons step body ih =>
    have hrest := ih (h.bodyStep ops step)
    simpa [Bool.and_assoc] using hrest

/-- The hooks before the body open the trigger frame with callId `0`. -/
theorem bodyInv_before (sequencer : RunSequencer) (timers : OrderedMap Nat TimerKind) (plaintexts : List String) :
    BodyInv sequencer plaintexts true
      (buildPluginDescriptors.foldl (PluginRun.onBeforeRunStarted ops req)
        (PluginRun.start timers plaintexts)) := by
  have hbridge : (PluginRun.start timers plaintexts : PluginRun V).bridge.runActive = true := rfl
  obtain ⟨w, htype, hk, hbuild⟩ :=
    emitRequest_active hbridge req.beforeClock ⟨"trigger", req.name, req.input⟩
  have hactive : sequencer.start.1.runActive = true := by rw [start_eq]
  have hfold : buildPluginDescriptors.foldl (PluginRun.onBeforeRunStarted ops req)
      (PluginRun.start timers plaintexts) =
      { (PluginRun.start timers plaintexts : PluginRun V) with
        bridge := ⟨1, true⟩
        openCallId := some 0
        sent := (onPost ops plaintexts w).toList } := by
    show PluginRun.onBeforeRunStarted ops req (PluginRun.start timers plaintexts) .trigger = _
    simp only [PluginRun.onBeforeRunStarted, PluginRun.emitOpen, hbuild, PluginRun.post]
    rfl
  rw [hfold]
  cases hpost : onPost ops plaintexts w with
  | none =>
    have hnot : ¬ Intact plaintexts "event" := by
      rcases (onPost_eq_none_iff ops plaintexts w).mp hpost with hnot | ⟨hleaf, _⟩
      · exact hnot
      · rw [htype] at hleaf
        cases hleaf
    exact ⟨rfl, le_refl _, rfl, List.Subset.refl _, hactive, by simp [stampedEvents, RunSequencer.feed, stamped],
      fun _ => rfl, fun h => absurd h hnot, fun h => absurd h hnot⟩
  | some posted =>
    obtain ⟨htype', hscrubbed⟩ := onPost_type hpost
    have hopen : posted.type = .openCall 0 := htype'.trans htype
    obtain ⟨hstate, hevent⟩ := next_open hactive hopen
    have hvisible : Intact plaintexts "event" := by
      by_contra hnot
      rw [(onPost_eq_none_iff ops plaintexts w).mpr (Or.inl hnot)] at hpost
      cases hpost
    have hstamped : stampedEvents sequencer [posted] =
        [buildSandboxEvent posted sequencer.start.1.seq sequencer.start.1.refStack.getLast?] := by
      simp [stampedEvents, RunSequencer.feed, stamped, hevent]
    refine ⟨rfl, le_refl _, rfl, List.Subset.refl _, ?_, ?_, fun hnot => absurd hvisible hnot, ?_, ?_⟩
    · exact next_runActive hactive posted
    · intro e he
      rw [Option.toList_some, hstamped, List.mem_singleton] at he
      rw [he]
      show isTerminal posted.kind = false
      rw [hscrubbed, hk]
      by_contra hterm
      have := ((isTerminal_scrubString _ _).mp (by simpa using hterm)).1
      exact absurd this (by decide)
    · intro _
      rw [Option.toList_some, hstamped]
      simp
    · intro _
      simp [RunSequencer.feed, hstate]

/-! ## The hooks after the body -/

theorem settled_bodyInv (timers : OrderedMap Nat TimerKind) (plaintexts : List String)
    (body : List (BodyStep V)) :
    BodyInv sequencer plaintexts (!body.any closesTrigger)
      ((PluginRun.start timers plaintexts).settled ops req body) := by
  have h := (bodyInv_before ops req sequencer timers plaintexts).body ops body
  rwa [Bool.true_and] at h

def clearLeaf (clock : Clock) (e : Nat × TimerKind) : WireEvent V where
  kind := "system.call"
  name := e.2.clearName
  ts := clock.ts
  atIso := clock.atIso
  input := some (ops.timerId e.1)
  output := none
  error := none
  type := .leaf

/-- The timers hook posts one leaf for each pending timer. -/
theorem clearAllPending_sent (r : PluginRun V) (hactive : r.bridge.runActive = true) (clock : Clock) :
    (r.clearAllPending ops clock).sent =
      r.sent ++ r.timers.entries.filterMap fun e => onPost ops r.plaintexts (clearLeaf ops clock e) := by
  unfold PluginRun.clearAllPending
  generalize r.timers.entries = entries
  show (List.foldl _ r entries).sent = _
  induction entries generalizing r with
  | nil => simp
  | cons e entries ih =>
    have hemit : r.emitLeaf ops clock "system.call" e.2.clearName ⟨some (ops.timerId e.1), none, none⟩ =
        { r with sent := r.sent ++ (onPost ops r.plaintexts (clearLeaf ops clock e)).toList } := by
      simp [PluginRun.emitLeaf, PluginRun.post, Bridge.buildEvent, Bridge.toWireFraming, hactive,
        clearLeaf]
    rw [List.foldl_cons, hemit]
    refine (ih { r with
      sent := r.sent ++ (onPost ops r.plaintexts (clearLeaf ops clock e)).toList } hactive).trans ?_
    cases hpost : onPost ops r.plaintexts (clearLeaf ops clock e) <;> simp [hpost]

/-- What reaches the sequencer after the handler settled: the close of the trigger frame first, the
cleared timers after it. -/
theorem run_sent {plaintexts : List String} {frameOpen : Bool} {r : PluginRun V}
    (h : BodyInv sequencer plaintexts frameOpen r) :
    ∃ w : WireEvent V, w.type = .closeCall 0 ∧ w.kind = req.closeKind ∧
      (buildPluginDescriptors.reverse.foldl (PluginRun.onRunFinished ops req) r).sent =
        r.sent ++ (onPost ops r.plaintexts w).toList ++
          r.timers.entries.filterMap fun e =>
            onPost ops r.plaintexts (clearLeaf ops req.afterClock e) := by
  obtain ⟨w, htype, hk, hbuild⟩ :=
    emitSettlement_active h.window req.afterClock ⟨"trigger", req.name, req.input⟩ 0 req.result
  refine ⟨w, htype, hk, ?_⟩
  have htrigger : PluginRun.onRunFinished ops req r .trigger =
      { r with
        openCallId := none
        sent := r.sent ++ (onPost ops r.plaintexts w).toList } := by
    simp only [PluginRun.onRunFinished, h.opened, PluginRun.emitClose, hbuild, PluginRun.post]
    rfl
  have hfold : buildPluginDescriptors.reverse.foldl (PluginRun.onRunFinished ops req) r =
      (PluginRun.onRunFinished ops req r .trigger).clearAllPending ops req.afterClock := rfl
  rw [hfold, htrigger]
  exact clearAllPending_sent ops { r with
    openCallId := none
    sent := r.sent ++ (onPost ops r.plaintexts w).toList } h.window req.afterClock

def kindsOf (events : List (SandboxEvent V)) : List String := events.map (·.kind)

theorem BodyInv.endsTerminal_eq_false {plaintexts : List String} {frameOpen : Bool} {r : PluginRun V}
    (h : BodyInv sequencer plaintexts frameOpen r) (hvisible : Intact plaintexts "event") :
    endsTerminal (kindsOf (stampedEvents sequencer r.sent)) = false := by
  refine endsTerminal_of_open (by simpa [kindsOf] using h.shown hvisible) ?_
  intro kind hkind
  obtain ⟨e, he, rfl⟩ := List.mem_map.mp hkind
  exact h.kinds e he

/-- A leaf at the end of the run is stamped, and it is not terminal. -/
theorem endsTerminal_leaf {wires : List (WireEvent V)} {w : WireEvent V}
    (hactive : (sequencer.start.1.feed wires).1.runActive = true) (hw : w.type = .leaf)
    (hkind : isTerminal w.kind = false) :
    endsTerminal (kindsOf (stampedEvents sequencer (wires ++ [w]))) = false := by
  have hevent := (next_leaf hactive hw).2
  rw [stampedEvents_snoc, hevent, kindsOf, List.map_append]
  exact (endsTerminal_snoc _ _).trans hkind

theorem feed_runActive {s : RunSequencer} (hs : s.runActive = true) (wires : List (WireEvent V)) :
    (s.feed wires).1.runActive = true := by
  induction wires generalizing s with
  | nil => exact hs
  | cons w wires ih => exact ih (next_runActive hs w)

theorem isTerminal_closeKind : isTerminal req.closeKind = true := by
  unfold RunRequest.closeKind
  cases req.result <;> simp only [Outcome.kindSuffix] <;> decide

/-- What the close of the trigger frame leaves at the end of the stamped events. -/
theorem endsTerminal_close {plaintexts : List String} {frameOpen : Bool} {r : PluginRun V}
    (h : BodyInv sequencer plaintexts frameOpen r) (hvisible : Intact plaintexts "event")
    {w : WireEvent V} (htype : w.type = .closeCall 0) (hk : w.kind = req.closeKind) :
    endsTerminal (kindsOf (stampedEvents sequencer
      (r.sent ++ (onPost ops r.plaintexts w).toList))) = true ↔
      Intact r.plaintexts "event" ∧ frameOpen = true ∧ Intact r.plaintexts req.closeKind := by
  cases hpost : onPost ops r.plaintexts w with
  | none =>
    have hnot : ¬ Intact r.plaintexts "event" := by
      rcases (onPost_eq_none_iff ops r.plaintexts w).mp hpost with hnot | ⟨hleaf, _⟩
      · exact hnot
      · rw [htype] at hleaf
        cases hleaf
    simp [h.endsTerminal_eq_false hvisible, hnot]
  | some posted =>
    obtain ⟨htype', hscrubbed⟩ := onPost_type hpost
    have hintact : Intact r.plaintexts "event" := by
      by_contra hnot
      rw [(onPost_eq_none_iff ops r.plaintexts w).mpr (Or.inl hnot)] at hpost
      cases hpost
    have hframe := h.frame hintact
    rw [Option.toList_some, stampedEvents_snoc]
    cases hget : (sequencer.start.1.feed r.sent).1.callMap.get? 0 with
    | none =>
      rw [(next_close_unknown h.active (htype'.trans htype) hget).2]
      rw [hget] at hframe
      simp [h.endsTerminal_eq_false hvisible, ← hframe]
    | some entry =>
      rw [(next_close h.active (htype'.trans htype) hget).2, kindsOf, List.map_append]
      rw [hget] at hframe
      have hlast := endsTerminal_snoc (kindsOf (stampedEvents sequencer r.sent)) posted.kind
      have hterm := isTerminal_scrubString r.plaintexts w.kind
      rw [← hscrubbed, hk, isTerminal_closeKind req] at hterm
      refine (Bool.eq_iff_iff.mp hlast).trans (hterm.trans ?_)
      simp [hintact, ← hframe]

/-- The leaves of cleared timers stay away only if there is no timer or the scrubber swallows them. -/
theorem cleared_eq_nil_iff (plaintexts : List String) (entries : List (Nat × TimerKind)) (clock : Clock) :
    entries.filterMap (fun e => onPost ops plaintexts (clearLeaf ops clock e)) = [] ↔
      entries = [] ∨ ¬ Intact plaintexts "event" ∨ ¬ Intact plaintexts "leaf" := by
  have hnone : ∀ e, onPost ops plaintexts (clearLeaf ops clock e) = none ↔
      ¬ Intact plaintexts "event" ∨ ¬ Intact plaintexts "leaf" := by
    intro e
    rw [onPost_eq_none_iff]
    simp [clearLeaf]
  rw [List.filterMap_eq_nil_iff]
  simp only [hnone]
  cases entries with
  | nil => simp
  | cons e entries =>
    simp only [reduceCtorEq, false_or]
    exact ⟨fun h => h e List.mem_cons_self, fun h _ _ => h⟩

/-- A run that ends with the leaves of cleared timers does not end with the terminal event. -/
theorem endsTerminal_cleared (wires : List (WireEvent V)) (plaintexts : List String)
    {entries : List (Nat × TimerKind)} {clock : Clock}
    (h : entries.filterMap (fun e => onPost ops plaintexts (clearLeaf ops clock e)) ≠ []) :
    endsTerminal (kindsOf (stampedEvents sequencer
      (wires ++ entries.filterMap fun e => onPost ops plaintexts (clearLeaf ops clock e)))) = false := by
  obtain ⟨leaves, leaf, hleaves⟩ := (List.eq_nil_or_concat _).resolve_left h
  have hmem : leaf ∈ entries.filterMap fun e => onPost ops plaintexts (clearLeaf ops clock e) := by
    rw [hleaves]
    simp
  obtain ⟨e, _, hpost⟩ := List.mem_filterMap.mp hmem
  obtain ⟨htype, hscrubbed⟩ := onPost_type hpost
  have hkind : isTerminal leaf.kind = false := by
    rw [hscrubbed]
    by_contra hterm
    have hcall := ((isTerminal_scrubString _ _).mp (by simpa using hterm)).1
    exact absurd hcall (by simp [clearLeaf, isTerminal_call])
  rw [hleaves, List.concat_eq_append, ← List.append_assoc]
  exact endsTerminal_leaf (feed_runActive (by rw [start_eq]) _) htype hkind

/-- When the last event that a completed run stamps is the terminal one. The frame of the trigger
is closed before the timers are cleared, so a pending timer leaves a leaf after the terminal event. -/
theorem endsTerminal_run_iff (sequencer : RunSequencer) (timers : OrderedMap Nat TimerKind) (plaintexts : List String)
    (body : List (BodyStep V)) :
    let r := (PluginRun.start timers plaintexts).settled ops req body
    endsTerminal (kindsOf (stampedEvents sequencer
      ((PluginRun.start timers plaintexts).run ops req body).sent)) = true ↔
      (Intact plaintexts "event" →
        Intact r.plaintexts "event" ∧ body.any closesTrigger = false ∧
        Intact r.plaintexts req.closeKind ∧
        (r.timers.entries = [] ∨ ¬ Intact r.plaintexts "leaf")) := by
  intro r
  have h : BodyInv sequencer plaintexts (!body.any closesTrigger) r :=
    settled_bodyInv ops req timers plaintexts body
  obtain ⟨w, htype, hk, hsent⟩ := run_sent ops req h
  have hrun : ((PluginRun.start timers plaintexts).run ops req body).sent =
      r.sent ++ (onPost ops r.plaintexts w).toList ++
        r.timers.entries.filterMap fun e =>
          onPost ops r.plaintexts (clearLeaf ops req.afterClock e) := hsent
  rw [hrun]
  by_cases hvisible : Intact plaintexts "event"
  · have hclose := endsTerminal_close ops req h hvisible htype hk
    have hcleared := cleared_eq_nil_iff ops r.plaintexts r.timers.entries req.afterClock
    by_cases hnil : (r.timers.entries.filterMap fun e =>
        onPost ops r.plaintexts (clearLeaf ops req.afterClock e)) = []
    · rw [hnil, List.append_nil, hclose]
      constructor
      · rintro ⟨hevent, hframe, hkind⟩ _
        refine ⟨hevent, by simpa using hframe, hkind, ?_⟩
        rcases hcleared.mp hnil with hempty | hnot | hleaf
        · exact Or.inl hempty
        · exact absurd hevent hnot
        · exact Or.inr hleaf
      · intro hcond
        obtain ⟨hevent, hframe, hkind, _⟩ := hcond hvisible
        exact ⟨hevent, by simpa using hframe, hkind⟩
    · rw [endsTerminal_cleared ops _ _ hnil]
      simp only [Bool.false_eq_true, false_iff]
      intro hcond
      obtain ⟨_, _, _, htimers⟩ := hcond hvisible
      exact hnil (hcleared.mpr (htimers.imp_right Or.inr))
  · have hhidden : ¬ Intact r.plaintexts "event" := fun hr => hvisible (hr.mono h.grows)
    have hnone : ∀ v : WireEvent V, onPost ops r.plaintexts v = none :=
      fun v => (onPost_eq_none_iff ops _ v).mpr (Or.inl hhidden)
    refine iff_of_true ?_ fun hv => absurd hv hvisible
    simp [h.hidden hvisible, hnone, stampedEvents, RunSequencer.feed, stamped, kindsOf, endsTerminal]

end Run

/-! ## The records of the executor -/

structure InvocationMeta (V : Type u) where
  id : String
  owner : String
  repo : String
  workflow : String
  workflowSha : String
  dispatch : V

/-- The widening of the `sb.onEvent` callback. -/
def widen (info : InvocationMeta V) (event : SandboxEvent V) : InvocationEvent V where
  toSandboxEvent := event
  id := info.id
  owner := info.owner
  repo := info.repo
  workflow := info.workflow
  workflowSha := info.workflowSha
  metadata := if event.kind = "trigger.request" then some info.dispatch else none

def ownRecord (id : String) : StoreAction V → Option (InvocationEvent V)
  | .record event => if event.id = id then some event else none
  | _ => none

/-- The store while an invocation records its events: `served` are those it has recorded. -/
structure Serving (id : String) (served : List (InvocationEvent V)) (s : EventStore V) : Prop where
  sound : s.Sound
  running : s.stopped = false
  waiting : (s.accumulator.get? id).isSome = !endsTerminal (served.map (·.kind))
  accepted : served ⊆ s.accepted

theorem Serving.step {config : EventStoreConfig} {id : String} {served : List (InvocationEvent V)}
    {s t : EventStore V} (h : Serving id served s) {a : StoreAction V} (ha : a ≠ .drainAndClose)
    (ht : s.step config a = some t) : Serving id (served ++ (ownRecord id a).toList) t := by
  have hsound := EventStore.sound_step config s a t h.sound ht
  have hdrain := h.sound.stopped_iff.mp h.running
  cases a with
  | drainAndClose => exact absurd rfl ha
  | drainEntry atIso pastDeadline =>
    rw [(EventStore.drainEntry_cases ht).1] at hdrain
    cases hdrain
  | drainEnd => simp [EventStore.step, EventStore.drainEnd, hdrain] at ht
  | attempt i outcome =>
    obtain ⟨c, _, rfl | ⟨reason, rfl⟩ | rfl⟩ := EventStore.attempt_cases ht
    · exact ⟨hsound, h.running, by simpa [ownRecord] using h.waiting, by simpa [ownRecord] using h.accepted⟩
    · exact ⟨hsound, h.running, by simpa [ownRecord] using h.waiting, by simpa [ownRecord] using h.accepted⟩
    · exact ⟨hsound, h.running, by simpa [ownRecord] using h.waiting, by simpa [ownRecord] using h.accepted⟩
  | record event =>
    cases ht
    obtain ⟨hrunning, haccepted, hget⟩ := EventStore.record_running h.running event
    by_cases hid : event.id = id
    · refine ⟨hsound, hrunning, ?_, ?_⟩
      · rw [hget, if_pos hid.symm]
        simp [ownRecord, hid, endsTerminal_snoc]
      · rw [haccepted]
        intro e he
        simp only [ownRecord, if_pos hid, Option.toList_some, List.mem_append] at he
        exact List.mem_append.mpr (he.imp_left fun he => h.accepted he)
    · refine ⟨hsound, hrunning, ?_, ?_⟩
      · rw [hget, if_neg (Ne.symm hid), h.waiting]
        simp [ownRecord, hid]
      · rw [haccepted]
        intro e he
        simp only [ownRecord, if_neg hid, Option.toList_none, List.append_nil] at he
        exact List.mem_append_left _ (h.accepted he)

theorem Serving.exec {config : EventStoreConfig} {id : String} {served : List (InvocationEvent V)}
    {s t : EventStore V} (h : Serving id served s) {actions : List (StoreAction V)}
    (hactions : .drainAndClose ∉ actions) (ht : Lib.exec (EventStore.step config) s actions = some t) :
    Serving id (served ++ actions.filterMap (ownRecord id)) t := by
  induction actions generalizing s served with
  | nil =>
    cases ht
    simpa using h
  | cons a actions ih =>
    obtain ⟨m, hm, ht⟩ := exec_cons_eq_some.mp ht
    have hne : a ≠ .drainAndClose := fun ha => hactions (ha ▸ List.mem_cons_self)
    have hrest := ih (h.step hne hm) (fun hmem => hactions (List.mem_cons_of_mem a hmem)) ht
    cases hown : ownRecord id a <;> simpa [hown] using hrest

/-- Every event of the invocation was inserted or reported in a `commit-dropped` entry, and none of
its events is left in the accumulator. -/
def InvocationSettled (s : EventStore V) (id : String) (events : List (InvocationEvent V)) : Prop :=
  (∀ e ∈ events, (∃ b ∈ s.inserted, e ∈ b.recorded) ∨ ∃ d ∈ s.dropped, e ∈ d.1.recorded) ∧
  s.accumulator.get? id = none

/-- Once the tail has been awaited, everything is settled exactly if the last record was terminal. -/
theorem Serving.settled_iff {id : String} {served : List (InvocationEvent V)} {s : EventStore V}
    (h : Serving id served s) (hids : ∀ e ∈ served, e.id = id)
    (hawaited : ∀ c ∈ s.commits, c.batch.id ≠ id) :
    InvocationSettled s id served ↔ endsTerminal (served.map (·.kind)) = true := by
  have hwaiting : s.accumulator.get? id = none ↔ endsTerminal (served.map (·.kind)) = true := by
    have hw := h.waiting
    cases hget : s.accumulator.get? id with
    | none => simpa [hget] using hw
    | some events => simpa [hget] using hw
  rw [← hwaiting]
  refine ⟨fun hs => hs.2, fun hnone => ⟨?_, hnone⟩⟩
  intro e he
  have hheld := h.sound.accounted.mem_iff.mpr (h.accepted he)
  rcases List.mem_append.mp hheld with hacc | hbatch
  · obtain ⟨entry, hentry, hmem⟩ := List.mem_flatMap.mp hacc
    have hget := (s.accumulator.get?_eq_some_iff entry.1 entry.2).mpr hentry
    have hkey := (h.sound.entries _ _ hget).sameId e hmem
    rw [← hkey, hids e he, hnone] at hget
    cases hget
  · obtain ⟨b, hb, hmem⟩ := List.mem_flatMap.mp hbatch
    have hid : b.id = id := by rw [← (h.sound.batches b hb).sameId e hmem, hids e he]
    simp only [EventStore.batches, List.mem_append, List.mem_map] at hb
    rcases hb with (⟨c, hc, rfl⟩ | hb) | ⟨d, hd, rfl⟩
    · exact absurd hid (hawaited c hc)
    · exact Or.inl ⟨b, hb, hmem⟩
    · exact Or.inr ⟨d, hd, hmem⟩

/-- The events that one run hands to the executor. -/
def runEvents (ops : PayloadOps V) (req : RunRequest V) (sequencer : RunSequencer)
    (timers : OrderedMap Nat TimerKind) (plaintexts : List String) (body : List (BodyStep V))
    (info : InvocationMeta V) : List (InvocationEvent V) :=
  (stampedEvents sequencer ((PluginRun.start timers plaintexts).run ops req body).sent).map (widen info)

instance (s : EventStore Unit) (id : String) (events : List (InvocationEvent Unit)) :
    Decidable (InvocationSettled s id events) :=
  inferInstanceAs (Decidable ((∀ e ∈ events, _) ∧ _))

def unitOps : PayloadOps Unit := ⟨fun _ v => v, fun _ => ()⟩

def okRequest : RunRequest Unit := ⟨"handler", none, .response none, ⟨0, ""⟩, ⟨0, ""⟩⟩

def orderInfo : InvocationMeta Unit := ⟨"evt_1", "acme", "shop", "orders", "sha", ()⟩

def orderEvents (body : List (BodyStep Unit)) : List (InvocationEvent Unit) :=
  runEvents unitOps okRequest createRunSequencer .empty [] body orderInfo

/-- The same handler, when its timer fires before it settles. -/
def firedTimer : List (BodyStep Unit) :=
  [.setTimer ⟨0, ""⟩ 1 .setTimeout ⟨none, none, none⟩, .fireTimer ⟨0, ""⟩ 1,
    .settle ⟨0, ""⟩ .system "setTimeout" none 1 (.response none)]

end WorkflowEngine.Runtime
