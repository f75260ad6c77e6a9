import WorkflowEngine.Runtime.Invocation
import WorkflowEngine.Sandbox.WorkerRuns

/-!
# The trigger frame of a run, however the run ends

A run posts its trigger request first, under callId `0`, and nothing else opens
that callId. So whatever terminal event the main thread stamps, the close of the
trigger plugin or a close synthesised after a crash or a limit, refers to the
first event of the run. `Framed` is what the posted events have; it is kept by
every prefix, which is all that a dying worker leaves.
-/

namespace WorkflowEngine.Runtime

open Lib Sandbox
set_option autoImplicit false

universe u
variable {V : Type u}

/-- How a run ends on the main thread: with `done`, or with the death of the worker when some of
the events have been received. -/
inductive RunEnd (V : Type u) where
  | done
  | death (received : Nat) (death : Death V)

/-- The wire events that the sequencer sees before `finish`, and the close reason. -/
def RunEnd.inputs (sent : List (WireEvent V)) : RunEnd V → List (WireEvent V) × Option String
  | .done => (sent, none)
  | .death received (.limit dim clock input) =>
    (sent.take received ++ [System.limitLeaf dim clock input], some ("limit:" ++ dim))
  | .death received (.other closeReason) => (sent.take received, some closeReason)

/-- The events of one run window, stamped and synthesised. -/
def windowEvents (sequencer : RunSequencer) (wires : List (WireEvent V)) (closeReason : Option String) :
    List (SandboxEvent V) :=
  let window := sequencer.window wires closeReason
  stamped window.trace ++ window.synthesised

/-- The events that one run hands to the executor, however it ends. -/
def invocationEvents (ops : PayloadOps V) (req : RunRequest V) (sequencer : RunSequencer)
    (timers : OrderedMap Nat TimerKind) (plaintexts : List String) (body : List (BodyStep V))
    (ending : RunEnd V) (info : InvocationMeta V) : List (InvocationEvent V) :=
  let inputs := ending.inputs ((PluginRun.start timers plaintexts).run ops req body).sent
  (windowEvents sequencer inputs.1 inputs.2).map (widen info)

/-! ## The posted events -/

def isTriggerClose (kind : String) : Bool := kind = "trigger.response" || kind = "trigger.error"

/-- An event after the trigger request: it does not open callId `0`, only the close of callId `0`
has a terminal kind, and a frame it opens is not closed with a terminal kind. -/
structure Inner (w : WireEvent V) : Prop where
  opens : w.type ≠ .openCall 0
  request : w.kind ≠ "trigger.request"
  terminal : isTerminal w.kind = true → w.type = .closeCall 0 ∧ isTriggerClose w.kind = true
  synthesised : ∀ c, w.type = .openCall c → isTerminal (synthCloseKind w.kind) = false

/-- The first event may be the trigger request. It is not, if the worker died before it came
through or if a secret hides it. -/
def Framed : List (WireEvent V) → Prop
  | [] => True
  | w :: ws => ((w.type = .openCall 0 ∧ isTerminal w.kind = false) ∨ Inner w) ∧ ∀ v ∈ ws, Inner v

theorem Framed.take {ws : List (WireEvent V)} (h : Framed ws) (n : Nat) : Framed (ws.take n) := by
  cases ws with
  | nil => simpa using h
  | cons w ws =>
    cases n with
    | zero => exact trivial
    | succ n => exact ⟨h.1, fun v hv => h.2 v (List.mem_of_mem_take hv)⟩

theorem Framed.append {ws vs : List (WireEvent V)} (h : Framed ws) (hvs : ∀ v ∈ vs, Inner v) :
    Framed (ws ++ vs) := by
  cases ws with
  | nil =>
    cases vs with
    | nil => exact trivial
    | cons v vs =>
      exact ⟨Or.inr (hvs v List.mem_cons_self), fun u hu => hvs u (List.mem_cons_of_mem v hu)⟩
  | cons w ws =>
    refine ⟨h.1, ?_⟩
    intro v hv
    rcases List.mem_append.mp hv with hv | hv
    · exact h.2 v hv
    · exact hvs v hv

/-! ## What the sequencer makes of them -/

/-- The stamps of one run: a terminal event refers to the first event, which is the only trigger
request, and refs point back. -/
structure FramedStamp (e : SandboxEvent V) : Prop where
  terminal : isTerminal e.kind = true → isTriggerClose e.kind = true ∧ e.ref = some 0
  request : e.kind = "trigger.request" → e.seq = 0 ∧ e.ref = none
  back : ∀ r, e.ref = some r → r < e.seq

structure FrameInv (s : RunSequencer) (events : List (SandboxEvent V)) : Prop where
  active : s.runActive = true
  seqs : events.map (·.seq) = List.range s.seq
  stamps : ∀ e ∈ events, FramedStamp e
  stack : ∀ n ∈ s.refStack, n < s.seq
  below : ∀ c entry, s.callMap.get? c = some entry → entry.openSeq < s.seq
  trigger : ∀ entry, s.callMap.get? 0 = some entry → entry.openSeq = 0
  inner : ∀ c entry, c ≠ 0 → s.callMap.get? c = some entry → isTerminal entry.closeKind = false
  kinds : ∀ c entry, s.callMap.get? c = some entry → entry.closeKind = synthCloseKind entry.kind

/-- No kind but `trigger.error` is terminal and the kind of a synthesised close. -/
theorem synthCloseKind_terminal {kind : String} (h : isTerminal (synthCloseKind kind) = true) :
    synthCloseKind kind = "trigger.error" ∧ kind.toList.head? = some 't' := by
  have hlist : (synthCloseKind kind).toList =
      kind.toList.takeWhile (· ≠ '.') ++ ".error".toList := by simp [synthCloseKind]
  have hsuffix : ".error".toList <:+ (synthCloseKind kind).toList := by
    rw [hlist]
    exact List.suffix_append _ _
  have honly : ∀ k ∈ terminalKinds, ".error".toList <:+ k.toList → k = "trigger.error" := by decide
  have heq := honly _ (by simpa [isTerminal] using h) hsuffix
  refine ⟨heq, ?_⟩
  rw [heq] at hlist
  have hstart : "trigger".toList <+: kind.toList := by
    have hcut : "trigger".toList = kind.toList.takeWhile (· ≠ '.') :=
      List.append_cancel_right (show "trigger".toList ++ ".error".toList = _ from hlist)
    rw [hcut]
    exact List.takeWhile_prefix _
  obtain ⟨rest, hrest⟩ := hstart
  rw [← hrest]
  rfl

theorem getLast?_lt {s : RunSequencer} (h : ∀ n ∈ s.refStack, n < s.seq) (r : Nat)
    (hr : s.refStack.getLast? = some r) : r < s.seq := h r (List.mem_of_getLast? hr)

theorem frameInv_start (s : RunSequencer) : FrameInv s.start.1 ([] : List (SandboxEvent V)) := by
  rw [start_eq]
  exact {
    active := rfl
    seqs := rfl
    stamps := by simp
    stack := by simp
    below := by simp
    trigger := by simp
    inner := by simp
    kinds := by simp }

/-- The first event of the window is the trigger request. -/
theorem frameInv_open (s : RunSequencer) {w : WireEvent V} (hw : w.type = .openCall 0)
    (hkind : isTerminal w.kind = false) :
    FrameInv (s.start.1.next w).state ((s.start.1.next w).event.toList) := by
  have hactive : s.start.1.runActive = true := by rw [start_eq]
  obtain ⟨hstate, hevent⟩ := next_open hactive hw
  rw [hstate, hevent, start_eq]
  refine {
    active := rfl
    seqs := rfl
    stamps := ?_
    stack := by simp
    below := ?_
    trigger := ?_
    inner := ?_
    kinds := ?_ }
  · intro e he
    rw [Option.toList_some, List.mem_singleton] at he
    subst he
    refine ⟨fun h => ?_, fun _ => ⟨rfl, rfl⟩, by simp [buildSandboxEvent]⟩
    rw [show isTerminal w.kind = true from h] at hkind
    cases hkind
  · intro c entry hc
    rw [OrderedMap.get?_set] at hc
    split at hc
    · cases hc
      exact Nat.zero_lt_one
    · cases hc
  · intro entry hc
    rw [OrderedMap.get?_set_self] at hc
    cases hc
    rfl
  · intro c entry hne hc
    rw [OrderedMap.get?_set_of_ne _ _ _ hne] at hc
    cases hc
  · intro c entry hc
    rw [OrderedMap.get?_set] at hc
    split at hc
    · cases hc
      rfl
    · cases hc

theorem FrameInv.push {s t : RunSequencer} {events : List (SandboxEvent V)} (h : FrameInv s events)
    {e : SandboxEvent V} (hseq : e.seq = s.seq) (hstamp : FramedStamp e) (hactive : t.runActive = true)
    (ht : t.seq = s.seq + 1) (hstack : ∀ n ∈ t.refStack, n ≤ s.seq)
    (hmap : ∀ c entry, t.callMap.get? c = some entry → s.callMap.get? c = some entry ∨
      (c ≠ 0 ∧ entry.openSeq = s.seq ∧ isTerminal entry.closeKind = false ∧
        entry.closeKind = synthCloseKind entry.kind)) :
    FrameInv t (events ++ [e]) where
  active := hactive
  seqs := by rw [List.map_append, h.seqs, ht, List.range_succ, List.map_singleton, hseq]
  stamps := by
    intro x hx
    rcases List.mem_append.mp hx with hx | hx
    · exact h.stamps x hx
    · rw [List.mem_singleton.mp hx]
      exact hstamp
  stack := by
    intro n hn
    have := hstack n hn
    omega
  below := by
    intro c entry hc
    rcases hmap c entry hc with hc | ⟨_, hopen, _⟩
    · have := h.below c entry hc
      omega
    · omega
  trigger := by
    intro entry hc
    rcases hmap 0 entry hc with hc | ⟨hne, _⟩
    · exact h.trigger entry hc
    · exact absurd rfl hne
  inner := by
    intro c entry hne hc
    rcases hmap c entry hc with hc | ⟨_, _, hkind, _⟩
    · exact h.inner c entry hne hc
    · exact hkind
  kinds := by
    intro c entry hc
    rcases hmap c entry hc with hc | ⟨_, _, _, hkind⟩
    · exact h.kinds c entry hc
    · exact hkind

theorem FrameInv.next {s : RunSequencer} {events : List (SandboxEvent V)} (h : FrameInv s events)
    {w : WireEvent V} (hw : Inner w) :
    FrameInv (s.next w).state (events ++ (s.next w).event.toList) := by
  have hactive := next_runActive h.active w
  have hopenKind (hterm : isTerminal w.kind = true) (c : Nat) : w.type ≠ .openCall c := by
    rw [(hw.terminal hterm).1]
    simp
  cases htype : w.type with
  | leaf =>
    obtain ⟨hstate, hevent⟩ := next_leaf h.active htype
    rw [hstate] at hactive ⊢
    rw [hevent]
    refine h.push rfl ⟨?_, fun hk => absurd hk hw.request, ?_⟩ hactive rfl
      (fun n hn => Nat.le_of_lt (h.stack n hn)) fun c entry hc => Or.inl hc
    · intro hterm
      have := (hw.terminal hterm).1
      rw [htype] at this
      cases this
    · exact getLast?_lt h.stack
  | openCall c =>
    obtain ⟨hstate, hevent⟩ := next_open h.active htype
    rw [hstate] at hactive ⊢
    rw [hevent]
    refine h.push rfl ⟨fun hterm => absurd htype (hopenKind hterm c), fun hk => absurd hk hw.request, ?_⟩
      hactive rfl ?_ ?_
    · exact getLast?_lt h.stack
    · intro n hn
      rcases List.mem_append.mp hn with hn | hn
      · exact Nat.le_of_lt (h.stack n hn)
      · exact Nat.le_of_eq (List.mem_singleton.mp hn)
    · intro j entry hj
      rw [OrderedMap.get?_set] at hj
      split at hj
      · rename_i heq
        cases hj
        refine Or.inr ⟨?_, rfl, hw.synthesised c htype, rfl⟩
        rintro rfl
        exact hw.opens (heq ▸ htype)
      · exact Or.inl hj
  | closeCall c =>
    cases hc : s.callMap.get? c with
    | none =>
      obtain ⟨hstate, hevent⟩ := next_close_unknown h.active htype hc
      rw [hstate, hevent, Option.toList_none, List.append_nil]
      exact { h with }
    | some entry =>
      obtain ⟨hstate, hevent⟩ := next_close h.active htype hc
      rw [hstate] at hactive ⊢
      rw [hevent]
      refine h.push rfl ⟨?_, fun hk => absurd hk hw.request, ?_⟩ hactive rfl ?_ ?_
      · intro hterm
        obtain ⟨h0, hclose⟩ := hw.terminal hterm
        rw [htype] at h0
        cases h0
        exact ⟨hclose, congrArg some (h.trigger entry hc)⟩
      · rintro r ⟨⟩
        exact h.below c entry hc
      · exact fun n hn => Nat.le_of_lt (h.stack n (removeRef_subset _ _ hn))
      · intro j entry' hj
        rw [OrderedMap.get?_delete] at hj
        split at hj
        · cases hj
        · exact Or.inl hj

theorem stamped_feed_cons (s : RunSequencer) (w : WireEvent V) (ws : List (WireEvent V)) :
    stamped (s.feed (w :: ws)).2 =
      (s.next w).event.toList ++ stamped ((s.next w).state.feed ws).2 := by
  cases hevent : (s.next w).event <;> simp [RunSequencer.feed, stamped, hevent]

theorem FrameInv.feed {s : RunSequencer} {events : List (SandboxEvent V)} (h : FrameInv s events)
    {ws : List (WireEvent V)} (hws : ∀ w ∈ ws, Inner w) :
    FrameInv (s.feed ws).1 (events ++ stamped (s.feed ws).2) := by
  induction ws generalizing s events with
  | nil => simpa [RunSequencer.feed, stamped] using h
  | cons w ws ih =>
    have hrest := ih (h.next (hws w List.mem_cons_self)) fun v hv => hws v (List.mem_cons_of_mem w hv)
    rw [stamped_feed_cons, ← List.append_assoc]
    exact hrest

theorem frameInv_feed (sequencer : RunSequencer) {wires : List (WireEvent V)} (h : Framed wires) :
    FrameInv (sequencer.start.1.feed wires).1 (stamped (sequencer.start.1.feed wires).2) := by
  cases wires with
  | nil => exact frameInv_start sequencer
  | cons w ws =>
    rw [stamped_feed_cons]
    rcases h.1 with ⟨htype, hkind⟩ | hw
    · exact (frameInv_open sequencer htype hkind).feed h.2
    · exact ((frameInv_start sequencer).next hw).feed h.2

theorem FrameInv.synthesised {s : RunSequencer} {events : List (SandboxEvent V)} (h : FrameInv s events)
    {closeReason : Option String} {e : SandboxEvent V} (he : e ∈ (s.finish closeReason).events) :
    FramedStamp e := by
  obtain ⟨c, entry, seq, reason, hc, hseq, rfl⟩ := mem_finish he
  have hsynth := h.kinds c entry hc
  refine ⟨?_, ?_, ?_⟩
  · intro hterm
    have hclose := (synthCloseKind_terminal (hsynth ▸ hterm)).1
    have hzero : c = 0 := by
      by_contra hne
      rw [h.inner c entry hne hc] at hterm
      cases hterm
    subst hzero
    rw [h.trigger entry hc, hsynth, hclose]
    exact ⟨rfl, rfl⟩
  · intro hrequest
    have hsuffix : ".error".toList <:+ "trigger.request".toList := by
      rw [← hrequest, hsynth]
      simp [synthCloseKind]
    exact absurd hsuffix (by decide)
  · rintro r ⟨⟩
    exact Nat.lt_of_lt_of_le (h.below c entry hc) hseq

theorem finish_seqs (s : RunSequencer) (closeReason : Option String) :
    ∃ n, (s.finish (V := V) closeReason).events.map (·.seq) = List.range' s.seq n := by
  cases closeReason with
  | none => exact ⟨0, rfl⟩
  | some reason => exact ⟨_, synthesise_seq s reason _ _⟩

/-- The events of a run, whatever ends it: their seqs count from zero, the trigger request is the
first, and each terminal event refers to it. -/
theorem framed_windowEvents (sequencer : RunSequencer) {wires : List (WireEvent V)} (h : Framed wires)
    (closeReason : Option String) :
    (∃ n, (windowEvents sequencer wires closeReason).map (·.seq) = List.range n) ∧
    ∀ e ∈ windowEvents sequencer wires closeReason, FramedStamp e := by
  have hinv := frameInv_feed sequencer h
  constructor
  · obtain ⟨n, hn⟩ := finish_seqs (V := V) (sequencer.start.1.feed wires).1 closeReason
    refine ⟨(sequencer.start.1.feed wires).1.seq + n, ?_⟩
    show (stamped (sequencer.start.1.feed wires).2 ++ _).map _ = _
    rw [List.map_append, hinv.seqs]
    refine (congrArg _ hn).trans ?_
    rw [List.range_eq_range', List.range_eq_range']
    simpa using List.range'_append_1 (s := 0) (m := _) (n := n)
  · intro e he
    rcases List.mem_append.mp he with he | he
    · exact hinv.stamps e he
    · exact hinv.synthesised he

/-! ## The events of a run under the production plugins -/

theorem head?_scrubString (plaintexts : List String) (s : String) :
    (scrubString plaintexts s).toList.head? = s.toList.head? ∨
      (scrubString plaintexts s).toList.head? = some '[' := by
  rw [scrubString, String.toList_ofList]
  exact head?_replaceEach (by decide) _ _

/-- What the body of a run and the timers hook post, before the scrubber. -/
structure BodyWire (w : WireEvent V) : Prop where
  opens : w.type ≠ .openCall 0
  kind : isTerminal w.kind = false
  start : w.kind.toList.head? ≠ some 't'

theorem BodyWire.inner {ops : PayloadOps V} {plaintexts : List String} {w posted : WireEvent V}
    (h : BodyWire w) (hpost : onPost ops plaintexts w = some posted) : Inner posted := by
  obtain ⟨htype, hkind⟩ := onPost_type hpost
  have hstart : posted.kind.toList.head? ≠ some 't' := by
    rw [hkind]
    rcases head?_scrubString plaintexts w.kind with hs | hs
    · rw [hs]
      exact h.start
    · simp [hs]
  refine ⟨htype ▸ h.opens, ?_, ?_, ?_⟩
  · intro hrequest
    rw [hrequest] at hstart
    exact hstart rfl
  · intro hterm
    rw [hkind, isTerminal_scrubString, h.kind] at hterm
    cases hterm.1
  · intro c _
    by_contra hterm
    exact hstart (synthCloseKind_terminal (by simpa using hterm)).2

theorem closeWire_inner {ops : PayloadOps V} {plaintexts : List String} {req : RunRequest V}
    {w posted : WireEvent V} (htype : w.type = .closeCall 0) (hk : w.kind = req.closeKind)
    (hpost : onPost ops plaintexts w = some posted) : Inner posted := by
  obtain ⟨htype', hkind⟩ := onPost_type hpost
  have hclose : isTriggerClose req.closeKind = true ∧ req.closeKind ≠ "trigger.request" := by
    unfold RunRequest.closeKind
    cases req.result <;> simp only [Outcome.kindSuffix] <;> decide
  rw [hk] at hkind
  refine ⟨by simp [htype', htype], ?_, ?_, by simp [htype', htype]⟩
  · intro hrequest
    rcases scrubString_cases plaintexts req.closeKind with ⟨hsame, _⟩ | ⟨hmark, _⟩
    · exact hclose.2 (by rw [← hrequest, hkind, hsame])
    · rw [← hkind, hrequest] at hmark
      exact absurd hmark (by decide)
  · intro hterm
    refine ⟨htype'.trans htype, ?_⟩
    rw [hkind] at hterm ⊢
    rw [scrubString_of_intact ((isTerminal_scrubString _ _).mp hterm).2]
    exact hclose.1

section Run
variable (ops : PayloadOps V) (req : RunRequest V) {sequencer : RunSequencer}

/-- A step of the body posts at most one event. -/
theorem bodyStep_sent {plaintexts : List String} {frameOpen : Bool} {r : PluginRun V}
    (h : BodyInv sequencer plaintexts frameOpen r) (step : BodyStep V) :
    ∃ event : Option (WireEvent V), (∀ w, event = some w → BodyWire w) ∧
      (r.bodyStep ops step).sent = r.sent ++ (event.bind (onPost ops r.plaintexts)).toList := by
  have hminted := h.minted
  have hleaf (clock : Clock) (kind name : String) (extra : EmitExtra V)
      (hkind : isTerminal kind = false) (hstart : kind.toList.head? ≠ some 't') (w : WireEvent V)
      (hw : (r.bridge.buildEvent clock kind name .leaf extra).event = some w) : BodyWire w := by
    simp only [Bridge.buildEvent, Bridge.toWireFraming, h.window, if_true, Option.some.injEq] at hw
    subst hw
    exact ⟨by simp, hkind, hstart⟩
  have hopen (clock : Clock) (options : RequestOptions V)
      (hkind : isTerminal (options.kindPrefix ++ ".request") = false)
      (hstart : (options.kindPrefix ++ ".request").toList.head? ≠ some 't') (w : WireEvent V)
      (hw : (emitRequest r.bridge clock options).event = some w) : BodyWire w := by
    obtain ⟨w', htype, hk, hbuild⟩ := emitRequest_active h.window clock options
    rw [hbuild] at hw
    cases hw
    exact ⟨by rw [htype]; simp; omega, hk ▸ hkind, hk ▸ hstart⟩
  have hhead (kind : RequestKind) : (kind.toPrefix ++ ".request").toList.head? ≠ some 't' := by
    cases kind <;> decide
  cases step with
  | leaf clock kind name extra =>
    exact ⟨_, hleaf clock kind.toKind name extra (by cases kind <;> decide) (by cases kind <;> decide),
      rfl⟩
  | request clock kind name input =>
    exact ⟨_, hopen clock ⟨kind.toPrefix, name, input⟩
      (isTerminal_body kind (.response none : Outcome V)).1 (hhead kind), rfl⟩
  | settle clock kind name input callId outcome =>
    obtain ⟨w, htype, hk, hbuild⟩ :=
      emitSettlement_active h.window clock ⟨kind.toPrefix, name, input⟩ callId outcome
    refine ⟨some w, ?_, ?_⟩
    · rintro _ ⟨⟩
      refine ⟨by rw [htype]; simp, hk ▸ (isTerminal_body kind outcome).2, ?_⟩
      rw [hk]
      cases outcome <;> simp only [Outcome.kindSuffix] <;> cases kind <;> decide
    · simp only [PluginRun.bodyStep, PluginRun.emitClose, hbuild, PluginRun.post]
  | addSecret value =>
    refine ⟨none, by simp, ?_⟩
    simp only [PluginRun.bodyStep]
    split <;> simp
  | setTimer clock numId kind extra =>
    exact ⟨_, hleaf clock "system.call" kind.setName extra isTerminal_call (by decide), rfl⟩
  | clearTimer clock numId kind extra =>
    exact ⟨_, hleaf clock "system.call" kind.clearName extra isTerminal_call (by decide), rfl⟩
  | fireTimer clock numId =>
    cases htimer : r.timers.get? numId with
    | none =>
      refine ⟨none, by simp, ?_⟩
      simp [PluginRun.bodyStep, htimer]
    | some kind =>
      refine ⟨_, hopen clock ⟨"system", kind.setName, some (ops.timerId numId)⟩
        (isTerminal_body .system (.response none : Outcome V)).1 (hhead .system), ?_⟩
      simp only [PluginRun.bodyStep, htimer]
      split <;> rfl

theorem framed_body {plaintexts : List String} {frameOpen : Bool} {r : PluginRun V}
    (h : BodyInv sequencer plaintexts frameOpen r) (hf : Framed r.sent) (body : List (BodyStep V)) :
    Framed (body.foldl (PluginRun.bodyStep ops) r).sent := by
  induction body generalizing frameOpen r with
  | nil => exact hf
  | cons step body ih =>
    refine ih (h.bodyStep ops step) ?_
    obtain ⟨event, hwire, hsent⟩ := bodyStep_sent ops h step
    rw [hsent]
    cases hpost : event.bind (onPost ops r.plaintexts) with
    | none => simpa using hf
    | some posted =>
      obtain ⟨w, hw, hposted⟩ := Option.bind_eq_some_iff.mp hpost
      refine hf.append ?_
      intro v hv
      rw [Option.toList_some, List.mem_singleton] at hv
      rw [hv]
      exact (hwire w hw).inner hposted

theorem framed_before (timers : OrderedMap Nat TimerKind) (plaintexts : List String) :
    Framed (buildPluginDescriptors.foldl (PluginRun.onBeforeRunStarted ops req)
      (PluginRun.start timers plaintexts)).sent := by
  obtain ⟨w, htype, hk, hbuild⟩ := emitRequest_active
    (show (PluginRun.start timers plaintexts : PluginRun V).bridge.runActive = true from rfl)
    req.beforeClock ⟨"trigger", req.name, req.input⟩
  have hsent : (buildPluginDescriptors.foldl (PluginRun.onBeforeRunStarted ops req)
      (PluginRun.start timers plaintexts)).sent = (onPost ops plaintexts w).toList := by
    show (PluginRun.onBeforeRunStarted ops req (PluginRun.start timers plaintexts) .trigger).sent = _
    simp only [PluginRun.onBeforeRunStarted, PluginRun.emitOpen, hbuild, PluginRun.post]
    rfl
  rw [hsent]
  cases hpost : onPost ops plaintexts w with
  | none => exact trivial
  | some posted =>
    obtain ⟨htype', hkind⟩ := onPost_type hpost
    refine ⟨Or.inl ⟨htype'.trans htype, ?_⟩, by simp⟩
    rw [hkind, hk]
    by_contra hterm
    have := ((isTerminal_scrubString _ _).mp (by simpa using hterm)).1
    exact absurd this (by decide)

theorem framed_run (timers : OrderedMap Nat TimerKind) (plaintexts : List String)
    (body : List (BodyStep V)) :
    Framed ((PluginRun.start timers plaintexts).run ops req body).sent := by
  have hbefore := bodyInv_before ops req createRunSequencer timers plaintexts
  have hinv : BodyInv createRunSequencer plaintexts (!body.any closesTrigger)
      ((PluginRun.start timers plaintexts).settled ops req body) :=
    settled_bodyInv ops req timers plaintexts body
  have hf := framed_body ops hbefore (framed_before ops req timers plaintexts) body
  obtain ⟨w, htype, hk, hsent⟩ := run_sent ops req hinv
  rw [PluginRun.run, hsent, List.append_assoc]
  refine hf.append ?_
  intro v hv
  rcases List.mem_append.mp hv with hv | hv
  · exact closeWire_inner htype hk (Option.mem_toList.mp hv)
  · obtain ⟨e, _, hpost⟩ := List.mem_filterMap.mp hv
    have hstart : "system.call".toList.head? ≠ some 't' := by decide
    exact BodyWire.inner ⟨by simp [clearLeaf], isTerminal_call, hstart⟩ hpost

end Run

theorem limitLeaf_inner (dim : String) (clock : Clock) (input : V) :
    Inner (System.limitLeaf dim clock input) where
  opens := by simp [System.limitLeaf]
  request := by simp [System.limitLeaf]
  terminal := by
    intro h
    have hkind : isTerminal "system.exhaustion" = true := h
    exact absurd hkind (by decide)
  synthesised := by simp [System.limitLeaf]

theorem framed_inputs {sent : List (WireEvent V)} (h : Framed sent) (ending : RunEnd V) :
    Framed (ending.inputs sent).1 := by
  cases ending with
  | done => exact h
  | death received death =>
    cases death with
    | limit dim clock input =>
      refine (h.take received).append ?_
      intro v hv
      rw [List.mem_singleton.mp hv]
      exact limitLeaf_inner dim clock input
    | other closeReason => exact h.take received

/-- The events of an invocation, whatever its body does and however its run ends. -/
theorem framed_invocationEvents (ops : PayloadOps V) (req : RunRequest V) (sequencer : RunSequencer)
    (timers : OrderedMap Nat TimerKind) (plaintexts : List String) (body : List (BodyStep V))
    (ending : RunEnd V) (info : InvocationMeta V) :
    let events := invocationEvents ops req sequencer timers plaintexts body ending info
    (∃ n, events.map (·.seq) = List.range n) ∧
    ∀ e ∈ events, FramedStamp e.toSandboxEvent ∧ e.id = info.id := by
  obtain ⟨⟨n, hseqs⟩, hstamps⟩ := framed_windowEvents sequencer
    (framed_inputs (framed_run ops req timers plaintexts body) ending)
    (ending.inputs ((PluginRun.start timers plaintexts).run ops req body).sent).2
  refine ⟨⟨n, ?_⟩, ?_⟩
  · rw [← hseqs, invocationEvents, List.map_map]
    rfl
  · intro e he
    obtain ⟨event, hevent, rfl⟩ := List.mem_map.mp he
    exact ⟨hstamps event hevent, rfl⟩

end WorkflowEngine.Runtime
