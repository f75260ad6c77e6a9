import WorkflowEngine.Runtime.EventStore
import Mathlib.Data.List.Count

/-!
# The layout of the flame graph

Model of `computeLayout` in `flamegraph.tsx`: the two lookups that may give
`null`, the classification of events into lanes, the bars with their rows, the
markers and the connectors. What is read out of an event's `input` is a
parameter. `classify` follows `ref` without a bound, so a cycle of refs is a
stack overflow; a chain of distinct events is never longer than the list.
-/

namespace WorkflowEngine.Runtime

open Lib Sandbox
set_option autoImplicit false

universe u
variable {V : Type u}

inductive Location where
  | main
  | track
  deriving DecidableEq

inductive BarKind where
  | trigger
  | action
  | rest
  deriving DecidableEq

/-- `timerIdFromEvent` and the two numbers of an exhaustion, as read from an `input`. -/
structure InputView (V : Type u) where
  timerId : V → Option String
  budget : V → Option Rat
  observed : V → Option Rat

structure LaidOutBar where
  kind : BarKind
  name : String
  requestSeq : Nat
  terminalSeq : Option Nat
  startTs : Int
  endTs : Int
  row : Nat
  location : Location
  errored : Bool
  orphan : Bool
  timerId : Option String

structure LaidOutMarker where
  kind : String
  name : String
  seq : Nat
  ts : Int
  row : Nat
  location : Location
  timerId : Option String
  auto : Bool
  budget : Option Rat
  observed : Option Rat

structure LaidOutConnector where
  timerId : String
  setSeq : Nat
  requestSeq : Nat
  originX : Rat
  originY : Nat
  targetX : Rat
  targetY : Nat

inductive LayoutStatus where
  | succeeded
  | failed
  deriving DecidableEq

structure Layout (V : Type u) where
  bars : List LaidOutBar
  markers : List LaidOutMarker
  connectors : List LaidOutConnector
  mainRows : Nat
  trackRows : Nat
  mainMarkerRow : Option Nat
  trackMarkerRow : Option Nat
  totalDurationTs : Int
  triggerEvent : InvocationEvent V
  terminalEvent : InvocationEvent V
  status : LayoutStatus

/-- A `Layout`, `null`, or the exception of an unbounded recursion. -/
inductive LayoutResult (V : Type u) where
  | layout (layout : Layout V)
  | null
  | overflow

/-! ## Kinds of events -/

def kindEndsWith (kind suffix : String) : Bool := suffix.toList.isSuffixOf kind.toList

def kindStartsWith (kind start : String) : Bool := start.toList.isPrefixOf kind.toList

def isRequestKind (kind : String) : Bool := kindEndsWith kind ".request"

def isResponseKind (kind : String) : Bool := kindEndsWith kind ".response"

def isErrorKind (kind : String) : Bool := kindEndsWith kind ".error"

def barKindFromEventKind (kind : String) : Option BarKind :=
  if kindStartsWith kind "trigger." then some .trigger
  else if kindStartsWith kind "action." then some .action
  else if isRequestKind kind || isResponseKind kind || isErrorKind kind then some .rest
  else none

def timerRegistrationNames : List String := ["setTimeout", "setInterval"]

def timerClearNames : List String := ["clearTimeout", "clearInterval"]

def isTimerRegistrationMarker (event : InvocationEvent V) : Bool :=
  event.kind = "system.call" && event.name ∈ timerRegistrationNames

def isTimerClearMarker (event : InvocationEvent V) : Bool :=
  event.kind = "system.call" && event.name ∈ timerClearNames

def isTimerCallbackRequest (event : InvocationEvent V) : Bool :=
  event.kind = "system.request" && event.name ∈ timerRegistrationNames

def isAnyTimerEvent (event : InvocationEvent V) : Bool :=
  isTimerRegistrationMarker event || isTimerClearMarker event ||
    (event.kind ∈ ["system.request", "system.response", "system.error"] &&
      event.name ∈ timerRegistrationNames)

def timerIdFromEvent (view : InputView V) (event : InvocationEvent V) : Option String :=
  event.input.bind view.timerId

/-! ## The two lookups -/

def findTrigger (events : List (InvocationEvent V)) : Option (InvocationEvent V) :=
  events.find? fun e => e.kind = "trigger.request" && e.ref = none

def findTerminal (events : List (InvocationEvent V)) (triggerEvent : InvocationEvent V) :
    Option (InvocationEvent V) :=
  events.find? fun e =>
    (e.kind = "trigger.response" || e.kind = "trigger.error") && e.ref = some triggerEvent.seq

/-! ## Lanes and depths -/

/-- An entry of `location` and of `depthInLocation`, which are always set together. -/
structure Place where
  location : Location
  depth : Nat
  deriving DecidableEq

/-- `bySeq`: a later event with the same seq replaces an earlier one. -/
def bySeq (events : List (InvocationEvent V)) : OrderedMap Nat (InvocationEvent V) :=
  events.foldl (fun m e => m.set e.seq e) .empty

def classify (events : OrderedMap Nat (InvocationEvent V)) :
    Nat → OrderedMap Nat Place → InvocationEvent V → Option (OrderedMap Nat Place × Place)
  | 0, _, _ => none
  | fuel + 1, places, event =>
    match places.get? event.seq with
    | some place => some (places, place)
    | none =>
      match event.ref with
      | none =>
        let place : Place := ⟨if isTimerCallbackRequest event then .track else .main, 0⟩
        some (places.set event.seq place, place)
      | some ref =>
        match events.get? ref with
        | none => some (places.set event.seq ⟨.main, 0⟩, ⟨.main, 0⟩)
        | some parent =>
          (classify events fuel places parent).map fun (places, parentPlace) =>
            let place : Place := ⟨parentPlace.location, parentPlace.depth + 1⟩
            (places.set event.seq place, place)

/-- The loop over all events; the fuel is one more than the longest chain of distinct events. -/
def classifyAll (events : List (InvocationEvent V)) : Option (OrderedMap Nat Place) :=
  exec (fun places e => (classify (bySeq events) (events.length + 1) places e).map Prod.fst) .empty
    events

/-! ## Rows -/

structure Interval where
  startTs : Int
  endTs : Int
  deriving DecidableEq

structure RowBucket where
  subRows : List (List Interval)

def assignSubRow (startTs endTs : Int) : List (List Interval) → List (List Interval) × Nat
  | [] => ([[⟨startTs, endTs⟩]], 0)
  | rows :: rest =>
    if rows.any fun r => startTs < r.endTs && endTs > r.startTs then
      let assigned := assignSubRow startTs endTs rest
      (rows :: assigned.1, assigned.2 + 1)
    else ((rows ++ [⟨startTs, endTs⟩]) :: rest, 0)

def greedyAssignSubRow (bucket : RowBucket) (startTs endTs : Int) : RowBucket × Nat :=
  let assigned := assignSubRow startTs endTs bucket.subRows
  (⟨assigned.1⟩, assigned.2)

abbrev Buckets := OrderedMap Nat RowBucket

/-- The state of the loop over the requests. A bar keeps its sub-row until the offsets are known. -/
structure BarState where
  mainBuckets : Buckets
  trackBuckets : Buckets
  subRowByRequestSeq : OrderedMap Nat Nat
  bars : List LaidOutBar

def BarState.buckets (s : BarState) : Location → Buckets
  | .main => s.mainBuckets
  | .track => s.trackBuckets

def BarState.setBucket (s : BarState) (place : Place) (bucket : RowBucket) : BarState :=
  match place.location with
  | .main => { s with mainBuckets := s.mainBuckets.set place.depth bucket }
  | .track => { s with trackBuckets := s.trackBuckets.set place.depth bucket }

def addTerminal (m : OrderedMap Nat (InvocationEvent V)) (e : InvocationEvent V) :
    OrderedMap Nat (InvocationEvent V) :=
  match e.ref with
  | some ref => if isResponseKind e.kind || isErrorKind e.kind then m.set ref e else m
  | none => m

def terminalByRef (events : List (InvocationEvent V)) : OrderedMap Nat (InvocationEvent V) :=
  events.foldl addTerminal .empty

/-- The order of the comparator `a.ts - b.ts || a.seq - b.seq`. -/
def startsBefore (a b : InvocationEvent V) : Bool :=
  a.ts < b.ts || (a.ts = b.ts && a.seq ≤ b.seq)

def requestEvents (events : List (InvocationEvent V)) : List (InvocationEvent V) :=
  (events.filter fun e => isRequestKind e.kind).mergeSort startsBefore

def placeOf (places : OrderedMap Nat Place) (seq : Nat) : Place :=
  (places.get? seq).getD ⟨.main, 0⟩

def layBar (view : InputView V) (places : OrderedMap Nat Place)
    (terminals : OrderedMap Nat (InvocationEvent V)) (terminalEvent : InvocationEvent V)
    (s : BarState) (req : InvocationEvent V) : BarState :=
  match barKindFromEventKind req.kind with
  | none => s
  | some kind =>
    let place := placeOf places req.seq
    let terminal := terminals.get? req.seq
    let endTs := (terminal.getD terminalEvent).ts
    let assigned :=
      greedyAssignSubRow (((s.buckets place.location).get? place.depth).getD ⟨[]⟩) req.ts endTs
    { s.setBucket place assigned.1 with
      subRowByRequestSeq := s.subRowByRequestSeq.set req.seq assigned.2
      bars := s.bars ++ [{
        kind := kind
        name := req.name
        requestSeq := req.seq
        terminalSeq := terminal.map (·.seq)
        startTs := req.ts
        endTs := endTs
        row := 0
        location := place.location
        errored := terminal.any fun t => isErrorKind t.kind
        orphan := terminal.isNone
        timerId := if isAnyTimerEvent req then timerIdFromEvent view req else none }] }

/-- The offset of each depth, `none` for a depth without bars, and the number of rows. -/
def depthOffsets (buckets : Buckets) : List (Option Nat) × Nat :=
  let depths := match buckets.keys.max? with
    | none => 0
    | some depth => depth + 1
  (List.range depths).foldl (fun (offsets, offset) d =>
    match ((buckets.get? d).map (·.subRows.length)).getD 0 with
    | 0 => (offsets ++ [none], offset)
    | subs + 1 => (offsets ++ [some offset], offset + (subs + 1))) ([], 0)

def setRow (s : BarState) (places : OrderedMap Nat Place) (bar : LaidOutBar) : LaidOutBar :=
  let depth := (placeOf places bar.requestSeq).depth
  let subRow := (s.subRowByRequestSeq.get? bar.requestSeq).getD 0
  { bar with
    row :=
      match (depthOffsets (s.buckets bar.location)).1[depth]? with
      | some (some offset) => offset + subRow
      | _ => depth }

/-! ## Markers and connectors -/

def isMarker (event : InvocationEvent V) : Bool :=
  !(isRequestKind event.kind || isResponseKind event.kind || isErrorKind event.kind)

def layMarker (view : InputView V) (rowBySeq : OrderedMap Nat (Nat × Location))
    (event : InvocationEvent V) : LaidOutMarker :=
  let auto := isTimerClearMarker event && event.ref = none
  let parent := if auto then none else event.ref.bind rowBySeq.get?
  let read (f : V → Option Rat) := if event.kind = "system.exhaustion" then event.input.bind f else none
  { kind := event.kind
    name := event.name
    seq := event.seq
    ts := event.ts
    row := (parent.map Prod.fst).getD 0
    location := (parent.map Prod.snd).getD .main
    timerId := if isAnyTimerEvent event then timerIdFromEvent view event else none
    auto := auto
    budget := read view.budget
    observed := read view.observed }

def pct (value total : Int) : Rat := if total ≤ 0 then 0 else (value : Rat) / total * 100

def yForRow (row : Nat) (location : Location) (mainRows : Nat) : Nat :=
  match location with
  | .main => row * 22 + 2
  | .track => mainRows * 22 + 12 + 14 + row * 22 + 2

def connect (triggerTs totalDurationTs : Int) (mainRowsTotal : Nat) (markerRow : Location → Option Nat)
    (bars : List LaidOutBar) (marker : LaidOutMarker) : List LaidOutConnector :=
  match marker.timerId with
  | none => []
  | some timerId =>
    if marker.kind = "system.call" ∧ marker.name ∈ timerRegistrationNames ∧ timerId ≠ "" then
      (bars.filter fun bar => bar.timerId = some timerId).map fun bar => {
        timerId := timerId
        setSeq := marker.seq
        requestSeq := bar.requestSeq
        originX := pct (marker.ts - triggerTs) totalDurationTs
        originY :=
          yForRow ((markerRow marker.location).getD marker.row) marker.location mainRowsTotal + 18
        targetX := pct (bar.startTs - triggerTs) totalDurationTs
        targetY := yForRow bar.row bar.location mainRowsTotal }
    else []

/-! ## The layout -/

/-- The rest of `computeLayout`, once both events and the lanes are known. -/
def layOut (view : InputView V) (events : List (InvocationEvent V)) (places : OrderedMap Nat Place)
    (triggerEvent terminalEvent : InvocationEvent V) : Layout V :=
  let totalDurationTs := max 1 (terminalEvent.ts - triggerEvent.ts)
  let laid := (requestEvents events).foldl
    (layBar view places (terminalByRef events) terminalEvent) ⟨.empty, .empty, .empty, []⟩
  let bars := laid.bars.map (setRow laid places)
  let mainRows := (depthOffsets laid.mainBuckets).2
  let trackRows := (depthOffsets laid.trackBuckets).2
  let rowBySeq : OrderedMap Nat (Nat × Location) :=
    bars.foldl (fun m b => m.set b.requestSeq (b.row, b.location))
      (OrderedMap.empty.set triggerEvent.seq (0, .main))
  let markers := (events.filter isMarker).map (layMarker view rowBySeq)
  let hasMarkers (location : Location) := markers.any fun m => m.location = location
  let markerRow : Location → Option Nat
    | .main => if hasMarkers .main then some mainRows else none
    | .track => if hasMarkers .track then some trackRows else none
  let mainRowsTotal := mainRows + if hasMarkers .main then 1 else 0
  let trackRowsTotal := trackRows + if hasMarkers .track then 1 else 0
  { bars := bars
    markers := markers
    connectors :=
      markers.flatMap (connect triggerEvent.ts totalDurationTs mainRowsTotal markerRow bars)
    mainRows := max mainRowsTotal 1
    trackRows := trackRowsTotal
    mainMarkerRow := markerRow .main
    trackMarkerRow := markerRow .track
    totalDurationTs := totalDurationTs
    triggerEvent := triggerEvent
    terminalEvent := terminalEvent
    status := if terminalEvent.kind = "trigger.response" then .succeeded else .failed }

def computeLayout (view : InputView V) (events : List (InvocationEvent V)) : LayoutResult V :=
  match findTrigger events with
  | none => .null
  | some triggerEvent =>
    match findTerminal events triggerEvent with
    | none => .null
    | some terminalEvent =>
      match classifyAll events with
      | none => .overflow
      | some places => .layout (layOut view events places triggerEvent terminalEvent)

/-! ## Where the timestamps come from -/

theorem get?_addTerminal {m : OrderedMap Nat (InvocationEvent V)} {e x : InvocationEvent V} {r : Nat}
    (h : (addTerminal m e).get? r = some x) : x = e ∨ m.get? r = some x := by
  unfold addTerminal at h
  split at h
  · split at h
    · rw [OrderedMap.get?_set] at h
      split at h
      · cases h
        exact Or.inl rfl
      · exact Or.inr h
    · exact Or.inr h
  · exact Or.inr h

theorem mem_of_terminalByRef (events : List (InvocationEvent V)) :
    ∀ ref e, (terminalByRef events).get? ref = some e → e ∈ events := by
  refine List.foldlRecOn (motive := fun m => ∀ ref e, m.get? ref = some e → e ∈ events) events
    addTerminal ?_ ?_
  · simp
  · intro m hm x hx ref e he
    rcases get?_addTerminal he with rfl | he
    · exact hx
    · exact hm ref e he

theorem bars_layBar {view : InputView V} {places : OrderedMap Nat Place}
    {terminals : OrderedMap Nat (InvocationEvent V)} {terminalEvent : InvocationEvent V}
    {s : BarState} {req : InvocationEvent V} {bar : LaidOutBar}
    (h : bar ∈ (layBar view places terminals terminalEvent s req).bars) :
    bar ∈ s.bars ∨
      (bar.startTs = req.ts ∧ bar.endTs = ((terminals.get? req.seq).getD terminalEvent).ts) := by
  unfold layBar at h
  split at h
  · exact Or.inl h
  · rcases List.mem_append.mp h with h | h
    · exact Or.inl h
    · rw [List.mem_singleton.mp h]
      exact Or.inr ⟨rfl, rfl⟩

/-- A bar starts and ends at the timestamps of events of the list. -/
theorem mem_bars_layOut {view : InputView V} {events : List (InvocationEvent V)}
    {places : OrderedMap Nat Place} {triggerEvent terminalEvent : InvocationEvent V}
    (hterminal : terminalEvent ∈ events) {bar : LaidOutBar}
    (h : bar ∈ (layOut view events places triggerEvent terminalEvent).bars) :
    ∃ e ∈ events, ∃ e' ∈ events, bar.startTs = e.ts ∧ bar.endTs = e'.ts := by
  have hbars : ∀ b ∈ ((requestEvents events).foldl
      (layBar view places (terminalByRef events) terminalEvent) ⟨.empty, .empty, .empty, []⟩).bars,
      ∃ e ∈ events, ∃ e' ∈ events, b.startTs = e.ts ∧ b.endTs = e'.ts := by
    refine List.foldlRecOn (motive := fun s : BarState => ∀ b ∈ s.bars, ∃ e ∈ events, ∃ e' ∈ events,
      b.startTs = e.ts ∧ b.endTs = e'.ts) (requestEvents events) _ (by simp) ?_
    intro s hs req hreq b hb
    rcases bars_layBar hb with hb | ⟨hstart, hend⟩
    · exact hs b hb
    · have hreq : req ∈ events := List.mem_of_mem_filter (List.mem_mergeSort.mp hreq)
      refine ⟨req, hreq, _, ?_, hstart, hend⟩
      cases hget : (terminalByRef events).get? req.seq with
      | none => exact hterminal
      | some e => exact mem_of_terminalByRef events _ e hget
  obtain ⟨b, hb, rfl⟩ := List.mem_map.mp h
  exact hbars b hb

/-- A layout is drawn from a trigger request and a terminal event of the list. -/
theorem computeLayout_eq_layout {view : InputView V} {events : List (InvocationEvent V)}
    {layout : Layout V} (h : computeLayout view events = .layout layout) :
    ∃ places triggerEvent terminalEvent, findTrigger events = some triggerEvent ∧
      findTerminal events triggerEvent = some terminalEvent ∧
      layout = layOut view events places triggerEvent terminalEvent := by
  unfold computeLayout at h
  split at h
  · cases h
  · rename_i triggerEvent htrigger
    split at h
    · cases h
    · rename_i terminalEvent hterminal
      split at h
      · cases h
      · rename_i places _
        cases h
        exact ⟨places, triggerEvent, terminalEvent, htrigger, hterminal, rfl⟩

/-! ## Refs that point back -/

theorem mem_of_bySeq {events : List (InvocationEvent V)} {seq : Nat} {e : InvocationEvent V}
    (h : (bySeq events).get? seq = some e) : e ∈ events ∧ e.seq = seq := by
  rcases OrderedMap.mem_of_get?_foldl_set (fun x : InvocationEvent V => x.seq) id events h with
    ⟨x, hx, hseq, rfl⟩ | hnone
  · exact ⟨hx, hseq⟩
  · cases hnone

theorem countP_seq_lt {events : List (InvocationEvent V)} {e : InvocationEvent V} (he : e ∈ events)
    {n : Nat} (hn : e.seq < n) :
    events.countP (fun x => x.seq < e.seq) < events.countP (fun x => x.seq < n) := by
  have hsub : events.countP (fun x => x.seq < e.seq) =
      (events.filter fun x => x.seq < n).countP fun x => x.seq < e.seq := by
    rw [List.countP_filter]
    apply List.countP_congr
    intro x _
    simp only [decide_eq_true_eq, Bool.and_eq_true]
    omega
  have hlen : events.countP (fun x => x.seq < n) = (events.filter fun x => x.seq < n).length :=
    List.countP_eq_length_filter
  rw [hsub, hlen, List.countP_lt_length_iff]
  exact ⟨e, List.mem_filter.mpr ⟨he, by simpa using hn⟩, by simp⟩

/-- Each step up goes to a smaller seq, so the fuel is never used up. -/
theorem classify_isSome {events : List (InvocationEvent V)}
    (hback : ∀ e ∈ events, ∀ r, e.ref = some r → r < e.seq) (fuel : Nat)
    (places : OrderedMap Nat Place) {event : InvocationEvent V} (hevent : event ∈ events)
    (hfuel : events.countP (fun x => x.seq < event.seq) < fuel) :
    (classify (bySeq events) fuel places event).isSome = true := by
  induction fuel generalizing places event with
  | zero => cases hfuel
  | succ fuel ih =>
    unfold classify
    split
    · rfl
    · split
      · rfl
      · rename_i ref href
        split
        · rfl
        · rename_i parent hparent
          obtain ⟨hmem, hseq⟩ := mem_of_bySeq hparent
          have hlt := countP_seq_lt hmem (hseq ▸ hback event hevent ref href)
          rw [Option.isSome_map]
          exact ih places hmem (by omega)

theorem exists_classifyAll {events : List (InvocationEvent V)}
    (hback : ∀ e ∈ events, ∀ r, e.ref = some r → r < e.seq) :
    ∃ places, classifyAll events = some places := by
  have hloop : ∀ (xs : List (InvocationEvent V)) (places : OrderedMap Nat Place), xs ⊆ events →
      ∃ result, exec (fun places e =>
        (classify (bySeq events) (events.length + 1) places e).map Prod.fst) places xs = some result := by
    intro xs
    induction xs with
    | nil => exact fun places _ => ⟨places, rfl⟩
    | cons x xs ih =>
      intro places hsub
      have hsome := classify_isSome hback (events.length + 1) places (hsub List.mem_cons_self)
        (Nat.lt_succ_of_le List.countP_le_length)
      obtain ⟨next, hnext⟩ := Option.isSome_iff_exists.mp hsome
      obtain ⟨result, hresult⟩ := ih next.1 fun y hy => hsub (List.mem_cons_of_mem x hy)
      exact ⟨result, exec_cons_eq_some.mpr ⟨next.1, by simp [hnext], hresult⟩⟩
  exact hloop events .empty (List.Subset.refl _)

end WorkflowEngine.Runtime
