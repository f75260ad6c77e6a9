import Mathlib
import WorkflowEngine.Lib.FirstFit
import WorkflowEngine.Runtime.Flamegraph

/-!
# Bars without overlap

What a layout of the flame graph guarantees. The sub-rows of one depth are first-fit rows and the depths of
a lane are stacked groups; the memoised classification is compared with lanes and depths read off the refs.
-/

namespace WorkflowEngine.Runtime.FlamegraphLayout

set_option autoImplicit false

open Lib

universe u
variable {V : Type u}

/-! ## Intervals and rows -/

/-- The open interval of time that a bar covers. -/
def span (i : Interval) : Set ℚ := Set.Ioo (i.startTs : ℚ) (i.endTs : ℚ)

/-- The test for an overlap of a new interval with one on the row. -/
def overlaps (new old : Interval) : Bool := new.startTs < old.endTs && new.endTs > old.startTs

theorem disjoint_span {new old : Interval} (h : overlaps new old = false) : Disjoint (span old) (span new) := by
  rw [Set.disjoint_left]
  rintro t ⟨hold, hold'⟩ ⟨hnew, hnew'⟩
  have hstart : new.startTs < old.endTs := by exact_mod_cast lt_trans hnew hold'
  have hend : old.startTs < new.endTs := by exact_mod_cast lt_trans hold hnew'
  simp [overlaps, hstart, hend] at h

theorem assignSubRow_eq_place (startTs endTs : Int) (rows : List (List Interval)) :
    assignSubRow startTs endTs rows = FirstFit.place overlaps ⟨startTs, endTs⟩ rows := by
  induction rows with
  | nil => rfl
  | cons row rows ih =>
    rw [assignSubRow, FirstFit.place, ih]
    rfl

theorem greedyAssignSubRow_eq (bucket : RowBucket) (startTs endTs : Int) :
    greedyAssignSubRow bucket startTs endTs =
      (⟨(FirstFit.place overlaps ⟨startTs, endTs⟩ bucket.subRows).1⟩,
        (FirstFit.place overlaps ⟨startTs, endTs⟩ bucket.subRows).2) := by
  rw [greedyAssignSubRow, assignSubRow_eq_place]

def interval (b : LaidOutBar) : Interval := ⟨b.startTs, b.endTs⟩

def rowsAt (s : BarState) (place : Place) : List (List Interval) :=
  (((s.buckets place.location).get? place.depth).getD ⟨[]⟩).subRows

def subRowOf (s : BarState) (b : LaidOutBar) : Nat := (s.subRowByRequestSeq.get? b.requestSeq).getD 0

/-- The bars that stand on one sub-row of a place. -/
def barsOn (places : OrderedMap Nat Place) (s : BarState) (place : Place) (i : Nat) : List LaidOutBar :=
  s.bars.filter fun b => placeOf places b.requestSeq = place ∧ subRowOf s b = i

/-- The buckets hold the intervals of the bars, row by row, and no row has an overlap. -/
structure Packed (places : OrderedMap Nat Place) (s : BarState) : Prop where
  located : ∀ b ∈ s.bars, b.location = (placeOf places b.requestSeq).location
  rows : ∀ place i, FirstFit.rowAt (rowsAt s place) i = (barsOn places s place i).map interval
  nonempty : ∀ place, ∀ row ∈ rowsAt s place, row ≠ []
  apart : ∀ place, ∀ row ∈ rowsAt s place, row.Pairwise fun a b => Disjoint (span a) (span b)

theorem packed_empty (places : OrderedMap Nat Place) : Packed places ⟨.empty, .empty, .empty, []⟩ where
  located := by simp
  rows := by
    intro place i
    cases hlane : place.location <;> simp [rowsAt, BarState.buckets, hlane, barsOn]
  nonempty := by
    intro place
    cases hlane : place.location <;> simp [rowsAt, BarState.buckets, hlane]
  apart := by
    intro place
    cases hlane : place.location <;> simp [rowsAt, BarState.buckets, hlane]

/-! ## Laying one bar -/

section LayBar
variable (view : InputView V) (places : OrderedMap Nat Place) (terminals : OrderedMap Nat (InvocationEvent V))
  (terminalEvent : InvocationEvent V) (s : BarState) (req : InvocationEvent V)

/-- Laying a bar puts it at the end and its interval on the first row of its place that is free. -/
structure Laid (s : BarState) (bar : LaidOutBar) (place : Place) (s' : BarState) : Prop where
  bars : s'.bars = s.bars ++ [bar]
  location : bar.location = place.location
  rowsAt_self : rowsAt s' place = (FirstFit.place overlaps (interval bar) (rowsAt s place)).1
  rowsAt_other : ∀ place', place' ≠ place → rowsAt s' place' = rowsAt s place'
  subRow : s'.subRowByRequestSeq =
    s.subRowByRequestSeq.set bar.requestSeq (FirstFit.place overlaps (interval bar) (rowsAt s place)).2

theorem rowsAt_setBucket_self (place : Place) (bucket : RowBucket) :
    rowsAt (s.setBucket place bucket) place = bucket.subRows := by
  unfold rowsAt BarState.setBucket
  cases hlane : place.location <;> simp [BarState.buckets]

theorem rowsAt_setBucket_other {place place' : Place} (h : place' ≠ place) (bucket : RowBucket) :
    rowsAt (s.setBucket place bucket) place' = rowsAt s place' := by
  obtain ⟨lane, depth⟩ := place
  obtain ⟨lane', depth'⟩ := place'
  unfold rowsAt BarState.setBucket
  by_cases hlane : lane' = lane
  · subst hlane
    have hdepth : depth' ≠ depth := fun hdepth => h (by rw [hdepth])
    cases lane' <;> simp [BarState.buckets, OrderedMap.get?_set_of_ne _ _ _ hdepth]
  · cases lane <;> cases lane' <;> first | exact absurd rfl hlane | rfl

theorem layBar_cases :
    ((barKindFromEventKind req.kind).isSome = false ∧ layBar view places terminals terminalEvent s req = s) ∨
      ((barKindFromEventKind req.kind).isSome = true ∧ ∃ bar : LaidOutBar, bar.requestSeq = req.seq ∧
        Laid s bar (placeOf places req.seq) (layBar view places terminals terminalEvent s req)) := by
  unfold layBar
  cases hkind : barKindFromEventKind req.kind with
  | none => exact Or.inl ⟨rfl, rfl⟩
  | some kind =>
    refine Or.inr ⟨rfl, _, ?_, rfl, ?_, ?_, ?_, ?_⟩
    · rfl
    · rfl
    · refine (rowsAt_setBucket_self s _ _).trans ?_
      rw [greedyAssignSubRow_eq]
      rfl
    · exact fun place' h => rowsAt_setBucket_other s h _
    · refine congrArg (s.subRowByRequestSeq.set req.seq) ?_
      rw [greedyAssignSubRow_eq]
      rfl

end LayBar

section Step
variable {places : OrderedMap Nat Place} {s s' : BarState} {bar : LaidOutBar}

theorem Laid.subRowOf_self {place : Place} (hlaid : Laid s bar place s') :
    subRowOf s' bar = (FirstFit.place overlaps (interval bar) (rowsAt s place)).2 := by
  rw [subRowOf, hlaid.subRow, OrderedMap.get?_set_self]
  rfl

theorem Laid.subRowOf_other {place : Place} (hlaid : Laid s bar place s') {b : LaidOutBar}
    (hb : b.requestSeq ≠ bar.requestSeq) : subRowOf s' b = subRowOf s b := by
  rw [subRowOf, hlaid.subRow, OrderedMap.get?_set_of_ne _ _ _ hb]
  rfl

theorem Laid.barsOn_eq (hlaid : Laid s bar (placeOf places bar.requestSeq) s')
    (hfresh : ∀ b ∈ s.bars, b.requestSeq ≠ bar.requestSeq) (place : Place) (i : Nat) :
    barsOn places s' place i = barsOn places s place i ++
      if placeOf places bar.requestSeq = place ∧ subRowOf s' bar = i then [bar] else [] := by
  rw [barsOn, hlaid.bars, List.filter_append]
  congr 1
  · refine List.filter_congr fun b hb => ?_
    rw [hlaid.subRowOf_other (hfresh b hb)]
  · by_cases hon : placeOf places bar.requestSeq = place ∧ subRowOf s' bar = i <;> simp [hon]

/-- Laying a bar of a new request keeps the buckets packed. -/
theorem Packed.step (h : Packed places s) (hlaid : Laid s bar (placeOf places bar.requestSeq) s')
    (hfresh : ∀ b ∈ s.bars, b.requestSeq ≠ bar.requestSeq) : Packed places s' where
  located := by
    intro b hb
    rw [hlaid.bars, List.mem_append, List.mem_singleton] at hb
    rcases hb with hb | rfl
    · exact h.located b hb
    · exact hlaid.location
  rows := by
    intro place i
    rw [hlaid.barsOn_eq hfresh, List.map_append, ← h.rows]
    by_cases hplace : placeOf places bar.requestSeq = place
    · subst hplace
      rw [hlaid.rowsAt_self, FirstFit.rowAt_place, hlaid.subRowOf_self]
      congr 1
      split_ifs with hi hon hon
      · rfl
      · exact absurd ⟨rfl, hi.symm⟩ hon
      · exact absurd hon.2.symm hi
      · rfl
    · rw [hlaid.rowsAt_other place (Ne.symm hplace), if_neg fun hon => hplace hon.1]
      simp
  nonempty := by
    intro place
    by_cases hplace : place = placeOf places bar.requestSeq
    · rw [hplace, hlaid.rowsAt_self]
      exact FirstFit.place_ne_nil (h.nonempty _)
    · rw [hlaid.rowsAt_other place hplace]
      exact h.nonempty place
  apart := by
    intro place
    by_cases hplace : place = placeOf places bar.requestSeq
    · rw [hplace, hlaid.rowsAt_self]
      exact FirstFit.place_pairwise (fun _ => disjoint_span) (h.apart _)
    · rw [hlaid.rowsAt_other place hplace]
      exact h.apart place

end Step

/-! ## Laying all bars -/

def hasBar (req : InvocationEvent V) : Bool := (barKindFromEventKind req.kind).isSome

section Run
variable (view : InputView V) (places : OrderedMap Nat Place) (terminals : OrderedMap Nat (InvocationEvent V))
  (terminalEvent : InvocationEvent V)

/-- The bars are those of the requests, in their order, and the buckets stay packed. -/
theorem packed_foldl (reqs : List (InvocationEvent V)) (s : BarState) (h : Packed places s)
    (hnodup : (s.bars.map (·.requestSeq) ++ reqs.map (·.seq)).Nodup) :
    Packed places (reqs.foldl (layBar view places terminals terminalEvent) s) ∧
      (reqs.foldl (layBar view places terminals terminalEvent) s).bars.map (·.requestSeq) =
        s.bars.map (·.requestSeq) ++ (reqs.filter hasBar).map (·.seq) := by
  induction reqs generalizing s with
  | nil => simpa using h
  | cons req reqs ih =>
    rw [List.foldl_cons]
    rcases layBar_cases view places terminals terminalEvent s req with ⟨hkind, heq⟩ | ⟨hkind, bar, hseq, hlaid⟩
    · rw [heq, List.filter_cons_of_neg (by simpa [hasBar] using hkind)]
      refine ih s h (hnodup.sublist ?_)
      exact ((List.sublist_cons_self req.seq _).append_left _)
    · have hbars : (layBar view places terminals terminalEvent s req).bars.map (·.requestSeq) =
          s.bars.map (·.requestSeq) ++ [req.seq] := by
        rw [hlaid.bars, List.map_append, List.map_singleton, hseq]
      have hfresh : ∀ b ∈ s.bars, b.requestSeq ≠ bar.requestSeq := by
        intro b hb heq
        refine (List.nodup_append'.mp hnodup).2.2 (List.mem_map_of_mem hb) ?_
        rw [heq, hseq]
        exact List.mem_cons_self
      obtain ⟨hpacked, hall⟩ := ih _ (h.step (hseq ▸ hlaid) hfresh) (by
        rw [hbars, List.append_assoc]
        exact hnodup)
      refine ⟨hpacked, ?_⟩
      rw [hall, hbars, List.filter_cons_of_pos (show hasBar req = true from hkind), List.map_cons,
        List.append_assoc]
      rfl

end Run

/-! ## Rows of a lane -/

/-- The number of sub-rows of a depth. -/
def height (buckets : Buckets) (d : Nat) : Nat := ((buckets.get? d).map (·.subRows.length)).getD 0

/-- The number of depths up to the last one with a bucket. -/
def depths (buckets : Buckets) : Nat :=
  match buckets.keys.max? with
  | none => 0
  | some depth => depth + 1

/-- Depths with bars are stacked. -/
theorem depthOffsets_eq (buckets : Buckets) :
    depthOffsets buckets =
      ((List.range (depths buckets)).map fun d =>
        if height buckets d = 0 then none else some (FirstFit.offset (height buckets) d),
        FirstFit.offset (height buckets) (depths buckets)) := by
  unfold depthOffsets
  change (List.range (depths buckets)).foldl _ ([], 0) = _
  induction depths buckets with
  | zero => rfl
  | succ n ih =>
    rw [List.range_succ, List.foldl_append, ih, List.map_append, FirstFit.offset_succ, List.foldl_cons,
      List.foldl_nil]
    cases hheight : ((buckets.get? n).map (·.subRows.length)).getD 0 with
    | zero => simp [height, hheight]
    | succ subs => simp [height, hheight]

theorem lt_depths {buckets : Buckets} {d : Nat} (h : 0 < height buckets d) : d < depths buckets := by
  have hkey : d ∈ buckets.keys := by
    by_contra hkey
    rw [height, (OrderedMap.get?_eq_none_iff buckets d).mpr hkey] at h
    simp at h
  unfold depths
  cases hmax : buckets.keys.max? with
  | none =>
    rw [List.max?_eq_none_iff.mp hmax] at hkey
    cases hkey
  | some m => exact Nat.lt_succ_of_le ((List.max?_eq_some_iff.mp hmax).2 d hkey)

theorem offset_of_height {buckets : Buckets} {d : Nat} (h : 0 < height buckets d) :
    (depthOffsets buckets).1[d]? = some (some (FirstFit.offset (height buckets) d)) := by
  rw [depthOffsets_eq, List.getElem?_map, List.getElem?_range (lt_depths h), Option.map_some,
    if_neg (Nat.pos_iff_ne_zero.mp h)]

theorem height_eq (s : BarState) (lane : Location) (d : Nat) :
    height (s.buckets lane) d = (rowsAt s ⟨lane, d⟩).length := by
  unfold height rowsAt
  cases (s.buckets lane).get? d <;> rfl

section Rows
variable {places : OrderedMap Nat Place} {s : BarState}

theorem mem_barsOn {place : Place} {i : Nat} {b : LaidOutBar} :
    b ∈ barsOn places s place i ↔ b ∈ s.bars ∧ placeOf places b.requestSeq = place ∧ subRowOf s b = i := by
  simp [barsOn]

/-- A bar stands in its lane at its depth. -/
theorem Packed.placeOf_eq (h : Packed places s) {b : LaidOutBar} (hb : b ∈ s.bars) :
    placeOf places b.requestSeq = ⟨b.location, (placeOf places b.requestSeq).depth⟩ := by
  rw [h.located b hb]

theorem Packed.subRow_lt (h : Packed places s) {b : LaidOutBar} (hb : b ∈ s.bars) :
    subRowOf s b < height (s.buckets b.location) (placeOf places b.requestSeq).depth := by
  rw [height_eq, ← h.placeOf_eq hb]
  apply FirstFit.lt_length_of_rowAt_ne_nil
  rw [h.rows]
  have hon : b ∈ barsOn places s (placeOf places b.requestSeq) (subRowOf s b) := mem_barsOn.mpr ⟨hb, rfl, rfl⟩
  exact List.ne_nil_of_mem (List.mem_map_of_mem hon)

theorem Packed.row_eq (h : Packed places s) {b : LaidOutBar} (hb : b ∈ s.bars) :
    (setRow s places b).row =
      FirstFit.offset (height (s.buckets b.location)) (placeOf places b.requestSeq).depth + subRowOf s b := by
  simp only [setRow, offset_of_height (Nat.zero_lt_of_lt (h.subRow_lt hb))]
  rfl

theorem Packed.row_lt (h : Packed places s) {b : LaidOutBar} (hb : b ∈ s.bars) :
    (setRow s places b).row < (depthOffsets (s.buckets b.location)).2 := by
  have hsub := h.subRow_lt hb
  rw [h.row_eq hb, depthOffsets_eq]
  exact FirstFit.offset_add_lt (lt_depths (Nat.zero_lt_of_lt hsub)) hsub 0

/-- Every row of a lane has a bar. -/
theorem Packed.exists_bar (h : Packed places s) {lane : Location} {r : Nat}
    (hr : r < (depthOffsets (s.buckets lane)).2) :
    ∃ b ∈ s.bars, b.location = lane ∧ (setRow s places b).row = r := by
  rw [depthOffsets_eq] at hr
  obtain ⟨d, _, i, hi, rfl⟩ := FirstFit.exists_group_of_lt hr
  rw [height_eq] at hi
  have hne := h.nonempty _ _ (FirstFit.rowAt_mem hi)
  rw [h.rows] at hne
  obtain ⟨b, hb⟩ := List.exists_mem_of_ne_nil _ (mt List.map_eq_nil_iff.mpr hne)
  obtain ⟨hbar, hplace, hsub⟩ := mem_barsOn.mp hb
  have hlane : b.location = lane := by rw [h.located b hbar, hplace]
  exact ⟨b, hbar, hlane, by rw [h.row_eq hbar, hplace, hsub, hlane]⟩

theorem Packed.row_inj (h : Packed places s) {a b : LaidOutBar} (ha : a ∈ s.bars) (hb : b ∈ s.bars)
    (hlane : a.location = b.location) (hrow : (setRow s places a).row = (setRow s places b).row) :
    placeOf places a.requestSeq = placeOf places b.requestSeq ∧ subRowOf s a = subRowOf s b := by
  have hsuba := h.subRow_lt ha
  rw [h.row_eq ha, h.row_eq hb, hlane] at hrow
  rw [hlane] at hsuba
  obtain ⟨hdepth, hsub⟩ := FirstFit.eq_of_offset_add_eq hsuba (h.subRow_lt hb) hrow
  rw [h.placeOf_eq ha, h.placeOf_eq hb, hlane, hdepth]
  exact ⟨rfl, hsub⟩

theorem Packed.row_lt_of_depth_lt (h : Packed places s) {a b : LaidOutBar} (ha : a ∈ s.bars) (hb : b ∈ s.bars)
    (hlane : a.location = b.location)
    (hdepth : (placeOf places a.requestSeq).depth < (placeOf places b.requestSeq).depth) :
    (setRow s places a).row < (setRow s places b).row := by
  have hsuba := h.subRow_lt ha
  rw [h.row_eq ha, h.row_eq hb, hlane]
  rw [hlane] at hsuba
  exact FirstFit.offset_add_lt hdepth hsuba _

/-- Bars on one row do not overlap. -/
theorem Packed.pairwise_disjoint (h : Packed places s) :
    s.bars.Pairwise fun a b => a.location = b.location →
      (setRow s places a).row = (setRow s places b).row → Disjoint (span (interval a)) (span (interval b)) := by
  rw [List.pairwise_iff_forall_sublist]
  intro a b hsub hlane hrow
  have ha : a ∈ s.bars := hsub.subset List.mem_cons_self
  have hb : b ∈ s.bars := hsub.subset (List.mem_cons_of_mem a List.mem_cons_self)
  obtain ⟨hplace, hsubRow⟩ := h.row_inj ha hb hlane hrow
  have hon : [a, b].Sublist (barsOn places s (placeOf places b.requestSeq) (subRowOf s b)) := by
    have hfilter := hsub.filter fun c =>
      placeOf places c.requestSeq = placeOf places b.requestSeq ∧ subRowOf s c = subRowOf s b
    rwa [List.filter_eq_self.mpr (by simp [hplace, hsubRow])] at hfilter
  have hrows := hon.map interval
  rw [← h.rows] at hrows
  have hlt := h.subRow_lt hb
  rw [height_eq, ← h.placeOf_eq hb] at hlt
  have hpair := (h.apart _ _ (FirstFit.rowAt_mem hlt)).sublist hrows
  exact (List.pairwise_cons.mp hpair).1 _ List.mem_cons_self

end Rows

/-! ## Lanes and depths by the refs -/

/-- The lane and the depth of an event, read off the refs. -/
inductive Stands (events : List (InvocationEvent V)) : InvocationEvent V → Place → Prop
  | root {e : InvocationEvent V} (href : e.ref = none) :
    Stands events e ⟨if isTimerCallbackRequest e then .track else .main, 0⟩
  | lost {e : InvocationEvent V} {r : Nat} (href : e.ref = some r) (hnone : ∀ x ∈ events, x.seq ≠ r) :
    Stands events e ⟨.main, 0⟩
  | child {e parent : InvocationEvent V} {place : Place} (hparent : parent ∈ events)
    (href : e.ref = some parent.seq) (hplace : Stands events parent place) :
    Stands events e ⟨place.location, place.depth + 1⟩

section Classify
variable {events : List (InvocationEvent V)}

theorem eq_of_seq_eq (hdistinct : (events.map (·.seq)).Nodup) {a b : InvocationEvent V} (ha : a ∈ events)
    (hb : b ∈ events) (hseq : a.seq = b.seq) : a = b :=
  List.inj_on_of_nodup_map hdistinct ha hb hseq

theorem Stands.unique (hdistinct : (events.map (·.seq)).Nodup) {e : InvocationEvent V} {p q : Place}
    (hp : Stands events e p) (hq : Stands events e q) : p = q := by
  induction hp generalizing q with
  | root href =>
    cases hq with
    | root _ => rfl
    | lost href' _ => rw [href] at href'; cases href'
    | child _ href' _ => rw [href] at href'; cases href'
  | lost href hnone =>
    cases hq with
    | root href' => rw [href] at href'; cases href'
    | lost _ _ => rfl
    | child hparent href' _ =>
      rw [href] at href'
      exact absurd (Option.some.inj href').symm (hnone _ hparent)
  | child hparent href hplace ih =>
    cases hq with
    | root href' => rw [href] at href'; cases href'
    | lost href' hnone =>
      rw [href] at href'
      exact absurd (Option.some.inj href') (hnone _ hparent)
    | child hparent' href' hplace' =>
      rw [href] at href'
      have hsame := eq_of_seq_eq hdistinct hparent hparent' (Option.some.inj href')
      subst hsame
      rw [ih hplace']

/-- Every entry of the memo is the place of its event. -/
def Sound (events : List (InvocationEvent V)) (places : OrderedMap Nat Place) : Prop :=
  ∀ seq place, places.get? seq = some place → ∃ e ∈ events, e.seq = seq ∧ Stands events e place

theorem Sound.set {places : OrderedMap Nat Place} (h : Sound events places) {e : InvocationEvent V}
    (he : e ∈ events) {place : Place} (hplace : Stands events e place) : Sound events (places.set e.seq place) := by
  intro seq p hp
  rw [OrderedMap.get?_set] at hp
  split_ifs at hp with hseq
  · cases hp
    exact ⟨e, he, hseq.symm, hplace⟩
  · exact h seq p hp

theorem isSome_set {places : OrderedMap Nat Place} {seq k : Nat} (place : Place)
    (h : (places.get? seq).isSome) : ((places.set k place).get? seq).isSome := by
  rw [OrderedMap.get?_set]
  split_ifs
  · rfl
  · exact h

theorem get?_bySeq_eq_none {r : Nat} (h : (bySeq events).get? r = none) : ∀ x ∈ events, x.seq ≠ r := by
  intro x hx hseq
  rw [OrderedMap.get?_eq_none_iff] at h
  exact h ((OrderedMap.mem_keys_foldl_set (fun e : InvocationEvent V => e.seq) id events .empty r).mpr
    (Or.inl (List.mem_map.mpr ⟨x, hx, hseq⟩)))

/-- Classifying an event gives its place and keeps the memo sound; nothing is forgotten. -/
theorem classify_spec (hdistinct : (events.map (·.seq)).Nodup) (fuel : Nat) {places places' : OrderedMap Nat Place}
    (hsound : Sound events places) {e : InvocationEvent V} (he : e ∈ events) {place : Place}
    (h : classify (bySeq events) fuel places e = some (places', place)) :
    Sound events places' ∧ Stands events e place ∧ (places'.get? e.seq).isSome ∧
      ∀ seq, (places.get? seq).isSome → (places'.get? seq).isSome := by
  induction fuel generalizing places places' e place with
  | zero => cases h
  | succ fuel ih =>
    rw [classify] at h
    cases hmemo : places.get? e.seq with
    | some known =>
      rw [hmemo] at h
      cases h
      obtain ⟨x, hx, hseq, hplace⟩ := hsound _ _ hmemo
      rw [eq_of_seq_eq hdistinct hx he hseq] at hplace
      exact ⟨hsound, hplace, by rw [hmemo]; rfl, fun _ => id⟩
    | none =>
      rw [hmemo] at h
      cases href : e.ref with
      | none =>
        rw [href] at h
        cases h
        have hplace : Stands events e _ := .root href
        exact ⟨hsound.set he hplace, hplace, by simp, fun _ => isSome_set _⟩
      | some r =>
        rw [href] at h
        cases hparent : (bySeq events).get? r with
        | none =>
          simp only [hparent] at h
          cases h
          have hplace : Stands events e ⟨.main, 0⟩ := .lost href (get?_bySeq_eq_none hparent)
          exact ⟨hsound.set he hplace, hplace, by simp, fun _ => isSome_set _⟩
        | some parent =>
          simp only [hparent] at h
          obtain ⟨⟨places₁, parentPlace⟩, hclassified, heq⟩ := Option.map_eq_some_iff.mp h
          cases heq
          obtain ⟨hmem, hseq⟩ := mem_of_bySeq hparent
          obtain ⟨hsound₁, hstands, _, hkept⟩ := ih hsound hmem hclassified
          have hplace : Stands events e ⟨parentPlace.location, parentPlace.depth + 1⟩ :=
            .child hmem (hseq ▸ href) hstands
          exact ⟨hsound₁.set he hplace, hplace, by simp, fun seq hsome => isSome_set _ (hkept seq hsome)⟩

/-- The loop leaves the place of every event. -/
theorem classifyAll_spec (hdistinct : (events.map (·.seq)).Nodup) {places : OrderedMap Nat Place}
    (h : classifyAll events = some places) : ∀ e ∈ events, Stands events e (placeOf places e.seq) := by
  have hloop : ∀ (xs : List (InvocationEvent V)) (m m' : OrderedMap Nat Place), xs ⊆ events → Sound events m →
      exec (fun places e => (classify (bySeq events) (events.length + 1) places e).map Prod.fst) m xs = some m' →
      Sound events m' ∧ (∀ seq, (m.get? seq).isSome → (m'.get? seq).isSome) ∧
        ∀ x ∈ xs, (m'.get? x.seq).isSome := by
    intro xs
    induction xs with
    | nil =>
      intro m m' _ hsound hexec
      cases hexec
      exact ⟨hsound, fun _ => id, by simp⟩
    | cons x xs ih =>
      intro m m' hsub hsound hexec
      obtain ⟨m₁, hstep, hrest⟩ := exec_cons_eq_some.mp hexec
      obtain ⟨⟨m₁, place⟩, hclassify, rfl⟩ := Option.map_eq_some_iff.mp hstep
      obtain ⟨hsound₁, _, hsome, hkept⟩ := classify_spec hdistinct _ hsound (hsub List.mem_cons_self) hclassify
      obtain ⟨hsound', hkept', hall⟩ :=
        ih m₁ m' (fun y hy => hsub (List.mem_cons_of_mem x hy)) hsound₁ hrest
      refine ⟨hsound', fun seq hseq => hkept' seq (hkept seq hseq), ?_⟩
      intro y hy
      rcases List.mem_cons.mp hy with rfl | hy
      · exact hkept' _ hsome
      · exact hall y hy
  obtain ⟨hsound, _, hall⟩ := hloop events .empty places (List.Subset.refl _) (by intro seq p hp; cases hp) h
  intro e he
  obtain ⟨place, hplace⟩ := Option.isSome_iff_exists.mp (hall e he)
  obtain ⟨x, hx, hseq, hstands⟩ := hsound _ _ hplace
  rw [eq_of_seq_eq hdistinct hx he hseq] at hstands
  rw [placeOf, hplace]
  exact hstands

end Classify

/-! ## The layout -/

/-- The rows of a lane above its row of markers. -/
def barRows (layout : Layout V) : Location → Nat
  | .main => layout.mainMarkerRow.getD layout.mainRows
  | .track => layout.trackMarkerRow.getD layout.trackRows

/-- The place that the refs give to the request of a bar. -/
def BarStands (events : List (InvocationEvent V)) (b : LaidOutBar) (place : Place) : Prop :=
  ∃ e ∈ events, e.seq = b.requestSeq ∧ Stands events e place

/-- The request of bar `a` refers to that of bar `b`. -/
def ParentBar (events : List (InvocationEvent V)) (a b : LaidOutBar) : Prop :=
  ∃ e ∈ events, e.seq = a.requestSeq ∧ e.ref = some b.requestSeq

structure WellLaid (events : List (InvocationEvent V)) (layout : Layout V) : Prop where
  apart : layout.bars.Pairwise fun a b =>
    a.location = b.location → a.row = b.row → Disjoint (span (interval a)) (span (interval b))
  stands : ∀ b ∈ layout.bars, ∃ place, BarStands events b place ∧ place.location = b.location
  depths : ∀ a ∈ layout.bars, ∀ b ∈ layout.bars, a.location = b.location → ∀ p q, BarStands events a p →
    BarStands events b q → p.depth ≠ q.depth → a.row ≠ b.row
  below : ∀ a ∈ layout.bars, ∀ b ∈ layout.bars, a.location = b.location → ParentBar events a b → b.row < a.row
  bounded : ∀ b ∈ layout.bars, b.row < barRows layout b.location
  filled : ∀ lane r, r < barRows layout lane → ∃ b ∈ layout.bars, b.location = lane ∧ b.row = r
  once : ∀ e ∈ events, isRequestKind e.kind → (barKindFromEventKind e.kind).isSome →
    (layout.bars.filter fun b => b.requestSeq = e.seq).length = 1

section Assembly
variable {view : InputView V} {events : List (InvocationEvent V)} {places : OrderedMap Nat Place}
  {triggerEvent terminalEvent : InvocationEvent V}

theorem mem_requestEvents {e : InvocationEvent V} :
    e ∈ requestEvents events ↔ e ∈ events ∧ isRequestKind e.kind = true := by
  rw [requestEvents, List.mem_mergeSort, List.mem_filter]

theorem nodup_requestEvents (hdistinct : (events.map (·.seq)).Nodup) :
    ((requestEvents events).map (·.seq)).Nodup := by
  have hperm := (List.mergeSort_perm (events.filter fun e => isRequestKind e.kind) startsBefore).map (·.seq)
  exact hperm.nodup_iff.mpr (hdistinct.sublist (List.filter_sublist.map _))

/-- The state of the loop over the requests at its end. -/
def laidBars (view : InputView V) (events : List (InvocationEvent V)) (places : OrderedMap Nat Place)
    (terminalEvent : InvocationEvent V) : BarState :=
  (requestEvents events).foldl (layBar view places (terminalByRef events) terminalEvent)
    ⟨.empty, .empty, .empty, []⟩

theorem bars_layOut : (layOut view events places triggerEvent terminalEvent).bars =
    (laidBars view events places terminalEvent).bars.map
      (setRow (laidBars view events places terminalEvent) places) := rfl

theorem laidBars_spec (hdistinct : (events.map (·.seq)).Nodup) :
    Packed places (laidBars view events places terminalEvent) ∧
      (laidBars view events places terminalEvent).bars.map (·.requestSeq) =
        ((requestEvents events).filter hasBar).map (·.seq) :=
  packed_foldl view places (terminalByRef events) terminalEvent (requestEvents events) _ (packed_empty places)
    (nodup_requestEvents hdistinct)

/-- The bars are those of the request events. -/
theorem bar_iff_request (hdistinct : (events.map (·.seq)).Nodup) {seq : Nat} :
    (∃ b ∈ (laidBars view events places terminalEvent).bars, b.requestSeq = seq) ↔
      ∃ e ∈ events, isRequestKind e.kind ∧ hasBar e ∧ e.seq = seq := by
  have hmem : seq ∈ (laidBars view events places terminalEvent).bars.map (·.requestSeq) ↔
      seq ∈ ((requestEvents events).filter hasBar).map (·.seq) := by rw [(laidBars_spec hdistinct).2]
  rw [List.mem_map, List.mem_map] at hmem
  refine hmem.trans (exists_congr fun e => ?_)
  rw [List.mem_filter, mem_requestEvents, and_assoc, and_assoc]

theorem barStands_placeOf (hdistinct : (events.map (·.seq)).Nodup) (hplaces : classifyAll events = some places)
    {b : LaidOutBar} (hb : b ∈ (laidBars view events places terminalEvent).bars) :
    BarStands events b (placeOf places b.requestSeq) := by
  obtain ⟨e, he, _, _, hseq⟩ := (bar_iff_request hdistinct).mp ⟨b, hb, rfl⟩
  exact ⟨e, he, hseq, hseq ▸ classifyAll_spec hdistinct hplaces e he⟩

theorem BarStands.unique (hdistinct : (events.map (·.seq)).Nodup) {b : LaidOutBar} {p q : Place}
    (hp : BarStands events b p) (hq : BarStands events b q) : p = q := by
  obtain ⟨e, he, hseq, hstands⟩ := hp
  obtain ⟨e', he', hseq', hstands'⟩ := hq
  rw [← eq_of_seq_eq hdistinct he he' (hseq.trans hseq'.symm)] at hstands'
  exact hstands.unique hdistinct hstands'

/-- A bar stands one deeper than its parent. -/
theorem depth_parent (hdistinct : (events.map (·.seq)).Nodup) {a b : LaidOutBar} {p q : Place}
    (hp : BarStands events a p) (hq : BarStands events b q) (hparent : ParentBar events a b) :
    p.depth = q.depth + 1 := by
  obtain ⟨e, he, hseq, href⟩ := hparent
  obtain ⟨x, hx, hxseq, hstands⟩ := hq
  have hchild : BarStands events a ⟨q.location, q.depth + 1⟩ :=
    ⟨e, he, hseq, .child hx (by rw [href, hxseq]) hstands⟩
  rw [hp.unique hdistinct hchild]

/-- The trigger has a bar in the main lane, so that lane has a row. -/
theorem mainRows_pos (hdistinct : (events.map (·.seq)).Nodup) (hplaces : classifyAll events = some places)
    (htrigger : findTrigger events = some triggerEvent) :
    0 < (depthOffsets (laidBars view events places terminalEvent).mainBuckets).2 := by
  have hmem := List.mem_of_find?_eq_some htrigger
  have hfound := List.find?_some htrigger
  simp only [decide_eq_true_eq, Bool.and_eq_true] at hfound
  obtain ⟨hkind, href⟩ := hfound
  have hstands : Stands events triggerEvent ⟨.main, 0⟩ := by
    have hroot : Stands events triggerEvent _ := .root href
    have htimer : isTimerCallbackRequest triggerEvent = false := by
      rw [isTimerCallbackRequest, hkind]
      rfl
    rwa [htimer] at hroot
  have hrequest : isRequestKind triggerEvent.kind ∧ hasBar triggerEvent := by
    rw [hasBar, hkind]
    decide
  have hpacked : Packed places (laidBars view events places terminalEvent) := (laidBars_spec hdistinct).1
  obtain ⟨b, hb, hseq⟩ := (bar_iff_request hdistinct).mpr ⟨triggerEvent, hmem, hrequest.1, hrequest.2, rfl⟩
  have hlane : b.location = .main := by
    rw [hpacked.located b hb]
    have hplace := (barStands_placeOf hdistinct hplaces hb).unique hdistinct ⟨triggerEvent, hmem, hseq.symm, hstands⟩
    rw [hplace]
  have hrow := hpacked.row_lt hb
  rw [hlane] at hrow
  exact Nat.zero_lt_of_lt hrow

theorem barRows_layOut
    (hmain : 0 < (depthOffsets (laidBars view events places terminalEvent).mainBuckets).2) (lane : Location) :
    barRows (layOut view events places triggerEvent terminalEvent) lane =
      (depthOffsets ((laidBars view events places terminalEvent).buckets lane)).2 := by
  cases lane with
  | main =>
    change (ite _ _ _ : Option Nat).getD (max ((depthOffsets
      (laidBars view events places terminalEvent).mainBuckets).2 + ite _ _ _) 1) = _
    split_ifs
    · rfl
    · exact Nat.max_eq_left hmain
  | track =>
    change (ite _ _ _ : Option Nat).getD ((depthOffsets
      (laidBars view events places terminalEvent).trackBuckets).2 + ite _ _ _) = _
    split_ifs
    · rfl
    · rfl

/-- A trigger with two actions that overlap. -/
def overlappingActions : List (InvocationEvent Unit) :=
  [event 0 none "trigger.request" 0, event 1 (some 0) "action.request" 10, event 2 (some 0) "action.request" 15,
    event 3 (some 1) "action.response" 20, event 4 (some 2) "action.error" 25, event 5 (some 0) "trigger.response" 30]
where
  event (seq : Nat) (ref : Option Nat) (kind : String) (ts : Int) : InvocationEvent Unit :=
    { kind := kind, name := "run", ts := ts, atIso := "", input := none, output := none, error := none,
      seq := seq, ref := ref, id := "evt_1", owner := "o", repo := "r", workflow := "w", workflowSha := "s",
      metadata := none }

end Assembly

end WorkflowEngine.Runtime.FlamegraphLayout
