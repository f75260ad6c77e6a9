import WorkflowEngine.Lib.Kahn
import WorkflowEngine.Sandbox.PluginBoot

/-!
# Sorting plugins by their dependencies

Model of `topoSortPlugins` in `plugin-compose.ts` and of the walk that names a cycle. A `Set` is the list
of its members in the order of insertion. The loops run on fuel.
-/

namespace WorkflowEngine.Sandbox.PluginBoot

set_option autoImplicit false

open Lib

structure PluginDependencyCycleError where
  cycle : List String
  deriving DecidableEq, Repr

def PluginDependencyCycleError.message (e : PluginDependencyCycleError) : String :=
  "plugin dependency cycle: " ++ " -> ".intercalate e.cycle

structure TopoState where
  byName : OrderedMap String PluginDescriptor
  pendingDeps : OrderedMap String (List String)
  dependents : OrderedMap String (List String)

/-- The first loop of `buildTopoState`. -/
def TopoState.add (s : TopoState) (d : PluginDescriptor) : TopoState where
  byName := s.byName.set d.name d
  pendingDeps := s.pendingDeps.set d.name d.dependencies.eraseDups
  dependents := s.dependents.set d.name []

/-- `dependents.get(dep)?.push(name)`. -/
def addDependent (name : String) (dependents : OrderedMap String (List String)) (dep : String) :
    OrderedMap String (List String) :=
  match dependents.get? dep with
  | some list => dependents.set dep (list ++ [name])
  | none => dependents

/-- The second loop of `buildTopoState`. -/
def addDependents (dependents : OrderedMap String (List String)) (d : PluginDescriptor) :
    OrderedMap String (List String) :=
  d.dependencies.foldl (addDependent d.name) dependents

def buildTopoState (descriptors : List PluginDescriptor) : TopoState :=
  let s := descriptors.foldl TopoState.add ⟨.empty, .empty, .empty⟩
  { s with dependents := descriptors.foldl addDependents s.dependents }

def initialReadyQueue (descriptors : List PluginDescriptor) (pendingDeps : OrderedMap String (List String)) :
    List String :=
  (descriptors.filter fun d => pendingDeps.get? d.name = some []).map (·.name)

/-- What the loop of `topoSortPlugins` changes. -/
structure TopoRun where
  pendingDeps : OrderedMap String (List String)
  ready : List String
  ordered : List PluginDescriptor

/-- One turn of the inner loop: a dependent that lacks nothing more is queued. -/
def TopoRun.release (current : String) (run : TopoRun) (dependent : String) : TopoRun :=
  match run.pendingDeps.get? dependent with
  | none => run
  | some pend =>
    let pend := pend.filter (· ≠ current)
    { run with
      pendingDeps := run.pendingDeps.set dependent pend
      ready := if pend = [] then run.ready ++ [dependent] else run.ready }

/-- One turn of the outer loop. -/
def TopoRun.process (s : TopoState) (run : TopoRun) (current : String) (rest : List String) : TopoRun :=
  let run : TopoRun := { run with
    ready := rest
    ordered := match s.byName.get? current with
      | some descriptor => run.ordered ++ [descriptor]
      | none => run.ordered }
  ((s.dependents.get? current).getD []).foldl (TopoRun.release current) run

def topoLoop (s : TopoState) : Nat → TopoRun → Option TopoRun
  | 0, _ => none
  | fuel + 1, run =>
    match run.ready with
    | [] => some run
    | current :: rest => topoLoop s fuel (run.process s current rest)

/-- `[...deps][0]`. -/
def firstPending (pendingDeps : OrderedMap String (List String)) (name : String) : Option String :=
  (pendingDeps.get? name).bind List.head?

/-- `visited` holds what is on the path. -/
def findCycle (fuel : Nat) (descriptors : List PluginDescriptor)
    (pendingDeps : OrderedMap String (List String)) : Option (List String) :=
  match descriptors.filter fun d => ((pendingDeps.get? d.name).map List.length).getD 0 > 0 with
  | [] => some []
  | start :: _ => walk (firstPending pendingDeps) fuel [] start.name

def topoSortPlugins (fuel : Nat) (descriptors : List PluginDescriptor) :
    Option (Except PluginDependencyCycleError (List PluginDescriptor)) :=
  let s := buildTopoState descriptors
  match topoLoop s fuel ⟨s.pendingDeps, initialReadyQueue descriptors s.pendingDeps, []⟩ with
  | none => none
  | some run =>
    if run.ordered.length ≠ descriptors.length then
      (findCycle fuel descriptors run.pendingDeps).map fun cycle => .error ⟨cycle⟩
    else some (.ok run.ordered)

theorem topoLoop_mono {s : TopoState} {fuel fuel' : Nat} {run final : TopoRun} (hle : fuel ≤ fuel')
    (h : topoLoop s fuel run = some final) : topoLoop s fuel' run = some final := by
  induction fuel generalizing fuel' run with
  | zero => cases h
  | succ fuel ih =>
    cases fuel' with
    | zero => omega
    | succ fuel' =>
      rw [topoLoop] at h ⊢
      split at h
      · exact h
      · exact ih (by omega) h

/-- Every fuel with which the sort ends gives the same result. -/
theorem topoSortPlugins_mono {ds : List PluginDescriptor} {fuel fuel' : Nat}
    {result : Except PluginDependencyCycleError (List PluginDescriptor)} (hle : fuel ≤ fuel')
    (h : topoSortPlugins fuel ds = some result) : topoSortPlugins fuel' ds = some result := by
  unfold topoSortPlugins at h ⊢
  dsimp only at h ⊢
  split at h
  · cases h
  · rename_i run hloop
    rw [topoLoop_mono hle hloop]
    dsimp only
    split at h
    · rename_i hne
      obtain ⟨cycle, hcycle, rfl⟩ := Option.map_eq_some_iff.mp h
      rw [if_pos hne]
      unfold findCycle at hcycle ⊢
      split at hcycle
      · cases hcycle
        rfl
      · rw [walk_mono hle hcycle]
        rfl
    · rename_i heq
      rwa [if_neg heq]

theorem topoSortPlugins_unique {ds : List PluginDescriptor} {fuel fuel' : Nat}
    {result result' : Except PluginDependencyCycleError (List PluginDescriptor)}
    (h : topoSortPlugins fuel ds = some result) (h' : topoSortPlugins fuel' ds = some result') : result = result' := by
  rcases Nat.le_total fuel fuel' with hle | hle
  · exact Option.some.inj ((topoSortPlugins_mono hle h).symm.trans h')
  · exact Option.some.inj (h.symm.trans (topoSortPlugins_mono hle h'))

/-! ## The graph of the descriptors -/

/-- What the plugin of a name depends on. -/
def dependenciesOf (ds : List PluginDescriptor) (name : String) : List String :=
  ((ds.find? (·.name = name)).map PluginDescriptor.dependencies).getD []

section Graph
variable {ds : List PluginDescriptor}

theorem find?_name (hnodup : (ds.map (·.name)).Nodup) {d : PluginDescriptor} (hd : d ∈ ds) :
    ds.find? (·.name = d.name) = some d := by
  cases hfind : ds.find? (·.name = d.name) with
  | none => simpa using List.find?_eq_none.mp hfind d hd
  | some e =>
    have hname : e.name = d.name := by simpa using List.find?_some hfind
    rw [List.inj_on_of_nodup_map hnodup (List.mem_of_find?_eq_some hfind) hd hname]

theorem dependenciesOf_name (hnodup : (ds.map (·.name)).Nodup) {d : PluginDescriptor} (hd : d ∈ ds) :
    dependenciesOf ds d.name = d.dependencies := by
  rw [dependenciesOf, find?_name hnodup hd]
  rfl

theorem names_iff_dependsOn (hnodup : (ds.map (·.name)).Nodup) (p q : String) :
    Kahn.Names (ds.map (·.name)) (dependenciesOf ds) p q ↔ DependsOn ds p q := by
  constructor
  · rintro ⟨hp, hq⟩
    obtain ⟨d, hd, rfl⟩ := List.mem_map.mp hp
    rw [dependenciesOf_name hnodup hd] at hq
    exact ⟨d, hd, rfl, hq⟩
  · rintro ⟨d, hd, rfl, hq⟩
    exact ⟨List.mem_map_of_mem hd, by rwa [dependenciesOf_name hnodup hd]⟩

end Graph

/-! ## What `buildTopoState` builds -/

/-- The first member with a property is the same in a list and in the set of it. -/
theorem find?_eraseDups (p : String → Bool) (xs : List String) : xs.eraseDups.find? p = xs.find? p := by
  induction hn : xs.length using Nat.strongRecOn generalizing xs with
  | _ n ih =>
    cases xs with
    | nil => rfl
    | cons x xs =>
      rw [List.eraseDups_cons, List.find?_cons, List.find?_cons]
      cases hx : p x with
      | true => rfl
      | false =>
        have hlen : (xs.filter fun y => !y == x).length < n := by
          have hle := List.length_filter_le (fun y => !y == x) xs
          rw [List.length_cons] at hn
          omega
        simp only
        rw [ih _ hlen _ rfl, List.find?_filter]
        congr 1
        funext y
        by_cases hy : y = x
        · rw [hy, hx]
          simp
        · simp [hy]

section Build
variable {ds : List PluginDescriptor}

theorem foldl_add (s : TopoState) :
    ds.foldl TopoState.add s =
      ⟨ds.foldl (fun m d => m.set d.name d) s.byName,
        ds.foldl (fun m d => m.set d.name d.dependencies.eraseDups) s.pendingDeps,
        ds.foldl (fun m d => m.set d.name []) s.dependents⟩ := by
  induction ds generalizing s with
  | nil => rfl
  | cons d ds ih => exact ih (s.add d)

theorem get?_byName (hnodup : (ds.map (·.name)).Nodup) {d : PluginDescriptor} (hd : d ∈ ds) :
    (buildTopoState ds).byName.get? d.name = some d := by
  rw [buildTopoState, foldl_add]
  exact (OrderedMap.get?_foldl_set _ _ ds hnodup _ _ _).mpr (Or.inl ⟨d, hd, rfl, rfl⟩)

theorem get?_pendingDeps (hnodup : (ds.map (·.name)).Nodup) (name : String) :
    (buildTopoState ds).pendingDeps.get? name =
      if name ∈ ds.map (·.name) then some (dependenciesOf ds name).eraseDups else none := by
  have hget := OrderedMap.get?_foldl_set (·.name) (fun d : PluginDescriptor => d.dependencies.eraseDups) ds hnodup
    .empty name
  rw [buildTopoState, foldl_add]
  split
  · rename_i hmem
    obtain ⟨d, hd, rfl⟩ := List.mem_map.mp hmem
    rw [dependenciesOf_name hnodup hd]
    exact (hget _).mpr (Or.inl ⟨d, hd, rfl, rfl⟩)
  · rename_i hmem
    rw [Option.eq_none_iff_forall_ne_some]
    intro v hv
    rcases (hget v).mp hv with ⟨d, hd, rfl, _⟩ | ⟨_, hempty⟩
    · exact hmem (List.mem_map_of_mem hd)
    · cases hempty

theorem get?_foldl_addDependent (name : String) (deps : List String) (m : OrderedMap String (List String)) (c : String) :
    (deps.foldl (addDependent name) m).get? c = (m.get? c).map fun list => list ++ List.replicate (deps.count c) name := by
  induction deps generalizing m with
  | nil => simp
  | cons dep deps ih =>
    rw [List.foldl_cons, ih]
    by_cases hc : c = dep
    · subst hc
      rw [List.count_cons_self, List.replicate_succ]
      unfold addDependent
      cases hget : m.get? c with
      | none => simp [hget]
      | some list => simp
    · rw [List.count_cons_of_ne (fun h => hc h.symm)]
      unfold addDependent
      split
      · rw [OrderedMap.get?_set_of_ne _ _ _ hc]
      · rfl

theorem get?_foldl_addDependents (m : OrderedMap String (List String)) (c : String) :
    (ds.foldl addDependents m).get? c =
      (m.get? c).map fun list => list ++ ds.flatMap fun d => List.replicate (d.dependencies.count c) d.name := by
  induction ds generalizing m with
  | nil => simp
  | cons d ds ih =>
    rw [List.foldl_cons, ih, addDependents, get?_foldl_addDependent, Option.map_map]
    congr 1
    funext list
    simp

/-- A plugin stands in the list of a dependency as often as it names it. -/
theorem get?_dependents (hnodup : (ds.map (·.name)).Nodup) {c : String} (hc : c ∈ ds.map (·.name)) :
    (buildTopoState ds).dependents.get? c =
      some (ds.flatMap fun d => List.replicate (d.dependencies.count c) d.name) := by
  obtain ⟨d, hd, rfl⟩ := List.mem_map.mp hc
  have hempty : (ds.foldl (fun (m : OrderedMap String (List String)) d => m.set d.name []) .empty).get? d.name =
      some [] :=
    (OrderedMap.get?_foldl_set _ _ ds hnodup _ _ _).mpr (Or.inl ⟨d, hd, rfl, rfl⟩)
  rw [buildTopoState, foldl_add]
  simp only [get?_foldl_addDependents, hempty, Option.map_some, List.nil_append]

end Build

/-! ## The loop as a queue -/

/-- What the inner loop leaves: the names of a set that the completed plugin is taken from. -/
theorem foldl_release (current : String) (xs : List String) (run : TopoRun) :
    (xs.foldl (TopoRun.release current) run).ordered = run.ordered ∧
      (xs.foldl (TopoRun.release current) run).ready =
        run.ready ++ xs.filter (fun y => (run.pendingDeps.get? y).map (·.filter (· ≠ current)) = some []) ∧
      ∀ y, (xs.foldl (TopoRun.release current) run).pendingDeps.get? y =
        if y ∈ xs then (run.pendingDeps.get? y).map (·.filter (· ≠ current)) else run.pendingDeps.get? y := by
  induction xs generalizing run with
  | nil => simp
  | cons x xs ih =>
    obtain ⟨hordered, hready, hpending⟩ := ih (run.release current x)
    have hget : ∀ y, (run.release current x).pendingDeps.get? y =
        if y = x then (run.pendingDeps.get? y).map (·.filter (· ≠ current)) else run.pendingDeps.get? y := by
      intro y
      unfold TopoRun.release
      split
      · rename_i hnone
        split
        · rename_i hyx
          rw [hyx, hnone]
          rfl
        · rfl
      · rename_i pend hsome
        rw [OrderedMap.get?_set]
        split
        · rename_i hyx
          rw [hyx, hsome]
          rfl
        · rfl
    have htwice : ∀ y, ((run.release current x).pendingDeps.get? y).map (·.filter (· ≠ current)) =
        (run.pendingDeps.get? y).map (·.filter (· ≠ current)) := by
      intro y
      rw [hget]
      split
      · rw [Option.map_map]
        congr 1
        funext list
        simp
      · rfl
    rw [List.foldl_cons]
    refine ⟨?_, ?_, ?_⟩
    · rw [hordered]
      unfold TopoRun.release
      split
      · rfl
      · rfl
    · rw [hready, List.filter_cons]
      simp only [htwice]
      unfold TopoRun.release
      split
      · rename_i hnone
        simp [hnone]
      · rename_i pend hsome
        by_cases hempty : pend.filter (· ≠ current) = []
        · simp only [hsome, Option.map_some, hempty, if_true, decide_true, List.append_assoc, List.singleton_append]
        · simp only [hsome, Option.map_some, Option.some.injEq, hempty, if_false, decide_false, Bool.false_eq_true]
    · intro y
      rw [hpending, htwice, hget]
      by_cases hx : y = x
      · simp [hx]
      · by_cases hy : y ∈ xs
        · simp [hy]
        · simp [hx, hy]

section Refinement
variable {ds : List PluginDescriptor}

/-- The run and the queue of names that it stands for. -/
structure Refines (ds : List PluginDescriptor) (run : TopoRun) (q : Kahn.Queue String) : Prop where
  ready : run.ready = q.ready
  ordered : run.ordered.map (·.name) = q.done
  members : ∀ d ∈ run.ordered, d ∈ ds
  pending : ∀ name, run.pendingDeps.get? name =
    if name ∈ ds.map (·.name) then some ((dependenciesOf ds name).eraseDups.filter (· ∉ q.done)) else none

theorem eraseDups_eq_nil {xs : List String} : xs.eraseDups = [] ↔ xs = [] := by
  cases xs with
  | nil => simp
  | cons x xs => simp [List.eraseDups_cons]

theorem refines_start (hnodup : (ds.map (·.name)).Nodup) :
    Refines ds ⟨(buildTopoState ds).pendingDeps, initialReadyQueue ds (buildTopoState ds).pendingDeps, []⟩
      (Kahn.start (ds.map (·.name)) (dependenciesOf ds)) where
  ready := by
    change initialReadyQueue ds (buildTopoState ds).pendingDeps = (ds.map (·.name)).filter _
    rw [initialReadyQueue, List.filter_map]
    congr 1
    apply List.filter_congr
    intro d hd
    rw [get?_pendingDeps hnodup, if_pos (List.mem_map_of_mem hd)]
    simp only [Option.some.injEq, eraseDups_eq_nil, Function.comp_apply]
  ordered := rfl
  members := by
    intro d hd
    cases hd
  pending := by
    intro name
    rw [get?_pendingDeps hnodup]
    simp [Kahn.start]

/-- The dependents that the inner loop queues are the names that the completion of `c` releases. -/
theorem filter_dependents (hnodup : (ds.map (·.name)).Nodup) {run : TopoRun} {q : Kahn.Queue String}
    (h : Refines ds run q) (c : String) :
    (ds.flatMap fun d => List.replicate (d.dependencies.count c) d.name).filter
        (fun y => (run.pendingDeps.get? y).map (·.filter (· ≠ c)) = some []) =
      Kahn.released (ds.map (·.name)) (dependenciesOf ds) q.done c := by
  rw [Kahn.released, List.flatMap_map, List.filter_flatMap]
  apply List.flatMap_congr
  intro d hd
  have hnone : (run.pendingDeps.get? d.name).map (·.filter (· ≠ c)) = some [] ↔
      ∀ q' ∈ dependenciesOf ds d.name, q' ∈ q.done ++ [c] := by
    rw [h.pending, if_pos (List.mem_map_of_mem hd), Option.map_some, Option.some.injEq, List.filter_filter,
      List.filter_eq_nil_iff]
    refine forall_congr' fun q' => ?_
    rw [List.mem_eraseDups]
    refine imp_congr_right fun _ => ?_
    by_cases hq : q' = c
    · simp [hq]
    · simp [hq]
  rw [List.filter_replicate, Kahn.copies, dependenciesOf_name hnodup hd]
  rw [dependenciesOf_name hnodup hd] at hnone
  by_cases hall : ∀ q' ∈ d.dependencies, q' ∈ q.done ++ [c]
  · rw [if_pos (decide_eq_true (hnone.mpr hall)), if_pos hall]
  · rw [if_neg (fun hdec => hall (hnone.mp (of_decide_eq_true hdec))), if_neg hall]

theorem Refines.process (hnodup : (ds.map (·.name)).Nodup) {run : TopoRun} {q : Kahn.Queue String}
    (h : Refines ds run q) {c : String} {rest : List String} (hready : q.ready = c :: rest)
    (hc : c ∈ ds.map (·.name)) :
    Refines ds (run.process (buildTopoState ds) c rest)
      ⟨q.done ++ [c], rest ++ Kahn.released (ds.map (·.name)) (dependenciesOf ds) q.done c⟩ := by
  obtain ⟨d, hd, hname⟩ := List.mem_map.mp hc
  subst hname
  have hdependents := get?_dependents hnodup hc
  set xs := ds.flatMap fun e => List.replicate (e.dependencies.count d.name) e.name with hxs
  obtain ⟨hordered, hqueue, hpending⟩ := foldl_release d.name xs
    { run with ready := rest, ordered := run.ordered ++ [d] }
  have hprocess : run.process (buildTopoState ds) d.name rest =
      xs.foldl (TopoRun.release d.name) { run with ready := rest, ordered := run.ordered ++ [d] } := by
    unfold TopoRun.process
    simp only [get?_byName hnodup hd, hdependents, Option.getD_some]
  rw [hprocess]
  constructor
  · rw [hqueue]
    change rest ++ xs.filter (fun y => (run.pendingDeps.get? y).map (·.filter (· ≠ d.name)) = some []) = _
    rw [filter_dependents hnodup h]
  · rw [hordered, List.map_append, h.ordered]
    rfl
  · intro e he
    rw [hordered] at he
    rcases List.mem_append.mp he with he | he
    · exact h.members e he
    · exact List.mem_singleton.mp he ▸ hd
  · intro name
    rw [hpending]
    change (if name ∈ xs then (run.pendingDeps.get? name).map (·.filter (· ≠ d.name)) else
      run.pendingDeps.get? name) = _
    rw [h.pending]
    have hmem : name ∈ xs ↔ name ∈ ds.map (·.name) ∧ d.name ∈ dependenciesOf ds name := by
      rw [hxs, List.mem_flatMap]
      constructor
      · rintro ⟨e, he, hrep⟩
        obtain ⟨hcount, rfl⟩ := List.mem_replicate.mp hrep
        rw [dependenciesOf_name hnodup he]
        exact ⟨List.mem_map_of_mem he, List.count_pos_iff.mp (Nat.pos_of_ne_zero hcount)⟩
      · rintro ⟨hname, hdep⟩
        obtain ⟨e, he, rfl⟩ := List.mem_map.mp hname
        rw [dependenciesOf_name hnodup he] at hdep
        exact ⟨e, he, List.mem_replicate.mpr ⟨(List.count_pos_iff.mpr hdep).ne', rfl⟩⟩
    by_cases hin : name ∈ ds.map (·.name)
    · rw [if_pos hin, if_pos hin]
      by_cases hdep : d.name ∈ dependenciesOf ds name
      · rw [if_pos (hmem.mpr ⟨hin, hdep⟩), Option.map_some, List.filter_filter]
        congr 1
        apply List.filter_congr
        intro q' _
        by_cases hq : q' = d.name
        · simp [hq]
        · simp [hq]
      · rw [if_neg fun hx => hdep (hmem.mp hx).2]
        congr 1
        apply List.filter_congr
        intro q' hq'
        have hq : q' ≠ d.name := by
          rintro rfl
          exact hdep (List.mem_eraseDups.mp hq')
        simp [hq]
    · rw [if_neg hin, if_neg hin, if_neg fun hx => hin (hmem.mp hx).1]

/-- A run of the loop is a run of the queue, to its end. -/
theorem topoLoop_reached (hnodup : (ds.map (·.name)).Nodup) {fuel : Nat} {run final : TopoRun}
    {q : Kahn.Queue String} (h : Refines ds run q)
    (hq : Kahn.Reached (ds.map (·.name)) (dependenciesOf ds) q)
    (hloop : topoLoop (buildTopoState ds) fuel run = some final) :
    ∃ q', Refines ds final q' ∧ Kahn.Reached (ds.map (·.name)) (dependenciesOf ds) q' ∧ q'.ready = [] := by
  induction fuel generalizing run q with
  | zero => cases hloop
  | succ fuel ih =>
    rw [topoLoop] at hloop
    split at hloop
    · rename_i hnil
      cases hloop
      exact ⟨q, h, hq, h.ready ▸ hnil⟩
    · rename_i c rest hcons
      have hready : q.ready = c :: rest := h.ready ▸ hcons
      have hc : c ∈ ds.map (·.name) :=
        ((hq.inv.released_iff c).mp (List.mem_append_right _ (hready ▸ List.mem_cons_self))).1
      exact ih (h.process hnodup hready hc) (hq.tail ⟨c, rest, hready, rfl⟩) hloop

/-- Where no node is queued twice, the loop ends after at most one turn for each plugin. -/
theorem exists_topoLoop (hnodup : (ds.map (·.name)).Nodup)
    (hlast : Kahn.NamesLastOnce (ds.map (·.name)) (dependenciesOf ds)) {fuel : Nat} {run : TopoRun}
    {q : Kahn.Queue String} (h : Refines ds run q)
    (hq : Kahn.Reached (ds.map (·.name)) (dependenciesOf ds) q) (hfuel : ds.length < fuel + q.done.length) :
    ∃ final, topoLoop (buildTopoState ds) fuel run = some final := by
  have hsub : q.done.length + q.ready.length ≤ ds.length := by
    have hle := (List.subperm_of_subset (hq.ranked hnodup hlast).1 fun y hy =>
      ((hq.inv.released_iff y).mp hy).1).length_le
    rwa [List.length_append, List.length_map] at hle
  induction fuel generalizing run q with
  | zero => omega
  | succ fuel ih =>
    rw [topoLoop]
    split
    · exact ⟨run, rfl⟩
    · rename_i c rest hcons
      have hready : q.ready = c :: rest := h.ready ▸ hcons
      have hc : c ∈ ds.map (·.name) :=
        ((hq.inv.released_iff c).mp (List.mem_append_right _ (hready ▸ List.mem_cons_self))).1
      have hnext := hq.tail ⟨c, rest, hready, rfl⟩
      refine ih (h.process hnodup hready hc) hnext ?_ ?_
      · rw [List.length_append, List.length_singleton]
        omega
      · have hle := (List.subperm_of_subset (Kahn.Reached.ranked hnodup hlast hnext).1 fun y hy =>
          ((Kahn.Reached.inv hnext).released_iff y).mp hy |>.1).length_le
        rwa [List.length_append, List.length_map] at hle

/-- The pending dependencies lead where the walk over the queue's graph goes. -/
theorem Refines.firstPending_eq {run : TopoRun} {q : Kahn.Queue String} (h : Refines ds run q) :
    firstPending run.pendingDeps = Kahn.pendingHead (dependenciesOf ds) q.done := by
  funext name
  rw [firstPending, h.pending, Kahn.pendingHead]
  split
  · rw [Option.bind_some, List.head?_filter, find?_eraseDups]
  · rename_i hname
    have hnone : ds.find? (·.name = name) = none := by
      rw [List.find?_eq_none]
      intro d hd heq
      exact hname (List.mem_map.mpr ⟨d, hd, of_decide_eq_true heq⟩)
    rw [Option.bind_none, dependenciesOf, hnone]
    rfl

theorem Refines.pending_pos_iff {run : TopoRun} {q : Kahn.Queue String} (h : Refines ds run q)
    (hq : Kahn.Inv (ds.map (·.name)) (dependenciesOf ds) q) (hready : q.ready = []) {d : PluginDescriptor}
    (hd : d ∈ ds) : ((run.pendingDeps.get? d.name).map List.length).getD 0 > 0 ↔ d.name ∉ q.done := by
  have hmem := List.mem_map_of_mem (f := fun d : PluginDescriptor => d.name) hd
  have hdone : d.name ∈ q.done ↔ ∀ q' ∈ dependenciesOf ds d.name, q' ∈ q.done := by
    have hiff := hq.released_iff d.name
    rw [hready, List.append_nil] at hiff
    rw [hiff, and_iff_right hmem]
  rw [h.pending, if_pos hmem, Option.map_some, Option.getD_some, gt_iff_lt, List.length_pos_iff, ne_eq,
    List.filter_eq_nil_iff, hdone, not_iff_not]
  simp

/-- Where a plugin is left over, `findCycle` names a cycle of the dependencies. -/
theorem findCycle_isCycle (hnodup : (ds.map (·.name)).Nodup)
    (hclosed : ∀ d ∈ ds, ∀ q ∈ d.dependencies, q ∈ ds.map (·.name)) {run : TopoRun} {q : Kahn.Queue String}
    (h : Refines ds run q) (hq : Kahn.Inv (ds.map (·.name)) (dependenciesOf ds) q) (hready : q.ready = [])
    (hleft : ∃ name ∈ ds.map (·.name), name ∉ q.done) {fuel : Nat} (hfuel : ds.length < fuel) :
    ∃ cycle, findCycle fuel ds run.pendingDeps = some cycle ∧ IsCycle (DependsOn ds) cycle := by
  have hclosed' : ∀ x ∈ ds.map (·.name), ∀ y ∈ dependenciesOf ds x, y ∈ ds.map (·.name) := by
    intro x hx y hy
    obtain ⟨d, hd, rfl⟩ := List.mem_map.mp hx
    rw [dependenciesOf_name hnodup hd] at hy
    exact hclosed d hd y hy
  unfold findCycle
  split
  · rename_i hnil
    obtain ⟨name, hname, hnot⟩ := hleft
    obtain ⟨d, hd, rfl⟩ := List.mem_map.mp hname
    have hpos := (h.pending_pos_iff hq hready hd).mpr hnot
    exact absurd (decide_eq_true hpos) (List.filter_eq_nil_iff.mp hnil d hd)
  · rename_i start rest hcons
    have hstart : start ∈ ds.filter fun d => ((run.pendingDeps.get? d.name).map List.length).getD 0 > 0 :=
      hcons ▸ List.mem_cons_self
    obtain ⟨hd, hpos⟩ := List.mem_filter.mp hstart
    have hpending := (h.pending_pos_iff hq hready hd).mp (of_decide_eq_true hpos)
    obtain ⟨cycle, hwalk, hcycle⟩ := hq.walk_pending hready hclosed' ⟨List.mem_map_of_mem hd, hpending⟩
      (by rwa [List.length_map])
    refine ⟨cycle, ?_, hcycle.length, hcycle.ends, hcycle.steps.imp ?_⟩
    · rw [h.firstPending_eq]
      exact hwalk
    · intro x y hxy
      exact (names_iff_dependsOn hnodup x y).mp hxy

/-- What a return or a throw of the sort says about the queue that ran. -/
theorem topoSortPlugins_cases (hnodup : (ds.map (·.name)).Nodup) {fuel : Nat}
    {result : Except PluginDependencyCycleError (List PluginDescriptor)}
    (hsort : topoSortPlugins fuel ds = some result) :
    ∃ run q, Refines ds run q ∧ Kahn.Reached (ds.map (·.name)) (dependenciesOf ds) q ∧ q.ready = [] ∧
      ((run.ordered.length = ds.length ∧ result = .ok run.ordered) ∨
        run.ordered.length ≠ ds.length ∧
          ∃ cycle, findCycle fuel ds run.pendingDeps = some cycle ∧ result = .error ⟨cycle⟩) := by
  unfold topoSortPlugins at hsort
  dsimp only at hsort
  split at hsort
  · cases hsort
  · rename_i run hloop
    obtain ⟨q, hrefines, hreached, hready⟩ := topoLoop_reached hnodup (refines_start hnodup)
      Relation.ReflTransGen.refl hloop
    refine ⟨run, q, hrefines, hreached, hready, ?_⟩
    split at hsort
    · rename_i hne
      obtain ⟨cycle, hcycle, rfl⟩ := Option.map_eq_some_iff.mp hsort
      exact Or.inr ⟨hne, cycle, hcycle, rfl⟩
    · rename_i heq
      cases hsort
      exact Or.inl ⟨not_not.mp heq, rfl⟩

theorem dependenciesFirst_of_inv (hnodup : (ds.map (·.name)).Nodup) {run : TopoRun} {q : Kahn.Queue String}
    (h : Refines ds run q) (hq : Kahn.Inv (ds.map (·.name)) (dependenciesOf ds) q) :
    DependenciesFirst run.ordered := by
  intro i hi d hd dep hdep
  have hmem : d ∈ ds := h.members d (List.mem_of_getElem? hd)
  have hsplit : q.done = (run.ordered.take i).map (·.name) ++ d.name :: (run.ordered.drop (i + 1)).map (·.name) := by
    have hget := (List.getElem?_eq_some_iff.mp hd).2
    rw [← h.ordered, ← List.map_cons, ← List.map_append, ← hget, ← List.drop_eq_getElem_cons, List.take_append_drop]
  refine hq.sorted _ _ _ hsplit dep ?_
  rwa [dependenciesOf_name hnodup hmem]

theorem perm_of_names (hnodup : (ds.map (·.name)).Nodup) {run : TopoRun} {q : Kahn.Queue String}
    (h : Refines ds run q) (hdone : q.done.Nodup) (hall : ∀ name ∈ ds.map (·.name), name ∈ q.done) :
    run.ordered.Perm ds := by
  have hordered : (run.ordered.map (·.name)).Nodup := h.ordered ▸ hdone
  rw [List.perm_ext_iff_of_nodup hordered.of_map hnodup.of_map]
  intro d
  constructor
  · exact h.members d
  · intro hd
    have hname := hall d.name (List.mem_map_of_mem hd)
    rw [← h.ordered] at hname
    obtain ⟨e, he, hsame⟩ := List.mem_map.mp hname
    rw [← List.inj_on_of_nodup_map hnodup (h.members e he) hd hsame]
    exact he

end Refinement

/-! ## When the sort is right -/

/-- What the sort is for: dependencies first where there is no cycle, the name of a cycle where there is one. -/
def SortsOrReports (ds : List PluginDescriptor) : Prop :=
  ((¬∃ p, Relation.TransGen (DependsOn ds) p p) →
    ∃ fuel ordered, topoSortPlugins fuel ds = some (.ok ordered) ∧ ordered.Perm ds ∧ DependenciesFirst ordered) ∧
  ((∃ p, Relation.TransGen (DependsOn ds) p p) →
    ∃ fuel e, topoSortPlugins fuel ds = some (.error e) ∧ IsCycle (DependsOn ds) e.cycle)

/-- No plugin repeats the name of the dependency of greatest rank, the one that gets ready last. -/
def LastDependencyNamedOnce (ds : List PluginDescriptor) : Prop :=
  Kahn.NamesLastOnce (ds.map (·.name)) (dependenciesOf ds)

section Verdict
variable {ds : List PluginDescriptor}

theorem transGen_names (hnodup : (ds.map (·.name)).Nodup) {p q : String} :
    Relation.TransGen (Kahn.Names (ds.map (·.name)) (dependenciesOf ds)) p q ↔
      Relation.TransGen (DependsOn ds) p q := by
  have hsame : Kahn.Names (ds.map (·.name)) (dependenciesOf ds) = DependsOn ds := by
    funext x y
    exact propext (names_iff_dependsOn hnodup x y)
  rw [hsame]

theorem closed_of_serialized {vs : List PluginDescriptor} (h : serializePluginDescriptors ds = .ok vs) :
    (vs.map (·.name)).Nodup ∧ (∀ d ∈ vs, ∀ q ∈ d.dependencies, q ∈ vs.map (·.name)) ∧
      ∀ x ∈ vs.map (·.name), ∀ y ∈ dependenciesOf vs x, y ∈ vs.map (·.name) := by
  obtain ⟨rfl, hnodup, hclosed⟩ := serializePluginDescriptors_ok h
  refine ⟨hnodup, hclosed, ?_⟩
  intro x hx y hy
  obtain ⟨d, hd, rfl⟩ := List.mem_map.mp hx
  rw [dependenciesOf_name hnodup hd] at hy
  exact hclosed d hd y hy

theorem sorts_of_lastDependencyNamedOnce {vs : List PluginDescriptor} (h : serializePluginDescriptors ds = .ok vs)
    (hlast : LastDependencyNamedOnce vs) : SortsOrReports vs := by
  obtain ⟨hnodup, hclosed, hclosed'⟩ := closed_of_serialized h
  have hfuel : vs.length < vs.length + 1 + (Kahn.start (vs.map (·.name)) (dependenciesOf vs)).done.length := by
    simp [Kahn.start]
  obtain ⟨run, hloop⟩ := exists_topoLoop hnodup hlast (refines_start hnodup) Relation.ReflTransGen.refl hfuel
  obtain ⟨q, hrefines, hreached, hready⟩ := topoLoop_reached hnodup (refines_start hnodup)
    Relation.ReflTransGen.refl hloop
  have hdone : q.done.Nodup := (List.nodup_append'.mp (hreached.ranked hnodup hlast).1).1
  have hlength : run.ordered.length = q.done.length := by
    rw [← hrefines.ordered, List.length_map]
  constructor
  · intro hacyclic
    have hall : ∀ name ∈ vs.map (·.name), name ∈ q.done := by
      intro name hname
      refine hreached.inv.all_done hready hclosed' ?_ hname
      rintro ⟨p, hp⟩
      exact hacyclic ⟨p, (transGen_names hnodup).mp hp⟩
    have hperm := perm_of_names hnodup hrefines hdone hall
    refine ⟨vs.length + 1, run.ordered, ?_, hperm, dependenciesFirst_of_inv hnodup hrefines hreached.inv⟩
    unfold topoSortPlugins
    simp only [hloop, hperm.length_eq, ne_eq, not_true_eq_false, if_false]
  · rintro ⟨p, hp⟩
    have hp' := (transGen_names hnodup).mpr hp
    have hnot : p ∉ q.done := hreached.inv.not_cyclic hp'
    have hname : p ∈ vs.map (·.name) := by
      obtain ⟨_, hfirst, _⟩ := Relation.TransGen.head'_iff.mp hp'
      exact hfirst.1
    have hshort : run.ordered.length ≠ vs.length := by
      intro heq
      have hsub : q.done.Subperm (vs.map (·.name)) := List.subperm_of_subset hdone hreached.inv.done_subset
      have hperm := hsub.perm_of_length_le (by rw [List.length_map, ← heq, hlength])
      exact hnot (hperm.mem_iff.mpr hname)
    obtain ⟨cycle, hfind, hcycle⟩ := findCycle_isCycle hnodup hclosed hrefines hreached.inv hready ⟨p, hname, hnot⟩
      (Nat.lt_succ_self vs.length)
    refine ⟨vs.length + 1, ⟨cycle⟩, ?_, hcycle⟩
    unfold topoSortPlugins
    simp only [hloop, ne_eq, hshort, not_false_eq_true, if_true, hfind, Option.map_some]

/-- Without a cycle nothing less will do: a repeated last dependency queues its dependent twice. -/
theorem lastDependencyNamedOnce_of_sorts {vs : List PluginDescriptor} (h : serializePluginDescriptors ds = .ok vs)
    (hacyclic : ¬∃ p, Relation.TransGen (DependsOn vs) p p) (hsorts : SortsOrReports vs) :
    LastDependencyNamedOnce vs := by
  obtain ⟨hnodup, _, hclosed⟩ := closed_of_serialized h
  obtain ⟨fuel, ordered, hsort, hperm, _⟩ := hsorts.1 hacyclic
  obtain ⟨run, q, hrefines, hreached, hready, hresult⟩ := topoSortPlugins_cases hnodup hsort
  have hordered : run.ordered = ordered := by
    rcases hresult with ⟨_, heq⟩ | ⟨_, _, _, heq⟩
    · cases heq
      rfl
    · cases heq
  have hdone : q.done.Nodup := by
    rw [← hrefines.ordered, hordered]
    exact ((hperm.map (·.name)).nodup_iff).mpr hnodup
  refine hreached.namesLastOnce hnodup ?_ ?_
  · rw [hready, List.append_nil]
    exact hdone
  · intro x hx y hy
    rw [← hrefines.ordered, hordered]
    exact ((hperm.map (·.name)).mem_iff).mpr (hclosed x hx y hy)

/-- The sort is right when no last dependency is repeated, and on lists without a cycle only then. -/
theorem topoSortPlugins_right_iff {vs : List PluginDescriptor} (h : serializePluginDescriptors ds = .ok vs) :
    (LastDependencyNamedOnce vs → SortsOrReports vs) ∧
      ((¬∃ p, Relation.TransGen (DependsOn vs) p p) → (SortsOrReports vs ↔ LastDependencyNamedOnce vs)) := by
  refine ⟨sorts_of_lastDependencyNamedOnce h, ?_⟩
  intro hacyclic
  exact ⟨lastDependencyNamedOnce_of_sorts h hacyclic, sorts_of_lastDependencyNamedOnce h⟩

end Verdict

/-- Without a cycle, but with a dependency named twice, an empty cycle is thrown; with a cycle the two errors can
cancel. -/
theorem repeated_dependency_missorted :
    ¬SortsOrReports [plugin "a" [], plugin "b" ["a", "a"]] ∧
      ¬SortsOrReports [plugin "a" [], plugin "b" ["a", "a"], plugin "c" ["c"]] := by
  have hthrown : topoSortPlugins 4 [plugin "a" [], plugin "b" ["a", "a"]] = some (.error ⟨[]⟩) := rfl
  have hreturned : topoSortPlugins 4 [plugin "a" [], plugin "b" ["a", "a"], plugin "c" ["c"]] =
      some (.ok [plugin "a" [], plugin "b" ["a", "a"], plugin "b" ["a", "a"]]) := rfl
  constructor
  · intro h
    by_cases hcycle : ∃ p, Relation.TransGen (DependsOn [plugin "a" [], plugin "b" ["a", "a"]]) p p
    · obtain ⟨_, e, hsort, hreal⟩ := h.2 hcycle
      cases topoSortPlugins_unique hsort hthrown
      exact absurd hreal.length (by decide)
    · obtain ⟨_, _, hsort, _⟩ := h.1 hcycle
      cases topoSortPlugins_unique hsort hthrown
  · intro h
    have hself : DependsOn [plugin "a" [], plugin "b" ["a", "a"], plugin "c" ["c"]] "c" "c" :=
      ⟨plugin "c" ["c"], by simp, rfl, by decide⟩
    obtain ⟨_, e, hsort, _⟩ := h.2 ⟨"c", Relation.TransGen.single hself⟩
    cases topoSortPlugins_unique hsort hreturned

theorem sorts_two_plugins : SortsOrReports [plugin "b" ["a"], plugin "a" []] := by
  have hserial : serializePluginDescriptors [plugin "b" ["a"], plugin "a" []] =
      .ok [plugin "b" ["a"], plugin "a" []] := rfl
  refine (topoSortPlugins_right_iff hserial).1 ?_
  intro y hy last hlast _ _ _
  rcases List.mem_cons.mp hy with rfl | hy
  · cases List.mem_singleton.mp (show last ∈ ["a"] from hlast)
    decide
  · cases List.mem_singleton.mp hy
    cases hlast

end WorkflowEngine.Sandbox.PluginBoot
