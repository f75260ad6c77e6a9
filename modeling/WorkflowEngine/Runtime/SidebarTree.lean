import WorkflowEngine.Runtime.InvocationRows

/-!
# The tree beside the operator pages

`buildSidebarData` of `ui/sidebar-tree.tsx`: the live triggers of the owners from the
registry, and on the invocations pages also the triggers that are gone but have a
history, marked as removed. `localeLe` is the order of `localeCompare`.
-/

namespace WorkflowEngine.Runtime.Sidebar

open Lib Invocations
set_option autoImplicit false

variable {Z B : Type}

/-! ## Triggers with a history -/

structure TriggerPair where
  owner : String
  repo : String
  workflow : String
  name : String
  deriving DecidableEq

def pairOf (row : EventsRow) : TriggerPair := ⟨row.owner, row.repo, row.workflow, row.name⟩

/-- `SELECT DISTINCT`, in some order. -/
def queryTriggerPairs (rows : List EventsRow) (scopes : List Scope) : Except String (List TriggerPair) := do
  if scopes.isEmpty then return []
  let base ← query rows scopes
  return ((base.filter (·.kind == "trigger.request")).map pairOf).dedup

/-! ## Nodes -/

/-- A `kind` of `none` is `REMOVED_KIND`. -/
structure TriggerRef where
  trigger : String
  kind : Option TriggerKind
  deriving DecidableEq

structure WorkflowGroup where
  workflow : String
  triggers : List TriggerRef
  removed : Bool
  deriving DecidableEq

structure SidebarData where
  owners : List String
  reposByOwner : OrderedMap String (List String)
  workflowsByPair : OrderedMap String (List WorkflowGroup)

def liveTriggerKey (workflow trigger : String) : String := workflow ++ " " ++ trigger

structure LiveSets where
  triggers : List String
  workflows : List String

def liveSetsFor (r : Registry Z B) (owner repo : String) : LiveSets where
  triggers := (r.list owner repo).flatMap fun entry =>
    entry.triggers.map fun d => liveTriggerKey entry.workflow.name d.name
  workflows := (r.list owner repo).map (·.workflow.name)

structure Acc where
  reposByOwner : OrderedMap String (List String)
  byRepo : OrderedMap String (List WorkflowGroup)

/-- A repo that only events know is put under its owner when it first comes up. -/
def ensureRepoGroups (acc : Acc) (owner repo : String) : Acc × List WorkflowGroup :=
  match acc.byRepo.get? (pairKey owner repo) with
  | some groups => (acc, groups)
  | none =>
    let repos := (acc.reposByOwner.get? owner).getD []
    (⟨acc.reposByOwner.set owner (if repos.contains repo then repos else repos ++ [repo]),
      acc.byRepo.set (pairKey owner repo) []⟩, [])

def ensureGroup (groups : List WorkflowGroup) (workflow : String) (workflowIsLive : Bool) : List WorkflowGroup :=
  if groups.any (·.workflow == workflow) then groups else groups ++ [⟨workflow, [], !workflowIsLive⟩]

/-- The first group of the workflow gets the trigger, unless it has one of the name. -/
def pushRemoved (workflow name : String) : List WorkflowGroup → List WorkflowGroup
  | [] => []
  | g :: groups =>
    if g.workflow = workflow then
      (if g.triggers.any (·.trigger == name) then g else { g with triggers := g.triggers ++ [⟨name, none⟩] }) :: groups
    else g :: pushRemoved workflow name groups

structure MergeState where
  acc : Acc
  liveByRepo : OrderedMap String LiveSets

/-- `liveFor`, which computes the sets of a repo once. -/
def liveFor (r : Registry Z B) (cache : OrderedMap String LiveSets) (owner repo : String) :
    LiveSets × OrderedMap String LiveSets :=
  match cache.get? (pairKey owner repo) with
  | some live => (live, cache)
  | none => (liveSetsFor r owner repo, cache.set (pairKey owner repo) (liveSetsFor r owner repo))

def addRemoved (live : LiveSets) (groups : List WorkflowGroup) (pair : TriggerPair) : List WorkflowGroup :=
  pushRemoved pair.workflow pair.name (ensureGroup groups pair.workflow (live.workflows.contains pair.workflow))

/-- One turn of the loop of `mergeRemovedPairs`. -/
def mergePair (r : Registry Z B) (owners : List String) (s : MergeState) (pair : TriggerPair) : MergeState :=
  if owners.contains pair.owner then
    let (live, liveByRepo) := liveFor r s.liveByRepo pair.owner pair.repo
    if live.triggers.contains (liveTriggerKey pair.workflow pair.name) then { s with liveByRepo := liveByRepo }
    else
      let (acc, groups) := ensureRepoGroups s.acc pair.owner pair.repo
      { acc := { acc with byRepo := acc.byRepo.set (pairKey pair.owner pair.repo) (addRemoved live groups pair) }
        liveByRepo := liveByRepo }
  else s

def mergeRemovedPairs (r : Registry Z B) (owners : List String) (acc : Acc) (triggerPairs : List TriggerPair) : Acc :=
  (triggerPairs.foldl (mergePair r owners) ⟨acc, .empty⟩).acc

def sinkRemoved {α : Type} (localeLe : String → String → Bool) (isRemoved : α → Bool) (nameOf : α → String)
    (items : List α) : List α :=
  items.filter (!isRemoved ·) ++
    (items.filter isRemoved).insertionSort fun a b => localeLe (nameOf a) (nameOf b) = true

def liveGroups (r : Registry Z B) (owner repo : String) : List WorkflowGroup :=
  (r.list owner repo).map fun entry =>
    ⟨entry.workflow.name, entry.triggers.map fun d => ⟨d.name, some d.kind⟩, false⟩

/-- The first loop of `buildSidebarData`. -/
def liveAcc (r : Registry Z B) (owners : List String) : Acc :=
  owners.foldl (fun acc owner =>
    { reposByOwner := acc.reposByOwner.set owner (r.repos owner)
      byRepo := (r.repos owner).foldl (fun m repo => m.set (pairKey owner repo) (liveGroups r owner repo))
        acc.byRepo }) ⟨.empty, .empty⟩

def finalise (localeLe : String → String → Bool) (groups : List WorkflowGroup) : List WorkflowGroup :=
  sinkRemoved localeLe (·.removed) (·.workflow) (groups.map fun g =>
    { g with triggers := sinkRemoved localeLe (·.kind.isNone) (·.trigger) g.triggers })

def buildSidebarData (localeLe : String → String → Bool) (r : Registry Z B) (owners : List String)
    (triggerPairs : List TriggerPair) : SidebarData :=
  let acc := if triggerPairs.isEmpty then liveAcc r owners else mergeRemovedPairs r owners (liveAcc r owners) triggerPairs
  ⟨owners, acc.reposByOwner, acc.byRepo.mapValues (finalise localeLe)⟩

/-- `Array.from(ownerSet(user)).sort()`. -/
def sortedOwners (user : UserContext) : List String := (ownerSet user).dedup.insertionSort (· ≤ ·)

/-- The tree of the invocations pages; its removed nodes are those of all the scopes of the user. -/
def invocationsTree (localeLe : String → String → Bool) (user : UserContext) (r : Registry Z B)
    (rows : List EventsRow) : Except String SidebarData := do
  let globalScopes := resolveQueryScopes (some user) r ⟨none, none⟩
  let triggerPairs ← if globalScopes.isEmpty then pure [] else queryTriggerPairs rows globalScopes
  return buildSidebarData localeLe r (sortedOwners user) triggerPairs

/-! ### The leaves as `SidebarTree` renders them -/

structure Leaf where
  owner : String
  repo : String
  workflow : String
  ref : TriggerRef
  deriving DecidableEq

def SidebarData.reposOf (data : SidebarData) (owner : String) : List String :=
  (data.reposByOwner.get? owner).getD []

def SidebarData.groupsOf (data : SidebarData) (owner repo : String) : List WorkflowGroup :=
  (data.workflowsByPair.get? (pairKey owner repo)).getD []

def groupLeaves (owner repo : String) (groups : List WorkflowGroup) : List Leaf :=
  groups.flatMap fun g => g.triggers.map fun t => ⟨owner, repo, g.workflow, t⟩

def SidebarData.leaves (data : SidebarData) : List Leaf :=
  data.owners.flatMap fun owner => (data.reposOf owner).flatMap fun repo =>
    groupLeaves owner repo (data.groupsOf owner repo)

/-! ## One repo -/

theorem groupLeaves_append (owner repo : String) (xs ys : List WorkflowGroup) :
    groupLeaves owner repo (xs ++ ys) = groupLeaves owner repo xs ++ groupLeaves owner repo ys :=
  List.flatMap_append

theorem groupLeaves_ensureGroup (owner repo : String) (groups : List WorkflowGroup) (workflow : String)
    (workflowIsLive : Bool) :
    groupLeaves owner repo (ensureGroup groups workflow workflowIsLive) = groupLeaves owner repo groups := by
  unfold ensureGroup
  split
  · rfl
  · rw [groupLeaves_append]
    simp [groupLeaves]

theorem exists_of_ensureGroup (groups : List WorkflowGroup) (workflow : String) (workflowIsLive : Bool) :
    ∃ g ∈ ensureGroup groups workflow workflowIsLive, g.workflow = workflow := by
  unfold ensureGroup
  split
  · rename_i h
    obtain ⟨g, hg, hname⟩ := List.any_eq_true.mp h
    exact ⟨g, hg, by simpa using hname⟩
  · exact ⟨_, List.mem_append_right _ List.mem_cons_self, rfl⟩

/-- A new name goes to the end of its group. -/
theorem groupLeaves_pushRemoved (owner repo : String) {workflow name : String} {groups : List WorkflowGroup}
    (hgroup : ∃ g ∈ groups, g.workflow = workflow)
    (hnew : ∀ leaf ∈ groupLeaves owner repo groups, ¬ (leaf.workflow = workflow ∧ leaf.ref.trigger = name)) :
    (groupLeaves owner repo (pushRemoved workflow name groups)).Perm
      (⟨owner, repo, workflow, ⟨name, none⟩⟩ :: groupLeaves owner repo groups) := by
  induction groups with
  | nil =>
    obtain ⟨g, hg, -⟩ := hgroup
    cases hg
  | cons g groups ih =>
    rw [pushRemoved]
    by_cases hw : g.workflow = workflow
    · rw [if_pos hw]
      have hany : g.triggers.any (·.trigger == name) = false := by
        rw [List.any_eq_false]
        intro t ht hname
        refine hnew ⟨owner, repo, g.workflow, t⟩ ?_ ⟨hw, by simpa using hname⟩
        exact List.mem_flatMap.mpr ⟨g, List.mem_cons_self, List.mem_map_of_mem ht⟩
      rw [hany]
      simp only [Bool.false_eq_true, if_false, groupLeaves, List.flatMap_cons, List.map_append, List.map_cons,
        List.map_nil, hw, List.append_assoc, List.singleton_append]
      exact List.perm_middle
    · rw [if_neg hw]
      have hrest : ∃ g' ∈ groups, g'.workflow = workflow := by
        obtain ⟨g', hg', hname⟩ := hgroup
        rcases List.mem_cons.mp hg' with rfl | hg'
        · exact absurd hname hw
        · exact ⟨g', hg', hname⟩
      have hperm := ih hrest fun leaf hleaf => hnew leaf (by
        rw [groupLeaves, List.flatMap_cons]
        exact List.mem_append_right _ hleaf)
      simp only [groupLeaves, List.flatMap_cons] at hperm ⊢
      exact (hperm.append_left _).trans List.perm_middle

def removedLeaf (owner repo : String) (pair : TriggerPair) : Leaf :=
  ⟨owner, repo, pair.workflow, ⟨pair.name, none⟩⟩

theorem groupLeaves_addRemoved (owner repo : String) (live : LiveSets) {groups : List WorkflowGroup}
    {pair : TriggerPair} (hnew : ∀ leaf ∈ groupLeaves owner repo groups,
      ¬ (leaf.workflow = pair.workflow ∧ leaf.ref.trigger = pair.name)) :
    (groupLeaves owner repo (addRemoved live groups pair)).Perm
      (removedLeaf owner repo pair :: groupLeaves owner repo groups) := by
  have hensure := groupLeaves_ensureGroup owner repo groups pair.workflow (live.workflows.contains pair.workflow)
  rw [← hensure] at hnew ⊢
  exact groupLeaves_pushRemoved owner repo (exists_of_ensureGroup groups pair.workflow _) hnew

/-- The pairs of a repo whose key is no live trigger's. -/
def gone (r : Registry Z B) (owner repo : String) (pairs : List TriggerPair) : List TriggerPair :=
  pairs.filter fun pair => pair.owner == owner && pair.repo == repo &&
    !(liveSetsFor r owner repo).triggers.contains (liveTriggerKey pair.workflow pair.name)

/-- What the loop makes of the groups of one repo. -/
def mergeRepo (r : Registry Z B) (owner repo : String) (pairs : List TriggerPair) : List WorkflowGroup :=
  (gone r owner repo pairs).foldl (addRemoved (liveSetsFor r owner repo)) (liveGroups r owner repo)

theorem groupLeaves_foldl_addRemoved (owner repo : String) (live : LiveSets) {pairs : List TriggerPair}
    {groups : List WorkflowGroup} (hnodup : (pairs.map fun pair => (pair.workflow, pair.name)).Nodup)
    (hnew : ∀ pair ∈ pairs, ∀ leaf ∈ groupLeaves owner repo groups,
      ¬ (leaf.workflow = pair.workflow ∧ leaf.ref.trigger = pair.name)) :
    (groupLeaves owner repo (pairs.foldl (addRemoved live) groups)).Perm
      (groupLeaves owner repo groups ++ pairs.map (removedLeaf owner repo)) := by
  induction pairs generalizing groups with
  | nil => simp
  | cons pair pairs ih =>
    rw [List.map_cons, List.nodup_cons] at hnodup
    have hstep := groupLeaves_addRemoved owner repo live (hnew pair List.mem_cons_self)
    have hold : ∀ p ∈ pairs, ∀ leaf ∈ groupLeaves owner repo (addRemoved live groups pair),
        ¬ (leaf.workflow = p.workflow ∧ leaf.ref.trigger = p.name) := by
      intro p hp leaf hleaf hsame
      rcases List.mem_cons.mp (hstep.mem_iff.mp hleaf) with rfl | hleaf
      · apply hnodup.1
        have hpair : (pair.workflow, pair.name) = (p.workflow, p.name) := Prod.ext hsame.1 hsame.2
        rw [hpair]
        exact List.mem_map_of_mem hp
      · exact hnew p (List.mem_cons_of_mem _ hp) leaf hleaf hsame
    rw [List.foldl_cons, List.map_cons]
    refine (ih hnodup.2 hold).trans ((hstep.append_right _).trans ?_)
    rw [List.cons_append]
    exact List.perm_middle.symm

theorem mem_liveLeaves {r : Registry Z B} {owner repo : String} {leaf : Leaf}
    (h : leaf ∈ groupLeaves owner repo (liveGroups r owner repo)) :
    liveTriggerKey leaf.workflow leaf.ref.trigger ∈ (liveSetsFor r owner repo).triggers := by
  obtain ⟨g, hg, hleaf⟩ := List.mem_flatMap.mp h
  obtain ⟨entry, hentry, rfl⟩ := List.mem_map.mp hg
  obtain ⟨t, ht, rfl⟩ := List.mem_map.mp hleaf
  obtain ⟨d, hd, rfl⟩ := List.mem_map.mp ht
  exact List.mem_flatMap.mpr ⟨entry, hentry, List.mem_map_of_mem hd⟩

theorem groupLeaves_mergeRepo (r : Registry Z B) (owner repo : String) {pairs : List TriggerPair}
    (h : pairs.Nodup) :
    (groupLeaves owner repo (mergeRepo r owner repo pairs)).Perm
      (groupLeaves owner repo (liveGroups r owner repo) ++
        (gone r owner repo pairs).map (removedLeaf owner repo)) := by
  apply groupLeaves_foldl_addRemoved
  · -- within one repo a pair is its workflow and its name
    apply List.Nodup.map_on _ (h.filter _)
    intro a ha b hb hab
    simp only [List.mem_filter, Bool.and_eq_true, beq_iff_eq] at ha hb
    obtain ⟨-, ⟨haOwner, haRepo⟩, -⟩ := ha
    obtain ⟨-, ⟨hbOwner, hbRepo⟩, -⟩ := hb
    cases a
    cases b
    simp_all
  · intro pair hpair leaf hleaf hsame
    simp only [gone, List.mem_filter, Bool.and_eq_true, Bool.not_eq_true'] at hpair
    have hlive := mem_liveLeaves hleaf
    rw [hsame.1, hsame.2] at hlive
    rw [List.contains_iff_mem.mpr hlive] at hpair
    exact absurd hpair.2.2 (by simp)

/-- A group is marked as removed when the registry has no workflow of the name. -/
def Flagged (live : LiveSets) (groups : List WorkflowGroup) : Prop :=
  ∀ g ∈ groups, g.removed = !live.workflows.contains g.workflow

theorem flagged_liveGroups (r : Registry Z B) (owner repo : String) :
    Flagged (liveSetsFor r owner repo) (liveGroups r owner repo) := by
  intro g hg
  obtain ⟨entry, hentry, rfl⟩ := List.mem_map.mp hg
  have hlive : entry.workflow.name ∈ (liveSetsFor r owner repo).workflows := List.mem_map_of_mem hentry
  simp [hlive]

theorem flagged_pushRemoved {live : LiveSets} {groups : List WorkflowGroup} (h : Flagged live groups)
    (workflow name : String) : Flagged live (pushRemoved workflow name groups) := by
  induction groups with
  | nil => exact h
  | cons g groups ih =>
    have hg := h g List.mem_cons_self
    have hgroups : Flagged live groups := fun g' hg' => h g' (List.mem_cons_of_mem _ hg')
    rw [pushRemoved]
    split
    · intro g' hg'
      rcases List.mem_cons.mp hg' with rfl | hg'
      · split <;> exact hg
      · exact hgroups g' hg'
    · intro g' hg'
      rcases List.mem_cons.mp hg' with rfl | hg'
      · exact hg
      · exact ih hgroups g' hg'

theorem flagged_addRemoved {live : LiveSets} {groups : List WorkflowGroup} (h : Flagged live groups)
    (pair : TriggerPair) : Flagged live (addRemoved live groups pair) := by
  apply flagged_pushRemoved
  unfold ensureGroup
  split
  · exact h
  · intro g hg
    rcases List.mem_append.mp hg with hg | hg
    · exact h g hg
    · rw [List.mem_singleton] at hg
      subst hg
      rfl

theorem flagged_mergeRepo (r : Registry Z B) (owner repo : String) (pairs : List TriggerPair) :
    Flagged (liveSetsFor r owner repo) (mergeRepo r owner repo pairs) := by
  have hfold : ∀ (ps : List TriggerPair) (groups : List WorkflowGroup), Flagged (liveSetsFor r owner repo) groups →
      Flagged (liveSetsFor r owner repo) (ps.foldl (addRemoved (liveSetsFor r owner repo)) groups) := by
    intro ps
    induction ps with
    | nil => exact fun _ h => h
    | cons pair ps ih => exact fun groups h => ih _ (flagged_addRemoved h pair)
  exact hfold _ _ (flagged_liveGroups r owner repo)

/-! ## Sinking -/

section
variable {α : Type} (localeLe : String → String → Bool) (isRemoved : α → Bool) (nameOf : α → String)

theorem perm_sinkRemoved (items : List α) : (sinkRemoved localeLe isRemoved nameOf items).Perm items := by
  unfold sinkRemoved
  have hsort := List.perm_insertionSort (fun a b => localeLe (nameOf a) (nameOf b) = true) (items.filter isRemoved)
  have hsplit := List.filter_append_perm isRemoved items
  exact (hsort.append_left _).trans (List.perm_append_comm.trans hsplit)

/-- What is live stands before what is removed, in its own order. -/
theorem pairwise_sinkRemoved (items : List α) :
    (sinkRemoved localeLe isRemoved nameOf items).Pairwise fun a b => isRemoved a = true → isRemoved b = true := by
  have hsorted : ∀ b ∈ (items.filter isRemoved).insertionSort fun a b => localeLe (nameOf a) (nameOf b) = true,
      isRemoved b = true := by
    intro b hb
    exact (List.mem_filter.mp ((List.mem_insertionSort _).mp hb)).2
  unfold sinkRemoved
  refine List.pairwise_append.mpr ⟨?_, ?_, ?_⟩
  · apply List.pairwise_of_forall_mem_list
    intro a ha b _ hremoved
    simp [hremoved] at ha
  · apply List.pairwise_of_forall_mem_list
    intro a _ b hb _
    exact hsorted b hb
  · intro a _ b hb _
    exact hsorted b hb

end

theorem groupLeaves_finalise (localeLe : String → String → Bool) (owner repo : String) (groups : List WorkflowGroup) :
    (groupLeaves owner repo (finalise localeLe groups)).Perm (groupLeaves owner repo groups) := by
  unfold finalise groupLeaves
  refine ((perm_sinkRemoved localeLe _ _ _).flatMap_right _).trans ?_
  rw [List.flatMap_map]
  apply List.Perm.flatMap_left
  intro g _
  exact (perm_sinkRemoved localeLe _ _ _).map _

/-! ## All repos -/

theorem pairKey_inj {owner owner' repo repo' : String} (h : '/' ∉ owner.toList) (h' : '/' ∉ owner'.toList) :
    pairKey owner repo = pairKey owner' repo' ↔ owner = owner' ∧ repo = repo' := by
  unfold pairKey
  rw [← String.toList_inj]
  simp only [String.toList_append, List.append_assoc]
  constructor
  · intro heq
    obtain ⟨ho, hr⟩ := (append_separator_inj h h').mp heq
    exact ⟨String.toList_inj.mp ho, String.toList_inj.mp hr⟩
  · rintro ⟨rfl, rfl⟩
    rfl

/-- The merge after the pairs `done`. -/
structure Merged (r : Registry Z B) (owners : List String) (done : List TriggerPair) (s : MergeState) : Prop where
  repos : ∀ owner ∈ owners, s.acc.reposByOwner.get? owner = some (r.repos owner)
  groups : ∀ owner ∈ owners, ∀ repo ∈ r.repos owner,
    s.acc.byRepo.get? (pairKey owner repo) = some (mergeRepo r owner repo done)
  cache : ∀ owner ∈ owners, ∀ repo live, s.liveByRepo.get? (pairKey owner repo) = some live →
    live = liveSetsFor r owner repo

theorem gone_append (r : Registry Z B) (owner repo : String) (ps qs : List TriggerPair) :
    gone r owner repo (ps ++ qs) = gone r owner repo ps ++ gone r owner repo qs :=
  List.filter_append ps qs

theorem mergeRepo_of_gone_nil {r : Registry Z B} {owner repo : String} {done : List TriggerPair} {pair : TriggerPair}
    (h : gone r owner repo [pair] = []) : mergeRepo r owner repo (done ++ [pair]) = mergeRepo r owner repo done := by
  rw [mergeRepo, gone_append, h, List.append_nil]
  rfl

theorem gone_of_ne {r : Registry Z B} {owner repo : String} {pair : TriggerPair}
    (h : ¬ (owner = pair.owner ∧ repo = pair.repo)) : gone r owner repo [pair] = [] := by
  rw [gone, List.filter_eq_nil_iff]
  intro p hp
  rw [List.mem_singleton] at hp
  subst hp
  intro hsel
  simp only [Bool.and_eq_true, beq_iff_eq] at hsel
  exact h ⟨hsel.1.1.symm, hsel.1.2.symm⟩

section
variable {r : Registry Z B} {owners : List String} (hslash : ∀ owner ∈ owners, '/' ∉ owner.toList)
  {done : List TriggerPair} {s : MergeState} {pair : TriggerPair}
include hslash

theorem liveFor_spec (hs : Merged r owners done s) {owner : String} (howner : owner ∈ owners) (repo : String) :
    (liveFor r s.liveByRepo owner repo).1 = liveSetsFor r owner repo ∧
      ∀ owner' ∈ owners, ∀ repo' live, (liveFor r s.liveByRepo owner repo).2.get? (pairKey owner' repo') = some live →
        live = liveSetsFor r owner' repo' := by
  unfold liveFor
  cases hget : s.liveByRepo.get? (pairKey owner repo) with
  | some live => exact ⟨hs.cache owner howner repo live hget, hs.cache⟩
  | none =>
    refine ⟨rfl, ?_⟩
    intro owner' howner' repo' live hlive
    rcases OrderedMap.get?_set_cases hlive with ⟨hkey, rfl⟩ | ⟨-, hlive⟩
    · obtain ⟨rfl, rfl⟩ := (pairKey_inj (hslash _ howner') (hslash _ howner)).mp hkey
      rfl
    · exact hs.cache owner' howner' repo' live hlive

theorem Merged.mergePair (hs : Merged r owners done s)
    (hregistered : pair.owner ∈ owners → pair.repo ∈ r.repos pair.owner) :
    Merged r owners (done ++ [pair]) (mergePair r owners s pair) := by
  unfold Sidebar.mergePair
  by_cases howner : pair.owner ∈ owners
  · rw [if_pos (List.contains_iff_mem.mpr howner)]
    obtain ⟨hlive, hcache⟩ := liveFor_spec hslash hs howner pair.repo
    dsimp only
    rw [hlive]
    have hgroups := hs.groups pair.owner howner pair.repo (hregistered howner)
    split
    · rename_i hshadow
      -- the key of the pair is a live trigger's
      have hgone : ∀ owner repo, gone r owner repo [pair] = [] := by
        intro owner repo
        by_cases hsame : owner = pair.owner ∧ repo = pair.repo
        · obtain ⟨rfl, rfl⟩ := hsame
          rw [gone, List.filter_eq_nil_iff]
          intro p hp
          rw [List.mem_singleton] at hp
          subst hp
          rw [hshadow]
          simp
        · exact gone_of_ne hsame
      refine ⟨hs.repos, ?_, hcache⟩
      intro owner ho repo hrepo
      rw [mergeRepo_of_gone_nil (hgone owner repo)]
      exact hs.groups owner ho repo hrepo
    · rename_i hshadow
      simp only [ensureRepoGroups, hgroups]
      refine ⟨hs.repos, ?_, hcache⟩
      intro owner ho repo hrepo
      by_cases hsame : owner = pair.owner ∧ repo = pair.repo
      · obtain ⟨rfl, rfl⟩ := hsame
        have hgone : gone r pair.owner pair.repo [pair] = [pair] := by
          have hnot : (liveSetsFor r pair.owner pair.repo).triggers.contains
              (liveTriggerKey pair.workflow pair.name) = false := by simpa using hshadow
          rw [gone, List.filter_cons, hnot]
          simp
        rw [OrderedMap.get?_set_self, mergeRepo, mergeRepo, gone_append, hgone, List.foldl_append]
        rfl
      · have hkey : pairKey owner repo ≠ pairKey pair.owner pair.repo :=
          fun heq => hsame ((pairKey_inj (hslash _ ho) (hslash _ howner)).mp heq)
        rw [OrderedMap.get?_set_of_ne _ _ _ hkey, mergeRepo_of_gone_nil (gone_of_ne hsame)]
        exact hs.groups owner ho repo hrepo
  · rw [if_neg fun h => howner (List.contains_iff_mem.mp h)]
    refine ⟨hs.repos, ?_, hs.cache⟩
    intro owner ho repo hrepo
    have hne : ¬ (owner = pair.owner ∧ repo = pair.repo) := fun hsame => howner (hsame.1 ▸ ho)
    rw [mergeRepo_of_gone_nil (gone_of_ne hne)]
    exact hs.groups owner ho repo hrepo

theorem Merged.foldl (hs : Merged r owners done s) {pairs : List TriggerPair}
    (hregistered : ∀ pair ∈ pairs, pair.owner ∈ owners → pair.repo ∈ r.repos pair.owner) :
    Merged r owners (done ++ pairs) (pairs.foldl (Sidebar.mergePair r owners) s) := by
  induction pairs generalizing done s with
  | nil =>
    rw [List.append_nil]
    exact hs
  | cons pair pairs ih =>
    rw [List.append_cons]
    exact ih (hs.mergePair hslash (hregistered pair List.mem_cons_self))
      fun p hp => hregistered p (List.mem_cons_of_mem _ hp)

end

/-- The repos of the owners, in the order of the first loop. -/
def reposIn (r : Registry Z B) (owners : List String) : List (String × String) :=
  owners.flatMap fun owner => (r.repos owner).map fun repo => (owner, repo)

theorem liveAcc_eq (r : Registry Z B) (owners : List String) :
    liveAcc r owners =
      ⟨owners.foldl (fun m owner => m.set owner (r.repos owner)) .empty,
        (reposIn r owners).foldl (fun m x => m.set (pairKey x.1 x.2) (liveGroups r x.1 x.2)) .empty⟩ := by
  have hfold : ∀ acc : Acc, owners.foldl (fun acc owner =>
      { reposByOwner := acc.reposByOwner.set owner (r.repos owner)
        byRepo := (r.repos owner).foldl (fun m repo => m.set (pairKey owner repo) (liveGroups r owner repo))
          acc.byRepo }) acc =
      (⟨owners.foldl (fun m owner => m.set owner (r.repos owner)) acc.reposByOwner,
        (reposIn r owners).foldl (fun m x => m.set (pairKey x.1 x.2) (liveGroups r x.1 x.2)) acc.byRepo⟩ : Acc) := by
    induction owners with
    | nil => exact fun _ => rfl
    | cons owner owners ih =>
      intro acc
      have hcons : reposIn r (owner :: owners) =
          ((r.repos owner).map fun repo => (owner, repo)) ++ reposIn r owners := List.flatMap_cons
      rw [List.foldl_cons, ih, List.foldl_cons, hcons, List.foldl_append, List.foldl_map]
  exact hfold ⟨.empty, .empty⟩

theorem merged_liveAcc (r : Registry Z B) {owners : List String} (hslash : ∀ owner ∈ owners, '/' ∉ owner.toList) :
    Merged r owners [] ⟨liveAcc r owners, .empty⟩ := by
  have hmem : ∀ x ∈ reposIn r owners, x.1 ∈ owners := by
    intro x hx
    obtain ⟨owner, howner, hx⟩ := List.mem_flatMap.mp hx
    obtain ⟨repo, -, rfl⟩ := List.mem_map.mp hx
    exact howner
  rw [liveAcc_eq]
  refine ⟨?_, ?_, ?_⟩
  · intro owner howner
    exact OrderedMap.get?_foldl_set_of_injOn (fun owner => owner) (fun owner => r.repos owner) owners
      (fun _ _ _ _ h => h) howner
  · intro owner howner repo hrepo
    have hx : (owner, repo) ∈ reposIn r owners :=
      List.mem_flatMap.mpr ⟨owner, howner, List.mem_map_of_mem hrepo⟩
    apply OrderedMap.get?_foldl_set_of_injOn (fun x : String × String => pairKey x.1 x.2)
      (fun x => liveGroups r x.1 x.2) (reposIn r owners) _ hx
    intro x hx y hy hkey
    obtain ⟨ho, hr⟩ := (pairKey_inj (hslash _ (hmem x hx)) (hslash _ (hmem y hy))).mp hkey
    exact Prod.ext ho hr
  · intro owner _ repo live hlive
    cases hlive

/-- What the tree of the owners holds under each repo. -/
theorem buildSidebarData_spec (localeLe : String → String → Bool) (r : Registry Z B) {owners : List String}
    (hslash : ∀ owner ∈ owners, '/' ∉ owner.toList) {pairs : List TriggerPair}
    (hregistered : ∀ pair ∈ pairs, pair.owner ∈ owners → pair.repo ∈ r.repos pair.owner) {owner : String}
    (howner : owner ∈ owners) :
    (buildSidebarData localeLe r owners pairs).reposOf owner = r.repos owner ∧
      ∀ repo ∈ r.repos owner, (buildSidebarData localeLe r owners pairs).groupsOf owner repo =
        finalise localeLe (mergeRepo r owner repo pairs) := by
  have hmerged := (merged_liveAcc r hslash).foldl hslash hregistered
  rw [List.nil_append] at hmerged
  have hacc : (if pairs.isEmpty then liveAcc r owners else mergeRemovedPairs r owners (liveAcc r owners) pairs) =
      (pairs.foldl (mergePair r owners) ⟨liveAcc r owners, .empty⟩).acc := by
    cases pairs <;> rfl
  unfold buildSidebarData SidebarData.reposOf SidebarData.groupsOf
  rw [hacc]
  refine ⟨?_, ?_⟩
  · rw [hmerged.repos owner howner]
    rfl
  · intro repo hrepo
    rw [OrderedMap.get?_mapValues, hmerged.groups owner howner repo hrepo]
    rfl

/-! ## The tree of a user -/

theorem mem_sortedOwners {user : UserContext} {owner : String} : owner ∈ sortedOwners user ↔ owner ∈ ownerSet user := by
  rw [sortedOwners, List.mem_insertionSort, List.mem_dedup]

theorem nodup_sortedOwners (user : UserContext) : (sortedOwners user).Nodup :=
  (List.perm_insertionSort _ _).nodup_iff.mpr (List.nodup_dedup _)

theorem notMem_slash_of_mem_ownerSet {user : UserContext} {owner : String} (h : owner ∈ ownerSet user) :
    '/' ∉ owner.toList :=
  notMem_slash (plain_of_ownerNameRe (List.mem_filter.mp h).2)

theorem nodup_repos (r : Registry Z B) (owner : String) : (r.repos owner).Nodup := by
  unfold Registry.repos
  cases r.ownerStates.get? owner with
  | none => exact List.nodup_nil
  | some states => exact states.nodup

/-- The pairs with a history in the scopes of a user. -/
def historicPairs (user : UserContext) (r : Registry Z B) (rows : List EventsRow) : List TriggerPair :=
  (((rows.filter (inScopes (resolveQueryScopes (some user) r ⟨none, none⟩))).filter
    (·.kind == "trigger.request")).map pairOf).dedup

theorem mem_historicPairs {user : UserContext} {r : Registry Z B} {rows : List EventsRow} {pair : TriggerPair} :
    pair ∈ historicPairs user r rows ↔ pair.owner ∈ ownerSet user ∧ pair.repo ∈ r.repos pair.owner ∧
      ∃ row ∈ rows, row.kind = "trigger.request" ∧ pairOf row = pair := by
  simp only [historicPairs, List.mem_dedup, List.mem_map, List.mem_filter, inScopes, List.contains_iff_mem,
    mem_resolveQueryScopes, Option.all_none, true_and, and_true, beq_iff_eq]
  constructor
  · rintro ⟨row, ⟨⟨hrow, hrepo, howner⟩, hkind⟩, rfl⟩
    exact ⟨howner, hrepo, row, hrow, hkind, rfl⟩
  · rintro ⟨howner, hrepo, row, hrow, hkind, rfl⟩
    exact ⟨row, ⟨⟨hrow, hrepo, howner⟩, hkind⟩, rfl⟩

theorem invocationsTree_eq (localeLe : String → String → Bool) (user : UserContext) (r : Registry Z B)
    (rows : List EventsRow) :
    invocationsTree localeLe user r rows =
      .ok (buildSidebarData localeLe r (sortedOwners user) (historicPairs user r rows)) := by
  unfold invocationsTree
  dsimp only
  by_cases hempty : (resolveQueryScopes (some user) r ⟨none, none⟩).isEmpty = true
  · have hnone : historicPairs user r rows = [] := by
      have hbase : rows.filter (inScopes (resolveQueryScopes (some user) r ⟨none, none⟩)) = [] := by
        rw [List.filter_eq_nil_iff]
        intro row _
        simp [inScopes, List.isEmpty_iff.mp hempty]
      rw [historicPairs, hbase]
      rfl
    rw [if_pos hempty, hnone]
    rfl
  · rw [if_neg hempty]
    simp only [queryTriggerPairs, if_neg hempty, query_ok rows (by simpa using hempty)]
    rfl

/-- The leaves of the live triggers of the owners. -/
def liveLeaves (r : Registry Z B) (owners : List String) : List Leaf :=
  owners.flatMap fun owner => (r.repos owner).flatMap fun repo => groupLeaves owner repo (liveGroups r owner repo)

def removedLeaves (r : Registry Z B) (owners : List String) (pairs : List TriggerPair) : List Leaf :=
  owners.flatMap fun owner => (r.repos owner).flatMap fun repo =>
    (gone r owner repo pairs).map (removedLeaf owner repo)

theorem mem_removedLeaves {r : Registry Z B} {owners : List String} {pairs : List TriggerPair} {leaf : Leaf} :
    leaf ∈ removedLeaves r owners pairs ↔ leaf.ref.kind = none ∧ leaf.owner ∈ owners ∧
      leaf.repo ∈ r.repos leaf.owner ∧ ⟨leaf.owner, leaf.repo, leaf.workflow, leaf.ref.trigger⟩ ∈ pairs ∧
      liveTriggerKey leaf.workflow leaf.ref.trigger ∉ (liveSetsFor r leaf.owner leaf.repo).triggers := by
  simp only [removedLeaves, List.mem_flatMap, List.mem_map, gone, List.mem_filter, Bool.and_eq_true, beq_iff_eq,
    Bool.not_eq_true']
  constructor
  · rintro ⟨owner, howner, repo, hrepo, pair, ⟨hpair, ⟨rfl, rfl⟩, hgone⟩, rfl⟩
    exact ⟨rfl, howner, hrepo, hpair, by simpa [removedLeaf] using hgone⟩
  · rintro ⟨hkind, howner, hrepo, hpair, hgone⟩
    refine ⟨leaf.owner, howner, leaf.repo, hrepo, _, ⟨hpair, ⟨rfl, rfl⟩, by simpa using hgone⟩, ?_⟩
    obtain ⟨owner, repo, workflow, trigger, kind⟩ := leaf
    cases hkind
    rfl

theorem nodup_removedLeaves {r : Registry Z B} {owners : List String} {pairs : List TriggerPair}
    (howners : owners.Nodup) (hpairs : pairs.Nodup) : (removedLeaves r owners pairs).Nodup := by
  unfold removedLeaves
  rw [List.nodup_flatMap]
  refine ⟨?_, ?_⟩
  · intro owner _
    rw [List.nodup_flatMap]
    refine ⟨?_, ?_⟩
    · intro repo _
      apply List.Nodup.map_on _ (hpairs.filter _)
      intro a ha b hb hab
      simp only [List.mem_filter, Bool.and_eq_true, beq_iff_eq] at ha hb
      obtain ⟨-, ⟨haOwner, haRepo⟩, -⟩ := ha
      obtain ⟨-, ⟨hbOwner, hbRepo⟩, -⟩ := hb
      cases a
      cases b
      simp_all [removedLeaf]
    · apply (nodup_repos r owner).imp
      intro repo repo' hne leaf hleaf hleaf'
      obtain ⟨pair, -, rfl⟩ := List.mem_map.mp hleaf
      obtain ⟨pair', -, heq⟩ := List.mem_map.mp hleaf'
      exact hne (congrArg Leaf.repo heq).symm
  · apply howners.imp
    intro owner owner' hne leaf hleaf hleaf'
    obtain ⟨repo, -, hleaf⟩ := List.mem_flatMap.mp hleaf
    obtain ⟨repo', -, hleaf'⟩ := List.mem_flatMap.mp hleaf'
    obtain ⟨pair, -, rfl⟩ := List.mem_map.mp hleaf
    obtain ⟨pair', -, heq⟩ := List.mem_map.mp hleaf'
    exact hne (congrArg Leaf.owner heq).symm

theorem mem_finalise {localeLe : String → String → Bool} {groups : List WorkflowGroup} {g : WorkflowGroup} :
    g ∈ finalise localeLe groups ↔ ∃ g' ∈ groups,
      g = { g' with triggers := sinkRemoved localeLe (·.kind.isNone) (·.trigger) g'.triggers } := by
  rw [finalise, (perm_sinkRemoved localeLe _ _ _).mem_iff, List.mem_map]
  simp only [eq_comm]

theorem leaves_perm {localeLe : String → String → Bool} {r : Registry Z B} {pairs : List TriggerPair}
    (data : SidebarData) (hnodup : pairs.Nodup)
    (hspec : ∀ owner ∈ data.owners, data.reposOf owner = r.repos owner ∧ ∀ repo ∈ r.repos owner,
      data.groupsOf owner repo = finalise localeLe (mergeRepo r owner repo pairs)) :
    data.leaves.Perm (liveLeaves r data.owners ++ removedLeaves r data.owners pairs) := by
  have hrepo : ∀ owner ∈ data.owners, ∀ repo ∈ r.repos owner,
      (groupLeaves owner repo (data.groupsOf owner repo)).Perm
        (groupLeaves owner repo (liveGroups r owner repo) ++
          (gone r owner repo pairs).map (removedLeaf owner repo)) := by
    intro owner howner repo hrepo
    rw [(hspec owner howner).2 repo hrepo]
    exact (groupLeaves_finalise localeLe owner repo _).trans (groupLeaves_mergeRepo r owner repo hnodup)
  have howner : ∀ owner ∈ data.owners,
      ((data.reposOf owner).flatMap fun repo => groupLeaves owner repo (data.groupsOf owner repo)).Perm
        (((r.repos owner).flatMap fun repo => groupLeaves owner repo (liveGroups r owner repo)) ++
          (r.repos owner).flatMap fun repo => (gone r owner repo pairs).map (removedLeaf owner repo)) := by
    intro owner ho
    rw [(hspec owner ho).1]
    exact (List.Perm.flatMap_left _ (hrepo owner ho)).trans (List.flatMap_append_perm _ _ _).symm
  exact (List.Perm.flatMap_left _ howner).trans (List.flatMap_append_perm _ _ _).symm

def spacedTrigger : TriggerDescriptor Unit :=
  ⟨⟨.cron, "b c", "a", .null, .null, .null⟩, (), ()⟩

def spacedRegistry : Registry Unit Unit :=
  (⟨.empty, .empty, .empty, []⟩ : Registry Unit Unit).setRepoState "acme" "site"
    (OwnerRepoState.empty.add "acme" "site" (cronWorkflow "a" "b c") "" [spacedTrigger])

def requestOf (workflow name : String) : EventsRow where
  id := "evt_1"
  seq := 0
  kind := "trigger.request"
  ref := none
  atIso := "2026-01-01T00:00:00.000Z"
  ts := 0
  owner := "acme"
  repo := "site"
  workflow := workflow
  workflowSha := ""
  name := name
  input := none
  output := none
  error := none
  metadata := none

/-- The separator of the keys may stand in a name, and then a live trigger hides one that is gone. -/
example : (invocationsTree (fun _ _ => true) ⟨"alice", "", ["acme"]⟩ spacedRegistry [requestOf "a b" "c"]).map
    (·.leaves) = .ok [⟨"acme", "site", "a", ⟨"b c", some .cron⟩⟩] := by rfl

end WorkflowEngine.Runtime.Sidebar
