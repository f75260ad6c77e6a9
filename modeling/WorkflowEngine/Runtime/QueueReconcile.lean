import WorkflowEngine.Lib.Text
import WorkflowEngine.Runtime.QueueStore
import WorkflowEngine.Runtime.TriggerUrls

/-!
# The two ways to delete the rows of undeclared queues

`reconcile` looks a stored tuple up among the declared ones by a text that joins its four names with
blanks. Owners and repos have no blank in them, but a workflow name is any text and the host takes any
text for a queue, so the border between the two may be read in another place. The upload diff compares
names, not texts.
-/

namespace WorkflowEngine.Runtime

open Lib
set_option autoImplicit false

/-- `QUEUE_NAME_RE`. -/
def queueNameRe (s : String) : Bool :=
  match s.toList with
  | [] => false
  | c :: cs => c.isLower && cs.all Char.isAlphanum

theorem blank_notMem_of_queueNameRe {s : String} (h : queueNameRe s = true) : ' ' ∉ s.toList := by
  unfold queueNameRe at h
  split at h
  · cases h
  · rename_i c cs hs
    rw [Bool.and_eq_true, List.all_eq_true] at h
    rw [hs]
    intro hmem
    rcases List.mem_cons.mp hmem with rfl | hmem
    · exact absurd h.1 (by decide)
    · exact absurd (h.2 ' ' hmem) (by decide)

theorem blank_notMem_of_ownerNameRe {s : String} (h : ownerNameRe s = true) : ' ' ∉ s.toList := by
  unfold ownerNameRe at h
  split at h
  · cases h
  · rename_i c cs hs
    simp only [Bool.and_eq_true, List.all_eq_true] at h
    rw [hs]
    intro hmem
    rcases List.mem_cons.mp hmem with rfl | hmem
    · exact absurd h.1.1 (by decide)
    · exact absurd (h.1.2 ' ' hmem) (by decide)

theorem blank_notMem_of_repoNameRe {s : String} (h : repoNameRe s = true) : ' ' ∉ s.toList := by
  simp only [repoNameRe, Bool.and_eq_true, List.all_eq_true] at h
  intro hmem
  exact absurd (h.1.1 ' ' hmem) (by decide)

/-! ## Tuples and their keys -/

/-- The owner and repo of a tuple have passed their name checks. -/
def QueueScope.Named (s : QueueScope) : Prop := ownerNameRe s.owner = true ∧ repoNameRe s.repo = true

/-- Part of the workflow name of one tuple stands in front of the queue name of the other. -/
def QueueScope.Shifted (s t : QueueScope) : Prop :=
  s.owner = t.owner ∧ s.repo = t.repo ∧
    ((∃ middle, t.workflow = s.workflow ++ " " ++ middle ∧ s.queue = middle ++ " " ++ t.queue) ∨
      ∃ middle, s.workflow = t.workflow ++ " " ++ middle ∧ t.queue = middle ++ " " ++ s.queue)

theorem toList_join (s t : String) : (s ++ " " ++ t).toList = s.toList ++ ' ' :: t.toList := by
  simp

theorem toList_tupleKey (s : QueueScope) :
    (tupleKey s).toList =
      s.owner.toList ++ ' ' :: (s.repo.toList ++ ' ' :: (s.workflow.toList ++ ' ' :: s.queue.toList)) := by
  simp [tupleKey]

theorem eq_join_iff {s t m : String} :
    s = t ++ " " ++ m ↔ s.toList = t.toList ++ ' ' :: m.toList := by
  rw [← toList_join, String.toList_inj]

theorem exists_middle {p : List Char → Prop} : (∃ m : List Char, p m) ↔ ∃ m : String, p m.toList := by
  constructor
  · rintro ⟨m, hm⟩
    exact ⟨String.ofList m, by rwa [String.toList_ofList]⟩
  · rintro ⟨m, hm⟩
    exact ⟨m.toList, hm⟩

/-- The key tells two tuples apart unless one is a shifted form of the other. -/
theorem tupleKey_eq_iff {s t : QueueScope} (hs : s.Named) (ht : t.Named) :
    tupleKey s = tupleKey t ↔ s = t ∨ s.Shifted t := by
  obtain ⟨owner, repo, workflow, queue⟩ := s
  obtain ⟨owner', repo', workflow', queue'⟩ := t
  rw [← String.toList_inj, toList_tupleKey, toList_tupleKey,
    append_separator_inj (blank_notMem_of_ownerNameRe hs.1) (blank_notMem_of_ownerNameRe ht.1),
    append_separator_inj (blank_notMem_of_repoNameRe hs.2) (blank_notMem_of_repoNameRe ht.2),
    append_separator_eq_iff, exists_middle, exists_middle, String.toList_inj, String.toList_inj,
    String.toList_inj, String.toList_inj]
  simp only [QueueScope.mk.injEq, QueueScope.Shifted, eq_join_iff]
  constructor
  · rintro ⟨howner, hrepo, ⟨hworkflow, hqueue⟩ | hshift⟩
    · exact Or.inl ⟨howner, hrepo, hworkflow, hqueue⟩
    · exact Or.inr ⟨howner, hrepo, hshift⟩
  · rintro (⟨howner, hrepo, hworkflow, hqueue⟩ | ⟨howner, hrepo, hshift⟩)
    · exact ⟨howner, hrepo, Or.inl ⟨hworkflow, hqueue⟩⟩
    · exact ⟨howner, hrepo, Or.inr hshift⟩

/-- Within one repo, queue names without blanks make the key exact. -/
theorem tupleKey_inj_of_queueNameRe {owner repo workflow workflow' queue queue' : String}
    (hqueue : queueNameRe queue = true) (hqueue' : queueNameRe queue' = true)
    (h : tupleKey ⟨owner, repo, workflow, queue⟩ = tupleKey ⟨owner, repo, workflow', queue'⟩) :
    workflow = workflow' ∧ queue = queue' := by
  rw [← String.toList_inj, toList_tupleKey, toList_tupleKey, List.append_cancel_left_eq, List.cons_inj_right,
    List.append_cancel_left_eq, List.cons_inj_right,
    append_separator_inj_right (blank_notMem_of_queueNameRe hqueue) (blank_notMem_of_queueNameRe hqueue'),
    String.toList_inj, String.toList_inj] at h
  exact h

/-! ## The rows that survive -/

/-- Every DELETE takes effect. -/
def allDeleted : DeleteOutcomes := fun _ => .ok ()

theorem removeDeclarations_allDeleted (scopes : List WorkflowQueueScope) (rows : List QueueRow) :
    removeDeclarations allDeleted scopes rows = rows.filter fun row => scopes.all fun scope => !scope.covers row := by
  unfold removeDeclarations allDeleted
  induction scopes generalizing rows with
  | nil => simp
  | cons scope scopes ih =>
    rw [List.foldl_cons, ih, removeDeclaration, List.filter_filter]
    apply List.filter_congr
    intro row _
    rw [List.all_cons, Bool.and_comm]

theorem reconcile_allDeleted (declared : List QueueScope) (rows : List QueueRow) :
    reconcile (.ok ()) allDeleted declared rows =
      rows.filter fun row => tupleKey row.scope ∈ declared.map tupleKey := by
  rw [reconcile, removeDeclarations_allDeleted]
  apply List.filter_congr
  intro row hrow
  rw [Bool.eq_iff_iff, List.all_eq_true, decide_eq_true_eq]
  have hmem := mem_reconcile_ok allDeleted declared rows row
  simp only [reconcile, removeDeclarations_allDeleted, List.mem_filter, List.all_eq_true, hrow, true_and,
    allDeleted, ne_eq, not_true_eq_false, or_false] at hmem
  exact hmem

/-- The tuples that the manifest of one repo declares, as `reconcileQueueStoreOnBoot` flattens it. -/
def manifestTuples (owner repo : String) (workflows : OrderedMap String WorkflowManifest) : List QueueScope :=
  workflows.entries.flatMap fun w => (queueNames w.2).map fun queue => ⟨owner, repo, w.1, queue⟩

theorem mem_manifestTuples {owner repo : String} {workflows : OrderedMap String WorkflowManifest} {t : QueueScope} :
    t ∈ manifestTuples owner repo workflows ↔
      t.owner = owner ∧ t.repo = repo ∧ ∃ w, workflows.get? t.workflow = some w ∧ t.queue ∈ queueNames w := by
  simp only [manifestTuples, List.mem_flatMap, List.mem_map, Prod.exists]
  constructor
  · rintro ⟨name, w, hw, queue, hqueue, rfl⟩
    exact ⟨rfl, rfl, w, (workflows.get?_eq_some_iff _ _).mpr hw, hqueue⟩
  · rintro ⟨rfl, rfl, w, hw, hqueue⟩
    exact ⟨t.workflow, w, (workflows.get?_eq_some_iff _ _).mp hw, t.queue, hqueue, rfl⟩

/-- The queue names of a manifest have passed the schema. -/
def QueuesNamed (workflows : OrderedMap String WorkflowManifest) : Prop :=
  ∀ w ∈ workflows.values, ∀ queue ∈ queueNames w, queueNameRe queue = true

theorem queueNameRe_of_mem {owner repo : String} {workflows : OrderedMap String WorkflowManifest} {t : QueueScope}
    (hnames : QueuesNamed workflows) (ht : t ∈ manifestTuples owner repo workflows) :
    queueNameRe t.queue = true := by
  obtain ⟨_, _, w, hw, hqueue⟩ := mem_manifestTuples.mp ht
  exact hnames w (OrderedMap.mem_values_of_get? hw) _ hqueue

theorem mem_removedWorkflows {old new : OrderedMap String WorkflowManifest} {name : String} :
    name ∈ (diffManifests old new).removedWorkflows ↔ (∃ w, old.get? name = some w) ∧ new.get? name = none := by
  rw [diffManifests, List.mem_filter, OrderedMap.has, Bool.not_eq_true', Option.isSome_eq_false_iff,
    Option.isNone_iff_eq_none]
  refine and_congr_left ?_
  intro _
  rw [← Option.isSome_iff_exists, Option.isSome_iff_ne_none, ne_eq, OrderedMap.get?_eq_none_iff, not_not]

theorem mem_perWorkflow {old new : OrderedMap String WorkflowManifest} {name queue : String} :
    (∃ removed, (name, removed) ∈ (diffManifests old new).perWorkflow ∧ queue ∈ removed) ↔
      ∃ oldWf newWf, old.get? name = some oldWf ∧ new.get? name = some newWf ∧
        queue ∈ queueNames oldWf ∧ queue ∉ queueNames newWf := by
  constructor
  · rintro ⟨removed, he, hqueue⟩
    obtain ⟨⟨name', newWf⟩, hentry, hsome⟩ := List.mem_filterMap.mp he
    cases hold : old.get? name' with
    | none => simp [hold] at hsome
    | some oldWf =>
      simp only [hold, Option.ite_none_left_eq_some, Option.some.injEq, Prod.mk.injEq] at hsome
      obtain ⟨_, rfl, rfl⟩ := hsome
      obtain ⟨hmem, hnot⟩ := List.mem_filter.mp hqueue
      exact ⟨oldWf, newWf, hold, (new.get?_eq_some_iff _ _).mpr hentry, hmem, of_decide_eq_true hnot⟩
  · rintro ⟨oldWf, newWf, hold, hnew, hmem, hnot⟩
    have hremoved : queue ∈ (queueNames oldWf).filter fun q => q ∉ queueNames newWf :=
      List.mem_filter.mpr ⟨hmem, decide_eq_true hnot⟩
    refine ⟨_, List.mem_filterMap.mpr ⟨(name, newWf), (new.get?_eq_some_iff _ _).mp hnew, ?_⟩, hremoved⟩
    simp only [hold]
    rw [if_neg]
    rw [List.isEmpty_iff]
    exact List.ne_nil_of_mem hremoved

/-- What the DELETEs of the diff cover: all of a removed workflow, and the removed queues of the others. -/
theorem covers_scopes_iff {old new : OrderedMap String WorkflowManifest} {row : QueueRow} :
    (∃ scope ∈ (diffManifests old new).scopes row.owner row.repo, scope.covers row = true) ↔
      ((∃ w, old.get? row.workflow = some w) ∧ new.get? row.workflow = none) ∨
        ∃ oldWf newWf, old.get? row.workflow = some oldWf ∧ new.get? row.workflow = some newWf ∧
          row.queue ∈ queueNames oldWf ∧ row.queue ∉ queueNames newWf := by
  rw [← mem_removedWorkflows, ← mem_perWorkflow]
  constructor
  · rintro ⟨scope, hscope, hcovers⟩
    rcases List.mem_append.mp hscope with hremoved | hper
    · obtain ⟨name, hname, rfl⟩ := List.mem_map.mp hremoved
      have hworkflow : row.workflow = name := by simpa [WorkflowQueueScope.covers] using hcovers
      exact Or.inl (hworkflow ▸ hname)
    · obtain ⟨⟨name, removed⟩, he, hmem⟩ := List.mem_flatMap.mp hper
      obtain ⟨queue, hqueue, rfl⟩ := List.mem_map.mp hmem
      have hnames : row.workflow = name ∧ row.queue = queue := by
        simpa [WorkflowQueueScope.covers] using hcovers
      obtain ⟨rfl, rfl⟩ := hnames
      exact Or.inr ⟨removed, he, hqueue⟩
  · rintro (hremoved | ⟨removed, he, hqueue⟩)
    · refine ⟨⟨row.owner, row.repo, row.workflow, none⟩, List.mem_append_left _ ?_, ?_⟩
      · exact List.mem_map.mpr ⟨row.workflow, hremoved, rfl⟩
      · simp [WorkflowQueueScope.covers]
    · refine ⟨row.scope.toDeclaration, List.mem_append_right _ ?_, (covers_toDeclaration _ row).mpr rfl⟩
      exact List.mem_flatMap.mpr ⟨_, he, List.mem_map.mpr ⟨row.queue, hqueue, rfl⟩⟩

/-- A row that the old manifest declares is deleted by the diff exactly when the new one does not declare it. -/
theorem covers_diffManifests {old new : OrderedMap String WorkflowManifest} {row : QueueRow}
    (hrow : row.scope ∈ manifestTuples row.owner row.repo old) :
    (∃ scope ∈ (diffManifests old new).scopes row.owner row.repo, scope.covers row = true) ↔
      row.scope ∉ manifestTuples row.owner row.repo new := by
  obtain ⟨_, _, oldWf, hold, hqueue⟩ := mem_manifestTuples.mp hrow
  have hnew : row.scope ∈ manifestTuples row.owner row.repo new ↔
      ∃ w, new.get? row.workflow = some w ∧ row.queue ∈ queueNames w := by
    rw [mem_manifestTuples]
    exact ⟨fun h => h.2.2, fun h => ⟨rfl, rfl, h⟩⟩
  rw [covers_scopes_iff, hnew]
  constructor
  · rintro (⟨_, hgone⟩ | ⟨_, newWf, _, hget, _, hnot⟩) ⟨w, hw, hmem⟩
    · rw [hgone] at hw
      cases hw
    · rw [hget] at hw
      cases hw
      exact hnot hmem
  · intro hnot
    cases hget : new.get? row.workflow with
    | none => exact Or.inl ⟨⟨oldWf, hold⟩, rfl⟩
    | some newWf => exact Or.inr ⟨oldWf, newWf, hold, rfl, hqueue, fun hmem => hnot ⟨newWf, hget, hmem⟩⟩

/-- For rows of one repo that the old manifest declares, the diff and the reconciliation keep the same. -/
theorem diff_filter_eq_reconcile_filter {owner repo : String} {old new : OrderedMap String WorkflowManifest}
    {rows : List QueueRow} (hold : QueuesNamed old) (hnew : QueuesNamed new)
    (hrows : ∀ row ∈ rows, row.owner = owner → row.repo = repo → row.scope ∈ manifestTuples owner repo old) :
    (removeDeclarations allDeleted ((diffManifests old new).scopes owner repo) rows).filter
        (fun row => row.owner = owner ∧ row.repo = repo) =
      (reconcile (.ok ()) allDeleted (manifestTuples owner repo new) rows).filter
        (fun row => row.owner = owner ∧ row.repo = repo) := by
  rw [removeDeclarations_allDeleted, reconcile_allDeleted, List.filter_filter, List.filter_filter]
  apply List.filter_congr
  intro row hrow
  by_cases hrepo : row.owner = owner ∧ row.repo = repo
  · obtain ⟨rfl, rfl⟩ := hrepo
    have hdeclared := hrows row hrow rfl rfl
    have hkey : tupleKey row.scope ∈ (manifestTuples row.owner row.repo new).map tupleKey ↔
        row.scope ∈ manifestTuples row.owner row.repo new := by
      constructor
      · intro h
        obtain ⟨t, ht, hsame⟩ := List.mem_map.mp h
        obtain ⟨howner, hrepo, _⟩ := mem_manifestTuples.mp ht
        obtain ⟨owner, repo, workflow, queue⟩ := t
        obtain rfl : owner = row.owner := howner
        obtain rfl : repo = row.repo := hrepo
        have hnames := tupleKey_inj_of_queueNameRe (queueNameRe_of_mem hnew ht)
          (queueNameRe_of_mem hold hdeclared) hsame
        obtain rfl : workflow = row.workflow := hnames.1
        obtain rfl : queue = row.queue := hnames.2
        exact ht
      · exact List.mem_map_of_mem
    rw [Bool.eq_iff_iff, Bool.and_eq_true, Bool.and_eq_true, decide_eq_true_eq, decide_eq_true_eq, hkey,
      List.all_eq_true]
    refine and_congr_right ?_
    intro _
    rw [← not_not (a := row.scope ∈ manifestTuples row.owner row.repo new), ← covers_diffManifests hdeclared]
    simp
  · simp [hrepo]

/-! ## When the reconciliation is exact -/

/-- Undeclared rows are told apart from the declared tuples unless their names are shifted forms of these. -/
theorem reconcile_exact_iff (declared : List QueueScope) (rows : List QueueRow)
    (hdeclared : ∀ t ∈ declared, t.Named) (hrows : ∀ row ∈ rows, row.scope.Named) :
    (reconcile (.ok ()) allDeleted declared rows = rows.filter (fun row => row.scope ∈ declared) ∧
      ∀ (owner repo : String) (old new : OrderedMap String WorkflowManifest), QueuesNamed old → QueuesNamed new →
        (∀ row ∈ rows, row.owner = owner → row.repo = repo → row.scope ∈ manifestTuples owner repo old) →
        (removeDeclarations allDeleted ((diffManifests old new).scopes owner repo) rows).filter
            (fun row => row.owner = owner ∧ row.repo = repo) =
          (reconcile (.ok ()) allDeleted (manifestTuples owner repo new) rows).filter
            (fun row => row.owner = owner ∧ row.repo = repo)) ↔
      ∀ row ∈ rows, row.scope ∉ declared → ∀ t ∈ declared, ¬row.scope.Shifted t := by
  constructor
  · intro hboth row hrow hnot t ht hshift
    obtain ⟨hexact, _⟩ := hboth
    rw [reconcile_allDeleted] at hexact
    have hkept : row ∈ rows.filter fun row => tupleKey row.scope ∈ declared.map tupleKey := by
      refine List.mem_filter.mpr ⟨hrow, decide_eq_true (List.mem_map.mpr ⟨t, ht, ?_⟩)⟩
      exact ((tupleKey_eq_iff (hrows row hrow) (hdeclared t ht)).mpr (Or.inr hshift)).symm
    rw [hexact] at hkept
    exact hnot (of_decide_eq_true (List.mem_filter.mp hkept).2)
  · intro hshift
    refine ⟨?_, fun owner repo old new hold hnew hrows => diff_filter_eq_reconcile_filter hold hnew hrows⟩
    rw [reconcile_allDeleted]
    apply List.filter_congr
    intro row hrow
    rw [Bool.eq_iff_iff, decide_eq_true_eq, decide_eq_true_eq]
    constructor
    · intro hkey
      by_contra hnot
      obtain ⟨t, ht, hsame⟩ := List.mem_map.mp hkey
      rcases (tupleKey_eq_iff (hrows row hrow) (hdeclared t ht)).mp hsame.symm with heq | hshifted
      · exact hnot (heq ▸ ht)
      · exact hshift row hrow hnot t ht hshifted
    · exact List.mem_map_of_mem

/-- A row of the undeclared queue `b c` of workflow `a` is taken for one of queue `c` of workflow `a b`. -/
theorem reconcile_keeps_shifted_row :
    let declared : List QueueScope := [⟨"acme", "site", "a b", "c"⟩]
    let rows : List QueueRow := [⟨1, "acme", "site", "a", "b c", "", "{}"⟩]
    (∀ row ∈ rows, row.scope ∉ declared) ∧ reconcile (.ok ()) allDeleted declared rows = rows := by
  decide

theorem reconcile_deletes_other_repo :
    reconcile (.ok ()) allDeleted [⟨"acme", "site", "a", "q"⟩]
        [⟨1, "acme", "site", "a", "q", "", "{}"⟩, ⟨2, "acme", "shop", "a", "q", "", "{}"⟩] =
      [⟨1, "acme", "site", "a", "q", "", "{}"⟩] := by
  refine ((reconcile_exact_iff _ _ ?_ ?_).mpr ?_).1
  · simp only [List.forall_mem_singleton]
    exact ⟨by decide, by decide⟩
  · simp only [List.forall_mem_cons]
    exact ⟨⟨by decide, by decide⟩, ⟨by decide, by decide⟩, by simp⟩
  · intro row hrow hnot t ht hshift
    simp only [List.mem_cons, List.not_mem_nil, or_false] at hrow ht
    subst ht
    rcases hrow with rfl | rfl
    · exact hnot (by decide)
    · exact absurd hshift.2.1 (by decide)

end WorkflowEngine.Runtime
