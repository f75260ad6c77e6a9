import WorkflowEngine.Runtime.SidebarTree

/-!
# The operator pages

The GET routes of `/invocations`, `/trigger` and `/queue` behind the session
middleware, as functions of the user, the registry with its queue rows and the rows
of the event store. A path is the list of its decoded segments; the routes are tried
in the order in which they are registered. A page is what its renderer is given.
-/

namespace WorkflowEngine.Runtime.Operator

open Lib Invocations Sidebar
set_option autoImplicit false

variable {Z B : Type}

/-- What the pages read. -/
structure Stores (Z B : Type) where
  registry : Registry Z B
  events : List EventsRow

/-- The limit of the invocations list and the order of `localeCompare`. -/
structure Options where
  limit : Nat
  localeLe : String → String → Bool

inductive Surface where
  | invocations | trigger | queue
  deriving DecidableEq

def Surface.segment : Surface → String
  | .invocations => "invocations"
  | .trigger => "trigger"
  | .queue => "queue"

structure Filter where
  owner : String
  repo : Option String
  workflow : Option String
  trigger : Option String

def Filter.path (f : Filter) : List String :=
  [some f.owner, f.repo, f.workflow, f.trigger].filterMap given

/-- The parts that every page shares; a tab leads to `path` on its surface. -/
structure Frame where
  login : String
  mail : String
  tree : SidebarData
  tabs : List Surface
  path : List String

structure QueueCard where
  owner : String
  repo : String
  workflow : String
  queue : String
  count : Nat
  title : String

inductive Response (Z : Type) where
  | notFound
  | invocationsPage (frame : Frame) (rows : List InvocationRow)
  | flamegraph (events : List EventsRow) (triggerKind : Option TriggerKind)
  | eventDetail (leaf : EventsRow)
  | triggersPage (frame : Frame) (entries : List (WorkflowEntry Z))
  | triggerPage (frame : Frame) (owner repo workflow trigger : String) (entries : List (WorkflowEntry Z))
  | queuesPage (frame : Frame) (cards : List QueueCard)
  | itemsFragment (scope : QueueScope) (items : List QueueRow) (offset total : Nat)

/-! ## Tabs -/

def allTabs : List Surface := [.invocations, .trigger, .queue]

def visibleTabsFor (surface : Surface) (trigger : Option String) (removed : Bool) : List Surface :=
  if removed then allTabs.filter (· = surface)
  else if (given trigger).isSome then allTabs.filter (· ≠ .queue)
  else allTabs

/-! ## `/invocations` -/

def workflowHistoryExists (rows : List EventsRow) (owner repo workflow : String) : Except String Bool := do
  let base ← query rows [⟨owner, repo⟩]
  return base.any (·.workflow == workflow)

def workflowSegmentMissing (s : Stores Z B) (f : Filter) : Except String Bool :=
  match given f.workflow, given f.repo with
  | some workflow, some repo =>
    if (s.registry.list f.owner repo).any (·.workflow.name == workflow) then .ok false
    else do
      let history ← workflowHistoryExists s.events f.owner repo workflow
      return !history
  | _, _ => .ok false

def isScopeRemoved (r : Registry Z B) (f : Filter) : Bool :=
  match given f.workflow, given f.repo with
  | some workflow, some repo =>
    match (r.list f.owner repo).find? (·.workflow.name = workflow) with
    | none => true
    | some entry => (given f.trigger).any fun t => !entry.triggers.any (·.name == t)
  | _, _ => false

def Filter.narrow (f : Filter) : Option Narrow := (given f.workflow).map fun workflow => ⟨workflow, given f.trigger⟩

def selectionOf (user : UserContext) (r : Registry Z B) (filter : Option Filter) : Selection where
  scopes := resolveQueryScopes (some user) r ⟨filter.map (·.owner), filter.bind fun f => given f.repo⟩
  narrow := filter.bind Filter.narrow

def renderListFiltered (o : Options) (s : Stores Z B) (user : UserContext) (filter : Option Filter) :
    Except String (Response Z) := do
  let missing ← match filter with
    | none => pure false
    | some f => workflowSegmentMissing s f
  if missing then return .notFound
  let rows ← (selectionOf user s.registry filter).page s.events s.registry o.limit
  let tree ← invocationsTree o.localeLe user s.registry s.events
  let frame : Frame :=
    { login := user.login
      mail := user.mail
      tree := tree
      tabs := visibleTabsFor .invocations (filter.bind (·.trigger)) (filter.any (isScopeRemoved s.registry))
      path := (filter.map Filter.path).getD [] }
  return .invocationsPage frame rows

/-- The rows of an invocation, by `seq`. -/
def fetchInvocationEvents (rows : List EventsRow) (id owner repo : String) : Except String (List EventsRow) := do
  let base ← query rows [⟨owner, repo⟩]
  return (base.filter (·.id == id)).insertionSort fun a b => a.seq ≤ b.seq

def isSyntheticLeaf (events : List EventsRow) : Bool :=
  match events with
  | [first] => syntheticLeafKinds.contains first.kind
  | _ => false

def inspectableLeafKinds : List String := ["trigger.rejection", "system.upload"]

def flamegraph (s : Stores Z B) (owner repo id : String) : Except String (Response Z) := do
  let events ← fetchInvocationEvents s.events id owner repo
  if events.isEmpty || isSyntheticLeaf events then return .notFound
  let triggerReq := events.find? (·.kind = "trigger.request")
  return .flamegraph events (triggerReq.bind fun e => lookupTriggerKind s.registry e.owner e.repo e.workflow e.name)

def eventDetail (s : Stores Z B) (owner repo id : String) : Except String (Response Z) := do
  let events ← fetchInvocationEvents s.events id owner repo
  match events with
  | [leaf] => return if inspectableLeafKinds.contains leaf.kind then .eventDetail leaf else .notFound
  | _ => return .notFound

/-! ## `/trigger` and `/queue` -/

def entriesForOwner (r : Registry Z B) (owner : String) : List (WorkflowEntry Z) :=
  (r.repos owner).flatMap fun repo => r.list owner repo

def entriesAcrossOwners (r : Registry Z B) (owners : List String) : List (WorkflowEntry Z) :=
  owners.flatMap (entriesForOwner r)

/-- The tree and the tabs of a page that only knows the registry. -/
def registryFrame (o : Options) (s : Stores Z B) (user : UserContext) (surface : Surface) (path : List String) : Frame where
  login := user.login
  mail := user.mail
  tree := buildSidebarData o.localeLe s.registry (sortedOwners user) []
  tabs := visibleTabsFor surface path[3]? false
  path := path

def queueRefs (entries : List (WorkflowEntry Z)) : List QueueScope :=
  entries.flatMap fun entry => entry.workflow.queues.map fun q =>
    ⟨entry.owner, entry.repo, entry.workflow.name, q.name⟩

/-- The path of a queue from the scope of the page on. -/
def adaptiveTitle (ref : QueueScope) (path : List String) : String :=
  "/".intercalate ([ref.owner, ref.repo, ref.workflow, ref.queue].drop (min path.length 3))

def countItems (rows : List QueueRow) (scope : QueueScope) : Nat := rows.countP (·.scope = scope)

def buildCardsForRefs (o : Options) (s : Stores Z B) (refs : List QueueScope) (path : List String) : List QueueCard :=
  (refs.map fun ref => (⟨ref.owner, ref.repo, ref.workflow, ref.queue, countItems s.registry.rows ref,
    adaptiveTitle ref path⟩ : QueueCard)).insertionSort fun a b => o.localeLe a.title b.title = true

def itemsPageSize : Nat := 50

/-- `list(scope, offset, 50)` by `seq`, and `count(scope)`. -/
def itemsFragment (s : Stores Z B) (scope : QueueScope) (offset : Nat) : Response Z :=
  let items := (s.registry.rows.filter (·.scope = scope)).insertionSort fun a b => a.seq ≤ b.seq
  .itemsFragment scope ((items.drop offset).take itemsPageSize) offset (countItems s.registry.rows scope)

/-! ## Routes -/

/-- `requireOwnerMember` before the handler of a path that names an owner, and maybe a repo. -/
def guarded (user : UserContext) (owner : String) (repo : Option String) (response : Except String (Response Z)) :
    Except String (Response Z) :=
  if requireOwnerMember (some user) owner repo then response else .ok .notFound

def invocationsRoute (o : Options) (s : Stores Z B) (user : UserContext) :
    List String → Except String (Response Z)
  | [] => renderListFiltered o s user none
  | [owner] => guarded user owner none (renderListFiltered o s user (some ⟨owner, none, none, none⟩))
  | [owner, repo] =>
    guarded user owner (some repo) (renderListFiltered o s user (some ⟨owner, some repo, none, none⟩))
  | [owner, repo, workflow] =>
    guarded user owner (some repo) (renderListFiltered o s user (some ⟨owner, some repo, some workflow, none⟩))
  | [owner, repo, id, "flamegraph"] => guarded user owner (some repo) (flamegraph s owner repo id)
  | [owner, repo, id, "event"] => guarded user owner (some repo) (eventDetail s owner repo id)
  | [owner, repo, workflow, trigger] =>
    guarded user owner (some repo) (renderListFiltered o s user (some ⟨owner, some repo, some workflow, some trigger⟩))
  | _ => .ok .notFound

def triggerRoute (o : Options) (s : Stores Z B) (user : UserContext) (path : List String) :
    Except String (Response Z) :=
  let frame := registryFrame o s user .trigger path
  match path with
  | [] => .ok (.triggersPage frame (entriesAcrossOwners s.registry (sortedOwners user)))
  | [owner] => guarded user owner none (.ok (.triggersPage frame (entriesForOwner s.registry owner)))
  | [owner, repo] => guarded user owner (some repo) (.ok (.triggersPage frame (s.registry.list owner repo)))
  | [owner, repo, workflow] =>
    let entries := (s.registry.list owner repo).filter (·.workflow.name == workflow)
    guarded user owner (some repo) (.ok (if entries.isEmpty then .notFound else .triggersPage frame entries))
  | [owner, repo, workflow, trigger] =>
    guarded user owner (some repo) (.ok (.triggerPage frame owner repo workflow trigger (s.registry.list owner repo)))
  | _ => .ok .notFound

/-- `offset` is the parsed query parameter. -/
def queueRoute (o : Options) (s : Stores Z B) (user : UserContext) (offset : Nat) (path : List String) :
    Except String (Response Z) :=
  let page := fun entries : List (WorkflowEntry Z) =>
    Response.queuesPage (registryFrame o s user .queue path) (buildCardsForRefs o s (queueRefs entries) path)
  match path with
  | [] => .ok (page (entriesAcrossOwners s.registry (sortedOwners user)))
  | [owner] => guarded user owner none (.ok (page (entriesForOwner s.registry owner)))
  | [owner, repo] => guarded user owner (some repo) (.ok (page (s.registry.list owner repo)))
  | [owner, repo, workflow] =>
    let entries := (s.registry.list owner repo).filter (·.workflow.name == workflow)
    guarded user owner (some repo) (.ok (if entries.isEmpty then .notFound else page entries))
  | [owner, repo, workflow, queue, "items"] =>
    guarded user owner (some repo) (.ok
      (match (s.registry.list owner repo).find? (·.workflow.name = workflow) with
      | none => .notFound
      | some entry =>
        if entry.workflow.queues.any (·.name == queue) then itemsFragment s ⟨owner, repo, workflow, queue⟩ offset
        else .notFound))
  | _ => .ok .notFound

structure Request where
  surface : Surface
  path : List String
  offset : Nat
  deriving DecidableEq

/-- No parameter of a route matches an empty segment. -/
def respond (o : Options) (s : Stores Z B) (user : UserContext) (req : Request) : Except String (Response Z) :=
  if req.path.contains "" then .ok .notFound
  else match req.surface with
  | .invocations => invocationsRoute o s user req.path
  | .trigger => triggerRoute o s user req.path
  | .queue => queueRoute o s user req.offset req.path

/-! ## Isolation -/

/-- The part of the stores that belongs to some owners. -/
def Stores.ofOwners (allowed : String → Bool) (s : Stores Z B) : Stores Z B where
  registry := s.registry.ofOwners allowed
  events := s.events.filter fun row => allowed row.owner

section
variable {allowed : String → Bool} {rows : List EventsRow} {scopes : List Scope}

theorem filter_inScopes_ofOwners (h : ∀ scope ∈ scopes, allowed scope.owner = true) :
    (rows.filter fun row => allowed row.owner).filter (inScopes scopes) = rows.filter (inScopes scopes) := by
  rw [List.filter_filter]
  apply List.filter_congr
  intro row _
  by_cases hin : inScopes scopes row = true
  · have hallowed := h _ (List.contains_iff_mem.mp hin)
    simp [hin, hallowed]
  · simp [hin]

theorem query_ofOwners (h : ∀ scope ∈ scopes, allowed scope.owner = true) :
    query (rows.filter fun row => allowed row.owner) scopes = query rows scopes := by
  unfold query
  rw [filter_inScopes_ofOwners h]

theorem lookupTriggerKind_ofOwners (r : Registry Z B) {owner : String} (h : allowed owner = true)
    (repo workflow trigger : String) :
    lookupTriggerKind (r.ofOwners allowed) owner repo workflow trigger = lookupTriggerKind r owner repo workflow trigger := by
  unfold lookupTriggerKind
  rw [r.list_ofOwners h]

theorem syntheticRow_ofOwners (r : Registry Z B) {row : EventsRow} (h : allowed row.owner = true)
    (trigger : Option String) : syntheticRow (r.ofOwners allowed) trigger row = syntheticRow r trigger row := by
  simp only [syntheticRow, buildSyntheticTriggerRow, lookupTriggerKind_ofOwners r h]

theorem merged_ofOwners (r : Registry Z B) {base : List EventsRow} (h : ∀ row ∈ base, allowed row.owner = true)
    (limit : Nat) (narrow : Option Narrow) :
    merged base (r.ofOwners allowed) limit narrow = merged base r limit narrow := by
  have hfirst : ∀ p : EventsRow → Bool, ∀ row ∈ firstRows NewestFirst limit (base.filter p), allowed row.owner = true :=
    fun p row hrow => h row (List.mem_of_mem_filter (mem_of_mem_firstRows hrow))
  unfold merged
  congr 1
  · apply List.map_congr_left
    intro row hrow
    simp only [handlerRow, lookupTriggerKind_ofOwners r (hfirst _ row hrow)]
  · apply List.filterMap_congr
    intro row hrow
    exact syntheticRow_ofOwners r (hfirst _ row hrow) _

theorem fetchInvocationRowsForScopes_ofOwners (r : Registry Z B) (h : ∀ scope ∈ scopes, allowed scope.owner = true)
    (limit : Nat) (narrow : Option Narrow) :
    fetchInvocationRowsForScopes (rows.filter fun row => allowed row.owner) (r.ofOwners allowed) scopes limit narrow =
      fetchInvocationRowsForScopes rows r scopes limit narrow := by
  have hbase : ∀ row ∈ rows.filter (inScopes scopes), allowed row.owner = true :=
    fun row hrow => h _ (List.contains_iff_mem.mp (List.mem_filter.mp hrow).2)
  rw [fetchInvocationRowsForScopes_eq, fetchInvocationRowsForScopes_eq, filter_inScopes_ofOwners h]
  dsimp only
  rw [merged_ofOwners r hbase]

theorem liveSetsFor_ofOwners (r : Registry Z B) {owner : String} (h : allowed owner = true) (repo : String) :
    liveSetsFor (r.ofOwners allowed) owner repo = liveSetsFor r owner repo := by
  unfold liveSetsFor
  rw [r.list_ofOwners h]

theorem liveFor_ofOwners (r : Registry Z B) {owner : String} (h : allowed owner = true)
    (cache : OrderedMap String LiveSets) (repo : String) :
    liveFor (r.ofOwners allowed) cache owner repo = liveFor r cache owner repo := by
  unfold liveFor
  rw [liveSetsFor_ofOwners r h]

theorem buildSidebarData_ofOwners (localeLe : String → String → Bool) (r : Registry Z B) {owners : List String}
    (h : ∀ owner ∈ owners, allowed owner = true) (pairs : List TriggerPair) :
    buildSidebarData localeLe (r.ofOwners allowed) owners pairs = buildSidebarData localeLe r owners pairs := by
  have hacc : liveAcc (r.ofOwners allowed) owners = liveAcc r owners := by
    unfold liveAcc
    apply List.foldl_ext
    intro acc owner howner
    simp only [r.repos_ofOwners (h owner howner), liveGroups, r.list_ofOwners (h owner howner)]
  have hpair : mergePair (r.ofOwners allowed) owners = mergePair r owners := by
    funext s pair
    unfold mergePair
    by_cases howner : owners.contains pair.owner = true
    · rw [if_pos howner, if_pos howner, liveFor_ofOwners r (h _ (List.contains_iff_mem.mp howner))]
    · rw [if_neg howner, if_neg howner]
  unfold buildSidebarData mergeRemovedPairs
  rw [hacc, hpair]

end

section
variable {user : UserContext}

/-- The part of the stores that belongs to the owners of a user. -/
def Stores.ofUser (user : UserContext) (s : Stores Z B) : Stores Z B := s.ofOwners user.owns

theorem owns_scopes {r : Registry Z B} {constraint : ScopeConstraint} :
    ∀ scope ∈ resolveQueryScopes (some user) r constraint, user.owns scope.owner = true :=
  fun _ h => UserContext.owns_of_mem (owner_mem_of_mem_resolveQueryScopes h)

theorem owns_sortedOwners : ∀ owner ∈ sortedOwners user, user.owns owner = true :=
  fun _ h => UserContext.owns_of_mem (mem_sortedOwners.mp h)

theorem invocationsTree_ofUser (localeLe : String → String → Bool) (s : Stores Z B) :
    invocationsTree localeLe user (s.ofUser user).registry (s.ofUser user).events =
      invocationsTree localeLe user s.registry s.events := by
  have hpairs : historicPairs user (s.ofUser user).registry (s.ofUser user).events =
      historicPairs user s.registry s.events := by
    unfold historicPairs Stores.ofUser Stores.ofOwners
    dsimp only
    rw [resolveQueryScopes_ofOwners, filter_inScopes_ofOwners owns_scopes]
  rw [invocationsTree_eq, invocationsTree_eq, hpairs]
  exact congrArg Except.ok (buildSidebarData_ofOwners localeLe s.registry owns_sortedOwners _)

theorem page_ofUser (s : Stores Z B) (limit : Nat) (filter : Option Filter) :
    (selectionOf user (s.ofUser user).registry filter).page (s.ofUser user).events (s.ofUser user).registry limit =
      (selectionOf user s.registry filter).page s.events s.registry limit := by
  unfold Selection.page selectionOf Stores.ofUser Stores.ofOwners
  dsimp only
  rw [resolveQueryScopes_ofOwners]
  exact fetchInvocationRowsForScopes_ofOwners s.registry owns_scopes limit _

theorem query_ofUser (s : Stores Z B) {owner : String} (h : owner ∈ ownerSet user) (repo : String) :
    query (s.ofUser user).events [⟨owner, repo⟩] = query s.events [⟨owner, repo⟩] := by
  apply query_ofOwners
  intro scope hscope
  rw [List.mem_singleton.mp hscope]
  exact UserContext.owns_of_mem h

theorem list_ofUser (s : Stores Z B) {owner : String} (h : owner ∈ ownerSet user) (repo : String) :
    (s.ofUser user).registry.list owner repo = s.registry.list owner repo :=
  s.registry.list_ofOwners (UserContext.owns_of_mem h) repo

theorem workflowSegmentMissing_ofUser (s : Stores Z B) {f : Filter} (h : f.owner ∈ ownerSet user) :
    workflowSegmentMissing (s.ofUser user) f = workflowSegmentMissing s f := by
  simp only [workflowSegmentMissing, workflowHistoryExists, query_ofUser s h, list_ofUser s h]

theorem isScopeRemoved_ofUser (s : Stores Z B) {f : Filter} (h : f.owner ∈ ownerSet user) :
    isScopeRemoved (s.ofUser user).registry f = isScopeRemoved s.registry f := by
  simp only [isScopeRemoved, list_ofUser s h]

theorem renderListFiltered_ofUser (o : Options) (s : Stores Z B) {filter : Option Filter}
    (h : ∀ f ∈ filter, f.owner ∈ ownerSet user) :
    renderListFiltered o (s.ofUser user) user filter = renderListFiltered o s user filter := by
  unfold renderListFiltered
  rw [page_ofUser, invocationsTree_ofUser]
  cases filter with
  | none => rfl
  | some f =>
    have howner := h f rfl
    simp only [workflowSegmentMissing_ofUser s howner, Option.any_some, isScopeRemoved_ofUser s howner]

theorem fetchInvocationEvents_ofUser (s : Stores Z B) {owner : String} (h : owner ∈ ownerSet user) (id repo : String) :
    fetchInvocationEvents (s.ofUser user).events id owner repo = fetchInvocationEvents s.events id owner repo := by
  unfold fetchInvocationEvents
  rw [query_ofUser s h]

theorem owner_of_fetchInvocationEvents {rows events : List EventsRow} {id owner repo : String}
    (h : fetchInvocationEvents rows id owner repo = .ok events) : ∀ row ∈ events, row.owner = owner := by
  intro row hrow
  simp only [fetchInvocationEvents, query, List.isEmpty_cons, Bool.false_eq_true, if_false] at h
  cases h
  rw [List.mem_insertionSort] at hrow
  have hin := (List.mem_filter.mp (List.mem_of_mem_filter hrow)).2
  have hscope := List.mem_singleton.mp (List.contains_iff_mem.mp hin)
  exact congrArg Scope.owner hscope

theorem flamegraph_ofUser (s : Stores Z B) {owner : String} (h : owner ∈ ownerSet user) (repo id : String) :
    flamegraph (s.ofUser user) owner repo id = flamegraph s owner repo id := by
  unfold flamegraph
  rw [fetchInvocationEvents_ofUser s h]
  cases hevents : fetchInvocationEvents s.events id owner repo with
  | error e => rfl
  | ok events =>
    have hkind : ((events.find? (·.kind = "trigger.request")).bind fun e =>
        lookupTriggerKind (s.ofUser user).registry e.owner e.repo e.workflow e.name) =
        (events.find? (·.kind = "trigger.request")).bind fun e =>
          lookupTriggerKind s.registry e.owner e.repo e.workflow e.name := by
      cases hfind : events.find? (·.kind = "trigger.request") with
      | none => rfl
      | some e =>
        have howner := owner_of_fetchInvocationEvents hevents e (List.mem_of_find?_eq_some hfind)
        apply lookupTriggerKind_ofOwners
        rw [howner]
        exact UserContext.owns_of_mem h
    simp only [bind, Except.bind, hkind]

theorem eventDetail_ofUser (s : Stores Z B) {owner : String} (h : owner ∈ ownerSet user) (repo id : String) :
    eventDetail (s.ofUser user) owner repo id = eventDetail s owner repo id := by
  unfold eventDetail
  rw [fetchInvocationEvents_ofUser s h]

theorem entriesForOwner_ofUser (s : Stores Z B) {owner : String} (h : owner ∈ ownerSet user) :
    entriesForOwner (s.ofUser user).registry owner = entriesForOwner s.registry owner := by
  have howns := UserContext.owns_of_mem h
  simp only [entriesForOwner, Stores.ofUser, Stores.ofOwners, Registry.repos_ofOwners _ howns,
    Registry.list_ofOwners _ howns]

theorem entriesAcrossOwners_ofUser (s : Stores Z B) :
    entriesAcrossOwners (s.ofUser user).registry (sortedOwners user) =
      entriesAcrossOwners s.registry (sortedOwners user) :=
  List.flatMap_congr fun _ h => entriesForOwner_ofUser s (mem_sortedOwners.mp h)

theorem registryFrame_ofUser (o : Options) (s : Stores Z B) (surface : Surface) (path : List String) :
    registryFrame o (s.ofUser user) user surface path = registryFrame o s user surface path := by
  unfold registryFrame
  rw [Stores.ofUser, Stores.ofOwners, buildSidebarData_ofOwners o.localeLe s.registry owns_sortedOwners]

theorem filter_rows_ofUser (s : Stores Z B) {scope : QueueScope} (h : scope.owner ∈ ownerSet user) :
    (s.ofUser user).registry.rows.filter (·.scope = scope) = s.registry.rows.filter (·.scope = scope) := by
  unfold Stores.ofUser Stores.ofOwners Registry.ofOwners
  rw [List.filter_filter]
  apply List.filter_congr
  intro row _
  by_cases hscope : row.scope = scope
  · have howner : row.owner = scope.owner := congrArg QueueScope.owner hscope
    simp [hscope, howner, UserContext.owns_of_mem h]
  · simp [hscope]

theorem countItems_ofUser (s : Stores Z B) {scope : QueueScope} (h : scope.owner ∈ ownerSet user) :
    countItems (s.ofUser user).registry.rows scope = countItems s.registry.rows scope := by
  unfold countItems
  rw [List.countP_eq_length_filter, List.countP_eq_length_filter, filter_rows_ofUser s h]

theorem itemsFragment_ofUser (s : Stores Z B) {scope : QueueScope} (h : scope.owner ∈ ownerSet user) (offset : Nat) :
    itemsFragment (s.ofUser user) scope offset = itemsFragment s scope offset := by
  unfold itemsFragment
  rw [filter_rows_ofUser s h, countItems_ofUser s h]

theorem buildCardsForRefs_ofUser (o : Options) (s : Stores Z B) {refs : List QueueScope}
    (h : ∀ ref ∈ refs, ref.owner ∈ ownerSet user) (path : List String) :
    buildCardsForRefs o (s.ofUser user) refs path = buildCardsForRefs o s refs path := by
  unfold buildCardsForRefs
  congr 1
  apply List.map_congr_left
  intro ref href
  rw [countItems_ofUser s (h ref href)]

theorem owner_of_mem_list {r : Registry Z B} {owner repo : String} {entry : WorkflowEntry Z}
    (h : entry ∈ r.list owner repo) : entry.owner = owner ∧ entry.repo = repo := by
  unfold Registry.list at h
  cases hstate : r.getRepoState owner repo with
  | none => simp [hstate] at h
  | some state =>
    rw [hstate, Option.map_some, Option.getD_some, collectForRepo, List.mem_filterMap] at h
    obtain ⟨e, -, hentry⟩ := h
    split at hentry
    · cases hentry
      exact ⟨rfl, rfl⟩
    · cases hentry

theorem owner_of_mem_queueRefs {entries : List (WorkflowEntry Z)} {ref : QueueScope} (h : ref ∈ queueRefs entries) :
    ∃ entry ∈ entries, ref.owner = entry.owner := by
  obtain ⟨entry, hentry, href⟩ := List.mem_flatMap.mp h
  obtain ⟨q, -, rfl⟩ := List.mem_map.mp href
  exact ⟨entry, hentry, rfl⟩

theorem owner_of_mem_entriesForOwner {r : Registry Z B} {owner : String} {entry : WorkflowEntry Z}
    (h : entry ∈ entriesForOwner r owner) : entry.owner = owner := by
  obtain ⟨repo, -, hentry⟩ := List.mem_flatMap.mp h
  exact (owner_of_mem_list hentry).1

/-- Where a path is refused to one who does not own it, only the owner's answer matters. -/
theorem guarded_congr {owner : String} {repo : Option String} {a b : Except String (Response Z)}
    (h : owner ∈ ownerSet user → a = b) : guarded user owner repo a = guarded user owner repo b := by
  unfold guarded
  split
  · rename_i hmember
    exact h (requireOwnerMember_eq_true_iff.mp hmember).1
  · rfl

theorem invocationsRoute_ofUser (o : Options) (s : Stores Z B) (path : List String) :
    invocationsRoute o (s.ofUser user) user path = invocationsRoute o s user path := by
  have hlist : ∀ f : Filter, f.owner ∈ ownerSet user →
      renderListFiltered o (s.ofUser user) user (some f) = renderListFiltered o s user (some f) := by
    intro f hf
    apply renderListFiltered_ofUser
    rintro _ ⟨⟩
    exact hf
  unfold invocationsRoute
  split
  · apply renderListFiltered_ofUser
    rintro _ ⟨⟩
  · exact guarded_congr fun h => hlist _ h
  · exact guarded_congr fun h => hlist _ h
  · exact guarded_congr fun h => hlist _ h
  · exact guarded_congr fun h => flamegraph_ofUser s h _ _
  · exact guarded_congr fun h => eventDetail_ofUser s h _ _
  · exact guarded_congr fun h => hlist _ h
  · rfl

theorem triggerRoute_ofUser (o : Options) (s : Stores Z B) (path : List String) :
    triggerRoute o (s.ofUser user) user path = triggerRoute o s user path := by
  unfold triggerRoute
  simp only [registryFrame_ofUser, entriesAcrossOwners_ofUser]
  split
  · rfl
  · exact guarded_congr fun h => by rw [entriesForOwner_ofUser s h]
  · exact guarded_congr fun h => by rw [list_ofUser s h]
  · exact guarded_congr fun h => by rw [list_ofUser s h]
  · exact guarded_congr fun h => by rw [list_ofUser s h]
  · rfl

theorem cards_ofUser (o : Options) (s : Stores Z B) {entries : List (WorkflowEntry Z)}
    (h : ∀ entry ∈ entries, entry.owner ∈ ownerSet user) (path : List String) :
    buildCardsForRefs o (s.ofUser user) (queueRefs entries) path = buildCardsForRefs o s (queueRefs entries) path := by
  apply buildCardsForRefs_ofUser
  intro ref href
  obtain ⟨entry, hentry, howner⟩ := owner_of_mem_queueRefs href
  rw [howner]
  exact h entry hentry

theorem queueRoute_ofUser (o : Options) (s : Stores Z B) (offset : Nat) (path : List String) :
    queueRoute o (s.ofUser user) user offset path = queueRoute o s user offset path := by
  have hlist : ∀ {owner repo : String}, owner ∈ ownerSet user →
      ∀ entry ∈ s.registry.list owner repo, entry.owner ∈ ownerSet user := by
    intro owner repo h entry hentry
    rw [(owner_of_mem_list hentry).1]
    exact h
  unfold queueRoute
  simp only [registryFrame_ofUser, entriesAcrossOwners_ofUser]
  split
  · rw [cards_ofUser]
    intro entry hentry
    obtain ⟨owner, howner, hentry⟩ := List.mem_flatMap.mp hentry
    rw [owner_of_mem_entriesForOwner hentry]
    exact mem_sortedOwners.mp howner
  · refine guarded_congr fun h => ?_
    rw [entriesForOwner_ofUser s h, cards_ofUser]
    intro entry hentry
    rw [owner_of_mem_entriesForOwner hentry]
    exact h
  · refine guarded_congr fun h => ?_
    rw [list_ofUser s h, cards_ofUser o s (hlist h)]
  · refine guarded_congr fun h => ?_
    rw [list_ofUser s h, cards_ofUser]
    exact fun entry hentry => hlist h entry (List.mem_of_mem_filter hentry)
  · refine guarded_congr fun h => ?_
    rw [list_ofUser s h, itemsFragment_ofUser]
    exact h
  · rfl

theorem respond_ofUser (o : Options) (s : Stores Z B) (user : UserContext) (req : Request) :
    respond o (s.ofUser user) user req = respond o s user req := by
  unfold respond
  rw [invocationsRoute_ofUser, triggerRoute_ofUser, queueRoute_ofUser]

variable {owner : String}

theorem guarded_of_not_mem (h : owner ∉ ownerSet user) (repo : Option String) (response : Except String (Response Z)) :
    guarded user owner repo response = .ok .notFound := by
  rw [guarded, if_neg]
  exact fun hmember => h (requireOwnerMember_eq_true_iff.mp hmember).1

theorem invocationsRoute_foreign (o : Options) (s : Stores Z B) (h : owner ∉ ownerSet user) (rest : List String) :
    invocationsRoute o s user (owner :: rest) = .ok .notFound := by
  unfold invocationsRoute
  split <;> rename_i heq <;> first | cases heq; exact guarded_of_not_mem h _ _ | rfl | cases heq

theorem triggerRoute_foreign (o : Options) (s : Stores Z B) (h : owner ∉ ownerSet user) (rest : List String) :
    triggerRoute o s user (owner :: rest) = .ok .notFound := by
  unfold triggerRoute
  dsimp only
  split <;> rename_i heq <;> first | cases heq; exact guarded_of_not_mem h _ _ | rfl | cases heq

theorem queueRoute_foreign (o : Options) (s : Stores Z B) (h : owner ∉ ownerSet user) (offset : Nat)
    (rest : List String) : queueRoute o s user offset (owner :: rest) = .ok .notFound := by
  unfold queueRoute
  dsimp only
  split <;> rename_i heq <;> first | cases heq; exact guarded_of_not_mem h _ _ | rfl | cases heq

/-- Every operator page is made from the part of the registry, of the queue items and of the event store that
belongs to the owners of its user, whatever the path asks for, and a path of another owner leads nowhere. -/
theorem respond_isolated (o : Options) (s : Stores Z B) (user : UserContext) (req : Request) :
    respond o (s.ofUser user) user req = respond o s user req ∧
      ∀ owner rest, req.path = owner :: rest → owner ∉ ownerSet user → respond o s user req = .ok .notFound := by
  refine ⟨respond_ofUser o s user req, ?_⟩
  intro owner rest hpath howner
  unfold respond
  split
  · rfl
  · rw [hpath, invocationsRoute_foreign o s howner, triggerRoute_foreign o s howner, queueRoute_foreign o s howner]
    cases req.surface <;> rfl

end

end WorkflowEngine.Runtime.Operator
