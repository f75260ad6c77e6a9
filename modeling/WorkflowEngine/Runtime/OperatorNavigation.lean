import WorkflowEngine.Runtime.OperatorPages

/-!
# Navigation between the operator pages

The links that a page offers and where they lead, while the stores stay as they are: no
link ends in a 404, and the list of a part shows what the list of the whole shows of it.
-/

namespace WorkflowEngine.Runtime.Operator

open Lib Invocations Sidebar
set_option autoImplicit false

variable {Z B : Type}

/-! ## Links -/

/-- The names stand in a link as they are, so that a name with a slash makes several segments. -/
def linkTo (surface : Surface) (names : List String) : Request :=
  ⟨surface, names.flatMap fun name => segments name.toList, 0⟩

/-- The queue pages have no leaf for a trigger. -/
def groupLinks (surface : Surface) (owner repo : String) (g : WorkflowGroup) : List Request :=
  linkTo surface [owner, repo, g.workflow] ::
    if surface = .queue then []
    else g.triggers.map fun t => linkTo surface [owner, repo, g.workflow, t.trigger]

def treeLinks (surface : Surface) (data : SidebarData) : List Request :=
  data.owners.flatMap fun owner => linkTo surface [owner] ::
    (data.reposOf owner).flatMap fun repo => linkTo surface [owner, repo] ::
      (data.groupsOf owner repo).flatMap (groupLinks surface owner repo)

/-- The tree, the tabs and the breadcrumb. -/
def Frame.links (surface : Surface) (frame : Frame) : List Request :=
  treeLinks surface frame.tree ++ frame.tabs.map (linkTo · frame.path) ++
    frame.path.inits.dropLast.map (linkTo surface)

def fragmentUrlForRow (row : InvocationRow) : Option Request :=
  if row.status = .pending then none
  else if row.syntheticKind = some .exception then none
  else if row.syntheticKind = some .rejection ∨ row.syntheticKind = some .upload then
    some (linkTo .invocations [row.owner, row.repo, row.id, "event"])
  else some (linkTo .invocations [row.owner, row.repo, row.id, "flamegraph"])

def itemsUrl (scope : QueueScope) : Request :=
  linkTo .queue [scope.owner, scope.repo, scope.workflow, scope.queue, "items"]

def Response.links : Response Z → List Request
  | .notFound => []
  | .invocationsPage frame rows => frame.links .invocations ++ rows.filterMap fragmentUrlForRow
  | .flamegraph _ _ => []
  | .eventDetail _ => []
  | .triggersPage frame _ => frame.links .trigger
  | .triggerPage frame _ _ _ _ _ => frame.links .trigger
  | .queuesPage frame cards =>
    frame.links .queue ++ (cards.filter (·.count ≠ 0)).map fun card =>
      itemsUrl ⟨card.owner, card.repo, card.workflow, card.queue⟩
  | .itemsFragment scope items offset total =>
    if offset + items.length < total then [{ itemsUrl scope with offset := offset + items.length }] else []

/-- What an operator can come to from the roots of the surfaces by links alone. -/
inductive Visited (o : Options) (s : Stores Z B) (user : UserContext) : Request → Prop
  | root (surface : Surface) : Visited o s user ⟨surface, [], 0⟩
  | follow {req link : Request} {response : Response Z} (h : Visited o s user req)
      (hresponse : respond o s user req = .ok response) (hlink : link ∈ response.links) : Visited o s user link

/-! ## The list of a path -/

def filterAt : List String → Option Filter
  | [] => none
  | [owner] => some ⟨owner, none, none, none⟩
  | [owner, repo] => some ⟨owner, some repo, none, none⟩
  | [owner, repo, workflow] => some ⟨owner, some repo, some workflow, none⟩
  | owner :: repo :: workflow :: trigger :: _ => some ⟨owner, some repo, some workflow, some trigger⟩

/-- What the list at a path asks for. -/
def selectionAt (user : UserContext) (r : Registry Z B) (path : List String) : Selection :=
  selectionOf user r (filterAt path)

def segmentMissing (s : Stores Z B) (f : Filter) : Bool :=
  match given f.workflow, given f.repo with
  | some workflow, some repo =>
    !(s.registry.list f.owner repo).any (·.workflow.name == workflow) &&
      !(s.events.filter (inScopes [⟨f.owner, repo⟩])).any (·.workflow == workflow)
  | _, _ => false

theorem workflowSegmentMissing_eq (s : Stores Z B) (f : Filter) :
    workflowSegmentMissing s f = .ok (segmentMissing s f) := by
  unfold workflowSegmentMissing segmentMissing workflowHistoryExists
  cases given f.workflow with
  | none => rfl
  | some workflow =>
    cases given f.repo with
    | none => rfl
    | some repo =>
      have hquery : query s.events [⟨f.owner, repo⟩] = _ := query_ok s.events rfl
      dsimp only
      rw [hquery]
      cases hlive : (s.registry.list f.owner repo).any (·.workflow.name == workflow) <;> simp

def listFrame (o : Options) (s : Stores Z B) (user : UserContext) (filter : Option Filter) : Frame where
  login := user.login
  mail := user.mail
  tree := buildSidebarData o.localeLe s.registry (sortedOwners user) (historicPairs user s.registry s.events)
  tabs := visibleTabsFor .invocations (filter.bind (·.trigger)) (filter.any (isScopeRemoved s.registry))
  path := (filter.map Filter.path).getD []

theorem renderListFiltered_eq (o : Options) (s : Stores Z B) (user : UserContext) (filter : Option Filter) :
    ∃ rows, (selectionOf user s.registry filter).page s.events s.registry o.limit = .ok rows ∧
      renderListFiltered o s user filter = .ok (if filter.any (segmentMissing s) then .notFound
        else .invocationsPage (listFrame o s user filter) rows) := by
  obtain ⟨rows, hpage⟩ : ∃ rows, (selectionOf user s.registry filter).page s.events s.registry o.limit = .ok rows := by
    unfold Selection.page
    rw [fetchInvocationRowsForScopes_eq]
    exact ⟨_, rfl⟩
  refine ⟨rows, hpage, ?_⟩
  unfold renderListFiltered
  rw [hpage, invocationsTree_eq]
  cases filter with
  | none => rfl
  | some f =>
    have hany : (some f).any (segmentMissing s) = segmentMissing s f := rfl
    dsimp only
    rw [workflowSegmentMissing_eq, hany]
    by_cases hmissing : segmentMissing s f = true
    · rw [hmissing]
      rfl
    · rw [Bool.not_eq_true] at hmissing
      rw [hmissing]
      rfl

/-! ## Drilling down by path -/

theorem guarded_eq_ok {user : UserContext} {owner : String} {repo : Option String}
    {a : Except String (Response Z)} {res : Response Z} (h : guarded user owner repo a = .ok res)
    (hres : res ≠ .notFound) : a = .ok res := by
  unfold guarded at h
  split at h
  · exact h
  · cases h
    exact absurd rfl hres

theorem page_of_renderListFiltered {o : Options} {s : Stores Z B} {user : UserContext} {filter : Option Filter}
    {frame : Frame} {rows : List InvocationRow}
    (h : renderListFiltered o s user filter = .ok (.invocationsPage frame rows)) :
    (selectionOf user s.registry filter).page s.events s.registry o.limit = .ok rows := by
  obtain ⟨rows', hpage, hrender⟩ := renderListFiltered_eq o s user filter
  rw [hrender, Except.ok.injEq] at h
  split at h
  · cases h
  · cases h
    exact hpage

/-- The events of an invocation, by `seq`. -/
def eventsAt (rows : List EventsRow) (owner repo id : String) : List EventsRow :=
  ((rows.filter (inScopes [⟨owner, repo⟩])).filter (·.id == id)).insertionSort fun a b => a.seq ≤ b.seq

theorem fetchInvocationEvents_eq (rows : List EventsRow) (id owner repo : String) :
    fetchInvocationEvents rows id owner repo = .ok (eventsAt rows owner repo id) := by
  unfold fetchInvocationEvents
  have hquery : query rows [⟨owner, repo⟩] = _ := query_ok rows rfl
  rw [hquery]
  rfl

theorem flamegraph_ne_list {s : Stores Z B} {owner repo id : String} {frame : Frame} {rows : List InvocationRow} :
    flamegraph s owner repo id ≠ .ok (.invocationsPage frame rows) := by
  unfold flamegraph
  rw [fetchInvocationEvents_eq]
  intro h
  simp only [bind, Except.bind] at h
  split at h <;> cases h

theorem eventDetail_ne_list {s : Stores Z B} {owner repo id : String} {frame : Frame} {rows : List InvocationRow} :
    eventDetail s owner repo id ≠ .ok (.invocationsPage frame rows) := by
  unfold eventDetail
  rw [fetchInvocationEvents_eq]
  intro h
  simp only [bind, Except.bind] at h
  split at h
  · split at h <;> cases h
  · cases h

theorem page_of_respond {o : Options} {s : Stores Z B} {user : UserContext} {req : Request} {frame : Frame}
    {rows : List InvocationRow} (h : respond o s user req = .ok (.invocationsPage frame rows)) :
    (selectionAt user s.registry req.path).page s.events s.registry o.limit = .ok rows := by
  obtain ⟨surface, path, offset⟩ := req
  unfold respond at h
  split at h
  · cases h
  cases surface with
  | invocations =>
    simp only [invocationsRoute] at h
    split at h
    · exact page_of_renderListFiltered h
    · exact page_of_renderListFiltered (guarded_eq_ok h nofun)
    · exact page_of_renderListFiltered (guarded_eq_ok h nofun)
    · exact page_of_renderListFiltered (guarded_eq_ok h nofun)
    · exact absurd (guarded_eq_ok h nofun) flamegraph_ne_list
    · exact absurd (guarded_eq_ok h nofun) eventDetail_ne_list
    · exact page_of_renderListFiltered (guarded_eq_ok h nofun)
    · cases h
  | trigger =>
    simp only [triggerRoute] at h
    split at h
    · cases h
    · cases guarded_eq_ok h nofun
    · cases guarded_eq_ok h nofun
    · have hok := guarded_eq_ok h nofun
      split at hok <;> cases hok
    · cases guarded_eq_ok h nofun
    · cases h
  | queue =>
    simp only [queueRoute] at h
    split at h
    · cases h
    · cases guarded_eq_ok h nofun
    · cases guarded_eq_ok h nofun
    · have hok := guarded_eq_ok h nofun
      split at hok <;> cases hok
    · have hok := guarded_eq_ok h nofun
      split at hok
      · cases hok
      · split at hok <;> cases hok
    · cases h

/-- The filter of a longer path asks for all that the filter of a shorter one asks for. -/
theorem filterAt_append {path : List String} {f : Filter} (h : filterAt path = some f) (rest : List String) :
    ∃ g, filterAt (path ++ rest) = some g ∧ g.owner = f.owner ∧ (∀ x, f.repo = some x → g.repo = some x) ∧
      (∀ x, f.workflow = some x → g.workflow = some x) ∧ ∀ x, f.trigger = some x → g.trigger = some x := by
  rcases path with - | ⟨owner, - | ⟨repo, - | ⟨workflow, - | ⟨trigger, path⟩⟩⟩⟩
  · cases h
  · cases h
    rcases rest with - | ⟨a, - | ⟨b, - | ⟨c, rest⟩⟩⟩ <;> exact ⟨_, rfl, rfl, nofun, nofun, nofun⟩
  · cases h
    rcases rest with - | ⟨a, - | ⟨b, rest⟩⟩ <;> exact ⟨_, rfl, rfl, fun _ h => h, nofun, nofun⟩
  · cases h
    rcases rest with - | ⟨a, rest⟩ <;> exact ⟨_, rfl, rfl, fun _ h => h, fun _ h => h, nofun⟩
  · cases h
    exact ⟨_, rfl, rfl, fun _ h => h, fun _ h => h, fun _ h => h⟩

theorem given_eq_some_of {a b : Option String} (h : ∀ x, a = some x → b = some x) {x : String}
    (hx : given a = some x) : given b = some x := by
  obtain ⟨ha, hne⟩ := Option.filter_eq_some_iff.mp hx
  exact Option.filter_eq_some_iff.mpr ⟨h x ha, hne⟩

theorem selectionAt_within (user : UserContext) (r : Registry Z B) {path path' : List String} (h : path <+: path') :
    (selectionAt user r path').Within (selectionAt user r path) := by
  obtain ⟨rest, rfl⟩ := h
  cases hf : filterAt path with
  | none =>
    simp only [selectionAt, hf]
    refine ⟨?_, nofun⟩
    intro scope hscope
    obtain ⟨-, -, hrepo, howner, -⟩ := mem_resolveQueryScopes.mp hscope
    change scope ∈ resolveQueryScopes (some user) r ⟨none, none⟩
    exact mem_resolveQueryScopes.mpr ⟨rfl, rfl, hrepo, howner, rfl, rfl⟩
  | some f =>
    obtain ⟨g, hg, howner, hrepo, hworkflow, htrigger⟩ := filterAt_append hf rest
    simp only [selectionAt, hf, hg]
    refine ⟨?_, ?_⟩
    · intro scope hscope
      obtain ⟨hownerRe, hrepoRe, hregistered, hmember, hsame, hin⟩ := mem_resolveQueryScopes.mp hscope
      simp only [Option.map_some, Option.bind_some, Option.all_some, howner] at hownerRe hrepoRe hsame hin
      refine mem_resolveQueryScopes.mpr ⟨hownerRe, ?_, hregistered, hmember, hsame, ?_⟩
      · cases hx : given f.repo with
        | none => simp [hx]
        | some x => simpa [hx, given_eq_some_of hrepo hx] using hrepoRe
      · cases hx : given f.repo with
        | none => simp [hx]
        | some x => simpa [hx, given_eq_some_of hrepo hx] using hin
    · intro n hn
      obtain ⟨workflow, hx, rfl⟩ := Option.map_eq_some_iff.mp hn
      refine ⟨⟨workflow, given g.trigger⟩, ?_, rfl, ?_⟩
      · simp only [selectionOf, Option.bind_some, Filter.narrow, given_eq_some_of hworkflow hx, Option.map_some]
      · intro t ht
        have hgiven : given (given f.trigger) = given f.trigger := by simp [given, Option.filter_filter]
        rw [hgiven] at ht
        have hgt := given_eq_some_of htrigger ht
        rw [hgt]
        exact Option.filter_eq_some_iff.mpr ⟨rfl, (Option.filter_eq_some_iff.mp hgt).2⟩

def siteTrigger (trigger : String) : TriggerDescriptor Unit :=
  ⟨⟨.cron, trigger, "nightly", .null, .null, .null⟩, (), ()⟩

/-- One workflow with one trigger that ran once. -/
def siteStores (trigger : String) : Stores Unit Unit where
  registry := (⟨.empty, .empty, .empty, []⟩ : Registry Unit Unit).setRepoState "acme" "site"
    (OwnerRepoState.empty.add "acme" "site" (cronWorkflow "nightly" trigger) "" [siteTrigger trigger])
  events := [requestOf "nightly" trigger]

def siteOptions : Options := ⟨100, fun _ _ => true⟩

def alice : UserContext := ⟨"alice", "", ["acme"]⟩

theorem siteStores_oneInvocation (trigger : String) : OneInvocation (siteStores trigger).events where
  place := by
    intro a ha b hb _
    rw [List.mem_singleton.mp ha, List.mem_singleton.mp hb]
    exact ⟨rfl, rfl⟩
  head := by
    intro a ha b hb _ _ _
    rw [List.mem_singleton.mp ha, List.mem_singleton.mp hb]

/-- The name stands in a path as it is, as one segment. -/
def Segment (name : String) : Prop :=
  name ≠ "" ∧ name ≠ "." ∧ name ≠ ".." ∧ ∀ c ∈ name.toList, isNameChar c = true ∨ c = '.' ∨ c = '-'

theorem segment_of_all {name : String} (hne : name ≠ "") (hdot : name ≠ ".") (hdots : name ≠ "..")
    (h : name.toList.all (fun c => isNameChar c || c == '.' || c == '-') = true) : Segment name := by
  refine ⟨hne, hdot, hdots, ?_⟩
  intro c hc
  have hchar := List.all_eq_true.mp h c hc
  simp only [Bool.or_eq_true, beq_iff_eq, or_assoc] at hchar
  exact hchar

theorem segment_flamegraph : Segment "flamegraph" := segment_of_all (by decide) (by decide) (by decide) rfl

theorem segment_event : Segment "event" := segment_of_all (by decide) (by decide) (by decide) rfl

theorem segment_items : Segment "items" := segment_of_all (by decide) (by decide) (by decide) rfl

/-- The name of a trigger is not the last segment of a fragment. -/
def TriggerSegment (name : String) : Prop := Segment name ∧ name ≠ "flamegraph" ∧ name ≠ "event"

/-- The names that uploads and events bring into the stores, and the events of single-leaf invocations. -/
structure Names (s : Stores Z B) : Prop where
  repo : ∀ owner, ∀ repo ∈ s.registry.repos owner, repoNameRe repo = true ∧ Segment repo
  unique : ∀ owner repo, ((s.registry.list owner repo).map (·.workflow.name)).Nodup
  workflow : ∀ owner repo, ∀ entry ∈ s.registry.list owner repo, Segment entry.workflow.name
  trigger : ∀ owner repo, ∀ entry ∈ s.registry.list owner repo, ∀ d ∈ entry.triggers, TriggerSegment d.name
  queue : ∀ owner repo, ∀ entry ∈ s.registry.list owner repo, ∀ q ∈ entry.workflow.queues, Segment q.name
  event : ∀ row ∈ s.events, Segment row.id ∧ Segment row.workflow
  request : ∀ row ∈ s.events, row.kind = "trigger.request" → TriggerSegment row.name
  alone : ∀ row ∈ s.events, inspectableLeafKinds.contains row.kind = true →
    s.events.filter (·.id == row.id) = [row]

theorem segments_of_segment {name : String} (h : Segment name) : segments name.toList = [name] := by
  unfold segments
  rw [List.splitOn_eq_singleton (notMem_slash (plain_of_all h.2.2.2))]
  simp

theorem linkTo_of_segments (surface : Surface) {names : List String} (h : ∀ name ∈ names, Segment name) :
    linkTo surface names = ⟨surface, names, 0⟩ := by
  have hnames : (names.flatMap fun name => segments name.toList) = names := by
    rw [List.flatMap_congr (g := fun name => [name]) fun name hname => segments_of_segment (h name hname)]
    simp
  rw [linkTo, hnames]

theorem segment_of_ownerNameRe {name : String} (h : ownerNameRe name = true) : Segment name := by
  unfold ownerNameRe at h
  split at h
  · cases h
  · rename_i c cs hname
    simp only [Bool.and_eq_true, List.all_eq_true, Bool.or_eq_true, beq_iff_eq, decide_eq_true_eq] at h
    have hhead : ∀ other : String, (∀ d ds, other.toList = d :: ds → d.isAlphanum = false) → name ≠ other := by
      rintro other hother rfl
      exact absurd h.1.1 (by simp [hother c cs hname])
    refine ⟨hhead "" nofun, hhead "." ?_, hhead ".." ?_, ?_⟩
    · rintro d ds ⟨⟩
      rfl
    · rintro d ds ⟨⟩
      rfl
    · intro d hd
      rw [hname] at hd
      rcases List.mem_cons.mp hd with rfl | hd
      · exact Or.inl (isNameChar_of_isAlphanum h.1.1)
      · exact (h.1.2 d hd).imp_right Or.inr

/-! ## The pages of a user -/

def Live (r : Registry Z B) (owner repo workflow : String) : Prop :=
  ∃ entry ∈ r.list owner repo, entry.workflow.name = workflow

def Historic (events : List EventsRow) (owner repo workflow : String) : Prop :=
  ∃ row ∈ events, row.owner = owner ∧ row.repo = repo ∧ row.workflow = workflow

/-- Only the invocations pages know the workflows that are gone. -/
def Known (s : Stores Z B) (surface : Surface) (owner repo workflow : String) : Prop :=
  Live s.registry owner repo workflow ∨ surface = .invocations ∧ Historic s.events owner repo workflow

structure Mine (s : Stores Z B) (user : UserContext) (owner repo : String) : Prop where
  member : owner ∈ ownerSet user
  registered : repo ∈ s.registry.repos owner

inductive Page (s : Stores Z B) (user : UserContext) : Surface → List String → Prop
  | root (surface : Surface) : Page s user surface []
  | owner (surface : Surface) {owner : String} (h : owner ∈ ownerSet user) : Page s user surface [owner]
  | repo (surface : Surface) {owner repo : String} (h : Mine s user owner repo) : Page s user surface [owner, repo]
  | workflow {surface : Surface} {owner repo workflow : String} (h : Mine s user owner repo)
      (hknown : Known s surface owner repo workflow) (hworkflow : Segment workflow) :
      Page s user surface [owner, repo, workflow]
  | trigger {surface : Surface} {owner repo workflow trigger : String} (h : Mine s user owner repo)
      (hknown : Known s surface owner repo workflow) (hworkflow : Segment workflow) (hsurface : surface ≠ .queue)
      (htrigger : TriggerSegment trigger) : Page s user surface [owner, repo, workflow, trigger]

section
variable {o : Options} {s : Stores Z B} {user : UserContext} {surface : Surface} {path : List String}

theorem Mine.guard (names : Names s) {owner repo : String} (h : Mine s user owner repo) :
    requireOwnerMember (some user) owner (some repo) = true :=
  requireOwnerMember_eq_true_iff.mpr ⟨h.member, (names.repo owner repo h.registered).1⟩

theorem Mine.guarded (names : Names s) {owner repo : String} (h : Mine s user owner repo)
    (a : Except String (Response Z)) : guarded user owner (some repo) a = a := by
  rw [Operator.guarded, if_pos (h.guard names)]

theorem guarded_of_mem {owner : String} (h : owner ∈ ownerSet user) (a : Except String (Response Z)) :
    guarded user owner none a = a := by
  rw [guarded, if_pos (requireOwnerMember_eq_true_iff.mpr ⟨h, rfl⟩)]

theorem segment_of_mem_ownerSet {owner : String} (h : owner ∈ ownerSet user) : Segment owner :=
  segment_of_ownerNameRe (List.mem_filter.mp h).2

theorem Mine.segments (names : Names s) {owner repo : String} (h : Mine s user owner repo) :
    Segment owner ∧ Segment repo :=
  ⟨segment_of_mem_ownerSet h.member, (names.repo owner repo h.registered).2⟩

theorem Page.segments (names : Names s) (h : Page s user surface path) : ∀ name ∈ path, Segment name := by
  cases h with
  | root => simp
  | owner h => simpa using segment_of_mem_ownerSet h
  | repo h => simpa using h.segments names
  | workflow h _ hworkflow => simpa [and_assoc] using And.intro (h.segments names) hworkflow
  | trigger h _ hworkflow _ htrigger =>
    simpa [and_assoc] using And.intro (h.segments names) (And.intro hworkflow htrigger.1)

theorem Page.linkTo_eq (names : Names s) (h : Page s user surface path) (tab : Surface) :
    linkTo tab path = ⟨tab, path, 0⟩ :=
  linkTo_of_segments tab (h.segments names)

/-- The breadcrumb stays on pages. -/
theorem Page.parent (h : Page s user surface path) {parent : List String} (hparent : parent ∈ path.inits.dropLast) :
    Page s user surface parent := by
  cases h with
  | root => cases hparent
  | owner h =>
    obtain rfl : parent = [] := by simpa using hparent
    exact .root surface
  | @repo owner repo h =>
    have hcases : parent = [] ∨ parent = [owner] := by simpa using hparent
    rcases hcases with rfl | rfl
    · exact .root surface
    · exact .owner surface h.member
  | @workflow owner repo workflow h hknown hworkflow =>
    have hcases : parent = [] ∨ parent = [owner] ∨ parent = [owner, repo] := by simpa using hparent
    rcases hcases with rfl | rfl | rfl
    · exact .root surface
    · exact .owner surface h.member
    · exact .repo surface h
  | @trigger owner repo workflow trigger h hknown hworkflow hsurface htrigger =>
    have hcases : parent = [] ∨ parent = [owner] ∨ parent = [owner, repo] ∨ parent = [owner, repo, workflow] := by
      simpa using hparent
    rcases hcases with rfl | rfl | rfl | rfl
    · exact .root surface
    · exact .owner surface h.member
    · exact .repo surface h
    · exact .workflow h hknown hworkflow

/-- The workflow of the path, if it names one, is in the registry. -/
def PathLive (r : Registry Z B) (path : List String) : Prop :=
  ∀ owner repo workflow rest, path = owner :: repo :: workflow :: rest → Live r owner repo workflow

/-- A tab that is shown leads to a page. -/
theorem Page.tab (h : Page s user surface path) {removed : Bool} (hlive : removed = false → PathLive s.registry path)
    {tab : Surface} (htab : tab ∈ visibleTabsFor surface path[3]? removed) : Page s user tab path := by
  unfold visibleTabsFor at htab
  cases removed with
  | true =>
    obtain rfl : tab = surface := by simpa using (List.mem_filter.mp htab).2
    exact h
  | false =>
    have hlive := hlive rfl
    cases h with
    | root => exact .root tab
    | owner h => exact .owner tab h
    | repo h => exact .repo tab h
    | workflow h _ hworkflow => exact .workflow h (Or.inl (hlive _ _ _ _ rfl)) hworkflow
    | @trigger owner repo workflow trigger h _ hworkflow _ htrigger =>
      have hgiven : (given (some trigger)).isSome = true := by
        simp [given, htrigger.1.1]
      have hqueue : tab ≠ .queue := by
        simp only [Bool.false_eq_true, if_false, List.getElem?_cons_succ, List.getElem?_cons_zero, hgiven, if_true] at htab
        simpa using (List.mem_filter.mp htab).2
      exact .trigger h (Or.inl (hlive _ _ _ _ rfl)) hworkflow hqueue htrigger

theorem Page.pathLive (h : Page s user surface path) (hsurface : surface ≠ .invocations) : PathLive s.registry path := by
  rintro owner repo workflow rest rfl
  cases h with
  | workflow _ hknown => exact hknown.resolve_right fun h => hsurface h.1
  | trigger _ hknown => exact hknown.resolve_right fun h => hsurface h.1

/-! ## What a page links to -/

theorem mem_repos_of_mem_list {r : Registry Z B} {owner repo : String} {entry : WorkflowEntry Z}
    (h : entry ∈ r.list owner repo) : repo ∈ r.repos owner := by
  unfold Registry.list Registry.getRepoState at h
  unfold Registry.repos
  cases howner : r.ownerStates.get? owner with
  | none => simp [howner] at h
  | some states =>
    cases hrepo : states.get? repo with
    | none => simp [howner, hrepo] at h
    | some state => exact List.mem_map_of_mem ((states.get?_eq_some_iff repo state).mp hrepo)

theorem map_workflow_pushRemoved (workflow name : String) (groups : List WorkflowGroup) :
    (pushRemoved workflow name groups).map (·.workflow) = groups.map (·.workflow) := by
  induction groups with
  | nil => rfl
  | cons g groups ih =>
    rw [pushRemoved]
    split
    · split <;> rfl
    · rw [List.map_cons, List.map_cons, ih]

/-- A group is that of a live workflow or of a pair. -/
theorem group_of_mem_mergeRepo {r : Registry Z B} {owner repo : String} {pairs : List TriggerPair} {g : WorkflowGroup}
    (h : g ∈ mergeRepo r owner repo pairs) : Live r owner repo g.workflow ∨
      ∃ pair ∈ pairs, pair.owner = owner ∧ pair.repo = repo ∧ pair.workflow = g.workflow := by
  have hfold : ∀ (live : LiveSets) (ps : List TriggerPair) (groups : List WorkflowGroup) (workflow : String),
      workflow ∈ (ps.foldl (addRemoved live) groups).map (·.workflow) →
      workflow ∈ groups.map (·.workflow) ∨ ∃ pair ∈ ps, pair.workflow = workflow := by
    intro live ps
    induction ps with
    | nil => exact fun groups workflow hmem => Or.inl hmem
    | cons pair ps ih =>
      intro groups workflow hmem
      rcases ih _ workflow hmem with hmem | ⟨p, hp, hworkflow⟩
      · rw [addRemoved, map_workflow_pushRemoved] at hmem
        unfold ensureGroup at hmem
        split at hmem
        · exact Or.inl hmem
        · rw [List.map_append, List.mem_append] at hmem
          rcases hmem with hmem | hmem
          · exact Or.inl hmem
          · exact Or.inr ⟨pair, List.mem_cons_self, (List.mem_singleton.mp hmem).symm⟩
      · exact Or.inr ⟨p, List.mem_cons_of_mem _ hp, hworkflow⟩
  rcases hfold _ _ _ g.workflow (List.mem_map_of_mem h) with hlive | ⟨pair, hpair, hworkflow⟩
  · obtain ⟨g', hg', hname⟩ := List.mem_map.mp hlive
    obtain ⟨entry, hentry, rfl⟩ := List.mem_map.mp hg'
    exact Or.inl ⟨entry, hentry, hname⟩
  · simp only [gone, List.mem_filter, Bool.and_eq_true, beq_iff_eq] at hpair
    exact Or.inr ⟨pair, hpair.1, hpair.2.1.1, hpair.2.1.2, hworkflow⟩

/-- A trigger of a group is a live one or that of a pair. -/
theorem trigger_of_mem_mergeRepo {r : Registry Z B} {owner repo : String} {pairs : List TriggerPair}
    (hnodup : pairs.Nodup) {g : WorkflowGroup} (h : g ∈ mergeRepo r owner repo pairs) {t : TriggerRef}
    (ht : t ∈ g.triggers) : (∃ entry ∈ r.list owner repo, ∃ d ∈ entry.triggers, d.name = t.trigger) ∨
      ∃ pair ∈ pairs, pair.name = t.trigger := by
  have hleaf : (⟨owner, repo, g.workflow, t⟩ : Leaf) ∈ groupLeaves owner repo (mergeRepo r owner repo pairs) :=
    List.mem_flatMap.mpr ⟨g, h, List.mem_map_of_mem ht⟩
  rw [(groupLeaves_mergeRepo r owner repo hnodup).mem_iff, List.mem_append] at hleaf
  rcases hleaf with hleaf | hleaf
  · obtain ⟨g', hg', hleaf⟩ := List.mem_flatMap.mp hleaf
    obtain ⟨entry, hentry, rfl⟩ := List.mem_map.mp hg'
    obtain ⟨t', ht', heq⟩ := List.mem_map.mp hleaf
    obtain ⟨d, hd, rfl⟩ := List.mem_map.mp ht'
    exact Or.inl ⟨entry, hentry, d, hd, congrArg (fun leaf : Leaf => leaf.ref.trigger) heq⟩
  · obtain ⟨pair, hpair, heq⟩ := List.mem_map.mp hleaf
    exact Or.inr ⟨pair, List.mem_of_mem_filter hpair, congrArg (fun leaf : Leaf => leaf.ref.trigger) heq⟩

/-- The links of a tree lead to pages of its surface. -/
theorem page_of_mem_treeLinks (names : Names s) (localeLe : String → String → Bool) {pairs : List TriggerPair}
    (hnodup : pairs.Nodup) (hregistered : ∀ pair ∈ pairs, pair.repo ∈ s.registry.repos pair.owner)
    (hhistory : ∀ pair ∈ pairs, surface = .invocations ∧ ∃ row ∈ s.events, row.kind = "trigger.request" ∧ pairOf row = pair)
    {link : Request} (hlink : link ∈ treeLinks surface (buildSidebarData localeLe s.registry (sortedOwners user) pairs)) :
    ∃ path, link = ⟨surface, path, 0⟩ ∧ Page s user surface path := by
  have hof : ∀ {path}, Page s user surface path → link = linkTo surface path →
      ∃ path, link = ⟨surface, path, 0⟩ ∧ Page s user surface path :=
    fun hpage heq => ⟨_, heq.trans (hpage.linkTo_eq names surface), hpage⟩
  obtain ⟨owner, howner, hlink⟩ := List.mem_flatMap.mp hlink
  have hmember : owner ∈ ownerSet user := mem_sortedOwners.mp howner
  obtain ⟨hrepos, hgroups⟩ := buildSidebarData_spec localeLe s.registry
    (fun owner h => notMem_slash_of_mem_ownerSet (mem_sortedOwners.mp h)) (fun pair hpair _ => hregistered pair hpair) howner
  rcases List.mem_cons.mp hlink with hlink | hlink
  · exact hof (.owner surface hmember) hlink
  obtain ⟨repo, hrepo, hlink⟩ := List.mem_flatMap.mp hlink
  rw [hrepos] at hrepo
  have hmine : Mine s user owner repo := ⟨hmember, hrepo⟩
  rcases List.mem_cons.mp hlink with hlink | hlink
  · exact hof (.repo surface hmine) hlink
  obtain ⟨g, hg, hlink⟩ := List.mem_flatMap.mp hlink
  rw [hgroups repo hrepo] at hg
  obtain ⟨g', hg', rfl⟩ := mem_finalise.mp hg
  have hknown : Known s surface owner repo g'.workflow ∧ Segment g'.workflow := by
    rcases group_of_mem_mergeRepo hg' with ⟨entry, hentry, hname⟩ | ⟨pair, hpair, rfl, rfl, hname⟩
    · refine ⟨Or.inl ⟨entry, hentry, hname⟩, ?_⟩
      rw [← hname]
      exact names.workflow owner repo entry hentry
    · obtain ⟨hsurface, row, hrow, -, rfl⟩ := hhistory pair hpair
      rw [← hname]
      exact ⟨Or.inr ⟨hsurface, row, hrow, rfl, rfl, rfl⟩, (names.event row hrow).2⟩
  rcases List.mem_cons.mp hlink with hlink | hlink
  · exact hof (.workflow hmine hknown.1 hknown.2) hlink
  split at hlink
  · cases hlink
  · rename_i hsurface
    obtain ⟨t, ht, rfl⟩ := List.mem_map.mp hlink
    have ht : t ∈ g'.triggers := (perm_sinkRemoved localeLe _ _ _).mem_iff.mp ht
    have htrigger : TriggerSegment t.trigger := by
      rcases trigger_of_mem_mergeRepo hnodup hg' ht with ⟨entry, hentry, d, hd, hname⟩ | ⟨pair, hpair, hname⟩
      · rw [← hname]
        exact names.trigger owner repo entry hentry d hd
      · obtain ⟨-, row, hrow, hkind, rfl⟩ := hhistory pair hpair
        rw [← hname]
        exact names.request row hrow hkind
    exact hof (.trigger hmine hknown.1 hknown.2 hsurface htrigger) rfl

/-- Tree, tabs and breadcrumb of a page lead to pages. -/
theorem page_of_mem_frameLinks (names : Names s) (h : Page s user surface path) {frame : Frame} {pairs : List TriggerPair}
    {localeLe : String → String → Bool} (removed : Bool) (hnodup : pairs.Nodup)
    (hregistered : ∀ pair ∈ pairs, pair.repo ∈ s.registry.repos pair.owner)
    (hhistory : ∀ pair ∈ pairs, surface = .invocations ∧ ∃ row ∈ s.events, row.kind = "trigger.request" ∧ pairOf row = pair)
    (hlive : removed = false → PathLive s.registry path)
    (htree : frame.tree = buildSidebarData localeLe s.registry (sortedOwners user) pairs)
    (htabs : frame.tabs = visibleTabsFor surface path[3]? removed) (hpath : frame.path = path)
    {link : Request} (hlink : link ∈ frame.links surface) :
    ∃ surface path, link = ⟨surface, path, 0⟩ ∧ Page s user surface path := by
  unfold Frame.links at hlink
  rw [htree, htabs, hpath, List.mem_append, List.mem_append] at hlink
  rcases hlink with (hlink | hlink) | hlink
  · exact ⟨surface, page_of_mem_treeLinks names localeLe hnodup hregistered hhistory hlink⟩
  · obtain ⟨tab, htab, rfl⟩ := List.mem_map.mp hlink
    have htab := h.tab hlive htab
    exact ⟨tab, path, htab.linkTo_eq names tab, htab⟩
  · obtain ⟨parent, hparent, rfl⟩ := List.mem_map.mp hlink
    have hparent := h.parent hparent
    exact ⟨surface, parent, hparent.linkTo_eq names surface, hparent⟩

theorem page_of_mem_registryFrame (names : Names s) (h : Page s user surface path) (hsurface : surface ≠ .invocations)
    {link : Request} (hlink : link ∈ (registryFrame o s user surface path).links surface) :
    ∃ surface path, link = ⟨surface, path, 0⟩ ∧ Page s user surface path :=
  page_of_mem_frameLinks names h false List.nodup_nil nofun nofun (fun _ => h.pathLive hsurface) rfl rfl rfl hlink

/-- The fragment behind a row, and the event that it opens. -/
inductive Fragment (s : Stores Z B) (user : UserContext) : List String → Prop
  | flamegraph {row : EventsRow} (h : Mine s user row.owner row.repo) (hrow : row ∈ s.events)
      (hkind : row.kind = "trigger.request") : Fragment s user [row.owner, row.repo, row.id, "flamegraph"]
  | event {row : EventsRow} (h : Mine s user row.owner row.repo) (hrow : row ∈ s.events)
      (hkind : inspectableLeafKinds.contains row.kind = true) : Fragment s user [row.owner, row.repo, row.id, "event"]

theorem withExhaustion_keeps (row : InvocationRow) (e : Option Exhaustion) :
    fragmentUrlForRow (row.withExhaustion e) = fragmentUrlForRow row := by
  cases e <;> rfl

theorem fragment_of_mem_page (names : Names s) {filter : Option Filter} {rows : List InvocationRow} {limit : Nat}
    (hpage : (selectionOf user s.registry filter).page s.events s.registry limit = .ok rows) {row : InvocationRow}
    (hrow : row ∈ rows) {link : Request} (hlink : fragmentUrlForRow row = some link) :
    ∃ path, link = ⟨.invocations, path, 0⟩ ∧ Fragment s user path := by
  obtain ⟨row', hrow', hlink⟩ : ∃ row' ∈ merged (s.events.filter (inScopes (selectionOf user s.registry filter).scopes))
      s.registry limit (selectionOf user s.registry filter).narrow, fragmentUrlForRow row' = some link := by
    unfold Selection.page at hpage
    rw [fetchInvocationRowsForScopes_eq, Except.ok.injEq] at hpage
    subst hpage
    obtain ⟨row', hrow', rfl⟩ := List.mem_map.mp hrow
    refine ⟨row', hrow', ?_⟩
    split at hlink
    · rwa [withExhaustion_keeps] at hlink
    · exact hlink
  obtain ⟨x, hx, -, hof, hhead⟩ := mem_merged hrow'
  obtain ⟨hevent, hin⟩ := List.mem_filter.mp hx
  obtain ⟨-, -, hrepo, howner, -⟩ := mem_resolveQueryScopes.mp (List.contains_iff_mem.mp hin)
  have hmine : Mine s user x.owner x.repo := ⟨howner, hrepo⟩
  have hfragment : ∀ action, Segment action → linkTo .invocations [row'.owner, row'.repo, row'.id, action] =
      ⟨.invocations, [x.owner, x.repo, x.id, action], 0⟩ := by
    intro action haction
    rw [hof.owner, hof.repo, hof.id]
    apply linkTo_of_segments
    simpa [and_assoc] using And.intro (hmine.segments names) (And.intro (names.event x hevent).1 haction)
  unfold headRow at hhead
  unfold fragmentUrlForRow at hlink
  split at hhead
  · rename_i hkind
    cases hhead
    split at hlink
    · cases hlink
    · rw [if_neg (by intro h; cases h), if_neg (by rintro (h | h) <;> cases h), Option.some.injEq] at hlink
      exact ⟨_, hlink.symm.trans (hfragment _ segment_flamegraph), .flamegraph hmine hevent hkind⟩
  · rcases syntheticRow_cases hhead with ⟨hkind, -, rfl⟩ | ⟨-, name, -, -, rfl⟩
    · have hupload : (buildUploadRow x).syntheticKind = some .upload := rfl
      rw [if_neg (by intro h; cases h), hupload, if_neg (by intro h; cases h), if_pos (Or.inr rfl), Option.some.injEq] at hlink
      exact ⟨_, hlink.symm.trans (hfragment _ segment_event), .event hmine hevent (by rw [hkind]; decide)⟩
    · by_cases hkind : x.kind = "trigger.rejection"
      · have hrejection : (buildSyntheticTriggerRow s.registry x name).syntheticKind = some .rejection := by
          simp [buildSyntheticTriggerRow, hkind]
        rw [if_neg (by intro h; cases h), hrejection, if_neg (by intro h; cases h), if_pos (Or.inl rfl), Option.some.injEq] at hlink
        exact ⟨_, hlink.symm.trans (hfragment _ segment_event), .event hmine hevent (by rw [hkind]; decide)⟩
      · have hexception : (buildSyntheticTriggerRow s.registry x name).syntheticKind = some .exception := by
          simp [buildSyntheticTriggerRow, hkind]
        rw [if_neg (by intro h; cases h), hexception, if_pos rfl] at hlink
        cases hlink

/-! ## Where a link leads -/

/-- What a link asks for: a page, the fragment of a row or the items of a declared queue. -/
inductive Offered (s : Stores Z B) (user : UserContext) : Request → Prop
  | page {surface : Surface} {path : List String} (h : Page s user surface path) : Offered s user ⟨surface, path, 0⟩
  | fragment {path : List String} (h : Fragment s user path) : Offered s user ⟨.invocations, path, 0⟩
  | items {owner repo : String} {entry : WorkflowEntry Z} {q : QueueManifest} (h : Mine s user owner repo)
      (hentry : entry ∈ s.registry.list owner repo) (hqueue : q ∈ entry.workflow.queues) (offset : Nat) :
      Offered s user ⟨.queue, [owner, repo, entry.workflow.name, q.name, "items"], offset⟩

/-- A request is answered, and the answer links to what is offered. -/
def Opens (s : Stores Z B) (user : UserContext) (answer : Except String (Response Z)) : Prop :=
  ∃ response, answer = .ok response ∧ response ≠ .notFound ∧ ∀ link ∈ response.links, Offered s user link

theorem no_empty (h : ∀ name ∈ path, Segment name) : ¬ path.contains "" = true := by
  rw [List.contains_iff_mem]
  exact fun hmem => (h "" hmem).1 rfl

theorem respond_invocations (h : ∀ name ∈ path, Segment name) (offset : Nat) :
    respond o s user ⟨.invocations, path, offset⟩ = invocationsRoute o s user path := by
  rw [respond, if_neg (no_empty h)]

theorem respond_trigger (h : ∀ name ∈ path, Segment name) (offset : Nat) :
    respond o s user ⟨.trigger, path, offset⟩ = triggerRoute o s user path := by
  rw [respond, if_neg (no_empty h)]

theorem respond_queue (h : ∀ name ∈ path, Segment name) (offset : Nat) :
    respond o s user ⟨.queue, path, offset⟩ = queueRoute o s user offset path := by
  rw [respond, if_neg (no_empty h)]

theorem given_of_segment {name : String} (h : Segment name) : given (some name) = some name := by
  simp [given, h.1]

theorem invocationsRoute_of_page (names : Names s) (h : Page s user .invocations path) :
    invocationsRoute o s user path = renderListFiltered o s user (filterAt path) := by
  cases h with
  | root => rfl
  | owner h => exact guarded_of_mem h _
  | repo h => exact h.guarded names _
  | workflow h => exact h.guarded names _
  | trigger h _ _ _ htrigger =>
    rw [invocationsRoute, h.guarded names]
    · rfl
    · exact htrigger.2.1
    · exact htrigger.2.2

theorem filterAt_trigger (h : Page s user surface path) : (filterAt path).bind (·.trigger) = path[3]? := by
  cases h <;> rfl

theorem given_none : given none = none := rfl

theorem filterAt_path (names : Names s) (h : Page s user surface path) :
    ((filterAt path).map Filter.path).getD [] = path := by
  cases h with
  | root => rfl
  | owner h => simp [filterAt, Filter.path, given_of_segment (segment_of_mem_ownerSet h), given_none]
  | repo h =>
    obtain ⟨howner, hrepo⟩ := h.segments names
    simp [filterAt, Filter.path, given_of_segment howner, given_of_segment hrepo, given_none]
  | workflow h _ hworkflow =>
    obtain ⟨howner, hrepo⟩ := h.segments names
    simp [filterAt, Filter.path, given_of_segment howner, given_of_segment hrepo, given_of_segment hworkflow, given_none]
  | trigger h _ hworkflow _ htrigger =>
    obtain ⟨howner, hrepo⟩ := h.segments names
    simp [filterAt, Filter.path, given_of_segment howner, given_of_segment hrepo, given_of_segment hworkflow,
      given_of_segment htrigger.1]

/-- The page of a known workflow is no 404. -/
theorem segmentMissing_of_known (names : Names s) {owner repo workflow : String} (h : Mine s user owner repo)
    (hknown : Known s surface owner repo workflow) (hworkflow : Segment workflow) (trigger : Option String) :
    segmentMissing s ⟨owner, some repo, some workflow, trigger⟩ = false := by
  unfold segmentMissing
  dsimp only
  rw [given_of_segment hworkflow, given_of_segment (h.segments names).2]
  dsimp only
  rcases hknown with ⟨entry, hentry, rfl⟩ | ⟨-, row, hrow, rfl, rfl, rfl⟩
  · have hlive : (s.registry.list owner repo).any (·.workflow.name == entry.workflow.name) = true :=
      List.any_eq_true.mpr ⟨entry, hentry, beq_self_eq_true _⟩
    rw [hlive]
    rfl
  · have hhistory : (s.events.filter (inScopes [⟨row.owner, row.repo⟩])).any (·.workflow == row.workflow) = true := by
      refine List.any_eq_true.mpr ⟨row, List.mem_filter.mpr ⟨hrow, ?_⟩, beq_self_eq_true _⟩
      simp [inScopes]
    rw [hhistory, Bool.not_true, Bool.and_false]

theorem not_missing (names : Names s) (h : Page s user surface path) :
    (filterAt path).any (segmentMissing s) = false := by
  cases h with
  | root => rfl
  | owner h => rfl
  | repo h => rfl
  | workflow h hknown hworkflow => exact segmentMissing_of_known names h hknown hworkflow none
  | trigger h hknown hworkflow _ _ => exact segmentMissing_of_known names h hknown hworkflow _

/-- A path that is not marked as removed leads to a workflow of the registry. -/
theorem pathLive_of_not_removed (names : Names s) (h : Page s user surface path)
    (hremoved : (filterAt path).any (isScopeRemoved s.registry) = false) : PathLive s.registry path := by
  have hlive : ∀ {owner repo workflow : String} {trigger : Option String}, Mine s user owner repo → Segment workflow →
      isScopeRemoved s.registry ⟨owner, some repo, some workflow, trigger⟩ = false → Live s.registry owner repo workflow := by
    intro owner repo workflow trigger hmine hworkflow hremoved
    unfold isScopeRemoved at hremoved
    dsimp only at hremoved
    rw [given_of_segment hworkflow, given_of_segment (hmine.segments names).2] at hremoved
    dsimp only at hremoved
    split at hremoved
    · cases hremoved
    · rename_i entry hfind
      exact ⟨entry, List.mem_of_find?_eq_some hfind, by simpa using List.find?_some hfind⟩
  rintro owner repo workflow rest rfl
  cases h with
  | workflow h _ hworkflow => exact hlive h hworkflow hremoved
  | trigger h _ hworkflow _ _ => exact hlive h hworkflow hremoved

theorem opens_list (o : Options) (names : Names s) (h : Page s user .invocations path) :
    Opens s user (respond o s user ⟨.invocations, path, 0⟩) := by
  rw [respond_invocations (h.segments names), invocationsRoute_of_page names h]
  obtain ⟨rows, hpage, hrender⟩ := renderListFiltered_eq o s user (filterAt path)
  rw [hrender, not_missing names h]
  refine ⟨_, rfl, nofun, ?_⟩
  intro link hlink
  rcases List.mem_append.mp hlink with hlink | hlink
  · have hregistered : ∀ pair ∈ historicPairs user s.registry s.events, pair.repo ∈ s.registry.repos pair.owner :=
      fun pair hpair => (mem_historicPairs.mp hpair).2.1
    have hhistory : ∀ pair ∈ historicPairs user s.registry s.events, Surface.invocations = .invocations ∧
        ∃ row ∈ s.events, row.kind = "trigger.request" ∧ pairOf row = pair :=
      fun pair hpair => ⟨rfl, (mem_historicPairs.mp hpair).2.2⟩
    have htabs : (listFrame o s user (filterAt path)).tabs = visibleTabsFor .invocations path[3]?
        ((filterAt path).any (isScopeRemoved s.registry)) := by
      rw [← filterAt_trigger h]
      rfl
    obtain ⟨surface, path', rfl, hpage'⟩ := page_of_mem_frameLinks names h _ (List.nodup_dedup _) hregistered hhistory
      (pathLive_of_not_removed names h) rfl htabs (filterAt_path names h) hlink
    exact .page hpage'
  · obtain ⟨row, hrow, hlink⟩ := List.mem_filterMap.mp hlink
    obtain ⟨path', rfl, hfragment⟩ := fragment_of_mem_page names hpage hrow hlink
    exact .fragment hfragment

theorem opens_frame (names : Names s) (h : Page s user surface path) (hsurface : surface ≠ .invocations)
    {response : Response Z} (hresponse : response ≠ .notFound)
    (hlinks : response.links = (registryFrame o s user surface path).links surface) : Opens s user (.ok response) := by
  refine ⟨response, rfl, hresponse, ?_⟩
  intro link hlink
  rw [hlinks] at hlink
  obtain ⟨surface, path', rfl, hpage⟩ := page_of_mem_registryFrame names h hsurface hlink
  exact .page hpage

theorem entries_of_live {owner repo workflow : String} (h : Live s.registry owner repo workflow) :
    ((s.registry.list owner repo).filter (·.workflow.name == workflow)).isEmpty = false := by
  obtain ⟨entry, hentry, rfl⟩ := h
  rw [List.isEmpty_eq_false_iff]
  exact List.ne_nil_of_mem (List.mem_filter.mpr ⟨hentry, beq_self_eq_true _⟩)

theorem opens_trigger (o : Options) (names : Names s) (h : Page s user .trigger path) :
    Opens s user (respond o s user ⟨.trigger, path, 0⟩) := by
  have hframe : ∀ {response : Response Z}, response ≠ .notFound →
      response.links = (registryFrame o s user .trigger path).links .trigger → Opens s user (.ok response) :=
    fun hresponse hlinks => opens_frame names h nofun hresponse hlinks
  rw [respond_trigger (h.segments names)]
  cases h with
  | root => exact hframe nofun rfl
  | owner h =>
    rw [triggerRoute, guarded_of_mem h]
    exact hframe nofun rfl
  | repo h =>
    rw [triggerRoute, h.guarded names]
    exact hframe nofun rfl
  | workflow h hknown hworkflow =>
    rw [triggerRoute, h.guarded names, entries_of_live (hknown.resolve_right fun hhistory => nomatch hhistory.1)]
    exact hframe nofun rfl
  | trigger h hknown hworkflow _ _ =>
    rw [triggerRoute, h.guarded names]
    exact hframe nofun rfl

/-- The cards of the user's workflows lead to the items of declared queues. -/
theorem items_of_mem_cards (names : Names s) {entries : List (WorkflowEntry Z)}
    (hentries : ∀ entry ∈ entries, ∃ owner repo, Mine s user owner repo ∧ entry ∈ s.registry.list owner repo)
    {card : QueueCard} (hcard : card ∈ buildCardsForRefs o s (queueRefs entries) path) :
    Offered s user (itemsUrl ⟨card.owner, card.repo, card.workflow, card.queue⟩) := by
  unfold buildCardsForRefs at hcard
  rw [List.mem_insertionSort] at hcard
  obtain ⟨ref, href, rfl⟩ := List.mem_map.mp hcard
  obtain ⟨entry, hentry, href⟩ := List.mem_flatMap.mp href
  obtain ⟨q, hq, rfl⟩ := List.mem_map.mp href
  obtain ⟨owner, repo, hmine, hlist⟩ := hentries entry hentry
  obtain ⟨rfl, rfl⟩ := owner_of_mem_list hlist
  obtain ⟨howner, hrepo⟩ := hmine.segments names
  have hworkflow := names.workflow _ _ entry hlist
  have hqueue := names.queue _ _ entry hlist q hq
  have hlink : itemsUrl ⟨entry.owner, entry.repo, entry.workflow.name, q.name⟩ =
      ⟨.queue, [entry.owner, entry.repo, entry.workflow.name, q.name, "items"], 0⟩ := by
    apply linkTo_of_segments
    simp [howner, hrepo, hworkflow, hqueue, segment_items]
  rw [hlink]
  exact .items hmine hlist hq 0

theorem opens_cards (o : Options) (names : Names s) (h : Page s user .queue path) {entries : List (WorkflowEntry Z)}
    (hentries : ∀ entry ∈ entries, ∃ owner repo, Mine s user owner repo ∧ entry ∈ s.registry.list owner repo) :
    Opens s user (.ok (.queuesPage (registryFrame o s user .queue path)
      (buildCardsForRefs o s (queueRefs entries) path))) := by
  refine ⟨_, rfl, nofun, ?_⟩
  intro link hlink
  rcases List.mem_append.mp hlink with hlink | hlink
  · obtain ⟨surface, path', rfl, hpage⟩ := page_of_mem_registryFrame names h nofun hlink
    exact .page hpage
  · obtain ⟨card, hcard, rfl⟩ := List.mem_map.mp hlink
    exact items_of_mem_cards names hentries (List.mem_of_mem_filter hcard)

theorem mine_of_mem_entriesForOwner {owner : String} (h : owner ∈ ownerSet user) {entry : WorkflowEntry Z}
    (hentry : entry ∈ entriesForOwner s.registry owner) :
    ∃ owner repo, Mine s user owner repo ∧ entry ∈ s.registry.list owner repo := by
  obtain ⟨repo, hrepo, hentry⟩ := List.mem_flatMap.mp hentry
  exact ⟨owner, repo, ⟨h, hrepo⟩, hentry⟩

theorem opens_queue (o : Options) (names : Names s) (h : Page s user .queue path) :
    Opens s user (respond o s user ⟨.queue, path, 0⟩) := by
  have hcards : ∀ {entries : List (WorkflowEntry Z)}, (∀ entry ∈ entries, ∃ owner repo, Mine s user owner repo ∧
      entry ∈ s.registry.list owner repo) → Opens s user (.ok (.queuesPage (registryFrame o s user .queue path)
        (buildCardsForRefs o s (queueRefs entries) path))) :=
    fun hentries => opens_cards o names h hentries
  rw [respond_queue (h.segments names)]
  cases h with
  | root =>
    apply hcards
    intro entry hentry
    obtain ⟨owner, howner, hentry⟩ := List.mem_flatMap.mp hentry
    exact mine_of_mem_entriesForOwner (mem_sortedOwners.mp howner) hentry
  | owner h =>
    rw [queueRoute, guarded_of_mem h]
    exact hcards fun entry hentry => mine_of_mem_entriesForOwner h hentry
  | @repo owner repo h =>
    rw [queueRoute, h.guarded names]
    exact hcards fun entry hentry => ⟨owner, repo, h, hentry⟩
  | @workflow owner repo workflow h hknown hworkflow =>
    rw [queueRoute, h.guarded names]
    dsimp only
    rw [entries_of_live (hknown.resolve_right fun hhistory => nomatch hhistory.1)]
    exact hcards fun entry hentry => ⟨owner, repo, h, List.mem_of_mem_filter hentry⟩
  | trigger h hknown hworkflow hsurface _ => exact absurd rfl hsurface

theorem mem_eventsAt {events : List EventsRow} {row : EventsRow} (h : row ∈ events) :
    row ∈ eventsAt events row.owner row.repo row.id := by
  rw [eventsAt, List.mem_insertionSort]
  refine List.mem_filter.mpr ⟨List.mem_filter.mpr ⟨h, ?_⟩, beq_self_eq_true _⟩
  simp [inScopes]

theorem segment_action (names : Names s) {row : EventsRow} (h : Mine s user row.owner row.repo) (hrow : row ∈ s.events)
    {action : String} (haction : Segment action) : ∀ name ∈ [row.owner, row.repo, row.id, action], Segment name := by
  simpa [and_assoc] using And.intro (h.segments names) (And.intro (names.event row hrow).1 haction)

theorem opens_flamegraph (o : Options) (names : Names s) {row : EventsRow} (h : Mine s user row.owner row.repo)
    (hrow : row ∈ s.events) (hkind : row.kind = "trigger.request") :
    Opens s user (respond o s user ⟨.invocations, [row.owner, row.repo, row.id, "flamegraph"], 0⟩) := by
  have hmem := mem_eventsAt hrow
  have hempty : (eventsAt s.events row.owner row.repo row.id).isEmpty = false :=
    List.isEmpty_eq_false_iff.mpr (List.ne_nil_of_mem hmem)
  have hleaf : isSyntheticLeaf (eventsAt s.events row.owner row.repo row.id) = false := by
    unfold isSyntheticLeaf
    split
    · rename_i first hfirst
      rw [hfirst, List.mem_singleton] at hmem
      rw [← hmem, hkind]
      decide
    · rfl
  rw [respond_invocations (segment_action names h hrow segment_flamegraph), invocationsRoute,
    h.guarded names, flamegraph, fetchInvocationEvents_eq]
  simp only [bind, Except.bind, hempty, hleaf, Bool.or_self, Bool.false_eq_true, if_false]
  exact ⟨_, rfl, nofun, nofun⟩

theorem opens_event (o : Options) (names : Names s) {row : EventsRow} (h : Mine s user row.owner row.repo)
    (hrow : row ∈ s.events) (hkind : inspectableLeafKinds.contains row.kind = true) :
    Opens s user (respond o s user ⟨.invocations, [row.owner, row.repo, row.id, "event"], 0⟩) := by
  have hevents : eventsAt s.events row.owner row.repo row.id = [row] := by
    have hin : inScopes [⟨row.owner, row.repo⟩] row = true := by simp [inScopes]
    have hcomm : (s.events.filter (inScopes [⟨row.owner, row.repo⟩])).filter (·.id == row.id) =
        (s.events.filter (·.id == row.id)).filter (inScopes [⟨row.owner, row.repo⟩]) := by
      rw [List.filter_filter, List.filter_filter]
      exact List.filter_congr fun x _ => Bool.and_comm _ _
    rw [eventsAt, hcomm, names.alone row hrow hkind, List.filter_cons, if_pos hin]
    rfl
  rw [respond_invocations (segment_action names h hrow segment_event), invocationsRoute,
    h.guarded names, eventDetail, fetchInvocationEvents_eq, hevents]
  refine ⟨.eventDetail row, ?_, by simp, by simp [Response.links]⟩
  simp only [bind, Except.bind, hkind, if_true]
  rfl

/-- A workflow is found under its name. -/
theorem find_of_mem (names : Names s) {owner repo : String} {entry : WorkflowEntry Z}
    (h : entry ∈ s.registry.list owner repo) :
    (s.registry.list owner repo).find? (·.workflow.name = entry.workflow.name) = some entry := by
  cases hfind : (s.registry.list owner repo).find? (·.workflow.name = entry.workflow.name) with
  | none =>
    rw [List.find?_eq_none] at hfind
    exact absurd (by simp) (hfind entry h)
  | some found =>
    have hname : found.workflow.name = entry.workflow.name := by simpa using List.find?_some hfind
    exact congrArg some (List.inj_on_of_nodup_map (names.unique owner repo) (List.mem_of_find?_eq_some hfind) h hname)

theorem opens_items (o : Options) (names : Names s) {owner repo : String} {entry : WorkflowEntry Z} {q : QueueManifest}
    (h : Mine s user owner repo) (hentry : entry ∈ s.registry.list owner repo) (hqueue : q ∈ entry.workflow.queues)
    (offset : Nat) :
    Opens s user (respond o s user ⟨.queue, [owner, repo, entry.workflow.name, q.name, "items"], offset⟩) := by
  have hpath : ∀ name ∈ [owner, repo, entry.workflow.name, q.name, "items"], Segment name := by
    have hworkflow := names.workflow _ _ entry hentry
    have hname := names.queue _ _ entry hentry q hqueue
    simp [h.segments names, hworkflow, hname, segment_items]
  have hdeclared : entry.workflow.queues.any (·.name == q.name) = true :=
    List.any_eq_true.mpr ⟨q, hqueue, beq_self_eq_true _⟩
  rw [respond_queue hpath, queueRoute, h.guarded names, find_of_mem names hentry]
  dsimp only
  rw [if_pos hdeclared]
  refine ⟨_, rfl, nofun, ?_⟩
  intro link hlink
  simp only [itemsFragment, Response.links] at hlink
  split at hlink
  · rw [List.mem_singleton] at hlink
    rw [hlink, itemsUrl, linkTo_of_segments .queue hpath]
    exact .items h hentry hqueue _
  · cases hlink

/-- What is offered is answered by a page or a fragment, which offers more of the same. -/
theorem Offered.opens (o : Options) (names : Names s) {req : Request} (h : Offered s user req) :
    Opens s user (respond o s user req) := by
  cases h with
  | @page surface path h =>
    cases surface with
    | invocations => exact opens_list o names h
    | trigger => exact opens_trigger o names h
    | queue => exact opens_queue o names h
  | fragment h =>
    cases h with
    | flamegraph h hrow hkind => exact opens_flamegraph o names h hrow hkind
    | event h hrow hkind => exact opens_event o names h hrow hkind
  | items h hentry hqueue offset => exact opens_items o names h hentry hqueue offset

theorem Visited.offered (names : Names s) {req : Request} (h : Visited o s user req) : Offered s user req := by
  induction h with
  | root surface => exact .page (.root surface)
  | follow _ hresponse hlink ih =>
    obtain ⟨response, hok, -, hlinks⟩ := ih.opens o names
    rw [hresponse, Except.ok.injEq] at hok
    subst hok
    exact hlinks _ hlink

/-- Tree, tabs, breadcrumbs, rows, cards and further items: no chain of links from the root of a surface ends in a 404,
and none in an error. -/
theorem visited_opens {req : Request} (names : Names s) (h : Visited o s user req) :
    ∃ response, respond o s user req = .ok response ∧ response ≠ .notFound := by
  obtain ⟨response, hok, hfound, -⟩ := (h.offered names).opens o names
  exact ⟨response, hok, hfound⟩

end

theorem list_siteStores (trigger owner repo : String) :
    (siteStores trigger).registry.list owner repo = if owner = "acme" ∧ repo = "site" then
      [⟨"acme", "site", cronWorkflow "nightly" trigger, "", [siteTrigger trigger]⟩] else [] := by
  unfold Registry.list siteStores
  rw [Registry.getRepoState_setRepoState]
  split
  · rename_i hplace
    obtain ⟨rfl, rfl⟩ := hplace
    rfl
  · rfl

theorem repos_siteStores (trigger owner : String) :
    (siteStores trigger).registry.repos owner = if owner = "acme" then ["site"] else [] := by
  unfold Registry.repos siteStores Registry.setRepoState
  rw [OrderedMap.get?_set]
  split <;> rfl

theorem siteStores_names : Names (siteStores "tick") where
  repo := by
    intro owner repo hrepo
    rw [repos_siteStores] at hrepo
    split at hrepo
    · rw [List.mem_singleton.mp hrepo]
      exact ⟨by decide, segment_of_all (by decide) (by decide) (by decide) rfl⟩
    · cases hrepo
  unique := by
    intro owner repo
    rw [list_siteStores]
    split <;> simp
  workflow := by
    intro owner repo entry hentry
    rw [list_siteStores] at hentry
    split at hentry
    · rw [List.mem_singleton.mp hentry]
      exact segment_of_all (by decide) (by decide) (by decide) rfl
    · cases hentry
  trigger := by
    intro owner repo entry hentry d hd
    rw [list_siteStores] at hentry
    split at hentry
    · rw [List.mem_singleton.mp hentry] at hd
      rw [List.mem_singleton.mp hd]
      exact ⟨segment_of_all (by decide) (by decide) (by decide) rfl, by decide, by decide⟩
    · cases hentry
  queue := by
    intro owner repo entry hentry q hq
    rw [list_siteStores] at hentry
    split at hentry
    · rw [List.mem_singleton.mp hentry] at hq
      cases hq
    · cases hentry
  event := by
    intro row hrow
    rw [List.mem_singleton.mp hrow]
    exact ⟨segment_of_all (by decide) (by decide) (by decide) rfl, segment_of_all (by decide) (by decide) (by decide) rfl⟩
  request := by
    intro row hrow _
    rw [List.mem_singleton.mp hrow]
    exact ⟨segment_of_all (by decide) (by decide) (by decide) rfl, by decide, by decide⟩
  alone := by
    intro row hrow hkind
    rw [List.mem_singleton.mp hrow] at hkind
    cases hkind

theorem visited_site : Visited siteOptions (siteStores "tick") alice
    ⟨.invocations, ["acme", "site", "nightly", "tick"], 0⟩ :=
  .follow (.root .invocations) rfl (by decide)

theorem visited_opens_site : ∃ response, respond siteOptions (siteStores "tick") alice
    ⟨.invocations, ["acme", "site", "nightly", "tick"], 0⟩ = .ok response ∧ response ≠ .notFound :=
  visited_opens siteStores_names visited_site

/-- The leaf of a trigger with the name of a fragment leads to the fragment, and so nowhere. -/
example : ((respond siteOptions (siteStores "event") alice ⟨.invocations, [], 0⟩).map fun response =>
      response.links.contains ⟨.invocations, ["acme", "site", "nightly", "event"], 0⟩) = .ok true ∧
    respond siteOptions (siteStores "event") alice ⟨.invocations, ["acme", "site", "nightly", "event"], 0⟩ =
      .ok .notFound := ⟨by rfl, by rfl⟩

end WorkflowEngine.Runtime.Operator
