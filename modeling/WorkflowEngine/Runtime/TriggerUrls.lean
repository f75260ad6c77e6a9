import WorkflowEngine.Runtime.TriggerEntries

/-!
# From a URL to a trigger entry

The `http` and `ws` sources find an entry by its mechanical URL
`/webhooks/<owner>/<repo>/<workflow>/<trigger>` or `/ws/…`: four segments, each
tested by a regular expression, then a lookup in the per-repo map that the last
upload installed. The two parsers do not ask the same of the workflow segment, and
the manifest schema asks nothing of it.
-/

namespace WorkflowEngine.Runtime

open Lib
set_option autoImplicit false

variable {Z B : Type}

/-! ## The name grammars -/

/-- `OWNER_NAME_RE`. -/
def ownerNameRe (s : String) : Bool :=
  match s.toList with
  | [] => false
  | c :: cs => c.isAlphanum && cs.all (fun d => isNameChar d || d == '-') && decide (cs.length ≤ 62)

/-- `REPO_NAME_RE`. -/
def repoNameRe (s : String) : Bool :=
  s.toList.all (fun d => isNameChar d || d == '.' || d == '-') && decide (1 ≤ s.toList.length) &&
    decide (s.toList.length ≤ 100)

/-- `TRIGGER_NAME_RE`. -/
def triggerNameRe (s : String) : Bool :=
  match s.toList with
  | [] => false
  | c :: cs => isNameStart c && cs.all isNameChar && decide (cs.length ≤ 62)

/-- No character of `s` is a separator of a URL or opens a sentinel. -/
def Plain (s : String) : Prop := ∀ c ∈ s.toList, c ≠ '/' ∧ c ≠ '?' ∧ c ≠ '\x00'

theorem isNameChar_of_isAlphanum {c : Char} (h : c.isAlphanum = true) : isNameChar c = true := by
  simp [isNameChar, h]

theorem isNameChar_of_isNameStart {c : Char} (h : isNameStart c = true) : isNameChar c = true := by
  simp only [isNameStart, Bool.or_eq_true] at h
  rcases h with h | h
  · exact isNameChar_of_isAlphanum (by simp [Char.isAlphanum, h])
  · simp [isNameChar, h]

theorem plain_of_all {s : String}
    (h : ∀ c ∈ s.toList, isNameChar c = true ∨ c = '.' ∨ c = '-') : Plain s := by
  intro c hc
  rcases h c hc with h | rfl | rfl
  · refine ⟨?_, ?_, ?_⟩
    · rintro rfl
      exact absurd h (by decide)
    · rintro rfl
      exact absurd h (by decide)
    · rintro rfl
      exact absurd h (by decide)
  · decide
  · decide

theorem plain_of_ownerNameRe {s : String} (h : ownerNameRe s = true) : Plain s := by
  apply plain_of_all
  unfold ownerNameRe at h
  split at h
  · cases h
  · rename_i c cs hs
    simp only [Bool.and_eq_true, List.all_eq_true, Bool.or_eq_true, beq_iff_eq] at h
    intro d hd
    rw [hs, List.mem_cons] at hd
    rcases hd with rfl | hd
    · exact Or.inl (isNameChar_of_isAlphanum h.1.1)
    · rcases h.1.2 d hd with hname | hdash
      · exact Or.inl hname
      · exact Or.inr (Or.inr hdash)

theorem plain_of_repoNameRe {s : String} (h : repoNameRe s = true) : Plain s := by
  apply plain_of_all
  simp only [repoNameRe, Bool.and_eq_true, List.all_eq_true, Bool.or_eq_true, beq_iff_eq] at h
  intro d hd
  rcases h.1.1 d hd with (hname | hdot) | hdash
  · exact Or.inl hname
  · exact Or.inr (Or.inl hdot)
  · exact Or.inr (Or.inr hdash)

theorem plain_of_triggerNameRe {s : String} (h : triggerNameRe s = true) : Plain s := by
  apply plain_of_all
  unfold triggerNameRe at h
  split at h
  · cases h
  · rename_i c cs hs
    simp only [Bool.and_eq_true, List.all_eq_true] at h
    intro d hd
    rw [hs, List.mem_cons] at hd
    rcases hd with rfl | hd
    · exact Or.inl (isNameChar_of_isNameStart h.1.1)
    · exact Or.inl (h.1.2 d hd)

/-- A plain text holds no sentinel, so it resolves to itself. -/
theorem resolvedText_of_plain (store : OrderedMap String String) {s : String} (h : Plain s) :
    resolvedText store s = s := by
  unfold resolvedText resolveString
  split
  · rename_i hin
    have hmem := mem_of_includes (a := '\x00') (by simp [sentinelOpen]) hin
    exact absurd rfl (h _ hmem).2.2
  · rfl

theorem resolvedName_of_plain (options : WorkflowRegistryOptions Z) (w : WorkflowManifest) {s : String}
    (h : Plain s) : resolvedName options w s = s := by
  unfold resolvedName
  split
  · exact resolvedText_of_plain _ h
  · rfl

theorem notMem_slash {s : String} (h : Plain s) : '/' ∉ s.toList := fun hmem => (h _ hmem).1 rfl

/-- A key joined from plain parts tells the parts. -/
theorem entryKey_inj {w t w' t' : String} (hw : Plain w) (ht : Plain t)
    (h : entryKey w t = entryKey w' t') : w = w' ∧ t = t' := by
  have hlist := String.ext_iff.mp h
  have hsep : "/".toList = ['/'] := rfl
  simp only [entryKey, String.toList_append, hsep, List.append_assoc, List.singleton_append] at hlist
  obtain ⟨h1, -, h2⟩ :=
    (List.append_cons_inj_of_notMem (notMem_slash hw) (notMem_slash ht)).mp hlist
  exact ⟨String.ext_iff.mpr h1, String.ext_iff.mpr h2⟩

/-! ## The two parsers -/

/-- `s.split("/")`. -/
def segments (s : List Char) : List String := (s.splitOn '/').map String.ofList

/-- Four segments of a mechanical URL. -/
structure ScopeKey where
  owner : String
  repo : String
  workflow : String
  trigger : String
  deriving DecidableEq

/-- What stands after the fixed start of a mechanical URL. -/
def ScopeKey.path (k : ScopeKey) : List Char :=
  k.owner.toList ++ '/' :: (k.repo.toList ++ '/' :: (k.workflow.toList ++ '/' :: k.trigger.toList))

theorem segments_path {k : ScopeKey} (howner : Plain k.owner) (hrepo : Plain k.repo)
    (hworkflow : Plain k.workflow) (htrigger : Plain k.trigger) :
    segments k.path = [k.owner, k.repo, k.workflow, k.trigger] := by
  unfold segments ScopeKey.path
  rw [List.splitOn_append_cons_self_of_not_mem (notMem_slash howner),
    List.splitOn_append_cons_self_of_not_mem (notMem_slash hrepo),
    List.splitOn_append_cons_self_of_not_mem (notMem_slash hworkflow),
    List.splitOn_eq_singleton (notMem_slash htrigger)]
  simp

theorem path_of_segments {s : List Char} {owner repo workflow trigger : String}
    (h : segments s = [owner, repo, workflow, trigger]) :
    s = (ScopeKey.mk owner repo workflow trigger).path := by
  have hlists : s.splitOn '/' = [owner.toList, repo.toList, workflow.toList, trigger.toList] := by
    have hmap := congrArg (List.map String.toList) h
    simpa [segments, Function.comp_def] using hmap
  have hjoin : ['/'].intercalate (s.splitOn '/') = s := List.intercalate_splitOn '/'
  rw [hlists] at hjoin
  rw [← hjoin]
  simp [ScopeKey.path, List.intercalate]

/-- A path of four plain segments is the path of no other scope with a plain owner, repo and
trigger. -/
theorem path_inj {k j : ScopeKey} (hk : segments k.path = [k.owner, k.repo, k.workflow, k.trigger])
    (howner : Plain j.owner) (hrepo : Plain j.repo) (htrigger : Plain j.trigger)
    (h : k.path = j.path) : k = j := by
  have hsplit : segments j.path = j.owner :: j.repo :: (segments j.workflow.toList ++ [j.trigger]) := by
    unfold segments ScopeKey.path
    rw [List.splitOn_append_cons_self_of_not_mem (notMem_slash howner),
      List.splitOn_append_cons_self_of_not_mem (notMem_slash hrepo),
      List.splitOn_append_cons_self, List.splitOn_eq_singleton (notMem_slash htrigger)]
    simp
  rw [h, hsplit] at hk
  obtain ⟨ho, hr, hrest⟩ : j.owner = k.owner ∧ j.repo = k.repo ∧
      segments j.workflow.toList ++ [j.trigger] = [k.workflow] ++ [k.trigger] := by simpa using hk
  obtain ⟨hw, ht⟩ := List.append_inj' hrest rfl
  have hjoin : ['/'].intercalate (j.workflow.toList.splitOn '/') = j.workflow.toList :=
    List.intercalate_splitOn '/'
  have hworkflow : j.workflow.toList.splitOn '/' = [k.workflow.toList] := by
    have hmap := congrArg (List.map String.toList) hw
    simpa [segments, Function.comp_def] using hmap
  rw [hworkflow] at hjoin
  have hlast : k.workflow = j.workflow := String.ext_iff.mpr (by simpa [List.intercalate] using hjoin)
  cases k
  cases j
  simp_all

/-! ## The `http` source -/

/-- The entries of a source, by `owner/repo` and then by `workflow/trigger`. -/
abbrev EntryIndex (Z : Type) := OrderedMap String (OrderedMap String (TriggerEntry Z))

def pairKey (owner repo : String) : String := owner ++ "/" ++ repo

def EntryIndex.lookup (pairs : EntryIndex Z) (owner repo workflow trigger : String) :
    Option (TriggerEntry Z) :=
  (pairs.get? (pairKey owner repo)).bind fun byTrigger => byTrigger.get? (entryKey workflow trigger)

/-- `json` is what `c.req.json()` returns, if it does not throw. -/
structure HttpRequest where
  method : String
  path : String
  url : String
  headers : List (String × String)
  json : Option Json

structure RawInput where
  body : Json
  headers : OrderedMap String String
  url : String
  method : String

inductive HttpOutcome (Z : Type) where
  | next
  | body (status : Nat)
  | notFound
  | validationFailure (path : List String) (message : String)
  | fire (entry : TriggerEntry Z) (input : RawInput)

structure HttpTriggerSource (Z : Type) where
  pairs : EntryIndex Z
  ready : Bool

/-- The `method` of an http descriptor. -/
def TriggerDescriptor.method (d : TriggerDescriptor Z) : Option String :=
  match d.config with
  | .object fields =>
    match fields.lookup "method" with
    | some (.string m) => some m
    | _ => none
  | _ => none

def toLowerCase (s : String) : String := String.ofList (s.toList.map Char.toLower)

def headersToRecord (headers : List (String × String)) : OrderedMap String String :=
  headers.foldl (fun out h => out.set (toLowerCase h.1) h.2) .empty

def parseBody (req : HttpRequest) : Except (List String × String) Json :=
  if req.method = "GET" ∨ req.method = "HEAD" then .ok .null
  else
    match req.json with
    | some value => .ok value
    | none => .error (["body"], "Invalid JSON body")

def webhooksPrefix : List Char := "/webhooks/".toList

namespace HttpTriggerSource

/-- The handler from the split path on. -/
def route (s : HttpTriggerSource Z) (req : HttpRequest) : List String → HttpOutcome Z
  | [owner, repo, workflowName, triggerName] =>
    if ownerNameRe owner && repoNameRe repo && ownerNameRe workflowName &&
        triggerNameRe triggerName then
      match s.pairs.lookup owner repo workflowName triggerName with
      | none => .notFound
      | some entry =>
        if entry.descriptor.method = some req.method then
          match parseBody req with
          | .error (path, message) => .validationFailure path message
          | .ok body => .fire entry ⟨body, headersToRecord req.headers, req.url, req.method⟩
        else .notFound
    else .notFound
  | _ => .notFound

/-- `middleware`, mounted at `/webhooks/*`. -/
def handler (s : HttpTriggerSource Z) (req : HttpRequest) : HttpOutcome Z :=
  if webhooksPrefix.isPrefixOf req.path.toList || req.path == "/webhooks" then
    let afterPrefix := req.path.toList.drop webhooksPrefix.length
    if afterPrefix = [] ∧ req.method = "GET" then .body (if s.ready then 204 else 503)
    else s.route req (segments afterPrefix)
  else .next

def reconfigure (s : HttpTriggerSource Z) (owner repo : String) (entries : List (TriggerEntry Z)) :
    HttpTriggerSource Z :=
  let key := pairKey owner repo
  if entries.length = 0 then { s with pairs := s.pairs.delete key }
  else { s with pairs := s.pairs.set key (sourceMap entries) }

/-- The mechanical URL of a trigger. -/
def urlOf (k : ScopeKey) : String := String.ofList (webhooksPrefix ++ k.path)

theorem handler_urlOf (s : HttpTriggerSource Z) (req : HttpRequest) {k : ScopeKey}
    (hpath : req.path = urlOf k) (howner : Plain k.owner) (hrepo : Plain k.repo)
    (hworkflow : Plain k.workflow) (htrigger : Plain k.trigger) :
    s.handler req = s.route req [k.owner, k.repo, k.workflow, k.trigger] := by
  have hlist : req.path.toList = webhooksPrefix ++ k.path := by simp [hpath, urlOf]
  have hpre : webhooksPrefix.isPrefixOf (webhooksPrefix ++ k.path) = true :=
    List.isPrefixOf_iff_prefix.mpr (List.prefix_append _ _)
  unfold handler
  rw [hlist, hpre, Bool.true_or, if_pos rfl, List.drop_left]
  have hne : k.path ≠ [] := by simp [ScopeKey.path]
  dsimp only
  rw [if_neg fun hempty => hne hempty.1, segments_path howner hrepo hworkflow htrigger]

/-- A request that fires an entry has its mechanical URL. -/
theorem fire_of_handler {s : HttpTriggerSource Z} {req : HttpRequest} {e : TriggerEntry Z}
    {input : RawInput} (h : s.handler req = .fire e input) :
    ∃ k : ScopeKey, req.path = urlOf k ∧ ownerNameRe k.owner = true ∧ repoNameRe k.repo = true ∧
      ownerNameRe k.workflow = true ∧ triggerNameRe k.trigger = true ∧
      s.pairs.lookup k.owner k.repo k.workflow k.trigger = some e ∧
      e.descriptor.method = some req.method := by
  unfold handler at h
  split at h
  · rename_i hmatch
    dsimp only at h
    split at h
    · cases h
    · unfold route at h
      split at h
      · rename_i owner repo workflow trigger hseg
        split at h
        · rename_i hre
          simp only [Bool.and_eq_true] at hre
          split at h
          · cases h
          · rename_i entry hentry
            split at h
            · rename_i hmethod
              split at h
              · cases h
              · cases h
                refine ⟨⟨owner, repo, workflow, trigger⟩, ?_, hre.1.1.1, hre.1.1.2, hre.1.2, hre.2, hentry, hmethod⟩
                have hdrop := path_of_segments hseg
                rcases Bool.or_eq_true_iff.mp hmatch with hpre | hshort
                · obtain ⟨rest, hrest⟩ := List.isPrefixOf_iff_prefix.mp hpre
                  rw [← hrest, List.drop_left] at hdrop
                  rw [urlOf, ← hdrop, hrest, String.ofList_toList]
                · have hempty : req.path.toList.drop webhooksPrefix.length = [] := by
                    rw [beq_iff_eq.mp hshort]
                    rfl
                  rw [hempty] at hdrop
                  simp [ScopeKey.path] at hdrop
            · cases h
        · cases h
      · cases h
  · cases h

end HttpTriggerSource

/-! ## The `ws` source -/

structure UserContext where
  login : String
  mail : String
  orgs : List String

def ownerSet (user : UserContext) : List String := user.orgs.filter ownerNameRe

def isMember (user : UserContext) (owner : String) : Bool :=
  ownerNameRe owner && (ownerSet user).contains owner

structure UpgradeRequest where
  url : Option String
  upgrade : Option String
  provider : Option String
  authorization : Option String

/-- `byId` finds the provider; the value is its `resolveApiIdentity`. -/
structure ProviderRegistry where
  byId : String → Option (UpgradeRequest → Except String (Option UserContext))

inductive RejectReason where
  | notAnUpgrade | badPath | missingAuthorization | missingProvider | badBearer | ownerNotMember
  | triggerNotFound | triggerWrongKind
  deriving DecidableEq

inductive UpgradeOutcome (Z : Type) where
  | passThrough
  | rejected (scope : Option ScopeKey) (reason : RejectReason)
  | authResolveThrew (scope : ScopeKey) (message : String)
  | connection (scope : ScopeKey) (entry : TriggerEntry Z)

def wsPrefix : List Char := "/ws/".toList

/-- `parseScopeFromUrl` from the split path on. -/
def scopeOfSegments : List String → Option ScopeKey
  | [owner, repo, workflow, trigger] =>
    if ownerNameRe owner && repoNameRe repo && triggerNameRe workflow && triggerNameRe trigger then
      some ⟨owner, repo, workflow, trigger⟩
    else none
  | _ => none

/-- The URL up to its query. -/
def dropQuery (url : String) : String := String.ofList (url.toList.takeWhile (· ≠ '?'))

def parseScopeFromUrl (url : String) : Option ScopeKey :=
  let path := (dropQuery url).toList
  if wsPrefix.isPrefixOf path then scopeOfSegments (segments (path.drop wsPrefix.length)) else none

def isUpgradeRequest (req : UpgradeRequest) : Bool :=
  match req.upgrade with
  | none => false
  | some upgrade => toLowerCase upgrade == "websocket"

structure WsTriggerSource (Z : Type) where
  entries : EntryIndex Z

namespace WsTriggerSource

def preauthChecks (auth : ProviderRegistry) (req : UpgradeRequest) :
    Except (UpgradeOutcome Z)
      (ScopeKey × (UpgradeRequest → Except String (Option UserContext))) :=
  match req.url with
  | none => .error .passThrough
  | some url =>
    if wsPrefix.isPrefixOf url.toList then
      match parseScopeFromUrl url with
      | none => .error (.rejected none .badPath)
      | some scope =>
        if isUpgradeRequest req then
          match req.provider.filter (· ≠ "") with
          | none => .error (.rejected (some scope) .missingProvider)
          | some providerId =>
            match auth.byId providerId with
            | none => .error (.rejected (some scope) .missingProvider)
            | some provider =>
              match req.authorization.filter (· ≠ "") with
              | none => .error (.rejected (some scope) .missingAuthorization)
              | some _ => .ok (scope, provider)
        else .error (.rejected (some scope) .notAnUpgrade)
    else .error .passThrough

def postAuthChecks (s : WsTriggerSource Z) (scope : ScopeKey) :
    Option UserContext → Except RejectReason (TriggerEntry Z)
  | none => .error .badBearer
  | some user =>
    if isMember user scope.owner then
      match s.entries.lookup scope.owner scope.repo scope.workflow scope.trigger with
      | none => .error .triggerNotFound
      | some entry => if entry.descriptor.kind = .ws then .ok entry else .error .triggerWrongKind
    else .error .ownerNotMember

def upgradeHandler (s : WsTriggerSource Z) (auth : ProviderRegistry) (req : UpgradeRequest) :
    UpgradeOutcome Z :=
  match preauthChecks auth req with
  | .error outcome => outcome
  | .ok (scope, resolveApiIdentity) =>
    match resolveApiIdentity req with
    | .error message => .authResolveThrew scope message
    | .ok user =>
      match s.postAuthChecks scope user with
      | .error reason => .rejected (some scope) reason
      | .ok entry => .connection scope entry

def reconfigure (s : WsTriggerSource Z) (owner repo : String) (newEntries : List (TriggerEntry Z)) :
    WsTriggerSource Z :=
  let key := pairKey owner repo
  let newMap := sourceMap newEntries
  if newMap.size = 0 then ⟨s.entries.delete key⟩ else ⟨s.entries.set key newMap⟩

/-- The mechanical URL of a trigger. -/
def urlOf (k : ScopeKey) : String := String.ofList (wsPrefix ++ k.path)

/-- An upgrade whose headers identify a member of `owner`. -/
structure Authorised (auth : ProviderRegistry) (req : UpgradeRequest) (owner : String) : Prop where
  upgrade : isUpgradeRequest req = true
  identity : ∃ providerId resolveApiIdentity user, req.provider = some providerId ∧ providerId ≠ "" ∧
    auth.byId providerId = some resolveApiIdentity ∧ resolveApiIdentity req = .ok (some user) ∧
    isMember user owner = true
  authorization : ∃ token, req.authorization = some token ∧ token ≠ ""

theorem parseScopeFromUrl_eq_some {url : String} {k : ScopeKey} :
    parseScopeFromUrl url = some k ↔ dropQuery url = urlOf k ∧ ownerNameRe k.owner = true ∧
      repoNameRe k.repo = true ∧ triggerNameRe k.workflow = true ∧ triggerNameRe k.trigger = true := by
  constructor
  · intro h
    unfold parseScopeFromUrl at h
    dsimp only at h
    split at h
    · rename_i hpre
      unfold scopeOfSegments at h
      split at h
      · rename_i owner repo workflow trigger hseg
        split at h
        · rename_i hre
          cases h
          simp only [Bool.and_eq_true] at hre
          refine ⟨?_, hre.1.1.1, hre.1.1.2, hre.1.2, hre.2⟩
          have hdrop := path_of_segments hseg
          obtain ⟨rest, hrest⟩ := List.isPrefixOf_iff_prefix.mp hpre
          rw [← hrest, List.drop_left] at hdrop
          rw [urlOf, ← hdrop, hrest, String.ofList_toList]
        · cases h
      · cases h
    · cases h
  · rintro ⟨hurl, howner, hrepo, hworkflow, htrigger⟩
    have hlist : (dropQuery url).toList = wsPrefix ++ k.path := by simp [hurl, urlOf]
    have hpre : wsPrefix.isPrefixOf (wsPrefix ++ k.path) = true :=
      List.isPrefixOf_iff_prefix.mpr (List.prefix_append _ _)
    unfold parseScopeFromUrl
    dsimp only
    rw [hlist, if_pos hpre, List.drop_left, segments_path (plain_of_ownerNameRe howner)
      (plain_of_repoNameRe hrepo) (plain_of_triggerNameRe hworkflow) (plain_of_triggerNameRe htrigger)]
    simp [scopeOfSegments, howner, hrepo, hworkflow, htrigger]

/-- An authorised upgrade on the URL of a scope that the parser takes finds the entry of that scope. -/
theorem upgradeHandler_urlOf (s : WsTriggerSource Z) {auth : ProviderRegistry} {req : UpgradeRequest}
    {k : ScopeKey} {url : String} {e : TriggerEntry Z} (hauth : Authorised auth req k.owner)
    (hurl : req.url = some url) (hparse : parseScopeFromUrl url = some k)
    (hlookup : s.entries.lookup k.owner k.repo k.workflow k.trigger = some e)
    (hkind : e.descriptor.kind = .ws) : s.upgradeHandler auth req = .connection k e := by
  obtain ⟨providerId, resolve, user, hprovider, hne, hbyId, hresolve, hmember⟩ := hauth.identity
  obtain ⟨token, htoken, htoken'⟩ := hauth.authorization
  have hpre : wsPrefix.isPrefixOf url.toList = true := by
    have hcut := (parseScopeFromUrl_eq_some.mp hparse).1
    have hlist : url.toList.takeWhile (· ≠ '?') = wsPrefix ++ k.path := by
      have hto := congrArg String.toList hcut
      simpa [dropQuery, urlOf] using hto
    refine List.isPrefixOf_iff_prefix.mpr ?_
    refine (List.prefix_append wsPrefix k.path).trans ?_
    rw [← hlist]
    exact List.takeWhile_prefix _
  have hchecks : preauthChecks auth req = (.ok (k, resolve) : Except (UpgradeOutcome Z) _) := by
    simp [preauthChecks, hurl, hpre, hparse, hauth.upgrade, hprovider, hne, hbyId, htoken, htoken',
      Option.filter]
  simp [upgradeHandler, hchecks, hresolve, postAuthChecks, hmember, hlookup, hkind]

/-- The checks before authentication let a request on that has parsed, and connect none. -/
theorem preauthChecks_cases (auth : ProviderRegistry) (req : UpgradeRequest) :
    (∃ outcome : UpgradeOutcome Z, preauthChecks auth req = .error outcome ∧
      ∀ k e, outcome ≠ .connection k e) ∨
    ∃ scope resolve url, preauthChecks auth req =
        (.ok (scope, resolve) : Except (UpgradeOutcome Z) _) ∧
      req.url = some url ∧ parseScopeFromUrl url = some scope := by
  unfold preauthChecks
  cases req.url with
  | none => exact Or.inl ⟨_, rfl, by simp⟩
  | some url =>
    dsimp only
    by_cases hpre : wsPrefix.isPrefixOf url.toList = true
    · rw [if_pos hpre]
      cases hparse : parseScopeFromUrl url with
      | none => exact Or.inl ⟨_, rfl, by simp⟩
      | some scope =>
        cases isUpgradeRequest req with
        | false => exact Or.inl ⟨_, rfl, by simp⟩
        | true =>
          cases req.provider.filter (· ≠ "") with
          | none => exact Or.inl ⟨_, rfl, by simp⟩
          | some providerId =>
            cases hbyId : auth.byId providerId with
            | none => exact Or.inl ⟨.rejected (some scope) .missingProvider, by simp [hbyId], by simp⟩
            | some provider =>
              cases req.authorization.filter (· ≠ "") with
              | none =>
                exact Or.inl ⟨.rejected (some scope) .missingAuthorization, by simp [hbyId], by simp⟩
              | some token => exact Or.inr ⟨scope, provider, url, by simp [hbyId], rfl, hparse⟩
    · rw [if_neg hpre]
      exact Or.inl ⟨_, rfl, by simp⟩

/-- A connection to an entry was asked for on its mechanical URL. -/
theorem connection_of_upgradeHandler {s : WsTriggerSource Z} {auth : ProviderRegistry}
    {req : UpgradeRequest} {k : ScopeKey} {e : TriggerEntry Z}
    (h : s.upgradeHandler auth req = .connection k e) :
    ∃ url, req.url = some url ∧ parseScopeFromUrl url = some k ∧
      s.entries.lookup k.owner k.repo k.workflow k.trigger = some e := by
  unfold upgradeHandler at h
  rcases preauthChecks_cases (Z := Z) auth req with
    ⟨outcome, hpre, hne⟩ | ⟨scope, resolve, url, hpre, hurl, hparse⟩
  · rw [hpre] at h
    exact absurd h (hne k e)
  · rw [hpre] at h
    dsimp only at h
    split at h
    · cases h
    · split at h
      · cases h
      · rename_i entry hpost
        cases h
        refine ⟨url, hurl, hparse, ?_⟩
        unfold postAuthChecks at hpost
        split at hpost
        · cases hpost
        · split at hpost
          · split at hpost
            · cases hpost
            · rename_i hlookup
              split at hpost
              · cases hpost
                exact hlookup
              · cases hpost
          · cases hpost

end WsTriggerSource

end WorkflowEngine.Runtime
