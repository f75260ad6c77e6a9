import Mathlib.Data.List.DropRight
import WorkflowEngine.Lib.Fallible
import WorkflowEngine.Lib.Grouping
import WorkflowEngine.Runtime.ImapMessage
import WorkflowEngine.Runtime.TriggerUrls

/-!
# The allowlist and the provider registry

`buildRegistry` reads `AUTH_ALLOW`, a comma-separated list of `<provider>:<rest>`,
and gives every provider the rests of its entries. The GitHub provider admits a
user by login or by organisation, the local one (local deployments only) knows
its users by name. A malformed entry stops the server, so a registry that exists
admits exactly whom the text names.
-/

namespace WorkflowEngine.Runtime.Auth

open Lib
set_option autoImplicit false

/-! ## Splitting the text -/

/-- `s.trim()`. -/
def trim (s : String) : String :=
  String.ofList ((s.toList.dropWhile Imap.isWhitespace).rdropWhile Imap.isWhitespace)

def splitTopLevel (raw : String) : List String :=
  (((raw.toList.splitOn ',').map String.ofList).map trim).filter (· ≠ "")

def splitFirstColon (entry : String) : String × String :=
  match entry.toList.dropWhile (· ≠ ':') with
  | [] => (entry, "")
  | _ :: rest => (String.ofList (entry.toList.takeWhile (· ≠ ':')), String.ofList rest)

theorem splitFirstColon_append {id rest : String} (h : ':' ∉ id.toList) :
    splitFirstColon (id ++ ":" ++ rest) = (id, rest) := by
  have hlist : (id ++ ":" ++ rest).toList = id.toList ++ ':' :: rest.toList := by simp
  have hne : ∀ c ∈ id.toList, (decide (c ≠ ':')) = true := by
    intro c hc
    rw [decide_eq_true_eq]
    rintro rfl
    exact h hc
  have hdrop : (id ++ ":" ++ rest).toList.dropWhile (· ≠ ':') = ':' :: rest.toList := by
    rw [hlist, List.dropWhile_append_of_pos hne]
    simp
  have htake : (id ++ ":" ++ rest).toList.takeWhile (· ≠ ':') = id.toList := by
    rw [hlist, List.takeWhile_append_of_pos hne]
    simp
  simp only [splitFirstColon, hdrop, htake, String.ofList_toList]

/-- An entry is its provider, a colon and the rest, or a provider alone. -/
theorem eq_of_splitFirstColon {entry id rest : String} (h : splitFirstColon entry = (id, rest)) :
    entry = id ++ ":" ++ rest ∨ (entry = id ∧ rest = "") := by
  unfold splitFirstColon at h
  have happ := List.takeWhile_append_dropWhile (p := fun c : Char => decide (c ≠ ':')) (l := entry.toList)
  cases hdrop : entry.toList.dropWhile (· ≠ ':') with
  | nil =>
    rw [hdrop] at h
    cases h
    exact Or.inr ⟨rfl, rfl⟩
  | cons c cs =>
    rw [hdrop] at h
    cases h
    have hc : c = ':' := by
      have hhead := List.head?_dropWhile_not (fun c : Char => decide (c ≠ ':')) entry.toList
      rw [hdrop] at hhead
      simpa using hhead
    subst hc
    refine Or.inl (String.toList_inj.mp ?_)
    rw [hdrop] at happ
    simpa using happ.symm

/-! ## `buildRegistry` -/

section Registry
variable {P : Type}

/-- `create` has the `deps` already. -/
structure AuthProviderFactory (P : Type) where
  id : String
  create : List String → Except String P

structure ProviderRegistry (P : Type) where
  providers : List P
  providerById : OrderedMap String P

def ProviderRegistry.byId (r : ProviderRegistry P) (id : String) : Option P := r.providerById.get? id

def unknownProvider (id : String) : String := "unknown provider \"" ++ id ++ "\""

def factoryById (factories : List (AuthProviderFactory P)) : OrderedMap String (AuthProviderFactory P) :=
  factories.foldl (fun m f => m.set f.id f) .empty

/-- One turn of the first loop. -/
def addEntry (factories : OrderedMap String (AuthProviderFactory P)) (b : Grouping String String)
    (entry : String) : Except String (Grouping String String) :=
  let (id, rest) := splitFirstColon entry
  if factories.has id then .ok (b.push id rest) else .error (unknownProvider id)

/-- One turn of the second loop. -/
def createProvider (factories : OrderedMap String (AuthProviderFactory P)) (b : Grouping String String)
    (r : ProviderRegistry P) (id : String) : Except String (ProviderRegistry P) :=
  match factories.get? id with
  | none => .error (unknownProvider id)
  | some factory => do
    let provider ← factory.create ((b.buckets.get? id).getD [])
    .ok ⟨r.providers ++ [provider], r.providerById.set id provider⟩

def buildRegistry (rawAuthAllow : Option String) (factories : List (AuthProviderFactory P)) :
    Except String (ProviderRegistry P) := do
  let byId := factoryById factories
  let b ← (splitTopLevel (rawAuthAllow.getD "")).foldlM (addEntry byId) Grouping.empty
  b.order.foldlM (createProvider byId b) ⟨[], .empty⟩

/-- The provider that the bucket of the id makes. -/
def Created (factories : OrderedMap String (AuthProviderFactory P)) (rests : List String) (id : String)
    (p : P) : Prop :=
  ∃ f, factories.get? id = some f ∧ f.create rests = .ok p

/-- The rests of the entries of one provider, in order. -/
def restsOf (entries : List String) (id : String) : List String :=
  Grouping.valuesOf (fun e => (splitFirstColon e).1) (fun e => (splitFirstColon e).2) entries id

/-- The ids of the entries in the order in which they first come up. -/
def idsOf (entries : List String) : List String := (entries.map fun e => (splitFirstColon e).1).eraseDups

theorem mem_idsOf {entries : List String} {id : String} :
    id ∈ idsOf entries ↔ ∃ e ∈ entries, (splitFirstColon e).1 = id := by
  simp [idsOf]

variable {factories : OrderedMap String (AuthProviderFactory P)}

theorem foldlM_addEntry {entries : List String} {b b' : Grouping String String} :
    entries.foldlM (addEntry factories) b = .ok b' ↔
      (∀ e ∈ entries, factories.has (splitFirstColon e).1 = true) ∧
        b' = entries.foldl (fun b e => b.push (splitFirstColon e).1 (splitFirstColon e).2) b := by
  induction entries generalizing b with
  | nil =>
    constructor
    · intro h
      cases h
      exact ⟨by simp, rfl⟩
    · rintro ⟨-, rfl⟩
      rfl
  | cons e entries ih =>
    rw [List.foldlM_cons, List.foldl_cons, List.forall_mem_cons]
    by_cases hhas : factories.has (splitFirstColon e).1 = true
    · have hstep : addEntry factories b e = .ok (b.push (splitFirstColon e).1 (splitFirstColon e).2) := by
        simp [addEntry, hhas]
      rw [hstep]
      simp only [hhas, true_and]
      exact ih
    · have hstep : addEntry factories b e = .error (unknownProvider (splitFirstColon e).1) := by
        simp [addEntry, hhas]
      rw [hstep]
      constructor
      · intro h
        cases h
      · intro h
        exact absurd h.1.1 hhas

theorem createProvider_eq_ok {b : Grouping String String} {r r' : ProviderRegistry P} {id : String} :
    createProvider factories b r id = .ok r' ↔
      ∃ p, Created factories ((b.buckets.get? id).getD []) id p ∧
        r' = ⟨r.providers ++ [p], r.providerById.set id p⟩ := by
  unfold createProvider
  cases hget : factories.get? id with
  | none => simp [Created, hget]
  | some f =>
    cases hcreate : f.create ((b.buckets.get? id).getD []) with
    | error e => simp [Created, hget, hcreate, bind, Except.bind]
    | ok p => simp [Created, hget, hcreate, bind, Except.bind, eq_comm]

/-- What the second loop leaves: a provider for every id of the order, each found under its id. -/
theorem foldlM_createProvider {b : Grouping String String} {order : List String} {r r' : ProviderRegistry P}
    (h : order.foldlM (createProvider factories b) r = .ok r') :
    (∃ ps, r'.providers = r.providers ++ ps ∧
      List.Forall₂ (fun id p => Created factories ((b.buckets.get? id).getD []) id p) order ps) ∧
    ∀ id p, r'.byId id = some p ↔
      (id ∈ order ∧ Created factories ((b.buckets.get? id).getD []) id p) ∨
        (id ∉ order ∧ r.byId id = some p) := by
  induction order generalizing r with
  | nil =>
    cases h
    exact ⟨⟨[], by simp, List.Forall₂.nil⟩, by simp⟩
  | cons id order ih =>
    obtain ⟨r₁, hr₁, h⟩ := bind_eq_ok h
    obtain ⟨p, hp, rfl⟩ := createProvider_eq_ok.mp hr₁
    obtain ⟨⟨ps, hps, hall⟩, hfind⟩ := ih h
    refine ⟨⟨p :: ps, by simp [hps], List.Forall₂.cons hp hall⟩, ?_⟩
    intro j q
    rw [hfind, List.mem_cons]
    by_cases hj : j = id
    · subst hj
      have hset : (⟨r.providers ++ [p], r.providerById.set j p⟩ : ProviderRegistry P).byId j = some p := by
        simp [ProviderRegistry.byId]
      have hsame : Created factories ((b.buckets.get? j).getD []) j q ↔ p = q := by
        obtain ⟨f, hf, hcreate⟩ := hp
        constructor
        · rintro ⟨f', hf', hcreate'⟩
          cases hf.symm.trans hf'
          exact Except.ok.inj (hcreate.symm.trans hcreate')
        · rintro rfl
          exact ⟨f, hf, hcreate⟩
      rw [hset, Option.some.injEq, hsame]
      by_cases hin : j ∈ order <;> simp [hin]
    · have hset : (⟨r.providers ++ [p], r.providerById.set id p⟩ : ProviderRegistry P).byId j = r.byId j :=
        OrderedMap.get?_set_of_ne _ _ _ hj
      rw [hset]
      simp [hj]

theorem exists_foldlM_createProvider {b : Grouping String String} {order : List String} {r : ProviderRegistry P} :
    (∃ r', order.foldlM (createProvider factories b) r = .ok r') ↔
      ∀ id ∈ order, ∃ p, Created factories ((b.buckets.get? id).getD []) id p := by
  induction order generalizing r with
  | nil => simp [pure, Except.pure]
  | cons id order ih =>
    rw [List.forall_mem_cons]
    constructor
    · rintro ⟨r', h⟩
      obtain ⟨r₁, hr₁, h⟩ := bind_eq_ok h
      obtain ⟨p, hp, rfl⟩ := createProvider_eq_ok.mp hr₁
      exact ⟨⟨p, hp⟩, ih.mp ⟨r', h⟩⟩
    · rintro ⟨⟨p, hp⟩, hrest⟩
      obtain ⟨r', h⟩ := ih.mpr hrest
      refine ⟨r', ?_⟩
      rw [List.foldlM_cons, createProvider_eq_ok.mpr ⟨p, hp, rfl⟩]
      exact h

section Build
variable {raw : Option String} {list : List (AuthProviderFactory P)}

/-- The buckets of the first loop. -/
def bucketsOf (entries : List String) : Grouping String String :=
  entries.foldl (fun b e => b.push (splitFirstColon e).1 (splitFirstColon e).2) .empty

theorem order_bucketsOf (entries : List String) : (bucketsOf entries).order = idsOf entries := by
  rw [bucketsOf, Grouping.order_foldl Grouping.listed_empty]
  simp [Grouping.empty, idsOf]

theorem get?_bucketsOf (entries : List String) (id : String) :
    ((bucketsOf entries).buckets.get? id).getD [] = restsOf entries id := by
  rw [bucketsOf, Grouping.get?_foldl, ← restsOf]
  by_cases h : restsOf entries id = []
  · rw [if_pos h, h]
    rfl
  · rw [if_neg h]
    simp [Grouping.empty]

theorem buildRegistry_eq_ok {r : ProviderRegistry P} :
    buildRegistry raw list = .ok r ↔
      (∀ e ∈ splitTopLevel (raw.getD ""), (factoryById list).has (splitFirstColon e).1 = true) ∧
        (idsOf (splitTopLevel (raw.getD ""))).foldlM
          (createProvider (factoryById list) (bucketsOf (splitTopLevel (raw.getD "")))) ⟨[], .empty⟩ = .ok r := by
  constructor
  · intro h
    obtain ⟨b, hb, h⟩ := bind_eq_ok h
    obtain ⟨hknown, rfl⟩ := foldlM_addEntry.mp hb
    rw [← bucketsOf, order_bucketsOf] at h
    exact ⟨hknown, h⟩
  · rintro ⟨hknown, h⟩
    simp only [buildRegistry, foldlM_addEntry.mpr ⟨hknown, rfl⟩]
    rw [← order_bucketsOf] at h
    exact h

/-- A provider is found under an id exactly when an entry names the id and the rests of its entries make it. -/
theorem byId_of_buildRegistry {r : ProviderRegistry P} (h : buildRegistry raw list = .ok r) (id : String) (p : P) :
    r.byId id = some p ↔ id ∈ idsOf (splitTopLevel (raw.getD "")) ∧
      Created (factoryById list) (restsOf (splitTopLevel (raw.getD "")) id) id p := by
  rw [(foldlM_createProvider (buildRegistry_eq_ok.mp h).2).2, get?_bucketsOf]
  simp [ProviderRegistry.byId]

/-- The registry exists exactly when every id named has a factory that takes the rests of its entries. -/
theorem exists_buildRegistry_iff :
    (∃ r, buildRegistry raw list = .ok r) ↔ ∀ id ∈ idsOf (splitTopLevel (raw.getD "")),
      ∃ p, Created (factoryById list) (restsOf (splitTopLevel (raw.getD "")) id) id p := by
  simp only [buildRegistry_eq_ok, exists_and_left, exists_foldlM_createProvider, get?_bucketsOf]
  constructor
  · exact And.right
  · intro h
    refine ⟨?_, h⟩
    intro e he
    obtain ⟨p, f, hf, -⟩ := h _ (mem_idsOf.mpr ⟨e, he, rfl⟩)
    simp [OrderedMap.has, hf]

end Build

end Registry

/-! ## The two providers -/

/-- `ID_REGEX`. -/
def idRegex (s : String) : Bool :=
  match s.toList with
  | [] => false
  | c :: cs => c.isAlphanum && cs.all fun d => d == '-' || d.isAlphanum

inductive GithubKind where
  | user | org
  deriving DecidableEq

def GithubKind.text : GithubKind → String
  | .user => "user"
  | .org => "org"

structure GithubEntry where
  kind : GithubKind
  id : String
  deriving DecidableEq

def parseGithubRest (rest : String) : Except String GithubEntry :=
  match (rest.toList.splitOn ':').map String.ofList with
  | [kind, id] => do
    let kind ← githubKind kind
    if idRegex id then .ok ⟨kind, id⟩
    else .error ("AUTH_ALLOW: invalid identifier \"" ++ id ++ "\" in entry \"github:" ++ rest ++ "\"")
  | _ =>
    .error ("AUTH_ALLOW: malformed github entry \"github:" ++ rest ++ "\" (expected github:user|org:<id>)")
where
  githubKind (kind : String) : Except String GithubKind :=
    if kind = "user" then .ok .user
    else if kind = "org" then .ok .org
    else .error ("AUTH_ALLOW: unknown github kind \"" ++ kind ++ "\" in entry \"github:" ++ rest ++ "\"")

structure LocalEntry where
  name : String
  orgs : List String
  deriving DecidableEq

/-- The first organisation of the list that fails the test is the one reported. -/
def parseLocalRest (rest : String) : Except String LocalEntry :=
  match (rest.toList.splitOn ':').map String.ofList with
  | [name] => do
    checkName name
    .ok ⟨name, []⟩
  | [name, orgsRaw] => do
    checkName name
    if orgsRaw.toList.contains ',' then
      .error ("AUTH_ALLOW: local entry \"local:" ++ rest ++ "\": orgs use '|' separator (e.g. acme|foo)")
    else do
      let orgs := (orgsRaw.toList.splitOn '|').map String.ofList
      orgs.forM checkOrg
      .ok ⟨name, orgs⟩
  | _ =>
    .error ("AUTH_ALLOW: malformed local entry \"local:" ++ rest ++
      "\" (expected local:<name> or local:<name>:<orgs>)")
where
  checkName (name : String) : Except String Unit :=
    if idRegex name then .ok ()
    else .error ("AUTH_ALLOW: invalid local user name \"" ++ name ++ "\" in entry \"local:" ++ rest ++ "\"")
  checkOrg (org : String) : Except String Unit :=
    if idRegex org then .ok ()
    else .error ("AUTH_ALLOW: invalid local org \"" ++ org ++ "\" in entry \"local:" ++ rest ++ "\"")

/-- What the closures of a created provider hold. -/
inductive AuthProvider where
  | github (users orgs : List String)
  | local (entries : List LocalEntry)

/-- The local provider's `byName`. -/
def byName (entries : List LocalEntry) : OrderedMap String LocalEntry :=
  entries.foldl (fun m e => m.set e.name e) .empty

/-- `deps`, as far as a provider can be refused for it. -/
structure ProviderRouteDeps where
  clientId : Option String
  clientSecret : Option String
  baseUrl : Option String

def ensureGithubDeps (deps : ProviderRouteDeps) : Except String Unit :=
  if deps.clientId.isNone || deps.clientSecret.isNone || deps.baseUrl.isNone then
    .error "github provider requires GITHUB_OAUTH_CLIENT_ID, GITHUB_OAUTH_CLIENT_SECRET, and BASE_URL"
  else .ok ()

def createGithubProvider (deps : ProviderRouteDeps) (rawEntries : List String) : Except String AuthProvider := do
  let entries ← rawEntries.mapM parseGithubRest
  ensureGithubDeps deps
  .ok (.github ((entries.filter (·.kind = .user)).map (·.id)) ((entries.filter (·.kind = .org)).map (·.id)))

def createLocalProvider (rawEntries : List String) : Except String AuthProvider := do
  let entries ← rawEntries.mapM parseLocalRest
  .ok (.local entries)

/-- `localDeployment` is whether `LOCAL_DEPLOYMENT` is `1`. -/
def buildProviderFactories (localDeployment : Bool) (deps : ProviderRouteDeps) :
    List (AuthProviderFactory AuthProvider) :=
  ⟨"github", createGithubProvider deps⟩ :: if localDeployment then [⟨"local", createLocalProvider⟩] else []

def isAllowed (user : UserContext) (users orgs : List String) : Bool :=
  users.contains user.login || user.orgs.any fun o => orgs.contains o

def userFromEntry (entry : LocalEntry) : UserContext :=
  ⟨entry.name, entry.name ++ "@dev.local", entry.name :: entry.orgs⟩

/-! ## What the parsers accept -/

theorem notMem_of_idRegex {s : String} {c : Char} (h : idRegex s = true) (hdash : c ≠ '-')
    (hc : c.isAlphanum = false) : c ∉ s.toList := by
  intro hmem
  unfold idRegex at h
  split at h
  · cases h
  · rename_i d ds hs
    rw [hs] at hmem
    simp only [Bool.and_eq_true, List.all_eq_true, Bool.or_eq_true, beq_iff_eq] at h
    rcases List.mem_cons.mp hmem with rfl | hmem
    · rw [hc] at h
      cases h.1
    · rcases h.2 c hmem with h | h
      · exact hdash h
      · rw [hc] at h
        cases h

theorem toList_of_splitOn_pair {c : Char} {s a b : String} (h : (s.toList.splitOn c).map String.ofList = [a, b]) :
    s.toList = a.toList ++ c :: b.toList := by
  have hparts : s.toList.splitOn c = [a.toList, b.toList] := by
    simpa using congrArg (List.map String.toList) h
  have hjoin : [c].intercalate (s.toList.splitOn c) = s.toList := List.intercalate_splitOn c
  rw [hparts] at hjoin
  simpa [List.intercalate] using hjoin.symm

theorem splitOn_of_toList_pair {c : Char} {s a b : String} (ha : c ∉ a.toList) (hb : c ∉ b.toList)
    (h : s.toList = a.toList ++ c :: b.toList) : (s.toList.splitOn c).map String.ofList = [a, b] := by
  rw [h, List.splitOn_append_cons_self_of_not_mem ha, List.splitOn_eq_singleton hb]
  simp

/-- The text of an entry after `github:`. -/
def GithubEntry.rest (e : GithubEntry) : String := e.kind.text ++ ":" ++ e.id

theorem colon_notMem_kind (kind : GithubKind) : ':' ∉ kind.text.toList := by
  cases kind <;> decide

theorem githubKind_eq_ok {rest kind : String} {k : GithubKind} :
    parseGithubRest.githubKind rest kind = .ok k ↔ kind = k.text := by
  unfold parseGithubRest.githubKind
  split
  · rename_i h
    subst h
    cases k <;> simp [GithubKind.text]
  · rename_i huser
    split
    · rename_i h
      subst h
      cases k <;> simp [GithubKind.text]
    · rename_i horg
      cases k <;> simp [GithubKind.text, huser, horg]

theorem parseGithubRest_eq_ok {rest : String} {e : GithubEntry} :
    parseGithubRest rest = .ok e ↔ rest = e.rest ∧ idRegex e.id = true := by
  constructor
  · intro h
    unfold parseGithubRest at h
    split at h
    · rename_i kind id hsplit
      obtain ⟨k, hk, h⟩ := bind_eq_ok h
      split at h
      · rename_i hid
        cases h
        refine ⟨String.toList_inj.mp ?_, hid⟩
        rw [toList_of_splitOn_pair hsplit, githubKind_eq_ok.mp hk]
        simp [GithubEntry.rest]
      · cases h
    · cases h
  · rintro ⟨rfl, hid⟩
    have hsplit : (e.rest.toList.splitOn ':').map String.ofList = [e.kind.text, e.id] := by
      apply splitOn_of_toList_pair (colon_notMem_kind e.kind) (notMem_of_idRegex hid (by decide) (by decide))
      simp [GithubEntry.rest]
    simp only [parseGithubRest, hsplit, githubKind_eq_ok.mpr rfl]
    change (if idRegex e.id = true then _ else _) = _
    rw [if_pos hid]

/-- The text of an entry after `local:`. -/
def LocalEntry.rest (e : LocalEntry) : String :=
  if e.orgs = [] then e.name
  else e.name ++ ":" ++ String.ofList (['|'].intercalate (e.orgs.map String.toList))

def LocalEntry.WellFormed (e : LocalEntry) : Prop :=
  idRegex e.name = true ∧ ∀ org ∈ e.orgs, idRegex org = true

theorem forM_checkOrg_eq_ok {rest : String} {orgs : List String} :
    orgs.forM (parseLocalRest.checkOrg rest) = .ok () ↔ ∀ org ∈ orgs, idRegex org = true := by
  induction orgs with
  | nil => simp [pure, Except.pure]
  | cons org orgs ih =>
    rw [List.forM, List.forall_mem_cons]
    by_cases h : idRegex org = true
    · have hcheck : parseLocalRest.checkOrg rest org = .ok () := by simp [parseLocalRest.checkOrg, h]
      rw [hcheck]
      simp only [h, true_and]
      exact ih
    · have hcheck : ∃ e, parseLocalRest.checkOrg rest org = .error e := by simp [parseLocalRest.checkOrg, h]
      obtain ⟨e, hcheck⟩ := hcheck
      rw [hcheck]
      constructor
      · intro h
        cases h
      · intro hall
        exact absurd hall.1 h

theorem checkName_eq_ok {rest name : String} :
    parseLocalRest.checkName rest name = .ok () ↔ idRegex name = true := by
  unfold parseLocalRest.checkName
  split <;> simp_all

theorem notMem_intercalate {c d : Char} (hcd : c ≠ d) {ls : List (List Char)} (h : ∀ l ∈ ls, c ∉ l) :
    c ∉ [d].intercalate ls := by
  induction ls with
  | nil => simp
  | cons l ls ih =>
    rw [List.forall_mem_cons] at h
    cases ls with
    | nil => simpa [List.intercalate] using h.1
    | cons l' ls =>
      rw [List.intercalate_cons_cons]
      simp only [List.mem_append, List.mem_singleton, not_or]
      exact ⟨⟨h.1, hcd⟩, ih h.2⟩

theorem parseLocalRest_eq_ok {rest : String} {e : LocalEntry} :
    parseLocalRest rest = .ok e ↔ rest = e.rest ∧ e.WellFormed := by
  constructor
  · intro h
    unfold parseLocalRest at h
    split at h
    · rename_i name hsplit
      obtain ⟨u, hname, h⟩ := bind_eq_ok h
      cases h
      have hlist : rest.toList.splitOn ':' = [name.toList] := by
        simpa using congrArg (List.map String.toList) hsplit
      have hjoin : [':'].intercalate (rest.toList.splitOn ':') = rest.toList := List.intercalate_splitOn ':'
      rw [hlist] at hjoin
      refine ⟨String.toList_inj.mp ?_, checkName_eq_ok.mp hname, by simp⟩
      simpa [LocalEntry.rest, List.intercalate] using hjoin.symm
    · rename_i name orgsRaw hsplit
      obtain ⟨u, hname, h⟩ := bind_eq_ok h
      split at h
      · cases h
      · obtain ⟨u', horgs, h⟩ := bind_eq_ok h
        cases h
        refine ⟨String.toList_inj.mp ?_, checkName_eq_ok.mp hname, forM_checkOrg_eq_ok.mp horgs⟩
        rw [toList_of_splitOn_pair hsplit]
        simp [LocalEntry.rest, Function.comp_def]
    · cases h
  · rintro ⟨rfl, hname, horgs⟩
    have hcolon := notMem_of_idRegex (c := ':') hname (by decide) (by decide)
    by_cases hnil : e.orgs = []
    · have hsplit : (e.rest.toList.splitOn ':').map String.ofList = [e.name] := by
        simp [LocalEntry.rest, hnil, List.splitOn_eq_singleton hcolon]
      simp only [parseLocalRest, hsplit, checkName_eq_ok.mpr hname]
      rw [← hnil]
      rfl
    · have hclean : ∀ c : Char, c ≠ '|' → c ≠ '-' → c.isAlphanum = false →
          c ∉ ['|'].intercalate (e.orgs.map String.toList) := by
        intro c hbar hdash hc
        apply notMem_intercalate hbar
        intro l hl
        obtain ⟨org, horg, rfl⟩ := List.mem_map.mp hl
        exact notMem_of_idRegex (horgs org horg) hdash hc
      have hsplit : (e.rest.toList.splitOn ':').map String.ofList =
          [e.name, String.ofList (['|'].intercalate (e.orgs.map String.toList))] := by
        apply splitOn_of_toList_pair hcolon
        · simpa using hclean ':' (by decide) (by decide) (by decide)
        · simp [LocalEntry.rest, hnil]
      have hcomma : (['|'].intercalate (e.orgs.map String.toList)).contains ',' = false := by
        simpa using hclean ',' (by decide) (by decide) (by decide)
      have hbars : ((['|'].intercalate (e.orgs.map String.toList)).splitOn '|').map String.ofList = e.orgs := by
        rw [List.splitOn_intercalate]
        · simp [Function.comp_def]
        · intro l hl
          obtain ⟨org, horg, rfl⟩ := List.mem_map.mp hl
          exact notMem_of_idRegex (horgs org horg) (by decide) (by decide)
        · simpa using hnil
      simp only [parseLocalRest, hsplit, checkName_eq_ok.mpr hname, String.toList_ofList, hcomma, hbars,
        forM_checkOrg_eq_ok.mpr horgs]
      rfl

/-! ## Whom the text names -/

/-- The entry of one provider that a text of the list reads as. -/
def entryOf {α : Type} (id : String) (parse : String → Except String α) (text : String) : Option α :=
  if (splitFirstColon text).1 = id then (parse (splitFirstColon text).2).toOption else none

theorem eq_filterMap_of_mapM {α : Type} {id : String} {parse : String → Except String α} {entries : List String}
    {es : List α} (h : (restsOf entries id).mapM parse = .ok es) : es = entries.filterMap (entryOf id parse) := by
  induction entries generalizing es with
  | nil =>
    cases h
    rfl
  | cons text entries ih =>
    by_cases hid : (splitFirstColon text).1 = id
    · have hcons : restsOf (text :: entries) id = (splitFirstColon text).2 :: restsOf entries id := by
        simp [restsOf, Grouping.valuesOf, hid]
      rw [hcons, List.mapM_cons] at h
      obtain ⟨e, he, h⟩ := bind_eq_ok h
      obtain ⟨es', hes, h⟩ := bind_eq_ok h
      cases h
      have hentry : entryOf id parse text = some e := by
        rw [entryOf, if_pos hid, he]
        rfl
      rw [List.filterMap_cons_some hentry, ih hes]
    · have hcons : restsOf (text :: entries) id = restsOf entries id := by
        simp [restsOf, Grouping.valuesOf, hid]
      have hentry : entryOf id parse text = none := by rw [entryOf, if_neg hid]
      rw [hcons] at h
      rw [List.filterMap_cons_none hentry, ih h]

theorem entryOf_eq_some {α : Type} {id : String} {parse : String → Except String α} (hid : ':' ∉ id.toList)
    {text : String} {a : α} (hempty : ∀ a, parse "" ≠ .ok a) :
    entryOf id parse text = some a ↔ ∃ rest, text = id ++ ":" ++ rest ∧ parse rest = .ok a := by
  constructor
  · intro h
    unfold entryOf at h
    split at h
    · rename_i hfirst
      have hparse : parse (splitFirstColon text).2 = .ok a := by
        cases hp : parse (splitFirstColon text).2 with
        | error e =>
          rw [hp] at h
          cases h
        | ok a' =>
          rw [hp] at h
          cases h
          rfl
      have hsplit : splitFirstColon text = (id, (splitFirstColon text).2) := Prod.ext hfirst rfl
      rcases eq_of_splitFirstColon hsplit with htext | ⟨-, hrest⟩
      · exact ⟨_, htext, hparse⟩
      · exact absurd (hrest ▸ hparse) (hempty a)
    · cases h
  · rintro ⟨rest, rfl, hparse⟩
    rw [entryOf, splitFirstColon_append hid, if_pos rfl, hparse]
    rfl

theorem parseGithubRest_empty (e : GithubEntry) : parseGithubRest "" ≠ .ok e := by
  intro h
  have htext := congrArg String.toList (parseGithubRest_eq_ok.mp h).1
  simp [GithubEntry.rest] at htext

theorem parseLocalRest_empty (e : LocalEntry) : parseLocalRest "" ≠ .ok e := by
  intro h
  obtain ⟨htext, hname, -⟩ := parseLocalRest_eq_ok.mp h
  have hlist := congrArg String.toList htext
  unfold LocalEntry.rest at hlist
  split at hlist
  · unfold idRegex at hname
    rw [← hlist] at hname
    cases hname
  · simp at hlist

/-- What a text of the list names. -/
inductive Entry where
  | github (e : GithubEntry)
  | local (e : LocalEntry)

def Entry.text : Entry → String
  | .github e => "github" ++ ":" ++ e.rest
  | .local e => "local" ++ ":" ++ e.rest

/-- The entries that a deployment reads. -/
def Entry.Valid (localDeployment : Bool) (deps : ProviderRouteDeps) : Entry → Prop
  | .github e => idRegex e.id = true ∧ ensureGithubDeps deps = .ok ()
  | .local e => localDeployment = true ∧ e.WellFormed

section Deployment
variable {localDeployment : Bool} {deps : ProviderRouteDeps}

theorem get?_factoryById (id : String) :
    (factoryById (buildProviderFactories localDeployment deps)).get? id =
      if id = "local" ∧ localDeployment = true then some ⟨"local", createLocalProvider⟩
      else if id = "github" then some ⟨"github", createGithubProvider deps⟩ else none := by
  cases localDeployment <;>
    simp [factoryById, buildProviderFactories, OrderedMap.get?_set]

theorem created_iff {rests : List String} {id : String} {p : AuthProvider} :
    Created (factoryById (buildProviderFactories localDeployment deps)) rests id p ↔
      (id = "github" ∧ createGithubProvider deps rests = .ok p) ∨
        (id = "local" ∧ localDeployment = true ∧ createLocalProvider rests = .ok p) := by
  rw [Created]
  simp only [get?_factoryById]
  constructor
  · rintro ⟨f, hget, hcreate⟩
    split at hget
    · rename_i hid
      cases hget
      exact Or.inr ⟨hid.1, hid.2, hcreate⟩
    · split at hget
      · rename_i hid
        cases hget
        exact Or.inl ⟨hid, hcreate⟩
      · cases hget
  · rintro (⟨rfl, hcreate⟩ | ⟨rfl, hlocal, hcreate⟩)
    · refine ⟨⟨"github", createGithubProvider deps⟩, ?_, hcreate⟩
      rw [if_neg (by simp), if_pos rfl]
    · refine ⟨⟨"local", createLocalProvider⟩, ?_, hcreate⟩
      rw [if_pos ⟨rfl, hlocal⟩]

theorem createGithubProvider_eq_ok {rests : List String} {p : AuthProvider} :
    createGithubProvider deps rests = .ok p ↔ ∃ es, rests.mapM parseGithubRest = .ok es ∧
      ensureGithubDeps deps = .ok () ∧
      p = .github ((es.filter (·.kind = .user)).map (·.id)) ((es.filter (·.kind = .org)).map (·.id)) := by
  constructor
  · intro h
    obtain ⟨es, hes, h⟩ := bind_eq_ok h
    obtain ⟨u, hdeps, h⟩ := bind_eq_ok h
    cases h
    exact ⟨es, hes, hdeps, rfl⟩
  · rintro ⟨es, hes, hdeps, rfl⟩
    simp only [createGithubProvider, hes, hdeps]
    rfl

theorem createLocalProvider_eq_ok {rests : List String} {p : AuthProvider} :
    createLocalProvider rests = .ok p ↔ ∃ es, rests.mapM parseLocalRest = .ok es ∧ p = .local es := by
  constructor
  · intro h
    obtain ⟨es, hes, h⟩ := bind_eq_ok h
    cases h
    exact ⟨es, hes, rfl⟩
  · rintro ⟨es, hes, rfl⟩
    simp only [createLocalProvider, hes]
    rfl

variable {raw : Option String}

/-- A text of the list that its provider can read. -/
theorem exists_entry_iff {text : String} :
    (∃ e : Entry, e.Valid localDeployment deps ∧ text = e.text) ↔
      ((splitFirstColon text).1 = "github" ∧ ensureGithubDeps deps = .ok () ∧
        ∃ e, parseGithubRest (splitFirstColon text).2 = .ok e) ∨
      ((splitFirstColon text).1 = "local" ∧ localDeployment = true ∧
        ∃ e, parseLocalRest (splitFirstColon text).2 = .ok e) := by
  constructor
  · rintro ⟨e, hvalid, rfl⟩
    cases e with
    | github e =>
      rw [Entry.text, splitFirstColon_append (by decide)]
      exact Or.inl ⟨rfl, hvalid.2, e, parseGithubRest_eq_ok.mpr ⟨rfl, hvalid.1⟩⟩
    | «local» e =>
      rw [Entry.text, splitFirstColon_append (by decide)]
      exact Or.inr ⟨rfl, hvalid.1, e, parseLocalRest_eq_ok.mpr ⟨rfl, hvalid.2⟩⟩
  · rintro (⟨hid, hdeps, e, he⟩ | ⟨hid, hlocal, e, he⟩)
    · have hsome : entryOf "github" parseGithubRest text = some e := by
        rw [entryOf, if_pos hid, he]
        rfl
      obtain ⟨rest, htext, hparse⟩ := (entryOf_eq_some (by decide) parseGithubRest_empty).mp hsome
      obtain ⟨rfl, hvalid⟩ := parseGithubRest_eq_ok.mp hparse
      exact ⟨.github e, ⟨hvalid, hdeps⟩, htext⟩
    · have hsome : entryOf "local" parseLocalRest text = some e := by
        rw [entryOf, if_pos hid, he]
        rfl
      obtain ⟨rest, htext, hparse⟩ := (entryOf_eq_some (by decide) parseLocalRest_empty).mp hsome
      obtain ⟨rfl, hvalid⟩ := parseLocalRest_eq_ok.mp hparse
      exact ⟨.local e, ⟨hlocal, hvalid⟩, htext⟩

theorem exists_mapM_restsOf {α : Type} {entries : List String} {id : String} {parse : String → Except String α}
    (h : ∀ text ∈ entries, (splitFirstColon text).1 = id → ∃ a, parse (splitFirstColon text).2 = .ok a) :
    ∃ es, (restsOf entries id).mapM parse = .ok es := by
  apply exists_mapM
  intro rest hrest
  obtain ⟨text, htext, hid, rfl⟩ := Grouping.mem_valuesOf.mp hrest
  exact h text htext hid

/-- The server starts exactly when every entry of the list is the text of a valid entry. -/
theorem exists_buildRegistry_iff_valid (raw : Option String) (localDeployment : Bool) (deps : ProviderRouteDeps) :
    (∃ r, buildRegistry raw (buildProviderFactories localDeployment deps) = .ok r) ↔
      ∀ text ∈ splitTopLevel (raw.getD ""), ∃ e : Entry, e.Valid localDeployment deps ∧ text = e.text := by
  generalize hentries : splitTopLevel (raw.getD "") = entries
  rw [exists_buildRegistry_iff, hentries]
  simp only [exists_entry_iff, created_iff]
  constructor
  · intro h text htext
    have hrest : (splitFirstColon text).2 ∈ restsOf entries (splitFirstColon text).1 :=
      Grouping.mem_valuesOf.mpr ⟨text, htext, rfl, rfl⟩
    obtain ⟨p, ⟨hid, hcreate⟩ | ⟨hid, hlocal, hcreate⟩⟩ := h _ (mem_idsOf.mpr ⟨text, htext, rfl⟩)
    · obtain ⟨es, hes, hdeps, -⟩ := createGithubProvider_eq_ok.mp hcreate
      exact Or.inl ⟨hid, hdeps, ok_of_mapM hes hrest⟩
    · obtain ⟨es, hes, -⟩ := createLocalProvider_eq_ok.mp hcreate
      exact Or.inr ⟨hid, hlocal, ok_of_mapM hes hrest⟩
  · intro h id hid
    obtain ⟨text, htext, hfirst⟩ := mem_idsOf.mp hid
    rcases h text htext with ⟨hgithub, hdeps, -⟩ | ⟨hlocal, hdeployment, -⟩
    · have hall : ∀ t ∈ entries, (splitFirstColon t).1 = id → ∃ e, parseGithubRest (splitFirstColon t).2 = .ok e := by
        intro t ht hfirst'
        rcases h t ht with ⟨-, -, hread⟩ | ⟨hlocal, -⟩
        · exact hread
        · have habsurd : "github" = "local" := by rw [← hgithub, ← hlocal, hfirst, hfirst']
          simp at habsurd
      obtain ⟨es, hes⟩ := exists_mapM_restsOf hall
      exact ⟨_, Or.inl ⟨hfirst.symm.trans hgithub, createGithubProvider_eq_ok.mpr ⟨es, hes, hdeps, rfl⟩⟩⟩
    · have hall : ∀ t ∈ entries, (splitFirstColon t).1 = id → ∃ e, parseLocalRest (splitFirstColon t).2 = .ok e := by
        intro t ht hfirst'
        rcases h t ht with ⟨hgithub, -⟩ | ⟨-, -, hread⟩
        · have habsurd : "github" = "local" := by rw [← hgithub, ← hlocal, hfirst, hfirst']
          simp at habsurd
        · exact hread
      obtain ⟨es, hes⟩ := exists_mapM_restsOf hall
      exact ⟨_, Or.inr ⟨hfirst.symm.trans hlocal, hdeployment, createLocalProvider_eq_ok.mpr ⟨es, hes, rfl⟩⟩⟩

variable {raw : Option String} {r : ProviderRegistry AuthProvider}

/-- What the GitHub provider of a registry holds. -/
theorem byId_github (h : buildRegistry raw (buildProviderFactories localDeployment deps) = .ok r)
    {p : AuthProvider} (hp : r.byId "github" = some p) :
    let es := (splitTopLevel (raw.getD "")).filterMap (entryOf "github" parseGithubRest)
    p = .github ((es.filter (·.kind = .user)).map (·.id)) ((es.filter (·.kind = .org)).map (·.id)) := by
  rcases created_iff.mp ((byId_of_buildRegistry h _ _).mp hp).2 with ⟨-, hcreate⟩ | ⟨hid, -⟩
  · obtain ⟨es, hes, -, rfl⟩ := createGithubProvider_eq_ok.mp hcreate
    rw [← eq_filterMap_of_mapM hes]
  · simp at hid

theorem byId_local (h : buildRegistry raw (buildProviderFactories localDeployment deps) = .ok r)
    {p : AuthProvider} (hp : r.byId "local" = some p) :
    p = .local ((splitTopLevel (raw.getD "")).filterMap (entryOf "local" parseLocalRest)) := by
  rcases created_iff.mp ((byId_of_buildRegistry h _ _).mp hp).2 with ⟨hid, -⟩ | ⟨-, -, hcreate⟩
  · simp at hid
  · obtain ⟨es, hes, rfl⟩ := createLocalProvider_eq_ok.mp hcreate
    rw [← eq_filterMap_of_mapM hes]

/-- An entry of the list has its provider in the registry. -/
theorem isSome_byId (h : buildRegistry raw (buildProviderFactories localDeployment deps) = .ok r) {text : String}
    (htext : text ∈ splitTopLevel (raw.getD "")) : ∃ p, r.byId (splitFirstColon text).1 = some p := by
  have hid := mem_idsOf.mpr ⟨text, htext, rfl⟩
  obtain ⟨p, hp⟩ := exists_buildRegistry_iff.mp ⟨r, h⟩ _ hid
  exact ⟨p, (byId_of_buildRegistry h _ _).mpr ⟨hid, hp⟩⟩

theorem GithubEntry.rest_inj {e e' : GithubEntry} (h : e.rest = e'.rest) : e = e' := by
  obtain ⟨kind, id⟩ := e
  obtain ⟨kind', id'⟩ := e'
  have hlist := congrArg String.toList h
  have hsep : ":".toList = [':'] := rfl
  simp only [GithubEntry.rest, String.toList_append, hsep, List.append_assoc, List.singleton_append] at hlist
  obtain ⟨hkind, hid⟩ := (append_separator_inj (colon_notMem_kind kind) (colon_notMem_kind kind')).mp hlist
  obtain rfl := String.toList_inj.mp hid
  cases kind <;> cases kind' <;> first | rfl | cases hkind

/-- The ids of one kind are those that the list names with it. -/
theorem mem_github_ids (h : buildRegistry raw (buildProviderFactories localDeployment deps) = .ok r)
    (kind : GithubKind) (id : String) :
    id ∈ (((splitTopLevel (raw.getD "")).filterMap (entryOf "github" parseGithubRest)).filter
        (·.kind = kind)).map (·.id) ↔ (Entry.github ⟨kind, id⟩).text ∈ splitTopLevel (raw.getD "") := by
  constructor
  · intro hmem
    obtain ⟨e, he, rfl⟩ := List.mem_map.mp hmem
    obtain ⟨he, hkind⟩ := List.mem_filter.mp he
    obtain ⟨text, htext, hentry⟩ := List.mem_filterMap.mp he
    obtain ⟨rest, rfl, hparse⟩ := (entryOf_eq_some (by decide) parseGithubRest_empty).mp hentry
    obtain ⟨rfl, -⟩ := parseGithubRest_eq_ok.mp hparse
    obtain rfl : e.kind = kind := by simpa using hkind
    exact htext
  · intro htext
    have hread := exists_entry_iff.mp ((exists_buildRegistry_iff_valid raw localDeployment deps).mp ⟨r, h⟩ _ htext)
    rw [Entry.text, splitFirstColon_append (by decide)] at hread
    rcases hread with ⟨-, -, e, he⟩ | ⟨hid, -⟩
    · obtain ⟨hrest, -⟩ := parseGithubRest_eq_ok.mp he
      obtain rfl := GithubEntry.rest_inj hrest
      have hentry : entryOf "github" parseGithubRest (Entry.github ⟨kind, id⟩).text = some ⟨kind, id⟩ :=
        (entryOf_eq_some (by decide) parseGithubRest_empty).mpr ⟨_, rfl, he⟩
      exact List.mem_map.mpr ⟨⟨kind, id⟩, List.mem_filter.mpr
        ⟨List.mem_filterMap.mpr ⟨_, htext, hentry⟩, by simp⟩, rfl⟩
    · simp at hid

/-- The GitHub provider lets a user in exactly when the list names the login or one of the organisations. -/
theorem isAllowed_iff_named (h : buildRegistry raw (buildProviderFactories localDeployment deps) = .ok r)
    (user : UserContext) :
    (∃ users orgs, r.byId "github" = some (.github users orgs) ∧ isAllowed user users orgs = true) ↔
      "github:user:" ++ user.login ∈ splitTopLevel (raw.getD "") ∨
        ∃ org ∈ user.orgs, "github:org:" ++ org ∈ splitTopLevel (raw.getD "") := by
  have huser : ∀ id, (Entry.github ⟨.user, id⟩).text = "github:user:" ++ id := by
    intro id
    apply String.toList_inj.mp
    simp [Entry.text, GithubEntry.rest, GithubKind.text]
  have horg : ∀ id, (Entry.github ⟨.org, id⟩).text = "github:org:" ++ id := by
    intro id
    apply String.toList_inj.mp
    simp [Entry.text, GithubEntry.rest, GithubKind.text]
  simp only [← huser, ← horg, ← mem_github_ids h]
  constructor
  · rintro ⟨users, orgs, hp, hallowed⟩
    cases byId_github h hp
    simpa [isAllowed] using hallowed
  · intro hnamed
    have htext : ∃ kind id, (Entry.github ⟨kind, id⟩).text ∈ splitTopLevel (raw.getD "") := by
      rcases hnamed with hmem | ⟨org, -, hmem⟩
      · exact ⟨_, _, (mem_github_ids h _ _).mp hmem⟩
      · exact ⟨_, _, (mem_github_ids h _ _).mp hmem⟩
    obtain ⟨kind, id, htext⟩ := htext
    obtain ⟨p, hp⟩ := isSome_byId h htext
    rw [Entry.text, splitFirstColon_append (by decide)] at hp
    obtain rfl := byId_github h hp
    exact ⟨_, _, hp, by simpa [isAllowed] using hnamed⟩

/-- The local provider knows a user by the last entry of the list that has the name. -/
theorem byName_iff_named (h : buildRegistry raw (buildProviderFactories localDeployment deps) = .ok r)
    {e : LocalEntry} (he : e.WellFormed) :
    (∃ es, r.byId "local" = some (.local es) ∧ (byName es).get? e.name = some e) ↔
      ∃ before after, splitTopLevel (raw.getD "") = before ++ (Entry.local e).text :: after ∧
        ∀ e' : LocalEntry, e'.WellFormed → e'.name = e.name → (Entry.local e').text ∉ after := by
  have hread : ∀ {text : String} {e : LocalEntry}, entryOf "local" parseLocalRest text = some e ↔
      text = (Entry.local e).text ∧ e.WellFormed := by
    intro text e
    have hcolon : ':' ∉ "local".toList := by decide
    rw [entryOf_eq_some hcolon parseLocalRest_empty]
    constructor
    · rintro ⟨rest, rfl, hparse⟩
      obtain ⟨rfl, hwf⟩ := parseLocalRest_eq_ok.mp hparse
      exact ⟨rfl, hwf⟩
    · rintro ⟨rfl, hwf⟩
      exact ⟨_, rfl, parseLocalRest_eq_ok.mpr ⟨rfl, hwf⟩⟩
  constructor
  · rintro ⟨es, hp, hget⟩
    cases byId_local h hp
    rcases OrderedMap.split_of_get?_foldl_set _ _ _ hget with ⟨esb, e', esa, hes, -, rfl, hlast⟩ | ⟨-, hnone⟩
    · obtain ⟨before, rest, hsplit, -, hrest⟩ := List.filterMap_eq_append_iff.mp hes
      obtain ⟨skipped, text, after, rfl, hskipped, hentry, rfl⟩ := List.filterMap_eq_cons_iff.mp hrest
      obtain ⟨rfl, -⟩ := hread.mp hentry
      refine ⟨before ++ skipped, after, by simp [hsplit], ?_⟩
      intro e'' hwf hname hmem
      exact hlast e'' (List.mem_filterMap.mpr ⟨_, hmem, hread.mpr ⟨rfl, hwf⟩⟩) hname
    · simp at hnone
  · rintro ⟨before, after, hsplit, hlast⟩
    have htext : (Entry.local e).text ∈ splitTopLevel (raw.getD "") := by simp [hsplit]
    obtain ⟨p, hp⟩ := isSome_byId h htext
    rw [Entry.text, splitFirstColon_append (by decide)] at hp
    obtain rfl := byId_local h hp
    refine ⟨_, hp, ?_⟩
    rw [hsplit, List.filterMap_append, List.filterMap_cons_some (hread.mpr ⟨rfl, he⟩)]
    apply OrderedMap.get?_foldl_set_last (fun e : LocalEntry => e.name) id
    intro e' he' hname
    obtain ⟨text, htext, hentry⟩ := List.mem_filterMap.mp he'
    obtain ⟨rfl, hwf⟩ := hread.mp hentry
    exact hlast e' hwf hname htext

/-- Which texts are an allowlist, and whom an allowlist lets in. -/
theorem allowlist_exact (raw : Option String) (localDeployment : Bool) (deps : ProviderRouteDeps) :
    ((∃ r, buildRegistry raw (buildProviderFactories localDeployment deps) = .ok r) ↔
      ∀ text ∈ splitTopLevel (raw.getD ""), ∃ e : Entry, e.Valid localDeployment deps ∧ text = e.text) ∧
    ∀ r, buildRegistry raw (buildProviderFactories localDeployment deps) = .ok r →
      (∀ user : UserContext,
        (∃ users orgs, r.byId "github" = some (.github users orgs) ∧ isAllowed user users orgs = true) ↔
          "github:user:" ++ user.login ∈ splitTopLevel (raw.getD "") ∨
            ∃ org ∈ user.orgs, "github:org:" ++ org ∈ splitTopLevel (raw.getD "")) ∧
      ∀ e : LocalEntry, e.WellFormed →
        ((∃ es, r.byId "local" = some (.local es) ∧ (byName es).get? e.name = some e) ↔
          ∃ before after, splitTopLevel (raw.getD "") = before ++ (Entry.local e).text :: after ∧
            ∀ e' : LocalEntry, e'.WellFormed → e'.name = e.name → (Entry.local e').text ∉ after) := by
  refine ⟨exists_buildRegistry_iff_valid raw localDeployment deps, ?_⟩
  intro r h
  refine ⟨isAllowed_iff_named h, ?_⟩
  intro e he
  exact byName_iff_named h he

def devDeps : ProviderRouteDeps := ⟨none, none, none⟩

/-- The last entry of a name counts: bob has no organisation. -/
theorem allowlist_exact_bob : ∃ r es,
    buildRegistry (some "local:bob:acme|foo, local:bob") (buildProviderFactories true devDeps) = .ok r ∧
      r.byId "local" = some (.local es) ∧ (byName es).get? "bob" = some ⟨"bob", []⟩ := by
  have hsplit : splitTopLevel ((some "local:bob:acme|foo, local:bob").getD "") =
      ["local:bob:acme|foo", "local:bob"] := by decide
  have hexact := allowlist_exact (some "local:bob:acme|foo, local:bob") true devDeps
  rw [hsplit] at hexact
  have hbob : LocalEntry.WellFormed ⟨"bob", []⟩ := by simp [LocalEntry.WellFormed, idRegex]
  have hvalid : ∃ r, buildRegistry (some "local:bob:acme|foo, local:bob") (buildProviderFactories true devDeps) = .ok r := by
    apply hexact.1.mpr
    intro text htext
    rcases List.mem_cons.mp htext with rfl | htext
    · refine ⟨.local ⟨"bob", ["acme", "foo"]⟩, ⟨rfl, ?_⟩, by decide⟩
      simp [LocalEntry.WellFormed, idRegex]
    · rw [List.mem_singleton] at htext
      subst htext
      exact ⟨.local ⟨"bob", []⟩, ⟨rfl, hbob⟩, by decide⟩
  obtain ⟨r, hr⟩ := hvalid
  obtain ⟨es, hes, hget⟩ := ((hexact.2 r hr).2 _ hbob).mpr
    ⟨["local:bob:acme|foo"], [], by decide, by simp⟩
  exact ⟨r, es, hr, hes, hget⟩

end Deployment

end WorkflowEngine.Runtime.Auth
