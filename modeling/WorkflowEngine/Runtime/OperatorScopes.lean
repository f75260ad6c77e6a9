import WorkflowEngine.Runtime.TriggerUrls
import WorkflowEngine.Runtime.UploadEvents

/-!
# What an operator may look at

The registry as the operator pages read it, the scopes that `resolveQueryScopes`
grants and the guard of `requireOwnerMember`. `Registry.ofOwners` is the part of a
registry that belongs to some owners; every reader here gives the same on it as
on the whole registry when it is asked about one of them.
-/

namespace WorkflowEngine.Runtime

open Lib
set_option autoImplicit false

variable {Z B : Type}

structure Scope where
  owner : String
  repo : String
  deriving DecidableEq

namespace Registry

def owners (r : Registry Z B) : List String := r.ownerStates.keys

def repos (r : Registry Z B) (owner : String) : List String :=
  ((r.ownerStates.get? owner).map OrderedMap.keys).getD []

def pairs (r : Registry Z B) : List Scope :=
  r.ownerStates.entries.flatMap fun e => e.2.keys.map fun repo => ⟨e.1, repo⟩

/-- The part of a registry that belongs to the owners in `allowed`, with their queue rows. -/
def ofOwners (allowed : String → Bool) (r : Registry Z B) : Registry Z B where
  ownerStates := r.ownerStates.filterKeys allowed
  installed := .empty
  storage := .empty
  rows := r.rows.filter fun row => allowed row.owner

variable {allowed : String → Bool} {owner : String}

theorem getRepoState_ofOwners (r : Registry Z B) (h : allowed owner = true) (repo : String) :
    (r.ofOwners allowed).getRepoState owner repo = r.getRepoState owner repo := by
  simp only [getRepoState, ofOwners, OrderedMap.get?_filterKeys, h, if_true]

theorem repos_ofOwners (r : Registry Z B) (h : allowed owner = true) :
    (r.ofOwners allowed).repos owner = r.repos owner := by
  simp only [repos, ofOwners, OrderedMap.get?_filterKeys, h, if_true]

theorem list_ofOwners (r : Registry Z B) (h : allowed owner = true) (repo : String) :
    (r.ofOwners allowed).list owner repo = r.list owner repo := by
  simp only [Registry.list, r.getRepoState_ofOwners h repo]

theorem getEntry_ofOwners (r : Registry Z B) (h : allowed owner = true) (repo workflow trigger : String) :
    (r.ofOwners allowed).getEntry owner repo workflow trigger = r.getEntry owner repo workflow trigger := by
  simp only [getEntry, r.getRepoState_ofOwners h repo]

theorem pairs_ofOwners (r : Registry Z B) (allowed : String → Bool) :
    (r.ofOwners allowed).pairs = r.pairs.filter fun pair => allowed pair.owner := by
  unfold pairs ofOwners OrderedMap.filterKeys
  dsimp only
  induction r.ownerStates.entries with
  | nil => rfl
  | cons e es ih =>
    rw [List.flatMap_cons, List.filter_append, List.filter_map, ← ih]
    by_cases he : allowed e.1 = true
    · have hall : (fun repo : String => allowed e.1) = fun _ => true := by simp [he]
      rw [List.filter_cons, if_pos he, List.flatMap_cons]
      simp only [Function.comp_def, hall, List.filter_true]
    · have hnone : (fun repo : String => allowed e.1) = fun _ => false := by simp [he]
      rw [List.filter_cons, if_neg he]
      simp only [Function.comp_def, hnone, List.filter_false, List.map_nil, List.nil_append]

theorem mem_pairs {r : Registry Z B} {pair : Scope} :
    pair ∈ r.pairs ↔ pair.repo ∈ r.repos pair.owner := by
  unfold pairs repos
  simp only [List.mem_flatMap, List.mem_map]
  constructor
  · rintro ⟨e, he, repo, hrepo, rfl⟩
    have hget := (r.ownerStates.get?_eq_some_iff e.1 e.2).mpr he
    rw [hget]
    exact hrepo
  · intro h
    cases hget : r.ownerStates.get? pair.owner with
    | none => simp [hget] at h
    | some states =>
      rw [hget] at h
      exact ⟨(pair.owner, states), (r.ownerStates.get?_eq_some_iff _ _).mp hget, pair.repo, h, rfl⟩

end Registry

/-! ## Scopes -/

structure ScopeConstraint where
  owner : Option String
  repo : Option String

/-- Without a user every registered owner is allowed. -/
def allowedOwners (user : Option UserContext) (r : Registry Z B) : List String :=
  match user with
  | some user => ownerSet user
  | none => r.owners.filter ownerNameRe

def resolveQueryScopes (user : Option UserContext) (r : Registry Z B) (constraint : ScopeConstraint) :
    List Scope :=
  if constraint.owner.all ownerNameRe && constraint.repo.all repoNameRe then
    r.pairs.filter fun pair => (allowedOwners user r).contains pair.owner &&
      constraint.owner.all (pair.owner == ·) && constraint.repo.all (pair.repo == ·)
  else []

/-- `requireOwnerMember` lets the request through; otherwise it answers as to an unknown path. -/
def requireOwnerMember (user : Option UserContext) (owner : String) (repo : Option String) : Bool :=
  ownerNameRe owner && repo.all repoNameRe && user.any (isMember · owner)

variable {user : UserContext} {r : Registry Z B} {constraint : ScopeConstraint} {scope : Scope}

theorem mem_resolveQueryScopes : scope ∈ resolveQueryScopes (some user) r constraint ↔
    constraint.owner.all ownerNameRe = true ∧ constraint.repo.all repoNameRe = true ∧
      scope.repo ∈ r.repos scope.owner ∧ scope.owner ∈ ownerSet user ∧
      constraint.owner.all (scope.owner == ·) = true ∧ constraint.repo.all (scope.repo == ·) = true := by
  unfold resolveQueryScopes
  by_cases hvalid : constraint.owner.all ownerNameRe && constraint.repo.all repoNameRe
  · rw [if_pos hvalid, List.mem_filter, Registry.mem_pairs]
    simp only [Bool.and_eq_true] at hvalid
    simp only [hvalid, allowedOwners, Bool.and_eq_true, List.contains_iff_mem, true_and, and_assoc]
  · rw [if_neg hvalid]
    simp only [Bool.and_eq_true] at hvalid
    constructor
    · intro h
      cases h
    · rintro ⟨howner, hrepo, -⟩
      exact absurd ⟨howner, hrepo⟩ hvalid

theorem owner_mem_of_mem_resolveQueryScopes (h : scope ∈ resolveQueryScopes (some user) r constraint) :
    scope.owner ∈ ownerSet user := (mem_resolveQueryScopes.mp h).2.2.2.1

theorem mem_ownerSet_of_isMember {owner : String} (h : isMember user owner = true) : owner ∈ ownerSet user := by
  simp only [isMember, Bool.and_eq_true, List.contains_iff_mem] at h
  exact h.2

theorem requireOwnerMember_eq_true_iff {owner : String} {repo : Option String} :
    requireOwnerMember (some user) owner repo = true ↔ owner ∈ ownerSet user ∧ repo.all repoNameRe = true := by
  simp only [requireOwnerMember, isMember, Option.any_some, Bool.and_eq_true, List.contains_iff_mem]
  constructor
  · rintro ⟨⟨-, hrepo⟩, -, howner⟩
    exact ⟨howner, hrepo⟩
  · rintro ⟨howner, hrepo⟩
    have hname : ownerNameRe owner = true := (List.mem_filter.mp howner).2
    exact ⟨⟨hname, hrepo⟩, hname, howner⟩

/-- The owners of a user, as a test. -/
def UserContext.owns (user : UserContext) (owner : String) : Bool := (ownerSet user).contains owner

theorem UserContext.owns_of_mem {owner : String} (h : owner ∈ ownerSet user) : user.owns owner = true :=
  List.contains_iff_mem.mpr h

/-- The scopes of a user are granted from the user's part of the registry. -/
theorem resolveQueryScopes_ofOwners (user : UserContext) (r : Registry Z B) (constraint : ScopeConstraint) :
    resolveQueryScopes (some user) (r.ofOwners user.owns) constraint = resolveQueryScopes (some user) r constraint := by
  unfold resolveQueryScopes
  rw [Registry.pairs_ofOwners, List.filter_filter]
  congr 1
  apply List.filter_congr
  intro pair _
  simp only [allowedOwners, UserContext.owns]
  cases (ownerSet user).contains pair.owner <;> simp

end WorkflowEngine.Runtime
