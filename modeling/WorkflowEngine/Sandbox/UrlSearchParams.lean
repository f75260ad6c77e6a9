import WorkflowEngine.Lib.FormUrlEncoded

/-!
# The search parameters of a URL

`url.ts` of the web platform in the guest: the `searchParams` accessor, its two caches, and the mutators that
write back into the URL. The URL itself and its setters are parameters that follow the URL standard.
-/

namespace WorkflowEngine.Sandbox.UrlSearchParams

open Lib
set_option autoImplicit false

variable {U : Type}

/-! ## URLs and parameter lists -/

/-- `setHref` is `none` where it throws. `lossy` decodes bytes that are not UTF-8. -/
structure UrlStandard (U : Type) where
  search : U → List Char
  setSearch : U → List Char → U
  setHref : U → List Char → Option U
  lossy : List UInt8 → String
  search_clear : ∀ u, search (setSearch u []) = []
  search_set : ∀ u text, text ≠ [] → (∀ c ∈ text, FormUrlEncoded.safe c = true) →
    search (setSearch u ('?' :: text)) = '?' :: text

abbrev Params := List (String × String)

/-- `new URLSearchParams(search)`. -/
def UrlStandard.newSearchParams (std : UrlStandard U) : List Char → Params
  | '?' :: text => FormUrlEncoded.parse std.lossy text
  | text => FormUrlEncoded.parse std.lossy text

def utf16Units (s : String) : List Nat :=
  s.toList.flatMap fun c =>
    if c.toNat < 0x10000 then [c.toNat]
    else [0xD800 + (c.toNat - 0x10000) / 0x400, 0xDC00 + (c.toNat - 0x10000) % 0x400]

inductive Mutation where
  | append (name value : String)
  | delete (name : String) (value : Option String)
  | set (name value : String)
  | sort

def setParam (name value : String) : Params → Params
  | [] => [(name, value)]
  | e :: es => if e.1 = name then (name, value) :: es.filter (·.1 ≠ name) else e :: setParam name value es

def Mutation.apply : Mutation → Params → Params
  | .append name value, es => es ++ [(name, value)]
  | .delete name none, es => es.filter (·.1 ≠ name)
  | .delete name (some value), es => es.filter (· ≠ (name, value))
  | .set name value, es => setParam name value es
  | .sort, es => es.mergeSort fun a b => decide (utf16Units a.1 ≤ utf16Units b.1)

/-! ## The accessor and its caches -/

/-- `params` holds the content of each `URLSearchParams` object made for the URL; a reference is an index. -/
structure LiveUrl (U : Type) where
  url : U
  params : List Params
  cache : Option Nat
  cachedSearch : Option (List Char)

def construct (url : U) : LiveUrl U := ⟨url, [], none, none⟩

section Accessor
variable (std : UrlStandard U)

def createSearchParams (s : LiveUrl U) : LiveUrl U × Nat :=
  let currentSearch := std.search s.url
  (⟨s.url, s.params ++ [std.newSearchParams currentSearch], some s.params.length, some currentSearch⟩,
    s.params.length)

def getOrCreateSearchParams (s : LiveUrl U) : LiveUrl U × Nat :=
  match s.cache with
  | some cached => if s.cachedSearch = some (std.search s.url) then (s, cached) else createSearchParams std s
  | none => createSearchParams std s

/-- The text that `reflect` assigns to `search`. -/
def newSearch (es : Params) : List Char :=
  if FormUrlEncoded.serialize es = [] then [] else '?' :: FormUrlEncoded.serialize es

def reflect (s : LiveUrl U) (es : Params) : LiveUrl U :=
  let url := std.setSearch s.url (newSearch es)
  { s with url := url, cachedSearch := some (std.search url) }

/-- A patched mutator of the object `ref`. -/
def mutate (s : LiveUrl U) (ref : Nat) (m : Mutation) : LiveUrl U :=
  match s.params[ref]? with
  | none => s
  | some es => reflect std { s with params := s.params.set ref (m.apply es) } (m.apply es)

inductive Access where
  | searchParams
  | mutate (ref : Nat) (m : Mutation)
  | assignSearch (text : List Char)
  | assignHref (text : List Char)

/-- An invalid `href` throws and leaves the URL as it is. -/
def step (s : LiveUrl U) : Access → LiveUrl U
  | .searchParams => (getOrCreateSearchParams std s).1
  | .mutate ref m => mutate std s ref m
  | .assignSearch text => { s with url := std.setSearch s.url text }
  | .assignHref text => { s with url := (std.setHref s.url text).getD s.url }

/-! ## Live binding -/

/-- `url.searchParams` is the object of every reference obtained so far, and lists what `search` says. -/
structure Bound (s : LiveUrl U) : Prop where
  same : ∀ ref < s.params.length, (getOrCreateSearchParams std s).2 = ref
  entries : (getOrCreateSearchParams std s).1.params[(getOrCreateSearchParams std s).2]? =
    some (std.newSearchParams (std.search s.url))

/-- A mutation through a reference changes what `search` says as it changes a list. -/
def Exact (s : LiveUrl U) : Access → Prop
  | .mutate ref m => ref < s.params.length →
      std.newSearchParams (std.search (mutate std s ref m).url) = m.apply (std.newSearchParams (std.search s.url))
  | _ => True

/-- Every state of the run is bound, and every mutation exact. -/
def Conforms : LiveUrl U → List Access → Prop
  | s, [] => Bound std s
  | s, a :: as => Bound std s ∧ Exact std s a ∧ Conforms (step std s a) as

/-- An assignment after the first reference leaves the text of `search` as it is. -/
def KeepsSearch (s : LiveUrl U) : Access → Prop
  | .assignSearch text => s.params = [] ∨ std.search (std.setSearch s.url text) = std.search s.url
  | .assignHref text => s.params = [] ∨ std.search ((std.setHref s.url text).getD s.url) = std.search s.url
  | _ => True

def Undisturbed : LiveUrl U → List Access → Prop
  | _, [] => True
  | s, a :: as => KeepsSearch std s a ∧ Undisturbed (step std s a) as

/-- There is no reference yet, or all of them are to one object that agrees with both caches and the URL. -/
inductive Synced : LiveUrl U → Prop
  | untouched (url : U) (cachedSearch : Option (List Char)) : Synced ⟨url, [], none, cachedSearch⟩
  | shared (url : U) :
    Synced ⟨url, [std.newSearchParams (std.search url)], some 0, some (std.search url)⟩

end Accessor

section Lemmas
variable {std : UrlStandard U} {s : LiveUrl U}

theorem search_newSearch (std : UrlStandard U) (u : U) (es : Params) : std.search (std.setSearch u (newSearch es)) = newSearch es := by
  unfold newSearch
  split
  · exact std.search_clear u
  · rename_i htext
    exact std.search_set u _ htext fun c hc => FormUrlEncoded.safe_of_mem_serialize hc

theorem newSearchParams_newSearch (std : UrlStandard U) (es : Params) : std.newSearchParams (newSearch es) = es := by
  have hparse := FormUrlEncoded.parse_serialize std.lossy es
  unfold newSearch
  split
  · rename_i htext
    rw [htext] at hparse
    exact hparse
  · exact hparse

theorem bound_of_synced (h : Synced std s) : Bound std s := by
  cases h with
  | untouched url cachedSearch =>
    refine ⟨?_, rfl⟩
    intro ref href
    cases href
  | shared url =>
    have hget : getOrCreateSearchParams std
        ⟨url, [std.newSearchParams (std.search url)], some 0, some (std.search url)⟩ =
          (⟨url, [std.newSearchParams (std.search url)], some 0, some (std.search url)⟩, 0) := by
      simp only [getOrCreateSearchParams, if_true]
    refine ⟨?_, ?_⟩
    · intro ref href
      rw [hget]
      exact (Nat.lt_one_iff.mp href).symm
    · rw [hget]
      rfl

/-- The write-back of the one object leaves it in agreement with the URL. -/
theorem mutate_shared (url : U) (ref : Nat) (m : Mutation) :
    Synced std (mutate std ⟨url, [std.newSearchParams (std.search url)], some 0, some (std.search url)⟩ ref m) ∧
    Exact std ⟨url, [std.newSearchParams (std.search url)], some 0, some (std.search url)⟩ (.mutate ref m) := by
  cases ref with
  | succ ref => exact ⟨.shared url, fun href => absurd href (by simp)⟩
  | zero =>
    have hsearch := search_newSearch std url (m.apply (std.newSearchParams (std.search url)))
    have hparams := newSearchParams_newSearch std (m.apply (std.newSearchParams (std.search url)))
    refine ⟨?_, ?_⟩
    · have hshared : Synced std _ :=
        .shared (std.setSearch url (newSearch (m.apply (std.newSearchParams (std.search url)))))
      rw [hsearch, hparams] at hshared
      simp only [mutate, List.getElem?_cons_zero, reflect, List.set_cons_zero, hsearch]
      exact hshared
    · intro _
      simp only [mutate, List.getElem?_cons_zero, reflect, hsearch, hparams]

theorem synced_assign (h : Synced std s) (url : U) (hkeeps : s.params = [] ∨ std.search url = std.search s.url) :
    Synced std { s with url := url } := by
  cases h with
  | untouched old cachedSearch => exact .untouched url cachedSearch
  | shared old =>
    rcases hkeeps with hnone | hsearch
    · cases hnone
    · have hshared : Synced std _ := .shared url
      rw [hsearch] at hshared
      exact hshared

theorem synced_step (h : Synced std s) (a : Access) (hkeeps : KeepsSearch std s a) :
    Synced std (step std s a) ∧ Exact std s a := by
  cases a with
  | searchParams =>
    refine ⟨?_, trivial⟩
    cases h with
    | untouched url cachedSearch => exact .shared url
    | shared url =>
      simp only [step, getOrCreateSearchParams, if_true]
      exact .shared url
  | mutate ref m =>
    cases h with
    | untouched url cachedSearch => exact ⟨.untouched url cachedSearch, fun href => absurd href (by simp)⟩
    | shared url => exact mutate_shared url ref m
  | assignSearch text => exact ⟨synced_assign h _ hkeeps, trivial⟩
  | assignHref text => exact ⟨synced_assign h _ hkeeps, trivial⟩

/-- An assignment that changes `search` makes the accessor give out another object. -/
theorem not_bound_assign (h : Synced std s) (url : U)
    (hdisturbs : ¬ (s.params = [] ∨ std.search url = std.search s.url)) : ¬ Bound std { s with url := url } := by
  rw [not_or] at hdisturbs
  obtain ⟨hsome, hsearch⟩ := hdisturbs
  cases h with
  | untouched old cachedSearch => exact absurd rfl hsome
  | shared old =>
    intro hbound
    have hmiss : ¬ (some (std.search old) = some (std.search url)) := by
      rw [Option.some_inj]
      exact Ne.symm hsearch
    have hsame := hbound.same 0 Nat.zero_lt_one
    simp only [getOrCreateSearchParams, if_neg hmiss, createSearchParams, List.length_singleton] at hsame
    cases hsame

theorem not_bound_step (h : Synced std s) (a : Access) (hdisturbs : ¬ KeepsSearch std s a) :
    ¬ Bound std (step std s a) := by
  cases a with
  | searchParams => exact absurd trivial hdisturbs
  | mutate ref m => exact absurd trivial hdisturbs
  | assignSearch text => exact not_bound_assign h _ hdisturbs
  | assignHref text => exact not_bound_assign h _ hdisturbs

theorem bound_of_conforms {as : List Access} (h : Conforms std s as) : Bound std s := by
  cases as with
  | nil => exact h
  | cons a as => exact h.1

theorem conforms_iff_undisturbed (h : Synced std s) (as : List Access) :
    Conforms std s as ↔ Undisturbed std s as := by
  induction as generalizing s with
  | nil => exact iff_of_true (bound_of_synced h) trivial
  | cons a as ih =>
    by_cases hkeeps : KeepsSearch std s a
    · obtain ⟨hsynced, hexact⟩ := synced_step h a hkeeps
      constructor
      · intro hconforms
        exact ⟨hkeeps, (ih hsynced).mp hconforms.2.2⟩
      · intro hundisturbed
        exact ⟨bound_of_synced h, hexact, (ih hsynced).mpr hundisturbed.2⟩
    · refine iff_of_false ?_ fun hundisturbed => hkeeps hundisturbed.1
      intro hconforms
      exact not_bound_step h a hkeeps (bound_of_conforms hconforms.2.2)

end Lemmas

/-- A run keeps the one object live exactly when no assignment changes `search` after the first reference. -/
theorem run_conforms_iff (std : UrlStandard U) (url : U) (as : List Access) :
    Conforms std (construct url) as ↔ Undisturbed std (construct url) as :=
  conforms_iff_undisturbed (.untouched url none) as

/-! ## A reference held over an assignment -/

/-- URLs without a fragment, by the text before the query and the query. -/
def plainUrls : UrlStandard (List Char × List Char) where
  search u := if u.2 = [] then [] else '?' :: u.2
  setSearch u text := (u.1, if text.head? = some '?' then text.tail else text)
  setHref _ text := some (text.takeWhile (· ≠ '?'), (text.dropWhile (· ≠ '?')).tail)
  lossy _ := "\uFFFD"
  search_clear u := rfl
  search_set u text htext _ := by simp [htext]

def heldOver : List Access :=
  [.searchParams, .assignSearch "?b=2".toList, .mutate 0 (.append "c" "3")]

/-- The removed `a=1` comes back, and `b=2` is lost. -/
theorem held_reference_restores :
    plainUrls.search (heldOver.foldl (step plainUrls) (construct ("https://x.dev/".toList, "a=1".toList))).url =
      "?a=1&c=3".toList ∧
    ¬ Conforms plainUrls (construct ("https://x.dev/".toList, "a=1".toList)) heldOver := by
  have hparams : plainUrls.newSearchParams "?a=1".toList = [("a", "1")] :=
    FormUrlEncoded.parse_serialize plainUrls.lossy [("a", "1")]
  refine ⟨?_, ?_⟩
  · refine (search_newSearch plainUrls _
      (Mutation.apply (.append "c" "3") (plainUrls.newSearchParams "?a=1".toList))).trans ?_
    rw [hparams]
    decide
  · intro hconforms
    obtain ⟨-, hnone | hsearch, -⟩ := (conforms_iff_undisturbed (.untouched _ none) heldOver).mp hconforms
    · cases hnone
    · exact absurd hsearch (by decide)

end WorkflowEngine.Sandbox.UrlSearchParams
