import WorkflowEngine.Lib.JsValue
import WorkflowEngine.Runtime.PluginRun

/-!
# The secrets plugin on whole messages

`walkStrings`, `addSecret` and `onPost` of `plugins/secrets.ts` on the values
that cross the port, and the `onPost` pipeline of `post`. `walkStrings` rebuilds
every object from its entries and transforms string values only; a reference
cycle overflows the stack, which `onPost` catches.
-/

namespace WorkflowEngine.Runtime.SecretsPlugin

open Lib
set_option autoImplicit false

/-! ## The plaintexts -/

/-- `activePlaintexts` as `worker` seeds it from the values of the plaintext store. -/
def seedPlaintexts (plaintextStore : List String) : List String :=
  resortLongestFirst (plaintextStore.filter fun v => v ≠ "")

def addSecret (activePlaintexts : List String) (value : String) : List String :=
  if value = "" ∨ value ∈ activePlaintexts then activePlaintexts
  else resortLongestFirst (activePlaintexts ++ [value])

/-- `activePlaintexts` after the given `addSecret` calls. -/
def activePlaintexts (plaintextStore added : List String) : List String :=
  added.foldl addSecret (seedPlaintexts plaintextStore)

theorem plaintexts_bodyStep_addSecret {V : Type*} (ops : PayloadOps V) (r : PluginRun V) (value : String) :
    (r.bodyStep ops (.addSecret value)).plaintexts = addSecret r.plaintexts value := by
  simp only [PluginRun.bodyStep, addSecret]
  split <;> rfl

theorem mem_resortLongestFirst (plaintexts : List String) (p : String) :
    p ∈ resortLongestFirst plaintexts ↔ p ∈ plaintexts :=
  (List.mergeSort_perm plaintexts _).mem_iff

theorem mem_addSecret (active : List String) (value p : String) :
    p ∈ addSecret active value ↔ p ∈ active ∨ (p = value ∧ value ≠ "") := by
  unfold addSecret
  split
  · rename_i h
    constructor
    · exact Or.inl
    · rintro (hp | ⟨rfl, hne⟩)
      · exact hp
      · exact h.resolve_left hne
  · rename_i h
    rw [not_or] at h
    simp [mem_resortLongestFirst, h.1]

theorem mem_activePlaintexts (store added : List String) (p : String) :
    p ∈ activePlaintexts store added ↔ p ≠ "" ∧ (p ∈ store ∨ p ∈ added) := by
  have hfold : ∀ active : List String,
      p ∈ added.foldl addSecret active ↔ p ∈ active ∨ (p ∈ added ∧ p ≠ "") := by
    induction added with
    | nil => simp
    | cons value added ih =>
      intro active
      rw [List.foldl_cons, ih, mem_addSecret, List.mem_cons]
      constructor
      · rintro ((h | ⟨rfl, h⟩) | ⟨h, hne⟩)
        · exact Or.inl h
        · exact Or.inr ⟨Or.inl rfl, h⟩
        · exact Or.inr ⟨Or.inr h, hne⟩
      · rintro (h | ⟨rfl | h, hne⟩)
        · exact Or.inl (Or.inl h)
        · exact Or.inl (Or.inr ⟨rfl, hne⟩)
        · exact Or.inr ⟨h, hne⟩
  unfold activePlaintexts seedPlaintexts
  rw [hfold, mem_resortLongestFirst, List.mem_filter, decide_eq_true_eq]
  constructor
  · rintro (⟨h, hne⟩ | ⟨h, hne⟩)
    · exact ⟨hne, Or.inl h⟩
    · exact ⟨hne, Or.inr h⟩
  · rintro ⟨hne, h | h⟩
    · exact Or.inl ⟨h, hne⟩
    · exact Or.inr ⟨h, hne⟩

/-! ## The walk -/

mutual
/-- `walkStrings(value, transform)`, or nothing where it does not return. An own property named
`__proto__` is written with `out[k] = …`, which makes no own property of the copy. -/
def walkStrings (transform : String → String) : JsValue → Option JsValue
  | .string s => some (.string (transform s))
  | .array items => (walkItems transform items).map .array
  | .object fields => (walkEntries transform fields).map .object
  | .builtin fields => (walkEntries transform fields).map .object
  | .date _ => some (.object [])
  | .cycle => none
  | .undefined => some .undefined
  | .null => some .null
  | .bool b => some (.bool b)
  | .number n => some (.number n)
  | .negZero => some .negZero
  | .nonFinite => some .nonFinite
  | .bigint n => some (.bigint n)

def walkItems (transform : String → String) : List JsValue → Option (List JsValue)
  | [] => some []
  | v :: items =>
    match walkStrings transform v with
    | none => none
    | some v => (walkItems transform items).map (v :: ·)

def walkEntries (transform : String → String) :
    List (String × JsValue) → Option (List (String × JsValue))
  | [] => some []
  | (k, v) :: fields =>
    match walkStrings transform v with
    | none => none
    | some v =>
      (walkEntries transform fields).map fun fields =>
        if k = "__proto__" then fields else (k, v) :: fields
end

/-- The message that takes the place of one whose walk failed. -/
def placeholderLog : JsValue :=
  .object [("type", .string "log"), ("level", .string "error"),
    ("message", .string "sandbox.plugin.secrets_scrub_failed"), ("meta", .object [])]

def onPost (plaintexts : List String) (msg : JsValue) : JsValue :=
  if plaintexts = [] then msg
  else (walkStrings (scrubString plaintexts) msg).getD placeholderLog

/-- A hook that throws is skipped, and its error kept for a log entry. -/
def runOnPost (hooks : List (JsValue → Except String JsValue)) (msg : JsValue) : JsValue × List String :=
  hooks.foldl
    (fun current hook =>
      match hook current.1 with
      | .ok msg => (msg, current.2)
      | .error e => (current.1, current.2 ++ [e]))
    (msg, [])

def hookOf (plaintexts : List String) : Plugin → Option (JsValue → Except String JsValue)
  | .secrets => some fun msg => .ok (onPost plaintexts msg)
  | _ => none

/-- What `post` hands to `port.postMessage`, with the errors of the hooks. -/
def post (plaintexts : List String) (msg : JsValue) : JsValue × List String :=
  runOnPost (buildPluginDescriptors.filterMap (hookOf plaintexts)) msg

theorem post_eq_onPost (plaintexts : List String) (msg : JsValue) :
    post plaintexts msg = (onPost plaintexts msg, []) := rfl

/-! ## The strings of a value -/

mutual
/-- The string values and the property names, at any depth. -/
def strings : JsValue → List String
  | .string s => [s]
  | .array items => stringsOfItems items
  | .object fields => stringsOfFields fields
  | .builtin fields => stringsOfFields fields
  | _ => []

def stringsOfItems : List JsValue → List String
  | [] => []
  | v :: items => strings v ++ stringsOfItems items

def stringsOfFields : List (String × JsValue) → List String
  | [] => []
  | (k, v) :: fields => k :: (strings v ++ stringsOfFields fields)
end

mutual
/-- The property names that a walk copies. -/
def propertyNames : JsValue → List String
  | .array items => namesOfItems items
  | .object fields => namesOfFields fields
  | .builtin fields => namesOfFields fields
  | _ => []

def namesOfItems : List JsValue → List String
  | [] => []
  | v :: items => propertyNames v ++ namesOfItems items

def namesOfFields : List (String × JsValue) → List String
  | [] => []
  | (k, v) :: fields =>
    if k = "__proto__" then namesOfFields fields else k :: (propertyNames v ++ namesOfFields fields)
end

mutual
/-- No reference cycle. -/
def Acyclic : JsValue → Bool
  | .cycle => false
  | .array items => acyclicItems items
  | .object fields => acyclicFields fields
  | .builtin fields => acyclicFields fields
  | _ => true

def acyclicItems : List JsValue → Bool
  | [] => true
  | v :: items => Acyclic v && acyclicItems items

def acyclicFields : List (String × JsValue) → Bool
  | [] => true
  | (_, v) :: fields => Acyclic v && acyclicFields fields
end

mutual
theorem isSome_walkStrings (f : String → String) : ∀ v, (walkStrings f v).isSome = Acyclic v
  | .undefined | .null | .bool _ | .number _ | .negZero | .nonFinite | .bigint _ | .string _ | .date _
  | .cycle => rfl
  | .array items => by
    rw [walkStrings, Option.isSome_map, Acyclic]
    exact isSome_walkItems f items
  | .object fields => by
    rw [walkStrings, Option.isSome_map, Acyclic]
    exact isSome_walkEntries f fields
  | .builtin fields => by
    rw [walkStrings, Option.isSome_map, Acyclic]
    exact isSome_walkEntries f fields

theorem isSome_walkItems (f : String → String) : ∀ items, (walkItems f items).isSome = acyclicItems items
  | [] => rfl
  | v :: items => by
    have hv := isSome_walkStrings f v
    rw [walkItems, acyclicItems, ← hv]
    split
    · rename_i h
      simp [h]
    · rename_i w h
      rw [Option.isSome_map, isSome_walkItems f items]
      simp [h]

theorem isSome_walkEntries (f : String → String) :
    ∀ fields, (walkEntries f fields).isSome = acyclicFields fields
  | [] => rfl
  | (k, v) :: fields => by
    have hv := isSome_walkStrings f v
    rw [walkEntries, acyclicFields, ← hv]
    split
    · rename_i h
      simp [h]
    · rename_i w h
      rw [Option.isSome_map, isSome_walkEntries f fields]
      simp [h]
end

mutual
/-- A walk copies the property names and gives every other string through `transform`. -/
theorem mem_strings_walk (f : String → String) : ∀ v w, walkStrings f v = some w → ∀ s,
    (s ∈ strings w → s ∈ propertyNames v ∨ ∃ t, s = f t) ∧ (s ∈ propertyNames v → s ∈ strings w)
  | .string t, w, h, s => by
    obtain rfl := Option.some.inj h
    refine ⟨?_, by simp [propertyNames]⟩
    intro hs
    exact Or.inr ⟨t, by simpa [strings] using hs⟩
  | .undefined, w, h, s | .null, w, h, s | .bool _, w, h, s | .number _, w, h, s | .negZero, w, h, s
  | .nonFinite, w, h, s | .bigint _, w, h, s | .date _, w, h, s => by
    obtain rfl := Option.some.inj h
    simp [strings, stringsOfFields, propertyNames]
  | .cycle, w, h, s => by cases h
  | .array items, w, h, s => by
    obtain ⟨items', hitems, rfl⟩ := Option.map_eq_some_iff.mp h
    exact mem_strings_walkItems f items items' hitems s
  | .object fields, w, h, s => by
    obtain ⟨fields', hfields, rfl⟩ := Option.map_eq_some_iff.mp h
    exact mem_strings_walkEntries f fields fields' hfields s
  | .builtin fields, w, h, s => by
    obtain ⟨fields', hfields, rfl⟩ := Option.map_eq_some_iff.mp h
    exact mem_strings_walkEntries f fields fields' hfields s

theorem mem_strings_walkItems (f : String → String) : ∀ items items', walkItems f items = some items' →
    ∀ s, (s ∈ stringsOfItems items' → s ∈ namesOfItems items ∨ ∃ t, s = f t) ∧
      (s ∈ namesOfItems items → s ∈ stringsOfItems items')
  | [], items', h, s => by
    obtain rfl := Option.some.inj h
    simp [stringsOfItems, namesOfItems]
  | v :: items, items', h, s => by
    rw [walkItems] at h
    split at h
    · cases h
    · rename_i w hw
      obtain ⟨rest, hrest, rfl⟩ := Option.map_eq_some_iff.mp h
      have hhead := mem_strings_walk f v w hw s
      have htail := mem_strings_walkItems f items rest hrest s
      simp only [stringsOfItems, namesOfItems, List.mem_append]
      constructor
      · rintro (hs | hs)
        · exact (hhead.1 hs).imp_left Or.inl
        · exact (htail.1 hs).imp_left Or.inr
      · exact Or.imp hhead.2 htail.2

theorem mem_strings_walkEntries (f : String → String) : ∀ fields fields',
    walkEntries f fields = some fields' →
    ∀ s, (s ∈ stringsOfFields fields' → s ∈ namesOfFields fields ∨ ∃ t, s = f t) ∧
      (s ∈ namesOfFields fields → s ∈ stringsOfFields fields')
  | [], fields', h, s => by
    obtain rfl := Option.some.inj h
    simp [stringsOfFields, namesOfFields]
  | (k, v) :: fields, fields', h, s => by
    rw [walkEntries] at h
    split at h
    · cases h
    · rename_i w hw
      obtain ⟨rest, hrest, rfl⟩ := Option.map_eq_some_iff.mp h
      have hhead := mem_strings_walk f v w hw s
      have htail := mem_strings_walkEntries f fields rest hrest s
      rw [namesOfFields]
      split
      · exact htail
      · simp only [stringsOfFields, List.mem_cons, List.mem_append]
        constructor
        · rintro (hs | hs | hs)
          · exact Or.inl (Or.inl hs)
          · exact (hhead.1 hs).imp_left fun h => Or.inr (Or.inl h)
          · exact (htail.1 hs).imp_left fun h => Or.inr (Or.inr h)
        · exact Or.imp_right (Or.imp hhead.2 htail.2)
end

/-! ## What leaves the worker -/

/-- A string that went through the scrubber holds no plaintext that shares no character with the
replacement text, however the plaintexts overlap. -/
theorem intact_scrubString {plaintexts : List String}
    (hdis : ∀ p ∈ plaintexts, ∀ c ∈ p.toList, c ∉ "[secret]".toList) (s : String) :
    Intact plaintexts (scrubString plaintexts s) := by
  intro p hp hne
  rw [scrubString, String.toList_ofList]
  exact not_includes_replaceEach (by decide) _ (List.mem_map_of_mem hp)
    ((toList_ne_nil_iff p).mpr hne) (hdis p hp) s.toList

/-- A message without a reference cycle leaves the worker clean exactly when no plaintext occurs in
one of its property names. -/
theorem posted_clean_iff (store added : List String)
    (hdis : ∀ p ∈ activePlaintexts store added, ∀ c ∈ p.toList, c ∉ "[secret]".toList)
    (msg : JsValue) (hmsg : Acyclic msg = true) :
    (∀ s ∈ strings (post (activePlaintexts store added) msg).1, ∀ p, p ≠ "" → p ∈ store ∨ p ∈ added →
        includes p.toList s.toList = false) ↔
      ∀ s ∈ propertyNames msg, ∀ p, p ≠ "" → p ∈ store ∨ p ∈ added →
        includes p.toList s.toList = false := by
  have hintact : ∀ s, (∀ p, p ≠ "" → p ∈ store ∨ p ∈ added → includes p.toList s.toList = false) ↔
      Intact (activePlaintexts store added) s := by
    intro s
    constructor
    · intro h p hp hne
      exact h p hne ((mem_activePlaintexts store added p).mp hp).2
    · intro h p hne hp
      exact h p ((mem_activePlaintexts store added p).mpr ⟨hne, hp⟩) hne
  simp only [hintact, post_eq_onPost, onPost]
  split
  · rename_i hnil
    simp [hnil, intact_nil]
  · have hsome : (walkStrings (scrubString (activePlaintexts store added)) msg).isSome = true := by
      rw [isSome_walkStrings, hmsg]
    obtain ⟨w, hw⟩ := Option.isSome_iff_exists.mp hsome
    rw [hw, Option.getD_some]
    have hmem := mem_strings_walk _ msg w hw
    constructor
    · intro h s hs
      exact h s ((hmem s).2 hs)
    · intro h s hs
      rcases (hmem s).1 hs with hname | ⟨t, rfl⟩
      · exact h s hname
      · exact intact_scrubString hdis t

/-- A log entry whose payload uses a plaintext as a property name. -/
def namedBySecret : JsValue :=
  .object [("type", .string "log"), ("level", .string "info"), ("message", .string "uploaded"),
    ("meta", .object [("qumbo", .bool true)])]

theorem posted_clean_iff_namedBySecret :
    ¬ ∀ s ∈ strings (post (activePlaintexts ["qumbo"] []) namedBySecret).1, ∀ p, p ≠ "" →
      p ∈ ["qumbo"] ∨ p ∈ ([] : List String) → includes p.toList s.toList = false := by
  rw [posted_clean_iff ["qumbo"] [] ?hdis namedBySecret rfl]
  case hdis =>
    intro p hp
    obtain rfl : p = "qumbo" := by simpa using ((mem_activePlaintexts _ _ _).mp hp).2
    simp
  intro h
  have hname := h "qumbo" (by decide) "qumbo" (by decide) (by simp)
  revert hname
  decide

theorem posted_not_clean :
    ¬ ∀ (store added : List String) (msg : JsValue),
      (∀ p ∈ activePlaintexts store added, ∀ c ∈ p.toList, c ∉ "[secret]".toList) →
      Acyclic msg = true →
      ∀ s ∈ strings (post (activePlaintexts store added) msg).1, ∀ p, p ≠ "" →
        p ∈ store ∨ p ∈ added → includes p.toList s.toList = false := by
  intro h
  have hdis : ∀ p ∈ activePlaintexts ["qumbo"] [], ∀ c ∈ p.toList, c ∉ "[secret]".toList := by
    intro p hp
    obtain rfl : p = "qumbo" := by simpa using ((mem_activePlaintexts _ _ _).mp hp).2
    simp
  have hsome : (walkStrings (scrubString (activePlaintexts ["qumbo"] [])) namedBySecret).isSome = true :=
    isSome_walkStrings _ _
  obtain ⟨w, hw⟩ := Option.isSome_iff_exists.mp hsome
  have hpost : (post (activePlaintexts ["qumbo"] []) namedBySecret).1 = w := by
    rw [post_eq_onPost, onPost, hw]
    have hne : activePlaintexts ["qumbo"] [] ≠ [] :=
      List.ne_nil_of_mem ((mem_activePlaintexts ["qumbo"] [] "qumbo").mpr ⟨by decide, by simp⟩)
    simp [hne]
  have hname : "qumbo" ∈ strings (post (activePlaintexts ["qumbo"] []) namedBySecret).1 := by
    rw [hpost]
    exact (mem_strings_walk _ _ _ hw "qumbo").2 (by decide)
  have hclean := h ["qumbo"] [] namedBySecret hdis rfl "qumbo" hname "qumbo" (by decide) (by simp)
  revert hclean
  decide

end WorkflowEngine.Runtime.SecretsPlugin
