import Mathlib.Data.List.Nodup
import Mathlib.Data.List.Basic
import Mathlib.Data.List.Dedup
import Mathlib.Data.List.Perm.Basic

/-!
# Insertion-ordered finite maps

The `Map` of JavaScript: iteration follows insertion order, `set` on a present
key keeps its position, `delete` followed by `set` moves a key to the end.
Mathlib's `AList` moves a re-inserted key to the front, so it is not used.
Keys are distinct by construction.
-/

namespace WorkflowEngine.Lib

set_option autoImplicit false

universe u v

structure OrderedMap (κ : Type u) (ν : Type v) where
  entries : List (κ × ν)
  nodup : (entries.map Prod.fst).Nodup

namespace OrderedMap

variable {κ : Type u} {ν : Type v}

theorem ext_entries {m n : OrderedMap κ ν} (h : m.entries = n.entries) : m = n := by
  cases m
  cases n
  cases h
  rfl

instance [DecidableEq κ] [DecidableEq ν] : DecidableEq (OrderedMap κ ν) := fun m n =>
  decidable_of_iff (m.entries = n.entries) ⟨ext_entries, fun h => h ▸ rfl⟩

def empty : OrderedMap κ ν := ⟨[], List.nodup_nil⟩

instance : Inhabited (OrderedMap κ ν) := ⟨empty⟩

def keys (m : OrderedMap κ ν) : List κ := m.entries.map Prod.fst

def values (m : OrderedMap κ ν) : List ν := m.entries.map Prod.snd

def size (m : OrderedMap κ ν) : Nat := m.entries.length

@[simp] theorem entries_empty : (empty : OrderedMap κ ν).entries = [] := rfl

theorem entries_nodup (m : OrderedMap κ ν) : m.entries.Nodup := m.nodup.of_map _

section Lookup
variable [DecidableEq κ]

/-- `map.get(key)`; `undefined` is `none`. -/
def get? (m : OrderedMap κ ν) (k : κ) : Option ν :=
  (m.entries.find? fun e => e.1 = k).map Prod.snd

/-- `map.has(key)`. -/
def has (m : OrderedMap κ ν) (k : κ) : Bool := (m.get? k).isSome

theorem get?_eq_some_iff (m : OrderedMap κ ν) (k : κ) (v : ν) :
    m.get? k = some v ↔ (k, v) ∈ m.entries := by
  constructor
  · intro h
    obtain ⟨e, he, rfl⟩ := Option.map_eq_some_iff.mp h
    have hk : e.1 = k := by simpa using List.find?_some he
    exact hk ▸ List.mem_of_find?_eq_some he
  · intro h
    cases hf : m.entries.find? (fun e => e.1 = k) with
    | none =>
      have hne := List.find?_eq_none.mp hf (k, v) h
      simp at hne
    | some e =>
      have hk : e.1 = k := by simpa using List.find?_some hf
      have he := List.inj_on_of_nodup_map m.nodup (List.mem_of_find?_eq_some hf) h hk
      simp [get?, hf, he]

theorem mem_values_of_get? {m : OrderedMap κ ν} {k : κ} {v : ν} (h : m.get? k = some v) : v ∈ m.values :=
  List.mem_map.mpr ⟨(k, v), (m.get?_eq_some_iff k v).mp h, rfl⟩

theorem get?_eq_none_iff (m : OrderedMap κ ν) (k : κ) : m.get? k = none ↔ k ∉ m.keys := by
  simp only [get?, Option.map_eq_none_iff, List.find?_eq_none, decide_eq_true_eq, keys, List.mem_map]
  exact ⟨fun h ⟨e, he, hk⟩ => h e he hk, fun h e he hk => h ⟨e, he, hk⟩⟩

@[simp] theorem get?_empty (k : κ) : (empty : OrderedMap κ ν).get? k = none := rfl

end Lookup

section Update
variable [DecidableEq κ]

/-- `map.delete(key)`. -/
def delete (m : OrderedMap κ ν) (k : κ) : OrderedMap κ ν where
  entries := m.entries.filter fun e => e.1 ≠ k
  nodup := m.nodup.sublist (List.filter_sublist.map Prod.fst)

theorem map_fst_replace (k : κ) (v : ν) (es : List (κ × ν)) :
    (es.map fun e => if e.1 = k then (e.1, v) else e).map Prod.fst = es.map Prod.fst := by
  rw [List.map_map]
  apply List.map_congr_left
  intro e _
  by_cases h : e.1 = k <;> simp [h]

/-- `map.set(key, value)`: a present key keeps its place, a new one goes to the end. -/
def set (m : OrderedMap κ ν) (k : κ) (v : ν) : OrderedMap κ ν :=
  if h : k ∈ m.keys then
    { entries := m.entries.map fun e => if e.1 = k then (e.1, v) else e
      nodup := by rw [map_fst_replace]; exact m.nodup }
  else
    { entries := m.entries ++ [(k, v)]
      nodup := by
        rw [List.map_append]
        exact List.nodup_append'.mpr ⟨m.nodup, by simp, by simpa [keys] using h⟩ }

@[simp] theorem entries_delete (m : OrderedMap κ ν) (k : κ) :
    (m.delete k).entries = m.entries.filter fun e => e.1 ≠ k := rfl

theorem mem_entries_delete (m : OrderedMap κ ν) (k : κ) (e : κ × ν) :
    e ∈ (m.delete k).entries ↔ e ∈ m.entries ∧ e.1 ≠ k := by
  simp [List.mem_filter]

theorem get?_delete (m : OrderedMap κ ν) (k j : κ) :
    (m.delete k).get? j = if j = k then none else m.get? j := by
  apply Option.ext
  intro v
  rw [get?_eq_some_iff, mem_entries_delete]
  by_cases h : j = k
  · simp [h]
  · simp [h, get?_eq_some_iff]

@[simp] theorem get?_delete_self (m : OrderedMap κ ν) (k : κ) : (m.delete k).get? k = none := by
  simp [get?_delete]

theorem get?_delete_of_ne (m : OrderedMap κ ν) {k j : κ} (h : j ≠ k) :
    (m.delete k).get? j = m.get? j := by
  simp [get?_delete, h]

theorem delete_of_get?_none (m : OrderedMap κ ν) (k : κ) (h : m.get? k = none) :
    m.delete k = m := by
  apply ext_entries
  rw [entries_delete, List.filter_eq_self]
  intro e he
  have hk := (m.get?_eq_none_iff k).mp h
  simp only [ne_eq, decide_not, Bool.not_eq_eq_eq_not, Bool.not_true, decide_eq_false_iff_not]
  exact fun hek => hk (List.mem_map.mpr ⟨e, he, hek⟩)

theorem entries_set_of_get?_none (m : OrderedMap κ ν) (k : κ) (v : ν) (h : m.get? k = none) :
    (m.set k v).entries = m.entries ++ [(k, v)] := by
  have hk := (m.get?_eq_none_iff k).mp h
  simp [set, hk]

theorem mem_entries_set (m : OrderedMap κ ν) (k : κ) (v : ν) (e : κ × ν) :
    e ∈ (m.set k v).entries ↔ e = (k, v) ∨ (e ∈ m.entries ∧ e.1 ≠ k) := by
  by_cases hk : k ∈ m.keys
  · simp only [set, dif_pos hk, List.mem_map]
    constructor
    · rintro ⟨x, hx, rfl⟩
      by_cases hxk : x.1 = k
      · simp [hxk]
      · simp [hxk, hx]
    · rintro (rfl | ⟨he, hne⟩)
      · obtain ⟨x, hx, hxk⟩ := List.mem_map.mp hk
        exact ⟨x, hx, by simp [hxk]⟩
      · exact ⟨e, he, by simp [hne]⟩
  · simp only [set, dif_neg hk, List.mem_append, List.mem_singleton]
    constructor
    · rintro (he | rfl)
      · exact Or.inr ⟨he, fun h => hk (List.mem_map.mpr ⟨e, he, h⟩)⟩
      · exact Or.inl rfl
    · rintro (rfl | ⟨he, _⟩)
      · exact Or.inr rfl
      · exact Or.inl he

theorem get?_set (m : OrderedMap κ ν) (k : κ) (v : ν) (j : κ) :
    (m.set k v).get? j = if j = k then some v else m.get? j := by
  apply Option.ext
  intro w
  rw [get?_eq_some_iff, mem_entries_set]
  by_cases h : j = k
  · subst h
    simp [eq_comm]
  · simp [h, get?_eq_some_iff]

theorem get?_set_cases {m : OrderedMap κ ν} {k j : κ} {v x : ν} (h : (m.set k v).get? j = some x) :
    (j = k ∧ x = v) ∨ (j ≠ k ∧ m.get? j = some x) := by
  rw [get?_set] at h
  split at h
  · rename_i hj
    cases h
    exact Or.inl ⟨hj, rfl⟩
  · rename_i hj
    exact Or.inr ⟨hj, h⟩

@[simp] theorem get?_set_self (m : OrderedMap κ ν) (k : κ) (v : ν) : (m.set k v).get? k = some v := by
  simp [get?_set]

theorem get?_set_of_ne (m : OrderedMap κ ν) (k : κ) (v : ν) {j : κ} (h : j ≠ k) :
    (m.set k v).get? j = m.get? j := by
  simp [get?_set, h]

theorem mem_keys_set (m : OrderedMap κ ν) (k : κ) (v : ν) (j : κ) :
    j ∈ (m.set k v).keys ↔ j = k ∨ j ∈ m.keys := by
  rw [← not_iff_not, not_or, ← get?_eq_none_iff, ← get?_eq_none_iff, get?_set]
  by_cases h : j = k <;> simp [h]

theorem mem_keys_delete (m : OrderedMap κ ν) (k j : κ) :
    j ∈ (m.delete k).keys ↔ j ≠ k ∧ j ∈ m.keys := by
  rw [← not_iff_not, not_and_or, ← get?_eq_none_iff, ← get?_eq_none_iff, get?_delete]
  by_cases h : j = k <;> simp [h]

theorem delete_set_self (m : OrderedMap κ ν) (k : κ) (v : ν) : (m.set k v).delete k = m.delete k := by
  apply ext_entries
  by_cases hk : k ∈ m.keys
  · simp only [entries_delete, set, dif_pos hk]
    induction m.entries with
    | nil => rfl
    | cons e es ih => by_cases he : e.1 = k <;> simpa [he] using ih
  · simp [set, dif_neg hk]

theorem perm_entries_delete (m : OrderedMap κ ν) {k : κ} {v : ν} (h : m.get? k = some v) :
    m.entries.Perm ((k, v) :: (m.delete k).entries) := by
  have hnot : (k, v) ∉ (m.delete k).entries := by simp
  refine (List.perm_ext_iff_of_nodup m.entries_nodup
    (List.nodup_cons.mpr ⟨hnot, (m.delete k).entries_nodup⟩)).mpr ?_
  intro e
  rw [List.mem_cons, mem_entries_delete]
  constructor
  · intro he
    by_cases hk : e.1 = k
    · have hv := (m.get?_eq_some_iff e.1 e.2).mpr he
      rw [hk, h, Option.some.injEq] at hv
      exact Or.inl (by rw [← hk, hv])
    · exact Or.inr ⟨he, hk⟩
  · rintro (rfl | ⟨he, _⟩)
    · exact (m.get?_eq_some_iff k v).mp h
    · exact he

theorem perm_entries_set (m : OrderedMap κ ν) (k : κ) (v : ν) :
    (m.set k v).entries.Perm ((k, v) :: (m.delete k).entries) := by
  have h := (m.set k v).perm_entries_delete (m.get?_set_self k v)
  rwa [delete_set_self] at h

theorem perm_values_delete (m : OrderedMap κ ν) {k : κ} {v : ν} (h : m.get? k = some v) :
    m.values.Perm (v :: (m.delete k).values) :=
  (m.perm_entries_delete h).map Prod.snd

/-- `delete` and `set` of one key: it moves to the end. -/
theorem entries_set_delete (m : OrderedMap κ ν) (k : κ) (v : ν) :
    ((m.delete k).set k v).entries = (m.delete k).entries ++ [(k, v)] :=
  entries_set_of_get?_none _ k v (m.get?_delete_self k)

/-- The entries whose key satisfies `p`. -/
def filterKeys (p : κ → Bool) (m : OrderedMap κ ν) : OrderedMap κ ν where
  entries := m.entries.filter fun e => p e.1
  nodup := m.nodup.sublist (List.filter_sublist.map Prod.fst)

theorem get?_filterKeys (p : κ → Bool) (m : OrderedMap κ ν) (k : κ) :
    (m.filterKeys p).get? k = if p k then m.get? k else none := by
  apply Option.ext
  intro v
  rw [get?_eq_some_iff, filterKeys, List.mem_filter]
  by_cases h : p k = true
  · simp [h, get?_eq_some_iff]
  · simp [h]

/-- The same keys, in order, with other values. -/
def mapValues {μ : Type*} (f : ν → μ) (m : OrderedMap κ ν) : OrderedMap κ μ where
  entries := m.entries.map fun e => (e.1, f e.2)
  nodup := by
    rw [List.map_map]
    exact m.nodup

theorem get?_mapValues {μ : Type*} (f : ν → μ) (m : OrderedMap κ ν) (k : κ) :
    (m.mapValues f).get? k = (m.get? k).map f := by
  unfold get? mapValues
  rw [List.find?_map, Option.map_map, Option.map_map]
  rfl

/-- A map filled in a loop, key by key: the last turn for the key counts. -/
theorem get?_foldl_set_eq {ι : Type*} (key : ι → κ) (val : ι → ν) (xs : List ι)
    (m : OrderedMap κ ν) (k : κ) :
    (xs.foldl (fun m x => m.set (key x) (val x)) m).get? k =
      ((xs.filter fun x => key x = k).getLast?.map val).or (m.get? k) := by
  induction xs generalizing m with
  | nil => rfl
  | cons x xs ih =>
    rw [List.foldl_cons, ih, get?_set]
    by_cases hk : key x = k
    · rw [List.filter_cons_of_pos (by simpa using hk), List.getLast?_cons, if_pos hk.symm]
      cases (xs.filter fun x => key x = k).getLast? with
      | none => rfl
      | some y => rfl
    · rw [List.filter_cons_of_neg (by simpa using hk), if_neg (Ne.symm hk)]

/-- A map filled in a loop over distinct keys. -/
theorem get?_foldl_set {ι : Type*} (key : ι → κ) (val : ι → ν) (xs : List ι) (h : (xs.map key).Nodup)
    (m : OrderedMap κ ν) (k : κ) (v : ν) :
    (xs.foldl (fun m x => m.set (key x) (val x)) m).get? k = some v ↔
      (∃ x ∈ xs, key x = k ∧ val x = v) ∨ (k ∉ xs.map key ∧ m.get? k = some v) := by
  induction xs generalizing m with
  | nil => simp
  | cons x xs ih =>
    rw [List.map_cons, List.nodup_cons] at h
    rw [List.foldl_cons, ih h.2, get?_set]
    by_cases hk : k = key x
    · subst hk
      have hnot : ¬ ∃ y ∈ xs, key y = key x ∧ val y = v := by
        rintro ⟨y, hy, hkey, _⟩
        exact h.1 (hkey ▸ List.mem_map_of_mem hy)
      simp [hnot, h.1]
    · simp [hk, Ne.symm hk]

/-- A map filled in a loop: the last entry of a key counts. -/
theorem get?_foldl_set_last {ι : Type*} (key : ι → κ) (val : ι → ν) (before after : List ι) (x : ι)
    (h : ∀ y ∈ after, key y ≠ key x) (m : OrderedMap κ ν) :
    ((before ++ x :: after).foldl (fun m x => m.set (key x) (val x)) m).get? (key x) =
      some (val x) := by
  rw [List.foldl_append, List.foldl_cons]
  generalize before.foldl (fun m x => m.set (key x) (val x)) m = m
  have hkeep : ∀ (ys : List ι), (∀ y ∈ ys, key y ≠ key x) → ∀ m : OrderedMap κ ν,
      (ys.foldl (fun m x => m.set (key x) (val x)) m).get? (key x) = m.get? (key x) := by
    intro ys
    induction ys with
    | nil =>
      intro _ m
      rfl
    | cons y ys ih =>
      intro hy m
      rw [List.foldl_cons, ih (fun z hz => hy z (List.mem_cons_of_mem y hz)),
        get?_set_of_ne _ _ _ (Ne.symm (hy y List.mem_cons_self))]
  rw [hkeep after h, get?_set_self]

theorem entries_foldl_set_of_nodup {ι : Type*} (key : ι → κ) (val : ι → ν) (xs : List ι)
    (m : OrderedMap κ ν) (h : (xs.map key).Nodup) (hm : ∀ x ∈ xs, m.get? (key x) = none) :
    (xs.foldl (fun m x => m.set (key x) (val x)) m).entries =
      m.entries ++ xs.map fun x => (key x, val x) := by
  induction xs generalizing m with
  | nil => simp
  | cons x xs ih =>
    rw [List.map_cons, List.nodup_cons] at h
    rw [List.foldl_cons, ih _ h.2, entries_set_of_get?_none _ _ _ (hm x List.mem_cons_self)]
    · simp
    · intro y hy
      have hne : key y ≠ key x := by
        intro heq
        exact h.1 (heq ▸ List.mem_map_of_mem hy)
      rw [get?_set_of_ne _ _ _ hne]
      exact hm y (List.mem_cons_of_mem x hy)

/-- What a loop leaves under a key is from its last turn for the key, or was there before. -/
theorem split_of_get?_foldl_set {ι : Type*} (key : ι → κ) (val : ι → ν) (xs : List ι)
    {m : OrderedMap κ ν} {k : κ} {v : ν}
    (h : (xs.foldl (fun m x => m.set (key x) (val x)) m).get? k = some v) :
    (∃ before x after, xs = before ++ x :: after ∧ key x = k ∧ val x = v ∧
      ∀ y ∈ after, key y ≠ k) ∨ ((∀ y ∈ xs, key y ≠ k) ∧ m.get? k = some v) := by
  induction xs generalizing m with
  | nil => exact Or.inr ⟨by simp, h⟩
  | cons x xs ih =>
    rcases ih h with ⟨before, y, after, rfl, hk, hv, hafter⟩ | ⟨hnone, hm⟩
    · exact Or.inl ⟨x :: before, y, after, rfl, hk, hv, hafter⟩
    · rw [get?_set] at hm
      split at hm
      · rename_i hk
        exact Or.inl ⟨[], x, xs, rfl, hk.symm, Option.some.inj hm, hnone⟩
      · rename_i hk
        refine Or.inr ⟨?_, hm⟩
        intro y hy
        rcases List.mem_cons.mp hy with rfl | hy
        · exact Ne.symm hk
        · exact hnone y hy

theorem mem_of_get?_foldl_set {ι : Type*} (key : ι → κ) (val : ι → ν) (xs : List ι)
    {m : OrderedMap κ ν} {k : κ} {v : ν}
    (h : (xs.foldl (fun m x => m.set (key x) (val x)) m).get? k = some v) :
    (∃ x ∈ xs, key x = k ∧ val x = v) ∨ m.get? k = some v := by
  rcases split_of_get?_foldl_set key val xs h with ⟨before, x, after, rfl, hk, hv, _⟩ | ⟨_, hm⟩
  · exact Or.inl ⟨x, by simp, hk, hv⟩
  · exact Or.inr hm

theorem mem_keys_foldl_set {ι : Type*} (key : ι → κ) (val : ι → ν) (xs : List ι)
    (m : OrderedMap κ ν) (k : κ) :
    k ∈ (xs.foldl (fun m x => m.set (key x) (val x)) m).keys ↔ k ∈ xs.map key ∨ k ∈ m.keys := by
  induction xs generalizing m with
  | nil => simp
  | cons x xs ih =>
    have hset : k ∈ (m.set (key x) (val x)).keys ↔ k = key x ∨ k ∈ m.keys := by
      have hnone := get?_eq_none_iff (m.set (key x) (val x)) k
      have hnone' := get?_eq_none_iff m k
      rw [get?_set] at hnone
      by_cases hk : k = key x
      · simp only [hk, if_true, reduceCtorEq, false_iff, not_not] at hnone
        simp [hk, hnone]
      · rw [if_neg hk, hnone', not_iff_not] at hnone
        simp [hk, hnone]
    rw [List.foldl_cons, ih, hset, List.map_cons, List.mem_cons]
    tauto

/-- A loop whose keys tell its turns apart leaves every turn's value under its key. -/
theorem get?_foldl_set_of_injOn {ι : Type*} (key : ι → κ) (val : ι → ν) (xs : List ι)
    (h : ∀ x ∈ xs, ∀ y ∈ xs, key x = key y → x = y) {x : ι} (hx : x ∈ xs) :
    (xs.foldl (fun m x => m.set (key x) (val x)) empty).get? (key x) = some (val x) := by
  cases hget : (xs.foldl (fun m x => m.set (key x) (val x)) empty).get? (key x) with
  | none =>
    rw [get?_eq_none_iff, mem_keys_foldl_set] at hget
    exact absurd (Or.inl (List.mem_map_of_mem hx)) hget
  | some v =>
    rcases mem_of_get?_foldl_set key val xs hget with ⟨y, hy, hkey, rfl⟩ | hm
    · rw [h y hy x hx hkey]
    · simp at hm

theorem get?_of_mem_values {m : OrderedMap κ ν} {v : ν} (h : v ∈ m.values) :
    ∃ k, m.get? k = some v := by
  obtain ⟨e, he, rfl⟩ := List.mem_map.mp h
  exact ⟨e.1, (get?_eq_some_iff m e.1 e.2).mpr he⟩

/-- A map filled in a loop from nothing has one entry for each turn exactly when the keys differ. -/
theorem size_foldl_set_eq_iff {ι : Type*} (key : ι → κ) (val : ι → ν) (xs : List ι) :
    (xs.foldl (fun m x => m.set (key x) (val x)) empty).size = xs.length ↔
      (xs.map key).Nodup := by
  have hperm : ((xs.foldl (fun m x => m.set (key x) (val x)) empty).keys).Perm
      (xs.map key).dedup := by
    refine (List.perm_ext_iff_of_nodup (nodup _) (List.nodup_dedup _)).mpr ?_
    intro k
    rw [← keys, mem_keys_foldl_set, List.mem_dedup]
    simp [keys]
  have hsize : (xs.foldl (fun m x => m.set (key x) (val x)) empty).size =
      (xs.map key).dedup.length := by
    rw [← hperm.length_eq, keys, List.length_map, size]
  rw [hsize, ← List.length_map key, ← List.dedup_eq_self]
  constructor
  · intro h
    exact (List.dedup_sublist _).eq_of_length h
  · intro h
    rw [h]

end Update

end OrderedMap

end WorkflowEngine.Lib
