import WorkflowEngine.Lib.OrderedMap

/-!
# Grouping filled in order

A loop that appends each value to the list under its key, and lists a key when it
first comes up. A bucket holds the values of its key in the order of the input,
and the listed keys are the keys of the input, each once.
-/

namespace WorkflowEngine.Lib

set_option autoImplicit false

universe u v w

structure Grouping (κ : Type u) (ν : Type v) where
  buckets : OrderedMap κ (List ν)
  order : List κ

namespace Grouping

variable {κ : Type u} {ν : Type v} {ι : Type w} [DecidableEq κ]

def empty : Grouping κ ν := ⟨.empty, []⟩

/-- One turn of the loop: a missing bucket is made and its key listed. -/
def push (b : Grouping κ ν) (k : κ) (v : ν) : Grouping κ ν :=
  match b.buckets.get? k with
  | none => ⟨b.buckets.set k [v], b.order ++ [k]⟩
  | some bucket => ⟨b.buckets.set k (bucket ++ [v]), b.order⟩

theorem get?_push (b : Grouping κ ν) (k j : κ) (v : ν) :
    (b.push k v).buckets.get? j =
      if j = k then some ((b.buckets.get? k).getD [] ++ [v]) else b.buckets.get? j := by
  unfold push
  cases h : b.buckets.get? k with
  | none => simp [OrderedMap.get?_set]
  | some bucket => simp [OrderedMap.get?_set]

/-- The keys listed are those that have a bucket. -/
def Listed (b : Grouping κ ν) : Prop := ∀ k, k ∈ b.order ↔ (b.buckets.get? k).isSome = true

theorem listed_empty : (empty : Grouping κ ν).Listed := by
  intro k
  simp [empty]

theorem Listed.push {b : Grouping κ ν} (h : b.Listed) (k : κ) (v : ν) : (b.push k v).Listed := by
  intro j
  rw [get?_push]
  by_cases hj : j = k
  · subst hj
    simp only [if_true, Option.isSome_some, iff_true]
    unfold Grouping.push
    cases hget : b.buckets.get? j with
    | none => simp
    | some bucket => exact (h j).mpr (by rw [hget]; rfl)
  · rw [if_neg hj, ← h j]
    unfold Grouping.push
    cases hget : b.buckets.get? k with
    | none => simp [hj]
    | some bucket => rfl

variable (key : ι → κ) (val : ι → ν)

/-- The values of the key, in order. -/
def valuesOf (xs : List ι) (k : κ) : List ν := (xs.filter fun x => key x = k).map val

variable {key val}

theorem valuesOf_ne_nil_iff {xs : List ι} {k : κ} : valuesOf key val xs k ≠ [] ↔ ∃ x ∈ xs, key x = k := by
  simp [valuesOf, List.filter_eq_nil_iff]

theorem mem_valuesOf {xs : List ι} {k : κ} {v : ν} :
    v ∈ valuesOf key val xs k ↔ ∃ x ∈ xs, key x = k ∧ val x = v := by
  simp [valuesOf, and_assoc]

theorem listed_foldl {b : Grouping κ ν} (h : b.Listed) (xs : List ι) :
    (xs.foldl (fun b x => b.push (key x) (val x)) b).Listed := by
  induction xs generalizing b with
  | nil => exact h
  | cons x xs ih => exact ih (h.push _ _)

theorem get?_foldl (xs : List ι) (b : Grouping κ ν) (k : κ) :
    (xs.foldl (fun b x => b.push (key x) (val x)) b).buckets.get? k =
      if valuesOf key val xs k = [] then b.buckets.get? k
      else some ((b.buckets.get? k).getD [] ++ valuesOf key val xs k) := by
  induction xs generalizing b with
  | nil => simp [valuesOf]
  | cons x xs ih =>
    rw [List.foldl_cons, ih, get?_push]
    by_cases hk : key x = k
    · have hcons : valuesOf key val (x :: xs) k = val x :: valuesOf key val xs k := by simp [valuesOf, hk]
      rw [hcons]
      subst hk
      by_cases hnil : valuesOf key val xs (key x) = []
      · simp [hnil]
      · simp [hnil]
    · have hcons : valuesOf key val (x :: xs) k = valuesOf key val xs k := by simp [valuesOf, hk]
      rw [hcons, if_neg (Ne.symm hk)]

/-- The order in which keys first come up. -/
theorem order_foldl {b : Grouping κ ν} (h : b.Listed) (xs : List ι) :
    (xs.foldl (fun b x => b.push (key x) (val x)) b).order =
      b.order ++ ((xs.map key).filter fun k => k ∉ b.order).eraseDups := by
  induction xs generalizing b with
  | nil => simp
  | cons x xs ih =>
    rw [List.foldl_cons, ih (h.push _ _), List.map_cons, List.filter_cons]
    have hmem := h (key x)
    unfold Grouping.push
    cases hget : b.buckets.get? (key x) with
    | some bucket =>
      have hin : key x ∈ b.order := hmem.mpr (by rw [hget]; rfl)
      simp [hin]
    | none =>
      have hnot : key x ∉ b.order := by
        intro hin
        rw [hmem, hget] at hin
        cases hin
      simp only [hnot, not_false_eq_true, decide_true, if_true, List.eraseDups_cons, List.append_assoc,
        List.singleton_append, List.filter_filter]
      congr 3
      apply List.filter_congr
      intro k _
      by_cases hk : k = key x <;> simp [hk]

end Grouping

end WorkflowEngine.Lib
