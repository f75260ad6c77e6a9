import Mathlib.Data.List.Sort

/-!
# The first rows of a table

`ORDER BY r LIMIT n` over a list: the rows in the order of `r`, ties as they stand,
cut after `n`. Rows that a condition excludes take no place from the others when the
condition comes before the cut, and may take one when it comes after.
-/

namespace WorkflowEngine.Lib

set_option autoImplicit false

universe u

variable {α : Type u} (r : α → α → Prop) [DecidableRel r]

def firstRows (n : Nat) (xs : List α) : List α := (xs.insertionSort r).take n

variable {r} in
theorem mem_of_mem_firstRows {n : Nat} {xs : List α} {x : α} (h : x ∈ firstRows r n xs) : x ∈ xs :=
  (List.mem_insertionSort r).mp (List.mem_of_mem_take h)

/-! ### A condition before the cut and after it -/

theorem prefix_filter_take (p : α → Bool) (n : Nat) (xs : List α) :
    (xs.take n).filter p <+: (xs.filter p).take n := by
  induction xs generalizing n with
  | nil => simp
  | cons x xs ih =>
    cases n with
    | zero => simp
    | succ n =>
      rw [List.take_succ_cons]
      by_cases hx : p x = true
      · rw [List.filter_cons_of_pos hx, List.filter_cons_of_pos hx, List.take_succ_cons,
          List.prefix_cons_inj]
        exact ih n
      · rw [List.filter_cons_of_neg hx, List.filter_cons_of_neg hx]
        exact (ih n).trans (List.take_prefix_take_left (Nat.le_succ n))

theorem orderedInsert_of_forall_rel {a : α} {xs : List α} (h : ∀ x ∈ xs, r a x) :
    xs.orderedInsert r a = a :: xs := by
  cases xs with
  | nil => rfl
  | cons x xs => exact List.orderedInsert_cons_of_le r xs (h x List.mem_cons_self)

theorem filter_orderedInsert_of_neg {p : α → Bool} {a : α} (ha : p a = false) (xs : List α) :
    (xs.orderedInsert r a).filter p = xs.filter p := by
  induction xs with
  | nil => simp [ha]
  | cons x xs ih =>
    by_cases hax : r a x
    · rw [List.orderedInsert_cons_of_le r xs hax, List.filter_cons_of_neg (by simp [ha])]
    · rw [List.orderedInsert_of_not_le r xs hax, List.filter_cons, List.filter_cons, ih]

variable [IsTrans α r]

theorem filter_orderedInsert_of_pos {p : α → Bool} {a : α} (ha : p a = true) {xs : List α}
    (h : xs.Pairwise r) : (xs.orderedInsert r a).filter p = (xs.filter p).orderedInsert r a := by
  induction xs with
  | nil => simp [ha]
  | cons x xs ih =>
    obtain ⟨hx, hxs⟩ := List.pairwise_cons.mp h
    by_cases hax : r a x
    · rw [List.orderedInsert_cons_of_le r xs hax, List.filter_cons_of_pos ha]
      -- `a` stands before all of `x :: xs`, so also before what is left of it
      symm
      apply orderedInsert_of_forall_rel
      intro y hy
      rcases List.mem_cons.mp (List.mem_of_mem_filter hy) with rfl | hy
      · exact hax
      · exact IsTrans.trans a x y hax (hx y hy)
    · rw [List.orderedInsert_of_not_le r xs hax]
      by_cases hpx : p x = true
      · rw [List.filter_cons_of_pos hpx, List.filter_cons_of_pos hpx, ih hxs,
          List.orderedInsert_of_not_le r _ hax]
      · rw [List.filter_cons_of_neg hpx, List.filter_cons_of_neg hpx, ih hxs]

variable [Std.Total r]

theorem filter_insertionSort (p : α → Bool) (xs : List α) :
    (xs.insertionSort r).filter p = (xs.filter p).insertionSort r := by
  induction xs with
  | nil => rfl
  | cons x xs ih =>
    rw [List.insertionSort_cons]
    by_cases hx : p x = true
    · rw [filter_orderedInsert_of_pos r hx (List.pairwise_insertionSort r xs), ih,
        List.filter_cons_of_pos hx, List.insertionSort_cons]
    · rw [filter_orderedInsert_of_neg r (by simpa using hx), ih, List.filter_cons_of_neg hx]

/-- The rows that a condition leaves of a cut are the first ones of the cut behind the condition. -/
theorem prefix_filter_firstRows (p : α → Bool) (n : Nat) (xs : List α) :
    (firstRows r n xs).filter p <+: firstRows r n (xs.filter p) := by
  unfold firstRows
  rw [← filter_insertionSort]
  exact prefix_filter_take p n _

/-- A row that the cut leaves out has `n` rows before it. -/
theorem full_of_not_mem_firstRows {n : Nat} {xs : List α} {x : α} (hx : x ∈ xs)
    (hcut : x ∉ firstRows r n xs) :
    (firstRows r n xs).length = n ∧ ∀ y ∈ firstRows r n xs, r y x := by
  have hmem : x ∈ xs.insertionSort r := (List.mem_insertionSort r).mpr hx
  have hsplit := List.take_append_drop n (xs.insertionSort r)
  have hdrop : x ∈ (xs.insertionSort r).drop n := by
    rw [← hsplit] at hmem
    exact (List.mem_append.mp hmem).resolve_left hcut
  constructor
  · unfold firstRows
    rw [List.length_take, Nat.min_eq_left]
    by_contra hlt
    rw [List.drop_of_length_le (by omega)] at hdrop
    cases hdrop
  · intro y hy
    have hsorted := List.pairwise_insertionSort r xs
    rw [← hsplit] at hsorted
    exact (List.pairwise_append.mp hsorted).2.2 y hy x hdrop

end WorkflowEngine.Lib
