import Mathlib.Algebra.BigOperators.Group.Finset.Basic
import Mathlib.Algebra.Order.BigOperators.Group.Finset

/-!
# First-fit rows and stacked groups

An item goes to the first row that has nothing it clashes with. Groups of rows are stacked: the rows of a
group start where those of the groups before it end.
-/

namespace WorkflowEngine.Lib.FirstFit

set_option autoImplicit false

/-! ## Rows -/

section Place
variable {α : Type*} (clash : α → α → Bool) (x : α)

/-- The rows with `x` in them and the row that took it. -/
def place : List (List α) → List (List α) × Nat
  | [] => ([[x]], 0)
  | row :: rows =>
    if row.any (clash x) then (row :: (place rows).1, (place rows).2 + 1) else ((row ++ [x]) :: rows, 0)

/-- The row of a number, empty where there is none. -/
def rowAt (rows : List (List α)) (i : Nat) : List α := rows[i]?.getD []

variable {clash x}

@[simp] theorem rowAt_nil (i : Nat) : rowAt ([] : List (List α)) i = [] := rfl

@[simp] theorem rowAt_cons_zero (row : List α) (rows : List (List α)) : rowAt (row :: rows) 0 = row := rfl

@[simp] theorem rowAt_cons_succ (row : List α) (rows : List (List α)) (i : Nat) :
    rowAt (row :: rows) (i + 1) = rowAt rows i := rfl

/-- One row is longer by the item, the others stay. -/
theorem rowAt_place (rows : List (List α)) (i : Nat) :
    rowAt (place clash x rows).1 i =
      rowAt rows i ++ if i = (place clash x rows).2 then [x] else [] := by
  induction rows generalizing i with
  | nil =>
    cases i with
    | zero => rfl
    | succ i => rfl
  | cons row rows ih =>
    rw [place]
    by_cases hclash : row.any (clash x) = true
    · rw [if_pos hclash]
      cases i with
      | zero => simp
      | succ i => simp [ih i]
    · rw [if_neg hclash]
      cases i with
      | zero => rfl
      | succ i => simp

theorem place_ne_nil {rows : List (List α)} (h : ∀ row ∈ rows, row ≠ []) :
    ∀ row ∈ (place clash x rows).1, row ≠ [] := by
  induction rows with
  | nil => simp [place]
  | cons row rows ih =>
    obtain ⟨hrow, hrows⟩ := List.forall_mem_cons.mp h
    rw [place]
    by_cases hclash : row.any (clash x) = true
    · rw [if_pos hclash]
      exact List.forall_mem_cons.mpr ⟨hrow, ih hrows⟩
    · rw [if_neg hclash]
      exact List.forall_mem_cons.mpr ⟨by simp, hrows⟩

/-- What does not clash with the item is in relation to it, so the rows stay in relation. -/
theorem place_pairwise {r : α → α → Prop} (hr : ∀ y, clash x y = false → r y x) {rows : List (List α)}
    (h : ∀ row ∈ rows, row.Pairwise r) : ∀ row ∈ (place clash x rows).1, row.Pairwise r := by
  induction rows with
  | nil => simp [place]
  | cons row rows ih =>
    obtain ⟨hrow, hrows⟩ := List.forall_mem_cons.mp h
    rw [place]
    by_cases hclash : row.any (clash x) = true
    · rw [if_pos hclash]
      exact List.forall_mem_cons.mpr ⟨hrow, ih hrows⟩
    · rw [if_neg hclash]
      refine List.forall_mem_cons.mpr ⟨?_, hrows⟩
      rw [List.pairwise_append]
      refine ⟨hrow, List.pairwise_singleton r x, ?_⟩
      intro y hy z hz
      rw [List.mem_singleton.mp hz]
      refine hr y ?_
      simp only [List.any_eq_true, not_exists, not_and] at hclash
      exact Bool.eq_false_iff.mpr (hclash y hy)

theorem lt_length_of_rowAt_ne_nil {rows : List (List α)} {i : Nat} (h : rowAt rows i ≠ []) : i < rows.length := by
  by_contra hlen
  apply h
  rw [rowAt, List.getElem?_eq_none (Nat.le_of_not_lt hlen)]
  rfl

theorem rowAt_mem {rows : List (List α)} {i : Nat} (h : i < rows.length) : rowAt rows i ∈ rows := by
  rw [rowAt, List.getElem?_eq_getElem h]
  exact List.getElem_mem h

end Place

/-! ## Stacked groups -/

section Offset
variable (height : Nat → Nat)

/-- Where the rows of group `d` start. -/
def offset (d : Nat) : Nat := ∑ i ∈ Finset.range d, height i

variable {height}

@[simp] theorem offset_zero : offset height 0 = 0 := rfl

theorem offset_succ (d : Nat) : offset height (d + 1) = offset height d + height d :=
  Finset.sum_range_succ height d

theorem offset_mono {d d' : Nat} (h : d ≤ d') : offset height d ≤ offset height d' :=
  Finset.sum_le_sum_of_subset (Finset.range_mono h)

/-- A row of an earlier group stands before every row of a later one. -/
theorem offset_add_lt {d d' s : Nat} (hd : d < d') (hs : s < height d) (s' : Nat) :
    offset height d + s < offset height d' + s' := by
  have hnext : offset height (d + 1) ≤ offset height d' := offset_mono (Nat.succ_le_of_lt hd)
  rw [offset_succ] at hnext
  omega

theorem eq_of_offset_add_eq {d d' s s' : Nat} (hs : s < height d) (hs' : s' < height d')
    (h : offset height d + s = offset height d' + s') : d = d' ∧ s = s' := by
  rcases Nat.lt_trichotomy d d' with hlt | rfl | hlt
  · have hbefore := offset_add_lt hlt hs s'
    omega
  · exact ⟨rfl, by omega⟩
  · have hbefore := offset_add_lt hlt hs' s
    omega

/-- Every row below the end belongs to a group. -/
theorem exists_group_of_lt {n r : Nat} (h : r < offset height n) :
    ∃ d < n, ∃ s < height d, r = offset height d + s := by
  induction n with
  | zero => simp at h
  | succ n ih =>
    by_cases hr : r < offset height n
    · obtain ⟨d, hd, s, hs, heq⟩ := ih hr
      exact ⟨d, Nat.lt_succ_of_lt hd, s, hs, heq⟩
    · rw [offset_succ] at h
      exact ⟨n, Nat.lt_succ_self n, r - offset height n, by omega, by omega⟩

end Offset

end WorkflowEngine.Lib.FirstFit
