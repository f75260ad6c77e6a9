import Mathlib.Algebra.Ring.Nat
import Mathlib.Data.List.Basic

/-!
# Positions of growing lists

Logs and tables that are only appended to or updated in place are read by
position. These lemmas say where an entry of the changed list was before, and
what an update does to a count.
-/

namespace WorkflowEngine.Lib

set_option autoImplicit false

universe u
variable {α : Type u} {l : List α} {i k : Nat} {x y : α}

theorem lt_of_getElem?_eq_some (h : l[i]? = some x) : i < l.length :=
  (List.getElem?_eq_some_iff.mp h).1

theorem getElem?_set_cases (h : (l.set k x)[i]? = some y) :
    (i = k ∧ y = x) ∨ (i ≠ k ∧ l[i]? = some y) := by
  rw [List.getElem?_set] at h
  split at h
  · rename_i hk
    split at h
    · exact Or.inl ⟨hk.symm, (Option.some.inj h).symm⟩
    · cases h
  · rename_i hk
    exact Or.inr ⟨fun hi => hk hi.symm, h⟩

theorem getElem?_snoc_cases (h : (l ++ [x])[i]? = some y) :
    l[i]? = some y ∨ (i = l.length ∧ y = x) := by
  rw [List.getElem?_append] at h
  split at h
  · exact Or.inl h
  · rw [List.getElem?_singleton] at h
    split at h
    · exact Or.inr ⟨by omega, (Option.some.inj h).symm⟩
    · cases h

theorem getElem?_snoc_of_some (h : l[i]? = some y) : (l ++ [x])[i]? = some y := by
  rw [List.getElem?_append_left (lt_of_getElem?_eq_some h)]
  exact h

theorem modify_of_getElem? (f : α → α) (h : l[i]? = some x) : l.modify i f = l.set i (f x) := by
  apply List.ext_getElem?
  intro j
  rw [List.getElem?_modify, List.getElem?_set]
  split
  · rename_i hij
    subst hij
    rw [if_pos (lt_of_getElem?_eq_some h), h]
    rfl
  · simp

/-- An update that a projection does not see. -/
theorem map_set_of_eq {β : Type*} (f : α → β) (h : l[i]? = some x) (hf : f y = f x) :
    (l.set i y).map f = l.map f := by
  rw [List.map_set, hf, ← List.map_set]
  congr 1
  apply List.ext_getElem?
  intro j
  rw [List.getElem?_set]
  split
  · rename_i hij
    subst hij
    rw [if_pos (lt_of_getElem?_eq_some h), h]
  · rfl

/-- A replaced entry leaves a count, the new one enters it. -/
theorem countP_set_add (p : α → Bool) (h : l[i]? = some x) :
    (l.set i y).countP p + (if p x then 1 else 0) = l.countP p + (if p y then 1 else 0) := by
  obtain ⟨hi, hx⟩ := List.getElem?_eq_some_iff.mp h
  have hpos : (if p x then 1 else 0) ≤ l.countP p := by
    split
    · rename_i hpx
      exact List.countP_pos_iff.mpr ⟨x, List.mem_of_getElem? h, hpx⟩
    · exact Nat.zero_le _
  rw [List.countP_set hi, hx]
  omega

/-- A replaced entry leaves with its occurrences, the new one enters with its own. -/
theorem count_flatMap_set {β : Type*} [DecidableEq β] (f : α → List β) (h : l[i]? = some x) (y : α)
    (b : β) :
    ((l.set i y).flatMap f).count b + (f x).count b = (l.flatMap f).count b + (f y).count b := by
  induction l generalizing i with
  | nil => simp at h
  | cons a l ih =>
    cases i with
    | zero =>
      obtain rfl : a = x := by simpa using h
      simp only [List.set_cons_zero, List.flatMap_cons, List.count_append]
      omega
    | succ i =>
      have hrest := ih (by simpa using h)
      simp only [List.set_cons_succ, List.flatMap_cons, List.count_append]
      omega

theorem sum_map_ite (p : α → Bool) (l : List α) : (l.map fun a => if p a then 1 else 0).sum = l.countP p := by
  induction l with
  | nil => rfl
  | cons a l ih =>
    rw [List.map_cons, List.sum_cons, ih, List.countP_cons, Nat.add_comm]

/-- A sum falls when every entry does. -/
theorem sum_map_le_of_getElem? (f g : α → Nat) {l l' : List α} (hlength : l'.length = l.length)
    (h : ∀ (i : Nat) (a b : α), l[i]? = some a → l'[i]? = some b → g b ≤ f a) :
    (l'.map g).sum ≤ (l.map f).sum := by
  induction l generalizing l' with
  | nil =>
    obtain rfl : l' = [] := List.length_eq_zero_iff.mp hlength
    exact Nat.le_refl _
  | cons a l ih =>
    cases l' with
    | nil => cases hlength
    | cons b l' =>
      have hhead : g b ≤ f a := h 0 a b rfl rfl
      have htail := ih (Nat.succ.inj hlength) fun i a b ha hb => h (i + 1) a b ha hb
      simp only [List.map_cons, List.sum_cons]
      omega

end WorkflowEngine.Lib
