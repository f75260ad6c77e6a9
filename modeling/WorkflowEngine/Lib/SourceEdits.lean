import Mathlib.Data.List.Basic

/-!
# Edits of a source text

Replacements of stretches of a text, by their offsets in it and in their order, and where a text occurs once
another one has been inserted.
-/

namespace WorkflowEngine.Lib

set_option autoImplicit false

universe u
variable {α : Type u}

/-! ## Edits by offset -/

structure Edit (α : Type u) where
  start : Nat
  stop : Nat
  text : List α

/-- The edits are in the order of their offsets and do not overlap; the text begins at offset `pos`. -/
def applyEdits : (pos : Nat) → (text : List α) → List (Edit α) → List α
  | _, text, [] => text
  | pos, text, e :: es =>
    text.take (e.start - pos) ++ (e.text ++ applyEdits e.stop (text.drop (e.stop - pos)) es)

/-- What lies before the first edit stays. -/
theorem applyEdits_append {pos : Nat} {xs ys : List α} {es : List (Edit α)}
    (h : ∀ e ∈ es, pos + xs.length ≤ e.start ∧ e.start ≤ e.stop) :
    applyEdits pos (xs ++ ys) es = xs ++ applyEdits (pos + xs.length) ys es := by
  cases es with
  | nil => rfl
  | cons e es =>
    obtain ⟨hstart, hstop⟩ := h e List.mem_cons_self
    have htake : (xs ++ ys).take (e.start - pos) = xs ++ ys.take (e.start - (pos + xs.length)) := by
      rw [List.take_append, List.take_of_length_le (by omega)]
      congr 2
      omega
    have hdrop : (xs ++ ys).drop (e.stop - pos) = ys.drop (e.stop - (pos + xs.length)) := by
      rw [List.drop_append, List.drop_eq_nil_of_le (by omega), List.nil_append]
      congr 1
      omega
    simp only [applyEdits, htake, hdrop, List.append_assoc]

/-- A stretch at the beginning is replaced. -/
theorem applyEdits_replace (pos : Nat) (xs ys text : List α) (es : List (Edit α)) :
    applyEdits pos (xs ++ ys) (⟨pos, pos + xs.length, text⟩ :: es) = text ++ applyEdits (pos + xs.length) ys es := by
  simp [applyEdits]

theorem applyEdits_insert (pos : Nat) (ys text : List α) (es : List (Edit α)) :
    applyEdits pos ys (⟨pos, pos, text⟩ :: es) = text ++ applyEdits pos ys es := by
  simp [applyEdits]

/-! ## Where a text occurs -/

theorem isInfix_append_cons_iff {p xs ys : List α} {a : α} (ha : a ∉ p) :
    p <:+: xs ++ a :: ys ↔ p <:+: xs ∨ p <:+: ys := by
  constructor
  · rintro ⟨s, t, h⟩
    rcases List.append_eq_append_iff.mp h with ⟨as, rfl, -⟩ | ⟨bs, hleft, hright⟩
    · exact .inl ⟨s, as, rfl⟩
    · cases bs with
      | nil => exact .inl ⟨s, [], by simpa using hleft⟩
      | cons b bs =>
        obtain ⟨rfl, rfl⟩ := List.cons.inj hright
        rcases List.append_eq_append_iff.mp hleft with ⟨cs, -, rfl⟩ | ⟨cs, rfl, hcs⟩
        · simp at ha
        · cases cs with
          | nil =>
            rw [List.nil_append] at hcs
            subst hcs
            simp at ha
          | cons c cs =>
            obtain ⟨rfl, rfl⟩ := List.cons.inj hcs
            exact .inr ⟨cs, t, rfl⟩
  · rintro (⟨s, t, rfl⟩ | ⟨s, t, rfl⟩)
    · exact ⟨s, t ++ a :: ys, by simp⟩
    · exact ⟨xs ++ a :: s, t, by simp⟩

theorem isInfix_append_iff_of_last {q xs text : List α} {d : α} (hd : d ∉ text) :
    q ++ [d] <:+: xs ++ text ↔ q ++ [d] <:+: xs := by
  constructor
  · rintro ⟨s, t, h⟩
    rcases List.append_eq_append_iff.mp h with ⟨as, rfl, -⟩ | ⟨bs, hleft, rfl⟩
    · exact ⟨s, as, rfl⟩
    · rcases List.eq_nil_or_concat bs with rfl | ⟨bs, b, rfl⟩
      · exact ⟨s, [], by simpa using hleft⟩
      · rw [List.concat_eq_append, ← List.append_assoc, ← List.append_assoc] at hleft
        obtain ⟨-, hlast⟩ := List.append_inj' hleft rfl
        rw [List.singleton_inj] at hlast
        subst hlast
        simp at hd
  · rintro ⟨s, t, rfl⟩
    exact ⟨s, t ++ text, by simp⟩

/-- A text before `a` that does not hold the last element of a pattern brings no new occurrence of it. -/
theorem isInfix_insert_iff {q xs text ys : List α} {a d : α} (ha : a ∉ q ++ [d]) (hd : d ∉ text) :
    q ++ [d] <:+: xs ++ text ++ a :: ys ↔ q ++ [d] <:+: xs ++ a :: ys := by
  rw [isInfix_append_cons_iff ha, isInfix_append_cons_iff ha, isInfix_append_iff_of_last hd]

end WorkflowEngine.Lib
