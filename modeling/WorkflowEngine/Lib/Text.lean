import Mathlib.Data.List.Infix

/-!
# Substring replacement

`includes` and `replaceAll` on lists: `replaceAll` scans from the left and does
not look again at what it has already replaced.
-/

namespace WorkflowEngine.Lib

set_option autoImplicit false

universe u

section Replace
variable {α : Type u} [DecidableEq α]

/-- `xs.includes(pattern)`. -/
def includes (pattern : List α) : List α → Bool
  | [] => pattern.isEmpty
  | x :: xs => pattern.isPrefixOf (x :: xs) || includes pattern xs

theorem mem_of_includes {pattern xs : List α} {a : α} (ha : a ∈ pattern)
    (h : includes pattern xs = true) : a ∈ xs := by
  induction xs with
  | nil => simp_all [includes]
  | cons x xs ih =>
    simp only [includes, Bool.or_eq_true, List.isPrefixOf_iff_prefix] at h
    rcases h with h | h
    · exact h.subset ha
    · exact List.mem_cons_of_mem x (ih h)

theorem includes_eq_true_iff {pattern xs : List α} : includes pattern xs = true ↔ pattern <:+: xs := by
  induction xs with
  | nil => simp [includes]
  | cons x xs ih => rw [includes, Bool.or_eq_true, ih, List.isPrefixOf_iff_prefix, List.infix_cons_iff]

/-- The scan of `replaceAll`; `skip` elements of a match are still to be dropped. -/
def replaceFrom (pattern replacement : List α) : Nat → List α → List α
  | _, [] => []
  | skip + 1, _ :: xs => replaceFrom pattern replacement skip xs
  | 0, x :: xs =>
    if pattern.isPrefixOf (x :: xs) then
      replacement ++ replaceFrom pattern replacement (pattern.length - 1) xs
    else x :: replaceFrom pattern replacement 0 xs

/-- `xs.replaceAll(pattern, replacement)` for a non-empty pattern. -/
def replaceAll (pattern replacement xs : List α) : List α := replaceFrom pattern replacement 0 xs

theorem subset_replaceAll {pattern replacement xs : List α} (hp : pattern ≠ [])
    (h : includes pattern xs = true) : replacement ⊆ replaceAll pattern replacement xs := by
  induction xs with
  | nil => simp [includes, hp] at h
  | cons x xs ih =>
    simp only [replaceAll, replaceFrom]
    split
    · exact List.subset_append_left _ _
    · rename_i hnot
      simp only [includes, Bool.or_eq_true] at h
      exact List.Subset.trans (ih (h.resolve_left hnot)) (List.subset_cons_self _ _)

/-- Replaces every pattern of a list in turn, each where it occurs. -/
def replaceEach (replacement : List α) : List (List α) → List α → List α
  | [], xs => xs
  | pattern :: patterns, xs =>
    replaceEach replacement patterns
      (if pattern.length > 0 ∧ includes pattern xs = true then replaceAll pattern replacement xs
        else xs)

theorem mem_replaceEach {replacement : List α} {a : α} (ha : a ∈ replacement)
    (patterns : List (List α)) {xs : List α} (hx : a ∈ xs) : a ∈ replaceEach replacement patterns xs := by
  induction patterns generalizing xs with
  | nil => exact hx
  | cons pattern patterns ih =>
    simp only [replaceEach]
    split
    · rename_i h
      exact ih (subset_replaceAll (List.length_pos_iff.mp h.1) h.2 ha)
    · exact ih hx

/-- A replacement that leaves a mark: either no pattern occurs, or the mark is in the result. -/
theorem replaceEach_cases {replacement : List α} {a : α} (ha : a ∈ replacement)
    (patterns : List (List α)) (xs : List α) :
    (replaceEach replacement patterns xs = xs ∧
      ∀ p ∈ patterns, p ≠ [] → includes p xs = false) ∨
    (a ∈ replaceEach replacement patterns xs ∧
      ∃ p ∈ patterns, p ≠ [] ∧ includes p xs = true) := by
  induction patterns with
  | nil => exact Or.inl ⟨rfl, by simp⟩
  | cons pattern patterns ih =>
    simp only [replaceEach]
    split
    · rename_i h
      have hne := List.length_pos_iff.mp h.1
      exact Or.inr ⟨mem_replaceEach ha patterns (subset_replaceAll hne h.2 ha), pattern, by simp, hne, h.2⟩
    · rename_i h
      have hnot : pattern ≠ [] → includes pattern xs = false := by
        intro hne
        by_contra hinc
        exact h ⟨List.length_pos_iff.mpr hne, by simpa using hinc⟩
      rcases ih with ⟨heq, hall⟩ | ⟨hmem, p, hp, hrest⟩
      · refine Or.inl ⟨heq, ?_⟩
        intro p hp
        rcases List.mem_cons.mp hp with rfl | hp
        · exact hnot
        · exact hall p hp
      · exact Or.inr ⟨hmem, p, List.mem_cons_of_mem _ hp, hrest⟩

theorem head?_replaceAll {replacement : List α} (hr : replacement ≠ []) (pattern xs : List α) :
    (replaceAll pattern replacement xs).head? = xs.head? ∨
      (replaceAll pattern replacement xs).head? = replacement.head? := by
  cases xs with
  | nil => exact Or.inl rfl
  | cons x xs =>
    simp only [replaceAll, replaceFrom]
    split
    · exact Or.inr (List.head?_append_of_ne_nil _ hr)
    · exact Or.inl rfl

/-- The first element is kept, or it is the first one of a replacement. -/
theorem head?_replaceEach {replacement : List α} (hr : replacement ≠ []) (patterns : List (List α))
    (xs : List α) :
    (replaceEach replacement patterns xs).head? = xs.head? ∨
      (replaceEach replacement patterns xs).head? = replacement.head? := by
  induction patterns generalizing xs with
  | nil => exact Or.inl rfl
  | cons pattern patterns ih =>
    simp only [replaceEach]
    split
    · rcases ih (replaceAll pattern replacement xs) with h | h
      · rw [h]
        exact head?_replaceAll hr pattern xs
      · exact Or.inr h
    · exact ih xs

/-! ## Patterns that share no element with the replacement -/

section Disjoint
variable {p pattern replacement xs : List α}

theorem isPrefixOf_of_replaceFrom (hr : replacement ≠ []) (hdis : ∀ a ∈ p, a ∉ replacement)
    (h : p.isPrefixOf (replaceFrom pattern replacement 0 xs) = true) : p.isPrefixOf xs = true := by
  induction xs generalizing p with
  | nil => exact h
  | cons x xs ih =>
    cases p with
    | nil => rfl
    | cons a p =>
      simp only [replaceFrom] at h
      split at h
      · obtain ⟨b, bs, rfl⟩ := List.exists_cons_of_ne_nil hr
        simp only [List.cons_append, List.isPrefixOf_cons_cons, Bool.and_eq_true, beq_iff_eq] at h
        exact absurd (List.mem_cons_self) (h.1 ▸ hdis a List.mem_cons_self)
      · simp only [List.isPrefixOf_cons_cons, Bool.and_eq_true] at h ⊢
        exact ⟨h.1, ih (fun b hb => hdis b (List.mem_cons_of_mem a hb)) h.2⟩

theorem includes_of_includes_append (hp : p ≠ []) (hdis : ∀ a ∈ p, a ∉ replacement)
    (h : includes p (replacement ++ xs) = true) : includes p xs = true := by
  induction replacement with
  | nil => exact h
  | cons b bs ih =>
    simp only [List.cons_append, includes, Bool.or_eq_true] at h
    rcases h with h | h
    · obtain ⟨a, p, rfl⟩ := List.exists_cons_of_ne_nil hp
      simp only [List.isPrefixOf_cons_cons, Bool.and_eq_true, beq_iff_eq] at h
      exact absurd (List.mem_cons_self) (h.1 ▸ hdis a List.mem_cons_self)
    · exact ih (fun a ha hb => hdis a ha (List.mem_cons_of_mem b hb)) h

/-- A replacement creates no occurrence of a pattern that shares no element with it. -/
theorem includes_of_replaceFrom (hr : replacement ≠ []) (hp : p ≠ [])
    (hdis : ∀ a ∈ p, a ∉ replacement) {skip : Nat}
    (h : includes p (replaceFrom pattern replacement skip xs) = true) : includes p xs = true := by
  induction xs generalizing skip with
  | nil => cases skip <;> exact h
  | cons x xs ih =>
    simp only [includes, Bool.or_eq_true]
    cases skip with
    | succ skip => exact Or.inr (ih h)
    | zero =>
      simp only [replaceFrom] at h
      split at h
      · exact Or.inr (ih (includes_of_includes_append hp hdis h))
      · simp only [includes, Bool.or_eq_true] at h
        rcases h with h | h
        · obtain ⟨a, p, rfl⟩ := List.exists_cons_of_ne_nil hp
          simp only [List.isPrefixOf_cons_cons, Bool.and_eq_true] at h ⊢
          have htail := isPrefixOf_of_replaceFrom hr (fun b hb => hdis b (List.mem_cons_of_mem a hb)) h.2
          exact Or.inl ⟨h.1, htail⟩
        · exact Or.inr (ih h)

/-- After `replaceAll` the pattern is gone, if the replacement shares no element with it. -/
theorem not_includes_replaceFrom (hr : replacement ≠ []) (hp : pattern ≠ [])
    (hdis : ∀ a ∈ pattern, a ∉ replacement) (skip : Nat) (xs : List α) :
    includes pattern (replaceFrom pattern replacement skip xs) = false := by
  induction xs generalizing skip with
  | nil => cases skip <;> simpa [replaceFrom, includes] using hp
  | cons x xs ih =>
    cases skip with
    | succ skip => exact ih skip
    | zero =>
      simp only [replaceFrom]
      split
      · rw [← Bool.not_eq_true]
        intro h
        have := includes_of_includes_append hp hdis h
        rw [ih] at this
        cases this
      · rename_i hnot
        simp only [includes, Bool.or_eq_false_iff]
        refine ⟨?_, ih 0⟩
        rw [← Bool.not_eq_true]
        intro h
        apply hnot
        obtain ⟨a, p, rfl⟩ := List.exists_cons_of_ne_nil hp
        simp only [List.isPrefixOf_cons_cons, Bool.and_eq_true] at h ⊢
        exact ⟨h.1, isPrefixOf_of_replaceFrom hr (fun b hb => hdis b (List.mem_cons_of_mem a hb)) h.2⟩

theorem includes_of_replaceEach (hr : replacement ≠ []) (hp : p ≠ [])
    (hdis : ∀ a ∈ p, a ∉ replacement) (patterns : List (List α))
    (h : includes p (replaceEach replacement patterns xs) = true) : includes p xs = true := by
  induction patterns generalizing xs with
  | nil => exact h
  | cons pattern patterns ih =>
    have h := ih h
    split at h
    · exact includes_of_replaceFrom hr hp hdis h
    · exact h

/-- No pattern of the list is left that shares no element with the replacement. -/
theorem not_includes_replaceEach (hr : replacement ≠ []) (patterns : List (List α)) (hmem : p ∈ patterns)
    (hp : p ≠ []) (hdis : ∀ a ∈ p, a ∉ replacement) (xs : List α) :
    includes p (replaceEach replacement patterns xs) = false := by
  induction patterns generalizing xs with
  | nil => cases hmem
  | cons pattern patterns ih =>
    rcases List.mem_cons.mp hmem with rfl | hmem
    · rw [← Bool.not_eq_true]
      intro h
      have h := includes_of_replaceEach hr hp hdis patterns h
      split at h
      · rw [replaceAll, not_includes_replaceFrom hr hp hdis] at h
        cases h
      · rename_i hnot
        exact hnot ⟨List.length_pos_iff.mpr hp, h⟩
    · exact ih hmem _

end Disjoint

end Replace

/-! ## Texts joined by a separator -/

section Join
variable {α : Type*} {x : α} {a b c d : List α}

/-- Two joins of two parts agree when the parts do, or when a separator inside a part was taken for the border. -/
theorem append_separator_eq_iff :
    a ++ x :: b = c ++ x :: d ↔
      (a = c ∧ b = d) ∨ (∃ m, c = a ++ x :: m ∧ b = m ++ x :: d) ∨ ∃ m, a = c ++ x :: m ∧ d = m ++ x :: b := by
  constructor
  · intro h
    rcases List.append_eq_append_iff.mp h with ⟨m, hc, hb⟩ | ⟨m, ha, hd⟩
    · cases m with
      | nil =>
        rw [List.append_nil] at hc
        exact Or.inl ⟨hc.symm, (List.cons.inj hb).2⟩
      | cons y m =>
        obtain ⟨hx, hrest⟩ := List.cons.inj hb
        subst hx
        exact Or.inr (Or.inl ⟨m, hc, hrest⟩)
    · cases m with
      | nil =>
        rw [List.append_nil] at ha
        exact Or.inl ⟨ha, (List.cons.inj hd).2.symm⟩
      | cons y m =>
        obtain ⟨hx, hrest⟩ := List.cons.inj hd
        subst hx
        exact Or.inr (Or.inr ⟨m, ha, hrest⟩)
  · rintro (⟨rfl, rfl⟩ | ⟨m, rfl, rfl⟩ | ⟨m, rfl, rfl⟩)
    · rfl
    · simp
    · simp

theorem append_separator_inj (ha : x ∉ a) (hc : x ∉ c) : a ++ x :: b = c ++ x :: d ↔ a = c ∧ b = d := by
  rw [append_separator_eq_iff]
  constructor
  · rintro (h | ⟨m, rfl, _⟩ | ⟨m, rfl, _⟩)
    · exact h
    · simp at hc
    · simp at ha
  · exact Or.inl

theorem append_separator_inj_right (hb : x ∉ b) (hd : x ∉ d) :
    a ++ x :: b = c ++ x :: d ↔ a = c ∧ b = d := by
  rw [append_separator_eq_iff]
  constructor
  · rintro (h | ⟨m, _, rfl⟩ | ⟨m, _, rfl⟩)
    · exact h
    · simp at hb
    · simp at hd
  · exact Or.inl

end Join

end WorkflowEngine.Lib
