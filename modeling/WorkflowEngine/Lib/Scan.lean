import Mathlib.Data.List.Basic

/-!
# Leftmost scans

A global replacement reads a text from the left: where the pattern matches it takes the match and goes on
behind it, elsewhere it takes one character. What it has read is a list of pieces, and that list depends on
the text alone.
-/

namespace WorkflowEngine.Lib

set_option autoImplicit false

universe u v

/-- A character that was passed over, or a match. -/
inductive Piece (α : Type u) (β : Type v) where
  | char (a : α)
  | token (b : β)
  deriving DecidableEq

namespace Piece
variable {α : Type u} {β : Type v}

/-- The text of the pieces, with `encode` for the matches: the text read, or the text with every match replaced. -/
def render (encode : β → List α) : List (Piece α β) → List α
  | [] => []
  | .char a :: ps => a :: render encode ps
  | .token b :: ps => encode b ++ render encode ps

@[simp] theorem render_append (encode : β → List α) (ps qs : List (Piece α β)) :
    render encode (ps ++ qs) = render encode ps ++ render encode qs := by
  induction ps with
  | nil => rfl
  | cons p ps ih =>
    cases p with
    | char a => simp [render, ih]
    | token b => simp [render, ih]

@[simp] theorem render_map_char (encode : β → List α) (as : List α) : render encode (as.map .char) = as := by
  induction as with
  | nil => rfl
  | cons a as ih => simp [render, ih]

/-- Two replacements that agree on the tokens read give the same text. -/
theorem render_congr {f g : β → List α} {ps : List (Piece α β)} (h : ∀ b, .token b ∈ ps → f b = g b) :
    render f ps = render g ps := by
  induction ps with
  | nil => rfl
  | cons p ps ih =>
    have hps := ih fun b hb => h b (List.mem_cons_of_mem p hb)
    cases p with
    | char a => rw [render, render, hps]
    | token b => rw [render, render, hps, h b List.mem_cons_self]

section Scanned
variable (encode : β → List α) (matchAt : List α → Option (β × List α))

/-- The pieces are what the scan reads: a match where there is one, else a character. -/
def Scanned : List (Piece α β) → Prop
  | [] => True
  | .char a :: ps => matchAt (a :: render encode ps) = none ∧ Scanned ps
  | .token b :: ps => matchAt (encode b ++ render encode ps) = some (b, render encode ps) ∧ Scanned ps

variable {encode matchAt}

/-- Characters where no match starts are passed over. -/
theorem Scanned.map_char_append {as : List α} {ps : List (Piece α β)} (hps : Scanned encode matchAt ps)
    (h : ∀ a before after, as = before ++ a :: after → matchAt (a :: (after ++ render encode ps)) = none) :
    Scanned encode matchAt (as.map .char ++ ps) := by
  induction as with
  | nil => exact hps
  | cons a as ih =>
    refine ⟨?_, ih ?_⟩
    · change matchAt (a :: render encode (as.map .char ++ ps)) = none
      rw [render_append, render_map_char]
      exact h a [] as rfl
    · intro a' before after has
      exact h a' (a :: before) after (by rw [has, List.cons_append])

/-- The scan reads a text in one way. -/
theorem Scanned.unique {ps qs : List (Piece α β)} (hne : ∀ b, encode b ≠ [])
    (hp : Scanned encode matchAt ps) (hq : Scanned encode matchAt qs) (h : render encode ps = render encode qs) :
    ps = qs := by
  induction ps generalizing qs with
  | nil =>
    cases qs with
    | nil => rfl
    | cons q qs =>
      cases q with
      | char a => cases h
      | token b => exact absurd (List.append_eq_nil_iff.mp h.symm).1 (hne b)
  | cons p ps ih =>
    cases qs with
    | nil =>
      cases p with
      | char a => cases h
      | token b => exact absurd (List.append_eq_nil_iff.mp h).1 (hne b)
    | cons q qs =>
      cases p with
      | char a =>
        cases q with
        | char a' =>
          obtain ⟨rfl, hrest⟩ := List.cons.inj h
          rw [ih hp.2 hq.2 hrest]
        | token b =>
          have hmatch := hq.1
          rw [← show a :: render encode ps = encode b ++ render encode qs from h, hp.1] at hmatch
          cases hmatch
      | token b =>
        have hmatch := hp.1
        cases q with
        | char a =>
          rw [show encode b ++ render encode ps = a :: render encode qs from h, hq.1] at hmatch
          cases hmatch
        | token b' =>
          rw [show encode b ++ render encode ps = encode b' ++ render encode qs from h, hq.1] at hmatch
          obtain ⟨rfl, hrest⟩ := Prod.mk.inj (Option.some.inj hmatch)
          rw [ih hp.2 hq.2 hrest.symm]

/-- Every text is read, provided that a match is a prefix. -/
theorem Scanned.exists (hne : ∀ b, encode b ≠ [])
    (hmatch : ∀ {as b rest}, matchAt as = some (b, rest) → as = encode b ++ rest) (as : List α) :
    ∃ ps, Scanned encode matchAt ps ∧ render encode ps = as := by
  induction hn : as.length using Nat.strongRecOn generalizing as with
  | _ n ih =>
    cases as with
    | nil => exact ⟨[], trivial, rfl⟩
    | cons a as =>
      cases hm : matchAt (a :: as) with
      | none =>
        obtain ⟨ps, hps, rfl⟩ := ih as.length (by simp at hn; omega) as rfl
        exact ⟨.char a :: ps, ⟨hm, hps⟩, rfl⟩
      | some m =>
        obtain ⟨b, rest⟩ := m
        have heq := hmatch hm
        have hlen : rest.length < n := by
          have hpos := List.length_pos_iff.mpr (hne b)
          rw [← hn, heq, List.length_append]
          omega
        obtain ⟨ps, hps, rfl⟩ := ih rest.length hlen rest rfl
        refine ⟨.token b :: ps, ⟨heq ▸ hm, hps⟩, ?_⟩
        exact heq.symm

end Scanned

end Piece

end WorkflowEngine.Lib
