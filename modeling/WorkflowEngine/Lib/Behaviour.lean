import Mathlib.Order.WellFounded
import WorkflowEngine.Lib.Transition

/-!
# Behaviours without an end

A `Behaviour` gives the states of a system at every moment. At a moment without an
action nothing happens, so a finite run is a behaviour too. The rule `settles` is
for properties that must come about: a witness that is replaced by one of smaller
rank whenever it does not stay is, from some moment on, never replaced again.
-/

namespace WorkflowEngine.Lib

set_option autoImplicit false

universe u v w

structure Behaviour {σ : Type u} {α : Type v} (step : σ → α → Option σ) where
  state : Nat → σ
  action : Nat → Option α
  next : ∀ n,
    match action n with
    | none => state (n + 1) = state n
    | some a => step (state n) a = some (state (n + 1))

namespace Behaviour

section States
variable {σ : Type u} {α : Type v} {step : σ → α → Option σ} (b : Behaviour step)

theorem next_of_none {n : Nat} (h : b.action n = none) : b.state (n + 1) = b.state n := by
  have hnext := b.next n
  rw [h] at hnext
  exact hnext

theorem next_of_some {n : Nat} {a : α} (h : b.action n = some a) :
    step (b.state n) a = some (b.state (n + 1)) := by
  have hnext := b.next n
  rw [h] at hnext
  exact hnext

/-- The invariant rule for behaviours whose actions all meet `ok`. -/
theorem invariant_along {Inv : σ → Prop} {ok : σ → α → Prop}
    (hstep : ∀ s a t, Inv s → ok s a → step s a = some t → Inv t)
    (hok : ∀ n a, b.action n = some a → ok (b.state n) a) (hstart : Inv (b.state 0)) (n : Nat) :
    Inv (b.state n) := by
  induction n with
  | zero => exact hstart
  | succ n ih =>
    cases ha : b.action n with
    | none =>
      rw [b.next_of_none ha]
      exact ih
    | some a => exact hstep _ a _ ih (hok n a ha) (b.next_of_some ha)

end States

section Runs
variable {σ : Type u} {α : Type v} {step : σ → α → Option σ}

theorem exec_take_succ {s t : σ} {as : List α} (h : exec step s as = some t) {n : Nat} {a : α}
    (ha : as[n]? = some a) :
    ∃ m m', exec step s (as.take n) = some m ∧ exec step s (as.take (n + 1)) = some m' ∧
      step m a = some m' := by
  have hsplit : as = as.take (n + 1) ++ as.drop (n + 1) := (List.take_append_drop _ _).symm
  have htake : as.take (n + 1) = as.take n ++ [a] := by
    rw [List.take_add_one, ha]
    rfl
  rw [hsplit, exec_append_eq_some] at h
  obtain ⟨m', hm', -⟩ := h
  have hboth := hm'
  rw [htake, exec_append_eq_some] at hboth
  obtain ⟨m, hm, hone⟩ := hboth
  refine ⟨m, m', hm, hm', ?_⟩
  obtain ⟨m'', hstep, hnil⟩ := exec_cons_eq_some.mp hone
  cases hnil
  exact hstep

/-- A finite run, after which nothing happens. -/
def ofRun (s : σ) (as : List α) (h : (exec step s as).isSome = true) : Behaviour step where
  state n := (exec step s (as.take n)).getD s
  action n := as[n]?
  next n := by
    obtain ⟨t, ht⟩ := Option.isSome_iff_exists.mp h
    cases ha : as[n]? with
    | none =>
      have hlength := List.getElem?_eq_none_iff.mp ha
      dsimp only
      rw [List.take_of_length_le hlength, List.take_of_length_le (Nat.le_succ_of_le hlength)]
    | some a =>
      obtain ⟨m, m', hm, hm', hstep⟩ := exec_take_succ ht ha
      dsimp only
      rw [hm, hm']
      exact hstep

theorem ofRun_state {s m : σ} {as : List α} {n : Nat} (hm : exec step s (as.take n) = some m)
    (h : (exec step s as).isSome = true) : (ofRun s as h).state n = m := by
  have hstate : (ofRun s as h).state n = (exec step s (as.take n)).getD s := rfl
  rw [hstate, hm]
  rfl

theorem ofRun_ok {ok : σ → α → Prop} {s : σ} {as : List α} (h : (exec step s as).isSome = true)
    (hok : Along step ok s as) (n : Nat) (a : α) (ha : (ofRun s as h).action n = some a) :
    ok ((ofRun s as h).state n) a := by
  obtain ⟨t, ht⟩ := Option.isSome_iff_exists.mp h
  obtain ⟨m, m', hm, _⟩ := exec_take_succ ht ha
  rw [ofRun_state hm h]
  exact hok.at ha hm

theorem ofRun_state_of_le {s t : σ} {as : List α} (ht : exec step s as = some t) {n : Nat}
    (hn : as.length ≤ n) (h : (exec step s as).isSome = true) : (ofRun s as h).state n = t := by
  have hstate : (ofRun s as h).state n = (exec step s (as.take n)).getD s := rfl
  rw [hstate, List.take_of_length_le hn, ht]
  rfl

end Runs

/-! ## What comes to rest -/

/-- A witness that stays until one of smaller rank takes its place is in the end never replaced. -/
theorem settles {ι : Type u} {ρ : Type v} [Preorder ρ] [WellFoundedLT ρ] (Witness : Nat → ι → Prop)
    (rank : ι → ρ) {n : Nat}
    (hstep : ∀ m, n ≤ m → ∀ i, Witness m i →
      Witness (m + 1) i ∨ ∃ j, Witness (m + 1) j ∧ rank j < rank i)
    {i : ι} (h : Witness n i) : ∃ m, n ≤ m ∧ ∃ j, ∀ k, m ≤ k → Witness k j := by
  have hfrom : ∀ r : ρ, ∀ i m, rank i = r → n ≤ m → Witness m i →
      ∃ m', n ≤ m' ∧ ∃ j, ∀ k, m' ≤ k → Witness k j := by
    intro r
    induction r using WellFoundedLT.induction with
    | ind r ih =>
      intro i m hr hm hi
      by_cases hall : ∀ k, m ≤ k → Witness k i
      · exact ⟨m, hm, i, hall⟩
      · -- the first moment at which the witness has gone comes right after one at which it was there
        have hstop : ∃ k, m ≤ k ∧ Witness k i ∧ ¬Witness (k + 1) i := by
          by_contra hnone
          apply hall
          intro k hk
          induction k, hk using Nat.le_induction with
          | base => exact hi
          | succ k hk hwitness =>
            by_contra hgone
            exact hnone ⟨k, hk, hwitness, hgone⟩
        obtain ⟨k, hk, hwitness, hgone⟩ := hstop
        rcases hstep k (Nat.le_trans hm hk) i hwitness with hkept | ⟨j, hj, hlt⟩
        · exact absurd hkept hgone
        · exact ih (rank j) (hr ▸ hlt) j (k + 1) rfl (by omega) hj
  exact hfrom (rank i) i n rfl (Nat.le_refl n) h

end Behaviour

end WorkflowEngine.Lib
