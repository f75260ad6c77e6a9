import Mathlib.Data.List.Basic

/-!
# Runs of a partial step function

`step s a` is `none` when action `a` is not enabled in `s`. A run is a list of
actions; `exec` is defined on it exactly when every action is enabled in its
turn. `Along ok` says that every step of a run meets a side condition, so that
an invariant which only the good steps keep still has an induction rule.
-/

namespace WorkflowEngine.Lib

set_option autoImplicit false

universe u v

section Runs
variable {σ : Type u} {α : Type v} (step : σ → α → Option σ)

def exec : σ → List α → Option σ
  | s, [] => some s
  | s, a :: as => (step s a).bind fun t => exec t as

def Along (ok : σ → α → Prop) : σ → List α → Prop
  | _, [] => True
  | s, a :: as => ok s a ∧ ∀ t, step s a = some t → Along ok t as

/-- `P` holds in every state that a run passes. -/
def Always (P : σ → Prop) : σ → List α → Prop
  | s, [] => P s
  | s, a :: as => P s ∧ ∀ t, step s a = some t → Always P t as

variable {step}

theorem along_cons_of_some {ok : σ → α → Prop} {s t : σ} {a : α} {as : List α}
    (h : step s a = some t) : Along step ok s (a :: as) ↔ ok s a ∧ Along step ok t as := by
  simp [Along, h]

theorem along_cons_of_none {ok : σ → α → Prop} {s : σ} {a : α} {as : List α}
    (h : step s a = none) : Along step ok s (a :: as) ↔ ok s a := by
  simp [Along, h]

theorem along_congr {ok ok' : σ → α → Prop} (hok : ∀ s a, ok s a ↔ ok' s a) (s : σ) (as : List α) :
    Along step ok s as ↔ Along step ok' s as := by
  induction as generalizing s with
  | nil => exact Iff.rfl
  | cons a as ih => exact and_congr (hok s a) (forall_congr' fun t => imp_congr_right fun _ => ih t)

instance decidableAlong (ok : σ → α → Prop) [∀ s a, Decidable (ok s a)] :
    (s : σ) → (as : List α) → Decidable (Along step ok s as)
  | _, [] => isTrue trivial
  | s, a :: as =>
    match h : step s a with
    | none => decidable_of_iff _ (along_cons_of_none h).symm
    | some t =>
      have := decidableAlong ok t as
      decidable_of_iff _ (along_cons_of_some h).symm

/-- The side condition at one step of a run. -/
theorem Along.at {ok : σ → α → Prop} {s m : σ} {as : List α} (hok : Along step ok s as) {n : Nat} {a : α}
    (ha : as[n]? = some a) (hm : exec step s (as.take n) = some m) : ok m a := by
  induction as generalizing s n with
  | nil => cases ha
  | cons b as ih =>
    cases n with
    | zero =>
      cases hm
      cases ha
      exact hok.1
    | succ n =>
      obtain ⟨t, ht, hrest⟩ := Option.bind_eq_some_iff.mp hm
      exact ih (hok.2 t ht) ha hrest

@[simp] theorem exec_nil (s : σ) : exec step s [] = some s := rfl

theorem exec_cons_eq_some {s t : σ} {a : α} {as : List α} :
    exec step s (a :: as) = some t ↔ ∃ m, step s a = some m ∧ exec step m as = some t := by
  simp [exec, Option.bind_eq_some_iff]

theorem exec_append (s : σ) (as bs : List α) :
    exec step s (as ++ bs) = (exec step s as).bind fun t => exec step t bs := by
  induction as generalizing s with
  | nil => rfl
  | cons a as ih =>
    simp only [List.cons_append, exec]
    cases step s a with
    | none => rfl
    | some m => simpa using ih m

theorem exec_append_eq_some {s t : σ} {as bs : List α} :
    exec step s (as ++ bs) = some t ↔ ∃ m, exec step s as = some m ∧ exec step m bs = some t := by
  simp [exec_append, Option.bind_eq_some_iff]

/-- The invariant rule for runs whose steps all meet `ok`. -/
theorem exec_invariant_along {Inv : σ → Prop} {ok : σ → α → Prop}
    (hstep : ∀ s a t, Inv s → ok s a → step s a = some t → Inv t)
    {s t : σ} {as : List α} (hs : Inv s) (hok : Along step ok s as)
    (h : exec step s as = some t) : Inv t := by
  induction as generalizing s with
  | nil =>
    cases h
    exact hs
  | cons a as ih =>
    obtain ⟨m, hm, ht⟩ := exec_cons_eq_some.mp h
    exact ih (hstep s a m hs hok.1 hm) (hok.2 m hm) ht

/-- The invariant rule for arbitrary runs. -/
theorem exec_invariant {Inv : σ → Prop}
    (hstep : ∀ s a t, Inv s → step s a = some t → Inv t)
    {s t : σ} {as : List α} (hs : Inv s) (h : exec step s as = some t) : Inv t := by
  induction as generalizing s with
  | nil =>
    cases h
    exact hs
  | cons a as ih =>
    obtain ⟨m, hm, ht⟩ := exec_cons_eq_some.mp h
    exact ih (hstep s a m hs hm) ht

/-- A property that no later step restores holds at the end of a run exactly when every step meets
the condition under which one step keeps it. -/
theorem exec_good_iff_along {Inv Good : σ → Prop} {ok : σ → α → Prop}
    (hinv : ∀ s a t, Inv s → step s a = some t → Inv t)
    (hgood : ∀ s a t, Inv s → Good s → step s a = some t → (Good t ↔ ok s a))
    (hback : ∀ s a t, Inv s → step s a = some t → Good t → Good s)
    {s t : σ} {as : List α} (hs : Inv s) (hg : Good s) (h : exec step s as = some t) :
    Good t ↔ Along step ok s as := by
  have hpast : ∀ (as : List α) (m : σ), Inv m → exec step m as = some t → Good t → Good m := by
    intro as
    induction as with
    | nil =>
      intro m _ hm hgt
      cases hm
      exact hgt
    | cons a as ih =>
      intro m hm ht hgt
      obtain ⟨n, hn, ht⟩ := exec_cons_eq_some.mp ht
      exact hback m a n hm hn (ih n (hinv m a n hm hn) ht hgt)
  induction as generalizing s with
  | nil =>
    cases h
    exact ⟨fun _ => trivial, fun _ => hg⟩
  | cons a as ih =>
    obtain ⟨m, hm, ht⟩ := exec_cons_eq_some.mp h
    have him := hinv s a m hs hm
    have hstep := hgood s a m hs hg hm
    rw [along_cons_of_some hm, ← hstep]
    constructor
    · intro hgt
      have hgm := hpast as m him ht hgt
      exact ⟨hgm, (ih him hgm ht).mp hgt⟩
    · intro hall
      exact (ih him hall.1 ht).mpr hall.2

theorem Always.head {P : σ → Prop} {s : σ} {as : List α} (h : Always step P s as) : P s := by
  cases as with
  | nil => exact h
  | cons a as => exact h.1

/-- A property holds all along a run exactly when every step meets `ok`, where `ok` is what a step
needs to keep an invariant behind the property and what the property after a step shows of it. -/
theorem always_iff_along {Inv P : σ → Prop} {ok : σ → α → Prop} (hinv : ∀ s, Inv s → P s)
    (hkeep : ∀ s a t, Inv s → ok s a → step s a = some t → Inv t)
    (honly : ∀ s a t, Inv s → step s a = some t → P t → ok s a)
    {s t : σ} {as : List α} (hs : Inv s) (h : exec step s as = some t) :
    Always step P s as ↔ Along step ok s as := by
  induction as generalizing s with
  | nil => exact ⟨fun _ => trivial, fun _ => hinv s hs⟩
  | cons a as ih =>
    obtain ⟨m, hm, ht⟩ := exec_cons_eq_some.mp h
    rw [along_cons_of_some hm]
    constructor
    · intro hall
      have hrest := hall.2 m hm
      have hok := honly s a m hs hm hrest.head
      exact ⟨hok, (ih (hkeep s a m hs hok hm) ht).mp hrest⟩
    · intro hall
      refine ⟨hinv s hs, ?_⟩
      intro n hn
      obtain rfl : m = n := Option.some.inj (hm.symm.trans hn)
      exact (ih (hkeep s a m hs hall.1 hm) ht).mpr hall.2

/-- Runs whose actions agree under `g` lead to states that agree under `f`, when single steps do. -/
theorem exec_map_congr {τ : Type*} {β : Type*} {f : σ → τ} {g : α → β}
    (hstep : ∀ s t a b, f s = f t → g a = g b → (step s a).map f = (step t b).map f)
    {s t : σ} {as bs : List α} (hs : f s = f t) (has : as.map g = bs.map g) :
    (exec step s as).map f = (exec step t bs).map f := by
  induction as generalizing s t bs with
  | nil =>
    have hb : bs = [] := by simpa using has.symm
    subst hb
    simpa using hs
  | cons a as ih =>
    obtain ⟨b, bs, rfl⟩ : ∃ b bs', bs = b :: bs' := by
      cases bs with
      | nil => simp at has
      | cons b bs => exact ⟨b, bs, rfl⟩
    obtain ⟨hab, hrest⟩ := List.cons.inj has
    have hone := hstep s t a b hs hab
    simp only [exec]
    cases hm : step s a with
    | none =>
      rw [hm] at hone
      have hn : step t b = none := by simpa using hone.symm
      simp [hn]
    | some m =>
      rw [hm] at hone
      obtain ⟨n, hn, hmn⟩ : ∃ n, step t b = some n ∧ f n = f m := by simpa using hone.symm
      rw [hn]
      exact ih hmn.symm hrest

end Runs

end WorkflowEngine.Lib
