import Mathlib.Data.List.Forall2

/-!
# Computations that may throw

How a result of a sequence of throwing steps determines the results of its parts.
-/

namespace WorkflowEngine.Lib

set_option autoImplicit false

universe u v w

variable {ε : Type u} {α : Type v} {β : Type v}

theorem bind_eq_ok {x : Except ε α} {f : α → Except ε β} {b : β} (h : (x >>= f) = .ok b) :
    ∃ a, x = .ok a ∧ f a = .ok b := by
  cases x with
  | error e => cases h
  | ok a => exact ⟨a, rfl, h⟩

theorem mapError_eq_ok {ε' : Type w} {x : Except ε α} {f : ε → ε'} {a : α} (h : x.mapError f = .ok a) :
    x = .ok a := by
  cases x with
  | error e => cases h
  | ok a' =>
    cases h
    rfl

/-- A successful `mapM` is a success at every element, in order. -/
theorem mapM_eq_ok {γ : Type w} {f : γ → Except ε α} {cs : List γ} :
    ∀ {as : List α}, cs.mapM f = .ok as → List.Forall₂ (fun c a => f c = .ok a) cs as := by
  induction cs with
  | nil =>
    intro as h
    cases h
    exact List.Forall₂.nil
  | cons c cs ih =>
    intro as h
    rw [List.mapM_cons] at h
    obtain ⟨a, ha, h⟩ := bind_eq_ok h
    obtain ⟨as', has, h⟩ := bind_eq_ok h
    cases h
    exact List.Forall₂.cons ha (ih has)

theorem mem_mapM {γ : Type w} {f : γ → Except ε α} {cs : List γ} {as : List α} (h : cs.mapM f = .ok as)
    (a : α) : a ∈ as ↔ ∃ c ∈ cs, f c = .ok a := by
  have hall := mapM_eq_ok h
  clear h
  induction hall with
  | nil => simp
  | cons hca _ ih => simp [ih, hca, eq_comm]

theorem ok_of_mapM {γ : Type w} {f : γ → Except ε α} {cs : List γ} {as : List α} (h : cs.mapM f = .ok as)
    {c : γ} (hc : c ∈ cs) : ∃ a, f c = .ok a := by
  have hall := mapM_eq_ok h
  clear h
  induction hall with
  | nil => cases hc
  | @cons c' a' cs' as' hca _ ih =>
    rcases List.mem_cons.mp hc with rfl | hc
    · exact ⟨a', hca⟩
    · exact ih hc

/-- A `mapM` whose function never throws succeeds. -/
theorem exists_mapM {γ : Type w} {f : γ → Except ε α} {cs : List γ} (h : ∀ c ∈ cs, ∃ a, f c = .ok a) :
    ∃ as, cs.mapM f = .ok as := by
  induction cs with
  | nil => exact ⟨[], rfl⟩
  | cons c cs ih =>
    obtain ⟨a, ha⟩ := h c List.mem_cons_self
    obtain ⟨as, has⟩ := ih fun c' hc' => h c' (List.mem_cons_of_mem c hc')
    refine ⟨a :: as, ?_⟩
    rw [List.mapM_cons, ha, has]
    rfl

/-! ## What a computation can throw -/

/-- Every error of the computation satisfies `P`. -/
def OnlyThrows (P : ε → Prop) (x : Except ε α) : Prop := ∀ e, x = .error e → P e

namespace OnlyThrows
variable {P : ε → Prop}

theorem ok (a : α) : OnlyThrows P (.ok a : Except ε α) := by
  intro e h
  cases h

theorem error {e : ε} (h : P e) : OnlyThrows P (.error e : Except ε α) := by
  intro e' heq
  cases heq
  exact h

theorem bind {x : Except ε α} {f : α → Except ε β} (hx : OnlyThrows P x)
    (hf : ∀ a, x = .ok a → OnlyThrows P (f a)) : OnlyThrows P (x >>= f) := by
  cases x with
  | error e => exact error (hx e rfl)
  | ok a => exact hf a rfl

theorem map {x : Except ε α} (hx : OnlyThrows P x) (f : α → β) : OnlyThrows P (x.map f) := by
  cases x with
  | error e => exact error (hx e rfl)
  | ok a => exact ok (f a)

theorem mapError {ε' : Type*} {Q : ε' → Prop} {x : Except ε α} {f : ε → ε'} (hx : OnlyThrows P x)
    (hf : ∀ e, P e → Q (f e)) : OnlyThrows Q (x.mapError f) := by
  cases x with
  | error e => exact error (hf e (hx e rfl))
  | ok a => exact ok a

theorem ite {c : Prop} [Decidable c] {x y : Except ε α} (hx : c → OnlyThrows P x) (hy : ¬ c → OnlyThrows P y) :
    OnlyThrows P (if c then x else y) := by
  split
  · exact hx ‹c›
  · exact hy ‹¬ c›

theorem mapM {γ : Type w} {f : γ → Except ε α} {cs : List γ} (h : ∀ c ∈ cs, OnlyThrows P (f c)) :
    OnlyThrows P (cs.mapM f) := by
  induction cs with
  | nil => exact ok []
  | cons c cs ih =>
    rw [List.mapM_cons]
    refine bind (h c List.mem_cons_self) fun a _ => ?_
    exact bind (ih fun c' hc' => h c' (List.mem_cons_of_mem c hc')) fun as _ => ok (a :: as)

/-- A computation none of whose errors satisfies `P` keeps to `P` only by not throwing. -/
theorem iff_ok {Q : ε → Prop} {x : Except ε α} (h : OnlyThrows Q x) (hPQ : ∀ e, Q e → ¬ P e) :
    OnlyThrows P x ↔ ∃ a, x = .ok a := by
  cases x with
  | error e =>
    constructor
    · intro hP
      exact absurd (hP e rfl) (hPQ e (h e rfl))
    · rintro ⟨a, ha⟩
      cases ha
  | ok a => exact ⟨fun _ => ⟨a, rfl⟩, fun _ => ok a⟩

end OnlyThrows

/-- A `mapM` succeeds exactly when its function does at every element. -/
theorem exists_mapM_iff {γ : Type w} {f : γ → Except ε α} {cs : List γ} :
    (∃ as, cs.mapM f = .ok as) ↔ ∀ c ∈ cs, ∃ a, f c = .ok a :=
  ⟨fun ⟨_, h⟩ _ hc => ok_of_mapM h hc, exists_mapM⟩

end WorkflowEngine.Lib
