import WorkflowEngine.Lib.Transition

/-!
# Interleaved logs

A log in which each entry belongs to one of several activities. A lane is what one
activity wrote, in order. A system whose steps each write for one activity only, and
then what that activity's own history says, has in every lane the history of its
activity, however the steps interleave.
-/

namespace WorkflowEngine.Lib

set_option autoImplicit false

universe u v w
variable {ε : Type u}

/-- The entries of activity `i`. -/
def lane (i : Nat) (log : List (Nat × ε)) : List ε := (log.filter (·.1 == i)).map Prod.snd

theorem mem_lane {i : Nat} {log : List (Nat × ε)} {e : ε} : e ∈ lane i log ↔ (i, e) ∈ log := by
  simp [lane]

@[simp] theorem lane_nil (i : Nat) : lane i ([] : List (Nat × ε)) = [] := rfl

theorem lane_append (i : Nat) (log log' : List (Nat × ε)) : lane i (log ++ log') = lane i log ++ lane i log' := by
  simp [lane]

@[simp] theorem lane_own (i : Nat) (es : List ε) : lane i (es.map (Prod.mk i)) = es := by
  simp [lane, List.filter_map, Function.comp_def]

theorem lane_other {i j : Nat} (h : j ≠ i) (es : List ε) : lane j (es.map (Prod.mk i)) = [] := by
  have hne : (i == j) = false := beq_eq_false_iff_ne.mpr (Ne.symm h)
  simp [lane, List.filter_map, Function.comp_def, hne]

section Histories
variable {σ : Type v} {α : Type w} {step : σ → α → Option σ}

/-- `t` follows `s` by entries of one activity, which its history has gained. -/
def Appends (log : σ → List (Nat × ε)) (history : σ → Nat → List ε) (s t : σ) : Prop :=
  ∃ i es, log t = log s ++ es.map (Prod.mk i) ∧ history t i = history s i ++ es ∧
    ∀ j, j ≠ i → history t j = history s j

variable {log : σ → List (Nat × ε)} {history : σ → Nat → List ε}

/-- A step that writes nothing and changes no history. -/
theorem Appends.silent {s t : σ} (hlog : log t = log s) (hhistory : ∀ i, history t i = history s i) :
    Appends log history s t :=
  ⟨0, [], by simpa using hlog, by simpa using hhistory 0, fun j _ => hhistory j⟩

theorem Appends.lane {s t : σ} (h : Appends log history s t) (hs : ∀ i, lane i (log s) = history s i) (i : Nat) :
    lane i (log t) = history t i := by
  obtain ⟨j, es, hlog, hown, hother⟩ := h
  rw [hlog, lane_append, hs]
  by_cases hij : i = j
  · subst hij
    rw [lane_own, hown]
  · rw [lane_other hij, List.append_nil, hother i hij]

/-- The rule for whole runs. -/
theorem lane_eq_history {Inv : σ → Prop} (hinv : ∀ s a t, Inv s → step s a = some t → Inv t)
    (hstep : ∀ s a t, Inv s → step s a = some t → Appends log history s t) {s t : σ} {as : List α} (hs : Inv s)
    (hlane : ∀ i, lane i (log s) = history s i) (h : exec step s as = some t) (i : Nat) :
    lane i (log t) = history t i := by
  have hkeep : ∀ s a t, (Inv s ∧ ∀ i, lane i (log s) = history s i) → step s a = some t →
      Inv t ∧ ∀ i, lane i (log t) = history t i := by
    rintro s a t ⟨hs, hlane⟩ ht
    exact ⟨hinv s a t hs ht, (hstep s a t hs ht).lane hlane⟩
  have hrun : Inv t ∧ ∀ i, lane i (log t) = history t i := exec_invariant hkeep ⟨hs, hlane⟩ h
  exact hrun.2 i

end Histories

end WorkflowEngine.Lib
