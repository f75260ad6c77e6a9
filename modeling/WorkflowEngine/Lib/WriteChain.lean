import WorkflowEngine.Lib.Transition

/-!
# A chain of writes

Writes that a promise chain runs one after another: each starts when the one before it has settled, takes its
statements one at a time between those of whatever else runs, and may fail at any of them, which takes the state
back to where it started. In every reachable state the writes have run as if each were one step.
-/

namespace WorkflowEngine.Lib.WriteChain

set_option autoImplicit false

universe u v w

/-- A write: each statement reads the state and changes it, and the next one depends on what it read. -/
inductive Program (σ : Type u) (ρ : Type v) where
  | done (result : ρ)
  | statement (effect : σ → σ) (next : σ → Program σ ρ)

/-- All statements at once. -/
def Program.run {σ : Type u} {ρ : Type v} : Program σ ρ → σ → σ × ρ
  | .done result, s => (s, result)
  | .statement effect next, s => (next s).run (effect s)

section Chain
variable {σ : Type u} {ρ : Type v} {ω : Type w}

inductive Status (σ : Type u) (ρ : Type v) where
  | waiting
  | running (seen : σ) (rest : Program σ ρ)
  | settled (seen : σ) (result : Option ρ)

def Status.isSettled : Status σ ρ → Bool
  | .settled _ _ => true
  | _ => false

structure Entry (σ : Type u) (ρ : Type v) (ω : Type w) where
  write : ω
  status : Status σ ρ

structure Chain (σ : Type u) (ρ : Type v) (ω : Type w) where
  state : σ
  entries : List (Entry σ ρ ω)

inductive Turn where
  | start
  | statement
  | settle
  | fail

inductive ChainAction (ω : Type w) where
  | call (write : ω)
  | turn (t : Turn) (i : Nat)

variable (program : ω → Program σ ρ)

/-- The promise that write `i` waits for. -/
def ready (entries : List (Entry σ ρ ω)) : Nat → Bool
  | 0 => true
  | i + 1 => match entries[i]? with
    | some e => e.status.isSettled
    | none => false

def Chain.put (c : Chain σ ρ ω) (i : Nat) (state : σ) (e : Entry σ ρ ω) : Chain σ ρ ω :=
  ⟨state, c.entries.set i e⟩

def step (c : Chain σ ρ ω) : ChainAction ω → Option (Chain σ ρ ω)
  | .call write => some { c with entries := c.entries ++ [⟨write, .waiting⟩] }
  | .turn .start i =>
    match c.entries[i]? with
    | some ⟨write, .waiting⟩ =>
      if ready c.entries i then some (c.put i c.state ⟨write, .running c.state (program write)⟩) else none
    | _ => none
  | .turn .statement i =>
    match c.entries[i]? with
    | some ⟨write, .running seen (.statement effect next)⟩ =>
      some (c.put i (effect c.state) ⟨write, .running seen (next c.state)⟩)
    | _ => none
  | .turn .settle i =>
    match c.entries[i]? with
    | some ⟨write, .running seen (.done result)⟩ => some (c.put i c.state ⟨write, .settled seen (some result)⟩)
    | _ => none
  | .turn .fail i =>
    match c.entries[i]? with
    | some ⟨write, .running seen _⟩ => some (c.put i seen ⟨write, .settled seen none⟩)
    | _ => none

/-! ## One after another -/

/-- The writes in order, each a single step from the state that the one before it left. -/
inductive Serial (s₀ : σ) : List (Entry σ ρ ω) → σ → Prop
  | nil : Serial s₀ [] s₀
  | ok {es : List (Entry σ ρ ω)} {s : σ} (h : Serial s₀ es s) (write : ω) :
    Serial s₀ (es ++ [⟨write, .settled s (some ((program write).run s).2)⟩]) ((program write).run s).1
  | failed {es : List (Entry σ ρ ω)} {s : σ} (h : Serial s₀ es s) (write : ω) :
    Serial s₀ (es ++ [⟨write, .settled s none⟩]) s

def waiting (writes : List ω) : List (Entry σ ρ ω) := writes.map fun write => ⟨write, .waiting⟩

/-- The writes that have settled ran one after another, at most one is running, and the rest wait. -/
inductive Inv (s₀ : σ) (c : Chain σ ρ ω) : Prop
  | idle {done : List (Entry σ ρ ω)} {writes : List ω} (hentries : c.entries = done ++ waiting writes)
    (hserial : Serial program s₀ done c.state) : Inv s₀ c
  | busy {done : List (Entry σ ρ ω)} {seen : σ} {write : ω} {rest : Program σ ρ} {writes : List ω}
    (hentries : c.entries = done ++ ⟨write, .running seen rest⟩ :: waiting writes)
    (hserial : Serial program s₀ done seen) (hrest : rest.run c.state = (program write).run seen) : Inv s₀ c

section Invariant
variable {program : ω → Program σ ρ} {s₀ : σ}

theorem Serial.isSettled {es : List (Entry σ ρ ω)} {s : σ} (h : Serial program s₀ es s) :
    ∀ e ∈ es, e.status.isSettled = true := by
  induction h with
  | nil => simp
  | ok h write ih => simpa [or_imp, forall_and] using ⟨ih, rfl⟩
  | failed h write ih => simpa [or_imp, forall_and] using ⟨ih, rfl⟩

theorem waiting_append (writes : List ω) (write : ω) :
    (waiting (writes ++ [write]) : List (Entry σ ρ ω)) = waiting writes ++ [⟨write, .waiting⟩] := by
  simp [waiting]

theorem status_of_mem_waiting {writes : List ω} {e : Entry σ ρ ω} (h : e ∈ waiting writes) : e.status = .waiting := by
  obtain ⟨write, _, rfl⟩ := List.mem_map.mp h
  rfl

theorem unsettled_waiting (writes : List ω) :
    ∀ e ∈ (waiting writes : List (Entry σ ρ ω)), e.status.isSettled = false := by
  intro e he
  rw [status_of_mem_waiting he]
  rfl

theorem unsettled_running (write : ω) (seen : σ) (rest : Program σ ρ) (writes : List ω) :
    ∀ e ∈ (⟨write, .running seen rest⟩ :: waiting writes : List (Entry σ ρ ω)), e.status.isSettled = false := by
  intro e he
  rcases List.mem_cons.mp he with rfl | he
  · rfl
  · exact unsettled_waiting writes e he

/-- A write that has not settled stands after those that have. -/
theorem index_of_unsettled {done tail : List (Entry σ ρ ω)} (hdone : ∀ e ∈ done, e.status.isSettled = true) {i : Nat}
    {e : Entry σ ρ ω} (hi : (done ++ tail)[i]? = some e) (he : e.status.isSettled = false) :
    ∃ j, i = done.length + j ∧ tail[j]? = some e := by
  by_cases hlt : i < done.length
  · rw [List.getElem?_append_left hlt] at hi
    rw [hdone e (List.mem_of_getElem? hi)] at he
    cases he
  · have hle : done.length ≤ i := Nat.le_of_not_lt hlt
    rw [List.getElem?_append_right hle] at hi
    exact ⟨i - done.length, (Nat.add_sub_cancel' hle).symm, hi⟩

/-- Only the first of the writes that have not settled is ready. -/
theorem ready_index {done tail : List (Entry σ ρ ω)} (htail : ∀ e ∈ tail, e.status.isSettled = false) {j : Nat}
    (hj : j < tail.length) (hready : ready (done ++ tail) (done.length + j) = true) : j = 0 := by
  cases j with
  | zero => rfl
  | succ j =>
    have hlt : j < tail.length := Nat.lt_of_succ_lt hj
    rw [← Nat.add_assoc, ready, List.getElem?_append_right (Nat.le_add_right _ _), Nat.add_sub_cancel_left,
      List.getElem?_eq_getElem hlt] at hready
    have hnot := htail tail[j] (List.getElem_mem hlt)
    simp only [hnot] at hready
    cases hready

theorem put_entries {c : Chain σ ρ ω} {done rest : List (Entry σ ρ ω)} {e : Entry σ ρ ω}
    (h : c.entries = done ++ e :: rest) (s : σ) (e' : Entry σ ρ ω) :
    (c.put (done.length + 0) s e').entries = done ++ e' :: rest := by
  rw [Chain.put, h, List.set_append_right _ _ (Nat.le_add_right _ _), Nat.add_sub_cancel_left]
  rfl

theorem put_entries_settled {c : Chain σ ρ ω} {done : List (Entry σ ρ ω)} {writes : List ω} {e : Entry σ ρ ω}
    (h : c.entries = done ++ e :: waiting writes) (s : σ) (e' : Entry σ ρ ω) :
    (c.put (done.length + 0) s e').entries = (done ++ [e']) ++ waiting writes := by
  rw [put_entries h, List.append_assoc]
  rfl

theorem call_entries {c : Chain σ ρ ω} {done : List (Entry σ ρ ω)} {writes : List ω}
    (h : c.entries = done ++ waiting writes) (write : ω) :
    c.entries ++ [⟨write, .waiting⟩] = done ++ waiting (writes ++ [write]) := by
  rw [h, waiting_append, List.append_assoc]

/-- What a step can do. -/
inductive Moves (program : ω → Program σ ρ) (c : Chain σ ρ ω) : Chain σ ρ ω → Prop
  | call (write : ω) : Moves program c ⟨c.state, c.entries ++ [⟨write, .waiting⟩]⟩
  | start {i : Nat} {write : ω} (hi : c.entries[i]? = some ⟨write, .waiting⟩) (hready : ready c.entries i = true) :
    Moves program c (c.put i c.state ⟨write, .running c.state (program write)⟩)
  | statement {i : Nat} {write : ω} {seen : σ} {effect : σ → σ} {next : σ → Program σ ρ}
    (hi : c.entries[i]? = some ⟨write, .running seen (.statement effect next)⟩) :
    Moves program c (c.put i (effect c.state) ⟨write, .running seen (next c.state)⟩)
  | settle {i : Nat} {write : ω} {seen : σ} {result : ρ}
    (hi : c.entries[i]? = some ⟨write, .running seen (.done result)⟩) :
    Moves program c (c.put i c.state ⟨write, .settled seen (some result)⟩)
  | fail {i : Nat} {write : ω} {seen : σ} {rest : Program σ ρ}
    (hi : c.entries[i]? = some ⟨write, .running seen rest⟩) :
    Moves program c (c.put i seen ⟨write, .settled seen none⟩)

theorem moves_of_step {c c' : Chain σ ρ ω} {a : ChainAction ω} (h : step program c a = some c') :
    Moves program c c' := by
  cases a with
  | call write =>
    cases h
    exact .call write
  | turn t i =>
    cases t with
    | start =>
      simp only [step] at h
      split at h
      · rename_i hi
        split at h
        · rename_i hready
          cases h
          exact .start hi hready
        · cases h
      · cases h
    | statement =>
      simp only [step] at h
      split at h
      · rename_i hi
        cases h
        exact .statement hi
      · cases h
    | settle =>
      simp only [step] at h
      split at h
      · rename_i hi
        cases h
        exact .settle hi
      · cases h
    | fail =>
      simp only [step] at h
      split at h
      · rename_i hi
        cases h
        exact .fail hi
      · cases h

/-- No write runs where all that has not settled waits. -/
theorem not_running_waiting {writes : List ω} {j : Nat} {write : ω} {seen : σ} {rest : Program σ ρ}
    (h : (waiting writes)[j]? = some ⟨write, .running seen rest⟩) : False := by
  have hstatus := status_of_mem_waiting (List.mem_of_getElem? h)
  cases hstatus

theorem Inv.moves_idle {c c' : Chain σ ρ ω} {done : List (Entry σ ρ ω)} {writes : List ω}
    (hentries : c.entries = done ++ waiting writes) (hserial : Serial program s₀ done c.state)
    (h : Moves program c c') : Inv program s₀ c' := by
  have hdone := hserial.isSettled
  cases h with
  | call write => exact .idle (call_entries hentries write) hserial
  | @start i write hi hready =>
    rw [hentries] at hi hready
    obtain ⟨j, rfl, hj⟩ := index_of_unsettled hdone hi rfl
    obtain rfl := ready_index (unsettled_waiting _) (List.getElem?_eq_some_iff.mp hj).1 hready
    cases writes with
    | nil => cases hj
    | cons first writes =>
      cases hj
      exact .busy (put_entries hentries _ _) hserial rfl
  | statement hi =>
    rw [hentries] at hi
    obtain ⟨j, _, hj⟩ := index_of_unsettled hdone hi rfl
    exact (not_running_waiting hj).elim
  | settle hi =>
    rw [hentries] at hi
    obtain ⟨j, _, hj⟩ := index_of_unsettled hdone hi rfl
    exact (not_running_waiting hj).elim
  | fail hi =>
    rw [hentries] at hi
    obtain ⟨j, _, hj⟩ := index_of_unsettled hdone hi rfl
    exact (not_running_waiting hj).elim

/-- The one write that runs is the first that has not settled. -/
theorem running_index {done : List (Entry σ ρ ω)} (hdone : ∀ e ∈ done, e.status.isSettled = true) {e : Entry σ ρ ω}
    {writes : List ω} {i : Nat} {write : ω} {seen : σ} {rest : Program σ ρ}
    (hi : (done ++ e :: waiting writes)[i]? = some ⟨write, .running seen rest⟩) :
    i = done.length + 0 ∧ e = ⟨write, .running seen rest⟩ := by
  obtain ⟨j, rfl, hj⟩ := index_of_unsettled hdone hi rfl
  cases j with
  | zero => exact ⟨rfl, Option.some.inj hj⟩
  | succ j => exact (not_running_waiting hj).elim

theorem Inv.moves_busy {c c' : Chain σ ρ ω} {done : List (Entry σ ρ ω)} {seen : σ} {write : ω}
    {rest : Program σ ρ} {writes : List ω}
    (hentries : c.entries = done ++ ⟨write, .running seen rest⟩ :: waiting writes)
    (hserial : Serial program s₀ done seen) (hrest : rest.run c.state = (program write).run seen)
    (h : Moves program c c') : Inv program s₀ c' := by
  have hdone := hserial.isSettled
  cases h with
  | call other =>
    have hcall : c.entries ++ [⟨other, .waiting⟩] =
        done ++ ⟨write, .running seen rest⟩ :: waiting (writes ++ [other]) := by
      rw [hentries, waiting_append, List.append_assoc]
      rfl
    exact .busy hcall hserial hrest
  | @start i other hi hready =>
    rw [hentries] at hi hready
    obtain ⟨j, rfl, hj⟩ := index_of_unsettled hdone hi rfl
    obtain rfl := ready_index (unsettled_running _ _ _ _) (List.getElem?_eq_some_iff.mp hj).1 hready
    cases hj
  | statement hi =>
    rw [hentries] at hi
    obtain ⟨rfl, heq⟩ := running_index hdone hi
    cases heq
    exact .busy (put_entries hentries _ _) hserial hrest
  | @settle i other seen' result hi =>
    rw [hentries] at hi
    obtain ⟨rfl, heq⟩ := running_index hdone hi
    cases heq
    have hrun : (program write).run seen = (c.state, result) := hrest.symm
    have hok := hserial.ok write
    rw [hrun] at hok
    exact .idle (put_entries_settled hentries _ _) hok
  | fail hi =>
    rw [hentries] at hi
    obtain ⟨rfl, heq⟩ := running_index hdone hi
    cases heq
    exact .idle (put_entries_settled hentries _ _) (hserial.failed write)

theorem Inv.step {c c' : Chain σ ρ ω} {a : ChainAction ω} (hinv : Inv program s₀ c)
    (h : WriteChain.step program c a = some c') : Inv program s₀ c' := by
  cases hinv with
  | idle hentries hserial => exact moves_idle hentries hserial (moves_of_step h)
  | busy hentries hserial hrest => exact moves_busy hentries hserial hrest (moves_of_step h)

theorem inv_start : Inv program s₀ ⟨s₀, []⟩ := by
  have hnone : ([] : List (Entry σ ρ ω)) = [] ++ waiting [] := rfl
  exact .idle hnone .nil

/-! ## What a write sees -/

/-- A settled write ran from the state that the writes before it left, whole or without effect. -/
inductive RanAt (program : ω → Program σ ρ) (s₀ : σ) (es : List (Entry σ ρ ω)) (i : Nat) (seen : σ) (write : ω) :
    Option ρ → Prop
  | ok (hbefore : Serial program s₀ (es.take i) seen)
    (hafter : Serial program s₀ (es.take (i + 1)) ((program write).run seen).1) :
    RanAt program s₀ es i seen write (some ((program write).run seen).2)
  | failed (hbefore : Serial program s₀ (es.take i) seen) (hafter : Serial program s₀ (es.take (i + 1)) seen) :
    RanAt program s₀ es i seen write none

theorem RanAt.append {es : List (Entry σ ρ ω)} {i : Nat} {seen : σ} {write : ω} {result : Option ρ}
    (hi : i < es.length) (h : RanAt program s₀ es i seen write result) (more : List (Entry σ ρ ω)) :
    RanAt program s₀ (es ++ more) i seen write result := by
  have hbefore : (es ++ more).take i = es.take i := List.take_append_of_le_length (Nat.le_of_lt hi)
  have hafter : (es ++ more).take (i + 1) = es.take (i + 1) := List.take_append_of_le_length hi
  cases h with
  | ok hb ha =>
    rw [← hbefore] at hb
    rw [← hafter] at ha
    exact .ok hb ha
  | failed hb ha =>
    rw [← hbefore] at hb
    rw [← hafter] at ha
    exact .failed hb ha

/-- An entry of a list with one more is in the list or the new one. -/
theorem getElem?_concat_cases {es : List (Entry σ ρ ω)} {x e : Entry σ ρ ω} {i : Nat}
    (h : (es ++ [x])[i]? = some e) : (i < es.length ∧ es[i]? = some e) ∨ (i = es.length ∧ x = e) := by
  rw [List.getElem?_append] at h
  split at h
  · rename_i hlt
    exact Or.inl ⟨hlt, h⟩
  · rename_i hlt
    obtain ⟨hzero, heq⟩ := List.getElem?_eq_some_iff.mp h
    rw [List.length_singleton, Nat.lt_one_iff] at hzero
    rw [List.getElem_singleton] at heq
    exact Or.inr ⟨Nat.le_antisymm (Nat.sub_eq_zero_iff_le.mp hzero) (Nat.le_of_not_lt hlt), heq⟩

theorem Serial.ranAt {es : List (Entry σ ρ ω)} {s : σ} (h : Serial program s₀ es s) {i : Nat} {write : ω} {seen : σ}
    {result : Option ρ} (hi : es[i]? = some ⟨write, .settled seen result⟩) :
    RanAt program s₀ es i seen write result := by
  induction h with
  | nil => cases hi
  | @ok es s hserial other ih =>
    rcases getElem?_concat_cases hi with ⟨hlt, hi⟩ | ⟨rfl, heq⟩
    · exact (ih hi).append hlt _
    · cases heq
      refine .ok ?_ ?_
      · rw [List.take_left]
        exact hserial
      · rw [List.take_of_length_le (by simp)]
        exact hserial.ok write
  | @failed es s hserial other ih =>
    rcases getElem?_concat_cases hi with ⟨hlt, hi⟩ | ⟨rfl, heq⟩
    · exact (ih hi).append hlt _
    · cases heq
      refine .failed ?_ ?_
      · rw [List.take_left]
        exact hserial
      · rw [List.take_of_length_le (by simp)]
        exact hserial.failed write

theorem Inv.ranAt {c : Chain σ ρ ω} (h : Inv program s₀ c) {i : Nat} {write : ω} {seen : σ} {result : Option ρ}
    (hi : c.entries[i]? = some ⟨write, .settled seen result⟩) : RanAt program s₀ c.entries i seen write result := by
  have hfrom : ∀ (done tail : List (Entry σ ρ ω)) (s : σ), Serial program s₀ done s →
      (∀ e ∈ tail, e.status.isSettled = false) → c.entries = done ++ tail →
      RanAt program s₀ c.entries i seen write result := by
    intro done tail s hserial htail hentries
    rw [hentries] at hi ⊢
    by_cases hlt : i < done.length
    · rw [List.getElem?_append_left hlt] at hi
      exact (hserial.ranAt hi).append hlt tail
    · rw [List.getElem?_append_right (Nat.le_of_not_lt hlt)] at hi
      cases htail _ (List.mem_of_getElem? hi)
  cases h with
  | idle hentries hserial => exact hfrom _ _ _ hserial (unsettled_waiting _) hentries
  | busy hentries hserial hrest => exact hfrom _ _ _ hserial (unsettled_running _ _ _ _) hentries

/-- A write that runs started from the state that the writes before it left. -/
theorem Inv.runningAt {c : Chain σ ρ ω} (h : Inv program s₀ c) {i : Nat} {write : ω} {seen : σ}
    {rest : Program σ ρ} (hi : c.entries[i]? = some ⟨write, .running seen rest⟩) :
    Serial program s₀ (c.entries.take i) seen := by
  cases h with
  | idle hentries hserial =>
    rw [hentries] at hi
    obtain ⟨j, _, hj⟩ := index_of_unsettled hserial.isSettled hi rfl
    exact (not_running_waiting hj).elim
  | busy hentries hserial hrest =>
    rw [hentries] at hi ⊢
    obtain ⟨rfl, heq⟩ := running_index hserial.isSettled hi
    cases heq
    rw [Nat.add_zero, List.take_left]
    exact hserial

end Invariant

end Chain

end WorkflowEngine.Lib.WriteChain
