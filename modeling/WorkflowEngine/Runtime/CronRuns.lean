import WorkflowEngine.Runtime.CronSource

/-!
# Every run of the cron source

The invariant of the source carried through wakes and settled fires, and with it what
holds of every interleaving: one pending timer for an entry at most, none for an entry
that was replaced or stopped, no current entry that is forgotten, and one call of
`fire` for each wake of a timer that was not clamped.
-/

namespace WorkflowEngine.Runtime.Cron

open Lib
set_option autoImplicit false

/-! ## The steps keep the invariant -/

theorem Good.settle {s : CronSource} (h : Good (fun _ => False) s) (e : Nat) :
    Good (fun f => f = e) { s with firing := s.firing.erase e } := by
  refine { h with idle := ?_, firing_nodup := h.firing_nodup.erase e, covered := ?_ }
  · intro f hf
    exact h.idle f (List.mem_of_mem_erase hf)
  · intro f y hy hcur hne
    rcases h.covered f y hy hcur (fun hfalse => hfalse) with htimer | hfire | hreport
    · exact Or.inl htimer
    · exact Or.inr (Or.inl ((List.mem_erase_of_ne hne).mpr hfire))
    · exact Or.inr (Or.inr hreport)

/-- A wake of a pending timer: its entry, and the state in which `onFire` has cleared the handle. -/
theorem Good.woken {s : CronSource} (h : Good (fun _ => False) s) {handle : Nat} {t : Timer}
    (ht : s.timers[handle]? = some t) (hpending : t.status = .pending) :
    ∃ x, s.entries[t.entry]? = some x ∧ t.entry ∉ s.firing ∧ s.isCurrent t.entry = true ∧
      Good (fun f => f = t.entry)
        { s with
          timers := s.timers.set handle { t with status := .woken }
          entries := s.entries.set t.entry { x with timer := none } } := by
  obtain ⟨x, hx, hhandle⟩ := h.linked handle t ht hpending
  have hnot : t.entry ∉ s.firing := by
    intro hmem
    obtain ⟨y, hy, hnone⟩ := h.idle _ hmem
    obtain rfl : x = y := Option.some.inj (hx.symm.trans hy)
    rw [hhandle] at hnone
    cases hnone
  have hgood := h.release hx hhandle ht (show TimerStatus.woken ≠ .pending by decide)
    (t := { s with
      timers := s.timers.set handle { t with status := .woken }
      entries := s.entries.set t.entry { x with timer := none } }) rfl rfl rfl rfl rfl
  refine ⟨x, hx, hnot, h.live _ x handle hx hhandle, hgood.mono ?_⟩
  rintro f (hfalse | hf)
  · cases hfalse
  · exact hf

/-- The two ends of a wake. -/
theorem wake_cases {cron : CronExpressionParser} {s u : CronSource} {handle : Nat} {now : Int}
    (h : Good (fun _ => False) s) (hstep : step cron s (.wake handle now) = some u) :
    ∃ t x, s.timers[handle]? = some t ∧ t.status = .pending ∧ s.entries[t.entry]? = some x ∧
      s.isCurrent t.entry = true ∧
      ((t.wasClamped = true ∧ u = CronSource.arm cron
          { s with
            timers := s.timers.set handle { t with status := .woken }
            entries := s.entries.set t.entry { x with timer := none } } t.entry now) ∨
       (t.wasClamped = false ∧ u =
          { s with
            timers := s.timers.set handle { t with status := .woken }
            entries := s.entries.set t.entry { x with timer := none }
            firing := s.firing ++ [t.entry]
            fires := s.fires ++ [t.entry] })) := by
  simp only [step] at hstep
  split at hstep
  · cases hstep
  · rename_i t ht
    split at hstep
    · rename_i hpending
      obtain ⟨x, hx, -, hcur, -⟩ := h.woken ht hpending
      refine ⟨t, x, ht, hpending, hx, hcur, ?_⟩
      simp only [CronSource.onFire, hx] at hstep
      cases hclamped : t.wasClamped with
      | true =>
        rw [hclamped] at hstep
        exact Or.inl ⟨rfl, (Option.some.inj hstep).symm⟩
      | false =>
        rw [hclamped] at hstep
        exact Or.inr ⟨rfl, (Option.some.inj hstep).symm⟩
    · cases hstep

theorem Good.wake {cron : CronExpressionParser} {s u : CronSource} {handle : Nat} {now : Int}
    (h : Good (fun _ => False) s) (hstep : step cron s (.wake handle now) = some u) :
    Good (fun _ => False) u := by
  obtain ⟨t, x, ht, hpending, hx, hcur, hcases⟩ := wake_cases h hstep
  obtain ⟨x', hx', hnot, -, hgood⟩ := h.woken ht hpending
  obtain rfl : x = x' := Option.some.inj (hx.symm.trans hx')
  have hself : (s.entries.set t.entry { x with timer := none })[t.entry]? =
      some { x with timer := none } := List.getElem?_set_self (lt_of_getElem?_eq_some hx)
  rcases hcases with ⟨-, rfl⟩ | ⟨-, rfl⟩
  · refine hgood.arm cron hself rfl hnot ?_ now fun f hf => Or.inr hf
    exact Eq.trans (isCurrent_setTimer hx none (by rfl) (by rfl) t.entry) hcur
  · exact hgood.fire hself rfl hnot rfl rfl rfl rfl rfl fun f hf => Or.inr hf

theorem settled_cases {cron : CronExpressionParser} {s u : CronSource} {e : Nat} {now : Int}
    (hstep : step cron s (.settled e now) = some u) :
    e ∈ s.firing ∧
      ((s.isCurrent e = true ∧ u = CronSource.arm cron { s with firing := s.firing.erase e } e now) ∨
       (s.isCurrent e = false ∧ u = { s with firing := s.firing.erase e })) := by
  simp only [step] at hstep
  split at hstep
  · rename_i hmem
    refine ⟨hmem, ?_⟩
    have hsame : ({ s with firing := s.firing.erase e } : CronSource).isCurrent e = s.isCurrent e := rfl
    rw [hsame] at hstep
    cases hcur : s.isCurrent e with
    | true =>
      rw [hcur] at hstep
      exact Or.inl ⟨rfl, (Option.some.inj hstep).symm⟩
    | false =>
      rw [hcur] at hstep
      exact Or.inr ⟨rfl, (Option.some.inj hstep).symm⟩
  · cases hstep

theorem Good.settled {cron : CronExpressionParser} {s u : CronSource} {e : Nat} {now : Int}
    (h : Good (fun _ => False) s) (hstep : step cron s (.settled e now) = some u) :
    Good (fun _ => False) u := by
  obtain ⟨hmem, hcases⟩ := settled_cases hstep
  rcases hcases with ⟨hcur, rfl⟩ | ⟨hcur, rfl⟩
  · obtain ⟨x, hx, hnone⟩ := h.idle e hmem
    exact (h.settle e).arm cron hx hnone h.firing_nodup.not_mem_erase hcur now fun f hf => Or.inr hf
  · refine { h.settle e with covered := ?_ }
    intro f y hy hfcur _
    refine (h.settle e).covered f y hy hfcur ?_
    rintro rfl
    exact absurd (show s.isCurrent f = true from hfcur) (by simp [hcur])

/-- The entries of a `reconfigure` have different keys. -/
def CronAction.DistinctKeys : CronAction → Prop
  | .reconfigure _ _ entries => (entries.map fun d => entryKey d.1).Nodup
  | _ => True

theorem Good.step {cron : CronExpressionParser} {s u : CronSource} {a : CronAction}
    (h : Good (fun _ => False) s) (hkeys : a.DistinctKeys) (hstep : step cron s a = some u) :
    Good (fun _ => False) u := by
  cases a with
  | reconfigure owner repo entries =>
    obtain rfl := Option.some.inj hstep
    exact h.reconfigure cron owner repo entries hkeys
  | stop =>
    obtain rfl := Option.some.inj hstep
    exact h.stop
  | wake handle now => exact h.wake hstep
  | settled e now => exact h.settled hstep

/-! ## Fires -/

/-- Every wake of a timer that was not clamped has called `fire` once, and nothing else has. -/
def Counted (s : CronSource) : Prop :=
  ∀ e, s.fires.count e = (s.timers.map Timer.row).count (e, false, true)

theorem Counted.congr {s t : CronSource} (h : Counted s)
    (hrows : t.timers.map Timer.row = s.timers.map Timer.row) (hfires : t.fires = s.fires) :
    Counted t := by
  intro e
  rw [hrows, hfires]
  exact h e

theorem Counted.arm {s : CronSource} (h : Counted s) (cron : CronExpressionParser) (e : Nat)
    (now : Int) : Counted (s.arm cron e now) := by
  obtain ⟨-, -, hfires, -, hrows | ⟨wasClamped, hrows⟩⟩ := arm_frame cron s e now
  · exact h.congr hrows hfires
  · intro f
    rw [hrows, hfires, h f, List.count_append]
    simp

theorem Counted.wake {cron : CronExpressionParser} {s u : CronSource} {handle : Nat} {now : Int}
    (h : Counted s) (hgood : Good (fun _ => False) s)
    (hstep : step cron s (.wake handle now) = some u) : Counted u := by
  obtain ⟨t, x, ht, hpending, hx, -, hcases⟩ := wake_cases hgood hstep
  have hadd : ∀ f, ((s.timers.set handle { t with status := .woken }).map Timer.row).count
      (f, false, true) = (s.timers.map Timer.row).count (f, false, true) +
        if t.entry = f ∧ t.wasClamped = false then 1 else 0 := by
    intro f
    have hset := countP_set_add (fun u : Timer => u.row == (f, false, true)) ht
      (y := { t with status := .woken })
    simp only [List.count, List.countP_map, Function.comp_def]
    simpa [Timer.row, hpending] using hset
  rcases hcases with ⟨hclamped, rfl⟩ | ⟨hclamped, rfl⟩
  · refine Counted.arm ?_ cron _ now
    intro f
    dsimp only
    rw [hadd f, if_neg (by simp [hclamped]), h f]
    rfl
  · intro f
    dsimp only
    rw [hadd f, List.count_append, h f]
    simp [hclamped, List.count_singleton]

theorem Counted.installAll {s : CronSource} (h : Counted s) (cron : CronExpressionParser)
    (owner repo : String) (entries : List (Descriptor × Int)) :
    Counted (entries.foldl (fun s d => (s.install owner repo d.1).arm cron s.entries.length d.2) s) := by
  induction entries generalizing s with
  | nil => exact h
  | cons d entries ih => exact ih (Counted.arm (h.congr (by rfl) (by rfl)) cron _ d.2)

theorem Counted.step {cron : CronExpressionParser} {s u : CronSource} {a : CronAction}
    (h : Counted s) (hgood : Good (fun _ => False) s) (hstep : step cron s a = some u) :
    Counted u := by
  cases a with
  | reconfigure owner repo entries =>
    obtain rfl := Option.some.inj hstep
    obtain ⟨-, hc⟩ :=
      hgood.cancelAll (((s.pairs.get? (pairKey owner repo)).map OrderedMap.values).getD [])
    rw [← cancelPair_eq] at hc
    have hcancelled : Counted (s.cancelPair owner repo) := h.congr hc.rows hc.fires
    unfold CronSource.reconfigure
    dsimp only
    split
    · exact hcancelled.congr rfl rfl
    · exact Counted.installAll (hcancelled.congr (by rfl) (by rfl)) cron owner repo entries
  | stop =>
    obtain rfl := Option.some.inj hstep
    obtain ⟨-, hc⟩ := hgood.cancelAll (s.pairs.values.flatMap OrderedMap.values)
    exact h.congr hc.rows hc.fires
  | wake handle now => exact h.wake hgood hstep
  | settled e now =>
    obtain ⟨-, ⟨-, rfl⟩ | ⟨-, rfl⟩⟩ := settled_cases hstep
    · exact Counted.arm (h.congr (by rfl) (by rfl)) cron e now
    · exact h.congr rfl rfl

/-! ## Entries that are no longer current -/

/-- How often `setTimeout` has been called for an entry. -/
def armsOf (s : CronSource) (e : Nat) : Nat := (s.timers.map Timer.row).countP fun r => r.1 = e

/-- What was not current is not current again and is not armed again. -/
structure Retires (s t : CronSource) : Prop where
  length : s.entries.length ≤ t.entries.length
  current : ∀ e < s.entries.length, s.isCurrent e = false →
    t.isCurrent e = false ∧ armsOf t e = armsOf s e

theorem Retires.trans {s t u : CronSource} (h : Retires s t) (h' : Retires t u) : Retires s u := by
  refine ⟨Nat.le_trans h.length h'.length, ?_⟩
  intro e he hcur
  obtain ⟨hcur', harms⟩ := h.current e he hcur
  obtain ⟨hcur'', harms'⟩ := h'.current e (Nat.lt_of_lt_of_le he h.length) hcur'
  exact ⟨hcur'', harms'.trans harms⟩

theorem Retires.of_same {s t : CronSource} (hlength : t.entries.length = s.entries.length)
    (hcurrent : ∀ e, t.isCurrent e = true → s.isCurrent e = true)
    (hrows : t.timers.map Timer.row = s.timers.map Timer.row) : Retires s t := by
  refine ⟨Nat.le_of_eq hlength.symm, ?_⟩
  intro e _ hcur
  constructor
  · by_contra hne
    rw [Bool.not_eq_false] at hne
    rw [hcurrent e hne] at hcur
    cases hcur
  · rw [armsOf, armsOf, hrows]

theorem Retires.arm {s t : CronSource} (cron : CronExpressionParser) {e : Nat} (now : Int)
    (h : Retires s t) (hnew : s.isCurrent e = true ∨ s.entries.length ≤ e) :
    Retires s (t.arm cron e now) := by
  obtain ⟨-, hlength, -, hcurrent, hrows⟩ := arm_frame cron t e now
  refine ⟨Nat.le_trans h.length (Nat.le_of_eq hlength.symm), ?_⟩
  intro f hf hcur
  obtain ⟨hcur', harms⟩ := h.current f hf hcur
  refine ⟨(hcurrent f).trans hcur', Eq.trans ?_ harms⟩
  have hne : e ≠ f := by
    rintro rfl
    rcases hnew with hnew | hnew
    · rw [hcur] at hnew
      cases hnew
    · omega
  rcases hrows with hrows | ⟨wasClamped, hrows⟩
  · rw [armsOf, armsOf, hrows]
  · rw [armsOf, armsOf, hrows, List.countP_append]
    simp [hne]

theorem Retires.install {s : CronSource} (owner repo : String) (d : Descriptor) :
    Retires s (s.install owner repo d) := by
  refine ⟨by simp [CronSource.install], ?_⟩
  intro e he hcur
  refine ⟨?_, rfl⟩
  by_contra hne
  rw [Bool.not_eq_false] at hne
  rw [isCurrent_of_install he hne] at hcur
  cases hcur

theorem Retires.installAll (cron : CronExpressionParser) (owner repo : String)
    (entries : List (Descriptor × Int)) (s : CronSource) :
    Retires s
      (entries.foldl (fun s d => (s.install owner repo d.1).arm cron s.entries.length d.2) s) := by
  induction entries generalizing s with
  | nil => exact Retires.of_same rfl (fun _ h => h) rfl
  | cons d entries ih =>
    exact (Retires.arm cron d.2 (Retires.install owner repo d.1) (Or.inr (Nat.le_refl _))).trans (ih _)

/-- Pairs that lose entries make nothing current. -/
theorem isCurrent_of_pairs_sub {s t : CronSource} (hentries : t.entries = s.entries)
    (hsub : ∀ key pairMap, t.pairs.get? key = some pairMap → ∀ k e, pairMap.get? k = some e →
      s.pairs.get? key = some pairMap) {e : Nat} (h : t.isCurrent e = true) : s.isCurrent e = true := by
  cases hx : s.entries[e]? with
  | none =>
    rw [isCurrent_of_none (hentries ▸ hx)] at h
    cases h
  | some x =>
    have hx' : t.entries[e]? = some x := by rw [hentries, hx]
    obtain ⟨pairMap, hpair, hget⟩ := (isCurrent_iff hx').mp h
    exact (isCurrent_iff hx).mpr ⟨pairMap, hsub _ pairMap hpair _ e hget, hget⟩

theorem Retires.cancelled {ids : List Nat} {s t : CronSource} (hc : Cancelled ids s t) : Retires s t := by
  refine Retires.of_same ?_ (fun e he => (hc.current e).symm.trans he) hc.rows
  apply Nat.le_antisymm
  · by_contra hlt
    have hnone := hc.entries s.entries.length
    rw [List.getElem?_eq_none (Nat.le_refl _), Option.map_none, List.getElem?_eq_none_iff] at hnone
    exact hlt hnone
  · by_contra hlt
    have hsome := hc.entries t.entries.length
    rw [List.getElem?_eq_none (Nat.le_refl _), eq_comm, Option.map_eq_none_iff,
      List.getElem?_eq_none_iff] at hsome
    exact hlt hsome

theorem Retires.step {cron : CronExpressionParser} {s u : CronSource} {a : CronAction}
    (hgood : Good (fun _ => False) s) (hstep : step cron s a = some u) : Retires s u := by
  cases a with
  | reconfigure owner repo entries =>
    obtain rfl := Option.some.inj hstep
    obtain ⟨-, hc⟩ :=
      hgood.cancelAll (((s.pairs.get? (pairKey owner repo)).map OrderedMap.values).getD [])
    rw [← cancelPair_eq] at hc
    have hcancelled := Retires.cancelled hc
    unfold CronSource.reconfigure
    dsimp only
    split
    · refine hcancelled.trans (Retires.of_same rfl (fun e => ?_) rfl)
      apply isCurrent_of_pairs_sub
      · rfl
      · intro key pairMap hpair k f _
        dsimp only at hpair
        rw [OrderedMap.get?_delete] at hpair
        split at hpair
        · cases hpair
        · exact hpair
    · refine Retires.trans ?_ (Retires.installAll cron owner repo entries _)
      refine hcancelled.trans (Retires.of_same rfl (fun e => ?_) rfl)
      apply isCurrent_of_pairs_sub
      · rfl
      · intro key pairMap hpair k f hf
        dsimp only at hpair
        rw [OrderedMap.get?_set] at hpair
        split at hpair
        · obtain rfl := Option.some.inj hpair
          simp at hf
        · rename_i hkey
          rw [OrderedMap.get?_delete_of_ne _ hkey] at hpair
          exact hpair
  | stop =>
    obtain rfl := Option.some.inj hstep
    obtain ⟨-, hc⟩ := hgood.cancelAll (s.pairs.values.flatMap OrderedMap.values)
    refine (Retires.cancelled hc).trans (Retires.of_same rfl (fun e => ?_) rfl)
    apply isCurrent_of_pairs_sub
    · rfl
    · intro key pairMap hpair
      cases hpair
  | wake handle now =>
    obtain ⟨t, x, ht, hpending, hx, hcur, hcases⟩ := wake_cases hgood hstep
    have harms : ∀ f, ((s.timers.set handle { t with status := .woken }).map Timer.row).countP
        (fun r => r.1 = f) = armsOf s f := by
      intro f
      rw [armsOf, List.countP_map, List.countP_map]
      have hset := countP_set_add ((fun r => decide (r.1 = f)) ∘ Timer.row) ht
        (y := { t with status := .woken })
      simp only [Function.comp_apply, Timer.row] at hset
      exact Nat.add_right_cancel hset
    have hcleared : ∀ v : CronSource, v.timers = s.timers.set handle { t with status := .woken } →
        v.entries = s.entries.set t.entry { x with timer := none } → v.pairs = s.pairs → Retires s v := by
      intro v htimers hentries hpairs
      refine ⟨by rw [hentries, List.length_set], ?_⟩
      intro f _ hfcur
      refine ⟨(isCurrent_setTimer hx none hentries hpairs f).trans hfcur, ?_⟩
      rw [armsOf, htimers]
      exact harms f
    rcases hcases with ⟨-, rfl⟩ | ⟨-, rfl⟩
    · exact Retires.arm cron now (hcleared _ rfl rfl rfl) (Or.inl hcur)
    · exact hcleared _ rfl rfl rfl
  | settled e now =>
    obtain ⟨-, ⟨hcur, rfl⟩ | ⟨-, rfl⟩⟩ := settled_cases hstep
    · exact Retires.arm cron now (Retires.of_same (by rfl) (fun _ h => h) (by rfl)) (Or.inl hcur)
    · exact Retires.of_same rfl (fun _ h => h) rfl

/-! ## Every run -/

/-- A timer of the entry that has neither woken nor been cleared. -/
def CronSource.Pending (s : CronSource) (e handle : Nat) : Prop :=
  ∃ t, s.timers[handle]? = some t ∧ t.entry = e ∧ t.status = .pending

structure Disciplined (s : CronSource) : Prop where
  unique : ∀ e h h', s.Pending e h → s.Pending e h' → h = h'
  stale : ∀ e, s.isCurrent e = false → ∀ h, ¬ s.Pending e h
  covered : ∀ e, s.isCurrent e = true →
    (∃ h, s.Pending e h) ∨ e ∈ s.firing ∨ ∃ message, (e, message) ∈ s.reports
  delays : ∀ t ∈ s.timers, 0 < t.delay ∧ t.delay ≤ maxTimeoutMs
  fires : ∀ e, s.fires.count e =
    s.timers.countP fun t => decide (t.entry = e ∧ t.status = .woken ∧ t.wasClamped = false)

theorem Good.disciplined {s : CronSource} (h : Good (fun _ => False) s) (hcounted : Counted s) :
    Disciplined s := by
  refine ⟨?_, ?_, ?_, h.delays, ?_⟩
  · rintro e g g' ⟨t, ht, rfl, hpending⟩ ⟨t', ht', hentry, hpending'⟩
    obtain ⟨x, hx, hlink⟩ := h.linked g t ht hpending
    obtain ⟨x', hx', hlink'⟩ := h.linked g' t' ht' hpending'
    rw [hentry, hx] at hx'
    obtain rfl := Option.some.inj hx'
    rw [hlink] at hlink'
    exact Option.some.inj hlink'
  · rintro e hcur g ⟨t, ht, rfl, hpending⟩
    obtain ⟨x, hx, hlink⟩ := h.linked g t ht hpending
    rw [h.live _ x g hx hlink] at hcur
    cases hcur
  · intro e hcur
    cases hx : s.entries[e]? with
    | none =>
      rw [isCurrent_of_none hx] at hcur
      cases hcur
    | some x =>
      rcases h.covered e x hx hcur (fun hfalse => hfalse) with htimer | hrest
      · obtain ⟨handle, hhandle⟩ := Option.isSome_iff_exists.mp htimer
        obtain ⟨t, ht⟩ := h.armed e x handle hx hhandle
        exact Or.inl ⟨handle, t, ht⟩
      · exact Or.inr hrest
  · intro e
    rw [hcounted e, List.count, List.countP_map]
    apply List.countP_congr
    intro t _
    simp [Timer.row, and_comm, and_left_comm]

theorem exec_good {cron : CronExpressionParser} (as : List CronAction)
    (hkeys : ∀ a ∈ as, a.DistinctKeys) {s u : CronSource} (hgood : Good (fun _ => False) s)
    (hcounted : Counted s) (h : exec (step cron) s as = some u) :
    (Good (fun _ => False) u ∧ Counted u) ∧ Retires s u := by
  induction as generalizing s with
  | nil =>
    obtain rfl := Option.some.inj h
    exact ⟨⟨hgood, hcounted⟩, Retires.of_same rfl (fun _ h => h) rfl⟩
  | cons a as ih =>
    obtain ⟨m, hm, hrest⟩ := exec_cons_eq_some.mp h
    obtain ⟨hdone, hretires⟩ := ih (fun b hb => hkeys b (List.mem_cons_of_mem a hb))
      (hgood.step (hkeys a List.mem_cons_self) hm) (hcounted.step hgood hm) hrest
    exact ⟨hdone, (Retires.step hgood hm).trans hretires⟩

/-- A parser for which every schedule is due in the next full minute. -/
def everyMinute : CronExpressionParser := ⟨fun _ _ now => .ok (now - now % 60000 + 60000)⟩

def tick : Descriptor := ⟨"mailer", "tick", "* * * * *", "UTC"⟩

end WorkflowEngine.Runtime.Cron
