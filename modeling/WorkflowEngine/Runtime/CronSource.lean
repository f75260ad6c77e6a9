import WorkflowEngine.Lib.ListIndex
import WorkflowEngine.Lib.OrderedMap
import WorkflowEngine.Lib.Transition

/-!
# The cron source

`triggers/cron.ts`: every entry holds one `setTimeout` handle. A wake of a clamped
timer only arms again, any other wake fires the trigger and arms again once the fire
has settled, unless the entry has been replaced in the meantime. Entries and timers
are numbered in the order in which they are made and are never forgotten, so that a
stale entry or a leaked timer can be spoken of.
-/

namespace WorkflowEngine.Runtime.Cron

open Lib
set_option autoImplicit false

def maxTimeoutMs : Int := 24 * 60 * 60 * 1000

structure Descriptor where
  workflowName : String
  name : String
  schedule : String
  tz : String
  deriving DecidableEq

/-- `cron-parser`: the next date of a schedule after the current date, both in milliseconds. -/
structure CronExpressionParser where
  next : String → String → Int → Except String Int

inductive TimerStatus where
  | pending | cleared | woken
  deriving DecidableEq

/-- A call of `setTimeout`; the handle is its position. -/
structure Timer where
  entry : Nat
  wasClamped : Bool
  delay : Int
  status : TimerStatus
  deriving DecidableEq

structure SourceEntry where
  owner : String
  repo : String
  descriptor : Descriptor
  timer : Option Nat
  deriving DecidableEq

/-- `firing` are the entries whose fire has not settled, `fires` every call of `fire`, `reports`
every `cron.schedule-invalid`. -/
structure CronSource where
  pairs : OrderedMap String (OrderedMap String Nat)
  entries : List SourceEntry
  timers : List Timer
  firing : List Nat
  fires : List Nat
  reports : List (Nat × String)

def createCronTriggerSource : CronSource := ⟨.empty, [], [], [], [], []⟩

def entryKey (d : Descriptor) : String := d.workflowName ++ "/" ++ d.name

def pairKey (owner repo : String) : String := owner ++ "/" ++ repo

def computeNextDelay (cron : CronExpressionParser) (d : Descriptor) (now : Int) : Except String Int :=
  match cron.next d.schedule d.tz now with
  | .error message => .error message
  | .ok nextDate => .ok (max (nextDate - now) 1)

namespace CronSource

def clearTimeout (s : CronSource) (h : Nat) : CronSource :=
  match s.timers[h]? with
  | some t => if t.status = .pending then { s with timers := s.timers.set h { t with status := .cleared } } else s
  | none => s

/-- The loop body of `cancelPair` and `cancelAll`. -/
def cancel (s : CronSource) (e : Nat) : CronSource :=
  match s.entries[e]? with
  | none => s
  | some x =>
    match x.timer with
    | none => s
    | some h => { s.clearTimeout h with entries := s.entries.set e { x with timer := none } }

def cancelPair (s : CronSource) (owner repo : String) : CronSource :=
  match s.pairs.get? (pairKey owner repo) with
  | none => s
  | some pairMap => pairMap.values.foldl cancel s

def cancelAll (s : CronSource) : CronSource :=
  (s.pairs.values.flatMap OrderedMap.values).foldl cancel s

/-- `new Date()` gives `now`. -/
def arm (cron : CronExpressionParser) (s : CronSource) (e : Nat) (now : Int) : CronSource :=
  match s.entries[e]? with
  | none => s
  | some x =>
    match computeNextDelay cron x.descriptor now with
    | .error message => { s with reports := s.reports ++ [(e, message)] }
    | .ok delay =>
      let clamped := min delay maxTimeoutMs
      let wasClamped := decide (clamped < delay)
      { s with
        timers := s.timers ++ [⟨e, wasClamped, clamped, .pending⟩]
        entries := s.entries.set e { x with timer := some s.timers.length } }

/-- `onFire` up to its first `await`. -/
def onFire (cron : CronExpressionParser) (s : CronSource) (e : Nat) (wasClamped : Bool) (now : Int) :
    CronSource :=
  match s.entries[e]? with
  | none => s
  | some x =>
    let s := { s with entries := s.entries.set e { x with timer := none } }
    if wasClamped then s.arm cron e now
    else { s with firing := s.firing ++ [e], fires := s.fires ++ [e] }

/-- The entry is still the one that its key finds. -/
def isCurrent (s : CronSource) (e : Nat) : Bool :=
  match s.entries[e]? with
  | none => false
  | some x =>
    match s.pairs.get? (pairKey x.owner x.repo) with
    | none => false
    | some pairMap => pairMap.get? (entryKey x.descriptor) = some e

/-- One turn of the loop of `reconfigure`, before it arms. -/
def install (s : CronSource) (owner repo : String) (d : Descriptor) : CronSource :=
  let key := pairKey owner repo
  let pairMap := (s.pairs.get? key).getD .empty
  { s with
    pairs := s.pairs.set key (pairMap.set (entryKey d) s.entries.length)
    entries := s.entries ++ [⟨owner, repo, d, none⟩] }

/-- Each entry comes with the date at which it is armed. -/
def reconfigure (cron : CronExpressionParser) (s : CronSource) (owner repo : String)
    (entries : List (Descriptor × Int)) : CronSource :=
  let key := pairKey owner repo
  let s := s.cancelPair owner repo
  let s := { s with pairs := s.pairs.delete key }
  if entries.length = 0 then s
  else
    entries.foldl (fun s d => (s.install owner repo d.1).arm cron s.entries.length d.2)
      { s with pairs := s.pairs.set key .empty }

def stop (s : CronSource) : CronSource := { s.cancelAll with pairs := .empty }

end CronSource

inductive CronAction where
  | reconfigure (owner repo : String) (entries : List (Descriptor × Int))
  | stop
  | wake (handle : Nat) (now : Int)
  | settled (entry : Nat) (now : Int)

def step (cron : CronExpressionParser) (s : CronSource) : CronAction → Option CronSource
  | .reconfigure owner repo entries => some (s.reconfigure cron owner repo entries)
  | .stop => some s.stop
  | .wake h now =>
    match s.timers[h]? with
    | none => none
    | some t =>
      if t.status = .pending then
        some ({ s with timers := s.timers.set h { t with status := .woken } }.onFire cron t.entry
          t.wasClamped now)
      else none
  | .settled e now =>
    if e ∈ s.firing then
      let s := { s with firing := s.firing.erase e }
      some (if s.isCurrent e then s.arm cron e now else s)
    else none

/-! ## What is current -/

def SourceEntry.identity (x : SourceEntry) : String × String × Descriptor := (x.owner, x.repo, x.descriptor)

theorem isCurrent_iff {s : CronSource} {e : Nat} {x : SourceEntry} (hx : s.entries[e]? = some x) :
    s.isCurrent e = true ↔ ∃ pairMap, s.pairs.get? (pairKey x.owner x.repo) = some pairMap ∧
      pairMap.get? (entryKey x.descriptor) = some e := by
  unfold CronSource.isCurrent
  rw [hx]
  simp only
  cases s.pairs.get? (pairKey x.owner x.repo) with
  | none => simp
  | some pairMap => simp

theorem isCurrent_congr {s t : CronSource} {e : Nat} {x y : SourceEntry} (hx : s.entries[e]? = some x)
    (hy : t.entries[e]? = some y) (hid : y.identity = x.identity)
    (hpairs : t.pairs.get? (pairKey x.owner x.repo) = s.pairs.get? (pairKey x.owner x.repo)) :
    t.isCurrent e = s.isCurrent e := by
  obtain ⟨howner, hrepo, hdescriptor⟩ :
      y.owner = x.owner ∧ y.repo = x.repo ∧ y.descriptor = x.descriptor := by
    simpa [SourceEntry.identity] using hid
  unfold CronSource.isCurrent
  rw [hx, hy]
  simp only [howner, hrepo, hdescriptor, hpairs]

theorem isCurrent_of_none {s : CronSource} {e : Nat} (h : s.entries[e]? = none) :
    s.isCurrent e = false := by
  unfold CronSource.isCurrent
  rw [h]

/-- A change of one timer field leaves what is current. -/
theorem isCurrent_setTimer {s t : CronSource} {e : Nat} {x : SourceEntry} (hx : s.entries[e]? = some x)
    (timer : Option Nat) (hentries : t.entries = s.entries.set e { x with timer := timer })
    (hpairs : t.pairs = s.pairs) (f : Nat) : t.isCurrent f = s.isCurrent f := by
  cases hf : s.entries[f]? with
  | none =>
    have hnone : t.entries[f]? = none := by
      rw [hentries, List.getElem?_eq_none_iff, List.length_set]
      exact List.getElem?_eq_none_iff.mp hf
    rw [isCurrent_of_none hf, isCurrent_of_none hnone]
  | some y =>
    by_cases hfe : f = e
    · subst hfe
      obtain rfl : x = y := Option.some.inj (hx.symm.trans hf)
      have hset : t.entries[f]? = some { x with timer := timer } := by
        rw [hentries]
        simp [lt_of_getElem?_eq_some hx]
      exact isCurrent_congr hx hset rfl (by rw [hpairs])
    · have hset : t.entries[f]? = some y := by
        rw [hentries, List.getElem?_set_ne (Ne.symm hfe), hf]
      exact isCurrent_congr hf hset rfl (by rw [hpairs])

/-! ## The invariant -/

/-- `hole` are the entries that may be without a timer for the moment. -/
structure Good (hole : Nat → Prop) (s : CronSource) : Prop where
  keyed : ∀ key pairMap, s.pairs.get? key = some pairMap → ∀ k e, pairMap.get? k = some e →
    ∃ x, s.entries[e]? = some x ∧ pairKey x.owner x.repo = key ∧ entryKey x.descriptor = k
  linked : ∀ (h : Nat) (t : Timer), s.timers[h]? = some t → t.status = .pending →
    ∃ x, s.entries[t.entry]? = some x ∧ x.timer = some h
  armed : ∀ (e : Nat) (x : SourceEntry) (h : Nat), s.entries[e]? = some x → x.timer = some h →
    ∃ t, s.timers[h]? = some t ∧ t.entry = e ∧ t.status = .pending
  live : ∀ (e : Nat) (x : SourceEntry) (h : Nat), s.entries[e]? = some x → x.timer = some h →
    s.isCurrent e = true
  idle : ∀ e ∈ s.firing, ∃ x, s.entries[e]? = some x ∧ x.timer = none
  firing_nodup : s.firing.Nodup
  covered : ∀ (e : Nat) (x : SourceEntry), s.entries[e]? = some x → s.isCurrent e = true → ¬ hole e →
    x.timer.isSome = true ∨ e ∈ s.firing ∨ ∃ message, (e, message) ∈ s.reports
  delays : ∀ t ∈ s.timers, 0 < t.delay ∧ t.delay ≤ maxTimeoutMs

theorem good_create : Good (fun _ => False) createCronTriggerSource := by
  refine ⟨?_, ?_, ?_, ?_, ?_, List.nodup_nil, ?_, ?_⟩ <;> simp [createCronTriggerSource]

theorem Good.mono {P Q : Nat → Prop} {s : CronSource} (h : Good P s) (hPQ : ∀ e, P e → Q e) :
    Good Q s :=
  { h with covered := fun e x hx hcurrent hQ => h.covered e x hx hcurrent fun hP => hQ (hPQ e hP) }

theorem Good.handle_inj {P : Nat → Prop} {s : CronSource} (h : Good P s) {e f handle : Nat}
    {x y : SourceEntry} (hx : s.entries[e]? = some x) (hy : s.entries[f]? = some y)
    (hhandle : x.timer = some handle) (hhandle' : y.timer = some handle) : e = f := by
  obtain ⟨t, ht, hentry, -⟩ := h.armed e x handle hx hhandle
  obtain ⟨t', ht', hentry', -⟩ := h.armed f y handle hy hhandle'
  obtain rfl : t = t' := Option.some.inj (ht.symm.trans ht')
  exact hentry.symm.trans hentry'

/-- Entries before and after one of them has lost its timer. -/
theorem entries_release {s t : CronSource} {e : Nat} {x : SourceEntry} (hx : s.entries[e]? = some x)
    (hentries : t.entries = s.entries.set e { x with timer := none }) (f : Nat) :
    t.entries[f]? = (s.entries[f]?).map fun y => if f = e then { y with timer := none } else y := by
  rw [hentries]
  by_cases hf : f = e
  · subst hf
    rw [List.getElem?_set_self (lt_of_getElem?_eq_some hx), hx]
    simp
  · rw [List.getElem?_set_ne (Ne.symm hf)]
    simp [hf]

/-- The timer of an entry is no part of its keys. -/
theorem Good.keyed_setTimer {P : Nat → Prop} {s : CronSource} (h : Good P s) {e : Nat}
    {x : SourceEntry} (hx : s.entries[e]? = some x) (timer : Option Nat) (key : String)
    (pairMap : OrderedMap String Nat) (hpair : s.pairs.get? key = some pairMap) (k : String) (f : Nat)
    (hf : pairMap.get? k = some f) :
    ∃ y, (s.entries.set e { x with timer := timer })[f]? = some y ∧ pairKey y.owner y.repo = key ∧
      entryKey y.descriptor = k := by
  obtain ⟨y, hy, hkey, hk⟩ := h.keyed key pairMap hpair k f hf
  by_cases hfe : f = e
  · subst hfe
    obtain rfl : x = y := Option.some.inj (hx.symm.trans hy)
    exact ⟨_, List.getElem?_set_self (lt_of_getElem?_eq_some hx), hkey, hk⟩
  · rw [List.getElem?_set_ne (Ne.symm hfe)]
    exact ⟨y, hy, hkey, hk⟩

/-- A timer that an entry loses is no longer pending, and the entry may be left without one. -/
theorem Good.release {P : Nat → Prop} {s t : CronSource} (h : Good P s) {e handle : Nat}
    {x : SourceEntry} {timer : Timer} (hx : s.entries[e]? = some x) (hhandle : x.timer = some handle)
    (htimer : s.timers[handle]? = some timer) {status : TimerStatus} (hstatus : status ≠ .pending)
    (hentries : t.entries = s.entries.set e { x with timer := none })
    (htimers : t.timers = s.timers.set handle { timer with status := status })
    (hpairs : t.pairs = s.pairs) (hfiring : t.firing = s.firing) (hreports : t.reports = s.reports) :
    Good (fun f => P f ∨ f = e) t := by
  have hcurrent := isCurrent_setTimer hx none hentries hpairs
  have hlook := entries_release hx hentries
  have hold : ∀ {f y}, t.entries[f]? = some y → ∃ z, s.entries[f]? = some z ∧
      y = if f = e then { z with timer := none } else z := by
    intro f y hy
    rw [hlook] at hy
    obtain ⟨z, hz, rfl⟩ := Option.map_eq_some_iff.mp hy
    exact ⟨z, hz, rfl⟩
  have hkept : ∀ {f y g}, t.entries[f]? = some y → y.timer = some g →
      f ≠ e ∧ s.entries[f]? = some y := by
    intro f y g hy hg
    obtain ⟨z, hz, rfl⟩ := hold hy
    by_cases hf : f = e
    · rw [if_pos hf] at hg
      cases hg
    · rw [if_neg hf]
      exact ⟨hf, hz⟩
  refine ⟨?_, ?_, ?_, ?_, ?_, ?_, ?_, ?_⟩
  · rw [hpairs, hentries]
    exact h.keyed_setTimer hx none
  · intro g u hu hpending
    rw [htimers] at hu
    rcases getElem?_set_cases hu with ⟨rfl, rfl⟩ | ⟨hne, hu⟩
    · exact absurd hpending hstatus
    · obtain ⟨y, hy, hlink⟩ := h.linked g u hu hpending
      have hue : u.entry ≠ e := by
        intro heq
        rw [heq, hx] at hy
        obtain rfl := Option.some.inj hy
        rw [hhandle] at hlink
        exact hne (Option.some.inj hlink).symm
      exact ⟨y, by simp [hlook, hy, hue], hlink⟩
  · intro f y g hy hg
    obtain ⟨hne, hy⟩ := hkept hy hg
    obtain ⟨u, hu, hentry, hpending⟩ := h.armed f y g hy hg
    refine ⟨u, ?_, hentry, hpending⟩
    have hgh : g ≠ handle := by
      rintro rfl
      exact hne (h.handle_inj hy hx hg hhandle)
    rw [htimers, List.getElem?_set_ne (Ne.symm hgh), hu]
  · intro f y g hy hg
    rw [hcurrent]
    exact h.live f y g (hkept hy hg).2 hg
  · intro f hf
    rw [hfiring] at hf
    obtain ⟨y, hy, hnone⟩ := h.idle f hf
    refine ⟨if f = e then { y with timer := none } else y, by simp [hlook, hy], ?_⟩
    split
    · rfl
    · exact hnone
  · rw [hfiring]
    exact h.firing_nodup
  · intro f y hy hcur hhole
    rw [hcurrent] at hcur
    push Not at hhole
    obtain ⟨z, hz, rfl⟩ := hold hy
    rw [if_neg hhole.2, hfiring, hreports]
    exact h.covered f z hz hcur hhole.1
  · intro u hu
    rw [htimers] at hu
    rcases List.mem_or_eq_of_mem_set hu with hu | rfl
    · exact h.delays u hu
    · exact h.delays timer (List.mem_of_getElem? htimer)

/-- An entry without a timer starts to fire. -/
theorem Good.fire {P Q : Nat → Prop} {s t : CronSource} (h : Good P s) {e : Nat} {x : SourceEntry}
    (hx : s.entries[e]? = some x) (hnone : x.timer = none) (hnot : e ∉ s.firing)
    (hentries : t.entries = s.entries) (htimers : t.timers = s.timers) (hpairs : t.pairs = s.pairs)
    (hfiring : t.firing = s.firing ++ [e]) (hreports : t.reports = s.reports)
    (hQ : ∀ f, P f → Q f ∨ f = e) : Good Q t := by
  have hcurrent : ∀ f, t.isCurrent f = s.isCurrent f := by
    intro f
    unfold CronSource.isCurrent
    rw [hentries, hpairs]
  refine ⟨?_, ?_, ?_, ?_, ?_, ?_, ?_, ?_⟩
  · rw [hpairs, hentries]
    exact h.keyed
  · rw [htimers, hentries]
    exact h.linked
  · rw [htimers, hentries]
    exact h.armed
  · intro f y g hy hg
    rw [hcurrent]
    rw [hentries] at hy
    exact h.live f y g hy hg
  · intro f hf
    rw [hfiring, List.mem_append, List.mem_singleton] at hf
    rw [hentries]
    rcases hf with hf | rfl
    · exact h.idle f hf
    · exact ⟨x, hx, hnone⟩
  · rw [hfiring]
    exact List.Nodup.append h.firing_nodup (List.nodup_singleton e) (by simpa using hnot)
  · intro f y hy hcur hhole
    rw [hcurrent] at hcur
    rw [hentries] at hy
    rw [hfiring, hreports]
    by_cases hf : f = e
    · exact Or.inr (Or.inl (by simp [hf]))
    · have hP : ¬ P f := fun hP => (hQ f hP).elim hhole hf
      rcases h.covered f y hy hcur hP with htimer | hfire | hreport
      · exact Or.inl htimer
      · exact Or.inr (Or.inl (List.mem_append_left _ hfire))
      · exact Or.inr (Or.inr hreport)
  · rw [htimers]
    exact h.delays

/-! ## Arming -/

theorem computeNextDelay_pos {cron : CronExpressionParser} {d : Descriptor} {now delay : Int}
    (h : computeNextDelay cron d now = .ok delay) : 1 ≤ delay := by
  unfold computeNextDelay at h
  split at h
  · cases h
  · cases h
    omega

/-- Either the schedule is reported, or a timer is set. -/
theorem arm_cases (cron : CronExpressionParser) {s : CronSource} {e : Nat} {x : SourceEntry}
    (hx : s.entries[e]? = some x) (now : Int) :
    (∃ message, s.arm cron e now = { s with reports := s.reports ++ [(e, message)] }) ∨
    ∃ wasClamped delay, 0 < delay ∧ delay ≤ maxTimeoutMs ∧
      s.arm cron e now =
        { s with
          timers := s.timers ++ [⟨e, wasClamped, delay, .pending⟩]
          entries := s.entries.set e { x with timer := some s.timers.length } } := by
  unfold CronSource.arm
  rw [hx]
  dsimp only
  cases hdelay : computeNextDelay cron x.descriptor now with
  | error message => exact Or.inl ⟨message, rfl⟩
  | ok delay =>
    have hpos := computeNextDelay_pos hdelay
    have hmax : (0 : Int) < maxTimeoutMs := by decide
    exact Or.inr ⟨_, min delay maxTimeoutMs, by omega, by omega, rfl⟩

/-- Arming a current entry that has no timer and is not firing fills the hole. -/
theorem Good.arm {P Q : Nat → Prop} {s : CronSource} (h : Good P s) (cron : CronExpressionParser)
    {e : Nat} {x : SourceEntry} (hx : s.entries[e]? = some x) (hnone : x.timer = none)
    (hnot : e ∉ s.firing) (hcur : s.isCurrent e = true) (now : Int) (hQ : ∀ f, P f → Q f ∨ f = e) :
    Good Q (s.arm cron e now) := by
  rcases arm_cases cron hx now with ⟨message, heq⟩ | ⟨wasClamped, delay, hpos, hmax, heq⟩
  · rw [heq]
    refine { h with covered := ?_ }
    intro f y hy hfcur hhole
    dsimp only at hy ⊢
    by_cases hf : f = e
    · exact Or.inr (Or.inr ⟨message, by simp [hf]⟩)
    · have hP : ¬ P f := fun hP => (hQ f hP).elim hhole hf
      rcases h.covered f y hy hfcur hP with htimer | hfire | ⟨m, hm⟩
      · exact Or.inl htimer
      · exact Or.inr (Or.inl hfire)
      · exact Or.inr (Or.inr ⟨m, List.mem_append_left _ hm⟩)
  · rw [heq]
    have hcurrent := isCurrent_setTimer hx (some s.timers.length)
      (t := { s with
        timers := s.timers ++ [⟨e, wasClamped, delay, .pending⟩]
        entries := s.entries.set e { x with timer := some s.timers.length } }) rfl rfl
    have hold : ∀ {f y}, (s.entries.set e { x with timer := some s.timers.length })[f]? = some y →
        (f = e ∧ y = { x with timer := some s.timers.length }) ∨ (f ≠ e ∧ s.entries[f]? = some y) :=
      fun hy => getElem?_set_cases hy
    have hself : (s.entries.set e { x with timer := some s.timers.length })[e]? =
        some { x with timer := some s.timers.length } :=
      List.getElem?_set_self (lt_of_getElem?_eq_some hx)
    have hother : ∀ {f y}, f ≠ e → s.entries[f]? = some y →
        (s.entries.set e { x with timer := some s.timers.length })[f]? = some y := by
      intro f y hf hy
      rw [List.getElem?_set_ne (Ne.symm hf), hy]
    refine ⟨?_, ?_, ?_, ?_, ?_, h.firing_nodup, ?_, ?_⟩
    · exact h.keyed_setTimer hx (some s.timers.length)
    · intro g u hu hpending
      rcases getElem?_snoc_cases hu with hu | ⟨rfl, rfl⟩
      · obtain ⟨y, hy, hlink⟩ := h.linked g u hu hpending
        have hue : u.entry ≠ e := by
          intro heq
          rw [heq, hx] at hy
          obtain rfl := Option.some.inj hy
          rw [hnone] at hlink
          cases hlink
        exact ⟨y, hother hue hy, hlink⟩
      · exact ⟨_, hself, rfl⟩
    · intro f y g hy hg
      rcases hold hy with ⟨rfl, rfl⟩ | ⟨hne, hy⟩
      · obtain rfl := Option.some.inj hg
        exact ⟨_, List.getElem?_concat_length, rfl, rfl⟩
      · obtain ⟨u, hu, hrest⟩ := h.armed f y g hy hg
        exact ⟨u, getElem?_snoc_of_some hu, hrest⟩
    · intro f y g hy hg
      rw [hcurrent]
      rcases hold hy with ⟨rfl, rfl⟩ | ⟨hne, hy⟩
      · exact hcur
      · exact h.live f y g hy hg
    · intro f hf
      obtain ⟨y, hy, hidle⟩ := h.idle f hf
      have hfe : f ≠ e := fun heq => hnot (heq ▸ hf)
      exact ⟨y, hother hfe hy, hidle⟩
    · intro f y hy hfcur hhole
      rw [hcurrent] at hfcur
      rcases hold hy with ⟨rfl, rfl⟩ | ⟨hne, hy⟩
      · exact Or.inl rfl
      · exact h.covered f y hy hfcur fun hP => (hQ f hP).elim hhole hne
    · intro u hu
      rcases List.mem_append.mp hu with hu | hu
      · exact h.delays u hu
      · obtain rfl := List.mem_singleton.mp hu
        exact ⟨hpos, hmax⟩

/-! ## Cancelling -/

theorem cancel_cases {P : Nat → Prop} {s : CronSource} (h : Good P s) (e : Nat) :
    (s.cancel e = s ∧ ∀ x, s.entries[e]? = some x → x.timer = none) ∨
    ∃ x handle t, s.entries[e]? = some x ∧ x.timer = some handle ∧ s.timers[handle]? = some t ∧
      t.status = .pending ∧
      s.cancel e =
        { s with
          timers := s.timers.set handle { t with status := .cleared }
          entries := s.entries.set e { x with timer := none } } := by
  unfold CronSource.cancel
  cases hx : s.entries[e]? with
  | none => exact Or.inl ⟨rfl, by simp⟩
  | some x =>
    cases hhandle : x.timer with
    | none => exact Or.inl ⟨by simp [hhandle], by simp [hhandle]⟩
    | some handle =>
      obtain ⟨t, ht, -, hpending⟩ := h.armed e x handle hx hhandle
      refine Or.inr ⟨x, handle, t, rfl, hhandle, ht, hpending, ?_⟩
      simp [hhandle, CronSource.clearTimeout, ht, hpending]

theorem Good.cancel {P : Nat → Prop} {s : CronSource} (h : Good P s) (e : Nat) :
    Good (fun f => P f ∨ f = e) (s.cancel e) := by
  rcases cancel_cases h e with ⟨heq, -⟩ | ⟨x, handle, t, hx, hhandle, ht, -, heq⟩
  · rw [heq]
    exact h.mono fun f hf => Or.inl hf
  · rw [heq]
    exact h.release hx hhandle ht (show TimerStatus.cleared ≠ .pending by decide) rfl rfl rfl rfl rfl

/-- What `clearTimeout` leaves of a timer. -/
def Timer.row (t : Timer) : Nat × Bool × Bool := (t.entry, t.wasClamped, decide (t.status = .woken))

/-- What cancelling does besides: it only takes timers away. -/
structure Cancelled (ids : List Nat) (s t : CronSource) : Prop where
  pairs : t.pairs = s.pairs
  current : ∀ f, t.isCurrent f = s.isCurrent f
  entries : ∀ f, t.entries[f]? = (s.entries[f]?).map fun y =>
    if f ∈ ids then { y with timer := none } else y
  rows : t.timers.map Timer.row = s.timers.map Timer.row
  fires : t.fires = s.fires

theorem Good.cancelled {P : Nat → Prop} {s : CronSource} (h : Good P s) (e : Nat) :
    Cancelled [e] s (s.cancel e) := by
  rcases cancel_cases h e with ⟨heq, hnone⟩ | ⟨x, handle, t, hx, hhandle, ht, hpending, heq⟩
  · rw [heq]
    refine ⟨rfl, fun _ => rfl, ?_, rfl, rfl⟩
    intro f
    cases hf : s.entries[f]? with
    | none => rfl
    | some y =>
      by_cases hfe : f = e
      · subst hfe
        have hy := hnone y hf
        cases y
        simp_all
      · simp [hfe]
  · rw [heq]
    refine ⟨rfl, isCurrent_setTimer hx none rfl rfl, ?_, ?_, rfl⟩
    · intro f
      rw [entries_release hx rfl f]
      simp
    · exact map_set_of_eq Timer.row ht (by simp [Timer.row, hpending])

theorem Cancelled.cons {e : Nat} {ids : List Nat} {s t u : CronSource} (h : Cancelled [e] s t)
    (hrest : Cancelled ids t u) : Cancelled (e :: ids) s u := by
  refine ⟨hrest.pairs.trans h.pairs, fun f => (hrest.current f).trans (h.current f), ?_,
    hrest.rows.trans h.rows, hrest.fires.trans h.fires⟩
  intro f
  rw [hrest.entries, h.entries, Option.map_map]
  congr 1
  funext y
  by_cases hf : f = e
  · subst hf
    simp
  · simp [hf]

/-- The loops of `cancelPair` and `cancelAll`. -/
theorem Good.cancelAll {P : Nat → Prop} {s : CronSource} (h : Good P s) (ids : List Nat) :
    Good (fun f => P f ∨ f ∈ ids) (ids.foldl CronSource.cancel s) ∧
      Cancelled ids s (ids.foldl CronSource.cancel s) := by
  induction ids generalizing P s with
  | nil =>
    refine ⟨h.mono fun f hf => Or.inl hf, rfl, fun _ => rfl, ?_, rfl, rfl⟩
    intro f
    simp
  | cons e ids ih =>
    obtain ⟨hgood, hcancelled⟩ := ih (h.cancel e)
    refine ⟨hgood.mono ?_, (h.cancelled e).cons hcancelled⟩
    rintro f ((hP | rfl) | hf)
    · exact Or.inl hP
    · exact Or.inr List.mem_cons_self
    · exact Or.inr (List.mem_cons_of_mem e hf)

/-- Pairs that are dropped once their entries have no timers leave no hole. -/
theorem Good.drop {P : Nat → Prop} {s t : CronSource} (h : Good P s) (dropped : String → Prop)
    (hentries : t.entries = s.entries) (htimers : t.timers = s.timers) (hfiring : t.firing = s.firing)
    (hreports : t.reports = s.reports)
    (hsub : ∀ key pairMap, t.pairs.get? key = some pairMap → ∀ k e, pairMap.get? k = some e →
      ¬ dropped key ∧ s.pairs.get? key = some pairMap)
    (hkeep : ∀ key, ¬ dropped key → t.pairs.get? key = s.pairs.get? key)
    (htimer : ∀ (e : Nat) (x : SourceEntry), s.entries[e]? = some x → dropped (pairKey x.owner x.repo) →
      x.timer = none)
    (hhole : ∀ (e : Nat) (x : SourceEntry), s.entries[e]? = some x → P e →
      dropped (pairKey x.owner x.repo)) :
    Good (fun _ => False) t := by
  have hcurrent : ∀ (e : Nat) (x : SourceEntry), s.entries[e]? = some x →
      (t.isCurrent e = true ↔ s.isCurrent e = true ∧ ¬ dropped (pairKey x.owner x.repo)) := by
    intro e x hx
    have hx' : t.entries[e]? = some x := by rw [hentries, hx]
    rw [isCurrent_iff hx', isCurrent_iff hx]
    constructor
    · rintro ⟨pairMap, hpair, hget⟩
      obtain ⟨hnot, hpair'⟩ := hsub _ pairMap hpair _ e hget
      exact ⟨⟨pairMap, hpair', hget⟩, hnot⟩
    · rintro ⟨⟨pairMap, hpair, hget⟩, hnot⟩
      exact ⟨pairMap, (hkeep _ hnot).trans hpair, hget⟩
  refine ⟨?_, ?_, ?_, ?_, ?_, ?_, ?_, ?_⟩
  · intro key pairMap hpair k e he
    rw [hentries]
    exact h.keyed key pairMap (hsub key pairMap hpair k e he).2 k e he
  · rw [htimers, hentries]
    exact h.linked
  · rw [htimers, hentries]
    exact h.armed
  · intro e x handle hx hhandle
    rw [hentries] at hx
    refine (hcurrent e x hx).mpr ⟨h.live e x handle hx hhandle, ?_⟩
    intro hdropped
    rw [htimer e x hx hdropped] at hhandle
    cases hhandle
  · rw [hfiring, hentries]
    exact h.idle
  · rw [hfiring]
    exact h.firing_nodup
  · intro e x hx hcur _
    rw [hentries] at hx
    obtain ⟨hcur, hnot⟩ := (hcurrent e x hx).mp hcur
    rw [hfiring, hreports]
    exact h.covered e x hx hcur fun hP => hnot (hhole e x hx hP)
  · rw [htimers]
    exact h.delays

/-- What the keys of some pairs find has been cancelled. -/
theorem timer_of_cancelled {P : Nat → Prop} {ids : List Nat} {s t : CronSource} (h : Good P s)
    (hc : Cancelled ids s t) {e : Nat} {y : SourceEntry} (hy : t.entries[e]? = some y)
    (hids : ∀ pairMap, s.pairs.get? (pairKey y.owner y.repo) = some pairMap →
      pairMap.get? (entryKey y.descriptor) = some e → e ∈ ids) : y.timer = none := by
  rw [hc.entries] at hy
  obtain ⟨x, hx, rfl⟩ := Option.map_eq_some_iff.mp hy
  by_cases hmem : e ∈ ids
  · rw [if_pos hmem]
  · rw [if_neg hmem] at hids ⊢
    by_contra hne
    obtain ⟨handle, hhandle⟩ := Option.ne_none_iff_exists'.mp hne
    obtain ⟨pairMap, hpair, hget⟩ := (isCurrent_iff hx).mp (h.live e x handle hx hhandle)
    exact hmem (hids pairMap hpair hget)

theorem identity_of_cancelled {ids : List Nat} {s t : CronSource} (hc : Cancelled ids s t) {e : Nat}
    {x y : SourceEntry} (hx : s.entries[e]? = some x) (hy : t.entries[e]? = some y) :
    y.identity = x.identity := by
  rw [hc.entries, hx] at hy
  obtain rfl := Option.some.inj hy
  split <;> rfl

theorem Good.stop {s : CronSource} (h : Good (fun _ => False) s) : Good (fun _ => False) s.stop := by
  obtain ⟨hgood, hc⟩ := h.cancelAll (s.pairs.values.flatMap OrderedMap.values)
  refine hgood.drop (fun _ => True) rfl rfl rfl rfl ?_ ?_ ?_ ?_
  · intro key pairMap hpair
    cases hpair
  · intro key hnot
    exact absurd trivial hnot
  · intro e y hy _
    refine timer_of_cancelled h hc hy ?_
    intro pairMap hpair hget
    exact List.mem_flatMap.mpr
      ⟨pairMap, OrderedMap.mem_values_of_get? hpair, OrderedMap.mem_values_of_get? hget⟩
  · intro e y _ _
    trivial

/-! ## Installing -/

/-- What an old entry's key finds after an installation, it found before. -/
theorem isCurrent_of_install {s : CronSource} {owner repo : String} {d : Descriptor} {f : Nat}
    (hlt : f < s.entries.length) (h : (s.install owner repo d).isCurrent f = true) :
    s.isCurrent f = true := by
  have hx : s.entries[f]? = some s.entries[f] := List.getElem?_eq_getElem hlt
  have hx' : (s.install owner repo d).entries[f]? = some s.entries[f] := by
    simp [CronSource.install, List.getElem?_append_left hlt]
  obtain ⟨pairMap, hpair, hget⟩ := (isCurrent_iff hx').mp h
  rw [isCurrent_iff hx]
  simp only [CronSource.install, OrderedMap.get?_set] at hpair
  split at hpair
  · rename_i hkey
    obtain rfl := Option.some.inj hpair
    rw [OrderedMap.get?_set] at hget
    split at hget
    · have hf := Option.some.inj hget
      omega
    · rw [hkey]
      cases hold : s.pairs.get? (pairKey owner repo) with
      | none => simp [hold] at hget
      | some m => exact ⟨m, rfl, by simpa [hold] using hget⟩
  · exact ⟨pairMap, hpair, hget⟩

/-- Under a key that the pair does not have yet, no old entry is replaced. -/
theorem isCurrent_install {s : CronSource} {owner repo : String} {d : Descriptor}
    {pairMap : OrderedMap String Nat} (hpair : s.pairs.get? (pairKey owner repo) = some pairMap)
    (hfresh : pairMap.get? (entryKey d) = none) {f : Nat} (hlt : f < s.entries.length)
    (h : s.isCurrent f = true) : (s.install owner repo d).isCurrent f = true := by
  have hx : s.entries[f]? = some s.entries[f] := List.getElem?_eq_getElem hlt
  have hx' : (s.install owner repo d).entries[f]? = some s.entries[f] := by
    simp [CronSource.install, List.getElem?_append_left hlt]
  obtain ⟨m, hm, hget⟩ := (isCurrent_iff hx).mp h
  rw [isCurrent_iff hx']
  simp only [CronSource.install, OrderedMap.get?_set, hpair]
  split
  · rename_i hkey
    rw [hkey, hpair] at hm
    obtain rfl := Option.some.inj hm
    refine ⟨_, rfl, ?_⟩
    have hne : entryKey s.entries[f].descriptor ≠ entryKey d := by
      intro heq
      rw [heq, hfresh] at hget
      cases hget
    rw [Option.getD_some, OrderedMap.get?_set_of_ne _ _ _ hne]
    exact hget
  · exact ⟨m, hm, hget⟩

theorem isCurrent_installed {s : CronSource} (owner repo : String) (d : Descriptor) :
    (s.install owner repo d).isCurrent s.entries.length = true := by
  have hx : (s.install owner repo d).entries[s.entries.length]? = some ⟨owner, repo, d, none⟩ := by
    simp [CronSource.install]
  rw [isCurrent_iff hx]
  simp [CronSource.install]

theorem Good.install {s : CronSource} (h : Good (fun _ => False) s) {owner repo : String} {d : Descriptor}
    {pairMap : OrderedMap String Nat} (hpair : s.pairs.get? (pairKey owner repo) = some pairMap)
    (hfresh : pairMap.get? (entryKey d) = none) :
    Good (fun f => f = s.entries.length) (s.install owner repo d) := by
  have hold : ∀ {f y}, (s.entries ++ [⟨owner, repo, d, none⟩])[f]? = some y →
      s.entries[f]? = some y ∨ (f = s.entries.length ∧ y = ⟨owner, repo, d, none⟩) :=
    fun hy => getElem?_snoc_cases hy
  refine ⟨?_, ?_, ?_, ?_, ?_, h.firing_nodup, ?_, h.delays⟩
  · intro key m hm k e he
    simp only [CronSource.install, OrderedMap.get?_set, hpair, Option.getD_some] at hm
    split at hm
    · rename_i hkey
      obtain rfl := Option.some.inj hm
      rw [OrderedMap.get?_set] at he
      split at he
      · rename_i hk
        obtain rfl := Option.some.inj he
        exact ⟨⟨owner, repo, d, none⟩, List.getElem?_concat_length, hkey.symm, hk.symm⟩
      · obtain ⟨x, hx, hxkey, hxk⟩ := h.keyed _ pairMap hpair k e he
        exact ⟨x, getElem?_snoc_of_some hx, hxkey.trans hkey.symm, hxk⟩
    · obtain ⟨x, hx, hrest⟩ := h.keyed key m hm k e he
      exact ⟨x, getElem?_snoc_of_some hx, hrest⟩
  · intro g u hu hpending
    obtain ⟨y, hy, hlink⟩ := h.linked g u hu hpending
    exact ⟨y, getElem?_snoc_of_some hy, hlink⟩
  · intro f y g hy hg
    rcases hold hy with hy | ⟨-, rfl⟩
    · exact h.armed f y g hy hg
    · cases hg
  · intro f y g hy hg
    rcases hold hy with hy | ⟨-, rfl⟩
    · exact isCurrent_install hpair hfresh (lt_of_getElem?_eq_some hy) (h.live f y g hy hg)
    · cases hg
  · intro f hf
    obtain ⟨y, hy, hidle⟩ := h.idle f hf
    exact ⟨y, getElem?_snoc_of_some hy, hidle⟩
  · intro f y hy hcur hne
    rcases hold hy with hy | ⟨rfl, -⟩
    · have hcur := isCurrent_of_install (lt_of_getElem?_eq_some hy) hcur
      exact h.covered f y hy hcur fun hfalse => hfalse
    · exact absurd rfl hne

/-- What arming does besides. -/
theorem arm_frame (cron : CronExpressionParser) (s : CronSource) (e : Nat) (now : Int) :
    (s.arm cron e now).pairs = s.pairs ∧ (s.arm cron e now).entries.length = s.entries.length ∧
      (s.arm cron e now).fires = s.fires ∧ (∀ f, (s.arm cron e now).isCurrent f = s.isCurrent f) ∧
      ((s.arm cron e now).timers.map Timer.row = s.timers.map Timer.row ∨
        ∃ wasClamped, (s.arm cron e now).timers.map Timer.row =
          s.timers.map Timer.row ++ [(e, wasClamped, false)]) := by
  cases hx : s.entries[e]? with
  | none =>
    have harm : s.arm cron e now = s := by
      unfold CronSource.arm
      rw [hx]
    rw [harm]
    exact ⟨rfl, rfl, rfl, fun _ => rfl, Or.inl rfl⟩
  | some x =>
    rcases arm_cases cron hx now with ⟨message, heq⟩ | ⟨wasClamped, delay, -, -, heq⟩
    · rw [heq]
      exact ⟨rfl, rfl, rfl, fun _ => rfl, Or.inl rfl⟩
    · rw [heq]
      refine ⟨rfl, by simp, rfl, isCurrent_setTimer hx _ rfl rfl, Or.inr ⟨wasClamped, ?_⟩⟩
      simp [Timer.row]

/-- The loop of `reconfigure`, for keys that differ from each other and from those in the map. -/
theorem Good.installAll (cron : CronExpressionParser) (owner repo : String)
    (entries : List (Descriptor × Int)) (hkeys : (entries.map fun d => entryKey d.1).Nodup)
    {s : CronSource} (h : Good (fun _ => False) s) (pairMap : OrderedMap String Nat)
    (hpair : s.pairs.get? (pairKey owner repo) = some pairMap)
    (hfresh : ∀ d ∈ entries, pairMap.get? (entryKey d.1) = none) :
    Good (fun _ => False)
      (entries.foldl (fun s d => (s.install owner repo d.1).arm cron s.entries.length d.2) s) := by
  induction entries generalizing s pairMap with
  | nil => exact h
  | cons d entries ih =>
    rw [List.map_cons, List.nodup_cons] at hkeys
    rw [List.foldl_cons]
    have hinstalled := h.install hpair (hfresh d List.mem_cons_self)
    have hx : (s.install owner repo d.1).entries[s.entries.length]? = some ⟨owner, repo, d.1, none⟩ := by
      simp [CronSource.install]
    have hnot : s.entries.length ∉ s.firing := by
      intro hmem
      obtain ⟨y, hy, -⟩ := h.idle _ hmem
      exact Nat.lt_irrefl _ (lt_of_getElem?_eq_some hy)
    refine ih hkeys.2 (hinstalled.arm cron hx rfl hnot (isCurrent_installed owner repo d.1) d.2
      fun f hf => Or.inr hf) (pairMap.set (entryKey d.1) s.entries.length) ?_ ?_
    · rw [(arm_frame cron _ _ _).1]
      simp [CronSource.install, hpair]
    · intro d' hd'
      have hne : entryKey d'.1 ≠ entryKey d.1 := by
        intro heq
        exact hkeys.1 (List.mem_map.mpr ⟨d', hd', heq⟩)
      rw [OrderedMap.get?_set_of_ne _ _ _ hne]
      exact hfresh d' (List.mem_cons_of_mem d hd')

theorem cancelPair_eq (s : CronSource) (owner repo : String) :
    s.cancelPair owner repo =
      (((s.pairs.get? (pairKey owner repo)).map OrderedMap.values).getD []).foldl CronSource.cancel s := by
  unfold CronSource.cancelPair
  cases s.pairs.get? (pairKey owner repo) with
  | none => rfl
  | some pairMap => rfl

theorem Good.reconfigure {s : CronSource} (h : Good (fun _ => False) s) (cron : CronExpressionParser)
    (owner repo : String) (entries : List (Descriptor × Int))
    (hkeys : (entries.map fun d => entryKey d.1).Nodup) :
    Good (fun _ => False) (s.reconfigure cron owner repo entries) := by
  obtain ⟨hgood, hc⟩ :=
    h.cancelAll (((s.pairs.get? (pairKey owner repo)).map OrderedMap.values).getD [])
  rw [← cancelPair_eq] at hgood hc
  have htimer : ∀ (e : Nat) (y : SourceEntry), (s.cancelPair owner repo).entries[e]? = some y →
      pairKey y.owner y.repo = pairKey owner repo → y.timer = none := by
    intro e y hy hkey
    refine timer_of_cancelled h hc hy ?_
    intro pairMap hpair hget
    rw [← hkey, hpair]
    exact OrderedMap.mem_values_of_get? hget
  have hhole : ∀ (e : Nat) (y : SourceEntry), (s.cancelPair owner repo).entries[e]? = some y →
      (False ∨ e ∈ (((s.pairs.get? (pairKey owner repo)).map OrderedMap.values).getD [])) →
      pairKey y.owner y.repo = pairKey owner repo := by
    rintro e y hy (hfalse | hmem)
    · cases hfalse
    · cases hpair : s.pairs.get? (pairKey owner repo) with
      | none => simp [hpair] at hmem
      | some pairMap =>
        rw [hpair] at hmem
        obtain ⟨k, hk⟩ := OrderedMap.get?_of_mem_values hmem
        obtain ⟨x, hx, hkey, -⟩ := h.keyed _ pairMap hpair k e hk
        have hid := identity_of_cancelled hc hx hy
        simp only [SourceEntry.identity, Prod.mk.injEq] at hid
        rw [hid.1, hid.2.1, hkey]
  unfold CronSource.reconfigure
  dsimp only
  split
  · refine hgood.drop (fun key => key = pairKey owner repo) rfl rfl rfl rfl ?_ ?_ htimer hhole
    · intro key pairMap hpair k e _
      dsimp only at hpair
      rw [OrderedMap.get?_delete] at hpair
      split at hpair
      · cases hpair
      · rename_i hkey
        exact ⟨hkey, hpair⟩
    · intro key hkey
      exact OrderedMap.get?_delete_of_ne _ hkey
  · refine Good.installAll cron owner repo entries hkeys ?_ .empty (by simp) (by simp)
    refine hgood.drop (fun key => key = pairKey owner repo) rfl rfl rfl rfl ?_ ?_ htimer hhole
    · intro key pairMap hpair k e he
      dsimp only at hpair
      rw [OrderedMap.get?_set] at hpair
      split at hpair
      · obtain rfl := Option.some.inj hpair
        simp at he
      · rename_i hkey
        rw [OrderedMap.get?_delete_of_ne _ hkey] at hpair
        exact ⟨hkey, hpair⟩
    · intro key hkey
      dsimp only
      rw [OrderedMap.get?_set_of_ne _ _ _ hkey, OrderedMap.get?_delete_of_ne _ hkey]

end WorkflowEngine.Runtime.Cron
