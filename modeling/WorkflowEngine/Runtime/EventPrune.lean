import WorkflowEngine.Lib.IsoTime
import WorkflowEngine.Lib.WriteChain
import WorkflowEngine.Runtime.EventRows
import Mathlib.Data.Finset.Card

/-!
# Pruning the event store

`prune` of `event-store.ts` and the chain that it shares with the commits. A commit is one INSERT, a prune counts
and deletes in one transaction; `runExclusive` starts a write when the one before it has settled. Stored rows have
a time of the years 0 to 9999 as their `at`.
-/

namespace WorkflowEngine.Runtime.EventPrune

open Lib Lib.WriteChain
set_option autoImplicit false

structure StoredRow extends EventsRow where
  time : UtcTime
  year_range : 0 ≤ time.year ∧ time.year ≤ 9999
  atIso_eq : atIso = time.toISOString

/-! ## Statements -/

/-- `SELECT id FROM events GROUP BY id`. -/
def groupIds (rows : List StoredRow) : List String := (rows.map (·.id)).dedup

def maxAt (rows : List StoredRow) (id : String) : Option String :=
  ((rows.filter fun r => r.id = id).map (·.atIso)).max?

/-- `HAVING max("at") < cutoff`. -/
def staleIds (rows : List StoredRow) (cutoff : String) : List String :=
  (groupIds rows).filter fun id => (maxAt rows id).any fun last => last < cutoff

def deleteStale (rows : List StoredRow) (cutoff : String) : List StoredRow :=
  rows.filter fun r => r.id ∉ staleIds rows cutoff

/-- The primary key is `(id, seq)`. -/
def violatesKey (rows batch : List StoredRow) : Bool :=
  ¬ ((rows ++ batch).map fun r => (r.id, r.seq)).Nodup

/-! ## Writes -/

inductive StoreWrite where
  | insert (batch : List StoredRow)
  | prune (olderThan : UtcTime)

inductive WriteResult where
  | inserted
  | constraint
  | pruned (invocations : Nat)
  deriving DecidableEq

def insertProgram (batch : List StoredRow) : Program (List StoredRow) WriteResult :=
  .statement (fun rows => if violatesKey rows batch then rows else rows ++ batch) fun rows =>
    .done (if violatesKey rows batch then .constraint else .inserted)

def pruneProgram (olderThan : UtcTime) : Program (List StoredRow) WriteResult :=
  let cutoff := olderThan.toISOString
  .statement id fun rows =>
    let invocations := (staleIds rows cutoff).length
    if invocations = 0 then .done (.pruned 0)
    else .statement (deleteStale · cutoff) fun _ => .done (.pruned invocations)

def storeProgram : StoreWrite → Program (List StoredRow) WriteResult
  | .insert batch => insertProgram batch
  | .prune olderThan => pruneProgram olderThan

/-! ## The store -/

structure PruneStore where
  stopped : Bool
  writeChain : Chain (List StoredRow) WriteResult StoreWrite
  /-- What the prunes of a stopped store returned. -/
  skipped : List Nat

inductive PruneAction where
  | commitOnce (batch : List StoredRow)
  | prune (olderThan : UtcTime)
  | drainAndClose
  | turn (t : WriteChain.Turn) (i : Nat)

def PruneStore.start (rows : List StoredRow) : PruneStore := ⟨false, ⟨rows, []⟩, []⟩

def PruneStore.onChain (s : PruneStore) (a : ChainAction StoreWrite) : Option PruneStore :=
  (WriteChain.step storeProgram s.writeChain a).map fun chain => { s with writeChain := chain }

def pruneStep (s : PruneStore) : PruneAction → Option PruneStore
  | .commitOnce batch => s.onChain (.call (.insert batch))
  | .prune olderThan =>
    if s.stopped then some { s with skipped := s.skipped ++ [0] } else s.onChain (.call (.prune olderThan))
  | .drainAndClose => some { s with stopped := true }
  | .turn t i => s.onChain (.turn t i)

/-! ## What a prune does -/

/-- All events of the invocation are strictly before the cutoff. -/
def Past (olderThan : UtcTime) (rows : List StoredRow) (id : String) : Prop :=
  ∀ r ∈ rows, r.id = id → r.time.Before olderThan

instance (olderThan : UtcTime) (rows : List StoredRow) (id : String) : Decidable (Past olderThan rows id) :=
  inferInstanceAs (Decidable (∀ r ∈ rows, _))

/-- Whole invocations are deleted, those whose events are all past, and they are counted. -/
structure Pruned (olderThan : UtcTime) (seen after : List StoredRow) (invocations : Nat) : Prop where
  rows : after = seen.filter fun r => ¬ Past olderThan seen r.id
  whole : ∀ r ∈ seen, r ∉ after → ∀ r' ∈ after, r'.id ≠ r.id
  count : invocations = ((seen.map (·.id)).toFinset.filter (Past olderThan seen)).card

theorem before_iff {olderThan : UtcTime} (hyear : olderThan.year ≤ 9999) (r : StoredRow) :
    r.atIso < olderThan.toISOString ↔ r.time.Before olderThan := by
  rw [r.atIso_eq]
  exact UtcTime.toISOString_lt_iff r.year_range hyear

theorem mem_group {rows : List StoredRow} {id text : String} :
    text ∈ (rows.filter fun r => r.id = id).map (·.atIso) ↔ ∃ r ∈ rows, r.id = id ∧ r.atIso = text := by
  simp [and_assoc]

/-- The greatest text of a group is below the cutoff exactly when all of them are. -/
theorem maxAt_lt_iff {rows : List StoredRow} {id : String} (hid : id ∈ rows.map (·.id)) (cutoff : String) :
    (maxAt rows id).any (fun last => last < cutoff) = true ↔ ∀ r ∈ rows, r.id = id → r.atIso < cutoff := by
  obtain ⟨r₀, hr₀, hid₀⟩ := List.mem_map.mp hid
  unfold maxAt
  cases hmax : ((rows.filter fun r => r.id = id).map (·.atIso)).max? with
  | none =>
    have hmem := mem_group.mpr ⟨r₀, hr₀, hid₀, rfl⟩
    rw [List.max?_eq_none_iff.mp hmax] at hmem
    cases hmem
  | some last =>
    obtain ⟨hlast, hgreatest⟩ := List.max?_eq_some_iff.mp hmax
    obtain ⟨r, hr, hrid, hrat⟩ := mem_group.mp hlast
    simp only [Option.any_some, decide_eq_true_eq]
    constructor
    · intro hlt r' hr' hrid'
      exact lt_of_le_of_lt (hgreatest _ (mem_group.mpr ⟨r', hr', hrid', rfl⟩)) hlt
    · intro hall
      rw [← hrat]
      exact hall r hr hrid

theorem mem_staleIds_iff {olderThan : UtcTime} (hyear : olderThan.year ≤ 9999) (rows : List StoredRow)
    (id : String) :
    id ∈ staleIds rows olderThan.toISOString ↔ id ∈ rows.map (·.id) ∧ Past olderThan rows id := by
  rw [staleIds, List.mem_filter, groupIds, List.mem_dedup]
  refine and_congr_right fun hid => ?_
  rw [maxAt_lt_iff hid]
  exact forall_congr' fun r => forall_congr' fun _ => forall_congr' fun _ => before_iff hyear r

theorem deleteStale_eq {olderThan : UtcTime} (hyear : olderThan.year ≤ 9999) (rows : List StoredRow) :
    deleteStale rows olderThan.toISOString = rows.filter fun r => ¬ Past olderThan rows r.id := by
  refine List.filter_congr fun r hr => ?_
  rw [decide_eq_decide, mem_staleIds_iff hyear]
  simp [List.mem_map_of_mem (f := fun x : StoredRow => x.id) hr]

theorem length_staleIds {olderThan : UtcTime} (hyear : olderThan.year ≤ 9999) (rows : List StoredRow) :
    (staleIds rows olderThan.toISOString).length =
      ((rows.map (·.id)).toFinset.filter (Past olderThan rows)).card := by
  have hnodup : (staleIds rows olderThan.toISOString).Nodup := (List.nodup_dedup _).filter _
  rw [← List.toFinset_card_of_nodup hnodup]
  congr 1
  ext id
  simp [mem_staleIds_iff hyear]

theorem pruned_deleteStale {olderThan : UtcTime} (hyear : olderThan.year ≤ 9999) (rows : List StoredRow) :
    Pruned olderThan rows (deleteStale rows olderThan.toISOString)
      (staleIds rows olderThan.toISOString).length := by
  refine ⟨deleteStale_eq hyear rows, ?_, length_staleIds hyear rows⟩
  intro r hr hdeleted r' hr' heq
  unfold deleteStale at hdeleted hr'
  simp only [List.mem_filter, decide_eq_true_eq, not_and, not_not] at hdeleted hr'
  rw [heq] at hr'
  exact hr'.2 (hdeleted hr)

/-- The two statements together. -/
theorem run_pruneProgram (olderThan : UtcTime) (rows : List StoredRow) :
    (pruneProgram olderThan).run rows =
      (deleteStale rows olderThan.toISOString, .pruned (staleIds rows olderThan.toISOString).length) := by
  by_cases hnone : (staleIds rows olderThan.toISOString).length = 0
  · have hkept : deleteStale rows olderThan.toISOString = rows := by
      simp [deleteStale, List.length_eq_zero_iff.mp hnone]
    simp only [pruneProgram, Program.run, id]
    rw [if_pos hnone, hkept, hnone]
    rfl
  · simp only [pruneProgram, Program.run, id]
    rw [if_neg hnone]
    rfl

/-! ## Runs -/

def OneByOne (rows : List StoredRow) (s : PruneStore) : Prop := Inv storeProgram rows s.writeChain

theorem OneByOne.onChain {rows : List StoredRow} {s t : PruneStore} {a : ChainAction StoreWrite}
    (hinv : OneByOne rows s) (h : s.onChain a = some t) : OneByOne rows t := by
  obtain ⟨chain, hchain, rfl⟩ := Option.map_eq_some_iff.mp h
  exact Inv.step hinv hchain

theorem OneByOne.pruneStep (rows : List StoredRow) (s : PruneStore) (a : PruneAction) (t : PruneStore)
    (hinv : OneByOne rows s) (h : pruneStep s a = some t) : OneByOne rows t := by
  cases a with
  | commitOnce batch => exact hinv.onChain h
  | prune olderThan =>
    rw [EventPrune.pruneStep] at h
    split at h
    · cases h
      exact hinv
    · exact hinv.onChain h
  | drainAndClose =>
    cases h
    exact hinv
  | turn t i => exact hinv.onChain h

theorem oneByOne_exec {rows : List StoredRow} {actions : List PruneAction} {s : PruneStore}
    (h : exec pruneStep (PruneStore.start rows) actions = some s) : OneByOne rows s := by
  have hstart : OneByOne rows (PruneStore.start rows) := inv_start
  exact exec_invariant (OneByOne.pruneStep rows) hstart h

def january (year : Nat) (h : year ≤ 9999) : UtcTime :=
  ⟨year, 1, 1, 0, 0, 0, 0, by omega, by decide, by decide, by decide⟩

def januaryRow (id : String) (year : Nat) (h : year ≤ 9999) : StoredRow where
  id := id
  seq := 0
  kind := "trigger.exception"
  ref := none
  atIso := (january year h).toISOString
  ts := 0
  owner := "o"
  repo := "r"
  workflow := "w"
  workflowSha := "s"
  name := "n"
  input := none
  output := none
  error := none
  metadata := none
  time := january year h
  year_range := by simp [january]; omega
  atIso_eq := rfl

def twoYears : List StoredRow := [januaryRow "a" 2020 (by decide), januaryRow "b" 2024 (by decide)]

theorem staleIds_2022 : staleIds twoYears (january 2022 (by decide)).toISOString = ["a"] := by decide

end WorkflowEngine.Runtime.EventPrune
