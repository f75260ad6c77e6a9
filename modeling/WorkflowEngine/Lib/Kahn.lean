import Mathlib.Data.List.Shortlex
import Mathlib.Data.List.Nodup
import Mathlib.Data.List.Flatten
import Mathlib.Data.List.Chain
import Mathlib.Data.List.Perm.Subperm
import Mathlib.Logic.Relation
import Mathlib.Order.Basic

/-!
# Kahn's algorithm with repeated edges

Nodes wait in a queue. The node at its head is done next and releases the nodes all of whose
dependencies are done by then, each as often as it names the head. Where nothing is released twice, the
queue runs through the nodes in the shortlex order of their ranks: the rank of a node is that of the
dependency which comes last, followed by the node's own place in the list.
-/

namespace WorkflowEngine.Lib

set_option autoImplicit false

universe u

variable {α : Type u}

/-! ## Cycles in a finite graph -/

/-- A closed walk along `E`. -/
structure IsCycle (E : α → α → Prop) (c : List α) : Prop where
  length : 2 ≤ c.length
  ends : c.head? = c.getLast?
  steps : c.IsChain E

theorem transGen_of_isChain {E : α → α → Prop} {x y : α} {c : List α} (h : (x :: c).IsChain E)
    (hc : c ≠ []) (hy : (x :: c).getLast? = some y) : Relation.TransGen E x y := by
  induction c generalizing x with
  | nil => exact absurd rfl hc
  | cons z c ih =>
    obtain ⟨hxz, hrest⟩ := List.isChain_cons_cons.mp h
    cases c with
    | nil =>
      have hzy : z = y := by simpa using hy
      exact hzy ▸ Relation.TransGen.single hxz
    | cons w c => exact Relation.TransGen.head hxz (ih hrest (by simp) (by simpa using hy))

theorem IsCycle.transGen {E : α → α → Prop} {c : List α} (h : IsCycle E c) : ∃ x, Relation.TransGen E x x := by
  cases c with
  | nil => exact absurd h.length (by simp)
  | cons x c =>
    have hc : c ≠ [] := by
      rintro rfl
      exact absurd h.length (by simp)
    exact ⟨x, transGen_of_isChain h.steps hc (by simpa using h.ends.symm)⟩

section Walk
variable [DecidableEq α]

/-- Follow `next` until a node comes again; the walk from its first visit on is the result. -/
def walk (next : α → Option α) : Nat → List α → α → Option (List α)
  | 0, _, _ => none
  | fuel + 1, path, current =>
    if current ∈ path then some (path.drop (path.idxOf current) ++ [current])
    else
      match next current with
      | some n => walk next fuel (path ++ [current]) n
      | none => some (path ++ [current])

/-- More fuel does not change a walk that ended. -/
theorem walk_mono {next : α → Option α} {fuel fuel' : Nat} {path cycle : List α} {current : α} (hle : fuel ≤ fuel')
    (h : walk next fuel path current = some cycle) : walk next fuel' path current = some cycle := by
  induction fuel generalizing fuel' path current with
  | zero => cases h
  | succ fuel ih =>
    cases fuel' with
    | zero => omega
    | succ fuel' =>
      unfold walk at h ⊢
      split at h
      · rename_i hmem
        rwa [if_pos hmem]
      · rename_i hmem
        rw [if_neg hmem]
        split at h
        · exact ih (by omega) h
        · exact h

theorem isCycle_drop {E : α → α → Prop} {path : List α} {current : α} (hmem : current ∈ path)
    (hchain : (path ++ [current]).IsChain E) : IsCycle E (path.drop (path.idxOf current) ++ [current]) := by
  have hlt : path.idxOf current < path.length := List.idxOf_lt_length_of_mem hmem
  have hsuffix : path.drop (path.idxOf current) ++ [current] <:+ path ++ [current] :=
    ⟨path.take (path.idxOf current), by rw [← List.append_assoc, List.take_append_drop]⟩
  refine ⟨?_, ?_, hchain.suffix hsuffix⟩
  · rw [List.length_append, List.length_drop, List.length_singleton]
    omega
  · rw [List.getLast?_concat, List.head?_append, List.head?_drop, List.getElem?_eq_getElem hlt, List.getElem_idxOf]
    rfl

/-- A walk that never runs out of nodes closes a cycle, after at most one visit to each node. -/
theorem walk_isCycle {E : α → α → Prop} {next : α → Option α} {nodes : List α} {P : α → Prop}
    (hnext : ∀ x, P x → x ∈ nodes ∧ ∃ y, next x = some y ∧ E x y ∧ P y) (fuel : Nat) (path : List α) (current : α)
    (hpath : path ⊆ nodes) (hnodup : path.Nodup) (hchain : (path ++ [current]).IsChain E) (hcurrent : P current)
    (hfuel : nodes.length < path.length + fuel) :
    ∃ cycle, walk next fuel path current = some cycle ∧ IsCycle E cycle := by
  induction fuel generalizing path current with
  | zero =>
    have hle := (List.subperm_of_subset hnodup hpath).length_le
    omega
  | succ fuel ih =>
    unfold walk
    by_cases hmem : current ∈ path
    · exact ⟨_, if_pos hmem, isCycle_drop hmem hchain⟩
    · rw [if_neg hmem]
      obtain ⟨hcur, y, hy, hedge, hPy⟩ := hnext current hcurrent
      rw [hy]
      refine ih (path ++ [current]) y ?_ ?_ ?_ hPy ?_
      · intro x hx
        rcases List.mem_append.mp hx with hx | hx
        · exact hpath hx
        · exact List.mem_singleton.mp hx ▸ hcur
      · exact List.nodup_append'.mpr ⟨hnodup, List.nodup_singleton _, by simpa using hmem⟩
      · rw [List.isChain_append]
        refine ⟨hchain, List.isChain_singleton _, ?_⟩
        intro a ha b hb
        rw [List.getLast?_concat, Option.mem_some_iff] at ha
        rw [List.head?_cons, Option.mem_some_iff] at hb
        exact ha ▸ hb ▸ hedge
      · rw [List.length_append, List.length_singleton]
        omega

end Walk

/-! ## The queue -/

namespace Kahn

structure Queue (α : Type u) where
  done : List α
  ready : List α

section Steps
variable [DecidableEq α] (nodes : List α) (deps : α → List α)

/-- How often the completion of `c` releases `y`. -/
def copies (done : List α) (c y : α) : List α :=
  if ∀ q ∈ deps y, q ∈ done ++ [c] then List.replicate ((deps y).count c) y else []

/-- What the completion of `c` releases; a node comes as often as it names `c`. -/
def released (done : List α) (c : α) : List α := nodes.flatMap (copies deps done c)

def start : Queue α := ⟨[], nodes.filter fun y => deps y = []⟩

def Step (s t : Queue α) : Prop :=
  ∃ c rest, s.ready = c :: rest ∧ t = ⟨s.done ++ [c], rest ++ released nodes deps s.done c⟩

def Reached (s : Queue α) : Prop := Relation.ReflTransGen (Step nodes deps) (start nodes deps) s

/-- `x` names `y`. -/
def Names (x y : α) : Prop := x ∈ nodes ∧ y ∈ deps x

variable {nodes deps}

theorem mem_copies {done : List α} {c y z : α} :
    z ∈ copies deps done c y ↔ z = y ∧ c ∈ deps y ∧ ∀ q ∈ deps y, q ∈ done ++ [c] := by
  unfold copies
  split
  · rename_i hdeps
    rw [List.mem_replicate, ← Nat.pos_iff_ne_zero, List.count_pos_iff]
    exact ⟨fun h => ⟨h.2, h.1, hdeps⟩, fun h => ⟨h.2.1, h.1⟩⟩
  · rename_i hdeps
    exact ⟨fun h => absurd h List.not_mem_nil, fun h => absurd h.2.2 hdeps⟩

theorem mem_released {done : List α} {c y : α} :
    y ∈ released nodes deps done c ↔ y ∈ nodes ∧ c ∈ deps y ∧ ∀ q ∈ deps y, q ∈ done ++ [c] := by
  simp only [released, List.mem_flatMap, mem_copies]
  constructor
  · rintro ⟨z, hz, rfl, hdeps⟩
    exact ⟨hz, hdeps⟩
  · rintro ⟨hy, hdeps⟩
    exact ⟨y, hy, rfl, hdeps⟩

/-- What holds of every queue, with or without repetitions. -/
structure Inv (nodes : List α) (deps : α → List α) (s : Queue α) : Prop where
  released_iff : ∀ y, y ∈ s.done ++ s.ready ↔ y ∈ nodes ∧ ∀ q ∈ deps y, q ∈ s.done
  sorted : ∀ before y after, s.done = before ++ y :: after → ∀ q ∈ deps y, q ∈ before

omit [DecidableEq α] in
theorem inv_start : Inv nodes deps (start nodes deps) where
  released_iff := by
    intro y
    simp [start, List.eq_nil_iff_forall_not_mem]
  sorted := by
    intro before y after h
    cases before with
    | nil => cases h
    | cons b before => cases h

theorem Inv.step {s t : Queue α} (h : Inv nodes deps s) (hstep : Step nodes deps s t) : Inv nodes deps t := by
  obtain ⟨c, rest, hready, rfl⟩ := hstep
  have hc : c ∈ nodes ∧ ∀ q ∈ deps c, q ∈ s.done := (h.released_iff c).mp (by simp [hready])
  constructor
  · intro y
    have hold := h.released_iff y
    rw [hready] at hold
    have hgoal : y ∈ s.done ++ [c] ++ (rest ++ released nodes deps s.done c) ↔
        y ∈ s.done ++ c :: rest ∨ y ∈ released nodes deps s.done c := by
      simp [or_assoc]
    rw [hgoal, hold, mem_released]
    constructor
    · rintro (⟨hy, hdeps⟩ | ⟨hy, _, hdeps⟩)
      · exact ⟨hy, fun q hq => List.mem_append_left _ (hdeps q hq)⟩
      · exact ⟨hy, hdeps⟩
    · rintro ⟨hy, hdeps⟩
      by_cases hmem : c ∈ deps y
      · exact Or.inr ⟨hy, hmem, hdeps⟩
      · refine Or.inl ⟨hy, ?_⟩
        intro q hq
        rcases List.mem_append.mp (hdeps q hq) with hdone | hlast
        · exact hdone
        · exact absurd (List.mem_singleton.mp hlast ▸ hq) hmem
  · intro before y after hsplit q hq
    rcases List.append_eq_append_iff.mp hsplit with ⟨m, hbefore, hm⟩ | ⟨m, hdone, hm⟩
    · cases m with
      | nil =>
        obtain ⟨rfl, _⟩ := List.cons.inj hm
        rw [hbefore, List.append_nil]
        exact hc.2 q hq
      | cons d m => simp at hm
    · cases m with
      | nil =>
        obtain ⟨rfl, _⟩ := List.cons.inj hm
        rw [List.append_nil] at hdone
        exact hdone ▸ hc.2 q hq
      | cons d m =>
        obtain ⟨rfl, _⟩ := List.cons.inj hm
        exact h.sorted before _ m hdone q hq

theorem Reached.inv {s : Queue α} (h : Reached nodes deps s) : Inv nodes deps s := by
  induction h with
  | refl => exact inv_start
  | tail _ hstep ih => exact ih.step hstep

/-! ### The end of a run -/

omit [DecidableEq α] in
/-- A node on a cycle is never done. -/
theorem Inv.not_cyclic {s : Queue α} (h : Inv nodes deps s) {x : α} (hx : Relation.TransGen (Names nodes deps) x x) :
    x ∉ s.done := by
  have hbefore : ∀ y, Relation.TransGen (Names nodes deps) x y →
      ∀ before after, s.done = before ++ x :: after → y ∈ before := by
    intro y hy
    induction hy with
    | single hname =>
      intro before after hsplit
      exact h.sorted before x after hsplit _ hname.2
    | tail _ hname ih =>
      intro before after hsplit
      obtain ⟨left, right, hbefore⟩ := List.append_of_mem (ih before after hsplit)
      have hleft := h.sorted left _ (right ++ x :: after) (by rw [hsplit, hbefore]; simp) _ hname.2
      rw [hbefore]
      exact List.mem_append_left _ hleft
  intro hmem
  obtain ⟨before, after, hsplit, hfirst⟩ := List.eq_append_cons_of_mem hmem
  exact hfirst (hbefore x hx before after hsplit)

/-- The first dependency of a node that is not done. -/
def pendingHead (deps : α → List α) (done : List α) (x : α) : Option α := (deps x).find? (· ∉ done)

theorem Inv.pendingHead_eq {s : Queue α} (h : Inv nodes deps s) (hready : s.ready = [])
    (hclosed : ∀ x ∈ nodes, ∀ q ∈ deps x, q ∈ nodes) {x : α} (hx : x ∈ nodes ∧ x ∉ s.done) :
    ∃ y, pendingHead deps s.done x = some y ∧ Names nodes deps x y ∧ y ∈ nodes ∧ y ∉ s.done := by
  have hnot := fun hdeps => hx.2 (by simpa [hready] using (h.released_iff x).mpr ⟨hx.1, hdeps⟩)
  cases hfind : pendingHead deps s.done x with
  | none =>
    refine absurd (fun q hq => ?_) hnot
    simpa using List.find?_eq_none.mp hfind q hq
  | some y =>
    have hmem := List.mem_of_find?_eq_some hfind
    refine ⟨y, rfl, ⟨hx.1, hmem⟩, hclosed x hx.1 y hmem, ?_⟩
    simpa using List.find?_some hfind

/-- Where the queue ran empty before every node was done, the pending dependencies lead into a cycle. -/
theorem Inv.walk_pending {s : Queue α} (h : Inv nodes deps s) (hready : s.ready = [])
    (hclosed : ∀ x ∈ nodes, ∀ q ∈ deps x, q ∈ nodes) {x : α} (hx : x ∈ nodes ∧ x ∉ s.done) {fuel : Nat}
    (hfuel : nodes.length < fuel) :
    ∃ cycle, walk (pendingHead deps s.done) fuel [] x = some cycle ∧ IsCycle (Names nodes deps) cycle := by
  refine walk_isCycle (P := fun x => x ∈ nodes ∧ x ∉ s.done) ?_ fuel [] x (by simp)
    List.nodup_nil (List.isChain_singleton x) hx (by simpa using hfuel)
  intro z hz
  obtain ⟨y, hy, hname, hpending⟩ := h.pendingHead_eq hready hclosed hz
  exact ⟨hz.1, y, hy, hname, hpending⟩

/-- Without a cycle the run ends with every node done. -/
theorem Inv.all_done {s : Queue α} (h : Inv nodes deps s) (hready : s.ready = [])
    (hclosed : ∀ x ∈ nodes, ∀ q ∈ deps x, q ∈ nodes) (hacyclic : ¬∃ x, Relation.TransGen (Names nodes deps) x x)
    {x : α} (hx : x ∈ nodes) : x ∈ s.done := by
  by_contra hnot
  obtain ⟨cycle, _, hcycle⟩ := h.walk_pending hready hclosed ⟨hx, hnot⟩ (Nat.lt_succ_self nodes.length)
  exact hacyclic hcycle.transGen

omit [DecidableEq α] in
theorem Inv.done_subset {s : Queue α} (h : Inv nodes deps s) : s.done ⊆ nodes := fun x hx =>
  ((h.released_iff x).mp (List.mem_append_left _ hx)).1

/-! ### Ranks -/

/-- The path of last dependencies that leads to a node, by places in `nodes`. -/
inductive Rank (nodes : List α) (deps : α → List α) : α → List Nat → Prop
  | mk (y : α) (hy : y ∈ nodes) (rank : α → List Nat) (last : List Nat)
      (hdeps : ∀ q ∈ deps y, Rank nodes deps q (rank q))
      (hlast : (deps y = [] ∧ last = []) ∨ ∃ q ∈ deps y, rank q = last)
      (hmax : ∀ q ∈ deps y, rank q = last ∨ List.Shortlex (· < ·) (rank q) last) :
      Rank nodes deps y (last ++ [nodes.idxOf y])

/-- Each node names the dependency of greatest rank once. -/
def NamesLastOnce (nodes : List α) (deps : α → List α) : Prop :=
  ∀ y ∈ nodes, ∀ last ∈ deps y, ∀ r, Rank nodes deps last r →
    (∀ q ∈ deps y, ∃ s, Rank nodes deps q s ∧ (s = r ∨ List.Shortlex (· < ·) s r)) → (deps y).count last = 1

theorem shortlex_asymm {r s : List Nat} (h : List.Shortlex (· < ·) r s) : ¬List.Shortlex (· < ·) s r :=
  Std.Asymm.asymm (r := List.Shortlex (· < ·)) r s h

theorem shortlex_concat {r s : List Nat} (h : List.Shortlex (· < ·) r s) (i j : Nat) :
    List.Shortlex (· < ·) (r ++ [i]) (s ++ [j]) := by
  rw [List.shortlex_def, List.length_append, List.length_append, List.length_singleton, List.length_singleton]
  rcases List.shortlex_def.mp h with hlt | ⟨heq, hlex⟩
  · exact Or.inl (by omega)
  · refine Or.inr ⟨by omega, ?_⟩
    clear h
    induction hlex with
    | nil => simp at heq
    | cons _ ih => exact List.Lex.cons (ih (by simpa using heq))
    | rel hab => exact List.Lex.rel hab

theorem shortlex_concat_of_lt (r : List Nat) {i j : Nat} (h : i < j) :
    List.Shortlex (· < ·) (r ++ [i]) (r ++ [j]) :=
  List.Shortlex.append_left ((List.shortlex_singleton_iff i j).mpr h) r

theorem Rank.mem {y : α} {r : List Nat} (h : Rank nodes deps y r) : y ∈ nodes := by
  cases h with
  | mk _ hy => exact hy

theorem Rank.functional {y : α} {r s : List Nat} (hr : Rank nodes deps y r) (hs : Rank nodes deps y s) : r = s := by
  induction hr generalizing s with
  | mk y hy rank last hdeps hlast hmax ih =>
    cases hs with
    | mk _ _ rank' last' hdeps' hlast' hmax' =>
      have hsame : ∀ q ∈ deps y, rank q = rank' q := fun q hq => ih q hq (hdeps' q hq)
      have hlasts : last = last' := by
        rcases hlast with ⟨hnil, rfl⟩ | ⟨q, hq, rfl⟩
        · rcases hlast' with ⟨_, rfl⟩ | ⟨q, hq, _⟩
          · rfl
          · rw [hnil] at hq
            cases hq
        · rcases hlast' with ⟨hnil, _⟩ | ⟨q', hq', rfl⟩
          · rw [hnil] at hq
            cases hq
          · rcases hmax' q hq with heq | hlt
            · rw [hsame q hq, heq]
            · rcases hmax q' hq' with heq | hgt
              · rw [← heq, hsame q' hq']
              · rw [hsame q hq, hsame q' hq'] at hgt
                exact absurd hgt (shortlex_asymm hlt)
      rw [hlasts]

theorem Rank.ne_nil {y : α} {r : List Nat} (h : Rank nodes deps y r) : r ≠ [] := by
  cases h
  simp

/-! ### Runs that release nothing twice -/

/-- The order of the queue while every node is in it at most once. -/
structure Ranked (nodes : List α) (deps : α → List α) (s : Queue α) : Prop where
  parent : ∀ z ∈ s.done ++ s.ready, ∃ r, Rank nodes deps z (r ++ [nodes.idxOf z]) ∧
    (r = [] ∨ ∃ p ∈ s.done, Rank nodes deps p r)
  sorted : (s.done ++ s.ready).Pairwise fun a b =>
    ∀ r s, Rank nodes deps a r → Rank nodes deps b s → List.Shortlex (· < ·) r s

theorem idxOf_lt_of_nodup {nodes : List α} (hnodup : nodes.Nodup) :
    nodes.Pairwise fun a b => nodes.idxOf a < nodes.idxOf b := by
  rw [List.pairwise_iff_getElem]
  intro i j hi hj hij
  rw [hnodup.idxOf_getElem i hi, hnodup.idxOf_getElem j hj]
  exact hij

theorem ranked_start (hnodup : nodes.Nodup) : Ranked nodes deps (start nodes deps) where
  parent := by
    intro z hz
    have hz' : z ∈ nodes ∧ deps z = [] := by simpa [start] using hz
    refine ⟨[], ?_, Or.inl rfl⟩
    refine Rank.mk z hz'.1 (fun _ => []) [] ?_ (Or.inl ⟨hz'.2, rfl⟩) ?_
    · rw [hz'.2]
      simp
    · rw [hz'.2]
      simp
  sorted := by
    have hroot : ∀ z, deps z = [] → ∀ r, Rank nodes deps z r → r = [nodes.idxOf z] := by
      intro z hz r hr
      cases hr with
      | mk _ _ rank last _ hlast _ =>
        rcases hlast with ⟨_, rfl⟩ | ⟨q, hq, _⟩
        · rfl
        · rw [hz] at hq
          cases hq
    have hpairs := List.Pairwise.filter (fun y => decide (deps y = [])) (idxOf_lt_of_nodup hnodup)
    refine List.Pairwise.imp_of_mem ?_ hpairs
    intro a b ha hb hlt r s hr hs
    rw [hroot a (of_decide_eq_true (List.mem_filter.mp ha).2) r hr,
      hroot b (of_decide_eq_true (List.mem_filter.mp hb).2) s hs, List.shortlex_singleton_iff]
    exact hlt

theorem Ranked.exists_rank {s : Queue α} (h : Ranked nodes deps s) {z : α} (hz : z ∈ s.done ++ s.ready) :
    ∃ r, Rank nodes deps z r := by
  obtain ⟨r, hr, _⟩ := h.parent z hz
  exact ⟨_, hr⟩

/-- A node released by `c` comes right below `c`. -/
theorem Ranked.rank_released {s : Queue α} (h : Ranked nodes deps s) {c y : α} {rest : List α} {rc : List Nat}
    (hready : s.ready = c :: rest) (hrc : Rank nodes deps c rc) (hy : y ∈ released nodes deps s.done c) :
    Rank nodes deps y (rc ++ [nodes.idxOf y]) := by
  obtain ⟨hnode, hcy, hdeps⟩ := mem_released.mp hy
  have hmem : ∀ q ∈ deps y, q ∈ s.done ++ s.ready := by
    intro q hq
    rw [hready]
    rcases List.mem_append.mp (hdeps q hq) with hdone | hlast
    · exact List.mem_append_left _ hdone
    · exact List.mem_append_right _ (List.mem_singleton.mp hlast ▸ List.mem_cons_self)
  have hrank : ∀ q, ∃ r, q ∈ deps y → Rank nodes deps q r := by
    intro q
    by_cases hq : q ∈ deps y
    · obtain ⟨r, hr⟩ := h.exists_rank (hmem q hq)
      exact ⟨r, fun _ => hr⟩
    · exact ⟨[], fun hq' => absurd hq' hq⟩
  choose rank hrank using hrank
  have hsorted := h.sorted
  rw [hready, List.pairwise_append] at hsorted
  refine Rank.mk y hnode rank rc hrank (Or.inr ⟨c, hcy, (hrank c hcy).functional hrc⟩) ?_
  intro q hq
  rcases List.mem_append.mp (hdeps q hq) with hdone | hlast
  · exact Or.inr (hsorted.2.2 q hdone c List.mem_cons_self _ _ (hrank q hq) hrc)
  · rw [List.mem_singleton] at hlast
    exact Or.inl ((hrank q hq).functional (hlast ▸ hrc))

theorem pairwise_released (hnodup : nodes.Nodup) (done : List α) (c : α) :
    (released nodes deps done c).Pairwise fun a b => nodes.idxOf a ≤ nodes.idxOf b := by
  rw [released, List.pairwise_flatMap]
  constructor
  · intro y _
    unfold copies
    split
    · rw [List.pairwise_replicate]
      exact Or.inr (Nat.le_refl _)
    · exact List.Pairwise.nil
  · refine (idxOf_lt_of_nodup hnodup).imp ?_
    intro a b hab x hx y hy
    rw [(mem_copies.mp hx).1, (mem_copies.mp hy).1]
    exact Nat.le_of_lt hab

theorem Ranked.step {s t : Queue α} (hnodup : nodes.Nodup) (h : Ranked nodes deps s)
    (hstep : Step nodes deps s t) (ht : (t.done ++ t.ready).Nodup) : Ranked nodes deps t := by
  obtain ⟨c, rest, hready, rfl⟩ := hstep
  obtain ⟨rc, hrc⟩ := h.exists_rank (z := c) (by simp [hready])
  have hnew : ∀ y ∈ released nodes deps s.done c, Rank nodes deps y (rc ++ [nodes.idxOf y]) :=
    fun y hy => h.rank_released hready hrc hy
  have hshape : s.done ++ [c] ++ (rest ++ released nodes deps s.done c) =
      (s.done ++ s.ready) ++ released nodes deps s.done c := by
    simp [hready]
  have hsorted := h.sorted
  rw [hready, List.pairwise_append] at hsorted
  constructor
  · intro z hz
    rw [show s.done ++ [c] ++ (rest ++ released nodes deps s.done c) =
      (s.done ++ s.ready) ++ released nodes deps s.done c from hshape] at hz
    rcases List.mem_append.mp hz with hold | hz
    · obtain ⟨r, hr, hparent⟩ := h.parent z hold
      refine ⟨r, hr, ?_⟩
      rcases hparent with rfl | ⟨p, hp, hpr⟩
      · exact Or.inl rfl
      · exact Or.inr ⟨p, List.mem_append_left _ hp, hpr⟩
    · exact ⟨rc, hnew z hz, Or.inr ⟨c, by simp, hrc⟩⟩
  · change (s.done ++ [c] ++ (rest ++ released nodes deps s.done c)).Pairwise _
    rw [hshape, List.pairwise_append]
    refine ⟨h.sorted, ?_, ?_⟩
    · have hdistinct : (released nodes deps s.done c).Nodup := by
        rw [show s.done ++ [c] ++ (rest ++ released nodes deps s.done c) =
          (s.done ++ s.ready) ++ released nodes deps s.done c from hshape] at ht
        exact (List.nodup_append'.mp ht).2.1
      refine List.Pairwise.imp_of_mem ?_ ((pairwise_released hnodup s.done c).and hdistinct)
      intro a b ha hb hab r r' hr hr'
      rw [hr.functional (hnew a ha), hr'.functional (hnew b hb)]
      refine shortlex_concat_of_lt rc (lt_of_le_of_ne hab.1 ?_)
      intro heq
      exact hab.2 ((List.idxOf_inj (mem_released.mp ha).1).mp heq)
    · -- the parent of a waiting node was done before `c`
      intro z hz y hy r r' hr hr'
      obtain ⟨rz, hrz, hparent⟩ := h.parent z hz
      rw [hr.functional hrz, hr'.functional (hnew y hy)]
      refine shortlex_concat ?_ _ _
      rcases hparent with rfl | ⟨p, hp, hpr⟩
      · exact (List.shortlex_nil_or_eq_nil rc).resolve_right hrc.ne_nil
      · exact hsorted.2.2 p hp c List.mem_cons_self rz rc hpr hrc

/-- What is in the queue once, stays once when no node names its last dependency twice. -/
theorem nodup_step {s t : Queue α} (hnodup : nodes.Nodup) (hinv : Inv nodes deps s) (h : Ranked nodes deps s)
    (hs : (s.done ++ s.ready).Nodup) (hlast : NamesLastOnce nodes deps) (hstep : Step nodes deps s t) :
    (t.done ++ t.ready).Nodup := by
  obtain ⟨c, rest, hready, rfl⟩ := hstep
  obtain ⟨rc, hrc⟩ := h.exists_rank (z := c) (by simp [hready])
  have hshape : s.done ++ [c] ++ (rest ++ released nodes deps s.done c) =
      (s.done ++ s.ready) ++ released nodes deps s.done c := by
    simp [hready]
  have hcs : c ∉ s.done := by
    rw [hready] at hs
    exact fun hmem => (List.nodup_append'.mp hs).2.2 hmem List.mem_cons_self
  have hsorted := h.sorted
  rw [hready, List.pairwise_append] at hsorted
  change (s.done ++ [c] ++ (rest ++ released nodes deps s.done c)).Nodup
  rw [hshape]
  refine List.nodup_append'.mpr ⟨hs, ?_, ?_⟩
  · rw [released, List.nodup_flatMap]
    constructor
    · intro y hy
      unfold copies
      split
      · rename_i hdeps
        rw [List.nodup_replicate]
        by_cases hcy : c ∈ deps y
        · have hranks : ∀ q ∈ deps y, ∃ r, Rank nodes deps q r ∧ (r = rc ∨ List.Shortlex (· < ·) r rc) := by
            intro q hq
            rcases List.mem_append.mp (hdeps q hq) with hdone | hc
            · obtain ⟨r, hr⟩ := h.exists_rank (List.mem_append_left s.ready hdone)
              exact ⟨r, hr, Or.inr (hsorted.2.2 q hdone c List.mem_cons_self r rc hr hrc)⟩
            · exact ⟨rc, List.mem_singleton.mp hc ▸ hrc, Or.inl rfl⟩
          exact (hlast y hy c hcy rc hrc hranks).le
        · rw [List.count_eq_zero_of_not_mem hcy]
          exact Nat.zero_le 1
      · exact List.nodup_nil
    · refine (idxOf_lt_of_nodup hnodup).imp ?_
      intro a b hab x hxa hxb
      rw [← (mem_copies.mp hxa).1, ← (mem_copies.mp hxb).1] at hab
      exact absurd hab (lt_irrefl _)
  · intro y hold hnew
    obtain ⟨_, hcy, _⟩ := mem_released.mp hnew
    exact hcs (((hinv.released_iff y).mp hold).2 c hcy)

/-- Every queue of the run has each node at most once and in the order of the ranks. -/
theorem Reached.ranked {s : Queue α} (hnodup : nodes.Nodup) (hlast : NamesLastOnce nodes deps)
    (h : Reached nodes deps s) : (s.done ++ s.ready).Nodup ∧ Ranked nodes deps s := by
  induction h with
  | refl => exact ⟨hnodup.filter _, ranked_start hnodup⟩
  | tail hreached hstep ih =>
    have hnext := nodup_step hnodup (Reached.inv hreached) ih.2 ih.1 hlast hstep
    exact ⟨hnext, ih.2.step hnodup hstep hnext⟩

/-- What was queued stays queued, in its place. -/
theorem Step.grows {s t : Queue α} (h : Step nodes deps s t) : s.done ++ s.ready <+: t.done ++ t.ready := by
  obtain ⟨c, rest, hready, rfl⟩ := h
  exact ⟨released nodes deps s.done c, by simp [hready]⟩

/-- The dependency that was done last is named once by every node that came after it. -/
def LastOnce (nodes : List α) (deps : α → List α) (s : Queue α) : Prop :=
  ∀ y ∈ nodes, deps y ≠ [] → (∀ q ∈ deps y, q ∈ s.done) →
    ∃ c ∈ deps y, (deps y).count c = 1 ∧ ∀ q ∈ deps y, q ≠ c →
      ∀ r r', Rank nodes deps q r → Rank nodes deps c r' → List.Shortlex (· < ·) r r'

theorem LastOnce.step {s t : Queue α} (h : LastOnce nodes deps s) (hranked : Ranked nodes deps s)
    (hstep : Step nodes deps s t) (ht : (t.done ++ t.ready).Nodup) : LastOnce nodes deps t := by
  obtain ⟨c, rest, hready, rfl⟩ := hstep
  intro y hy hne hdeps
  by_cases hold : ∀ q ∈ deps y, q ∈ s.done
  · exact h y hy hne hold
  · have hcy : c ∈ deps y := by
      by_contra hcy
      refine hold fun q hq => ?_
      rcases List.mem_append.mp (hdeps q hq) with hdone | hc
      · exact hdone
      · exact absurd (List.mem_singleton.mp hc ▸ hq) hcy
    have hcopies : (copies deps s.done c y).Nodup := by
      have hreleased := (List.nodup_append'.mp (List.nodup_append'.mp ht).2.1).2.1
      rw [released, List.nodup_flatMap] at hreleased
      exact hreleased.1 y hy
    unfold copies at hcopies
    rw [if_pos hdeps, List.nodup_replicate] at hcopies
    have hpos := List.count_pos_iff.mpr hcy
    have hsorted := hranked.sorted
    rw [hready, List.pairwise_append] at hsorted
    refine ⟨c, hcy, by omega, ?_⟩
    intro q hq hqc r r' hr hr'
    rcases List.mem_append.mp (hdeps q hq) with hdone | hc
    · exact hsorted.2.2 q hdone c List.mem_cons_self r r' hr hr'
    · exact absurd (List.mem_singleton.mp hc) hqc

/-- A run that ends without a repetition had none on the way. -/
theorem Reached.lastOnce {s : Queue α} (hnodup : nodes.Nodup) (h : Reached nodes deps s)
    (hs : (s.done ++ s.ready).Nodup) : Ranked nodes deps s ∧ LastOnce nodes deps s := by
  induction h with
  | refl =>
    refine ⟨ranked_start hnodup, ?_⟩
    intro y _ hne hdeps
    obtain ⟨q, hq⟩ := List.exists_mem_of_ne_nil _ hne
    exact absurd (hdeps q hq) List.not_mem_nil
  | tail _ hstep ih =>
    obtain ⟨hranked, hlast⟩ := ih (hs.sublist (Step.grows hstep).sublist)
    exact ⟨hranked.step hnodup hstep hs, hlast.step hranked hstep hs⟩

/-- Where every node is done, and done once, each node names the dependency of greatest rank once. -/
theorem Reached.namesLastOnce {s : Queue α} (hnodup : nodes.Nodup) (h : Reached nodes deps s)
    (hs : (s.done ++ s.ready).Nodup) (hall : ∀ x ∈ nodes, ∀ q ∈ deps x, q ∈ s.done) : NamesLastOnce nodes deps := by
  obtain ⟨_, hlast⟩ := h.lastOnce hnodup hs
  intro y hy last hmem r hr hranks
  obtain ⟨c, hc, hcount, hgreatest⟩ := hlast y hy (List.ne_nil_of_mem hmem) (hall y hy)
  by_cases heq : last = c
  · rw [heq, hcount]
  · obtain ⟨r', hr', hle⟩ := hranks c hc
    have hlt := hgreatest last hmem heq r r' hr hr'
    rcases hle with rfl | hgt
    · exact absurd hlt (shortlex_asymm hlt)
    · exact absurd hgt (shortlex_asymm hlt)

end Steps

end Kahn

end WorkflowEngine.Lib
