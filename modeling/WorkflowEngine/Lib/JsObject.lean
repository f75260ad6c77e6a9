import WorkflowEngine.Lib.OrderedMap

/-!
# Plain JavaScript objects

An object with the default prototype is the map of its own properties, but it is read
and written through `Object.prototype`: a name that stands there is found although the
object has no such property, and an assignment to `__proto__` makes none.
-/

namespace WorkflowEngine.Lib

set_option autoImplicit false

universe u

/-- The property names of `Object.prototype`. -/
def objectPrototype : List String :=
  ["constructor", "__defineGetter__", "__defineSetter__", "hasOwnProperty", "__lookupGetter__",
    "__lookupSetter__", "isPrototypeOf", "propertyIsEnumerable", "toString", "valueOf", "__proto__",
    "toLocaleString"]

/-- A property read: an own value, or what `Object.prototype` has under the name. -/
inductive PropertyRead (α : Type u) where
  | own (value : α)
  | inherited (name : String)
  deriving DecidableEq

namespace OrderedMap
variable {α : Type u}

/-- `obj[k]`. -/
def read (m : OrderedMap String α) (k : String) : Option (PropertyRead α) :=
  match m.get? k with
  | some v => some (.own v)
  | none => if k ∈ objectPrototype then some (.inherited k) else none

theorem read_set (m : OrderedMap String α) (n : String) (v : α) (k : String) :
    (m.set n v).read k = if k = n then some (.own v) else m.read k := by
  unfold read
  rw [get?_set]
  by_cases hk : k = n
  · rw [if_pos hk, if_pos hk]
  · rw [if_neg hk, if_neg hk]

/-- `k in obj`. -/
def hasProperty (m : OrderedMap String α) (k : String) : Bool := m.has k || k ∈ objectPrototype

/-- `obj[k] = v`. -/
def assign (m : OrderedMap String α) (k : String) (v : α) : OrderedMap String α :=
  if k = "__proto__" then m else m.set k v

/-- An object filled in a loop of assignments. -/
def assignAll (ps : List (String × α)) : OrderedMap String α :=
  ps.foldl (fun m p => m.assign p.1 p.2) .empty

/-- `{ ...m, ...n }`. -/
def spread (m n : OrderedMap String α) : OrderedMap String α := n.entries.foldl (fun out e => out.set e.1 e.2) m

theorem hasProperty_eq_false {m : OrderedMap String α} {k : String} :
    m.hasProperty k = false ↔ k ∉ m.keys ∧ k ∉ objectPrototype := by
  have hhas : m.has k = false ↔ k ∉ m.keys := by
    rw [← get?_eq_none_iff, has, ← Bool.not_eq_true, Option.not_isSome_iff_eq_none]
  rw [hasProperty, Bool.or_eq_false_iff, hhas, decide_eq_false_iff_not]

theorem assignAll_eq (ps : List (String × α)) :
    assignAll ps = (ps.filter fun p => p.1 ≠ "__proto__").foldl (fun m p => m.set p.1 p.2) .empty := by
  unfold assignAll
  rw [List.foldl_filter]
  congr
  funext m p
  unfold assign
  by_cases hp : p.1 = "__proto__"
  · rw [if_pos hp, if_neg]
    simp [hp]
  · rw [if_neg hp, if_pos]
    simp [hp]

theorem mem_of_get?_assignAll {ps : List (String × α)} {k : String} {v : α}
    (h : (assignAll ps).get? k = some v) : (k, v) ∈ ps ∧ k ≠ "__proto__" := by
  rw [assignAll_eq] at h
  rcases mem_of_get?_foldl_set _ _ _ h with ⟨p, hp, rfl, rfl⟩ | hempty
  · have hmem := List.mem_filter.mp hp
    exact ⟨hmem.1, of_decide_eq_true hmem.2⟩
  · cases hempty

theorem mem_keys_assignAll (ps : List (String × α)) (k : String) :
    k ∈ (assignAll ps).keys ↔ k ∈ ps.map Prod.fst ∧ k ≠ "__proto__" := by
  rw [assignAll_eq, mem_keys_foldl_set]
  simp only [List.mem_map, List.mem_filter, decide_eq_true_eq]
  constructor
  · rintro (⟨p, ⟨hp, hne⟩, rfl⟩ | hempty)
    · exact ⟨⟨p, hp, rfl⟩, hne⟩
    · cases hempty
  · rintro ⟨⟨p, hp, rfl⟩, hne⟩
    exact Or.inl ⟨p, ⟨hp, hne⟩, rfl⟩

/-- A key that is assigned one value has it, but for `__proto__`. -/
theorem get?_assignAll {ps : List (String × α)} {k : String}
    (hsame : ∀ v w, (k, v) ∈ ps → (k, w) ∈ ps → v = w) (v : α) :
    (assignAll ps).get? k = some v ↔ (k, v) ∈ ps ∧ k ≠ "__proto__" := by
  constructor
  · exact mem_of_get?_assignAll
  · rintro ⟨hmem, hk⟩
    cases hget : (assignAll ps).get? k with
    | none =>
      rw [get?_eq_none_iff, mem_keys_assignAll] at hget
      exact absurd ⟨List.mem_map_of_mem hmem, hk⟩ hget
    | some w => rw [hsame v w hmem (mem_of_get?_assignAll hget).1]

theorem get?_spread (m n : OrderedMap String α) (k : String) :
    (m.spread n).get? k = (n.get? k).or (m.get? k) := by
  have hfold := get?_foldl_set Prod.fst Prod.snd n.entries n.nodup m k
  cases hn : n.get? k with
  | some v =>
    refine (hfold v).mpr (Or.inl ⟨(k, v), (n.get?_eq_some_iff k v).mp hn, rfl, rfl⟩)
  | none =>
    have hnot : k ∉ n.entries.map Prod.fst := (n.get?_eq_none_iff k).mp hn
    have hnone : ∀ v, ¬∃ e ∈ n.entries, e.1 = k ∧ e.2 = v := by
      rintro v ⟨e, he, rfl, _⟩
      exact hnot (List.mem_map_of_mem he)
    apply Option.ext
    intro v
    rw [spread, hfold v]
    simp [hnone v, hnot]

/-! ## Records of lists -/

/-- The values pushed under `k`; a name under which nothing was pushed has none. -/
def pushedAt {ι : Type*} (key : ι → String) (val : ι → α) (xs : List ι) (k : String) : Option (List α) :=
  if xs.any (key · = k) then some ((xs.filter (key · = k)).map val) else none

theorem pushedAt_append {ι : Type*} (key : ι → String) (val : ι → α) (xs : List ι) (x : ι) (k : String) :
    pushedAt key val (xs ++ [x]) k =
      if k = key x then some ((pushedAt key val xs k).getD [] ++ [val x]) else pushedAt key val xs k := by
  have hnone : ¬xs.any (key · = k) → xs.filter (key · = k) = [] := by
    intro h
    rw [List.filter_eq_nil_iff]
    intro y hy hk
    exact h (List.any_eq_true.mpr ⟨y, hy, hk⟩)
  unfold pushedAt
  by_cases hk : k = key x
  · subst hk
    by_cases hany : xs.any (key · = key x)
    · simp [hany]
    · simp [hany, hnone hany]
  · have hx : ¬key x = k := fun h => hk h.symm
    simp [hk, hx]

end OrderedMap

end WorkflowEngine.Lib
