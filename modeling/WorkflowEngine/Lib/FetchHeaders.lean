import WorkflowEngine.Lib.Fallible
import WorkflowEngine.Lib.OrderedMap
import Mathlib.Data.List.DropRight

/-!
# Header lists

The `Headers` of the Fetch standard over lower-case names: a list of fields, written by
`append` and `set`, which refuse what is no header, and read with the values of a name
joined. Only the values of `set-cookie` are never joined.
-/

namespace WorkflowEngine.Lib

set_option autoImplicit false

def isTokenChar (c : Char) : Bool := c.isAlphanum || "!#$%&'*+-.^_`|~".toList.contains c

def isToken (name : String) : Bool := name.toList ≠ [] && name.toList.all isTokenChar

def isHttpSpace (c : Char) : Bool := c == ' ' || c == '\t' || c == '\n' || c == '\r'

/-- Outer whitespace is no part of a value. -/
def normalizeChars (cs : List Char) : List Char := (cs.dropWhile isHttpSpace).rdropWhile isHttpSpace

def normalizeValue (value : String) : String := String.ofList (normalizeChars value.toList)

/-- A character of a byte string that a header may have. -/
def isHeaderChar (c : Char) : Bool := c.toNat ≤ 255 && c != '\x00' && c != '\n' && c != '\r'

def isHeaderValue (value : String) : Bool := value.toList.all isHeaderChar

/-- The values of one name, as a reader gets them. -/
def joinValues (values : List String) : String :=
  String.ofList ([',', ' '].intercalate (values.map String.toList))

abbrev HeaderList := List (String × String)

namespace HeaderList

/-- What every write checks first. -/
def checked (name value : String) : Except String String :=
  if isToken name = false then .error ("Invalid header name: " ++ name)
  else if isHeaderValue (normalizeValue value) = false then .error ("Invalid header value: " ++ value)
  else .ok (normalizeValue value)

def append (h : HeaderList) (name value : String) : Except String HeaderList := do
  let value ← checked name value
  return h ++ [(name, value)]

/-- In the place of the first field of the name, or at the end. -/
def put (h : HeaderList) (name value : String) : HeaderList :=
  match h with
  | [] => [(name, value)]
  | e :: h =>
    if e.1 = name then (name, value) :: h.filter fun e => e.1 ≠ name else e :: put h name value

def set (h : HeaderList) (name value : String) : Except String HeaderList := do
  let value ← checked name value
  return h.put name value

/-- A `Headers` filled with fields, in their order. -/
def appendAll (h : HeaderList) (fields : List (String × String)) : Except String HeaderList :=
  fields.foldlM (fun h e => h.append e.1 e.2) h

def names (h : HeaderList) : List String := h.map Prod.fst

def has (h : HeaderList) (name : String) : Bool := name ∈ h.names

def valuesOf (h : HeaderList) (name : String) : List String :=
  (h.filter fun e => e.1 = name).map Prod.snd

def get (h : HeaderList) (name : String) : Option String :=
  if h.valuesOf name = [] then none else some (joinValues (h.valuesOf name))

def getSetCookie (h : HeaderList) : List String := h.valuesOf "set-cookie"

def combinedValues (h : HeaderList) (name : String) : List String :=
  if name = "set-cookie" then h.valuesOf name else [joinValues (h.valuesOf name)]

/-- What `forEach` visits. -/
def sortAndCombine (h : HeaderList) : HeaderList :=
  (h.names.dedup.mergeSort fun a b => a ≤ b).flatMap fun name => (h.combinedValues name).map (Prod.mk name)

/-! ## Reading -/

@[simp] theorem names_append (h h' : HeaderList) : names (h ++ h') = h.names ++ h'.names := List.map_append

theorem mem_valuesOf {h : HeaderList} {name value : String} : value ∈ h.valuesOf name ↔ (name, value) ∈ h := by
  simp [valuesOf]

@[simp] theorem valuesOf_append (h h' : HeaderList) (name : String) :
    valuesOf (h ++ h') name = h.valuesOf name ++ h'.valuesOf name := by
  simp [valuesOf]

theorem valuesOf_singleton (name value name' : String) :
    valuesOf [(name, value)] name' = if name = name' then [value] else [] := by
  by_cases hn : name = name' <;> simp [valuesOf, hn]

theorem valuesOf_eq_nil {h : HeaderList} {name : String} : h.valuesOf name = [] ↔ name ∉ h.names := by
  rw [List.eq_nil_iff_forall_not_mem]
  simp [mem_valuesOf, names]

theorem mem_names_of_valuesOf {h : HeaderList} {name : String} (hvalues : h.valuesOf name ≠ []) : name ∈ h.names := by
  by_contra hnot
  exact hvalues (valuesOf_eq_nil.mpr hnot)

theorem mem_sortAndCombine {h : HeaderList} {name value : String} :
    (name, value) ∈ h.sortAndCombine ↔ name ∈ h.names ∧ value ∈ h.combinedValues name := by
  simp [sortAndCombine, List.mem_flatMap]

theorem mem_map_fst_sortAndCombine {h : HeaderList} {name : String} :
    name ∈ h.sortAndCombine.map Prod.fst ↔ name ∈ h.names := by
  rw [List.mem_map]
  constructor
  · rintro ⟨⟨_, value⟩, he, rfl⟩
    exact (mem_sortAndCombine.mp he).1
  · intro hname
    obtain ⟨e, he, rfl⟩ := List.mem_map.mp hname
    have hvalues : h.combinedValues e.1 ≠ [] := by
      unfold combinedValues
      split_ifs
      · exact List.ne_nil_of_mem (mem_valuesOf.mpr he)
      · simp
    obtain ⟨value, hvalue⟩ := List.exists_mem_of_ne_nil _ hvalues
    exact ⟨(e.1, value), mem_sortAndCombine.mpr ⟨hname, hvalue⟩, rfl⟩

theorem valuesOf_map_mk (name : String) (values : List String) (name' : String) :
    valuesOf (values.map (Prod.mk name)) name' = if name = name' then values else [] := by
  induction values with
  | nil => simp [valuesOf]
  | cons value values ih =>
    rw [List.map_cons, ← List.singleton_append, valuesOf_append, valuesOf_singleton, ih]
    by_cases hn : name = name'
    · simp [hn]
    · simp [hn]

/-- Fields written out by name: a name has the values of its own block. -/
theorem valuesOf_flatMap {ι : Type*} (key : ι → String) (values : ι → List String) {xs : List ι}
    (hnodup : (xs.map key).Nodup) {x : ι} (hx : x ∈ xs) :
    valuesOf (xs.flatMap fun x => (values x).map (Prod.mk (key x))) (key x) = values x := by
  induction xs with
  | nil => cases hx
  | cons y ys ih =>
    obtain ⟨hy, hnodup⟩ := List.nodup_cons.mp hnodup
    rw [List.flatMap_cons, valuesOf_append, valuesOf_map_mk]
    rcases List.mem_cons.mp hx with rfl | hx
    · have hrest : valuesOf (ys.flatMap fun x => (values x).map (Prod.mk (key x))) (key x) = [] := by
        rw [valuesOf_eq_nil]
        intro hname
        obtain ⟨e, he, hname⟩ := List.mem_map.mp hname
        obtain ⟨z, hz, he⟩ := List.mem_flatMap.mp he
        obtain ⟨value, _, rfl⟩ := List.mem_map.mp he
        exact hy (hname ▸ List.mem_map_of_mem hz)
      rw [if_pos rfl, hrest, List.append_nil]
    · have hne : key y ≠ key x := by
        intro heq
        exact hy (heq ▸ List.mem_map_of_mem hx)
      rw [if_neg hne, ih hnodup hx]
      rfl

theorem valuesOf_sortAndCombine {h : HeaderList} {name : String} (hname : name ∈ h.names) :
    h.sortAndCombine.valuesOf name = h.combinedValues name := by
  have hnodup : ((h.names.dedup.mergeSort fun a b => a ≤ b).map id).Nodup := by
    rw [List.map_id, (List.mergeSort_perm _ _).nodup_iff]
    exact List.nodup_dedup _
  have hmem : name ∈ h.names.dedup.mergeSort fun a b => a ≤ b := by
    rw [List.mem_mergeSort, List.mem_dedup]
    exact hname
  exact valuesOf_flatMap id h.combinedValues hnodup hmem

/-- A record of fields, read as a list of them. -/
theorem valuesOf_entries (m : OrderedMap String String) (name : String) :
    valuesOf m.entries name = (m.get? name).toList := by
  cases hget : m.get? name with
  | none => exact valuesOf_eq_nil.mpr ((m.get?_eq_none_iff name).mp hget)
  | some value =>
    have hmem := (m.get?_eq_some_iff name value).mp hget
    have hfields : m.entries = m.entries.flatMap fun e => [e.2].map (Prod.mk e.1) := by simp
    rw [hfields]
    exact valuesOf_flatMap Prod.fst (fun e => [e.2]) m.nodup hmem

/-! ## Writing -/

/-- A field that no write refuses. -/
def IsField (e : String × String) : Prop := isToken e.1 = true ∧ isHeaderValue (normalizeValue e.2) = true

/-- Fields as a write leaves them. -/
def normalizeFields (fields : List (String × String)) : HeaderList :=
  fields.map fun e => (e.1, normalizeValue e.2)

theorem names_normalizeFields (fields : List (String × String)) :
    names (normalizeFields fields) = names fields := by
  simp [normalizeFields, names, Function.comp_def]

theorem normalizeFields_eq_self {fields : List (String × String)} (h : ∀ e ∈ fields, normalizeValue e.2 = e.2) :
    normalizeFields fields = fields := by
  unfold normalizeFields
  have hid : ∀ e ∈ fields, (e.1, normalizeValue e.2) = id e := by
    intro e he
    rw [h e he]
    rfl
  rw [List.map_congr_left hid, List.map_id]

theorem field_normalizeFields {fields : List (String × String)} (h : ∀ e ∈ fields, IsField e) :
    ∀ e ∈ normalizeFields fields, isToken e.1 = true ∧ isHeaderValue e.2 = true := by
  intro e he
  obtain ⟨e', he', rfl⟩ := List.mem_map.mp he
  exact h e' he'

theorem valuesOf_normalizeFields (fields : List (String × String)) (name : String) :
    valuesOf (normalizeFields fields) name = (valuesOf fields name).map normalizeValue := by
  simp [normalizeFields, valuesOf, List.filter_map, Function.comp_def]

theorem checked_eq_ok {name value value' : String} :
    checked name value = .ok value' ↔ IsField (name, value) ∧ value' = normalizeValue value := by
  unfold checked IsField
  cases isToken name <;> cases isHeaderValue (normalizeValue value) <;> simp [eq_comm]

theorem put_of_not_mem {h : HeaderList} {name : String} (value : String) (hn : name ∉ h.names) :
    h.put name value = h ++ [(name, value)] := by
  induction h with
  | nil => rfl
  | cons e h ih =>
    obtain ⟨hne, hn⟩ : name ≠ e.1 ∧ name ∉ names h := by simpa [names] using hn
    rw [put, if_neg (Ne.symm hne), ih hn]
    rfl

theorem append_eq_ok {h h' : HeaderList} {name value : String} :
    h.append name value = .ok h' ↔ IsField (name, value) ∧ h' = h ++ [(name, normalizeValue value)] := by
  constructor
  · intro happend
    obtain ⟨value', hchecked, hh'⟩ := bind_eq_ok happend
    obtain ⟨hvalid, rfl⟩ := checked_eq_ok.mp hchecked
    cases hh'
    exact ⟨hvalid, rfl⟩
  · rintro ⟨hvalid, rfl⟩
    have hchecked := checked_eq_ok.mpr ⟨hvalid, rfl⟩
    unfold append
    rw [hchecked]
    rfl

theorem set_of_not_mem {h : HeaderList} {name : String} (value : String) (hn : name ∉ h.names) :
    h.set name value = h.append name value := by
  unfold set append
  cases checked name value with
  | error e => rfl
  | ok value' =>
    have hput := put_of_not_mem value' hn
    change Except.ok (h.put name value') = .ok (h ++ [(name, value')])
    rw [hput]

theorem appendAll_eq_ok {fields : List (String × String)} {h h' : HeaderList} :
    h.appendAll fields = .ok h' ↔
      (∀ e ∈ fields, IsField e) ∧ h' = h ++ normalizeFields fields := by
  induction fields generalizing h with
  | nil => simp [appendAll, normalizeFields, pure, Except.pure, eq_comm]
  | cons e fields ih =>
    unfold appendAll normalizeFields at *
    rw [List.foldlM_cons]
    constructor
    · intro hall
      obtain ⟨h₁, happend, hrest⟩ := bind_eq_ok hall
      obtain ⟨hfield, rfl⟩ := append_eq_ok.mp happend
      obtain ⟨hfields, rfl⟩ := ih.mp hrest
      refine ⟨List.forall_mem_cons.mpr ⟨hfield, hfields⟩, ?_⟩
      simp
    · rintro ⟨hfields, rfl⟩
      obtain ⟨hfield, hfields⟩ := List.forall_mem_cons.mp hfields
      rw [append_eq_ok.mpr ⟨hfield, rfl⟩]
      refine ih.mpr ⟨hfields, ?_⟩
      simp

theorem appendAll_append (h : HeaderList) (fields fields' : List (String × String)) :
    h.appendAll (fields ++ fields') = h.appendAll fields >>= fun h => h.appendAll fields' := by
  unfold appendAll
  rw [List.foldlM_append]

end HeaderList

/-! ## Values -/

theorem mem_of_mem_normalizeChars {c : Char} {cs : List Char} (h : c ∈ normalizeChars cs) : c ∈ cs :=
  (List.dropWhile_sublist _).subset ((List.rdropWhile_prefix _ _).subset h)

theorem normalizeChars_idem (cs : List Char) : normalizeChars (normalizeChars cs) = normalizeChars cs := by
  unfold normalizeChars
  have hfront : ((cs.dropWhile isHttpSpace).rdropWhile isHttpSpace).dropWhile isHttpSpace =
      (cs.dropWhile isHttpSpace).rdropWhile isHttpSpace := by
    -- the first character is still that of the text without its leading whitespace
    rw [List.dropWhile_eq_self_iff]
    intro hlength
    have hpre := List.rdropWhile_prefix isHttpSpace (cs.dropWhile isHttpSpace)
    have hlength' : 0 < (cs.dropWhile isHttpSpace).length := lt_of_lt_of_le hlength hpre.length_le
    rw [hpre.getElem hlength]
    exact List.dropWhile_eq_self_iff.mp (List.dropWhile_idempotent isHttpSpace cs) hlength'
  rw [hfront, List.rdropWhile_idempotent]

theorem normalizeValue_idem (value : String) : normalizeValue (normalizeValue value) = normalizeValue value := by
  unfold normalizeValue
  rw [String.toList_ofList, normalizeChars_idem]

theorem mem_intercalate {sep : List Char} {css : List (List Char)} {c : Char} (h : c ∈ sep.intercalate css) :
    c ∈ sep ∨ ∃ cs ∈ css, c ∈ cs := by
  induction css with
  | nil => simp at h
  | cons cs css ih =>
    cases css with
    | nil =>
      rw [List.intercalate_singleton] at h
      exact Or.inr ⟨cs, List.mem_singleton.mpr rfl, h⟩
    | cons cs' css =>
      rw [List.intercalate_cons_cons, List.mem_append, List.mem_append] at h
      rcases h with (h | h) | h
      · exact Or.inr ⟨cs, List.mem_cons_self, h⟩
      · exact Or.inl h
      · rcases ih h with hsep | ⟨ds, hds, hc⟩
        · exact Or.inl hsep
        · exact Or.inr ⟨ds, List.mem_cons_of_mem cs hds, hc⟩

theorem isHeaderValue_normalizeValue {value : String} (h : isHeaderValue value = true) :
    isHeaderValue (normalizeValue value) = true := by
  unfold isHeaderValue normalizeValue at *
  rw [String.toList_ofList, List.all_eq_true]
  intro c hc
  exact List.all_eq_true.mp h c (mem_of_mem_normalizeChars hc)

theorem isHeaderValue_joinValues {values : List String} (h : ∀ value ∈ values, isHeaderValue value = true) :
    isHeaderValue (joinValues values) = true := by
  unfold isHeaderValue joinValues
  rw [String.toList_ofList, List.all_eq_true]
  intro c hc
  rcases mem_intercalate hc with hsep | ⟨cs, hcs, hc⟩
  · rcases List.mem_pair.mp hsep with rfl | rfl <;> rfl
  · obtain ⟨value, hvalue, rfl⟩ := List.mem_map.mp hcs
    exact List.all_eq_true.mp (h value hvalue) c hc

/-- What is read from a list whose fields were accepted is accepted again. -/
theorem isField_sortAndCombine {h : HeaderList} (hh : ∀ e ∈ h, isToken e.1 = true ∧ isHeaderValue e.2 = true)
    {e : String × String} (he : e ∈ h.sortAndCombine) : HeaderList.IsField e := by
  obtain ⟨name, value⟩ := e
  obtain ⟨hname, hvalue⟩ := HeaderList.mem_sortAndCombine.mp he
  obtain ⟨e', he', heq⟩ := List.mem_map.mp hname
  have htoken : isToken name = true := heq ▸ (hh e' he').1
  have hvalues : ∀ value ∈ h.valuesOf name, isHeaderValue value = true := by
    intro value hmem
    exact (hh _ (HeaderList.mem_valuesOf.mp hmem)).2
  refine ⟨htoken, isHeaderValue_normalizeValue ?_⟩
  unfold HeaderList.combinedValues at hvalue
  split at hvalue
  · exact hvalues value hvalue
  · rw [List.mem_singleton.mp hvalue]
    exact isHeaderValue_joinValues hvalues

@[simp] theorem joinValues_singleton (value : String) : joinValues [value] = value := by
  simp [joinValues]

end WorkflowEngine.Lib
