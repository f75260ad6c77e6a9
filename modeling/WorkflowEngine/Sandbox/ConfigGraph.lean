import Mathlib.Data.Fintype.Card
import Mathlib.Data.List.Flatten
import WorkflowEngine.Sandbox.PluginBoot

/-!
# Plugin configs as object graphs

`assertSerializableConfig` of `plugin-compose.ts` over a heap: a value is a primitive or a reference, so
objects may be shared and may reach themselves. The set of objects met so far is one for the whole value.
-/

namespace WorkflowEngine.Sandbox.ConfigGraph

set_option autoImplicit false

open PluginBoot

/-- A value over a heap of `n` objects. -/
inductive Value (n : Nat) where
  | undefined
  | null
  | boolean (b : Bool)
  | number (numeral : String)
  | string (s : String)
  | forbidden (kind : ForbiddenKind)
  | ref (id : Fin n)
  deriving DecidableEq

inductive HeapObject (n : Nat) where
  | array (items : List (Value n))
  | object (proto : Proto) (fields : List (String × Value n))

/-- Every reference points to an object. -/
abbrev Heap (n : Nat) := Fin n → HeapObject n

variable {n : Nat}

/-- The properties that the walk visits, with the path segment of each. -/
def HeapObject.entries : HeapObject n → List (String × Value n)
  | .array items => items.zipIdx.map fun item => (toString item.2, item.1)
  | .object _ fields => fields

/-- Arrays are recognised before the prototype is looked at. -/
def HeapObject.proto : HeapObject n → Proto
  | .array _ => .plain
  | .object proto _ => proto

/-! ## The walk -/

/-- `none` is lack of fuel; a walk that is through leaves the objects met. -/
abbrev Walk (n : Nat) := Option (Except BootError (List (Fin n)))

/-- `assertArrayElementsSerializable` and `assertObjectEntriesSerializable`. -/
def assertEntriesSerializable (check : List String → List (Fin n) → Value n → Walk n) (path : List String)
    (seen : List (Fin n)) : List (String × Value n) → Walk n
  | [] => some (.ok seen)
  | (key, value) :: rest =>
    match check (path ++ [key]) seen value with
    | some (.ok seen) => assertEntriesSerializable check path seen rest
    | failed => failed

section Walk
variable (heap : Heap n) (pluginName : String)

def assertSerializableConfig : Nat → List String → List (Fin n) → Value n → Walk n
  | _, path, _, .forbidden kind => some (.error (.configSerialization pluginName path kind.typeof))
  | 0, _, _, .ref _ => none
  | fuel + 1, path, seen, .ref id =>
    if id ∈ seen then some (.error (.configSerialization pluginName path "circular-reference"))
    else
      match assertPlainObjectProto pluginName path (heap id).proto with
      | .error e => some (.error e)
      | .ok () =>
        assertEntriesSerializable (assertSerializableConfig fuel) path (seen ++ [id]) (heap id).entries
  | _, _, seen, .undefined => some (.ok seen)
  | _, _, seen, .null => some (.ok seen)
  | _, _, seen, .boolean _ => some (.ok seen)
  | _, _, seen, .number _ => some (.ok seen)
  | _, _, seen, .string _ => some (.ok seen)

/-! ## The unfolding -/

/-- A value and the path on which it stands. -/
structure Place (n : Nat) where
  path : List String
  value : Value n

/-- The value with its properties, theirs and so on to a depth, each object before its properties. -/
def unfold : Nat → List String → Value n → List (Place n)
  | 0, path, value => [⟨path, value⟩]
  | fuel + 1, path, value =>
    ⟨path, value⟩ ::
      match value with
      | .ref id => (heap id).entries.flatMap fun e => unfold fuel (path ++ [e.1]) e.2
      | _ => []

theorem unfold_ref (fuel : Nat) (path : List String) (id : Fin n) :
    unfold heap (fuel + 1) path (.ref id) =
      ⟨path, .ref id⟩ :: (heap id).entries.flatMap fun e => unfold heap fuel (path ++ [e.1]) e.2 := rfl

def Value.ids : Value n → List (Fin n)
  | .ref id => [id]
  | _ => []

/-- The objects on a list of places. -/
def metIn (places : List (Place n)) : List (Fin n) := places.flatMap fun p => p.value.ids

/-- Why a value is refused where the objects of `met` were met before. -/
def offence (met : List (Fin n)) : Value n → Option String
  | .forbidden kind => some kind.typeof
  | .ref id =>
    if id ∈ met then some "circular-reference"
    else
      match (heap id).proto with
      | .plain => none
      | .other constructorName => some (constructorName.getD "non-plain-object")
  | _ => none

/-- The first offence on a list of places is refused. -/
def scan (met : List (Fin n)) : List (Place n) → Except BootError (List (Fin n))
  | [] => .ok met
  | p :: rest =>
    match offence heap met p.value with
    | some kind => .error (.configSerialization pluginName p.path kind)
    | none => scan (met ++ p.value.ids) rest

end Walk

section Scan
variable {heap : Heap n} {pluginName : String}

theorem scan_append (met : List (Fin n)) (ps qs : List (Place n)) :
    scan heap pluginName met (ps ++ qs) =
      match scan heap pluginName met ps with
      | .ok met => scan heap pluginName met qs
      | .error e => .error e := by
  induction ps generalizing met with
  | nil => rfl
  | cons p ps ih =>
    rw [List.cons_append, scan, scan]
    cases offence heap met p.value with
    | some kind => rfl
    | none => exact ih _

/-- What is met is met once. -/
theorem scan_ok {met met' : List (Fin n)} {ps : List (Place n)} (h : scan heap pluginName met ps = .ok met') :
    met' = met ++ metIn ps ∧ (met.Nodup → met'.Nodup) := by
  induction ps generalizing met with
  | nil =>
    cases h
    exact ⟨by simp [metIn], id⟩
  | cons p ps ih =>
    rw [scan] at h
    cases hp : offence heap met p.value with
    | some kind => simp [hp] at h
    | none =>
      rw [hp] at h
      obtain ⟨hmet, hnodup⟩ := ih h
      refine ⟨?_, ?_⟩
      · rw [hmet, List.append_assoc]
        rfl
      · intro hm
        refine hnodup ?_
        cases hv : p.value with
        | ref id =>
          have hfresh : id ∉ met := by
            intro hid
            simp [hv, offence, hid] at hp
          exact List.nodup_append'.mpr ⟨hm, List.nodup_singleton id, by simpa [Value.ids] using hfresh⟩
        | undefined | null | boolean | number | string | forbidden => simpa [Value.ids] using hm

/-- The walk goes through the unfolding; with fuel for every object it ends. -/
theorem assertSerializableConfig_eq_scan (fuel : Nat) (path : List String) (seen : List (Fin n)) (value : Value n)
    (hseen : seen.Nodup) (hfuel : n < fuel + seen.length) :
    assertSerializableConfig heap pluginName fuel path seen value =
      some (scan heap pluginName seen (unfold heap fuel path value)) := by
  induction fuel generalizing path seen value with
  | zero =>
    have hle := hseen.length_le_card
    rw [Fintype.card_fin] at hle
    omega
  | succ fuel ih =>
    cases value with
    | ref id =>
      rw [assertSerializableConfig, unfold, scan, offence]
      by_cases hid : id ∈ seen
      · rw [if_pos hid, if_pos hid]
      · rw [if_neg hid, if_neg hid]
        cases hproto : (heap id).proto with
        | other constructorName => rfl
        | plain =>
          have hseen' : (seen ++ [id]).Nodup :=
            List.nodup_append'.mpr ⟨hseen, List.nodup_singleton id, by simpa using hid⟩
          have hlen : n < fuel + (seen ++ [id]).length := by
            rw [List.length_append, List.length_singleton]
            omega
          change assertEntriesSerializable (assertSerializableConfig heap pluginName fuel) path (seen ++ [id])
            (heap id).entries = some (scan heap pluginName (seen ++ [id])
              ((heap id).entries.flatMap fun e => unfold heap fuel (path ++ [e.1]) e.2))
          generalize (heap id).entries = entries
          generalize seen ++ [id] = met at hseen' hlen
          induction entries generalizing met with
          | nil => rfl
          | cons e entries ihe =>
            obtain ⟨key, v⟩ := e
            rw [assertEntriesSerializable, ih _ _ _ hseen' hlen, List.flatMap_cons, scan_append]
            cases hscan : scan heap pluginName met (unfold heap fuel (path ++ [key]) v) with
            | error e => rfl
            | ok met' =>
              obtain ⟨hmet, hnodup⟩ := scan_ok hscan
              refine ihe met' (hnodup hseen') ?_
              rw [hmet, List.length_append]
              omega
    | undefined | null | boolean | number | string | forbidden =>
      simp [assertSerializableConfig, unfold, scan, offence, Value.ids]

/-! ## The first offence -/

/-- No place is refused after those before it. -/
def Clean (heap : Heap n) (places : List (Place n)) : Prop :=
  ∀ before p after, places = before ++ p :: after → offence heap (metIn before) p.value = none

/-- The first place that is refused, and why. -/
def FirstOffence (heap : Heap n) (places : List (Place n)) (path : List String) (kind : String) : Prop :=
  ∃ before p after, places = before ++ p :: after ∧ Clean heap before ∧ p.path = path ∧
    offence heap (metIn before) p.value = some kind

theorem metIn_append (ps qs : List (Place n)) : metIn (ps ++ qs) = metIn ps ++ metIn qs := List.flatMap_append

theorem metIn_singleton (p : Place n) : metIn [p] = p.value.ids := by simp [metIn]

theorem clean_append_singleton {before : List (Place n)} {p : Place n} (hbefore : Clean heap before)
    (hp : offence heap (metIn before) p.value = none) : Clean heap (before ++ [p]) := by
  intro left q right hsplit
  rcases List.append_eq_append_iff.mp hsplit with ⟨m, hleft, hm⟩ | ⟨m, hright, hm⟩
  · cases m with
    | nil =>
      obtain ⟨rfl, _⟩ := List.cons.inj hm
      rw [hleft, List.append_nil]
      exact hp
    | cons d m => simp at hm
  · cases m with
    | nil =>
      obtain ⟨rfl, _⟩ := List.cons.inj hm
      rw [List.append_nil] at hright
      exact hright ▸ hp
    | cons d m =>
      obtain ⟨rfl, _⟩ := List.cons.inj hm
      exact hbefore left _ m hright

variable (heap pluginName) in
/-- The scan goes on over clean places and stops at the first offence. -/
theorem scan_cases (before places : List (Place n)) (hbefore : Clean heap before) :
    (Clean heap (before ++ places) ∧
        scan heap pluginName (metIn before) places = .ok (metIn (before ++ places))) ∨
      ∃ path kind, FirstOffence heap (before ++ places) path kind ∧
        scan heap pluginName (metIn before) places = .error (.configSerialization pluginName path kind) := by
  induction places generalizing before with
  | nil =>
    rw [List.append_nil]
    exact Or.inl ⟨hbefore, rfl⟩
  | cons p places ih =>
    rw [scan]
    cases hp : offence heap (metIn before) p.value with
    | some kind => exact Or.inr ⟨p.path, kind, ⟨before, p, places, rfl, hbefore, rfl, hp⟩, rfl⟩
    | none =>
      have hrest := ih (before ++ [p]) (clean_append_singleton hbefore hp)
      rw [metIn_append, metIn_singleton, List.append_assoc] at hrest
      exact hrest

theorem FirstOffence.not_clean {places : List (Place n)} {path : List String} {kind : String}
    (h : FirstOffence heap places path kind) : ¬Clean heap places := by
  obtain ⟨before, p, after, hsplit, _, _, hp⟩ := h
  intro hclean
  rw [hclean before p after hsplit] at hp
  cases hp

theorem FirstOffence.unique {places : List (Place n)} {path path' : List String} {kind kind' : String}
    (h : FirstOffence heap places path kind) (h' : FirstOffence heap places path' kind') :
    path = path' ∧ kind = kind' := by
  obtain ⟨before, p, after, hsplit, hclean, rfl, hp⟩ := h
  obtain ⟨before', p', after', hsplit', hclean', rfl, hp'⟩ := h'
  rw [hsplit] at hsplit'
  rcases List.append_eq_append_iff.mp hsplit' with ⟨m, hm, hrest⟩ | ⟨m, hm, hrest⟩
  · cases m with
    | nil =>
      rw [List.append_nil] at hm
      obtain ⟨rfl, _⟩ := List.cons.inj hrest
      rw [hm, hp] at hp'
      exact ⟨rfl, Option.some.inj hp'⟩
    | cons d m =>
      obtain ⟨rfl, _⟩ := List.cons.inj hrest
      rw [hclean' before _ m hm] at hp
      cases hp
  · cases m with
    | nil =>
      rw [List.append_nil] at hm
      obtain ⟨rfl, _⟩ := List.cons.inj hrest
      rw [hm, hp'] at hp
      exact ⟨rfl, (Option.some.inj hp).symm⟩
    | cons d m =>
      obtain ⟨rfl, _⟩ := List.cons.inj hrest
      rw [hclean before' _ m hm] at hp'
      cases hp'

end Scan

/-! ## Cycles, sharing and leaves -/

section Graph
variable (heap : Heap n)

/-- A property of `id` holds `j`. -/
def Child (id j : Fin n) : Prop := ∃ e ∈ (heap id).entries, e.2 = .ref j

def Reaches (value : Value n) (id : Fin n) : Prop := ∃ r, value = .ref r ∧ Relation.ReflTransGen (Child heap) r id

/-- An object of the value reaches itself. -/
def Cyclic (value : Value n) : Prop := ∃ id, Reaches heap value id ∧ Relation.TransGen (Child heap) id id

def Value.Allowed (value : Value n) : Prop := ∀ kind, value ≠ .forbidden kind

/-- All leaves may be sent and all objects are plain. -/
def Serializable (value : Value n) : Prop :=
  value.Allowed ∧ ∀ id, Reaches heap value id → (heap id).proto = .plain ∧ ∀ e ∈ (heap id).entries, e.2.Allowed

/-- Neither a function, symbol or bigint nor an object with another prototype. -/
def Value.Plain (value : Value n) : Prop := value.Allowed ∧ ∀ id, value = .ref id → (heap id).proto = .plain

/-- An object is met again, and all places before are plain. -/
def ComesAgain (places : List (Place n)) : Prop :=
  ∃ before p after, places = before ++ p :: after ∧ (∃ id ∈ metIn before, p.value = .ref id) ∧
    ∀ q ∈ before, q.value.Plain heap

/-- An instance of a class of this name comes before anything else that is not plain, and nothing was met twice. -/
def NamedCircular (places : List (Place n)) : Prop :=
  ∃ before p after, places = before ++ p :: after ∧
    (∃ id, p.value = .ref id ∧ (heap id).proto = .other (some "circular-reference") ∧ (metIn before ++ [id]).Nodup) ∧
    ∀ q ∈ before, q.value.Plain heap

variable {heap} {pluginName : String}

theorem offence_eq_none_iff {met : List (Fin n)} {value : Value n} :
    offence heap met value = none ↔ value.Plain heap ∧ ∀ id, value = .ref id → id ∉ met := by
  unfold offence Value.Plain Value.Allowed
  cases value with
  | ref id =>
    by_cases hid : id ∈ met
    · simp [hid]
    · cases hproto : (heap id).proto with
      | plain => simp [hid, hproto]
      | other constructorName => simp [hid, hproto]
  | forbidden kind => simp
  | undefined | null | boolean | number | string => simp

theorem offence_of_plain {met : List (Fin n)} {value : Value n} {kind : String} (hplain : value.Plain heap)
    (h : offence heap met value = some kind) : kind = "circular-reference" := by
  unfold offence at h
  cases value with
  | ref id =>
    by_cases hid : id ∈ met
    · simpa [hid] using h.symm
    · simp [hid, hplain.2 id rfl] at h
  | forbidden k => exact absurd rfl (hplain.1 k)
  | undefined | null | boolean | number | string => simp at h

/-- Only a repeated object or a class of that name is refused as circular. -/
theorem offence_circular_iff {met : List (Fin n)} {value : Value n} :
    offence heap met value = some "circular-reference" ↔
      ∃ id, value = .ref id ∧ (id ∈ met ∨ (heap id).proto = .other (some "circular-reference")) := by
  unfold offence
  cases value with
  | ref id =>
    by_cases hid : id ∈ met
    · simp [hid]
    · cases hproto : (heap id).proto with
      | plain => simp [hid, hproto]
      | other constructorName => cases constructorName <;> simp [hid, hproto]
  | forbidden kind => cases kind <;> simp [ForbiddenKind.typeof]
  | undefined | null | boolean | number | string => simp

theorem Clean.plain {places : List (Place n)} (h : Clean heap places) : ∀ q ∈ places, q.value.Plain heap := by
  intro q hq
  obtain ⟨before, after, hsplit⟩ := List.append_of_mem hq
  exact (offence_eq_none_iff.mp (h before q after hsplit)).1

theorem clean_nil : Clean heap [] := by
  intro before p after hsplit
  cases before <;> cases hsplit

theorem Clean.nodup {places : List (Place n)} (h : Clean heap places) : (metIn places).Nodup := by
  rcases scan_cases heap "" [] places clean_nil with hok | herror
  · exact (scan_ok hok.2).2 List.nodup_nil
  · obtain ⟨path, kind, hfirst, _⟩ := herror
    exact absurd h hfirst.not_clean

theorem clean_of_plain {places : List (Place n)} (hplain : ∀ q ∈ places, q.value.Plain heap)
    (hnodup : (metIn places).Nodup) : Clean heap places := by
  intro before p after hsplit
  refine offence_eq_none_iff.mpr ⟨hplain p (by simp [hsplit]), ?_⟩
  intro id hid hmem
  rw [hsplit, metIn_append] at hnodup
  refine (List.nodup_append'.mp hnodup).2.2 hmem ?_
  simp [metIn, hid, Value.ids]

theorem FirstOffence.append {places : List (Place n)} {path : List String} {kind : String}
    (h : FirstOffence heap places path kind) (more : List (Place n)) :
    FirstOffence heap (places ++ more) path kind := by
  obtain ⟨before, p, after, rfl, hrest⟩ := h
  exact ⟨before, p, after ++ more, by simp, hrest⟩

/-- What stands first where a value is refused as circular. -/
theorem firstOffence_circular_iff {places : List (Place n)} :
    (∃ path, FirstOffence heap places path "circular-reference") ↔
      ComesAgain heap places ∨ NamedCircular heap places := by
  constructor
  · rintro ⟨path, before, p, after, hsplit, hclean, _, hp⟩
    obtain ⟨id, hid, hmet | hnamed⟩ := offence_circular_iff.mp hp
    · exact Or.inl ⟨before, p, after, hsplit, ⟨id, hmet, hid⟩, hclean.plain⟩
    · by_cases hmet : id ∈ metIn before
      · exact Or.inl ⟨before, p, after, hsplit, ⟨id, hmet, hid⟩, hclean.plain⟩
      · refine Or.inr ⟨before, p, after, hsplit, ⟨id, hid, hnamed, ?_⟩, hclean.plain⟩
        exact List.nodup_append'.mpr ⟨hclean.nodup, List.nodup_singleton id, by simpa using hmet⟩
  · rintro (⟨before, p, after, hsplit, ⟨id, hmet, hid⟩, hplain⟩ |
      ⟨before, p, after, hsplit, ⟨id, hid, hnamed, hnodup⟩, hplain⟩)
    · rcases scan_cases heap "" [] before clean_nil with hok | herror
      · exact ⟨p.path, before, p, after, hsplit, hok.1, rfl, offence_circular_iff.mpr ⟨id, hid, Or.inl hmet⟩⟩
      · -- an object before is repeated already
        obtain ⟨path, kind, hfirst, _⟩ := herror
        have ⟨b, q, a, hb, _, _, hq⟩ := hfirst
        have hq' : q ∈ before := by
          rw [List.nil_append] at hb
          simp [hb]
        have hkind := offence_of_plain (hplain q hq') hq
        subst hkind
        exact ⟨path, hsplit ▸ hfirst.append (p :: after)⟩
    · obtain ⟨hnodup, _, _⟩ := List.nodup_append'.mp hnodup
      exact ⟨p.path, before, p, after, hsplit, clean_of_plain hplain hnodup, rfl,
        offence_circular_iff.mpr ⟨id, hid, Or.inr hnamed⟩⟩

/-! ## What the unfolding reaches -/

theorem head_mem_unfold (fuel : Nat) (path : List String) (value : Value n) :
    ⟨path, value⟩ ∈ unfold heap fuel path value := by
  cases fuel <;> simp [unfold]

/-- Every place holds the value itself or what is reached from it. -/
theorem value_of_mem_unfold {fuel : Nat} {path : List String} {value : Value n} {p : Place n}
    (hp : p ∈ unfold heap fuel path value) :
    p.value = value ∨ ∃ id, Reaches heap value id ∧ ∃ e ∈ (heap id).entries, p.value = e.2 := by
  induction fuel generalizing path value with
  | zero =>
    rw [unfold, List.mem_singleton] at hp
    exact Or.inl (hp ▸ rfl)
  | succ fuel ih =>
    cases value with
    | ref id =>
      rw [unfold_ref, List.mem_cons] at hp
      rcases hp with rfl | hp
      · exact Or.inl rfl
      · right
        obtain ⟨e, he, hp⟩ := List.mem_flatMap.mp hp
        rcases ih hp with heq | ⟨j, ⟨r, hr, hrj⟩, e', he', heq⟩
        · exact ⟨id, ⟨id, rfl, .refl⟩, e, he, heq⟩
        · exact ⟨j, ⟨id, rfl, Relation.ReflTransGen.head ⟨e, he, hr⟩ hrj⟩, e', he', heq⟩
    | undefined | null | boolean | number | string | forbidden =>
      left
      simp only [unfold, List.mem_singleton] at hp
      rw [hp]

/-- A serialisable value unfolds to plain places only. -/
theorem Serializable.plain {fuel : Nat} {path : List String} {value : Value n} (h : Serializable heap value)
    {p : Place n} (hp : p ∈ unfold heap fuel path value) : p.value.Plain heap := by
  obtain ⟨hallowed, hreach⟩ := h
  rcases value_of_mem_unfold hp with heq | ⟨id, hid, e, he, heq⟩
  · rw [heq]
    exact ⟨hallowed, fun id hid => (hreach id ⟨id, hid, .refl⟩).1⟩
  · rw [heq]
    refine ⟨(hreach id hid).2 e he, fun j hj => ?_⟩
    obtain ⟨r, hr, hrid⟩ := hid
    exact (hreach j ⟨r, hr, hrid.tail ⟨e, he, hj⟩⟩).1

/-- The part of an unfolding below one property meets each object once if the whole does. -/
theorem nodup_below {fuel : Nat} {path : List String} {seen : List (Fin n)} {id : Fin n}
    (hnodup : (seen ++ metIn (unfold heap (fuel + 1) path (.ref id))).Nodup)
    {e : String × Value n} (he : e ∈ (heap id).entries) :
    ((seen ++ [id]) ++ metIn (unfold heap fuel (path ++ [e.1]) e.2)).Nodup := by
  have hplaces : (unfold heap fuel (path ++ [e.1]) e.2).Sublist
      ((heap id).entries.flatMap fun e => unfold heap fuel (path ++ [e.1]) e.2) := by
    rw [List.flatMap_def]
    exact List.sublist_flatten_of_mem
      (List.mem_map_of_mem (f := fun e => unfold heap fuel (path ++ [e.1]) e.2) he)
  have hmet := hplaces.flatMap fun p => p.value.ids
  rw [List.append_assoc]
  exact hnodup.sublist ((hmet.cons_cons id).append_left seen)

/-- An unfolding deep enough that meets each object once holds the properties of every object it meets. -/
theorem unfold_closed {fuel : Nat} {path : List String} {seen : List (Fin n)} {value : Value n}
    (hfuel : n < fuel + seen.length) (hnodup : (seen ++ metIn (unfold heap fuel path value)).Nodup)
    {id : Fin n} (hid : id ∈ metIn (unfold heap fuel path value)) {e : String × Value n}
    (he : e ∈ (heap id).entries) : ∃ p ∈ unfold heap fuel path value, p.value = e.2 := by
  induction fuel generalizing path seen value with
  | zero =>
    have hle := (List.nodup_append'.mp hnodup).1.length_le_card
    rw [Fintype.card_fin] at hle
    omega
  | succ fuel ih =>
    cases value with
    | ref r =>
      rw [unfold_ref] at hid ⊢
      rcases List.mem_cons.mp hid with rfl | hbelow
      · exact ⟨⟨path ++ [e.1], e.2⟩,
          List.mem_cons_of_mem _ (List.mem_flatMap.mpr ⟨e, he, head_mem_unfold ..⟩), rfl⟩
      · obtain ⟨q, hq, hidq⟩ := List.mem_flatMap.mp hbelow
        obtain ⟨e', he', hq⟩ := List.mem_flatMap.mp hq
        have hlen : n < fuel + (seen ++ [r]).length := by
          rw [List.length_append, List.length_singleton]
          omega
        obtain ⟨p, hp, hval⟩ := ih hlen (nodup_below hnodup he') (List.mem_flatMap.mpr ⟨q, hq, hidq⟩)
        exact ⟨p, List.mem_cons_of_mem _ (List.mem_flatMap.mpr ⟨e', he', hp⟩), hval⟩
    | undefined | null | boolean | number | string | forbidden =>
      simp [unfold, metIn, Value.ids] at hid

theorem mem_metIn {places : List (Place n)} {id : Fin n} : id ∈ metIn places ↔ ∃ p ∈ places, p.value = .ref id := by
  unfold metIn
  rw [List.mem_flatMap]
  refine exists_congr fun p => and_congr_right fun _ => ?_
  cases p.value <;> simp [Value.ids, eq_comm]

/-- Such an unfolding holds whatever is reached from an object on it. -/
theorem mem_metIn_of_reaches {fuel : Nat} {path : List String} {seen : List (Fin n)} {value : Value n}
    (hfuel : n < fuel + seen.length) (hnodup : (seen ++ metIn (unfold heap fuel path value)).Nodup)
    {id : Fin n} (hid : Reaches heap value id) : id ∈ metIn (unfold heap fuel path value) := by
  obtain ⟨r, rfl, hreach⟩ := hid
  induction hreach with
  | refl => exact mem_metIn.mpr ⟨_, head_mem_unfold .., rfl⟩
  | tail _ hchild ih =>
    obtain ⟨e, he, hval⟩ := hchild
    obtain ⟨p, hp, heq⟩ := unfold_closed hfuel hnodup ih he
    exact mem_metIn.mpr ⟨p, hp, heq.trans hval⟩

/-- Where each object is met once none reaches itself. -/
theorem unfold_acyclic {fuel : Nat} {path : List String} {seen : List (Fin n)} {value : Value n}
    (hfuel : n < fuel + seen.length) (hnodup : (seen ++ metIn (unfold heap fuel path value)).Nodup)
    {id : Fin n} (hid : id ∈ metIn (unfold heap fuel path value)) : ¬Relation.TransGen (Child heap) id id := by
  induction fuel generalizing path seen value with
  | zero =>
    have hle := (List.nodup_append'.mp hnodup).1.length_le_card
    rw [Fintype.card_fin] at hle
    omega
  | succ fuel ih =>
    cases value with
    | ref r =>
      have hlen : n < fuel + (seen ++ [r]).length := by
        rw [List.length_append, List.length_singleton]
        omega
      rw [unfold_ref] at hid
      rcases List.mem_cons.mp hid with rfl | hbelow
      · intro hcycle
        obtain ⟨j, ⟨e, he, hval⟩, hback⟩ := Relation.TransGen.head'_iff.mp hcycle
        have hsub := nodup_below hnodup he
        have hmem := mem_metIn_of_reaches hlen hsub ⟨j, hval, hback⟩
        exact (List.nodup_append'.mp hsub).2.2 (by simp) hmem
      · obtain ⟨q, hq, hidq⟩ := List.mem_flatMap.mp hbelow
        obtain ⟨e, he, hq⟩ := List.mem_flatMap.mp hq
        exact ih hlen (nodup_below hnodup he) (List.mem_flatMap.mpr ⟨q, hq, hidq⟩)
    | undefined | null | boolean | number | string | forbidden =>
      simp [unfold, metIn, Value.ids] at hid

/-! ## What is accepted and what is refused -/

/-- The walk from outside, with fuel for every object. -/
def checkConfig (heap : Heap n) (pluginName : String) (value : Value n) : Walk n :=
  assertSerializableConfig heap pluginName (n + 1) [] [] value

/-- The places that the walk may visit. -/
def placesOf (heap : Heap n) (value : Value n) : List (Place n) := unfold heap (n + 1) [] value

def Accepted (heap : Heap n) (pluginName : String) (value : Value n) : Prop :=
  ∃ met, checkConfig heap pluginName value = some (.ok met)

def RefusedAsCircular (heap : Heap n) (pluginName : String) (value : Value n) : Prop :=
  ∃ path, checkConfig heap pluginName value =
    some (.error (.configSerialization pluginName path "circular-reference"))

variable (heap pluginName) in
theorem checkConfig_cases (value : Value n) :
    (Clean heap (placesOf heap value) ∧ Accepted heap pluginName value) ∨
      ∃ path kind, FirstOffence heap (placesOf heap value) path kind ∧
        checkConfig heap pluginName value = some (.error (.configSerialization pluginName path kind)) := by
  have heq : checkConfig heap pluginName value = some (scan heap pluginName [] (placesOf heap value)) :=
    assertSerializableConfig_eq_scan (n + 1) [] [] value List.nodup_nil (by simp)
  rcases scan_cases heap pluginName [] (placesOf heap value) clean_nil with ⟨hclean, hscan⟩ |
    ⟨path, kind, hfirst, hscan⟩
  · exact Or.inl ⟨hclean, _, heq.trans (congrArg some hscan)⟩
  · exact Or.inr ⟨path, kind, hfirst, heq.trans (congrArg some hscan)⟩

/-- A walk that is through is the same with more fuel. -/
theorem assertSerializableConfig_mono {fuel fuel' : Nat} (hle : fuel ≤ fuel') {path : List String}
    {seen : List (Fin n)} {value : Value n} {r : Except BootError (List (Fin n))}
    (h : assertSerializableConfig heap pluginName fuel path seen value = some r) :
    assertSerializableConfig heap pluginName fuel' path seen value = some r := by
  induction fuel generalizing fuel' path seen value r with
  | zero =>
    cases value with
    | ref id => simp [assertSerializableConfig] at h
    | undefined | null | boolean | number | string | forbidden => cases fuel' <;> exact h
  | succ fuel ih =>
    obtain ⟨fuel', rfl⟩ := Nat.exists_eq_succ_of_ne_zero (by omega : fuel' ≠ 0)
    cases value with
    | ref id =>
      rw [assertSerializableConfig] at h ⊢
      by_cases hid : id ∈ seen
      · rwa [if_pos hid] at h ⊢
      · rw [if_neg hid] at h ⊢
        cases hproto : assertPlainObjectProto pluginName path (heap id).proto with
        | error e => simpa [hproto] using h
        | ok u =>
          rw [hproto] at h
          change assertEntriesSerializable _ path (seen ++ [id]) (heap id).entries = some r at h
          change assertEntriesSerializable _ path (seen ++ [id]) (heap id).entries = some r
          generalize (heap id).entries = entries at h ⊢
          generalize seen ++ [id] = met at h ⊢
          induction entries generalizing met with
          | nil => exact h
          | cons e entries ihe =>
            obtain ⟨key, v⟩ := e
            rw [assertEntriesSerializable] at h ⊢
            cases hv : assertSerializableConfig heap pluginName fuel (path ++ [key]) met v with
            | none => simp [hv] at h
            | some first =>
              rw [ih (Nat.le_of_succ_le_succ hle) hv]
              rw [hv] at h
              cases first with
              | ok met' => exact ihe met' h
              | error e => exact h
    | undefined | null | boolean | number | string | forbidden => exact h

theorem checkConfig_isSome (value : Value n) : (checkConfig heap pluginName value).isSome := by
  rw [checkConfig, assertSerializableConfig_eq_scan (n + 1) [] [] value List.nodup_nil (by simp)]
  rfl

variable (pluginName) in
theorem accepted_iff_clean (value : Value n) :
    Accepted heap pluginName value ↔ Clean heap (placesOf heap value) := by
  rcases checkConfig_cases heap pluginName value with hok | ⟨path, kind, hfirst, herror⟩
  · exact ⟨fun _ => hok.1, fun _ => hok.2⟩
  · refine ⟨fun ⟨met, hmet⟩ => ?_, fun hclean => absurd hclean hfirst.not_clean⟩
    rw [herror] at hmet
    simp at hmet

variable (pluginName) in
theorem refusedAsCircular_iff (value : Value n) :
    RefusedAsCircular heap pluginName value ↔
      ComesAgain heap (placesOf heap value) ∨ NamedCircular heap (placesOf heap value) := by
  rw [← firstOffence_circular_iff]
  rcases checkConfig_cases heap pluginName value with ⟨hclean, met, hok⟩ |
    ⟨path, kind, hfirst, herror⟩
  · constructor
    · rintro ⟨path, herror⟩
      rw [hok] at herror
      simp at herror
    · rintro ⟨path, hfirst⟩
      exact absurd hclean hfirst.not_clean
  · constructor
    · rintro ⟨path', herror'⟩
      rw [herror] at herror'
      have hsame := Option.some.inj herror'
      injection hsame with hsame
      injection hsame with _ _ hkind
      exact ⟨path, hkind ▸ hfirst⟩
    · rintro ⟨path', hfirst'⟩
      obtain ⟨_, hkind⟩ := hfirst.unique hfirst'
      exact ⟨path, hkind ▸ herror⟩

/-- What is accepted may be sent as JSON and reaches no object twice. -/
theorem Accepted.serializable {value : Value n} (h : Accepted heap pluginName value) :
    Serializable heap value ∧ ¬Cyclic heap value := by
  have hclean := (accepted_iff_clean pluginName value).mp h
  have hfuel : n < n + 1 + ([] : List (Fin n)).length := Nat.lt_succ_self n
  have hnodup : ([] ++ metIn (placesOf heap value)).Nodup := hclean.nodup
  refine ⟨⟨(hclean.plain _ (head_mem_unfold ..)).1, fun id hid => ⟨?_, fun e he => ?_⟩⟩, ?_⟩
  · obtain ⟨p, hp, hval⟩ := mem_metIn.mp (mem_metIn_of_reaches hfuel hnodup hid)
    exact (hclean.plain p hp).2 id hval
  · obtain ⟨p, hp, hval⟩ := unfold_closed hfuel hnodup (mem_metIn_of_reaches hfuel hnodup hid) he
    exact hval ▸ (hclean.plain p hp).1
  · rintro ⟨id, hid, hcycle⟩
    exact unfold_acyclic hfuel hnodup (mem_metIn_of_reaches hfuel hnodup hid) hcycle

/-- A serialisable value is refused only for what comes again. -/
theorem Serializable.accepted_or_circular {value : Value n} (h : Serializable heap value) :
    Accepted heap pluginName value ∨ RefusedAsCircular heap pluginName value := by
  rcases checkConfig_cases heap pluginName value with hok | ⟨path, kind, hfirst, herror⟩
  · exact Or.inl hok.2
  · obtain ⟨before, p, after, hsplit, _, _, hp⟩ := hfirst
    have hmem : p ∈ placesOf heap value := by simp [hsplit]
    have hkind := offence_of_plain (h.plain hmem) hp
    exact Or.inr ⟨path, hkind ▸ herror⟩

/-- Cycles alone are refused as circular, and an acyclic value is accepted when it is serialisable, for just
those values in which something plain comes again, or a class bears that name, exactly when there is a cycle. -/
theorem checkConfig_right_iff (heap : Heap n) (pluginName : String) (value : Value n) :
    ((checkConfig heap pluginName value).isSome ∧
      (RefusedAsCircular heap pluginName value ↔ Cyclic heap value) ∧
      (¬Cyclic heap value → (Accepted heap pluginName value ↔ Serializable heap value))) ↔
    (Cyclic heap value ↔ ComesAgain heap (placesOf heap value) ∨ NamedCircular heap (placesOf heap value)) := by
  rw [← refusedAsCircular_iff pluginName]
  constructor
  · rintro ⟨_, hcircular, _⟩
    exact hcircular.symm
  · intro hcircular
    refine ⟨checkConfig_isSome value, hcircular.symm, fun hacyclic => ?_⟩
    refine ⟨fun haccepted => haccepted.serializable.1, fun hserial => ?_⟩
    exact hserial.accepted_or_circular.resolve_right fun hrefused => hacyclic (hcircular.mpr hrefused)

/-- In a serialisable value something comes again when an object is met twice. -/
theorem Serializable.comesAgain_iff {value : Value n} (h : Serializable heap value) :
    (ComesAgain heap (placesOf heap value) ∨ NamedCircular heap (placesOf heap value)) ↔
      ¬(metIn (placesOf heap value)).Nodup := by
  rw [← refusedAsCircular_iff ""]
  constructor
  · rintro ⟨path, herror⟩ hnodup
    obtain ⟨met, hok⟩ := (accepted_iff_clean "" value).mpr
      (clean_of_plain (fun q hq => h.plain hq) hnodup)
    rw [herror] at hok
    simp at hok
  · intro htwice
    refine h.accepted_or_circular.resolve_left fun haccepted => htwice ?_
    exact ((accepted_iff_clean "" value).mp haccepted).nodup

/-- Two references to one empty object. -/
def sharedHeap : Heap 2 := fun id => if id = 0 then .array [.ref 1, .ref 1] else .object .plain []

theorem sharedHeap_child {i j : Fin 2} (h : Child sharedHeap i j) : i < j := by
  obtain ⟨e, he, hval⟩ := h
  unfold sharedHeap at he
  by_cases hi : i = 0
  · have hitems : e.2 = .ref 1 := by
      simp only [hi, if_pos, HeapObject.entries, List.mem_map] at he
      obtain ⟨item, hitem, rfl⟩ := he
      simpa using List.fst_mem_of_mem_zipIdx hitem
    rw [hitems] at hval
    cases hval
    rw [hi]
    exact Fin.zero_lt_one
  · simp [hi, HeapObject.entries] at he

theorem sharedHeap_transGen {i j : Fin 2} (h : Relation.TransGen (Child sharedHeap) i j) : i < j := by
  induction h with
  | single hchild => exact sharedHeap_child hchild
  | tail _ hchild ih => exact lt_trans ih (sharedHeap_child hchild)

/-- What is merely shared is refused as circular. -/
theorem shared_refused :
    checkConfig sharedHeap "p" (.ref 0) = some (.error (.configSerialization "p" ["1"] "circular-reference")) ∧
      Serializable sharedHeap (.ref 0) ∧ ¬Cyclic sharedHeap (.ref 0) := by
  refine ⟨by decide, ⟨by simp [Value.Allowed], fun id _ => ?_⟩, ?_⟩
  · by_cases hid : id = 0 <;>
      simp [sharedHeap, hid, HeapObject.proto, HeapObject.entries, Value.Allowed, List.zipIdx_cons]
  · rintro ⟨id, _, hcycle⟩
    exact lt_irrefl id (sharedHeap_transGen hcycle)

/-! ## Values with identities -/

/-- The value as a tree whose objects carry their identity, to a depth. -/
def readBack (heap : Heap n) : Nat → Value n → ConfigValue
  | _, .undefined => .undefined
  | _, .null => .null
  | _, .boolean b => .boolean b
  | _, .number numeral => .number numeral
  | _, .string s => .string s
  | _, .forbidden kind => .forbidden kind
  | 0, .ref id => .array id []
  | fuel + 1, .ref id =>
    match heap id with
    | .array items => .array id (items.map (readBack heap fuel))
    | .object proto fields => .object id proto (fields.map fun e => (e.1, readBack heap fuel e.2))

/-- The objects met, the last one first. -/
def identities (seen : List (Fin n)) : List Nat := (seen.map Fin.val).reverse

theorem mem_identities {seen : List (Fin n)} {id : Fin n} : (id : Nat) ∈ identities seen ↔ id ∈ seen := by
  simp [identities, Fin.val_inj]

theorem identities_snoc (seen : List (Fin n)) (id : Fin n) :
    identities (seen ++ [id]) = (id : Nat) :: identities seen := by
  simp [identities]

section ReadBack
variable {check : List String → List (Fin n) → Value n → Walk n} {tree : Value n → ConfigValue}

/-- A check of values and one of trees that agree where the first is through. -/
def Agrees (pluginName : String) (check : List String → List (Fin n) → Value n → Walk n)
    (tree : Value n → ConfigValue) : Prop :=
  ∀ path seen value r, check path seen value = some r →
    PluginBoot.assertSerializableConfig pluginName path (identities seen) (tree value) = r.map identities

theorem Agrees.items (h : Agrees pluginName check tree) (path : List String) (items : List (Value n)) (i : Nat)
    (seen : List (Fin n)) {r : Except BootError (List (Fin n))}
    (hr : assertEntriesSerializable check path seen
      ((items.zipIdx i).map fun item => (toString item.2, item.1)) = some r) :
    assertArrayElementsSerializable pluginName path (identities seen) i (items.map tree) = r.map identities := by
  induction items generalizing i seen with
  | nil =>
    cases hr
    rfl
  | cons v items ih =>
    rw [List.zipIdx_cons, List.map_cons, assertEntriesSerializable] at hr
    rw [List.map_cons, assertArrayElementsSerializable]
    cases hv : check (path ++ [toString i]) seen v with
    | none =>
      rw [hv] at hr
      cases hr
    | some first =>
      rw [h _ _ _ _ hv]
      rw [hv] at hr
      cases first with
      | ok seen' => exact ih (i + 1) seen' hr
      | error e =>
        cases hr
        rfl

theorem Agrees.fields (h : Agrees pluginName check tree) (path : List String)
    (fields : List (String × Value n)) (seen : List (Fin n)) {r : Except BootError (List (Fin n))}
    (hr : assertEntriesSerializable check path seen fields = some r) :
    assertObjectEntriesSerializable pluginName path (identities seen) (fields.map fun e => (e.1, tree e.2)) =
      r.map identities := by
  induction fields generalizing seen with
  | nil =>
    cases hr
    rfl
  | cons e fields ih =>
    obtain ⟨key, v⟩ := e
    rw [assertEntriesSerializable] at hr
    rw [List.map_cons, assertObjectEntriesSerializable]
    cases hv : check (path ++ [key]) seen v with
    | none => simp [hv] at hr
    | some first =>
      rw [h _ _ _ _ hv]
      rw [hv] at hr
      cases first with
      | ok seen' => exact ih seen' hr
      | error e =>
        cases hr
        rfl

end ReadBack

/-- On trees with identities the check of the boot says the same. -/
theorem assertSerializableConfig_readBack (fuel : Nat) :
    Agrees pluginName (assertSerializableConfig heap pluginName fuel) (readBack heap fuel) := by
  induction fuel with
  | zero =>
    intro path seen value r hr
    cases value with
    | ref id => simp [assertSerializableConfig] at hr
    | undefined | null | boolean | number | string | forbidden =>
      cases hr
      rfl
  | succ fuel ih =>
    intro path seen value r hr
    cases value with
    | ref id =>
      rw [assertSerializableConfig] at hr
      rw [readBack]
      by_cases hid : id ∈ seen
      · rw [if_pos hid] at hr
        cases hr
        cases heap id <;> simp [PluginBoot.assertSerializableConfig, mem_identities.mpr hid, Except.map]
      · rw [if_neg hid] at hr
        cases hobj : heap id with
        | array items =>
          simp only [hobj, HeapObject.proto, assertPlainObjectProto] at hr
          rw [PluginBoot.assertSerializableConfig, if_neg (mt mem_identities.mp hid), ← identities_snoc]
          exact ih.items path items 0 (seen ++ [id]) hr
        | object proto fields =>
          simp only [hobj, HeapObject.proto] at hr
          rw [PluginBoot.assertSerializableConfig, if_neg (mt mem_identities.mp hid), ← identities_snoc]
          cases proto with
          | plain => exact ih.fields path fields (seen ++ [id]) hr
          | other constructorName =>
            cases hr
            rfl
    | undefined | null | boolean | number | string | forbidden =>
      cases hr
      rfl

end Graph

end WorkflowEngine.Sandbox.ConfigGraph
