import WorkflowEngine.Sandbox.SqlDispatcher

/-!
# The rows of a query

What the coercion of a row promises, and the rows that get it. A query has taken
effect when its rows are coerced, so a value that cannot be coerced reports a
query as failed that was not.
-/

namespace WorkflowEngine.Sandbox.SqlDispatcher

open Lib
set_option autoImplicit false

/-! ## Images -/

mutual

/-- The JSON value that stands for a value of the driver. An invalid date may have any. -/
def Image : DriverValue → JsonValue → Prop
  | .null, w => w = .null
  | .undefined, w => w = .null
  | .string s, w => w = .string s
  | .boolean b, w => w = .bool b
  | .number n, w => w = .number n
  | .notFinite text, w => w = .string text
  | .bigint n, w => w = .string (toString n)
  | .date (some iso), w => w = .string iso
  | .date none, _ => True
  | .bytes base64, w => w = .string base64
  | .array items, w => ∃ ws, w = .array ws ∧ ImageItems items ws
  | .object fields, w => ∃ out, w = .object out ∧ ImageRow fields out
  | .other text, w => w = .string text

/-- Item by item, so the lengths agree. -/
def ImageItems : List DriverValue → List JsonValue → Prop
  | [], ws => ws = []
  | v :: vs, ws => ∃ w ws', ws = w :: ws' ∧ Image v w ∧ ImageItems vs ws'

/-- Key by key, so the own keys agree. -/
def ImageRow : List (String × DriverValue) → List (String × JsonValue) → Prop
  | [], out => out = []
  | (k, v) :: fields, out => ∃ w out', out = (k, w) :: out' ∧ Image v w ∧ ImageRow fields out'

end

mutual

/-- No invalid date and no own key `__proto__` at any depth. -/
def Coercible : DriverValue → Prop
  | .date iso => iso.isSome = true
  | .array items => CoercibleItems items
  | .object fields => CoercibleRow fields
  | _ => True

def CoercibleItems : List DriverValue → Prop
  | [] => True
  | v :: vs => Coercible v ∧ CoercibleItems vs

def CoercibleRow : List (String × DriverValue) → Prop
  | [] => True
  | (k, v) :: fields => k ≠ "__proto__" ∧ Coercible v ∧ CoercibleRow fields

end

/-! ## Lengths and keys -/

theorem ImageRow.keys : ∀ {fields : List (String × DriverValue)} {out : List (String × JsonValue)},
    ImageRow fields out → out.map Prod.fst = fields.map Prod.fst
  | [], out, h => by
    rw [show out = [] from h]
    rfl
  | (k, v) :: fields, out, h => by
    obtain ⟨w, out', rfl, _, hrest⟩ := h
    rw [List.map_cons, List.map_cons, hrest.keys]

theorem length_coerceRow : ∀ {fields : List (String × DriverValue)} {out : List (String × JsonValue)},
    coerceRow fields = .ok out → out.length ≤ fields.length
  | [], out, h => by
    cases h
    exact Nat.le_refl 0
  | (k, v) :: fields, out, h => by
    obtain ⟨w, _, h⟩ := bind_eq_ok h
    obtain ⟨out', hrest, h⟩ := bind_eq_ok h
    have hle := length_coerceRow hrest
    cases h
    split
    · exact Nat.le_succ_of_le hle
    · exact Nat.succ_le_succ hle

/-- A key is dropped for good: the columns that follow cannot make up for it. -/
theorem not_imageRow_of_length {fields : List (String × DriverValue)} {out : List (String × JsonValue)}
    (hlt : out.length < fields.length) : ¬ImageRow fields out := by
  intro h
  have hlength := congrArg List.length h.keys
  rw [List.length_map, List.length_map] at hlength
  omega

/-! ## The coercion gives the image -/

mutual

theorem coerceValue_of_coercible : ∀ v : DriverValue, Coercible v → ∃ w, coerceValue v = .ok w ∧ Image v w
  | .null, _ | .undefined, _ => ⟨.null, rfl, rfl⟩
  | .string s, _ | .notFinite s, _ | .bytes s, _ | .other s, _ => ⟨.string s, rfl, rfl⟩
  | .boolean b, _ => ⟨.bool b, rfl, rfl⟩
  | .number n, _ => ⟨.number n, rfl, rfl⟩
  | .bigint n, _ => ⟨.string (toString n), rfl, rfl⟩
  | .date (some iso), _ => ⟨.string iso, rfl, rfl⟩
  | .date none, h => nomatch h
  | .array items, h => by
    obtain ⟨ws, hws, himage⟩ := coerceItems_of_coercible items h
    exact ⟨.array ws, by rw [coerceValue, hws]; rfl, ws, rfl, himage⟩
  | .object fields, h => by
    obtain ⟨out, hout, himage⟩ := coerceRow_of_coercible fields h
    exact ⟨.object out, by rw [coerceValue, hout]; rfl, out, rfl, himage⟩

theorem coerceItems_of_coercible : ∀ vs : List DriverValue, CoercibleItems vs →
    ∃ ws, coerceItems vs = .ok ws ∧ ImageItems vs ws
  | [], _ => ⟨[], rfl, rfl⟩
  | v :: vs, h => by
    obtain ⟨w, hw, himage⟩ := coerceValue_of_coercible v h.1
    obtain ⟨ws, hws, himages⟩ := coerceItems_of_coercible vs h.2
    exact ⟨w :: ws, by rw [coerceItems, hw, hws]; rfl, w, ws, rfl, himage, himages⟩

theorem coerceRow_of_coercible : ∀ fields : List (String × DriverValue), CoercibleRow fields →
    ∃ out, coerceRow fields = .ok out ∧ ImageRow fields out
  | [], _ => ⟨[], rfl, rfl⟩
  | (k, v) :: fields, h => by
    obtain ⟨w, hw, himage⟩ := coerceValue_of_coercible v h.2.1
    obtain ⟨out, hout, himages⟩ := coerceRow_of_coercible fields h.2.2
    refine ⟨(k, w) :: out, ?_, w, out, rfl, himage, himages⟩
    rw [coerceRow, hw, hout]
    change Except.ok (if k = "__proto__" then out else (k, w) :: out) = _
    rw [if_neg h.1]

end

mutual

theorem coercible_of_coerceValue : ∀ {v : DriverValue} {w : JsonValue}, coerceValue v = .ok w → Image v w →
    Coercible v
  | .null, _, _, _ | .undefined, _, _, _ | .string _, _, _, _ | .notFinite _, _, _, _ | .bytes _, _, _, _
  | .other _, _, _, _ | .boolean _, _, _, _ | .number _, _, _, _ | .bigint _, _, _, _ => trivial
  | .date (some _), _, _, _ => rfl
  | .date none, _, h, _ => nomatch h
  | .array items, w, h, himage => by
    obtain ⟨ws, hws, heq⟩ := bind_eq_ok h
    cases heq
    obtain ⟨ws', heq', hitems⟩ := himage
    cases heq'
    have hcoercible : CoercibleItems items := coercible_of_coerceItems hws hitems
    exact hcoercible
  | .object fields, w, h, himage => by
    obtain ⟨out, hout, heq⟩ := bind_eq_ok h
    cases heq
    obtain ⟨out', heq', hfields⟩ := himage
    cases heq'
    have hcoercible : CoercibleRow fields := coercible_of_coerceRow hout hfields
    exact hcoercible

theorem coercible_of_coerceItems : ∀ {vs : List DriverValue} {ws : List JsonValue}, coerceItems vs = .ok ws →
    ImageItems vs ws → CoercibleItems vs
  | [], _, _, _ => trivial
  | v :: vs, _, h, himage => by
    obtain ⟨w, hw, h⟩ := bind_eq_ok h
    obtain ⟨ws, hws, heq⟩ := bind_eq_ok h
    cases heq
    obtain ⟨w', ws', heq', hv, hvs⟩ := himage
    cases heq'
    exact ⟨coercible_of_coerceValue hw hv, coercible_of_coerceItems hws hvs⟩

theorem coercible_of_coerceRow : ∀ {fields : List (String × DriverValue)} {out : List (String × JsonValue)},
    coerceRow fields = .ok out → ImageRow fields out → CoercibleRow fields
  | [], _, _, _ => trivial
  | (k, v) :: fields, out, h, himage => by
    obtain ⟨w, hw, h⟩ := bind_eq_ok h
    obtain ⟨out', hout, heq⟩ := bind_eq_ok h
    by_cases hk : k = "__proto__"
    · change Except.ok (if k = "__proto__" then out' else (k, w) :: out') = _ at heq
      rw [if_pos hk] at heq
      cases heq
      exact absurd himage (not_imageRow_of_length (Nat.lt_succ_of_le (length_coerceRow hout)))
    · change Except.ok (if k = "__proto__" then out' else (k, w) :: out') = _ at heq
      rw [if_neg hk] at heq
      cases heq
      obtain ⟨w', out'', heq', hv, hfields⟩ := himage
      cases heq'
      exact ⟨hk, coercible_of_coerceValue hw hv, coercible_of_coerceRow hout hfields⟩

end

/-! ## Rows and queries -/

theorem coerceRow_image_iff (row : List (String × DriverValue)) :
    (∃ out, coerceRow row = .ok out ∧ ImageRow row out) ↔ CoercibleRow row :=
  ⟨fun ⟨_, hout, himage⟩ => coercible_of_coerceRow hout himage, coerceRow_of_coercible row⟩

/-- The rows are coerced each to its image, and the query that returned them succeeds with these images, exactly
when no row has an invalid date or a key `__proto__` in it. -/
theorem coerceResult_image_iff (rows : List (List (String × DriverValue)))
    (columns : Option (List (String × Numeral))) (count : Option Numeral) :
    ((∀ row ∈ rows, ∃ out, coerceRow row = .ok out ∧ ImageRow row out) ∧
      ∃ result, coerceResult (.result (some rows) columns count) = .ok result ∧
        List.Forall₂ ImageRow rows result.rows) ↔
    ∀ row ∈ rows, CoercibleRow row := by
  constructor
  · rintro ⟨hrows, _⟩ row hrow
    exact (coerceRow_image_iff row).mp (hrows row hrow)
  · intro h
    have hrows : ∀ row ∈ rows, ∃ out, coerceRow row = .ok out ∧ ImageRow row out :=
      fun row hrow => (coerceRow_image_iff row).mpr (h row hrow)
    refine ⟨hrows, ?_⟩
    obtain ⟨outs, houts⟩ : ∃ outs, rows.mapM coerceRow = .ok outs :=
      exists_mapM fun row hrow => (hrows row hrow).imp fun _ hout => hout.1
    refine ⟨⟨outs, columns.getD [], count.getD (.ofNat rows.length)⟩, ?_, ?_⟩
    · rw [coerceResult]
      change (rows.mapM coerceRow >>= _) = _
      rw [houts]
      rfl
    · have hall := (List.forall₂_and_left rows outs).mpr ⟨h, mapM_eq_ok houts⟩
      refine hall.imp ?_
      intro row out ⟨hrow, hout⟩
      obtain ⟨out', hout', himage⟩ := coerceRow_of_coercible row hrow
      rw [hout] at hout'
      cases hout'
      exact himage

/-- `select 'infinity'::timestamptz as expires`: the driver has no date for it. -/
theorem infinity_not_image :
    ¬ ∀ row : List (String × DriverValue), ∃ out, coerceRow row = .ok out ∧ ImageRow row out := by
  intro h
  obtain ⟨out, hout, _⟩ := h [("expires", .date none)]
  cases hout

end WorkflowEngine.Sandbox.SqlDispatcher
