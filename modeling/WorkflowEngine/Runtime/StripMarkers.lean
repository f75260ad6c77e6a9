import WorkflowEngine.Lib.JsonText

/-!
# Strip markers on rehydrated schemas

`applyStripMarkers` and what it is for. A schema is the zod tree that
`fromJSONSchema` returns: the shape of an object is reached through its
properties, every other constructor holds its schemas where the walk does not
look. A leaf is known by the values it accepts.
-/

namespace WorkflowEngine.Runtime.StripMarkers

open Lib
set_option autoImplicit false

/-! ## Schemas -/

/-- What an object does with unknown keys, by the type of its catchall: none, `never`, `any` or `unknown`,
and any other schema. -/
inductive Mode (σ : Type) where
  | strip
  | strict
  | loose
  | typed (catchall : σ)

abbrev Metadata := List (String × JsonValue)

inductive Schema where
  | leaf (accepts : JsonValue → Bool) (acceptsUndefined : Bool)
  | object (shape : List (String × Schema)) (mode : Mode Schema) (metadata : Metadata)
  | optional (inner : Schema)
  | array (element : Schema)
  | record (key : String → Bool) (value : Schema)
  | union (options : List Schema)

/-- `.meta().strip === true`. -/
def stripMarked (metadata : Metadata) : Bool :=
  match metadata.lookup "strip" with
  | some (.bool true) => true
  | _ => false

/-! ## The walk -/

def rebuiltMode {σ : Type} (marked : Bool) (mode : Mode σ) : Mode σ :=
  if marked then .strip
  else
    match mode with
    | .strict => .strict
    | .loose => .loose
    | _ => .strip

mutual

/-- The schema that `applyStripMarkers` builds, or `none` where it returns the one it was given. -/
def rebuild : Schema → Option Schema
  | .object shape mode metadata =>
    let (childrenChanged, newShape) := rebuildShape shape
    let marked := stripMarked metadata
    if marked || childrenChanged then some (.object newShape (rebuiltMode marked mode) metadata) else none
  | _ => none

/-- The loop over the shape. `newShape[k] = …` makes no property of `__proto__`. -/
def rebuildShape : List (String × Schema) → Bool × List (String × Schema)
  | [] => (false, [])
  | (k, v) :: shape =>
    let rebuilt := rebuild v
    let (childrenChanged, newShape) := rebuildShape shape
    (rebuilt.isSome || childrenChanged, if k = "__proto__" then newShape else (k, rebuilt.getD v) :: newShape)

end

def applyStripMarkers (zod : Schema) : Schema := (rebuild zod).getD zod

/-! ## Parsing -/

mutual

/-- An absent key is parsed as `undefined`. -/
def acceptsUndefined : Schema → Bool
  | .leaf _ undef => undef
  | .optional _ => true
  | .union options => anyAcceptsUndefined options
  | _ => false

def anyAcceptsUndefined : List Schema → Bool
  | [] => false
  | s :: options => acceptsUndefined s || anyAcceptsUndefined options

end

section Parse
variable (drops : Metadata → Bool)

mutual

/-- What zod makes of a value. Objects for whose metadata `drops` holds drop unknown keys, the others do what their
mode says. -/
def parseWith : Schema → JsonValue → Option JsonValue
  | .leaf accepts _, v => if accepts v then some v else none
  | .object shape mode metadata, .object fields => do
    let known ← parseShape shape fields
    let rest := fields.filter fun e => e.1 ∉ shape.map Prod.fst
    let unknown ← if drops metadata then some [] else parseRest mode rest
    return .object (known ++ unknown)
  | .object _ _ _, _ => none
  | .optional inner, v => parseWith inner v
  | .array element, .array items => (items.mapM fun item => parseWith element item).map .array
  | .array _, _ => none
  | .record key value, .object fields =>
    (fields.mapM fun e => if key e.1 then (parseWith value e.2).map (e.1, ·) else none).map .object
  | .record _ _, _ => none
  | .union options, v => parseUnion options v

def parseShape : List (String × Schema) → List (String × JsonValue) → Option (List (String × JsonValue))
  | [], _ => some []
  | (k, s) :: shape, fields => do
    let known ← parseShape shape fields
    match fields.lookup k with
    | some v => (parseWith s v).map fun w => (k, w) :: known
    | none => if acceptsUndefined s then some known else none

def parseRest : Mode Schema → List (String × JsonValue) → Option (List (String × JsonValue))
  | .strip, _ => some []
  | .strict, rest => if rest.isEmpty then some [] else none
  | .loose, rest => some rest
  | .typed catchall, rest => rest.mapM fun e => (parseWith catchall e.2).map (e.1, ·)

/-- The first option that takes the value. -/
def parseUnion : List Schema → JsonValue → Option JsonValue
  | [], _ => none
  | s :: options, v => (parseWith s v).or (parseUnion options v)

end

end Parse

def parse : Schema → JsonValue → Option JsonValue := parseWith fun _ => false

/-! ## What the markers ask for -/

mutual

/-- The tree with every marked object in strip mode, wherever it stands, and nothing else changed. -/
def stripped : Schema → Schema
  | .leaf accepts undef => .leaf accepts undef
  | .object shape mode metadata =>
    .object (strippedShape shape) (if stripMarked metadata then .strip else strippedMode mode) metadata
  | .optional inner => .optional (stripped inner)
  | .array element => .array (stripped element)
  | .record key value => .record key (stripped value)
  | .union options => .union (strippedOptions options)

def strippedShape : List (String × Schema) → List (String × Schema)
  | [] => []
  | (k, s) :: shape => (k, stripped s) :: strippedShape shape

def strippedMode : Mode Schema → Mode Schema
  | .typed catchall => .typed (stripped catchall)
  | .strip => .strip
  | .strict => .strict
  | .loose => .loose

def strippedOptions : List Schema → List Schema
  | [] => []
  | s :: options => stripped s :: strippedOptions options

end

mutual

/-- Every marked object in the tree is in strip mode already. -/
def Settled : Schema → Prop
  | .leaf _ _ => True
  | .object shape mode metadata =>
    SettledShape shape ∧ if stripMarked metadata then mode = .strip else SettledMode mode
  | .optional inner => Settled inner
  | .array element => Settled element
  | .record _ value => Settled value
  | .union options => SettledOptions options

def SettledShape : List (String × Schema) → Prop
  | [] => True
  | (_, s) :: shape => Settled s ∧ SettledShape shape

def SettledMode : Mode Schema → Prop
  | .typed catchall => Settled catchall
  | _ => True

def SettledOptions : List Schema → Prop
  | [] => True
  | s :: options => Settled s ∧ SettledOptions options

end

mutual

/-- A marked object stands at the end of a chain of properties. -/
def marks : Schema → Bool
  | .object shape _ metadata => stripMarked metadata || marksShape shape
  | _ => false

def marksShape : List (String × Schema) → Bool
  | [] => false
  | (_, s) :: shape => marks s || marksShape shape

end

mutual

/-- The walk finds every marker: a marked object that is not in strip mode already is reached through properties
alone, an object above it has no typed catchall unless it is marked itself, and no key there is `__proto__`. -/
def Reached : Schema → Prop
  | .object shape mode metadata =>
    ReachedShape (stripMarked metadata || marksShape shape) shape ∧
      (stripMarked metadata = false → SettledMode mode ∧ ∀ catchall, mode = .typed catchall → marksShape shape = false)
  | s => Settled s

def ReachedShape (changed : Bool) : List (String × Schema) → Prop
  | [] => True
  | (k, s) :: shape => (Reached s ∧ (changed = true → k ≠ "__proto__")) ∧ ReachedShape changed shape

end

/-! ## When the walk does it -/

mutual

theorem stripped_eq_self_iff : ∀ s : Schema, stripped s = s ↔ Settled s
  | .leaf _ _ => by simp [stripped, Settled]
  | .object shape mode metadata => by
    simp only [stripped, Settled, Schema.object.injEq, and_true, strippedShape_eq_self_iff shape]
    refine and_congr_right fun _ => ?_
    split
    · exact eq_comm
    · exact strippedMode_eq_self_iff mode
  | .optional inner => by simp [stripped, Settled, stripped_eq_self_iff inner]
  | .array element => by simp [stripped, Settled, stripped_eq_self_iff element]
  | .record key value => by simp [stripped, Settled, stripped_eq_self_iff value]
  | .union options => by simp [stripped, Settled, strippedOptions_eq_self_iff options]

theorem strippedShape_eq_self_iff : ∀ shape : List (String × Schema), strippedShape shape = shape ↔ SettledShape shape
  | [] => by simp [strippedShape, SettledShape]
  | (k, s) :: shape => by
    simp [strippedShape, SettledShape, stripped_eq_self_iff s, strippedShape_eq_self_iff shape]

theorem strippedMode_eq_self_iff : ∀ mode : Mode Schema, strippedMode mode = mode ↔ SettledMode mode
  | .typed catchall => by simp [strippedMode, SettledMode, stripped_eq_self_iff catchall]
  | .strip | .strict | .loose => by simp [strippedMode, SettledMode]

theorem strippedOptions_eq_self_iff : ∀ options : List Schema, strippedOptions options = options ↔ SettledOptions options
  | [] => by simp [strippedOptions, SettledOptions]
  | s :: options => by
    simp [strippedOptions, SettledOptions, stripped_eq_self_iff s, strippedOptions_eq_self_iff options]

end

mutual

/-- A new object is built exactly above a marker. -/
theorem isSome_rebuild : ∀ s : Schema, (rebuild s).isSome = marks s
  | .object shape mode metadata => by
    have hchildren := fst_rebuildShape shape
    simp only [rebuild, marks, hchildren]
    cases stripMarked metadata || marksShape shape <;> rfl
  | .leaf _ _ | .optional _ | .array _ | .record _ _ | .union _ => rfl

theorem fst_rebuildShape : ∀ shape : List (String × Schema), (rebuildShape shape).1 = marksShape shape
  | [] => rfl
  | (k, s) :: shape => by
    simp only [rebuildShape, marksShape, isSome_rebuild s, fst_rebuildShape shape]

end

theorem applyStripMarkers_object (shape : List (String × Schema)) (mode : Mode Schema) (metadata : Metadata) :
    applyStripMarkers (.object shape mode metadata) =
      if stripMarked metadata || marksShape shape then
        .object (rebuildShape shape).2 (rebuiltMode (stripMarked metadata) mode) metadata
      else .object shape mode metadata := by
  rw [applyStripMarkers, rebuild]
  simp only [fst_rebuildShape]
  cases stripMarked metadata || marksShape shape <;> rfl

theorem snd_rebuildShape_cons (k : String) (s : Schema) (shape : List (String × Schema)) :
    (rebuildShape ((k, s) :: shape)).2 =
      if k = "__proto__" then (rebuildShape shape).2 else (k, applyStripMarkers s) :: (rebuildShape shape).2 := rfl

theorem length_rebuildShape : ∀ shape : List (String × Schema), (rebuildShape shape).2.length ≤ shape.length
  | [] => Nat.le_refl 0
  | (k, s) :: shape => by
    have hle := length_rebuildShape shape
    rw [snd_rebuildShape_cons]
    split
    · exact Nat.le_succ_of_le hle
    · exact Nat.succ_le_succ hle

theorem length_strippedShape : ∀ shape : List (String × Schema), (strippedShape shape).length = shape.length
  | [] => rfl
  | (_, _) :: shape => congrArg Nat.succ (length_strippedShape shape)

theorem applyStripMarkers_of_not_marks {s : Schema} (h : marks s = false) : applyStripMarkers s = s := by
  have hnone : rebuild s = none := by
    rw [← Option.isNone_iff_eq_none, ← Option.not_isSome, isSome_rebuild, h]
    rfl
  rw [applyStripMarkers, hnone, Option.getD_none]

/-- The mode of an unmarked object that is rebuilt. -/
theorem rebuiltMode_eq_iff (mode : Mode Schema) :
    rebuiltMode false mode = strippedMode mode ↔ SettledMode mode ∧ ∀ catchall, mode ≠ .typed catchall := by
  cases mode with
  | typed catchall => simp [rebuiltMode, strippedMode]
  | strip => simp [rebuiltMode, strippedMode, SettledMode]
  | strict => simp [rebuiltMode, strippedMode, SettledMode]
  | loose => simp [rebuiltMode, strippedMode, SettledMode]

mutual

theorem applyStripMarkers_eq_stripped_iff : ∀ s : Schema, applyStripMarkers s = stripped s ↔ Reached s
  | .object shape mode metadata => by
    rw [applyStripMarkers_object, stripped, Reached]
    cases hmarked : stripMarked metadata with
    | true =>
      have hshape := snd_rebuildShape_eq_iff shape
      simpa [rebuiltMode] using hshape
    | false =>
      cases hchanged : marksShape shape with
      | true =>
        have hshape := snd_rebuildShape_eq_iff shape
        have hmode := rebuiltMode_eq_iff mode
        simpa [hshape] using fun _ => hmode
      | false =>
        have hshape := eq_strippedShape_iff shape hchanged
        have hmode := strippedMode_eq_self_iff mode
        simp [hshape, ← hmode, eq_comm]
  | .leaf accepts undef => eq_comm.trans (stripped_eq_self_iff (.leaf accepts undef))
  | .optional inner => eq_comm.trans (stripped_eq_self_iff (.optional inner))
  | .array element => eq_comm.trans (stripped_eq_self_iff (.array element))
  | .record key value => eq_comm.trans (stripped_eq_self_iff (.record key value))
  | .union options => eq_comm.trans (stripped_eq_self_iff (.union options))

/-- The shape of an object that is rebuilt. -/
theorem snd_rebuildShape_eq_iff : ∀ shape : List (String × Schema),
    (rebuildShape shape).2 = strippedShape shape ↔ ReachedShape true shape
  | [] => by simp [rebuildShape, strippedShape, ReachedShape]
  | (k, s) :: shape => by
    rw [snd_rebuildShape_cons, strippedShape, ReachedShape, ← applyStripMarkers_eq_stripped_iff s,
      ← snd_rebuildShape_eq_iff shape]
    by_cases hk : k = "__proto__"
    · have hle := length_rebuildShape shape
      constructor
      · intro h
        rw [if_pos hk] at h
        have hlength := congrArg List.length h
        rw [List.length_cons, length_strippedShape] at hlength
        omega
      · intro h
        exact absurd hk (h.1.2 rfl)
    · simp [hk]

/-- The shape of an object that stays. -/
theorem eq_strippedShape_iff : ∀ shape : List (String × Schema), marksShape shape = false →
    (shape = strippedShape shape ↔ ReachedShape false shape)
  | [], _ => by simp [strippedShape, ReachedShape]
  | (k, s) :: shape, h => by
    obtain ⟨hs, hshape⟩ : marks s = false ∧ marksShape shape = false := by simpa [marksShape] using h
    rw [strippedShape, ReachedShape, ← applyStripMarkers_eq_stripped_iff s, ← eq_strippedShape_iff shape hshape,
      applyStripMarkers_of_not_marks hs]
    simp

end

/-! ## Parsing the marked tree -/

mutual

theorem acceptsUndefined_stripped : ∀ s : Schema, acceptsUndefined (stripped s) = acceptsUndefined s
  | .leaf _ _ | .object _ _ _ | .optional _ | .array _ | .record _ _ => rfl
  | .union options => anyAcceptsUndefined_stripped options

theorem anyAcceptsUndefined_stripped : ∀ options : List Schema,
    anyAcceptsUndefined (strippedOptions options) = anyAcceptsUndefined options
  | [] => rfl
  | s :: options => by
    rw [strippedOptions, anyAcceptsUndefined, anyAcceptsUndefined, acceptsUndefined_stripped s,
      anyAcceptsUndefined_stripped options]

end

theorem keys_strippedShape : ∀ shape : List (String × Schema),
    (strippedShape shape).map Prod.fst = shape.map Prod.fst
  | [] => rfl
  | (k, _) :: shape => congrArg (k :: ·) (keys_strippedShape shape)

mutual

/-- Parsing with the stripped tree is parsing with the tree itself, except that marked objects drop unknown keys. -/
theorem parse_stripped : ∀ (s : Schema) (v : JsonValue), parse (stripped s) v = parseWith stripMarked s v
  | .leaf _ _, _ => rfl
  | .object shape mode metadata, .object fields => by
    have hshape := parseShape_stripped shape fields
    have hrest := parseRest_stripped mode (fields.filter fun e => e.1 ∉ shape.map Prod.fst)
    simp only [stripped, parse, parseWith, hshape, keys_strippedShape]
    cases stripMarked metadata with
    | true => rfl
    | false => simp only [Bool.false_eq_true, if_false, hrest]
  | .object _ _ _, .null | .object _ _ _, .bool _ | .object _ _ _, .number _ | .object _ _ _, .string _
  | .object _ _ _, .array _ => rfl
  | .optional inner, v => parse_stripped inner v
  | .array element, .array items => by
    have helement : ∀ v, parseWith (fun _ => false) (stripped element) v = parseWith stripMarked element v :=
      parse_stripped element
    simp only [stripped, parse, parseWith, helement]
  | .array _, .null | .array _, .bool _ | .array _, .number _ | .array _, .string _ | .array _, .object _ => rfl
  | .record key value, .object fields => by
    have hvalue : ∀ v, parseWith (fun _ => false) (stripped value) v = parseWith stripMarked value v :=
      parse_stripped value
    simp only [stripped, parse, parseWith, hvalue]
  | .record _ _, .null | .record _ _, .bool _ | .record _ _, .number _ | .record _ _, .string _
  | .record _ _, .array _ => rfl
  | .union options, v => parseUnion_stripped options v

theorem parseShape_stripped : ∀ (shape : List (String × Schema)) (fields : List (String × JsonValue)),
    parseShape (fun _ => false) (strippedShape shape) fields = parseShape stripMarked shape fields
  | [], _ => rfl
  | (k, s) :: shape, fields => by
    have hs : ∀ v, parseWith (fun _ => false) (stripped s) v = parseWith stripMarked s v := parse_stripped s
    simp only [strippedShape, parseShape, parseShape_stripped shape fields, acceptsUndefined_stripped, hs]

theorem parseRest_stripped : ∀ (mode : Mode Schema) (rest : List (String × JsonValue)),
    parseRest (fun _ => false) (strippedMode mode) rest = parseRest stripMarked mode rest
  | .strip, _ | .strict, _ | .loose, _ => rfl
  | .typed catchall, rest => by
    have hs : ∀ v, parseWith (fun _ => false) (stripped catchall) v = parseWith stripMarked catchall v :=
      parse_stripped catchall
    simp only [strippedMode, parseRest, hs]

theorem parseUnion_stripped : ∀ (options : List Schema) (v : JsonValue),
    parseUnion (fun _ => false) (strippedOptions options) v = parseUnion stripMarked options v
  | [], _ => rfl
  | s :: options, v => by
    have hs : parseWith (fun _ => false) (stripped s) v = parseWith stripMarked s v := parse_stripped s v
    rw [strippedOptions, parseUnion, parseUnion, hs, parseUnion_stripped options v]

end

/-! ## The law -/

/-- The walk returns the tree with every marked object in strip mode and every other object as it was, and parses
every value as the tree it was given does, but for unknown keys of marked objects: exactly where it reaches the
markers. -/
theorem applyStripMarkers_right_iff (zod : Schema) :
    (applyStripMarkers zod = stripped zod ∧
      ∀ value, parse (applyStripMarkers zod) value = parseWith stripMarked zod value) ↔ Reached zod := by
  rw [← applyStripMarkers_eq_stripped_iff]
  constructor
  · exact And.left
  · intro h
    refine ⟨h, fun value => ?_⟩
    rw [h, parse_stripped]

/-- A marked object under a property that may be absent. -/
def optionalHeaders : Schema :=
  .object [("headers", .optional (.object [] .strict [("strip", .bool true)]))] .strict []

def extraHeader : JsonValue := .object [("headers", .object [("x-id", .null)])]

/-- The marker behind the optional wrapper is not found: an unknown key is refused where it should be dropped. -/
theorem optionalHeaders_not_stripped :
    ¬ ∀ zod : Schema, applyStripMarkers zod = stripped zod ∧
      ∀ value, parse (applyStripMarkers zod) value = parseWith stripMarked zod value := by
  intro h
  have hparse := (h optionalHeaders).2 extraHeader
  have hrefused : parse (applyStripMarkers optionalHeaders) extraHeader = none := rfl
  have hdropped : parseWith stripMarked optionalHeaders extraHeader =
      some (.object [("headers", .object [])]) := rfl
  rw [hrefused, hdropped] at hparse
  cases hparse

end WorkflowEngine.Runtime.StripMarkers
