import WorkflowEngine.Lib.OrderedMap
import Mathlib.Logic.Relation

/-!
# Errors thrown by host handlers

`isJsonSafe`, `captureErrorData` and `serializeHostError` of `sandbox.ts`, and how `handleHostCallRequest` answers a
handler that throws. The objects `R` form any graph, so the walk of `isJsonSafe` is bounded by the stack alone. Which
values the structured clone copies is the platform's.
-/

namespace WorkflowEngine.Sandbox.HostErrors

open Lib
set_option autoImplicit false

variable {R : Type}

/-! ## Values and objects -/

inductive HostValue (R : Type) where
  | undefined
  | null
  | boolean (b : Bool)
  | number (text : String)
  | string (s : String)
  | bigint (n : Int)
  | symbol (description : String)
  | ref (r : R)
  deriving DecidableEq

/-- A getter gives a value or throws. -/
inductive Slot (R : Type) where
  | value (v : HostValue R)
  | getter (result : Option (HostValue R))

/-- `[[Get]]` of a property; `none` is thrown. -/
def Slot.read : Slot R → Option (HostValue R)
  | .value v => some v
  | .getter result => result

structure Property (R : Type) where
  enumerable : Bool
  slot : Slot R

/-- What `typeof` and `Array.isArray` tell apart. The holes of an array are not among its elements. -/
inductive ObjectKind (R : Type) where
  | ordinary
  | array (elements : List (Slot R))
  | callable

/-- `inherited` is what the prototype chain has, `text` what `String` makes of the object. -/
structure HostObject (R : Type) where
  kind : ObjectKind R
  instanceofError : Bool
  own : OrderedMap String (Property R)
  inherited : String → Slot R
  text : Option String

abbrev Heap (R : Type) := R → HostObject R

def HostObject.get (o : HostObject R) (key : String) : Option (HostValue R) :=
  match o.own.get? key with
  | some p => p.slot.read
  | none => (o.inherited key).read

/-- The properties that `Object.values` reads. -/
def HostObject.enumerated (o : HostObject R) : List (Slot R) := (o.own.values.filter (·.enumerable)).map (·.slot)

def readAll : List (Slot R) → Option (List (HostValue R))
  | [] => some []
  | s :: ss =>
    match s.read, readAll ss with
    | some v, some vs => some (v :: vs)
    | _, _ => none

/-! ## Serializing -/

/-- What is thrown while the error is serialized: the end of the stack, or what a getter or a `toString` throws. -/
inductive Failure where
  | stackOverflow
  | readThrew
  deriving DecidableEq

/-- `every` of an array: an element is read when its turn comes. -/
def every (f : HostValue R → Except Failure Bool) : List (Slot R) → Except Failure Bool
  | [] => .ok true
  | s :: ss =>
    match s.read with
    | none => .error .readThrew
    | some v =>
      match f v with
      | .error e => .error e
      | .ok false => .ok false
      | .ok true => every f ss

/-- The own keys that `captureErrorData` leaves out. -/
def carriedKeys : List String := ["message", "stack", "name", "issues"]

structure SerializedError (R : Type) where
  name : HostValue R
  message : HostValue R
  stack : HostValue R
  issues : Option (HostValue R)
  data : Option (List (String × HostValue R))

def plainError (message : String) : SerializedError R :=
  ⟨.string "Error", .string message, .string "", none, none⟩

/-- `value ?? ""`. -/
def orEmpty : HostValue R → HostValue R
  | .undefined | .null => .string ""
  | value => value

/-- `issues`, when it is not `undefined`. -/
def defined : HostValue R → Option (HostValue R)
  | .undefined => none
  | value => some value

section Serialize
variable (heap : Heap R)

/-- The stack has room for so many calls more. -/
def isJsonSafe : (stack : Nat) → HostValue R → Except Failure Bool
  | 0, _ => .error .stackOverflow
  | stack + 1, value =>
    match value with
    | .null | .string _ | .number _ | .boolean _ => .ok true
    | .ref r =>
      match (heap r).kind with
      | .array elements => every (isJsonSafe stack) elements
      | .ordinary =>
        match readAll (heap r).enumerated with
        | none => .error .readThrew
        | some values => every (isJsonSafe stack) (values.map .value)
      | .callable => .ok false
    | .undefined | .bigint _ | .symbol _ => .ok false

/-- `data[key] = value`; the keys are distinct, and `__proto__` makes no property. -/
def assign (data : List (String × HostValue R)) (key : String) (value : HostValue R) : List (String × HostValue R) :=
  if key = "__proto__" then data else data ++ [(key, value)]

/-- What one own property gives to `data`. -/
def carriedValue (stack : Nat) (key : String) (property : Property R) : Except Failure (Option (HostValue R)) :=
  if key ∈ carriedKeys then .ok none
  else
    match property.slot.read with
    | none => .error .readThrew
    | some .undefined => .ok none
    | some value => (isJsonSafe heap stack value).map fun safe => if safe then some value else none

/-- The loop of `captureErrorData`, with `data` and `any`. -/
def captureFrom (stack : Nat) : List (String × Property R) → List (String × HostValue R) → Bool →
    Except Failure (List (String × HostValue R) × Bool)
  | [], data, any => .ok (data, any)
  | (key, property) :: properties, data, any =>
    match carriedValue heap stack key property with
    | .error failure => .error failure
    | .ok none => captureFrom stack properties data any
    | .ok (some value) => captureFrom stack properties (assign data key value) true

def captureErrorData (stack : Nat) (err : HostObject R) : Except Failure (Option (List (String × HostValue R))) :=
  (captureFrom heap stack err.own.entries [] false).map fun result => if result.2 then some result.1 else none

/-- `String(err)`. -/
def textOf : HostValue R → Option String
  | .undefined => some "undefined"
  | .null => some "null"
  | .boolean b => some (if b then "true" else "false")
  | .number text => some text
  | .string s => some s
  | .bigint n => some (toString n)
  | .symbol description => some ("Symbol(" ++ description ++ ")")
  | .ref r => (heap r).text

def serializeError (stack : Nat) (err : HostObject R) : Except Failure (SerializedError R) :=
  match err.get "name", err.get "message", err.get "stack", err.get "issues" with
  | some name, some message, some trace, some issues =>
    (captureErrorData heap stack err).map fun data => ⟨name, message, orEmpty trace, defined issues, data⟩
  | _, _, _, _ => .error .readThrew

def instanceofError : HostValue R → Option (HostObject R)
  | .ref r => if (heap r).instanceofError then some (heap r) else none
  | _ => none

def serializeHostError (stack : Nat) (err : HostValue R) : Except Failure (SerializedError R) :=
  match instanceofError heap err with
  | some o => serializeError heap stack o
  | none =>
    match textOf heap err with
    | none => .error .readThrew
    | some text => .ok (plainError text)

end Serialize

/-! ## Answering -/

def HostValue.isPrimitive : HostValue R → Bool
  | .symbol _ | .ref _ => false
  | _ => true

/-- The platform: the frames that are left of the stack, and the values that `postMessage` can clone. -/
structure Platform (R : Type) where
  stack : Nat
  clones : HostValue R → Bool
  clones_primitive : ∀ v : HostValue R, v.isPrimitive = true → clones v = true

/-- `postMessage` clones every property of the error. -/
def SerializedError.posts (p : Platform R) (e : SerializedError R) : Bool :=
  p.clones e.name && p.clones e.message && p.clones e.stack && e.issues.all p.clones &&
    e.data.all fun data => data.all fun entry => p.clones entry.2

/-- What becomes of a request: a response, one that cannot be cloned, none because the sandbox is disposed, or a
rejected handler promise. -/
inductive Outcome (R : Type) where
  | posted (error : SerializedError R)
  | dropped
  | withheld
  | rejected (failure : Failure)

def respond (p : Platform R) (disposed : Bool) (error : SerializedError R) : Outcome R :=
  if disposed then .withheld else if error.posts p then .posted error else .dropped

/-- `handleHostCallRequest`, when the handler throws `err`. -/
def answerThrown (heap : Heap R) (p : Platform R) (disposed : Bool) (err : HostValue R) : Outcome R :=
  match serializeHostError heap p.stack err with
  | .error failure => .rejected failure
  | .ok error => respond p disposed error

/-- `new Error(message)`. -/
def newError (message trace : String) : HostObject R where
  kind := .ordinary
  instanceofError := true
  own := (OrderedMap.empty.set "stack" ⟨false, .value (.string trace)⟩).set "message" ⟨false, .value (.string message)⟩
  inherited := fun key => .value (if key = "name" then .string "Error" else .undefined)
  text := some ("Error: " ++ message)

/-- `handleHostCallRequest`, for a method without a handler. -/
def answerUnknown (heap : Heap R) (p : Platform R) (disposed : Bool) (method trace : String) : Outcome R :=
  match serializeError heap p.stack (newError ("unknown host-call method: " ++ method) trace) with
  | .error failure => .rejected failure
  | .ok error => respond p disposed error

/-! ## The walk -/

section Walk
variable {heap : Heap R}

/-- What a value's walk goes on to. -/
def Child (heap : Heap R) (v w : HostValue R) : Prop :=
  ∃ r, v = .ref r ∧ ((∃ elements, (heap r).kind = .array elements ∧ ∃ s ∈ elements, s.read = some w) ∨
    ((heap r).kind = .ordinary ∧ ∃ s ∈ (heap r).enumerated, s.read = some w))

theorem every_cons_ok {f : HostValue R → Except Failure Bool} {s : Slot R} {slots : List (Slot R)} {b : Bool}
    (h : every f (s :: slots) = .ok b) :
    ∃ v, s.read = some v ∧ (f v = .ok false ∧ b = false ∨ f v = .ok true ∧ every f slots = .ok b) := by
  rw [every] at h
  cases hread : s.read with
  | none =>
    rw [hread] at h
    cases h
  | some v =>
    refine ⟨v, rfl, ?_⟩
    simp only [hread] at h
    cases hf : f v with
    | error e =>
      rw [hf] at h
      cases h
    | ok safe =>
      rw [hf] at h
      cases safe with
      | false => exact Or.inl ⟨rfl, (Except.ok.inj h).symm⟩
      | true => exact Or.inr ⟨rfl, h⟩

theorem every_true {f : HostValue R → Except Failure Bool} {slots : List (Slot R)} (h : every f slots = .ok true)
    {s : Slot R} (hs : s ∈ slots) {v : HostValue R} (hv : s.read = some v) : f v = .ok true := by
  induction slots with
  | nil => exact absurd hs List.not_mem_nil
  | cons s' slots ih =>
    obtain ⟨v', hread, ⟨-, hfalse⟩ | ⟨hf, hrest⟩⟩ := every_cons_ok h
    · cases hfalse
    · rcases List.mem_cons.mp hs with rfl | hmem
      · rw [hv] at hread
        rw [Option.some.inj hread]
        exact hf
      · exact ih hrest hmem

theorem readAll_cons_some {s : Slot R} {slots : List (Slot R)} {values : List (HostValue R)}
    (h : readAll (s :: slots) = some values) :
    ∃ v vs, s.read = some v ∧ readAll slots = some vs ∧ values = v :: vs := by
  rw [readAll] at h
  split at h
  · rename_i v vs hread hrest
    exact ⟨v, vs, hread, hrest, (Option.some.inj h).symm⟩
  · cases h

theorem mem_of_readAll {slots : List (Slot R)} {values : List (HostValue R)} (h : readAll slots = some values)
    {s : Slot R} (hs : s ∈ slots) {v : HostValue R} (hv : s.read = some v) : v ∈ values := by
  induction slots generalizing values with
  | nil => exact absurd hs List.not_mem_nil
  | cons s' slots ih =>
    obtain ⟨v', vs, hread, hrest, rfl⟩ := readAll_cons_some h
    rcases List.mem_cons.mp hs with rfl | hmem
    · rw [hv] at hread
      rw [Option.some.inj hread]
      exact List.mem_cons_self
    · exact List.mem_cons_of_mem _ (ih hrest hmem)

/-- A value is safe only when all that the walk goes on to is safe with one frame less. -/
theorem isJsonSafe_child {v w : HostValue R} (hchild : Child heap v w) {stack : Nat}
    (h : isJsonSafe heap (stack + 1) v = .ok true) : isJsonSafe heap stack w = .ok true := by
  obtain ⟨r, rfl, ⟨elements, hkind, s, hs, hread⟩ | ⟨hkind, s, hs, hread⟩⟩ := hchild
  · simp only [isJsonSafe, hkind] at h
    exact every_true h hs hread
  · simp only [isJsonSafe, hkind] at h
    cases hall : readAll (heap r).enumerated with
    | none =>
      simp only [hall] at h
      cases h
    | some values =>
      simp only [hall] at h
      have hvalue : Slot.value w ∈ values.map Slot.value := List.mem_map_of_mem (mem_of_readAll hall hs hread)
      exact every_true h hvalue rfl

/-- Along a path the frames run out. -/
theorem isJsonSafe_path {v w : HostValue R} (h : Relation.TransGen (Child heap) v w) {stack : Nat}
    (hsafe : isJsonSafe heap stack v = .ok true) : ∃ less < stack, isJsonSafe heap less w = .ok true := by
  induction h with
  | single hchild =>
    cases stack with
    | zero => exact absurd hsafe (by simp [isJsonSafe])
    | succ stack => exact ⟨stack, Nat.lt_succ_self _, isJsonSafe_child hchild hsafe⟩
  | tail _ hchild ih =>
    obtain ⟨less, hless, hmiddle⟩ := ih
    cases less with
    | zero => exact absurd hmiddle (by simp [isJsonSafe])
    | succ less => exact ⟨less, by omega, isJsonSafe_child hchild hmiddle⟩

/-- A value on a cycle is never found safe, however much stack there is. -/
theorem isJsonSafe_cycle {v : HostValue R} (h : Relation.TransGen (Child heap) v v) (stack : Nat) :
    isJsonSafe heap stack v ≠ .ok true := by
  induction stack using Nat.strongRecOn with
  | ind stack ih =>
    intro hsafe
    obtain ⟨less, hless, hagain⟩ := isJsonSafe_path h hsafe
    exact ih less hless hagain

/-- With one frame more the answer stays. -/
theorem every_congr_ok {f g : HostValue R → Except Failure Bool} (hfg : ∀ v b, f v = .ok b → g v = .ok b)
    {slots : List (Slot R)} {b : Bool} (h : every f slots = .ok b) : every g slots = .ok b := by
  induction slots with
  | nil => exact h
  | cons s slots ih =>
    obtain ⟨v, hread, ⟨hf, rfl⟩ | ⟨hf, hrest⟩⟩ := every_cons_ok h
    · simp only [every, hread, hfg v false hf]
    · simp only [every, hread, hfg v true hf]
      exact ih hrest

theorem isJsonSafe_succ {stack : Nat} {v : HostValue R} {b : Bool} (h : isJsonSafe heap stack v = .ok b) :
    isJsonSafe heap (stack + 1) v = .ok b := by
  induction stack generalizing v b with
  | zero => exact absurd h (by simp [isJsonSafe])
  | succ stack ih =>
    cases v with
    | ref r =>
      rw [isJsonSafe] at h ⊢
      cases hkind : (heap r).kind with
      | array elements =>
        simp only [hkind] at h ⊢
        exact every_congr_ok (fun _ _ hok => ih hok) h
      | ordinary =>
        simp only [hkind] at h ⊢
        cases hall : readAll (heap r).enumerated with
        | none =>
          simp only [hall] at h
          cases h
        | some values =>
          simp only [hall] at h ⊢
          exact every_congr_ok (fun _ _ hok => ih hok) h
      | callable =>
        simp only [hkind] at h ⊢
        exact h
    | undefined => exact h
    | null => exact h
    | boolean b => exact h
    | number text => exact h
    | string s => exact h
    | bigint n => exact h
    | symbol description => exact h

/-- More stack does not change an answer. -/
theorem isJsonSafe_mono {stack more : Nat} (hle : stack ≤ more) {v : HostValue R} {b : Bool}
    (h : isJsonSafe heap stack v = .ok b) : isJsonSafe heap more v = .ok b := by
  induction hle with
  | refl => exact h
  | step _ ih => exact isJsonSafe_succ ih

end Walk

/-! ## The loop over the own properties -/

section Capture
variable (heap : Heap R) (stack : Nat)

/-- Reading a property does not throw, and the walk over a value that is there comes to an end. -/
def Walked (property : Property R) : Prop :=
  ∃ v, property.slot.read = some v ∧ (v = .undefined ∨ ∃ safe, isJsonSafe heap stack v = .ok safe)

/-- The value becomes a member of `data`. -/
def Kept (key : String) (property : Property R) (v : HostValue R) : Prop :=
  key ∉ carriedKeys ∧ key ≠ "__proto__" ∧ property.slot.read = some v ∧ v ≠ .undefined ∧
    isJsonSafe heap stack v = .ok true

theorem carriedValue_carried {key : String} (h : key ∈ carriedKeys) (property : Property R) :
    carriedValue heap stack key property = .ok none := if_pos h

theorem carriedValue_of_read {key : String} (h : key ∉ carriedKeys) {property : Property R} {v : HostValue R}
    (hread : property.slot.read = some v) (hv : v ≠ .undefined) :
    carriedValue heap stack key property =
      (isJsonSafe heap stack v).map fun safe => if safe then some v else none := by
  rw [carriedValue, if_neg h, hread]
  cases v with
  | undefined => exact absurd rfl hv
  | _ => rfl

/-- When one turn of the loop does not throw. -/
theorem carriedValue_ok_iff (key : String) (property : Property R) :
    (∃ value, carriedValue heap stack key property = .ok value) ↔ (key ∉ carriedKeys → Walked heap stack property) := by
  by_cases hkey : key ∈ carriedKeys
  · exact iff_of_true ⟨none, carriedValue_carried heap stack hkey property⟩ (fun hnot => absurd hkey hnot)
  · cases hread : property.slot.read with
    | none =>
      apply iff_of_false
      · rintro ⟨value, hvalue⟩
        rw [carriedValue, if_neg hkey, hread] at hvalue
        cases hvalue
      · intro hwalked
        obtain ⟨v, hv, -⟩ := hwalked hkey
        rw [hread] at hv
        cases hv
    | some v =>
      by_cases hv : v = .undefined
      · apply iff_of_true
        · refine ⟨none, ?_⟩
          rw [carriedValue, if_neg hkey, hread, hv]
        · exact fun _ => ⟨v, hread, Or.inl hv⟩
      · rw [carriedValue_of_read heap stack hkey hread hv]
        constructor
        · rintro ⟨value, hvalue⟩ -
          cases hsafe : isJsonSafe heap stack v with
          | error failure =>
            rw [hsafe] at hvalue
            cases hvalue
          | ok safe => exact ⟨v, hread, Or.inr ⟨safe, hsafe⟩⟩
        · intro hwalked
          obtain ⟨v', hv', hend⟩ := hwalked hkey
          rw [hread] at hv'
          rw [← Option.some.inj hv'] at hend
          obtain ⟨safe, hsafe⟩ := hend.resolve_left hv
          rw [hsafe]
          exact ⟨_, rfl⟩

/-- What one turn of the loop adds. -/
theorem carriedValue_some_iff (key : String) (property : Property R) (v : HostValue R) :
    carriedValue heap stack key property = .ok (some v) ∧ key ≠ "__proto__" ↔ Kept heap stack key property v := by
  by_cases hkey : key ∈ carriedKeys
  · apply iff_of_false
    · rintro ⟨hvalue, -⟩
      rw [carriedValue_carried heap stack hkey] at hvalue
      cases hvalue
    · exact fun hkept => hkept.1 hkey
  · constructor
    · rintro ⟨hvalue, hproto⟩
      cases hread : property.slot.read with
      | none =>
        rw [carriedValue, if_neg hkey, hread] at hvalue
        cases hvalue
      | some v' =>
        by_cases hv' : v' = .undefined
        · rw [carriedValue, if_neg hkey, hread, hv'] at hvalue
          cases hvalue
        · rw [carriedValue_of_read heap stack hkey hread hv'] at hvalue
          cases hsafe : isJsonSafe heap stack v' with
          | error failure =>
            rw [hsafe] at hvalue
            cases hvalue
          | ok safe =>
            rw [hsafe] at hvalue
            cases safe with
            | false => exact absurd hvalue (by simp [Except.map])
            | true =>
              have heq : v' = v := Option.some.inj (Except.ok.inj hvalue)
              rw [← heq]
              exact ⟨hkey, hproto, hread, hv', hsafe⟩
    · rintro ⟨-, hproto, hread, hv, hsafe⟩
      rw [carriedValue_of_read heap stack hkey hread hv, hsafe]
      exact ⟨rfl, hproto⟩

theorem captureFrom_cons (key : String) (property : Property R) (properties : List (String × Property R))
    (data : List (String × HostValue R)) (any : Bool) {value : Option (HostValue R)}
    (h : carriedValue heap stack key property = .ok value) :
    captureFrom heap stack ((key, property) :: properties) data any =
      captureFrom heap stack properties (value.elim data (assign data key)) (any || value.isSome) := by
  rw [captureFrom, h]
  cases value with
  | none => rw [Option.isSome_none, Bool.or_false, Option.elim_none]
  | some v => rw [Option.isSome_some, Bool.or_true, Option.elim_some]

/-- When the loop does not throw, its first turn has not thrown. -/
theorem captureFrom_cons_ok {key : String} {property : Property R} {properties : List (String × Property R)}
    {data : List (String × HostValue R)} {any : Bool} {result : List (String × HostValue R) × Bool}
    (h : captureFrom heap stack ((key, property) :: properties) data any = .ok result) :
    ∃ value, carriedValue heap stack key property = .ok value ∧
      captureFrom heap stack properties (value.elim data (assign data key)) (any || value.isSome) = .ok result := by
  cases hvalue : carriedValue heap stack key property with
  | error failure =>
    rw [captureFrom, hvalue] at h
    cases h
  | ok value =>
    rw [captureFrom_cons heap stack key property properties data any hvalue] at h
    exact ⟨value, rfl, h⟩

/-- The loop does not throw exactly when no turn does. -/
theorem captureFrom_ok_iff (properties : List (String × Property R)) (data : List (String × HostValue R)) (any : Bool) :
    (∃ result, captureFrom heap stack properties data any = .ok result) ↔
      ∀ entry ∈ properties, entry.1 ∉ carriedKeys → Walked heap stack entry.2 := by
  induction properties generalizing data any with
  | nil => exact iff_of_true ⟨_, rfl⟩ (fun entry h => absurd h List.not_mem_nil)
  | cons entry properties ih =>
    obtain ⟨key, property⟩ := entry
    rw [List.forall_mem_cons, ← carriedValue_ok_iff heap stack key property]
    constructor
    · rintro ⟨result, hresult⟩
      obtain ⟨value, hvalue, hrest⟩ := captureFrom_cons_ok heap stack hresult
      exact ⟨⟨value, hvalue⟩, (ih _ _).mp ⟨result, hrest⟩⟩
    · rintro ⟨⟨value, hvalue⟩, hrest⟩
      rw [captureFrom_cons heap stack key property properties data any hvalue]
      exact (ih _ _).mpr hrest

theorem mem_assign {data : List (String × HostValue R)} {key : String} {v : HostValue R} {entry : String × HostValue R} :
    entry ∈ assign data key v ↔ entry ∈ data ∨ (entry = (key, v) ∧ key ≠ "__proto__") := by
  unfold assign
  split
  · rename_i hproto
    exact ⟨Or.inl, fun h => h.resolve_right fun hnew => hnew.2 hproto⟩
  · rename_i hproto
    rw [List.mem_append, List.mem_singleton, and_iff_left hproto]

/-- The members of `data` after the loop. -/
theorem mem_captureFrom {properties : List (String × Property R)} {data data' : List (String × HostValue R)}
    {any any' : Bool} (h : captureFrom heap stack properties data any = .ok (data', any'))
    (entry : String × HostValue R) :
    entry ∈ data' ↔ entry ∈ data ∨ ∃ property, (entry.1, property) ∈ properties ∧ Kept heap stack entry.1 property entry.2 := by
  induction properties generalizing data any with
  | nil =>
    have heq : data = data' := congrArg Prod.fst (Except.ok.inj h)
    rw [heq]
    exact ⟨Or.inl, fun hor => hor.resolve_right fun ⟨_, hmem, _⟩ => List.not_mem_nil hmem⟩
  | cons first properties ih =>
    obtain ⟨key, property⟩ := first
    obtain ⟨value, hvalue, hrest⟩ := captureFrom_cons_ok heap stack h
    rw [ih hrest]
    have hadded : entry ∈ value.elim data (assign data key) ↔
        entry ∈ data ∨ (entry.1 = key ∧ Kept heap stack entry.1 property entry.2) := by
      cases value with
      | none =>
        refine ⟨Or.inl, fun hor => hor.resolve_right ?_⟩
        rintro ⟨hkey, hkept⟩
        have hsome := ((carriedValue_some_iff heap stack _ _ _).mpr hkept).1
        rw [hkey, hvalue] at hsome
        cases hsome
      | some v =>
        rw [Option.elim_some, mem_assign]
        apply or_congr_right
        constructor
        · rintro ⟨rfl, hproto⟩
          exact ⟨rfl, (carriedValue_some_iff heap stack _ _ _).mp ⟨hvalue, hproto⟩⟩
        · rintro ⟨hkey, hkept⟩
          have hsome := (carriedValue_some_iff heap stack _ _ _).mpr hkept
          rw [hkey, hvalue] at hsome
          exact ⟨Prod.ext hkey (Option.some.inj (Except.ok.inj hsome.1)).symm, hsome.2⟩
    rw [hadded, or_assoc]
    apply or_congr_right
    constructor
    · rintro (⟨hkey, hkept⟩ | ⟨other, hmem, hkept⟩)
      · exact ⟨property, List.mem_cons.mpr (Or.inl (Prod.ext hkey rfl)), hkept⟩
      · exact ⟨other, List.mem_cons_of_mem _ hmem, hkept⟩
    · rintro ⟨other, hmem, hkept⟩
      rcases List.mem_cons.mp hmem with hfirst | hlater
      · rw [Prod.mk.injEq] at hfirst
        rw [hfirst.2] at hkept
        exact Or.inl ⟨hfirst.1, hkept⟩
      · exact Or.inr ⟨other, hlater, hkept⟩

/-- Without a member that is carried `data` is what it was. -/
theorem captureFrom_any {properties : List (String × Property R)} {data data' : List (String × HostValue R)}
    {any : Bool} (h : captureFrom heap stack properties data any = .ok (data', false)) : data' = data ∧ any = false := by
  induction properties generalizing data any with
  | nil =>
    have heq := Except.ok.inj h
    rw [Prod.mk.injEq] at heq
    exact ⟨heq.1.symm, heq.2⟩
  | cons first properties ih =>
    obtain ⟨key, property⟩ := first
    obtain ⟨value, -, hrest⟩ := captureFrom_cons_ok heap stack h
    obtain ⟨hdata, hany⟩ := ih hrest
    cases value with
    | none => exact ⟨hdata, by simpa using hany⟩
    | some v =>
      rw [Option.isSome_some, Bool.or_true] at hany
      cases hany

theorem captureErrorData_ok_iff (err : HostObject R) :
    (∃ data, captureErrorData heap stack err = .ok data) ↔
      ∀ entry ∈ err.own.entries, entry.1 ∉ carriedKeys → Walked heap stack entry.2 := by
  rw [← captureFrom_ok_iff heap stack err.own.entries [] false]
  unfold captureErrorData
  cases captureFrom heap stack err.own.entries [] false with
  | error failure => exact iff_of_false (by simp [Except.map]) (by simp)
  | ok result => exact iff_of_true ⟨_, rfl⟩ ⟨_, rfl⟩

/-- The members of the data are the values that are kept. -/
theorem captureErrorData_all {err : HostObject R} {data : Option (List (String × HostValue R))}
    (h : captureErrorData heap stack err = .ok data) (clones : HostValue R → Bool) :
    (data.all fun members => members.all fun entry => clones entry.2) = true ↔
      ∀ entry ∈ err.own.entries, ∀ v, Kept heap stack entry.1 entry.2 v → clones v = true := by
  unfold captureErrorData at h
  cases hloop : captureFrom heap stack err.own.entries [] false with
  | error failure =>
    rw [hloop] at h
    cases h
  | ok result =>
    obtain ⟨members, any⟩ := result
    have hmem := mem_captureFrom heap stack hloop
    have hall : (∀ entry ∈ members, clones entry.2 = true) ↔
        ∀ entry ∈ err.own.entries, ∀ v, Kept heap stack entry.1 entry.2 v → clones v = true := by
      constructor
      · intro hclones entry hentry v hkept
        exact hclones (entry.1, v) ((hmem (entry.1, v)).mpr (Or.inr ⟨entry.2, hentry, hkept⟩))
      · intro hclones entry hentry
        obtain ⟨property, hproperty, hkept⟩ := ((hmem entry).mp hentry).resolve_left List.not_mem_nil
        exact hclones (entry.1, property) hproperty entry.2 hkept
    rw [hloop] at h
    rw [← Except.ok.inj h, ← hall]
    cases any with
    | true => exact List.all_eq_true
    | false =>
      obtain ⟨hdata, -⟩ := captureFrom_any heap stack hloop
      rw [hdata]
      exact iff_of_true rfl (fun entry hentry => absurd hentry List.not_mem_nil)

end Capture

/-! ## When a throw is answered -/

/-- Serializing the value does not throw. -/
structure Serializable (heap : Heap R) (stack : Nat) (err : HostValue R) : Prop where
  text : instanceofError heap err = none → (textOf heap err).isSome = true
  carried : ∀ o, instanceofError heap err = some o → ∀ key ∈ carriedKeys, (o.get key).isSome = true
  others : ∀ o, instanceofError heap err = some o →
    ∀ entry ∈ o.own.entries, entry.1 ∉ carriedKeys → Walked heap stack entry.2

/-- The structured clone copies what the error carries. -/
structure Copied (heap : Heap R) (p : Platform R) (err : HostValue R) : Prop where
  carried : ∀ o, instanceofError heap err = some o →
    ∀ key ∈ carriedKeys, ∀ v, o.get key = some v → p.clones v = true
  kept : ∀ o, instanceofError heap err = some o →
    ∀ entry ∈ o.own.entries, ∀ v, Kept heap p.stack entry.1 entry.2 v → p.clones v = true

theorem clones_orEmpty (p : Platform R) (v : HostValue R) : p.clones (orEmpty v) = p.clones v := by
  cases v with
  | undefined => rw [orEmpty, p.clones_primitive _ rfl, p.clones_primitive _ rfl]
  | null => rw [orEmpty, p.clones_primitive _ rfl, p.clones_primitive _ rfl]
  | _ => rfl

theorem clones_defined (p : Platform R) (v : HostValue R) : (defined v).all p.clones = p.clones v := by
  cases v with
  | undefined => exact (p.clones_primitive _ rfl).symm
  | _ => rfl

theorem posts_plainError (p : Platform R) (message : String) : (plainError message).posts p = true := by
  have hstring : ∀ s : String, p.clones (.string s) = true := fun s => p.clones_primitive _ rfl
  simp [SerializedError.posts, plainError, hstring]

theorem forall_carriedKeys {P : String → Prop} :
    (∀ key ∈ carriedKeys, P key) ↔ P "message" ∧ P "stack" ∧ P "name" ∧ P "issues" := by
  simp [carriedKeys]

theorem serializeError_eq {heap : Heap R} {stack : Nat} {o : HostObject R} {name message trace issues : HostValue R}
    (hname : o.get "name" = some name) (hmessage : o.get "message" = some message) (htrace : o.get "stack" = some trace)
    (hissues : o.get "issues" = some issues) :
    serializeError heap stack o = (captureErrorData heap stack o).map fun data =>
      ⟨name, message, orEmpty trace, defined issues, data⟩ := by
  rw [serializeError, hname, hmessage, htrace, hissues]

/-- What a serialized error was made of. -/
theorem serializeError_ok {heap : Heap R} {stack : Nat} {o : HostObject R} {e : SerializedError R}
    (h : serializeError heap stack o = .ok e) :
    ∃ name message trace issues data, o.get "name" = some name ∧ o.get "message" = some message ∧
      o.get "stack" = some trace ∧ o.get "issues" = some issues ∧ captureErrorData heap stack o = .ok data ∧
      e = ⟨name, message, orEmpty trace, defined issues, data⟩ := by
  unfold serializeError at h
  split at h
  · rename_i name message trace issues hname hmessage htrace hissues
    cases hdata : captureErrorData heap stack o with
    | error failure =>
      rw [hdata] at h
      cases h
    | ok data =>
      rw [hdata] at h
      exact ⟨name, message, trace, issues, data, hname, hmessage, htrace, hissues, rfl, (Except.ok.inj h).symm⟩
  · cases h

/-- An error is serialized exactly when its four properties can be read and the others are walked to the end. -/
theorem serializeError_ok_iff (heap : Heap R) (stack : Nat) (o : HostObject R) :
    (∃ e, serializeError heap stack o = .ok e) ↔
      (∀ key ∈ carriedKeys, (o.get key).isSome = true) ∧
        ∀ entry ∈ o.own.entries, entry.1 ∉ carriedKeys → Walked heap stack entry.2 := by
  rw [← captureErrorData_ok_iff heap stack o, forall_carriedKeys]
  constructor
  · rintro ⟨e, he⟩
    obtain ⟨name, message, trace, issues, data, hname, hmessage, htrace, hissues, hdata, -⟩ := serializeError_ok he
    rw [hname, hmessage, htrace, hissues]
    exact ⟨⟨rfl, rfl, rfl, rfl⟩, data, hdata⟩
  · rintro ⟨⟨hmessage, htrace, hname, hissues⟩, data, hdata⟩
    obtain ⟨message, hmessage⟩ := Option.isSome_iff_exists.mp hmessage
    obtain ⟨trace, htrace⟩ := Option.isSome_iff_exists.mp htrace
    obtain ⟨name, hname⟩ := Option.isSome_iff_exists.mp hname
    obtain ⟨issues, hissues⟩ := Option.isSome_iff_exists.mp hissues
    rw [serializeError_eq hname hmessage htrace hissues, hdata]
    exact ⟨_, rfl⟩

/-- A serialized error can be posted exactly when all that it carries can be cloned. -/
theorem posts_serializeError {heap : Heap R} {p : Platform R} {o : HostObject R} {e : SerializedError R}
    (h : serializeError heap p.stack o = .ok e) :
    e.posts p = true ↔ (∀ key ∈ carriedKeys, ∀ v, o.get key = some v → p.clones v = true) ∧
      ∀ entry ∈ o.own.entries, ∀ v, Kept heap p.stack entry.1 entry.2 v → p.clones v = true := by
  obtain ⟨name, message, trace, issues, data, hname, hmessage, htrace, hissues, hdata, rfl⟩ := serializeError_ok h
  have hkeys : (∀ key ∈ carriedKeys, ∀ v, o.get key = some v → p.clones v = true) ↔
      p.clones message = true ∧ p.clones trace = true ∧ p.clones name = true ∧ p.clones issues = true := by
    rw [forall_carriedKeys, hname, hmessage, htrace, hissues]
    simp only [Option.some.injEq, forall_eq']
  rw [hkeys, ← captureErrorData_all heap p.stack hdata p.clones]
  simp only [SerializedError.posts, clones_orEmpty, clones_defined, Bool.and_eq_true]
  constructor
  · rintro ⟨⟨⟨⟨hn, hm⟩, ht⟩, hi⟩, hd⟩
    exact ⟨⟨hm, ht, hn, hi⟩, hd⟩
  · rintro ⟨⟨hm, ht, hn, hi⟩, hd⟩
    exact ⟨⟨⟨⟨hn, hm⟩, ht⟩, hi⟩, hd⟩

theorem serializeHostError_ok_iff (heap : Heap R) (stack : Nat) (err : HostValue R) :
    (∃ e, serializeHostError heap stack err = .ok e) ↔ Serializable heap stack err := by
  unfold serializeHostError
  cases herror : instanceofError heap err with
  | none =>
    cases htext : textOf heap err with
    | none =>
      apply iff_of_false
      · rintro ⟨e, he⟩
        cases he
      · intro h
        have hsome := h.text herror
        rw [htext] at hsome
        cases hsome
    | some text =>
      apply iff_of_true ⟨_, rfl⟩
      refine ⟨fun _ => by rw [htext]; rfl, ?_, ?_⟩
      · intro o ho
        rw [herror] at ho
        cases ho
      · intro o ho
        rw [herror] at ho
        cases ho
  | some o =>
    simp only []
    rw [serializeError_ok_iff]
    constructor
    · rintro ⟨hcarried, hothers⟩
      refine ⟨?_, ?_, ?_⟩
      · intro hnone
        rw [herror] at hnone
        cases hnone
      · intro o' ho
        rw [herror] at ho
        rw [← Option.some.inj ho]
        exact hcarried
      · intro o' ho
        rw [herror] at ho
        rw [← Option.some.inj ho]
        exact hothers
    · intro h
      exact ⟨h.carried o herror, h.others o herror⟩

theorem posts_iff {heap : Heap R} {p : Platform R} {err : HostValue R} {e : SerializedError R}
    (h : serializeHostError heap p.stack err = .ok e) : e.posts p = true ↔ Copied heap p err := by
  unfold serializeHostError at h
  cases herror : instanceofError heap err with
  | none =>
    have hcopied : Copied heap p err := by
      refine ⟨?_, ?_⟩
      · intro o ho
        rw [herror] at ho
        cases ho
      · intro o ho
        rw [herror] at ho
        cases ho
    rw [herror] at h
    cases htext : textOf heap err with
    | none =>
      simp only [htext] at h
      cases h
    | some text =>
      simp only [htext] at h
      rw [← Except.ok.inj h]
      exact iff_of_true (posts_plainError p text) hcopied
  | some o =>
    rw [herror] at h
    rw [posts_serializeError h]
    constructor
    · rintro ⟨hcarried, hkept⟩
      refine ⟨?_, ?_⟩
      · intro o' ho
        rw [herror] at ho
        rw [← Option.some.inj ho]
        exact hcarried
      · intro o' ho
        rw [herror] at ho
        rw [← Option.some.inj ho]
        exact hkept
    · intro hcopied
      exact ⟨hcopied.carried o herror, hcopied.kept o herror⟩

/-- One response, unless the sandbox is disposed; and no rejection in either case. -/
def Answered (disposed : Bool) (outcome : Outcome R) : Prop :=
  (disposed = true → outcome = .withheld) ∧ (disposed = false → ∃ e, outcome = .posted e)

theorem answered_respond (p : Platform R) (disposed : Bool) (e : SerializedError R) :
    Answered disposed (respond p disposed e) ↔ (disposed = false → e.posts p = true) := by
  unfold Answered respond
  cases disposed with
  | true => simp
  | false =>
    cases hposts : e.posts p with
    | true => simp
    | false => simp

/-- A throw is answered exactly when the value can be serialized, and, for a live sandbox, what it carries cloned. -/
theorem answered_iff (heap : Heap R) (p : Platform R) (disposed : Bool) (err : HostValue R) :
    Answered disposed (answerThrown heap p disposed err) ↔
      Serializable heap p.stack err ∧ (disposed = false → Copied heap p err) := by
  rw [← serializeHostError_ok_iff heap p.stack err]
  unfold answerThrown
  cases hserialized : serializeHostError heap p.stack err with
  | error failure =>
    apply iff_of_false
    · rintro ⟨hdisposed, hlive⟩
      cases disposed with
      | true => exact absurd (hdisposed rfl) (by simp)
      | false =>
        obtain ⟨e, he⟩ := hlive rfl
        cases he
    · rintro ⟨⟨e, he⟩, -⟩
      cases he
  | ok e =>
    simp only []
    rw [answered_respond, posts_iff hserialized]
    exact ⟨fun h => ⟨⟨e, rfl⟩, h⟩, fun h => h.2⟩

/-- `const e = new Error("x"); e.self = e`. -/
def selfHeap : Heap Unit := fun _ =>
  { newError "x" "Error: x" with own := (newError "x" "Error: x").own.set "self" ⟨true, .value (.ref ())⟩ }

/-- A stack of ten thousand frames; everything but a symbol is cloned. -/
def selfPlatform : Platform Unit where
  stack := 10000
  clones := fun v => match v with
    | .symbol _ => false
    | _ => true
  clones_primitive := by
    intro v hv
    cases v with
    | symbol description => exact absurd hv (by simp [HostValue.isPrimitive])
    | _ => rfl

theorem isJsonSafe_selfHeap (stack : Nat) : isJsonSafe selfHeap stack (.ref ()) = .error .stackOverflow := by
  induction stack with
  | zero => rfl
  | succ stack ih =>
    have hall : readAll (selfHeap ()).enumerated = some [.ref ()] := rfl
    have hkind : (selfHeap ()).kind = .ordinary := rfl
    simp only [isJsonSafe, hkind, hall, List.map_cons, List.map_nil, every, Slot.read, ih]

theorem captureErrorData_selfHeap (stack : Nat) :
    captureErrorData selfHeap stack (selfHeap ()) = .error .stackOverflow := by
  have hentries : (selfHeap ()).own.entries =
      [("stack", ⟨false, .value (.string "Error: x")⟩), ("message", ⟨false, .value (.string "x")⟩),
        ("self", ⟨true, .value (.ref ())⟩)] := rfl
  have hstack := carriedValue_carried selfHeap stack (by decide : "stack" ∈ carriedKeys)
  have hmessage := carriedValue_carried selfHeap stack (by decide : "message" ∈ carriedKeys)
  have hself : carriedValue selfHeap stack "self" ⟨true, .value (.ref ())⟩ = .error .stackOverflow := by
    rw [carriedValue_of_read selfHeap stack (by decide) rfl (by simp), isJsonSafe_selfHeap]
    rfl
  simp only [captureErrorData, hentries, captureFrom, hstack, hmessage, hself]
  rfl

/-- The walk of `isJsonSafe` over an error that refers to itself overflows any stack, inside the `catch`. -/
theorem answerThrown_selfHeap (p : Platform Unit) (disposed : Bool) :
    answerThrown selfHeap p disposed (.ref ()) = .rejected .stackOverflow := by
  have herror : instanceofError selfHeap (.ref ()) = some (selfHeap ()) := rfl
  have hname : (selfHeap ()).get "name" = some (.string "Error") := rfl
  have hmessage : (selfHeap ()).get "message" = some (.string "x") := rfl
  have htrace : (selfHeap ()).get "stack" = some (.string "Error: x") := rfl
  have hissues : (selfHeap ()).get "issues" = some .undefined := rfl
  have hserialized : serializeHostError selfHeap p.stack (.ref ()) = .error .stackOverflow := by
    simp only [serializeHostError, herror, serializeError_eq hname hmessage htrace hissues, captureErrorData_selfHeap]
    rfl
  rw [answerThrown, hserialized]

/-- A handler that throws such an error has its request left without a response. -/
theorem self_error_unanswered :
    answerThrown selfHeap selfPlatform false (.ref ()) = .rejected .stackOverflow ∧
      ¬ Answered false (answerThrown selfHeap selfPlatform false (.ref ())) := by
  have hrejected := answerThrown_selfHeap selfPlatform false
  refine ⟨hrejected, ?_⟩
  rintro ⟨-, hlive⟩
  obtain ⟨e, he⟩ := hlive rfl
  rw [hrejected] at he
  cases he

/-! ## Methods without a handler -/

theorem serializeError_newError (heap : Heap R) (stack : Nat) (message trace : String) :
    serializeError heap stack (newError message trace) =
      .ok ⟨.string "Error", .string message, .string trace, none, none⟩ := rfl

/-- A request for an unknown method is always answered. -/
theorem answered_answerUnknown (heap : Heap R) (p : Platform R) (disposed : Bool) (method trace : String) :
    Answered disposed (answerUnknown heap p disposed method trace) := by
  have hstring : ∀ s : String, p.clones (.string s) = true := fun s => p.clones_primitive _ rfl
  rw [answerUnknown, serializeError_newError]
  apply (answered_respond p disposed _).mpr
  intro _
  simp [SerializedError.posts, hstring]

end WorkflowEngine.Sandbox.HostErrors
