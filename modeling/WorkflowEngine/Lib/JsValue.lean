import Mathlib.Data.List.TakeWhile
import Mathlib.Tactic.IntervalCases
import WorkflowEngine.Lib.JsonText

/-!
# Values that cross a message port

The values that a structured clone can carry, as trees: a node that is shared
occurs several times, and a reference back to an enclosing node is `cycle`.
Objects list their own enumerable properties in property order. `builtin` is an
object of a class of its own (a map, a set, a regular expression, an error, a
buffer), of which only these properties are seen. Finite numbers are known by
their shortest numeral.
-/

namespace WorkflowEngine.Lib

set_option autoImplicit false

inductive JsValue where
  | undefined
  | null
  | bool (b : Bool)
  | number (n : Numeral)
  | negZero
  | nonFinite
  | bigint (n : Int)
  | string (s : String)
  | date (iso : Option String)
  | array (items : List JsValue)
  | object (fields : List (String × JsValue))
  | builtin (fields : List (String × JsValue))
  | cycle

def Numeral.zero : Numeral := ⟨['0'], by decide⟩

/-! ## Integers -/

theorem toDigits_ten_head {n : Nat} (hn : 0 < n) :
    ∃ d ds, Nat.toDigits 10 n = d :: ds ∧ d ≠ '0' := by
  induction n using Nat.strongRecOn with
  | ind n ih =>
    by_cases hlt : n < 10
    · have hdigit : n.digitChar ≠ '0' := by
        interval_cases n <;> decide
      exact ⟨n.digitChar, [], Nat.toDigits_of_lt_base hlt, hdigit⟩
    · obtain ⟨d, ds, hds, hd⟩ := ih (n / 10) (by omega) (by omega)
      refine ⟨d, ds ++ [(n % 10).digitChar], ?_, hd⟩
      rw [Nat.toDigits_of_base_le (by decide) (by omega), hds]
      rfl

theorem isUnsigned_toDigits (n : Nat) : isUnsigned (Nat.toDigits 10 n) = true := by
  rcases Nat.eq_zero_or_pos n with rfl | hn
  · rfl
  · obtain ⟨d, ds, hds, hd⟩ := toDigits_ten_head hn
    have hdigit : ∀ c ∈ d :: ds, c.isDigit = true := by
      intro c hc
      rw [← hds] at hc
      exact Nat.isDigit_of_mem_toDigits (by decide) (by decide) hc
    have hdrop : ds.dropWhile Char.isDigit = [] := by
      rw [List.dropWhile_eq_nil_iff]
      exact fun c hc => hdigit c (List.mem_cons_of_mem d hc)
    rw [hds]
    unfold isUnsigned
    split
    · rename_i h
      exact absurd (List.cons.inj h).1 hd
    · rename_i h
      obtain ⟨rfl, rfl⟩ := List.cons.inj h
      rw [hdigit d List.mem_cons_self, hdrop]
      rfl
    · rename_i h
      cases h

theorem all_numeralChar_toDigits (n : Nat) : (Nat.toDigits 10 n).all numeralChar = true := by
  rw [List.all_eq_true]
  intro c hc
  have hdigit : c.isDigit = true := Nat.isDigit_of_mem_toDigits (by decide) (by decide) hc
  simp [numeralChar, hdigit]

theorem isNumeral_toDigits (n : Nat) : isNumeral (Nat.toDigits 10 n) = true := by
  have hsign : ∀ cs, Nat.toDigits 10 n ≠ '-' :: cs := by
    intro cs h
    have hdigit : '-'.isDigit = true := by
      apply Nat.isDigit_of_mem_toDigits (b := 10) (n := n) (by decide) (by decide)
      rw [h]
      exact List.mem_cons_self
    exact absurd hdigit (by decide)
  unfold isNumeral
  rw [all_numeralChar_toDigits]
  have hne : (Nat.toDigits 10 n).isEmpty = false := by
    rw [List.isEmpty_eq_false_iff]
    exact Nat.toDigits_ne_nil
  rw [hne]
  simp only [Bool.not_false, Bool.and_self, Bool.true_and]
  exact isUnsigned_toDigits n

def Numeral.ofNat (n : Nat) : Numeral := ⟨Nat.toDigits 10 n, isNumeral_toDigits n⟩

theorem Numeral.ofNat_injective : Function.Injective Numeral.ofNat := by
  intro m n h
  have htext : Nat.toDigits 10 m = Nat.toDigits 10 n := congrArg Numeral.text h
  rw [← Nat.ofDigitChars_ten_toDigits (n := m), htext, Nat.ofDigitChars_ten_toDigits]

def Numeral.ofInt : Int → Numeral
  | .ofNat n => .ofNat n
  | .negSucc n => ⟨'-' :: Nat.toDigits 10 (n + 1), by
      simp [isNumeral, all_numeralChar_toDigits, isUnsigned_toDigits, numeralChar]⟩

/-! ## Properties -/

/-- `value[key]`, with `undefined` where there is no such property. -/
def JsValue.get (key : String) : JsValue → JsValue
  | .object fields => (fields.lookup key).getD .undefined
  | .builtin fields => (fields.lookup key).getD .undefined
  | _ => .undefined

/-- `value[i]` of an array. -/
def JsValue.at (i : Nat) : JsValue → JsValue
  | .array items => items[i]?.getD .undefined
  | _ => .undefined

/-! ## JSON -/

mutual
/-- The serialisation of `JSON.stringify`: `none` for a value without a JSON form, an error where
it throws a `TypeError`. -/
def JsValue.toJson : JsValue → Except Unit (Option JsonValue)
  | .undefined => .ok none
  | .null => .ok (some .null)
  | .bool b => .ok (some (.bool b))
  | .number n => .ok (some (.number n))
  | .negZero => .ok (some (.number Numeral.zero))
  | .nonFinite => .ok (some .null)
  | .bigint _ => .error ()
  | .string s => .ok (some (.string s))
  | .date (some iso) => .ok (some (.string iso))
  | .date none => .ok (some .null)
  | .array items => (itemsToJson items).map fun items => some (.array items)
  | .object fields => (fieldsToJson fields).map fun fields => some (.object fields)
  | .builtin fields => (fieldsToJson fields).map fun fields => some (.object fields)
  | .cycle => .error ()

def itemsToJson : List JsValue → Except Unit (List JsonValue)
  | [] => .ok []
  | item :: items =>
    match item.toJson with
    | .error e => .error e
    | .ok value => (itemsToJson items).map fun items => value.getD .null :: items

def fieldsToJson : List (String × JsValue) → Except Unit (List (String × JsonValue))
  | [] => .ok []
  | (key, field) :: fields =>
    match field.toJson with
    | .error e => .error e
    | .ok none => fieldsToJson fields
    | .ok (some value) => (fieldsToJson fields).map fun fields => (key, value) :: fields
end

mutual
def JsValue.ofJson : JsonValue → JsValue
  | .null => .null
  | .bool b => .bool b
  | .number n => .number n
  | .string s => .string s
  | .array items => .array (itemsOfJson items)
  | .object fields => .object (fieldsOfJson fields)

def itemsOfJson : List JsonValue → List JsValue
  | [] => []
  | item :: items => .ofJson item :: itemsOfJson items

def fieldsOfJson : List (String × JsonValue) → List (String × JsValue)
  | [] => []
  | (key, value) :: fields => (key, .ofJson value) :: fieldsOfJson fields
end

/-- `JSON.stringify(value)`. -/
def stringify (v : JsValue) : Except Unit (Option (List Char)) :=
  v.toJson.map fun j => j.map JsonValue.print

/-- `JSON.parse(text)`. -/
def jsonParse (text : List Char) : Option JsValue := (parseJson text).map .ofJson

/-- A value that JSON can express. -/
def JsValue.IsJson (v : JsValue) : Prop := ∃ j, v = .ofJson j

mutual
theorem toJson_ofJson : ∀ j : JsonValue, (JsValue.ofJson j).toJson = .ok (some j)
  | .null => rfl
  | .bool _ => rfl
  | .number _ => rfl
  | .string _ => rfl
  | .array items => by
    simp only [JsValue.ofJson, JsValue.toJson, itemsToJson_itemsOfJson items]
    rfl
  | .object fields => by
    simp only [JsValue.ofJson, JsValue.toJson, fieldsToJson_fieldsOfJson fields]
    rfl

theorem itemsToJson_itemsOfJson : ∀ items : List JsonValue,
    itemsToJson (itemsOfJson items) = .ok items
  | [] => rfl
  | item :: items => by
    simp only [itemsOfJson, itemsToJson, toJson_ofJson item, itemsToJson_itemsOfJson items]
    rfl

theorem fieldsToJson_fieldsOfJson : ∀ fields : List (String × JsonValue),
    fieldsToJson (fieldsOfJson fields) = .ok fields
  | [] => rfl
  | (key, value) :: fields => by
    simp only [fieldsOfJson, fieldsToJson, toJson_ofJson value, fieldsToJson_fieldsOfJson fields]
    rfl
end

/-! ## Values that JSON cannot express -/

mutual
/-- No bigint and no reference back to an enclosing node. -/
def JsValue.plain : JsValue → Bool
  | .bigint _ => false
  | .cycle => false
  | .array items => plainItems items
  | .object fields => plainFields fields
  | .builtin fields => plainFields fields
  | _ => true

def plainItems : List JsValue → Bool
  | [] => true
  | item :: items => item.plain && plainItems items

def plainFields : List (String × JsValue) → Bool
  | [] => true
  | (_, field) :: fields => field.plain && plainFields fields
end

mutual
/-- `JSON.stringify` throws exactly on a bigint or a cycle. -/
theorem toJson_isOk : ∀ v : JsValue, v.toJson.isOk = v.plain
  | .undefined | .null | .bool _ | .number _ | .negZero | .nonFinite | .bigint _ | .string _
  | .date (some _) | .date none | .cycle => rfl
  | .array items => by
    simp only [JsValue.toJson, JsValue.plain, ← itemsToJson_isOk items]
    cases itemsToJson items <;> rfl
  | .object fields => by
    simp only [JsValue.toJson, JsValue.plain, ← fieldsToJson_isOk fields]
    cases fieldsToJson fields <;> rfl
  | .builtin fields => by
    simp only [JsValue.toJson, JsValue.plain, ← fieldsToJson_isOk fields]
    cases fieldsToJson fields <;> rfl

theorem itemsToJson_isOk : ∀ items : List JsValue, (itemsToJson items).isOk = plainItems items
  | [] => rfl
  | item :: items => by
    simp only [itemsToJson, plainItems, ← toJson_isOk item, ← itemsToJson_isOk items]
    cases item.toJson with
    | error e => rfl
    | ok value => cases itemsToJson items <;> rfl

theorem fieldsToJson_isOk : ∀ fields : List (String × JsValue),
    (fieldsToJson fields).isOk = plainFields fields
  | [] => rfl
  | (key, field) :: fields => by
    simp only [fieldsToJson, plainFields, ← toJson_isOk field, ← fieldsToJson_isOk fields]
    cases field.toJson with
    | error e => rfl
    | ok value =>
      cases value with
      | none => cases fieldsToJson fields <;> rfl
      | some value => cases fieldsToJson fields <;> rfl
end

theorem stringify_isOk (v : JsValue) : (stringify v).isOk = v.plain := by
  rw [← toJson_isOk, stringify]
  cases v.toJson <;> rfl

theorem stringify_object_ne_none (fields : List (String × JsValue)) :
    stringify (.object fields) ≠ .ok none := by
  simp only [stringify, JsValue.toJson]
  cases fieldsToJson fields <;> rintro ⟨⟩

theorem plainFields_append (fields rest : List (String × JsValue)) :
    plainFields (fields ++ rest) = (plainFields fields && plainFields rest) := by
  induction fields with
  | nil => rfl
  | cons field fields ih => simp [plainFields, ih, Bool.and_assoc]

/-- `JSON.parse(JSON.stringify(value))`, where the text exists. -/
def jsonRoundTrip (v : JsValue) : Option JsValue :=
  match v.toJson with
  | .ok (some j) => some (.ofJson j)
  | _ => none

theorem jsonParse_of_stringify {v : JsValue} {text : List Char}
    (h : stringify v = .ok (some text)) : jsonParse text = jsonRoundTrip v := by
  unfold stringify at h
  unfold jsonRoundTrip
  cases hj : v.toJson with
  | error e =>
    rw [hj] at h
    cases h
  | ok j =>
    rw [hj] at h
    cases j with
    | none => cases h
    | some j =>
      cases h
      simp [jsonParse, parseJson_print]

theorem jsonRoundTrip_of_isJson {v : JsValue} (h : v.IsJson) : jsonRoundTrip v = some v := by
  obtain ⟨j, rfl⟩ := h
  simp [jsonRoundTrip, toJson_ofJson]

end WorkflowEngine.Lib
