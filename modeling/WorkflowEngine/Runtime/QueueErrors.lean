import WorkflowEngine.Runtime.ScrubbedProtocol

/-!
# Queue errors on their way to the guest

A queue handler of the main thread throws a `QueueError`. `serializeHostError`
puts it on the wire, `errorFromSerialized` makes an `Error` of it in the worker
and `mapHostError` of the queue plugin turns that into the error the guest sees.
The message port carries every `JsValue` as it is.
-/

namespace WorkflowEngine.Runtime.QueueErrors

open Lib QueueHost SecretsPlugin
set_option autoImplicit false

/-! ## The main thread -/

def codeText : QueueErrorCode → String
  | .itemTooLarge => "queue.itemTooLarge"
  | .keyTooLarge => "queue.keyTooLarge"
  | .full => "queue.full"
  | .schemaMismatch => "queue.schemaMismatch"
  | .gone => "queue.gone"
  | .notDeclared => "queue.notDeclared"

/-- An `Error` object; `props` are its own properties beside name, message and stack. -/
structure JsError where
  name : String
  message : String
  stack : Option String
  props : OrderedMap String JsValue

/-- The error that `new QueueError(code, message, item)` of `queue-store.ts` throws. -/
def thrown (e : QueueError) (stack : Option String) : JsError where
  name := "QueueError"
  message := e.message
  stack := stack
  props :=
    let props := OrderedMap.empty.set "code" (.string (codeText e.code))
    match e.item with
    | none => props
    | some item => props.set "item" item

mutual

/-- The walk of `isJsonSafe`; a reference cycle overflows the stack (`none`). `every` stops at the
first value that is not safe. -/
def isJsonSafe : JsValue → Option Bool
  | .null | .string _ | .number _ | .negZero | .nonFinite | .bool _ => some true
  | .array items => everyItem items
  | .object fields => everyField fields
  | .builtin fields => everyField fields
  | .date _ => some true
  | .undefined | .bigint _ => some false
  | .cycle => none

def everyItem : List JsValue → Option Bool
  | [] => some true
  | item :: items =>
    match isJsonSafe item with
    | some true => everyItem items
    | other => other

def everyField : List (String × JsValue) → Option Bool
  | [] => some true
  | (_, value) :: fields =>
    match isJsonSafe value with
    | some true => everyField fields
    | other => other

end

/-- The keys that the loop of `captureErrorData` passes over. -/
def carriedElsewhere : List String := ["message", "stack", "name", "issues"]

def captureProps : List (String × JsValue) → Option (List (String × JsValue))
  | [] => some []
  | (key, value) :: props =>
    if key ∈ carriedElsewhere then captureProps props
    else
      -- `undefined` has no test of its own here: it is not JSON safe
      match isJsonSafe value with
      | none => none
      | some false => captureProps props
      | some true => (captureProps props).map ((key, value) :: ·)

def captureErrorData (err : JsError) : Option (Option JsValue) :=
  (captureProps err.props.entries).map fun data =>
    if data = [] then none else some (.object data)

def readProp (err : JsError) (key : String) : Option JsValue :=
  match err.props.get? key with
  | some .undefined => none
  | value => value

def serializeHostError (err : JsError) : Option SerializedError :=
  (captureErrorData err).map fun data =>
    { name := err.name
      message := err.message
      stack := err.stack.getD ""
      issues := readProp err "issues"
      data := data }

/-! ## The worker -/

/-- `e[key] = value` on an `Error`. -/
def JsError.assign (e : JsError) (key : String) (value : JsValue) : JsError :=
  match key, value with
  | "name", .string s => { e with name := s }
  | "message", .string s => { e with message := s }
  | "stack", .string s => { e with stack := some s }
  | _, _ => { e with props := e.props.set key value }

/-- `Object.entries` of what stands under `data`. -/
def dataEntries : Option JsValue → List (String × JsValue)
  | some (.object fields) => fields
  | _ => []

def errorFromSerialized (err : SerializedError) : JsError :=
  let e : JsError := ⟨err.name, err.message, some err.stack, .empty⟩
  let e := match err.issues with
    | none => e
    | some issues => e.assign "issues" issues
  (dataEntries err.data).foldl (fun e p => e.assign p.1 p.2) e

/-- `QUEUE_ERROR_CODES` of the queue worker. -/
def queueErrorCodes : List QueueErrorCode :=
  [.itemTooLarge, .full, .schemaMismatch, .gone, .notDeclared]

def readCode (err : JsError) : Option QueueErrorCode :=
  match readProp err "code" with
  | some (.string code) => queueErrorCodes.find? fun c => codeText c = code
  | _ => none

def mapHostError (err : JsError) : QueueError :=
  let recognised := if err.name = "QueueError" then readCode err else none
  match recognised with
  | some code => ⟨code, err.message, readProp err "item"⟩
  | none => ⟨.gone, err.message, none⟩

/-- The error of the guest for the error `err` that the host handler threw. -/
def received (err : JsError) : Option QueueError :=
  (serializeHostError err).map fun wire => mapHostError (errorFromSerialized wire)

/-! ## The filter lets JSON through -/

mutual

theorem isJsonSafe_ofJson : ∀ j : JsonValue, isJsonSafe (.ofJson j) = some true
  | .null => rfl
  | .bool _ => rfl
  | .number _ => rfl
  | .string _ => rfl
  | .array items => everyItem_ofJson items
  | .object fields => everyField_ofJson fields

theorem everyItem_ofJson : ∀ items : List JsonValue, everyItem (itemsOfJson items) = some true
  | [] => rfl
  | item :: items => by
    rw [itemsOfJson, everyItem, isJsonSafe_ofJson item]
    exact everyItem_ofJson items

theorem everyField_ofJson : ∀ fields : List (String × JsonValue),
    everyField (fieldsOfJson fields) = some true
  | [] => rfl
  | (_, value) :: fields => by
    rw [fieldsOfJson, everyField, isJsonSafe_ofJson value]
    exact everyField_ofJson fields

end

theorem ofJson_ne_undefined (j : JsonValue) : JsValue.ofJson j ≠ .undefined := by
  intro h
  cases j <;> cases h

theorem captureProps_cons {key : String} {value : JsValue} {props : List (String × JsValue)}
    (hkey : key ∉ carriedElsewhere) (hsafe : isJsonSafe value = some true) :
    captureProps ((key, value) :: props) = (captureProps props).map ((key, value) :: ·) := by
  rw [captureProps, if_neg hkey, hsafe]

/-- The queue error of the host with the code, the message and the JSON item. -/
def hostError (code : QueueErrorCode) (message : String) (item : Option JsonValue) : QueueError :=
  ⟨code, message, item.map .ofJson⟩

theorem thrown_props_entries (code : QueueErrorCode) (message : String) (item : Option JsonValue)
    (stack : Option String) :
    (thrown (hostError code message item) stack).props.entries =
      ("code", .string (codeText code)) ::
        (item.map fun j => ("item", JsValue.ofJson j)).toList := by
  cases item with
  | none => rfl
  | some j => rfl

theorem captureErrorData_thrown (code : QueueErrorCode) (message : String) (item : Option JsonValue)
    (stack : Option String) :
    captureErrorData (thrown (hostError code message item) stack) =
      some (some (.object (("code", .string (codeText code)) ::
        (item.map fun j => ("item", JsValue.ofJson j)).toList))) := by
  have htail : captureProps (item.map fun j => ("item", JsValue.ofJson j)).toList =
      some (item.map fun j => ("item", JsValue.ofJson j)).toList := by
    cases item with
    | none => rfl
    | some j =>
      apply (captureProps_cons (by decide) (isJsonSafe_ofJson j)).trans
      rfl
  rw [captureErrorData, thrown_props_entries,
    captureProps_cons (by decide) rfl, htail]
  rfl

theorem serializeHostError_thrown (code : QueueErrorCode) (message : String)
    (item : Option JsonValue) (stack : Option String) :
    serializeHostError (thrown (hostError code message item) stack) =
      some ⟨"QueueError", message, stack.getD "", none, some (.object
        (("code", .string (codeText code)) :: (item.map fun j => ("item", JsValue.ofJson j)).toList))⟩ := by
  have hissues : readProp (thrown (hostError code message item) stack) "issues" = none := by
    cases item with
    | none => rfl
    | some j => rfl
  rw [serializeHostError, captureErrorData_thrown, hissues]
  rfl

/-! ## The error of the worker -/

/-- What `errorFromSerialized` makes of the wire form of a queue error. -/
theorem errorFromSerialized_thrown (code : QueueErrorCode) (message stack : String)
    (item : Option JsonValue) :
    let e := errorFromSerialized ⟨"QueueError", message, stack, none, some (.object
      (("code", .string (codeText code)) :: (item.map fun j => ("item", JsValue.ofJson j)).toList))⟩
    e.name = "QueueError" ∧ e.message = message ∧
      readProp e "code" = some (.string (codeText code)) ∧
      readProp e "item" = item.map .ofJson := by
  cases item with
  | none => exact ⟨rfl, rfl, rfl, rfl⟩
  | some j =>
    refine ⟨rfl, rfl, rfl, ?_⟩
    have hitem : readProp (errorFromSerialized ⟨"QueueError", message, stack, none, some (.object
        [("code", .string (codeText code)), ("item", .ofJson j)])⟩) "item" =
          match some (JsValue.ofJson j) with
          | some .undefined => none
          | value => value := rfl
    apply hitem.trans
    split
    · rename_i hundefined
      exact absurd (Option.some.inj hundefined) (ofJson_ne_undefined j)
    · rfl

theorem find_queueErrorCodes (code : QueueErrorCode) :
    (queueErrorCodes.find? fun c => codeText c = codeText code) =
      if code = .keyTooLarge then none else some code := by
  cases code <;> decide

theorem received_thrown (code : QueueErrorCode) (message : String) (item : Option JsonValue)
    (stack : Option String) :
    received (thrown (hostError code message item) stack) =
      some (if code = .keyTooLarge then ⟨.gone, message, none⟩ else hostError code message item) := by
  obtain ⟨hname, hmessage, hcode, hitem⟩ :=
    errorFromSerialized_thrown code message (stack.getD "") item
  rw [received, serializeHostError_thrown, Option.map_some, mapHostError, hname, if_pos rfl, readCode,
    hcode]
  dsimp only
  rw [find_queueErrorCodes, hmessage, hitem]
  by_cases hkey : code = .keyTooLarge
  · simp [hkey]
  · simp [hkey, hostError]

/-- The round trip gives the guest the error that the host threw for every code but the one that
`QUEUE_ERROR_CODES` lacks. -/
theorem received_eq_thrown_iff (code : QueueErrorCode) (message : String) (item : Option JsonValue)
    (stack : Option String) :
    received (thrown (hostError code message item) stack) = some (hostError code message item) ↔
      code ≠ .keyTooLarge := by
  rw [received_thrown]
  by_cases hkey : code = .keyTooLarge
  · simp [hkey, hostError]
  · simp [hkey]

/-- The error of `assertKeyWithinCap` for a key that is one byte over the cap. -/
def longKeyError : QueueError :=
  ⟨.keyTooLarge, "queue \"jobs\" key exceeds size cap: 129 > 128 bytes", none⟩

theorem longKeyError_arrives_as_gone :
    (received (thrown longKeyError none)).map (·.code) = some .gone ∧
      received (thrown longKeyError none) ≠ some longKeyError := by
  have hgone : (received (thrown longKeyError none)).map (·.code) = some .gone := by decide
  refine ⟨hgone, ?_⟩
  intro h
  rw [h] at hgone
  cases hgone

end WorkflowEngine.Runtime.QueueErrors
