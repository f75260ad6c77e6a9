import WorkflowEngine.Lib.JsValue
import WorkflowEngine.Lib.Fallible
import WorkflowEngine.Sandbox.NetGuard

/-!
# The errors of the mail and the SQL dispatcher

`SqlError` and `MailError` with their messages, and how an error of the driver
becomes one of them. An error that has been thrown is a value: only its
properties are read.
-/

namespace WorkflowEngine.Sandbox.Dispatchers

open Lib
set_option autoImplicit false

/-! ## Properties of what a driver throws -/

/-- `typeof v === "object" && v !== null`. -/
def isObject : JsValue → Bool
  | .date _ | .array _ | .object _ | .builtin _ | .cycle => true
  | _ => false

def asString : JsValue → Option String
  | .string s => some s
  | _ => none

def asFiniteNumber : JsValue → Option Numeral
  | .number n => some n
  | .negZero => some .zero
  | _ => none

def isNumber : JsValue → Bool
  | .number _ | .negZero | .nonFinite => true
  | _ => false

def decimal (cs : List Char) : Nat := cs.foldl (fun n c => n * 10 + (c.toNat - '0'.toNat)) 0

/-- `Number.isInteger(v) && v > 0`, with the integer. The shortest numeral of an integer has only digits, or
from `1e21` on a positive exponent. -/
def positiveInteger : JsValue → Option Nat
  | .number n =>
    if n.text.head? = some '-' then none
    else if n.text.all Char.isDigit then
      if decimal n.text = 0 then none else some (decimal n.text)
    else if n.text.contains '+' then
      let mantissa := n.text.takeWhile (· ≠ 'e')
      let fraction := (mantissa.dropWhile (· ≠ '.')).drop 1
      let exponent := decimal ((n.text.dropWhile (· ≠ '+')).drop 1)
      some (decimal (mantissa.filter Char.isDigit) * 10 ^ (exponent - fraction.length))
    else none
  | _ => none

/-- `${n}` of a number. Of the numbers that are not finite the model knows `NaN` alone. -/
def numberText : JsValue → String
  | .number n => String.ofList n.text
  | .negZero => "0"
  | _ => "NaN"

/-- `Number.parseInt(text, 10)`, without the rounding of large numbers; `none` is `NaN`. -/
def parseInt (text : List Char) : Option Int :=
  let digits (cs : List Char) : Option Nat :=
    match cs.takeWhile Char.isDigit with
    | [] => none
    | ds => some (decimal ds)
  match text.dropWhile Char.isWhitespace with
  | '-' :: cs => (digits cs).map fun n => -(n : Int)
  | '+' :: cs => (digits cs).map fun n => (n : Int)
  | cs => (digits cs).map fun n => (n : Int)

/-! ## `SqlError` -/

inductive SqlErrorKind where
  | invalidInput | connection | timeout | auth | queryError
  deriving DecidableEq

def SqlErrorKind.toString : SqlErrorKind → String
  | .invalidInput => "invalid-input"
  | .connection => "connection"
  | .timeout => "timeout"
  | .auth => "auth"
  | .queryError => "query-error"

structure SqlErrorFields where
  kind : SqlErrorKind
  code : Option String := none
  severity : Option String := none
  position : Option Numeral := none
  detail : Option String := none
  hint : Option String := none
  schemaName : Option String := none
  tableName : Option String := none
  columnName : Option String := none
  constraintName : Option String := none
  dataTypeName : Option String := none
  deriving DecidableEq

structure SqlError extends SqlErrorFields where
  message : String
  deriving DecidableEq

/-- A string that a truth test lets through. -/
def nonEmpty (s : Option String) : Option String := s.filter (· ≠ "")

def SqlErrorFields.buildMessage (o : SqlErrorFields) : String :=
  let head := o.kind.toString
  let head := match nonEmpty o.code with
    | some code => head ++ " (" ++ code ++ ")"
    | none => head
  let head := match nonEmpty o.severity with
    | some severity => if severity ≠ "ERROR" then head ++ " [" ++ severity ++ "]" else head
    | none => head
  let suffix := match nonEmpty o.detail with
    | some detail => ": " ++ detail
    | none => ""
  let suffix := match nonEmpty o.hint with
    | some hint => suffix ++ " (hint: " ++ hint ++ ")"
    | none => suffix
  head ++ suffix

/-- `new SqlError(options)`. -/
def SqlError.make (o : SqlErrorFields) (message : Option String) : SqlError :=
  { o with message := message.getD o.buildMessage }

def SqlError.invalidInput (message : String) : SqlError := .make { kind := .invalidInput } (some message)

def isUpper (c : Char) : Bool := 'A' ≤ c && c ≤ 'Z'

def classifySqlKind (code severity : Option String) : SqlErrorKind :=
  match code with
  | none => if severity = none then .connection else .queryError
  | some code =>
    if code.toList.head?.any isUpper then
      if code = "CONNECT_TIMEOUT" ∨ code = "IDLE_TIMEOUT" then .timeout
      else if "CONNECTION_".toList.isPrefixOf code.toList then .connection
      else .queryError
    else if code = "57014" then .timeout
    else
      let cls := String.ofList (code.toList.take 2)
      if cls = "08" then .connection
      else if cls = "28" then .auth
      else if cls = "53" then .connection
      else .queryError

def shapePosition : JsValue → Option Numeral
  | .string text => (parseInt text.toList).map .ofInt
  | v => asFiniteNumber v

def shapeDriverError (e : JsValue) : SqlErrorFields :=
  let code := nonEmpty (asString (e.get "code"))
  let severity := asString (e.get "severity")
  { kind := classifySqlKind code severity
    code := code
    severity := severity
    position := shapePosition (e.get "position")
    detail := asString (e.get "detail")
    hint := asString (e.get "hint")
    schemaName := asString (e.get "schema_name")
    tableName := asString (e.get "table_name")
    columnName := asString (e.get "column_name")
    constraintName := asString (e.get "constraint_name")
    dataTypeName := asString (e.get "data_type_name") }

/-! ## `MailError` -/

inductive MailErrorKind where
  | invalidInput | auth | recipientRejected | messageRejected | connection | timeout
  deriving DecidableEq

def MailErrorKind.toString : MailErrorKind → String
  | .invalidInput => "invalid-input"
  | .auth => "auth"
  | .recipientRejected => "recipient-rejected"
  | .messageRejected => "message-rejected"
  | .connection => "connection"
  | .timeout => "timeout"

structure MailErrorFields where
  kind : MailErrorKind
  code : Option String := none
  responseCode : Option JsValue := none
  response : Option String := none

structure MailError extends MailErrorFields where
  message : String

def MailErrorFields.buildMessage (o : MailErrorFields) : String :=
  let head := match nonEmpty o.code with
    | some code => o.kind.toString ++ " (" ++ code ++ ")"
    | none => o.kind.toString
  let suffix := match o.responseCode, nonEmpty o.response with
    | some responseCode, some response => ": " ++ numberText responseCode ++ " " ++ response
    | some responseCode, none => ": " ++ numberText responseCode
    | none, some response => ": " ++ response
    | none, none => ""
  head ++ suffix

/-- `new MailError(options)`. -/
def MailError.make (o : MailErrorFields) (message : Option String) : MailError :=
  { o with message := message.getD o.buildMessage }

def MailError.invalidInput (message : String) : MailError := .make { kind := .invalidInput } (some message)

def classifyMailKind (code command : Option String) : MailErrorKind :=
  if code = some "EAUTH" then .auth
  else if code = some "ETIMEDOUT" ∨ code = some "ETIME" then .timeout
  else if code = some "ECONNECTION" ∨ code = some "ECONNREFUSED" ∨ code = some "EDNS" ∨ code = some "ESOCKET" then
    .connection
  else if code = some "EENVELOPE" then .recipientRejected
  else if code = some "EMESSAGE" ∨ command = some "DATA" then .messageRejected
  else .connection

def classifyMailError (e : JsValue) : MailErrorFields :=
  let code := asString (e.get "code")
  { kind := classifyMailKind code (asString (e.get "command"))
    code := code
    responseCode := if isNumber (e.get "responseCode") then some (e.get "responseCode") else none
    response := asString (e.get "response") }

/-! ## What can be thrown -/

/-- `engine` is an error of the language itself, `foreign` whatever a third-party package throws. -/
inductive DispatchError where
  | sql (e : SqlError)
  | mail (e : MailError)
  | net (e : NetGuard.NetError)
  | engine (name message : String)
  | foreign (value : JsValue)

/-- The error as the value whose properties the shaping reads. -/
def DispatchError.value : DispatchError → JsValue
  | .engine name message => .builtin [("name", .string name), ("message", .string message)]
  | .foreign value => value
  | .sql e => .builtin [("name", .string "SqlError"), ("message", .string e.message)]
  | .mail e => .builtin [("name", .string "MailError"), ("message", .string e.message)]
  | .net _ => .builtin [("name", .string "Error")]

/-! ## Checks that both dispatchers make -/

section Checks
variable (fail : String → DispatchError)

/-- What has been read of a field, or the refusal. -/
def checkRequired {α : Type} (read : Option α) (message : String) : Except DispatchError α :=
  match read with
  | some a => .ok a
  | none => .error (fail message)

def checkNonEmptyString (value : JsValue) (path : String) : Except DispatchError String :=
  checkRequired fail (nonEmpty (asString value)) (path ++ " must be a non-empty string")

/-- An optional field: what it has to be, and how it is read. -/
def checkOptional {α : Type} (read : JsValue → Option α) (expected : String) (value : JsValue) (path : String) :
    Except DispatchError (Option α) :=
  match value with
  | .undefined => .ok none
  | value => (checkRequired fail (read value) (path ++ " must be " ++ expected)).map some

variable {fail} {P : DispatchError → Prop}

theorem onlyThrows_checkRequired (h : ∀ message, P (fail message)) {α : Type} (read : Option α)
    (message : String) : OnlyThrows P (checkRequired fail read message) := by
  unfold checkRequired
  split
  · exact .ok _
  · exact .error (h _)

theorem onlyThrows_checkNonEmptyString (h : ∀ message, P (fail message)) (value : JsValue) (path : String) :
    OnlyThrows P (checkNonEmptyString fail value path) :=
  onlyThrows_checkRequired h _ _

theorem onlyThrows_checkOptional (h : ∀ message, P (fail message)) {α : Type} (read : JsValue → Option α)
    (expected : String) (value : JsValue) (path : String) :
    OnlyThrows P (checkOptional fail read expected value path) := by
  unfold checkOptional
  split
  · exact .ok _
  · exact (onlyThrows_checkRequired h _ _).map _

end Checks

/-! ## What may leave a dispatcher -/

/-- A `SqlError` with the fields of its class and no text from the driver but the curated fields: the message is
a validator's, or made of the fields. -/
def SqlError.Curated (e : SqlError) : Prop :=
  (∃ message, e = .invalidInput message) ∨ (e.kind ≠ .invalidInput ∧ e.message = e.toSqlErrorFields.buildMessage)

def MailError.Curated (e : MailError) : Prop :=
  (∃ message, e = .invalidInput message) ∨ (e.kind ≠ .invalidInput ∧ e.message = e.toMailErrorFields.buildMessage)

theorem classifySqlKind_ne (code severity : Option String) : classifySqlKind code severity ≠ .invalidInput := by
  unfold classifySqlKind
  dsimp only
  intro h
  repeat' split at h
  all_goals cases h

theorem curated_shapeDriverError (e : JsValue) : (SqlError.make (shapeDriverError e) none).Curated :=
  Or.inr ⟨classifySqlKind_ne _ _, rfl⟩

theorem classifyMailKind_ne (code command : Option String) : classifyMailKind code command ≠ .invalidInput := by
  unfold classifyMailKind
  intro h
  repeat' split at h
  all_goals cases h

theorem curated_classifyMailError (e : JsValue) : (MailError.make (classifyMailError e) none).Curated :=
  Or.inr ⟨classifyMailKind_ne _ _, rfl⟩

/-- The properties of a driver's error that `shapeDriverError` reads. -/
def sqlErrorKeys : List String :=
  ["code", "severity", "position", "detail", "hint", "schema_name", "table_name", "column_name",
    "constraint_name", "data_type_name"]

/-- Nothing else of a driver's error comes through, its message and its stack least of all. -/
theorem shapeDriverError_congr {e e' : JsValue} (h : ∀ key ∈ sqlErrorKeys, e.get key = e'.get key) :
    shapeDriverError e = shapeDriverError e' := by
  simp only [sqlErrorKeys, List.forall_mem_cons, List.not_mem_nil, false_imp_iff, implies_true, and_true] at h
  obtain ⟨hcode, hseverity, hposition, hdetail, hhint, hschema, htable, hcolumn, hconstraint, htype⟩ := h
  simp only [shapeDriverError, hcode, hseverity, hposition, hdetail, hhint, hschema, htable, hcolumn, hconstraint,
    htype]

def mailErrorKeys : List String := ["code", "responseCode", "response", "command"]

theorem classifyMailError_congr {e e' : JsValue} (h : ∀ key ∈ mailErrorKeys, e.get key = e'.get key) :
    classifyMailError e = classifyMailError e' := by
  simp only [mailErrorKeys, List.forall_mem_cons, List.not_mem_nil, false_imp_iff, implies_true, and_true] at h
  obtain ⟨hcode, hresponseCode, hresponse, hcommand⟩ := h
  simp only [classifyMailError, hcode, hresponseCode, hresponse, hcommand]

end WorkflowEngine.Sandbox.Dispatchers
