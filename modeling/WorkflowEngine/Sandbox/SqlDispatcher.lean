import WorkflowEngine.Sandbox.CuratedErrors

/-!
# The SQL dispatcher

The host side of `executeSql`: the checks of the input, the connection facts, the
options of the driver, and the dispatch with its one `try` block. The parser of
URLs, the guard's resolver and the driver are parameters. Closing the handle
throws nothing, and the two logging functions of the descriptor catch what they
throw.
-/

namespace WorkflowEngine.Sandbox.SqlDispatcher

open Lib Dispatchers NetGuard
set_option autoImplicit false

/-! ## Input -/

def invalidInput (message : String) : DispatchError := .sql (.invalidInput message)

def invalid {α : Type} (message : String) : Except DispatchError α := .error (invalidInput message)

def assertNonEmptyString : JsValue → String → Except DispatchError String := checkNonEmptyString invalidInput

/-- What the message calls a value that is no parameter. -/
def describe : JsValue → String
  | .undefined => "undefined"
  | .bigint _ => "bigint"
  | .array _ => "[object Array]"
  | .date _ => "[object Date]"
  | _ => "[object Object]"

def assertParam (value : JsValue) (index : Nat) : Except DispatchError JsValue :=
  match value with
  | .null | .string _ | .number _ | .negZero | .nonFinite | .bool _ => .ok value
  | _ =>
    invalid (s!"params[{index}] must be string | number | boolean | null (got " ++ describe value ++ ")")

def assertString : JsValue → String → Except DispatchError (Option String) :=
  checkOptional invalidInput asString "a string"

def asBool : JsValue → Option Bool
  | .bool b => some b
  | _ => none

def assertBoolean : JsValue → String → Except DispatchError (Option Bool) :=
  checkOptional invalidInput asBool "a boolean"

def assertPositiveInteger : JsValue → String → Except DispatchError (Option Nat) :=
  checkOptional invalidInput positiveInteger "a positive integer"

structure SqlSslWire where
  ca : Option String := none
  cert : Option String := none
  key : Option String := none
  rejectUnauthorized : Option Bool := none
  servername : Option String := none
  deriving DecidableEq

inductive AuthorSsl where
  | flag (b : Bool)
  | object (wire : SqlSslWire)

def assertSslConfig (raw : JsValue) : Except DispatchError AuthorSsl :=
  match asBool raw with
  | some b => .ok (.flag b)
  | none =>
    if isObject raw then do
      let ca ← assertString (raw.get "ca") "connection.ssl.ca"
      let cert ← assertString (raw.get "cert") "connection.ssl.cert"
      let key ← assertString (raw.get "key") "connection.ssl.key"
      let rejectUnauthorized ←
        assertBoolean (raw.get "rejectUnauthorized") "connection.ssl.rejectUnauthorized"
      let servername ← assertString (raw.get "servername") "connection.ssl.servername"
      return .object ⟨ca, cert, key, rejectUnauthorized, servername⟩
    else invalid "connection.ssl must be a boolean or an object"

structure SqlConnectionObject where
  connectionString : Option String
  host : Option String
  port : Option Nat
  user : Option String
  password : Option String
  database : Option String
  ssl : Option AuthorSsl

inductive SqlConnection where
  | dsn (text : String)
  | object (fields : SqlConnectionObject)

def assertSsl : JsValue → Except DispatchError (Option AuthorSsl)
  | .undefined => .ok none
  | raw => (assertSslConfig raw).map some

def assertConnectionObject (raw : JsValue) : Except DispatchError SqlConnectionObject := do
  let connectionString ← assertString (raw.get "connectionString") "connection.connectionString"
  let host ← assertString (raw.get "host") "connection.host"
  let port ← assertPositiveInteger (raw.get "port") "connection.port"
  let user ← assertString (raw.get "user") "connection.user"
  let password ← assertString (raw.get "password") "connection.password"
  let database ← assertString (raw.get "database") "connection.database"
  let ssl ← assertSsl (raw.get "ssl")
  return ⟨connectionString, host, port, user, password, database, ssl⟩

def assertConnection (raw : JsValue) : Except DispatchError SqlConnection :=
  match asString raw with
  | some text => if text = "" then invalid "connection string must be non-empty" else .ok (.dsn text)
  | none =>
    if isObject raw then (assertConnectionObject raw).map .object
    else invalid "connection must be a string or object"

/-- `options.timeoutMs`, the one option there is. -/
def assertOptions : JsValue → Except DispatchError (Option Nat)
  | .undefined => .ok none
  | raw =>
    if isObject raw then assertPositiveInteger (raw.get "timeoutMs") "options.timeoutMs"
    else invalid "options must be an object if provided"

def assertParams : JsValue → Except DispatchError (List JsValue)
  | .undefined => .ok []
  | .array items => items.zipIdx.mapM fun p => assertParam p.1 p.2
  | _ => invalid "params must be an array if provided"

structure SqlInput where
  connection : SqlConnection
  query : String
  params : List JsValue
  timeoutMs : Option Nat

def assertInput (raw : JsValue) : Except DispatchError SqlInput :=
  if isObject raw then do
    let connection ← assertConnection (raw.get "connection")
    let query ← assertNonEmptyString (raw.get "query") "query"
    let params ← assertParams (raw.get "params")
    let timeoutMs ← assertOptions (raw.get "options")
    return ⟨connection, query, params, timeoutMs⟩
  else invalid "input must be an object"

/-! ## Connection inspection -/

structure Url where
  hostname : String
  pathname : String
  searchParams : List (String × String)

def databaseOf (url : Url) : String :=
  match url.pathname.toList with
  | '/' :: rest => String.ofList rest
  | _ => url.pathname

structure ConnectionFacts where
  hostname : String
  database : String

section Facts
variable (parseUrl : String → Option Url)

/-- `new URL(text)`, uncaught. -/
def newUrl (text : String) : Except DispatchError Url :=
  match parseUrl text with
  | some url => .ok url
  | none => .error (.engine "TypeError" "Invalid URL")

def extractHostnameFromDsn (dsn : String) : Except DispatchError String :=
  match parseUrl dsn with
  | none => invalid "connection string is not a valid URL (expected postgres://...)"
  | some url => if url.hostname = "" then invalid "connection string has no host" else .ok url.hostname

def extractConnectionFacts : SqlConnection → Except DispatchError ConnectionFacts
  | .dsn text => do
    let url ← newUrl parseUrl text
    if url.hostname = "" then invalid "connection string has no host" else .ok ⟨url.hostname, databaseOf url⟩
  | .object conn =>
    match nonEmpty conn.host with
    | some hostname => .ok ⟨hostname, conn.database.getD ""⟩
    | none =>
      match nonEmpty conn.connectionString with
      | none => do
        let hostname ← extractHostnameFromDsn parseUrl (conn.connectionString.getD "postgres://")
        return ⟨hostname, conn.database.getD ""⟩
      | some text => do
        let url ← newUrl parseUrl text
        let database := (nonEmpty conn.database).getD (databaseOf url)
        if url.hostname = "" then do
          let hostname ← extractHostnameFromDsn parseUrl text
          return ⟨hostname, database⟩
        else return ⟨url.hostname, database⟩

/-! ## The options of the driver -/

def defaultTimeoutMs : Nat := 30000

def maxTimeoutMs : Nat := 120000

def clampTimeout (requested : Option Nat) : Nat := min (requested.getD defaultTimeoutMs) maxTimeoutMs

inductive PgSsl where
  | off
  | config (wire : SqlSslWire)

def buildSsl (authorSsl : Option AuthorSsl) (originalHost : String) : Option PgSsl :=
  authorSsl.map fun
    | .flag false => .off
    | .flag true => .config { servername := some originalHost }
    | .object wire => .config { wire with servername := some originalHost }

def dsnTlsModesRequiringSsl : List String := ["require", "verify-ca", "verify-full", "prefer", "allow"]

def dsnRequestsTls (connectionString : Option String) : Bool :=
  match (nonEmpty connectionString).bind parseUrl with
  | none => false
  | some url =>
    let sslmode := (url.searchParams.lookup "sslmode").or (url.searchParams.lookup "ssl")
    (nonEmpty sslmode).any fun mode => dsnTlsModesRequiringSsl.contains mode.toLower

def SqlConnection.connString : SqlConnection → Option String
  | .dsn text => some text
  | .object conn => conn.connectionString

/-- The URL the driver is called with; without one it gets the options alone. -/
def SqlConnection.url (conn : SqlConnection) : Option String := nonEmpty conn.connString

def SqlConnection.authorSsl : SqlConnection → Option AuthorSsl
  | .dsn _ => none
  | .object conn => conn.ssl

structure PgOptions where
  max : Nat
  «prepare» : Bool
  host : String
  connectTimeout : Nat
  statementTimeout : String
  ssl : Option PgSsl
  port : Option Nat
  user : Option String
  password : Option String
  database : Option String

def pgOptions (input : SqlInput) (hostname validatedIp : String) : PgOptions :=
  let ssl := buildSsl input.connection.authorSsl hostname
  let ssl :=
    if ssl.isNone && dsnRequestsTls parseUrl input.connection.connString then
      some (.config { servername := some hostname, rejectUnauthorized := some false })
    else ssl
  let fields : SqlConnectionObject :=
    match input.connection with
    | .dsn _ => ⟨none, none, none, none, none, none, none⟩
    | .object conn => conn
  { max := 1
    «prepare» := false
    host := validatedIp
    connectTimeout := 10
    statementTimeout := toString (clampTimeout input.timeoutMs)
    ssl := ssl
    port := fields.port
    user := fields.user
    password := fields.password
    database := fields.database }

end Facts

/-! ## Coercion of what the driver returns -/

/-- A value in a row. Bytes are known by their base64 text, a date by its ISO form, a number that is not finite
and a function by its text. -/
inductive DriverValue where
  | null
  | undefined
  | string (s : String)
  | boolean (b : Bool)
  | number (n : Numeral)
  | notFinite (text : String)
  | bigint (n : Int)
  | date (iso : Option String)
  | bytes (base64 : String)
  | array (items : List DriverValue)
  | object (fields : List (String × DriverValue))
  | other (text : String)

mutual

def coerceValue : DriverValue → Except DispatchError JsonValue
  | .null => .ok .null
  | .undefined => .ok .null
  | .string s => .ok (.string s)
  | .boolean b => .ok (.bool b)
  | .number n => .ok (.number n)
  | .notFinite text => .ok (.string text)
  | .bigint n => .ok (.string (toString n))
  | .date (some iso) => .ok (.string iso)
  | .date none => .error (.engine "RangeError" "Invalid time value")
  | .bytes base64 => .ok (.string base64)
  | .array items => do return .array (← coerceItems items)
  | .object fields => do return .object (← coerceRow fields)
  | .other text => .ok (.string text)

def coerceItems : List DriverValue → Except DispatchError (List JsonValue)
  | [] => .ok []
  | v :: vs => do
    let v ← coerceValue v
    return v :: (← coerceItems vs)

/-- `out[k] = …` on an ordinary object makes no property of `__proto__`. -/
def coerceRow : List (String × DriverValue) → Except DispatchError (List (String × JsonValue))
  | [] => .ok []
  | (k, v) :: fields => do
    let v ← coerceValue v
    let fields ← coerceRow fields
    return if k = "__proto__" then fields else (k, v) :: fields

end

/-- What `sql.unsafe` resolves to; `rows` is absent where it is no array. -/
inductive RawResult where
  | nullish
  | result (rows : Option (List (List (String × DriverValue)))) (columns : Option (List (String × Numeral)))
      (count : Option Numeral)

structure SqlResult where
  rows : List (List (String × JsonValue))
  columns : List (String × Numeral)
  rowCount : Numeral

def coerceResult : RawResult → Except DispatchError SqlResult
  | .nullish => .error (.engine "TypeError" "Cannot read properties of undefined (reading 'columns')")
  | .result rows columns count => do
    let driverRows := rows.getD []
    let rows ← driverRows.mapM coerceRow
    return ⟨rows, columns.getD [], count.getD (.ofNat driverRows.length)⟩

def throwStructured : DispatchError → DispatchError
  | .sql e => .sql e
  | err => .sql (.make (shapeDriverError err.value) none)

/-! ## Dispatch -/

structure SqlEnv where
  parseUrl : String → Option Url
  parseAddress : String → Option IpAddress
  lookup : Lookup
  postgres : Option String → PgOptions → Except JsValue Unit
  runQuery : Option String → PgOptions → String → List JsValue → Except JsValue RawResult

section Dispatch
variable (env : SqlEnv)

/-- The `try` block. -/
def execute (input : SqlInput) (options : PgOptions) : Except DispatchError SqlResult := do
  let raw ← (env.runQuery input.connection.url options input.query input.params).mapError .foreign
  coerceResult raw

def dispatchSqlExecute (input : SqlInput) : Except DispatchError SqlResult := do
  let facts ← extractConnectionFacts env.parseUrl input.connection
  let validatedIp ← (assertHostIsPublic env.parseAddress env.lookup facts.hostname).mapError .net
  let options := pgOptions env.parseUrl input facts.hostname validatedIp
  (env.postgres input.connection.url options).mapError .foreign
  (execute env input options).mapError throwStructured

/-- The handler of the descriptor. -/
def executeSql (raw : JsValue) : Except DispatchError SqlResult := do
  let input ← assertInput raw
  dispatchSqlExecute env input

end Dispatch

/-! ## What leaves the dispatcher -/

def Curated (e : DispatchError) : Prop := ∃ err, e = .sql err ∧ err.Curated

theorem curated_invalidInput (message : String) : Curated (invalidInput message) :=
  ⟨_, rfl, Or.inl ⟨message, rfl⟩⟩

theorem curated_invalid {α : Type} (message : String) : OnlyThrows Curated (invalid message : Except DispatchError α) :=
  .error (curated_invalidInput message)

theorem curated_assertNonEmptyString (value : JsValue) (path : String) :
    OnlyThrows Curated (assertNonEmptyString value path) :=
  onlyThrows_checkNonEmptyString curated_invalidInput value path

theorem curated_assertParam (value : JsValue) (index : Nat) : OnlyThrows Curated (assertParam value index) := by
  unfold assertParam
  split
  all_goals first | exact .ok _ | exact curated_invalid _

theorem curated_assertOptional {α : Type} (read : JsValue → Option α) (expected : String) (value : JsValue)
    (path : String) : OnlyThrows Curated (checkOptional invalidInput read expected value path) :=
  onlyThrows_checkOptional curated_invalidInput read expected value path

theorem curated_assertSslConfig (raw : JsValue) : OnlyThrows Curated (assertSslConfig raw) := by
  unfold assertSslConfig
  split
  · exact .ok _
  · refine .ite (fun _ => ?_) fun _ => curated_invalid _
    refine .bind (curated_assertOptional _ _ _ _) fun ca _ => ?_
    refine .bind (curated_assertOptional _ _ _ _) fun cert _ => ?_
    refine .bind (curated_assertOptional _ _ _ _) fun key _ => ?_
    refine .bind (curated_assertOptional _ _ _ _) fun rejectUnauthorized _ => ?_
    exact .bind (curated_assertOptional _ _ _ _) fun servername _ => .ok _

theorem curated_assertSsl (raw : JsValue) : OnlyThrows Curated (assertSsl raw) := by
  unfold assertSsl
  split
  · exact .ok _
  · exact (curated_assertSslConfig raw).map _

theorem curated_assertConnectionObject (raw : JsValue) : OnlyThrows Curated (assertConnectionObject raw) := by
  unfold assertConnectionObject
  refine .bind (curated_assertOptional _ _ _ _) fun connectionString _ => ?_
  refine .bind (curated_assertOptional _ _ _ _) fun host _ => ?_
  refine .bind (curated_assertOptional _ _ _ _) fun port _ => ?_
  refine .bind (curated_assertOptional _ _ _ _) fun user _ => ?_
  refine .bind (curated_assertOptional _ _ _ _) fun password _ => ?_
  refine .bind (curated_assertOptional _ _ _ _) fun database _ => ?_
  exact .bind (curated_assertSsl _) fun ssl _ => .ok _

theorem curated_assertConnection (raw : JsValue) : OnlyThrows Curated (assertConnection raw) := by
  unfold assertConnection
  split
  · exact .ite (fun _ => curated_invalid _) fun _ => .ok _
  · exact .ite (fun _ => (curated_assertConnectionObject raw).map _) fun _ => curated_invalid _

theorem curated_assertParams (raw : JsValue) : OnlyThrows Curated (assertParams raw) := by
  unfold assertParams
  split
  · exact .ok _
  · exact .mapM fun p _ => curated_assertParam p.1 p.2
  · exact curated_invalid _

theorem curated_assertOptions (raw : JsValue) : OnlyThrows Curated (assertOptions raw) := by
  unfold assertOptions
  split
  · exact .ok _
  · exact .ite (fun _ => curated_assertOptional _ _ _ _) fun _ => curated_invalid _

/-- Bad input, at whatever depth, is a `SqlError`. -/
theorem curated_assertInput (raw : JsValue) : OnlyThrows Curated (assertInput raw) := by
  unfold assertInput
  refine .ite (fun _ => ?_) fun _ => curated_invalid _
  refine .bind (curated_assertConnection _) fun connection _ => ?_
  refine .bind (curated_assertNonEmptyString _ _) fun query _ => ?_
  refine .bind (curated_assertParams _) fun params _ => ?_
  exact .bind (curated_assertOptions _) fun timeoutMs _ => .ok _

/-! ### The connection facts -/

section Facts
variable (parseUrl : String → Option Url)

/-- The text that is parsed outside of a `try` is a URL. -/
def UrlParses : SqlConnection → Prop
  | .dsn text => (parseUrl text).isSome
  | .object conn => nonEmpty conn.host = none → ∀ text ∈ nonEmpty conn.connectionString, (parseUrl text).isSome

variable {parseUrl}

theorem curated_extractHostnameFromDsn (dsn : String) :
    OnlyThrows Curated (extractHostnameFromDsn parseUrl dsn) := by
  unfold extractHostnameFromDsn
  split
  · exact curated_invalid _
  · exact .ite (fun _ => curated_invalid _) fun _ => .ok _

theorem newUrl_of_isSome {text : String} (h : (parseUrl text).isSome = true) :
    ∃ url, newUrl parseUrl text = .ok url := by
  obtain ⟨url, hurl⟩ := Option.isSome_iff_exists.mp h
  exact ⟨url, by rw [newUrl, hurl]⟩

theorem newUrl_of_isNone {text : String} (h : ¬ (parseUrl text).isSome = true) :
    newUrl parseUrl text = .error (.engine "TypeError" "Invalid URL") := by
  rw [Option.not_isSome_iff_eq_none] at h
  rw [newUrl, h]

theorem curated_extractConnectionFacts {conn : SqlConnection} (h : UrlParses parseUrl conn) :
    OnlyThrows Curated (extractConnectionFacts parseUrl conn) := by
  cases conn with
  | dsn text =>
    obtain ⟨url, hurl⟩ := newUrl_of_isSome h
    simp only [extractConnectionFacts, hurl]
    exact .ite (fun _ => curated_invalid _) fun _ => .ok _
  | object conn =>
    rw [extractConnectionFacts]
    split
    · exact .ok _
    · rename_i hhost
      split
      · exact .bind (curated_extractHostnameFromDsn _) fun hostname _ => .ok _
      · rename_i text htext
        obtain ⟨url, hurl⟩ := newUrl_of_isSome (h hhost text htext)
        rw [hurl]
        refine .ite (fun _ => ?_) fun _ => .ok _
        exact .bind (curated_extractHostnameFromDsn _) fun hostname _ => .ok _

theorem extractConnectionFacts_of_not {conn : SqlConnection} (h : ¬ UrlParses parseUrl conn) :
    extractConnectionFacts parseUrl conn = .error (.engine "TypeError" "Invalid URL") := by
  cases conn with
  | dsn text =>
    simp only [extractConnectionFacts, newUrl_of_isNone h]
    rfl
  | object conn =>
    simp only [UrlParses, Classical.not_imp, not_forall] at h
    obtain ⟨hhost, text, htext, hurl⟩ := h
    simp only [extractConnectionFacts, hhost, Option.mem_def.mp htext, newUrl_of_isNone hurl]
    rfl

end Facts

/-! ### The handler -/

section Law
variable {env : SqlEnv} {raw : JsValue}

/-- Nothing fails between the checks of the input and the `try` block: the connection text is a URL, its host is
reachable, and the driver takes its options. -/
def Contained (env : SqlEnv) (raw : JsValue) : Prop :=
  ∀ input, assertInput raw = .ok input →
    UrlParses env.parseUrl input.connection ∧
    ∀ facts, extractConnectionFacts env.parseUrl input.connection = .ok facts →
      Reachable env.parseAddress env.lookup facts.hostname ∧
      ∀ ip, assertHostIsPublic env.parseAddress env.lookup facts.hostname = .ok ip →
        env.postgres input.connection.url (pgOptions env.parseUrl input facts.hostname ip) = .ok ()

/-- An error that is no `SqlError` yet. -/
def Raw (e : DispatchError) : Prop := ∀ err, e ≠ .sql err

theorem raw_engine (name message : String) : Raw (.engine name message) := by
  intro err h
  cases h

theorem raw_foreign (value : JsValue) : Raw (.foreign value) := by
  intro err h
  cases h

mutual

theorem raw_coerceValue : ∀ v : DriverValue, OnlyThrows Raw (coerceValue v)
  | .null | .undefined | .string _ | .boolean _ | .number _ | .notFinite _ | .bigint _ | .date (some _) | .bytes _
  | .other _ => .ok _
  | .date none => .error (raw_engine _ _)
  | .array items => .bind (raw_coerceItems items) fun _ _ => .ok _
  | .object fields => .bind (raw_coerceRow fields) fun _ _ => .ok _

theorem raw_coerceItems : ∀ vs : List DriverValue, OnlyThrows Raw (coerceItems vs)
  | [] => .ok _
  | v :: vs => .bind (raw_coerceValue v) fun _ _ => .bind (raw_coerceItems vs) fun _ _ => .ok _

theorem raw_coerceRow : ∀ fields : List (String × DriverValue), OnlyThrows Raw (coerceRow fields)
  | [] => .ok _
  | (_, v) :: fields => .bind (raw_coerceValue v) fun _ _ => .bind (raw_coerceRow fields) fun _ _ => .ok _

end

theorem raw_execute (input : SqlInput) (options : PgOptions) : OnlyThrows Raw (execute env input options) := by
  unfold execute
  refine .bind ?_ fun result _ => ?_
  · cases env.runQuery input.connection.url options input.query input.params with
    | error value => exact .error (raw_foreign value)
    | ok result => exact .ok result
  · cases result with
    | nullish => exact .error (raw_engine _ _)
    | result rows columns count => exact .bind (.mapM fun row _ => raw_coerceRow row) fun rows _ => .ok _

theorem curated_throwStructured {e : DispatchError} (h : Raw e) : Curated (throwStructured e) := by
  cases e with
  | sql err => exact absurd rfl (h err)
  | mail err => exact ⟨_, rfl, curated_shapeDriverError _⟩
  | net err => exact ⟨_, rfl, curated_shapeDriverError _⟩
  | engine name message => exact ⟨_, rfl, curated_shapeDriverError _⟩
  | foreign value => exact ⟨_, rfl, curated_shapeDriverError _⟩

/-- Whatever goes wrong inside the `try` block comes out as a `SqlError`. -/
theorem curated_execute (input : SqlInput) (options : PgOptions) :
    OnlyThrows Curated ((execute env input options).mapError throwStructured) :=
  (raw_execute input options).mapError fun _ h => curated_throwStructured h

theorem not_curated_engine (name message : String) : ¬ Curated (.engine name message) := by
  rintro ⟨err, h, -⟩
  cases h

theorem not_curated_net (e : NetError) : ¬ Curated (.net e) := by
  rintro ⟨err, h, -⟩
  cases h

theorem not_curated_foreign (value : JsValue) : ¬ Curated (.foreign value) := by
  rintro ⟨err, h, -⟩
  cases h

theorem executeSql_of_input {input : SqlInput} (h : assertInput raw = .ok input) :
    executeSql env raw = dispatchSqlExecute env input := by
  rw [executeSql, h]
  rfl

theorem dispatch_of_facts_error {input : SqlInput} {e : DispatchError}
    (h : extractConnectionFacts env.parseUrl input.connection = .error e) :
    dispatchSqlExecute env input = .error e := by
  rw [dispatchSqlExecute, h]
  rfl

theorem dispatch_of_blocked {input : SqlInput} {facts : ConnectionFacts} {e : NetError}
    (hfacts : extractConnectionFacts env.parseUrl input.connection = .ok facts)
    (h : assertHostIsPublic env.parseAddress env.lookup facts.hostname = .error e) :
    dispatchSqlExecute env input = .error (.net e) := by
  rw [dispatchSqlExecute, hfacts]
  change ((assertHostIsPublic env.parseAddress env.lookup facts.hostname).mapError DispatchError.net >>= _) = _
  rw [h]
  rfl

theorem dispatch_of_ip {input : SqlInput} {facts : ConnectionFacts} {ip : String}
    (hfacts : extractConnectionFacts env.parseUrl input.connection = .ok facts)
    (h : assertHostIsPublic env.parseAddress env.lookup facts.hostname = .ok ip) :
    dispatchSqlExecute env input =
      ((env.postgres input.connection.url (pgOptions env.parseUrl input facts.hostname ip)).mapError .foreign >>=
        fun _ => (execute env input (pgOptions env.parseUrl input facts.hostname ip)).mapError throwStructured) := by
  rw [dispatchSqlExecute, hfacts]
  change ((assertHostIsPublic env.parseAddress env.lookup facts.hostname).mapError DispatchError.net >>= _) = _
  rw [h]
  rfl

/-- The errors of `executeSql` are curated `SqlError`s exactly when nothing fails between the checks of the input
and the `try` block. -/
theorem curated_executeSql_iff : OnlyThrows Curated (executeSql env raw) ↔ Contained env raw := by
  constructor
  · intro h input hinput
    rw [executeSql_of_input hinput] at h
    refine ⟨?_, ?_⟩
    · by_contra hurl
      exact not_curated_engine _ _ (h _ (dispatch_of_facts_error (extractConnectionFacts_of_not hurl)))
    · intro facts hfacts
      refine ⟨?_, ?_⟩
      · rw [← assertHostIsPublic_eq_ok_iff]
        cases hip : assertHostIsPublic env.parseAddress env.lookup facts.hostname with
        | ok ip => exact ⟨ip, rfl⟩
        | error e => exact absurd (h _ (dispatch_of_blocked hfacts hip)) (not_curated_net e)
      · intro ip hip
        rw [dispatch_of_ip hfacts hip] at h
        cases hdriver : env.postgres input.connection.url (pgOptions env.parseUrl input facts.hostname ip) with
        | ok v => rfl
        | error value =>
          rw [hdriver] at h
          exact absurd (h _ rfl) (not_curated_foreign value)
  · intro h
    unfold executeSql
    refine .bind (curated_assertInput raw) fun input hinput => ?_
    obtain ⟨hurl, hrest⟩ := h input hinput
    cases hfacts : extractConnectionFacts env.parseUrl input.connection with
    | error e =>
      rw [dispatch_of_facts_error hfacts]
      exact .error (curated_extractConnectionFacts hurl e hfacts)
    | ok facts =>
      obtain ⟨hreachable, hdriver⟩ := hrest facts hfacts
      obtain ⟨ip, hip⟩ := (assertHostIsPublic_eq_ok_iff _ _ _).mpr hreachable
      rw [dispatch_of_ip hfacts hip, hdriver ip hip]
      exact curated_execute input _

end Law

end WorkflowEngine.Sandbox.SqlDispatcher
