import WorkflowEngine.Sandbox.CuratedErrors

/-!
# The mail dispatcher

The host side of `sendMail`: the checks of the options, the transport and the
message, and the dispatch, whose `try` block holds the delivery alone. The bridge
calls the two logging functions of the descriptor before the handler. The guard's
resolver and the mailer are parameters; attachments keep their base64 text.
-/

namespace WorkflowEngine.Sandbox.MailDispatcher

open Lib Dispatchers NetGuard
set_option autoImplicit false

/-! ## Options -/

def invalidInput (message : String) : DispatchError := .mail (.invalidInput message)

def invalid {α : Type} (message : String) : Except DispatchError α := .error (invalidInput message)

def assertNonEmptyString : JsValue → String → Except DispatchError String := checkNonEmptyString invalidInput

def assertPositiveInt (value : JsValue) (path : String) : Except DispatchError Nat :=
  checkRequired invalidInput (positiveInteger value) (path ++ " must be a positive integer")

inductive Recipient where
  | one (address : String)
  | many (addresses : List String)

def assertRecipient (value : JsValue) (path : String) : Except DispatchError Recipient :=
  match value with
  | .string "" => invalid (path ++ " must be non-empty")
  | .string address => .ok (.one address)
  | .array [] => invalid (path ++ " must not be an empty array")
  | .array items => do
    let addresses ← items.zipIdx.mapM fun p => assertNonEmptyString p.1 (path ++ "[" ++ toString p.2 ++ "]")
    return .many addresses
  | _ => invalid (path ++ " must be a string or array of strings")

def assertOptionalRecipient (value : JsValue) (path : String) : Except DispatchError (Option Recipient) :=
  match value with
  | .undefined => .ok none
  | value => (assertRecipient value path).map some

def assertOptionalString : JsValue → String → Except DispatchError (Option String) :=
  checkOptional invalidInput asString "a string if provided"

inductive TlsMode where
  | tls | starttls | plaintext
  deriving DecidableEq

def asTlsMode : JsValue → Option TlsMode
  | .string s =>
    if s = "tls" then some .tls
    else if s = "starttls" then some .starttls
    else if s = "plaintext" then some .plaintext
    else none
  | _ => none

structure SmtpConfig where
  host : String
  port : Nat
  tls : TlsMode
  user : String
  pass : String
  timeout : Option Nat

def assertTls (value : JsValue) : Except DispatchError TlsMode :=
  checkRequired invalidInput (asTlsMode value) "smtp.tls must be one of \"tls\" | \"starttls\" | \"plaintext\""

def assertPass (value : JsValue) : Except DispatchError String :=
  checkRequired invalidInput (asString value) "smtp.auth.pass must be a string"

def assertTimeout (value : JsValue) : Except DispatchError (Option Nat) :=
  checkOptional invalidInput positiveInteger "a positive integer" value "smtp.timeout"

def assertSmtpConfig (raw : JsValue) : Except DispatchError SmtpConfig :=
  if isObject raw then do
    let host ← assertNonEmptyString (raw.get "host") "smtp.host"
    let port ← assertPositiveInt (raw.get "port") "smtp.port"
    let mode ← assertTls (raw.get "tls")
    let auth := raw.get "auth"
    if isObject auth then do
      let user ← assertNonEmptyString (auth.get "user") "smtp.auth.user"
      let pass ← assertPass (auth.get "pass")
      let timeout ← assertTimeout (raw.get "timeout")
      return ⟨host, port, mode, user, pass, timeout⟩
    else invalid "smtp.auth must be an object"
  else invalid "smtp must be an object"

structure MailAttachment where
  filename : String
  content : String
  contentType : Option String

def assertContent (value : JsValue) (path : String) : Except DispatchError String :=
  checkRequired invalidInput (asString value) (path ++ " must be a base64 string")

def assertAttachment (entry : JsValue) (index : Nat) : Except DispatchError MailAttachment :=
  let path := s!"attachments[{index}]"
  if isObject entry then do
    let filename ← assertNonEmptyString (entry.get "filename") (path ++ ".filename")
    let content ← assertContent (entry.get "content") (path ++ ".content")
    let contentType ← assertOptionalString (entry.get "contentType") (path ++ ".contentType")
    return ⟨filename, content, nonEmpty contentType⟩
  else invalid (path ++ " must be an object")

def assertAttachments : JsValue → Except DispatchError (Option (List MailAttachment))
  | .undefined => .ok none
  | .array entries => (entries.zipIdx.mapM fun p => assertAttachment p.1 p.2).map some
  | _ => invalid "attachments must be an array"

structure MailOpts where
  smtp : SmtpConfig
  «from» : String
  «to» : Recipient
  subject : String
  cc : Option Recipient
  bcc : Option Recipient
  replyTo : Option Recipient
  text : Option String
  html : Option String
  attachments : Option (List MailAttachment)

def assertMailOpts (raw : JsValue) : Except DispatchError MailOpts :=
  if isObject raw then do
    let smtp ← assertSmtpConfig (raw.get "smtp")
    let sender ← assertNonEmptyString (raw.get "from") "from"
    let recipients ← assertRecipient (raw.get "to") "to"
    let subject ← assertNonEmptyString (raw.get "subject") "subject"
    let cc ← assertOptionalRecipient (raw.get "cc") "cc"
    let bcc ← assertOptionalRecipient (raw.get "bcc") "bcc"
    let replyTo ← assertOptionalRecipient (raw.get "replyTo") "replyTo"
    let text ← assertOptionalString (raw.get "text") "text"
    let html ← assertOptionalString (raw.get "html") "html"
    let attachments ← assertAttachments (raw.get "attachments")
    return ⟨smtp, sender, recipients, subject, cc, bcc, replyTo, text, html, attachments⟩
  else invalid "options must be an object"

/-! ## Transport and message -/

structure TlsOptions where
  secure : Bool
  requireTLS : Bool := false
  ignoreTLS : Bool := false

def mapTlsMode : TlsMode → TlsOptions
  | .tls => { secure := true }
  | .starttls => { secure := false, requireTLS := true }
  | .plaintext => { secure := false, ignoreTLS := true }

def defaultTimeoutMs : Nat := 30000

structure TransportOptions extends TlsOptions where
  host : String
  port : Nat
  user : String
  pass : String
  connectionTimeout : Nat
  socketTimeout : Nat
  greetingTimeout : Nat
  servername : String

def transportOptions (opts : MailOpts) (resolvedIp : String) : TransportOptions :=
  let timeout := opts.smtp.timeout.getD defaultTimeoutMs
  { mapTlsMode opts.smtp.tls with
    host := resolvedIp
    port := opts.smtp.port
    user := opts.smtp.user
    pass := opts.smtp.pass
    connectionTimeout := timeout
    socketTimeout := timeout
    greetingTimeout := timeout
    servername := opts.smtp.host }

structure Message where
  «from» : String
  «to» : Recipient
  subject : String
  cc : Option Recipient
  bcc : Option Recipient
  replyTo : Option String
  text : Option String
  html : Option String
  attachments : Option (List MailAttachment)

def joined : Recipient → String
  | .one address => address
  | .many addresses => ", ".intercalate addresses

def message (opts : MailOpts) : Message where
  «from» := opts.from
  «to» := opts.to
  subject := opts.subject
  cc := opts.cc
  bcc := opts.bcc
  replyTo := opts.replyTo.map joined
  text := opts.text
  html := opts.html
  attachments := opts.attachments

/-! ## Dispatch -/

def throwStructured : DispatchError → DispatchError
  | .mail e => .mail e
  | err => .mail (.make (classifyMailError err.value) none)

structure MailEnv where
  parseAddress : String → Option IpAddress
  lookup : Lookup
  createTransport : TransportOptions → Except JsValue Unit
  deliver : TransportOptions → Message → Except JsValue JsValue

structure MailResult where
  messageId : JsValue
  accepted : List JsValue
  rejected : List JsValue
  response : Option String

def isNullish : JsValue → Bool
  | .undefined | .null => true
  | _ => false

def cannotRead {α : Type} (key : String) : Except DispatchError α :=
  .error (.engine "TypeError" ("Cannot read properties of undefined (reading '" ++ key ++ "')"))

def addressOf (a : JsValue) : Except DispatchError JsValue :=
  match asString a with
  | some s => .ok (.string s)
  | none => if isNullish a then cannotRead "address" else .ok (a.get "address")

/-- `(list ?? []).map(…)`. -/
def addresses : JsValue → Except DispatchError (List JsValue)
  | .undefined | .null => .ok []
  | .array items => items.mapM addressOf
  | _ => .error (.engine "TypeError" "map is not a function")

/-- What is read from the answer of the mailer, after the `try` block. -/
def readInfo (info : JsValue) : Except DispatchError MailResult :=
  if isNullish info then cannotRead "messageId"
  else do
    let accepted ← addresses (info.get "accepted")
    let rejected ← addresses (info.get "rejected")
    return ⟨info.get "messageId", accepted, rejected, asString (info.get "response")⟩

def dispatchMailSend (env : MailEnv) (opts : MailOpts) : Except DispatchError MailResult := do
  let resolvedIp ← (assertHostIsPublic env.parseAddress env.lookup opts.smtp.host).mapError .net
  (env.createTransport (transportOptions opts resolvedIp)).mapError .foreign
  let info ← (env.deliver (transportOptions opts resolvedIp) (message opts)).mapError fun value =>
    throwStructured (.foreign value)
  readInfo info

def handler (env : MailEnv) (raw : JsValue) : Except DispatchError MailResult := do
  let opts ← assertMailOpts raw
  dispatchMailSend env opts

/-! ## What the bridge calls -/

mutual

/-- `${v}` has a text: no object in it has a `toString` of its own, which is never a function here. -/
def hasText : JsValue → Bool
  | .object fields => (fields.lookup "toString").isNone
  | .builtin fields => (fields.lookup "toString").isNone
  | .array items => allHaveText items
  | _ => true

def allHaveText : List JsValue → Bool
  | [] => true
  | item :: items => hasText item && allHaveText items

end

def firstRecipient : JsValue → JsValue
  | .string s => .string s
  | .array items => items.head?.getD .undefined
  | v => v.get "0"

/-- The name of the request event, of which only the failure is modelled. -/
def logName (raw : JsValue) : Except DispatchError Unit :=
  if isObject raw && !hasText (firstRecipient (raw.get "to")) then
    .error (.engine "TypeError" "Cannot convert object to primitive value")
  else .ok ()

def isNull : JsValue → Bool
  | .null => true
  | _ => false

/-- The input of the request event, of which only the failure is modelled: `smtp` is destructured unless it is
`undefined`. -/
def logInput (raw : JsValue) : Except DispatchError Unit :=
  if isObject raw && isNull (raw.get "smtp") then
    .error (.engine "TypeError" "Cannot destructure property 'host' of 'opts.smtp' as it is null.")
  else .ok ()

/-- A call from the guest, as `buildHandler` of the bridge makes it. -/
def sendMail (env : MailEnv) (raw : JsValue) : Except DispatchError MailResult := do
  logName raw
  logInput raw
  handler env raw

/-! ## What leaves the dispatcher -/

def Curated (e : DispatchError) : Prop := ∃ err, e = .mail err ∧ err.Curated

theorem curated_invalidInput (message : String) : Curated (invalidInput message) :=
  ⟨_, rfl, Or.inl ⟨message, rfl⟩⟩

theorem curated_invalid {α : Type} (message : String) : OnlyThrows Curated (invalid message : Except DispatchError α) :=
  .error (curated_invalidInput message)

theorem curated_assertNonEmptyString (value : JsValue) (path : String) :
    OnlyThrows Curated (assertNonEmptyString value path) :=
  onlyThrows_checkNonEmptyString curated_invalidInput value path

theorem curated_assertOptionalString (value : JsValue) (path : String) :
    OnlyThrows Curated (assertOptionalString value path) :=
  onlyThrows_checkOptional curated_invalidInput _ _ value path

theorem curated_read {α : Type} (read : Option α) (message : String) :
    OnlyThrows Curated (checkRequired invalidInput read message) :=
  onlyThrows_checkRequired curated_invalidInput read message

theorem curated_assertRecipient (value : JsValue) (path : String) : OnlyThrows Curated (assertRecipient value path) := by
  unfold assertRecipient
  split
  · exact curated_invalid _
  · exact .ok _
  · exact curated_invalid _
  · exact .bind (.mapM fun p _ => curated_assertNonEmptyString _ _) fun addresses _ => .ok _
  · exact curated_invalid _

theorem curated_assertOptionalRecipient (value : JsValue) (path : String) :
    OnlyThrows Curated (assertOptionalRecipient value path) := by
  unfold assertOptionalRecipient
  split
  · exact .ok _
  · exact (curated_assertRecipient _ _).map _

theorem curated_assertSmtpConfig (raw : JsValue) : OnlyThrows Curated (assertSmtpConfig raw) := by
  unfold assertSmtpConfig
  refine .ite (fun _ => ?_) fun _ => curated_invalid _
  refine .bind (curated_assertNonEmptyString _ _) fun host _ => ?_
  refine .bind (curated_read _ _) fun port _ => ?_
  refine .bind (curated_read _ _) fun mode _ => ?_
  refine .ite (fun _ => ?_) fun _ => curated_invalid _
  refine .bind (curated_assertNonEmptyString _ _) fun user _ => ?_
  refine .bind (curated_read _ _) fun pass _ => ?_
  exact .bind (onlyThrows_checkOptional curated_invalidInput _ _ _ _) fun timeout _ => .ok _

theorem curated_assertAttachment (entry : JsValue) (index : Nat) :
    OnlyThrows Curated (assertAttachment entry index) := by
  unfold assertAttachment
  refine .ite (fun _ => ?_) fun _ => curated_invalid _
  refine .bind (curated_assertNonEmptyString _ _) fun filename _ => ?_
  refine .bind (curated_read _ _) fun content _ => ?_
  exact .bind (curated_assertOptionalString _ _) fun contentType _ => .ok _

theorem curated_assertAttachments (raw : JsValue) : OnlyThrows Curated (assertAttachments raw) := by
  unfold assertAttachments
  split
  · exact .ok _
  · exact (OnlyThrows.mapM fun p _ => curated_assertAttachment p.1 p.2).map _
  · exact curated_invalid _

/-- Bad options, at whatever depth, are a `MailError`. -/
theorem curated_assertMailOpts (raw : JsValue) : OnlyThrows Curated (assertMailOpts raw) := by
  unfold assertMailOpts
  refine .ite (fun _ => ?_) fun _ => curated_invalid _
  refine .bind (curated_assertSmtpConfig _) fun smtp _ => ?_
  refine .bind (curated_assertNonEmptyString _ _) fun sender _ => ?_
  refine .bind (curated_assertRecipient _ _) fun recipients _ => ?_
  refine .bind (curated_assertNonEmptyString _ _) fun subject _ => ?_
  refine .bind (curated_assertOptionalRecipient _ _) fun cc _ => ?_
  refine .bind (curated_assertOptionalRecipient _ _) fun bcc _ => ?_
  refine .bind (curated_assertOptionalRecipient _ _) fun replyTo _ => ?_
  refine .bind (curated_assertOptionalString _ _) fun text _ => ?_
  refine .bind (curated_assertOptionalString _ _) fun html _ => ?_
  exact .bind (curated_assertAttachments _) fun attachments _ => .ok _

/-! ### The answer of the mailer -/

/-- A list of which every entry has an address to read, or no list. -/
def ListReads : JsValue → Prop
  | .undefined | .null => True
  | .array items => ∀ a ∈ items, isNullish a = false
  | _ => False

structure InfoReads (info : JsValue) : Prop where
  isSome : isNullish info = false
  accepted : ListReads (info.get "accepted")
  rejected : ListReads (info.get "rejected")

theorem not_curated_engine (name message : String) : ¬ Curated (.engine name message) := by
  rintro ⟨err, h, -⟩
  cases h

theorem not_curated_net (e : NetError) : ¬ Curated (.net e) := by
  rintro ⟨err, h, -⟩
  cases h

theorem not_curated_foreign (value : JsValue) : ¬ Curated (.foreign value) := by
  rintro ⟨err, h, -⟩
  cases h

/-- An error of the language itself. -/
def Engine (e : DispatchError) : Prop := ∃ name message, e = .engine name message

theorem not_curated_of_engine {e : DispatchError} (h : Engine e) : ¬ Curated e := by
  obtain ⟨name, message, rfl⟩ := h
  exact not_curated_engine name message

theorem engine_cannotRead {α : Type} (key : String) :
    OnlyThrows Engine (cannotRead key : Except DispatchError α) :=
  .error ⟨_, _, rfl⟩

theorem engine_addressOf (a : JsValue) : OnlyThrows Engine (addressOf a) := by
  unfold addressOf
  split
  · exact .ok _
  · exact .ite (fun _ => engine_cannotRead _) fun _ => .ok _

theorem engine_addresses (v : JsValue) : OnlyThrows Engine (addresses v) := by
  unfold addresses
  split
  · exact .ok _
  · exact .ok _
  · exact .mapM fun a _ => engine_addressOf a
  · exact .error ⟨_, _, rfl⟩

theorem engine_readInfo (info : JsValue) : OnlyThrows Engine (readInfo info) := by
  unfold readInfo
  refine .ite (fun _ => engine_cannotRead _) fun _ => ?_
  exact .bind (engine_addresses _) fun _ _ => .bind (engine_addresses _) fun _ _ => .ok _

theorem addressOf_eq_ok_iff (a : JsValue) : (∃ v, addressOf a = .ok v) ↔ isNullish a = false := by
  cases a <;> simp [addressOf, asString, isNullish, cannotRead]

theorem addresses_eq_ok_iff (v : JsValue) : (∃ as, addresses v = .ok as) ↔ ListReads v := by
  unfold addresses ListReads
  split
  · simp
  · simp
  · rw [exists_mapM_iff]
    exact forall₂_congr fun a _ => addressOf_eq_ok_iff a
  · simp

theorem readInfo_eq_ok_iff (info : JsValue) : (∃ result, readInfo info = .ok result) ↔ InfoReads info := by
  unfold readInfo
  cases hnullish : isNullish info with
  | true =>
    constructor
    · rintro ⟨result, h⟩
      cases h
    · intro h
      rw [h.isSome] at hnullish
      cases hnullish
  | false =>
    rw [if_neg Bool.false_ne_true]
    constructor
    · rintro ⟨result, h⟩
      obtain ⟨accepted, haccepted, h⟩ := bind_eq_ok h
      obtain ⟨rejected, hrejected, -⟩ := bind_eq_ok h
      exact ⟨hnullish, (addresses_eq_ok_iff _).mp ⟨_, haccepted⟩, (addresses_eq_ok_iff _).mp ⟨_, hrejected⟩⟩
    · intro h
      obtain ⟨accepted, haccepted⟩ := (addresses_eq_ok_iff _).mpr h.accepted
      obtain ⟨rejected, hrejected⟩ := (addresses_eq_ok_iff _).mpr h.rejected
      rw [haccepted, hrejected]
      exact ⟨_, rfl⟩

/-! ### The call -/

section Law
variable {env : MailEnv} {raw : JsValue}

/-- The logging functions get through: the first recipient has a text, and `smtp` is not `null`. -/
structure Logged (raw : JsValue) : Prop where
  name : isObject raw = true → hasText (firstRecipient (raw.get "to")) = true
  input : isObject raw = true → isNull (raw.get "smtp") = false

/-- Nothing fails outside of the checks of the options and the `try` block: the call can be logged, the host is
reachable, the mailer takes its options, and its answer can be read. -/
structure Contained (env : MailEnv) (raw : JsValue) : Prop where
  logged : Logged raw
  sent : ∀ opts, assertMailOpts raw = .ok opts →
    Reachable env.parseAddress env.lookup opts.smtp.host ∧
    ∀ ip, assertHostIsPublic env.parseAddress env.lookup opts.smtp.host = .ok ip →
      env.createTransport (transportOptions opts ip) = .ok () ∧
      ∀ info, env.deliver (transportOptions opts ip) (message opts) = .ok info → InfoReads info

theorem curated_throwStructured (value : JsValue) : Curated (throwStructured (.foreign value)) :=
  ⟨_, rfl, curated_classifyMailError value⟩

theorem logged_iff : (logName raw = .ok () ∧ logInput raw = .ok ()) ↔ Logged raw := by
  unfold logName logInput
  constructor
  · rintro ⟨hname, hinput⟩
    refine ⟨?_, ?_⟩
    · intro hobject
      by_contra htext
      simp [hobject, htext] at hname
    · intro hobject
      by_contra hnull
      simp [hobject, hnull] at hinput
  · rintro ⟨hname, hinput⟩
    cases hobject : isObject raw with
    | false => exact ⟨rfl, rfl⟩
    | true => simp [hname hobject, hinput hobject]

theorem engine_logName : OnlyThrows Engine (logName raw) := by
  unfold logName
  exact .ite (fun _ => .error ⟨_, _, rfl⟩) fun _ => .ok _

theorem engine_logInput : OnlyThrows Engine (logInput raw) := by
  unfold logInput
  exact .ite (fun _ => .error ⟨_, _, rfl⟩) fun _ => .ok _

theorem handler_of_opts {opts : MailOpts} (h : assertMailOpts raw = .ok opts) :
    handler env raw = dispatchMailSend env opts := by
  rw [handler, h]
  rfl

theorem dispatch_of_blocked {opts : MailOpts} {e : NetError}
    (h : assertHostIsPublic env.parseAddress env.lookup opts.smtp.host = .error e) :
    dispatchMailSend env opts = .error (.net e) := by
  rw [dispatchMailSend, h]
  rfl

theorem dispatch_of_ip {opts : MailOpts} {ip : String}
    (h : assertHostIsPublic env.parseAddress env.lookup opts.smtp.host = .ok ip) :
    dispatchMailSend env opts =
      ((env.createTransport (transportOptions opts ip)).mapError DispatchError.foreign >>= fun _ =>
        (env.deliver (transportOptions opts ip) (message opts)).mapError (fun value =>
          throwStructured (.foreign value)) >>= readInfo) := by
  rw [dispatchMailSend, h]
  rfl

/-- The delivery and what is read of its answer. -/
theorem curated_delivered_iff (options : TransportOptions) (mail : Message) :
    OnlyThrows Curated ((env.deliver options mail).mapError (fun value => throwStructured (.foreign value)) >>=
      readInfo) ↔ ∀ info, env.deliver options mail = .ok info → InfoReads info := by
  cases hdeliver : env.deliver options mail with
  | error value =>
    constructor
    · intro _ info hinfo
      cases hinfo
    · intro _
      exact .error (curated_throwStructured value)
  | ok info =>
    change OnlyThrows Curated (readInfo info) ↔ _
    rw [(engine_readInfo info).iff_ok fun e => not_curated_of_engine, readInfo_eq_ok_iff]
    simp

/-- The errors of the handler are curated `MailError`s exactly when the host is reachable, the mailer takes its
options and its answer can be read. -/
theorem curated_handler_iff : OnlyThrows Curated (handler env raw) ↔
    ∀ opts, assertMailOpts raw = .ok opts →
      Reachable env.parseAddress env.lookup opts.smtp.host ∧
      ∀ ip, assertHostIsPublic env.parseAddress env.lookup opts.smtp.host = .ok ip →
        env.createTransport (transportOptions opts ip) = .ok () ∧
        ∀ info, env.deliver (transportOptions opts ip) (message opts) = .ok info → InfoReads info := by
  constructor
  · intro h opts hopts
    rw [handler_of_opts hopts] at h
    refine ⟨?_, ?_⟩
    · rw [← assertHostIsPublic_eq_ok_iff]
      cases hip : assertHostIsPublic env.parseAddress env.lookup opts.smtp.host with
      | ok ip => exact ⟨ip, rfl⟩
      | error e => exact absurd (h _ (dispatch_of_blocked hip)) (not_curated_net e)
    · intro ip hip
      rw [dispatch_of_ip hip] at h
      cases htransport : env.createTransport (transportOptions opts ip) with
      | error value =>
        rw [htransport] at h
        exact absurd (h _ rfl) (not_curated_foreign value)
      | ok v =>
        rw [htransport] at h
        exact ⟨rfl, (curated_delivered_iff _ _).mp h⟩
  · intro h
    unfold handler
    refine .bind (curated_assertMailOpts raw) fun opts hopts => ?_
    obtain ⟨hreachable, hrest⟩ := h opts hopts
    obtain ⟨ip, hip⟩ := (assertHostIsPublic_eq_ok_iff _ _ _).mpr hreachable
    obtain ⟨htransport, hinfo⟩ := hrest ip hip
    rw [dispatch_of_ip hip, htransport]
    exact (curated_delivered_iff _ _).mpr hinfo

/-- The errors of `sendMail` are curated `MailError`s exactly when nothing fails outside of the checks of the
options and the `try` block. -/
theorem curated_sendMail_iff : OnlyThrows Curated (sendMail env raw) ↔ Contained env raw := by
  cases hname : logName raw with
  | error e =>
    have hsend : sendMail env raw = .error e := by
      rw [sendMail, hname]
      rfl
    constructor
    · intro h
      exact absurd (h e hsend) (not_curated_of_engine (engine_logName e hname))
    · intro h
      rw [(logged_iff.mpr h.logged).1] at hname
      cases hname
  | ok v =>
    cases hinput : logInput raw with
    | error e =>
      have hsend : sendMail env raw = .error e := by
        rw [sendMail, hname, hinput]
        rfl
      constructor
      · intro h
        exact absurd (h e hsend) (not_curated_of_engine (engine_logInput e hinput))
      · intro h
        rw [(logged_iff.mpr h.logged).2] at hinput
        cases hinput
    | ok w =>
      have hsend : sendMail env raw = handler env raw := by
        rw [sendMail, hname, hinput]
        rfl
      rw [hsend, curated_handler_iff]
      exact ⟨fun h => ⟨logged_iff.mp ⟨hname, hinput⟩, h⟩, fun h => h.sent⟩

end Law

end WorkflowEngine.Sandbox.MailDispatcher
