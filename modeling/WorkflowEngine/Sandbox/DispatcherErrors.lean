import WorkflowEngine.Sandbox.MailDispatcher
import WorkflowEngine.Sandbox.SqlDispatcher

/-!
# What leaves the two dispatchers

`sendMail` and `executeSql` promise the guest errors of one class each. Both keep
the promise for their own checks and for what happens inside their `try` block;
the guard of outgoing connections throws past it, and so does what stands around
the block.
-/

namespace WorkflowEngine.Sandbox.Dispatchers

open Lib NetGuard
set_option autoImplicit false

/-- Both calls throw nothing but curated errors of their class, exactly when nothing fails outside of their checks
and of their `try` blocks. -/
theorem dispatchers_curated_iff (sql : SqlDispatcher.SqlEnv) (mail : MailDispatcher.MailEnv) (raw : JsValue) :
    (OnlyThrows SqlDispatcher.Curated (SqlDispatcher.executeSql sql raw) ↔ SqlDispatcher.Contained sql raw) ∧
      (OnlyThrows MailDispatcher.Curated (MailDispatcher.sendMail mail raw) ↔ MailDispatcher.Contained mail raw) :=
  ⟨SqlDispatcher.curated_executeSql_iff, MailDispatcher.curated_sendMail_iff⟩

/-! ### A host that is blocked -/

/-- One name that leads into the private network; other names do not resolve. -/
def internalLookup : Lookup where
  disableSsrfProtection := none
  addresses name :=
    if name = "db.internal" then .ok ["10.0.0.5"] else .error (.error ("getaddrinfo ENOTFOUND " ++ name))

def parseInternal (text : String) : Option IpAddress :=
  if text = "10.0.0.5" then some (.ipv4 (octets 10 0 0 5)) else none

def internalSql : SqlDispatcher.SqlEnv where
  parseUrl _ := none
  parseAddress := parseInternal
  lookup := internalLookup
  postgres _ _ := .ok ()
  runQuery _ _ _ _ := .ok (.result (some []) none none)

def internalMail : MailDispatcher.MailEnv where
  parseAddress := parseInternal
  lookup := internalLookup
  createTransport _ := .ok ()
  deliver _ _ := .ok (.object [("messageId", .string "1")])

def internalQuery : JsValue :=
  .object [("connection", .object [("host", .string "db.internal")]), ("query", .string "select 1")]

def internalOpts : JsValue :=
  .object [("smtp", .object [("host", .string "db.internal"), ("port", .number (.ofNat 25)),
      ("tls", .string "plaintext"), ("auth", .object [("user", .string "u"), ("pass", .string "p")])]),
    ("from", .string "a@example.org"), ("to", .string "b@example.org"), ("subject", .string "hello")]

/-- The refusal of the guard leaves both dispatchers as it is. -/
theorem internalHost_uncurated :
    ¬ OnlyThrows SqlDispatcher.Curated (SqlDispatcher.executeSql internalSql internalQuery) ∧
      ¬ OnlyThrows MailDispatcher.Curated (MailDispatcher.sendMail internalMail internalOpts) := by
  have hsql : SqlDispatcher.executeSql internalSql internalQuery =
      .error (.net (.hostBlocked .privateIp "db.internal resolves to a blocked address")) := by
    rfl
  have hmail : MailDispatcher.sendMail internalMail internalOpts =
      .error (.net (.hostBlocked .privateIp "db.internal resolves to a blocked address")) := by
    rfl
  refine ⟨?_, ?_⟩
  · intro h
    exact SqlDispatcher.not_curated_net _ (h _ hsql)
  · intro h
    exact MailDispatcher.not_curated_net _ (h _ hmail)

end WorkflowEngine.Sandbox.Dispatchers
