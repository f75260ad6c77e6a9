import WorkflowEngine.Lib.Transition
import WorkflowEngine.Runtime.AuthAllow
import WorkflowEngine.Runtime.AuthReturnTo

/-!
# Signing in and staying signed in

The cookies, the routes and the middleware of `auth/` as one server between
browsers and GitHub. Browsers send any cookie they like under any name; what
they cannot do is make a seal, since the password is drawn when the process
starts and never leaves it. GitHub answers every call as it likes and when it
likes, so the steps of requests that wait for it are interleaved. The history
records what GitHub said and whom the server let in.
-/

namespace WorkflowEngine.Runtime.Auth

open Lib
set_option autoImplicit false

/-! ## Cookies -/

def sixtySecondsMs : Nat := 60 * 1000
def fiveMinutesMs : Nat := 5 * 60 * 1000
def tenMinutesMs : Nat := 10 * 60 * 1000
def sevenDaysMs : Nat := 7 * 24 * 60 * 60 * 1000

structure SessionPayload where
  provider : String
  login : String
  mail : String
  orgs : List String
  accessToken : String
  resolvedAt : Nat
  exp : Nat

structure StatePayload where
  state : String
  returnTo : String

inductive FlashPayload where
  | denied (login : String)
  | loggedOut

/-- The three payloads are sealed with one password, and a seal does not say which one it holds. -/
inductive Payload where
  | session (p : SessionPayload)
  | state (p : StatePayload)
  | flash (p : FlashPayload)

/-- `payload.provider` of whatever was sealed. -/
def Payload.provider : Payload → Option String
  | .session p => some p.provider
  | _ => none

def userFromPayload (p : SessionPayload) : UserContext := ⟨p.login, p.mail, p.orgs⟩

def isStale (p : SessionPayload) (now : Nat) : Bool := decide (p.resolvedAt + tenMinutesMs ≤ now)

def isExpired (p : SessionPayload) (now : Nat) : Bool := decide (p.exp ≤ now)

/-- A seal of the process that was started as number `boot`. -/
structure Seal where
  boot : Nat
  payload : Payload
  expiration : Nat

/-- A cookie text is named by the place of its seal in the list of all seals; a number past the end is any
other text. -/
abbrev RawCookie := Nat

inductive CookieName where
  | session | authState | authFlash
  deriving DecidableEq

/-- `setCookie` with a max age in seconds, or `deleteCookie`. -/
inductive CookieChange where
  | set (name : CookieName) (raw : RawCookie) (maxAge : Nat)
  | delete (name : CookieName)

inductive Location where
  | login
  | loginReturning (returnTo : String)
  | authorize (state : String)
  | path (returnTo : String)

inductive Response where
  | text (status : Nat) (body : String) (cookies : List CookieChange)
  | redirect (location : Location) (cookies : List CookieChange)
  /-- The handler behind the middleware runs for the user. -/
  | next (user : UserContext) (cookies : List CookieChange)

/-! ## GitHub -/

/-- What `fetch` gives: `body` is `none` when reading it as JSON fails. -/
inductive Fetched (α : Type) where
  | threw
  | response (ok : Bool) (status : Nat) (body : Option α)

inductive Result (α : Type) where
  | ok (data : α)
  | failed (status : Nat)

/-- The body's `access_token`, when it is a text. -/
def exchangeCode : Fetched (Option String) → Result String
  | .threw => .failed 0
  | .response ok status body =>
    if ok then
      match body with
      | some (some accessToken) => if accessToken = "" then .failed status else .ok accessToken
      | _ => .failed status
    else .failed status

def fetchGitHub {α : Type} : Fetched α → Result α
  | .threw => .failed 0
  | .response ok status body =>
    if ok then
      match body with
      | some data => .ok data
      | none => .failed status
    else .failed status

structure GitHubUser where
  login : String
  email : Option String

def resolveUser (user : Fetched GitHubUser) (orgs : Fetched (List String)) : Result UserContext :=
  match fetchGitHub user, fetchGitHub orgs with
  | .failed status, _ => .failed status
  | .ok _, .failed status => .failed status
  | .ok user, .ok orgs => .ok ⟨user.login, user.email.getD "", user.login :: orgs⟩

/-! ## The server -/

structure AuthConfig where
  authAllow : Option String
  localDeployment : Bool
  deps : ProviderRouteDeps

def AuthConfig.registry (c : AuthConfig) : Except String (ProviderRegistry AuthProvider) :=
  buildRegistry c.authAllow (buildProviderFactories c.localDeployment c.deps)

/-- A request that waits for GitHub, with what its closure holds. -/
inductive Task where
  /-- The session middleware, which read the clock before it asked. -/
  | refresh (payload : SessionPayload) (now : Nat)
  | exchange (code : String) (state : StatePayload)
  | resolve (code accessToken : String) (state : StatePayload)
  | api (accessToken : String)

inductive Fact where
  /-- A browser was sent to GitHub with this state. -/
  | started (state : String)
  /-- A callback brought this state and the cookie that has it sealed. -/
  | accepted (code state : String)
  /-- GitHub exchanged the code. -/
  | issued (code accessToken : String)
  /-- The provider named the user for the token, which a local user does not have. -/
  | named (provider accessToken : String) (user : UserContext)
  | signedIn (provider accessToken : String) (state : Option String)
  /-- The middleware, which had read the clock at `checkedAt`, let the user in. -/
  | served (checkedAt : Nat) (provider accessToken : String) (user : UserContext)
  | identified (provider accessToken : String) (user : UserContext)

structure Event where
  boot : Nat
  time : Nat
  fact : Fact

/-- `configs` are those of all starts so far. -/
structure Server where
  config : AuthConfig
  registry : ProviderRegistry AuthProvider
  clock : Nat
  boot : Nat
  seals : List Seal
  tasks : List Task
  history : List Event
  configs : List AuthConfig

namespace Server

/-- Before the first start: nobody is allowed. -/
def initial : Server where
  config := ⟨none, false, ⟨none, none, none⟩⟩
  registry := ⟨[], .empty⟩
  clock := 0
  boot := 0
  seals := []
  tasks := []
  history := []
  configs := [⟨none, false, ⟨none, none, none⟩⟩]

def log (s : Server) (fact : Fact) : Server := { s with history := s.history ++ [⟨s.boot, s.clock, fact⟩] }

def addTask (s : Server) (task : Task) : Server := { s with tasks := s.tasks ++ [task] }

def dropTask (s : Server) (i : Nat) : Server := { s with tasks := s.tasks.eraseIdx i }

/-- `seal`. -/
def sealed (s : Server) (payload : Payload) (ttl : Nat) : Server :=
  { s with seals := s.seals ++ [⟨s.boot, payload, s.clock + ttl⟩] }

/-- The cookie that `seal` returns. -/
def lastCookie (s : Server) : RawCookie := s.seals.length

/-- `unseal`: the password is this process's, and the seal has not expired for more than the skew. -/
def rawUnseal (s : Server) (raw : RawCookie) : Option Payload :=
  match s.seals[raw]? with
  | none => none
  | some x => if x.boot = s.boot ∧ s.clock < x.expiration + sixtySecondsMs then some x.payload else none

/-- `unsealSession`: of the three payloads only a session has a provider. -/
def unsealSession (s : Server) (raw : RawCookie) : Option SessionPayload :=
  match s.rawUnseal raw with
  | some (.session p) => if p.provider = "github" ∨ p.provider = "local" then some p else none
  | _ => none

def redirectToLoginWithFlash (s : Server) (flash : FlashPayload) (cookies : List CookieChange) :
    Server × Option Response :=
  (s.sealed (.flash flash) sixtySecondsMs,
    some (.redirect .login (cookies ++ [.set .authFlash s.lastCookie 60, .delete .session])))

/-! ### `sessionMiddleware` -/

inductive RefreshResult where
  | ok (user : UserContext)
  | sessionExpired
  | accessDenied

def refreshGithub (users orgs : List String) : Result UserContext → RefreshResult
  | .failed _ => .sessionExpired
  | .ok user => if isAllowed user users orgs then .ok user else .accessDenied

def refreshLocal (entries : List LocalEntry) (p : SessionPayload) : RefreshResult :=
  match (byName entries).get? p.login with
  | none => .accessDenied
  | some entry => .ok (userFromEntry entry)

/-- The middleware from the answer of `refreshSession` on. -/
def finishRefresh (s : Server) (p : SessionPayload) (now : Nat) : RefreshResult → Server × Option Response
  | .accessDenied => s.redirectToLoginWithFlash (.denied p.login) []
  | .sessionExpired => s.redirectToLoginWithFlash .loggedOut []
  | .ok user =>
    let nextPayload : SessionPayload :=
      ⟨p.provider, user.login, user.mail, user.orgs, p.accessToken, now, p.exp⟩
    (((s.log (.named p.provider p.accessToken user)).sealed (.session nextPayload) sevenDaysMs).log
        (.served now p.provider p.accessToken user),
      some (.next user [.set .session s.lastCookie (sevenDaysMs / 1000)]))

/-- `path` is the path and the query of the request. -/
def sessionMiddleware (s : Server) (path : String) (cookie : Option RawCookie) : Server × Option Response :=
  match cookie with
  | none => (s, some (.redirect (.loginReturning path) []))
  | some raw =>
    match s.unsealSession raw with
    | none => s.redirectToLoginWithFlash .loggedOut []
    | some p =>
      if isExpired p s.clock then s.redirectToLoginWithFlash .loggedOut []
      else
        match s.registry.byId p.provider with
        | none => s.redirectToLoginWithFlash .loggedOut []
        | some provider =>
          if isStale p s.clock then
            match provider with
            | .github _ _ => (s.addTask (.refresh p s.clock), none)
            | .local entries => s.finishRefresh p s.clock (refreshLocal entries p)
          else
            (s.log (.served s.clock p.provider p.accessToken (userFromPayload p)),
              some (.next (userFromPayload p) []))

/-! ### The routes of the providers -/

def badRequest (cookies : List CookieChange) : Response := .text 400 "Bad Request" cookies

def badGateway (cookies : List CookieChange) : Response := .text 502 "Bad Gateway" cookies

/-- `state` is what `generateState` draws. -/
def githubSignin (s : Server) (returnTo : Option String) (state : String) : Server × Option Response :=
  ((s.log (.started state)).sealed (.state ⟨state, sanitizeReturnTo returnTo⟩) fiveMinutesMs,
    some (.redirect (.authorize state) [.set .authState s.lastCookie (fiveMinutesMs / 1000)]))

/-- `payload.state` is no text in the other payloads, so it differs from the parameter. -/
def callback (s : Server) (code stateParam : Option String) (cookie : Option RawCookie) :
    Server × Option Response :=
  match code, stateParam, cookie with
  | some code, some stateParam, some raw =>
    match s.rawUnseal raw with
    | some (.state payload) =>
      if payload.state = stateParam then
        ((s.log (.accepted code payload.state)).addTask (.exchange code payload), none)
      else (s, some (badRequest [.delete .authState]))
    | _ => (s, some (badRequest [.delete .authState]))
  | _, _, _ => (s, some (badRequest []))

/-- The callback from the answer of `exchangeCode` on. -/
def finishExchange (s : Server) (code : String) (state : StatePayload) :
    Result String → Server × Option Response
  | .failed _ => (s, some (badGateway [.delete .authState]))
  | .ok accessToken => ((s.log (.issued code accessToken)).addTask (.resolve code accessToken state), none)

/-- The callback from the answer of `resolveUser` on. -/
def finishResolve (s : Server) (users orgs : List String) (accessToken : String) (state : StatePayload) :
    Result UserContext → Server × Option Response
  | .failed _ => (s, some (badGateway [.delete .authState]))
  | .ok user =>
    if isAllowed user users orgs then
      let payload : SessionPayload :=
        ⟨"github", user.login, user.mail, user.orgs, accessToken, s.clock, s.clock + sevenDaysMs⟩
      (((s.log (.named "github" accessToken user)).log
          (.signedIn "github" accessToken (some state.state))).sealed (.session payload) sevenDaysMs,
        some (.redirect (.path state.returnTo)
          [.delete .authState, .set .session s.lastCookie (sevenDaysMs / 1000)]))
    else s.redirectToLoginWithFlash (.denied user.login) [.delete .authState]

def localSignin (s : Server) (entries : List LocalEntry) (user returnTo : Option String) :
    Server × Option Response :=
  match (byName entries).get? (user.getD "") with
  | none => (s, some (badRequest []))
  | some entry =>
    let u := userFromEntry entry
    let payload : SessionPayload := ⟨"local", u.login, u.mail, u.orgs, "", s.clock, s.clock + sevenDaysMs⟩
    (((s.log (.named "local" "" u)).log (.signedIn "local" "" none)).sealed (.session payload) sevenDaysMs,
      some (.redirect (.path (sanitizeReturnTo returnTo)) [.set .session s.lastCookie (sevenDaysMs / 1000)]))

def logout (s : Server) : Server × Option Response :=
  (s.sealed (.flash .loggedOut) sixtySecondsMs,
    some (.redirect .login [.delete .session, .set .authFlash s.lastCookie 60]))

/-! ### `apiAuthMiddleware` -/

def unauthorized : Response := .text 401 "\x7b\"error\":\"Unauthorized\"\x7d" []

/-- The trimmed rest of the header behind the scheme. -/
def credential (scheme : String) (authorization : Option String) : Option String :=
  let auth := (authorization.getD "").toList
  if scheme.toList.isPrefixOf auth then
    (some (trim (String.ofList (auth.drop scheme.length)))).filter (· ≠ "")
  else none

/-- The middleware from the answer of `resolveApiIdentity` on. -/
def finishApi (s : Server) (provider accessToken : String) : Option UserContext → Server × Option Response
  | none => (s, some unauthorized)
  | some user =>
    ((s.log (.named provider accessToken user)).log (.identified provider accessToken user), some (.next user []))

def apiAuthMiddleware (s : Server) (providerHeader authorization : Option String) : Server × Option Response :=
  match providerHeader.filter (· ≠ "") with
  | none => (s, some unauthorized)
  | some id =>
    match s.registry.byId id with
    | none => (s, some unauthorized)
    | some (.github _ _) =>
      match credential "Bearer " authorization with
      | none => (s, some unauthorized)
      | some token => (s.addTask (.api token), none)
    | some (.local entries) =>
      s.finishApi id "" (((credential "User " authorization).bind (byName entries).get?).map userFromEntry)

def finishApiGithub (users orgs : List String) : Result UserContext → Option UserContext
  | .failed _ => none
  | .ok user => if isAllowed user users orgs then some user else none

/-! ### Steps -/

/-- What a waiting request does when `resolveUser` has its answers. -/
def finishTask (s : Server) (users orgs : List String) (result : Result UserContext) :
    Task → Option (Server × Option Response)
  | .refresh p now => some (s.finishRefresh p now (refreshGithub users orgs result))
  | .resolve _ accessToken state => some (s.finishResolve users orgs accessToken state result)
  | .api accessToken => some (s.finishApi "github" accessToken (finishApiGithub users orgs result))
  | .exchange _ _ => none

inductive Action where
  | tick (ms : Nat)
  | githubSignin (returnTo : Option String) (state : String)
  | callback (code stateParam : Option String) (cookie : Option RawCookie)
  | exchanged (i : Nat) (answer : Fetched (Option String))
  | resolved (i : Nat) (user : Fetched GitHubUser) (orgs : Fetched (List String))
  | localSignin (user returnTo : Option String)
  | request (path : String) (cookie : Option RawCookie)
  | apiRequest (providerHeader authorization : Option String)
  | logout
  /-- The process ends, and with it the requests that wait, and starts again with a config. -/
  | restart (config : AuthConfig)

/-- A route exists only with its provider, and only a request that waits can go on. -/
def handle (s : Server) : Action → Option (Server × Option Response)
  | .tick ms => some ({ s with clock := s.clock + ms }, none)
  | .githubSignin returnTo state =>
    match s.registry.byId "github" with
    | some (.github _ _) => some (s.githubSignin returnTo state)
    | _ => none
  | .callback code stateParam cookie =>
    match s.registry.byId "github" with
    | some (.github _ _) => some (s.callback code stateParam cookie)
    | _ => none
  | .exchanged i answer =>
    match s.tasks[i]? with
    | some (.exchange code state) => some ((s.dropTask i).finishExchange code state (exchangeCode answer))
    | _ => none
  | .resolved i user orgs =>
    match s.tasks[i]?, s.registry.byId "github" with
    | some task, some (.github users allowed) =>
      (s.dropTask i).finishTask users allowed (resolveUser user orgs) task
    | _, _ => none
  | .localSignin user returnTo =>
    match s.registry.byId "local" with
    | some (.local entries) => some (s.localSignin entries user returnTo)
    | _ => none
  | .request path cookie => some (s.sessionMiddleware path cookie)
  | .apiRequest providerHeader authorization => some (s.apiAuthMiddleware providerHeader authorization)
  | .logout => some s.logout
  | .restart config =>
    match config.registry with
    | .error _ => none
    | .ok registry =>
      some ({ s with
        config := config, registry := registry, boot := s.boot + 1, tasks := [],
        configs := s.configs ++ [config] }, none)

def step (s : Server) (a : Action) : Option Server := (s.handle a).map Prod.fst

end Server

end WorkflowEngine.Runtime.Auth
