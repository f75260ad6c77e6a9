import WorkflowEngine.Lib.Text
import WorkflowEngine.Sandbox.HardenedFetch

/-!
# The error of a failed fetch

`translateFetchError` and `dispatchFetch`. Every run that fails has an ending, read off the events it met: what the
guard refused, what the platform could not parse, how the network failed. The error is compared with that ending.
-/

namespace WorkflowEngine.Sandbox.FetchErrors

set_option autoImplicit false

open Lib FetchResponse NetGuard HardenedFetch

/-! ## The error -/

inductive Reason where
  | badScheme | invalidUrl | privateAddress | redirectLoop | networkError | aborted
  deriving DecidableEq

structure FetchErrorOptions where
  reason : Reason
  url : String
  code : Option String

def buildMessage (options : FetchErrorOptions) : String :=
  let url := if options.url = "" then "" else s!"{options.url}: "
  match options.reason with
  | .badScheme => s!"{url}unsupported scheme"
  | .invalidUrl => s!"{url}invalid URL"
  | .privateAddress => s!"{url}resolved to private address"
  | .redirectLoop => s!"{url}too many redirects"
  | .aborted => s!"{url}aborted"
  | .networkError =>
    let code := options.code.getD ""
    if code = "" then s!"{url}network error" else s!"{url}network error ({code})"

structure FetchError extends FetchErrorOptions where
  message : String

def FetchError.new (reason : Reason) (url : String) (code : Option String) : FetchError :=
  ⟨⟨reason, url, code⟩, buildMessage ⟨reason, url, code⟩⟩

@[simp] theorem FetchError.reason_new (reason : Reason) (url : String) (code : Option String) :
    (FetchError.new reason url code).reason = reason := rfl

def startsWith (message start : String) : Bool := start.toList.isPrefixOf message.toList

def saysInvalidUrl (err : DriverError) : Bool :=
  err.isTypeError && (startsWith err.message "invalid URL" || startsWith err.message "invalid redirect")

def saysRedirectLoop (err : DriverError) : Bool :=
  includes "redirect chain exceeded".toList err.message.toList

/-- An error that is no `HostBlockedError`. -/
def translateError (err : DriverError) (url : String) : FetchError :=
  if saysInvalidUrl err then .new .invalidUrl url none
  else if err.name = "AbortError" ∨ err.name = "TimeoutError" then .new .aborted url none
  else if saysRedirectLoop err then .new .redirectLoop url none
  else .new .networkError url err.code

/-- What the translation reads of an error. -/
def fields : NetError → DriverError
  | .hostBlocked _ message => ⟨false, "HostBlockedError", message, none⟩
  | .typeError message => ⟨true, "TypeError", message, none⟩
  | .error message => ⟨false, "Error", message, none⟩
  | .caused message _ => ⟨false, "Error", message, none⟩
  | .driver e => e

def translateFetchError (err : NetError) (url : String) : FetchError :=
  match err with
  | .hostBlocked .badScheme _ => .new .badScheme url none
  | .hostBlocked .privateIp _ => .new .privateAddress url none
  | .hostBlocked .redirectToPrivate _ => .new .privateAddress url none
  | .hostBlocked .zoneId _ => .new .privateAddress url none
  | err => translateError (fields err) url

def jsThrown : JsError → DriverError
  | .typeError message => ⟨true, "TypeError", message, none⟩
  | .rangeError message => ⟨false, "RangeError", message, none⟩

def ofResponseReason : FetchErrorReason → Reason
  | .invalidUrl => .invalidUrl
  | .redirectLoop => .redirectLoop
  | .networkError => .networkError

theorem reason_of_name {e : DriverError} (h : ¬ (e.name = "AbortError" ∨ e.name = "TimeoutError")) (url : String) :
    (translateError e url).reason =
      if saysInvalidUrl e then .invalidUrl else if saysRedirectLoop e then .redirectLoop else .networkError := by
  unfold translateError
  rw [if_neg h]
  split
  · rfl
  · split <;> rfl

/-- On the errors of the `Response` constructor the translation is the one of the response. -/
theorem translateFetchError_jsThrown (err : JsError) (url : String) :
    (translateFetchError (.driver (jsThrown err)) url).reason =
      ofResponseReason (FetchResponse.translateFetchError err url).reason := by
  have hresponse : FetchResponse.translateFetchError err url =
      if saysInvalidUrl (jsThrown err) then ⟨.invalidUrl, url⟩
      else if saysRedirectLoop (jsThrown err) then ⟨.redirectLoop, url⟩ else ⟨.networkError, url⟩ := by
    cases err <;> rfl
  have hname : ¬ ((jsThrown err).name = "AbortError" ∨ (jsThrown err).name = "TimeoutError") := by
    cases err <;> simp [jsThrown]
  rw [hresponse]
  refine (reason_of_name hname url).trans ?_
  by_cases hurl : saysInvalidUrl (jsThrown err) = true
  · simp [hurl, ofResponseReason]
  · by_cases hloop : saysRedirectLoop (jsThrown err) = true <;> simp [hurl, hloop, ofResponseReason]

/-! ## The events of a run -/

/-- How a request or a body fails: the signal fired, by the caller or by the clock, or anything else. -/
inductive Failure where
  | signal (timeout : Bool)
  | driver (e : DriverError)
  deriving DecidableEq

def Failure.thrown : Failure → NetError
  | .signal false => .driver ⟨false, "AbortError", "This operation was aborted", none⟩
  | .signal true => .driver ⟨false, "TimeoutError", "The operation was aborted due to timeout", none⟩
  | .driver e => .driver e

structure Resolution where
  disableSsrfProtection : Option String
  addresses : String → Except DriverError (List String)

def Resolution.lookup (r : Resolution) : Lookup :=
  ⟨r.disableSsrfProtection, fun hostname => (r.addresses hostname).mapError .driver⟩

structure Connection where
  options : ConnectOptions
  resolution : Resolution

def Connection.attempt (c : Connection) : Attempt := ⟨c.options, c.resolution.lookup⟩

structure Reply where
  statusCode : Nat
  headers : OrderedMap String HeaderValue
  bodyText : Except Failure String

def Reply.answer (r : Reply) : Answer := ⟨r.statusCode, r.headers, r.bodyText.mapError Failure.thrown⟩

structure HopEvents where
  connections : List Connection
  outcome : Except Failure Reply

def HopEvents.answer (e : HopEvents) : HopAnswer where
  attempts := e.connections.map Connection.attempt
  outcome :=
    match e.outcome with
    | .error f => .error f.thrown
    | .ok reply => .ok reply.answer

/-- What the guest hands over, what the world does, and what the constructor of `Response` makes of an answer. -/
structure Call where
  platform : Platform
  url : String
  method : String
  headers : List (String × String)
  body : Option String
  events : Nat → HopEvents
  dataResponse : Except Failure Response
  respond : Returned → Except JsError Response

def Call.init (c : Call) : RequestInit := ⟨some c.method, some c.headers, c.body.map .text⟩

def Call.fetch (c : Call) : Outcome :=
  (hardenedFetch c.platform (.text c.url) c.init fun hop => (c.events hop).answer).2

def dispatchFetch (c : Call) : Except FetchError Response :=
  match c.fetch with
  | .thrown e => .error (translateFetchError e c.url)
  | .data _ _ => c.dataResponse.mapError fun f => translateFetchError f.thrown c.url
  | .returned r => (c.respond r).mapError fun e => translateFetchError (.driver (jsThrown e)) c.url

/-! ## How a run ends -/

inductive Ending where
  /-- A URL does not parse. -/
  | unparsed
  | badLocation
  /-- A `data:` URL does not parse, and what undici throws for it. -/
  | unparsedData (f : Failure)
  /-- The first URL has the scheme `data` without the text beginning with it. -/
  | hiddenData
  | otherScheme
  | refused
  | sixthRedirect
  | failed (f : Failure)
  deriving DecidableEq

/-- The reason that names the cause. -/
def Ending.reason : Ending → Reason
  | .unparsed => .invalidUrl
  | .badLocation => .invalidUrl
  | .unparsedData _ => .invalidUrl
  | .hiddenData => .networkError
  | .otherScheme => .badScheme
  | .refused => .privateAddress
  | .sixthRedirect => .redirectLoop
  | .failed (.signal _) => .aborted
  | .failed (.driver _) => .networkError

def guardRefuses (parse : String → Option IpAddress) (resolution : Resolution) (hostname : String) : Bool :=
  hasZoneIdentifier hostname ||
    match resolution.addresses (bareHost hostname) with
    | .error _ => false
    | .ok addresses => !resolution.lookup.disabled && addresses.any (isBlockedAddress parse)

/-- The first connection that is not made. -/
def connectionsEnding (parse : String → Option IpAddress) : List Connection → Option Ending
  | [] => none
  | c :: rest =>
    if guardRefuses parse c.resolution c.options.hostname then some .refused
    else
      match c.resolution.addresses (bareHost c.options.hostname) with
      | .error e => some (.failed (.driver e))
      | .ok [] =>
        some (.failed (.driver
          ⟨false, "Error", s!"dns.lookup returned no addresses for {c.options.hostname}", none⟩))
      | .ok (_ :: _) => connectionsEnding parse rest

def HopEvents.meets (parse : String → Option IpAddress) (e : HopEvents) : Except Ending Reply :=
  match connectionsEnding parse e.connections with
  | some ending => .error ending
  | none => e.outcome.mapError .failed

/-- Where a reply sends the run on to. -/
def Reply.target (r : Reply) : Option String :=
  if isRedirect r.statusCode then
    match extractLocation r.headers with
    | none => none
    | some location => if location = "" then none else some location
  else none

section Endings
variable (platform : Platform) (events : Nat → HopEvents)

def endingFrom : (rounds hop : Nat) → FetchState → Except Ending Returned
  | 0, _, _ => .error .sixthRedirect
  | rounds + 1, hop, state =>
    match platform.newUrl state.currentUrl none with
    | none => .error .unparsed
    | some parsed =>
      if parsed.protocol ≠ "http:" ∧ parsed.protocol ≠ "https:" then
        .error (if hop = 0 ∧ parsed.protocol = "data:" then .hiddenData else .otherScheme)
      else
        match (events hop).meets platform.parseAddress with
        | .error ending => .error ending
        | .ok reply =>
          match reply.bodyText with
          | .error f => .error (.failed f)
          | .ok text =>
            match reply.target with
            | none => .ok ⟨reply.statusCode, reply.headers, text, state.currentUrl⟩
            | some location =>
              if maxRedirects ≤ hop then .error .sixthRedirect
              else if (platform.newUrl location (some state.currentUrl)).isNone then .error .badLocation
              else
                match applyRedirect platform state reply.statusCode location parsed with
                | .error _ => .error (.failed (.driver ⟨true, "TypeError", "Invalid URL", none⟩))
                | .ok next => endingFrom rounds (hop + 1) next

end Endings

def Call.endingFrom (c : Call) : Except Ending Returned :=
  match headersToRecord (some c.headers) with
  | .error e => .error (.failed (.driver (fields e)))
  | .ok headers =>
    FetchErrors.endingFrom c.platform c.events (maxRedirects + 1) 0
      ⟨c.url, initialMethod c.platform c.init, headers, c.body⟩

/-- Why a call fails, if it does. -/
def Call.ending (c : Call) : Except Ending Response :=
  if isDataUrl c.url then
    c.dataResponse.mapError fun f => if (c.platform.newUrl c.url none).isNone then .unparsedData f else .failed f
  else
    match c.endingFrom with
    | .error ending => .error ending
    | .ok r => (c.respond r).mapError fun e => .failed (.driver (jsThrown e))

/-! ## Which endings are named -/

/-- The error of a driver that the translation does not take for another one. -/
def PlainError (e : DriverError) : Prop :=
  saysInvalidUrl e = false ∧ (e.name ≠ "AbortError" ∧ e.name ≠ "TimeoutError") ∧ saysRedirectLoop e = false

/-- The endings whose error names them. -/
def Ending.Named : Ending → Prop
  | .unparsed | .otherScheme | .refused | .failed (.signal _) => True
  | .badLocation | .sixthRedirect | .hiddenData | .unparsedData (.signal _) => False
  | .failed (.driver e) => PlainError e
  | .unparsedData (.driver e) => saysInvalidUrl e = true

/-- The reason that the error of an ending gives. -/
def Ending.given : Ending → Reason
  | .unparsed => .invalidUrl
  | .badLocation | .hiddenData | .otherScheme => .badScheme
  | .refused | .sixthRedirect => .privateAddress
  | .unparsedData f | .failed f => (translateFetchError f.thrown "").reason

theorem reason_translateError (e : DriverError) (url url' : String) :
    (translateError e url).reason = (translateError e url').reason := by
  unfold translateError
  split
  · rfl
  · split
    · rfl
    · split <;> rfl

theorem reason_translateFetchError (e : NetError) (url url' : String) :
    (translateFetchError e url).reason = (translateFetchError e url').reason := by
  cases e with
  | hostBlocked reason message => cases reason <;> rfl
  | typeError message => exact reason_translateError _ _ _
  | error message => exact reason_translateError _ _ _
  | caused message cause => exact reason_translateError _ _ _
  | driver e => exact reason_translateError _ _ _

theorem translateError_networkError (e : DriverError) (url : String) :
    (translateError e url).reason = .networkError ↔ PlainError e := by
  unfold translateError PlainError
  by_cases hurl : saysInvalidUrl e = true
  · simp [hurl]
  · rw [if_neg hurl]
    by_cases hname : e.name = "AbortError" ∨ e.name = "TimeoutError"
    · rw [if_pos hname, ← not_or]
      simp [hname]
    · rw [if_neg hname, ← not_or]
      by_cases hloop : saysRedirectLoop e = true
      · simp [hloop]
      · simp [hurl, hname, hloop]

theorem translateError_invalidUrl (e : DriverError) (url : String) :
    (translateError e url).reason = .invalidUrl ↔ saysInvalidUrl e = true := by
  unfold translateError
  by_cases hurl : saysInvalidUrl e = true
  · simp [hurl]
  · rw [if_neg hurl]
    by_cases hname : e.name = "AbortError" ∨ e.name = "TimeoutError"
    · simp [hurl, hname]
    · by_cases hloop : saysRedirectLoop e = true <;> simp [hurl, hname, hloop]

theorem reason_signal (timeout : Bool) (url : String) :
    (translateFetchError (Failure.signal timeout).thrown url).reason = .aborted := by
  cases timeout <;> rfl

theorem Ending.given_eq_reason_iff (ending : Ending) : ending.given = ending.reason ↔ ending.Named := by
  cases ending with
  | unparsed => simp [given, reason, Named]
  | badLocation => simp [given, reason, Named]
  | hiddenData => simp [given, reason, Named]
  | otherScheme => simp [given, reason, Named]
  | refused => simp [given, reason, Named]
  | sixthRedirect => simp [given, reason, Named]
  | unparsedData f =>
    cases f with
    | signal timeout => simp [given, reason, Named, reason_signal]
    | driver e => exact translateError_invalidUrl e ""
  | failed f =>
    cases f with
    | signal timeout => simp [given, reason, Named, reason_signal]
    | driver e => exact translateError_networkError e ""

/-! ## What the code throws -/

/-- The error gives the reason that is given for the ending. -/
def Blames (e : NetError) (ending : Ending) : Prop := ∀ url, (translateFetchError e url).reason = ending.given

theorem blames_driver (e : DriverError) : Blames (.driver e) (.failed (.driver e)) :=
  fun url => reason_translateFetchError _ url ""

theorem blames_thrown (f : Failure) : Blames f.thrown (.failed f) := fun url => reason_translateFetchError _ url ""

section Guard
variable {parse : String → Option IpAddress} {c : Connection}

theorem lookup_error {r : Resolution} {hostname : String} {e : DriverError} (h : r.addresses hostname = .error e) :
    r.lookup.addresses hostname = .error (.driver e) := by
  simp [Resolution.lookup, h, Except.mapError]

theorem lookup_ok {r : Resolution} {hostname : String} {addresses : List String}
    (h : r.addresses hostname = .ok addresses) : r.lookup.addresses hostname = .ok addresses := by
  simp [Resolution.lookup, h, Except.mapError]

theorem assertHostIsPublic_refused (h : guardRefuses parse c.resolution c.options.hostname = true) :
    ∃ reason message,
      assertHostIsPublic parse c.resolution.lookup c.options.hostname = .error (.hostBlocked reason message) ∧
      (reason = .zoneId ∨ reason = .privateIp) := by
  unfold assertHostIsPublic
  by_cases hzone : hasZoneIdentifier c.options.hostname = true
  · rw [if_pos hzone]
    exact ⟨_, _, rfl, Or.inl rfl⟩
  · rw [if_neg hzone]
    simp only [guardRefuses, hzone, Bool.false_or] at h
    cases haddresses : c.resolution.addresses (bareHost c.options.hostname) with
    | error e => simp [haddresses] at h
    | ok addresses =>
      rw [haddresses] at h
      cases addresses with
      | nil => simp at h
      | cons first rest =>
        simp only at h
        rw [lookup_ok haddresses]
        simp only [h, if_true]
        exact ⟨_, _, rfl, Or.inr rfl⟩

theorem assertHostIsPublic_allowed (h : ¬ guardRefuses parse c.resolution c.options.hostname = true) :
    (∀ e, c.resolution.addresses (bareHost c.options.hostname) = .error e →
      assertHostIsPublic parse c.resolution.lookup c.options.hostname = .error (.driver e)) ∧
    (c.resolution.addresses (bareHost c.options.hostname) = .ok [] →
      assertHostIsPublic parse c.resolution.lookup c.options.hostname =
        .error (.error s!"dns.lookup returned no addresses for {c.options.hostname}")) ∧
    (∀ first rest, c.resolution.addresses (bareHost c.options.hostname) = .ok (first :: rest) →
      assertHostIsPublic parse c.resolution.lookup c.options.hostname = .ok first) := by
  simp only [guardRefuses, Bool.or_eq_true, not_or] at h
  obtain ⟨hzone, hblocked⟩ := h
  unfold assertHostIsPublic
  rw [if_neg hzone]
  refine ⟨?_, ?_, ?_⟩
  · intro e he
    rw [lookup_error he]
  · intro he
    rw [lookup_ok he]
  · intro first rest he
    rw [he] at hblocked
    rw [lookup_ok he]
    exact if_neg hblocked

end Guard

section Run
variable (platform : Platform)

theorem blames_refused {reason : BlockReason} (h : reason = .zoneId ∨ reason = .privateIp) (message : String)
    (state : FetchState) (hop : Nat) : Blames (rethrow state hop (.hostBlocked reason message)) .refused := by
  intro url
  simp only [rethrow, maxCauseDepth, unwrapHostBlocked]
  by_cases hredirect : 0 < hop ∧ reason = .privateIp
  · rw [if_pos hredirect]
    rfl
  · rw [if_neg hredirect]
    rcases h with rfl | rfl <;> rfl

theorem connectAll_ending (connections : List Connection) :
    (connectionsEnding platform.parseAddress connections = none ∧
        (connectAll platform (connections.map Connection.attempt)).2 = .ok ()) ∨
      ∃ ending e, connectionsEnding platform.parseAddress connections = some ending ∧
        (connectAll platform (connections.map Connection.attempt)).2 = .error e ∧
        ∀ state hop, Blames (rethrow state hop e) ending := by
  induction connections with
  | nil => exact Or.inl ⟨rfl, rfl⟩
  | cons c rest ih =>
    rw [connectionsEnding, List.map_cons, connectAll, connectAsync]
    by_cases hrefused : guardRefuses platform.parseAddress c.resolution c.options.hostname = true
    · obtain ⟨reason, message, hthrown, hreason⟩ := assertHostIsPublic_refused hrefused
      rw [if_pos hrefused]
      refine Or.inr ⟨.refused, .hostBlocked reason message, rfl, ?_, ?_⟩
      · simp [Connection.attempt, hthrown]
      · exact blames_refused hreason message
    · obtain ⟨herror, hnone, hsome⟩ := assertHostIsPublic_allowed hrefused
      rw [if_neg hrefused]
      cases haddresses : c.resolution.addresses (bareHost c.options.hostname) with
      | error e =>
        refine Or.inr ⟨.failed (.driver e), .driver e, rfl, ?_, fun _ _ => blames_driver e⟩
        simp [Connection.attempt, herror e haddresses]
      | ok addresses =>
        cases addresses with
        | nil =>
          refine Or.inr ⟨_, .error s!"dns.lookup returned no addresses for {c.options.hostname}", rfl, ?_, ?_⟩
          · simp [Connection.attempt, hnone haddresses]
          · intro state hop url
            exact reason_translateError _ url ""
        | cons first more =>
          have hok := hsome first more haddresses
          simp only [Connection.attempt] at hok ⊢
          rw [hok]
          exact ih

theorem rethrow_thrown (state : FetchState) (hop : Nat) (f : Failure) : rethrow state hop f.thrown = f.thrown := by
  cases f with
  | signal timeout => cases timeout <;> rfl
  | driver e => rfl

/-- A hop ends the run exactly where its events do. -/
theorem issueHopRequest_meets (state : FetchState) (hop : Nat) (events : HopEvents) :
    (∃ reply, events.meets platform.parseAddress = .ok reply ∧
        (issueHopRequest platform state hop events.answer).2 = .ok reply.answer) ∨
      ∃ ending e, events.meets platform.parseAddress = .error ending ∧
        (issueHopRequest platform state hop events.answer).2 = .error e ∧ Blames e ending := by
  rw [HopEvents.meets, issueHopRequest, HopEvents.answer]
  rcases hconnect : connectAll platform (events.connections.map Connection.attempt) with ⟨sockets, result⟩
  rcases connectAll_ending platform events.connections with ⟨hnone, hok⟩ | ⟨ending, e, hsome, herror, hblames⟩
  · rw [hconnect] at hok
    cases hok
    rw [hnone]
    cases houtcome : events.outcome with
    | error f =>
      refine Or.inr ⟨.failed f, f.thrown, rfl, ?_, blames_thrown f⟩
      simp [rethrow_thrown]
    | ok reply => exact Or.inl ⟨reply, rfl, rfl⟩
  · rw [hconnect] at herror
    cases herror
    rw [hsome]
    exact Or.inr ⟨ending, _, rfl, rfl, hblames state hop⟩

/-- The outcome of a run and the ending that its events have. -/
inductive Agree : Outcome → Except Ending Returned → Prop
  | thrown {e : NetError} {ending : Ending} (h : Blames e ending) : Agree (.thrown e) (.error ending)
  | returned (r : Returned) : Agree (.returned r) (.ok r)

section Reply
variable {reply : Reply} {state : FetchState} {parsed : Url} {hop : Nat}

theorem continueWith_bodyFailed {f : Failure} (h : reply.bodyText = .error f) :
    continueWith platform state parsed hop reply.answer = .inr (.thrown f.thrown) := by
  simp only [continueWith, Reply.answer, h, Except.mapError]
  split
  · split
    · rfl
    · split <;> rfl
  · rfl

theorem continueWith_final {text : String} (h : reply.bodyText = .ok text) (htarget : reply.target = none) :
    continueWith platform state parsed hop reply.answer =
      .inr (.returned ⟨reply.statusCode, reply.headers, text, state.currentUrl⟩) := by
  unfold Reply.target at htarget
  simp only [continueWith, Reply.answer, h, Except.mapError]
  split
  · rename_i hredirect
    rw [if_pos hredirect] at htarget
    split
    · rfl
    · rename_i location hlocation
      rw [hlocation] at htarget
      split
      · rfl
      · rename_i hempty
        simp [hempty] at htarget
  · rfl

theorem target_eq_some {location : String} (h : reply.target = some location) :
    isRedirect reply.statusCode = true ∧ extractLocation reply.headers = some location ∧ location ≠ "" := by
  unfold Reply.target at h
  split at h
  · rename_i hredirect
    split at h
    · cases h
    · rename_i found hfound
      split at h
      · cases h
      · rename_i hempty
        cases h
        exact ⟨hredirect, hfound, hempty⟩
  · cases h

theorem continueWith_last {text location : String} (h : reply.bodyText = .ok text)
    (htarget : reply.target = some location) (hlast : maxRedirects ≤ hop) :
    continueWith platform state parsed hop reply.answer = .inr (.thrown redirectChainExceeded) := by
  obtain ⟨hredirect, hfound, hempty⟩ := target_eq_some htarget
  simp [continueWith, Reply.answer, h, Except.mapError, hredirect, hfound, hempty, hlast]

theorem continueWith_error {text location : String} (h : reply.bodyText = .ok text)
    (htarget : reply.target = some location) (hlast : ¬ maxRedirects ≤ hop) {e : NetError}
    (happlied : applyRedirect platform state reply.statusCode location parsed = .error e) :
    continueWith platform state parsed hop reply.answer = .inr (.thrown e) := by
  obtain ⟨hredirect, hfound, hempty⟩ := target_eq_some htarget
  simp [continueWith, Reply.answer, h, Except.mapError, hredirect, hfound, hempty, hlast, happlied]

theorem continueWith_next {text location : String} (h : reply.bodyText = .ok text)
    (htarget : reply.target = some location) (hlast : ¬ maxRedirects ≤ hop) {next : FetchState}
    (happlied : applyRedirect platform state reply.statusCode location parsed = .ok next) :
    continueWith platform state parsed hop reply.answer = .inl next := by
  obtain ⟨hredirect, hfound, hempty⟩ := target_eq_some htarget
  simp [continueWith, Reply.answer, h, Except.mapError, hredirect, hfound, hempty, hlast, happlied]

theorem applyRedirect_unparsed {location : String} (h : platform.newUrl location (some state.currentUrl) = none)
    (statusCode : Nat) : applyRedirect platform state statusCode location parsed =
      .error (.hostBlocked .badScheme s!"invalid redirect target: {location}") := by
  simp [applyRedirect, h]

/-- Only a serialisation that does not parse again can fail past the first parse. -/
theorem applyRedirect_error {location : String} {statusCode : Nat} {e : NetError}
    (hparsed : (platform.newUrl location (some state.currentUrl)).isNone ≠ true)
    (h : applyRedirect platform state statusCode location parsed = .error e) : e = .typeError "Invalid URL" := by
  unfold applyRedirect at h
  cases hnext : platform.newUrl location (some state.currentUrl) with
  | none =>
    rw [hnext] at hparsed
    exact absurd rfl hparsed
  | some next =>
    rw [hnext] at h
    cases hagain : platform.newUrl next.href none with
    | none =>
      simp only [hagain] at h
      cases h
      rfl
    | some nextParsed =>
      simp only [hagain] at h
      by_cases hchanging : statusCode ∈ methodChanging
      · rw [if_pos hchanging] at h
        cases h
      · rw [if_neg hchanging] at h
        cases h

end Reply

theorem blames_unparsed (url : String) : Blames (.typeError s!"invalid URL: {url}") .unparsed := by
  intro url'
  refine (translateError_invalidUrl _ url').mpr ?_
  have hstart : startsWith s!"invalid URL: {url}" "invalid URL" = true := by
    rw [startsWith, List.isPrefixOf_iff_prefix]
    exact ⟨": ".toList ++ url.toList, by simp [toString]⟩
  simp [fields, saysInvalidUrl, hstart]

theorem follow_agree (events : Nat → HopEvents) (rounds hop : Nat) (state : FetchState) :
    Agree (follow platform (fun hop => (events hop).answer) rounds hop state).2
      (endingFrom platform events rounds hop state) := by
  induction rounds generalizing hop state with
  | zero => exact .thrown fun _ => rfl
  | succ rounds ih =>
    rw [follow, endingFrom, parseUrlOrThrow]
    cases hparsed : platform.newUrl state.currentUrl none with
    | none => exact .thrown (blames_unparsed state.currentUrl)
    | some parsed =>
      simp only [validateScheme]
      by_cases hscheme : parsed.protocol ≠ "http:" ∧ parsed.protocol ≠ "https:"
      · rw [if_pos hscheme, if_pos hscheme]
        refine .thrown fun url => ?_
        split <;> rfl
      · rw [if_neg hscheme, if_neg hscheme]
        simp only
        rcases issueHopRequest_meets platform state hop (events hop) with
          ⟨reply, hmeets, hissued⟩ | ⟨ending, e, hmeets, hissued, hblames⟩
        · rw [hmeets, hissued]
          simp only
          cases hbody : reply.bodyText with
          | error f =>
            rw [continueWith_bodyFailed platform hbody]
            exact .thrown (blames_thrown f)
          | ok text =>
            simp only
            cases htarget : reply.target with
            | none =>
              rw [continueWith_final platform hbody htarget]
              exact .returned _
            | some location =>
              simp only
              by_cases hlast : maxRedirects ≤ hop
              · rw [continueWith_last platform hbody htarget hlast, if_pos hlast]
                exact .thrown fun _ => rfl
              · rw [if_neg hlast]
                by_cases hnone : (platform.newUrl location (some state.currentUrl)).isNone = true
                · rw [if_pos hnone, continueWith_error platform hbody htarget hlast
                    (applyRedirect_unparsed platform (Option.isNone_iff_eq_none.mp hnone) _)]
                  exact .thrown fun _ => rfl
                · rw [if_neg hnone]
                  cases happlied : applyRedirect platform state reply.statusCode location parsed with
                  | error e =>
                    rw [continueWith_error platform hbody htarget hlast happlied]
                    cases applyRedirect_error platform hnone happlied
                    exact .thrown fun url => reason_translateError _ url ""
                  | ok next =>
                    rw [continueWith_next platform hbody htarget hlast happlied]
                    exact ih (hop + 1) next
        · rw [hmeets, hissued]
          exact .thrown hblames

end Run

theorem headersToRecord_error {h : Option (List (String × String))} {e : NetError}
    (he : headersToRecord h = .error e) : ∃ message, e = .typeError message := by
  unfold headersToRecord at he
  split at he
  · cases he
  · split at he
    · cases he
      exact ⟨_, rfl⟩
    · cases he

/-! ## The reason of a failed call -/

/-- Every error of the call has the reason that names its cause. -/
def NamesCause (c : Call) : Prop :=
  ∀ err, dispatchFetch c = .error err → ∃ ending, c.ending = .error ending ∧ err.reason = ending.reason

/-- A call fails where its events have an ending, with the reason that the code gives for it. -/
inductive Settles : Except FetchError Response → Except Ending Response → Prop
  | failed {err : FetchError} {ending : Ending} (h : err.reason = ending.given) :
      Settles (.error err) (.error ending)
  | ok (r : Response) : Settles (.ok r) (.ok r)

theorem settles_data (c : Call) (h : isDataUrl c.url = true) : Settles (dispatchFetch c) c.ending := by
  have hfetch : c.fetch = .data c.url c.init.method := by simp [Call.fetch, hardenedFetch, normalizeInputUrl, h]
  rw [dispatchFetch, hfetch, Call.ending, if_pos h]
  cases c.dataResponse with
  | error f =>
    refine .failed ?_
    split <;> exact reason_translateFetchError _ c.url ""
  | ok r => exact .ok r

theorem agree_fetch (c : Call) (h : isDataUrl c.url ≠ true) : Agree c.fetch c.endingFrom := by
  rw [Call.fetch, hardenedFetch, normalizeInputUrl, if_neg h, Call.endingFrom]
  have hbody : bodyFromInit c.init = c.body := by
    unfold bodyFromInit Call.init
    cases c.body <;> rfl
  have hheaders : c.init.headers = some c.headers := rfl
  rw [hheaders]
  cases hrecord : headersToRecord (some c.headers) with
  | error e =>
    obtain ⟨message, rfl⟩ := headersToRecord_error hrecord
    exact .thrown fun url => reason_translateError _ url ""
  | ok headers =>
    simp only [hbody]
    exact follow_agree c.platform c.events (maxRedirects + 1) 0 _

theorem settles_dispatchFetch (c : Call) : Settles (dispatchFetch c) c.ending := by
  by_cases h : isDataUrl c.url = true
  · exact settles_data c h
  · have hagree := agree_fetch c h
    rw [dispatchFetch, Call.ending, if_neg h]
    cases hfetch : c.fetch with
    | data url method =>
      rw [hfetch] at hagree
      cases hagree
    | thrown e =>
      rw [hfetch] at hagree
      cases hending : c.endingFrom with
      | error ending =>
        rw [hending] at hagree
        cases hagree with
        | thrown hblames => exact .failed (hblames c.url)
      | ok r =>
        rw [hending] at hagree
        cases hagree
    | returned r =>
      rw [hfetch] at hagree
      cases hending : c.endingFrom with
      | error ending =>
        rw [hending] at hagree
        cases hagree
      | ok r' =>
        rw [hending] at hagree
        cases hagree
        simp only
        cases c.respond r with
        | error e => exact .failed (reason_translateError _ c.url "")
        | ok response => exact .ok response

/-- The reason names the cause exactly in the calls whose ending is one of those that the code tells apart. -/
theorem namesCause_iff (c : Call) : NamesCause c ↔ ∀ ending, c.ending = .error ending → ending.Named := by
  have hsettles := settles_dispatchFetch c
  unfold NamesCause
  generalize hresult : dispatchFetch c = result at hsettles
  generalize hending : c.ending = ended at hsettles
  cases hsettles with
  | @failed err ending hgiven =>
    simp only [Except.error.injEq, forall_eq', exists_eq_left']
    rw [hgiven]
    exact ending.given_eq_reason_iff
  | ok r => simp

/-! ## Where the reason is another one -/

/-- A host that answers every request with a redirect to itself. -/
def loopCall : Call where
  platform :=
    { newUrl := fun url _ => if url = "http://a/" then some ⟨url, "http:", "http://a"⟩ else none
      toUpperCase := id
      parseAddress := fun _ => some (.ipv4 (octets 8 8 8 8)) }
  url := "http://a/"
  method := "GET"
  headers := []
  body := none
  events := fun _ =>
    { connections := [⟨⟨"a", none⟩, ⟨none, fun _ => .ok ["8.8.8.8"]⟩⟩]
      outcome := .ok ⟨302, (OrderedMap.empty).set "location" (.single "http://a/"), .ok ""⟩ }
  dataResponse := .error (.signal false)
  respond := fun r => .ok ⟨r.statusCode, "", [], r.bodyText, r.finalUrl⟩

/-- The sixth redirect is reported as a private address. -/
theorem loopCall_privateAddress :
    dispatchFetch loopCall = .error (.new .privateAddress "http://a/" none) ∧
      loopCall.ending = .error .sixthRedirect ∧ ¬ NamesCause loopCall := by
  have hending : loopCall.ending = .error .sixthRedirect := rfl
  refine ⟨rfl, hending, ?_⟩
  intro h
  obtain ⟨ending, hcause, hreason⟩ := h _ rfl
  rw [hending] at hcause
  cases hcause
  cases hreason

end WorkflowEngine.Sandbox.FetchErrors
