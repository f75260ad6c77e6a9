import WorkflowEngine.Sandbox.FetchResponse
import WorkflowEngine.Sandbox.NetGuard

/-!
# Hardened fetch

The redirect loop of `hardened-fetch.ts`. The URL parser, the case mapping of methods and what the network
answers are parameters; a run leaves a record of every request and of the sockets opened for it.
-/

namespace WorkflowEngine.Sandbox.HardenedFetch

set_option autoImplicit false

open Lib FetchResponse NetGuard

/-! ## Requests -/

structure Url where
  href : String
  protocol : String
  origin : String
  deriving DecidableEq

/-- What the platform and `ipaddr.js` provide. -/
structure Platform where
  /-- `new URL(url, base)`. -/
  newUrl : String → Option String → Option Url
  toUpperCase : String → String
  /-- `ipaddr.parse`. -/
  parseAddress : String → Option IpAddress

/-- A `Request` is read for its URL only. -/
inductive RequestInfo where
  | text (url : String)
  | url (href : String)
  | request (url method : String) (headers : List (String × String)) (body : Option String)

def normalizeInputUrl : RequestInfo → String
  | .text url => url
  | .url href => href
  | .request url _ _ _ => url

/-- A body that is not a string comes with its `String(body)`. -/
inductive InitBody where
  | text (body : String)
  | other (asString : String)

structure RequestInit where
  method : Option String
  headers : Option (List (String × String))
  body : Option InitBody

def bodyFromInit (init : RequestInit) : Option String :=
  match init.body with
  | none => none
  | some (.text body) => some body
  | some (.other asString) => some asString

/-- Header names and schemes are ASCII where it matters. -/
def toLowerCase (s : String) : String := String.ofList (s.toList.map Char.toLower)

abbrev HeaderRecord := OrderedMap String String

/-- `forEach` gives the names in lower case. -/
def lowerNames (h : HeaderList) : HeaderList := h.map fun e => (toLowerCase e.1, e.2)

def headersToRecord : Option (List (String × String)) → Except NetError HeaderRecord
  | none => .ok .empty
  | some fields =>
    match HeaderList.appendAll [] fields with
    | .error message => .error (.typeError message)
    | .ok h => .ok (OrderedMap.assignAll (lowerNames h).sortAndCombine)

def stripHeader (headers : HeaderRecord) (lowerName : String) : HeaderRecord :=
  OrderedMap.assignAll (headers.entries.filter fun e => toLowerCase e.1 ≠ lowerName)

structure FetchState where
  currentUrl : String
  currentMethod : String
  currentHeaders : HeaderRecord
  currentBody : Option String

/-! ## One hop -/

def maxRedirects : Nat := 5

def methodChanging : List Nat := [301, 302, 303]

section Hop
variable (platform : Platform)

def parseUrlOrThrow (currentUrl : String) : Except NetError Url :=
  match platform.newUrl currentUrl none with
  | some parsed => .ok parsed
  | none => .error (.typeError s!"invalid URL: {currentUrl}")

def validateScheme (parsed : Url) : Except NetError Unit :=
  if parsed.protocol ≠ "http:" ∧ parsed.protocol ≠ "https:" then
    .error (.hostBlocked .badScheme s!"unsupported scheme: {parsed.protocol}")
  else .ok ()

def applyRedirect (state : FetchState) (statusCode : Nat) (location : String) (prevParsed : Url) :
    Except NetError FetchState :=
  match platform.newUrl location (some state.currentUrl) with
  | none => .error (.hostBlocked .badScheme s!"invalid redirect target: {location}")
  | some next =>
    match platform.newUrl next.href none with
    | none => .error (.typeError "Invalid URL")
    | some nextParsed =>
      let headers :=
        if nextParsed.origin ≠ prevParsed.origin then stripHeader state.currentHeaders "authorization"
        else state.currentHeaders
      if statusCode ∈ methodChanging then
        .ok {
          currentUrl := next.href
          currentMethod :=
            if state.currentMethod ≠ "GET" ∧ state.currentMethod ≠ "HEAD" then "GET" else state.currentMethod
          currentHeaders := stripHeader headers "content-length"
          currentBody := none }
      else
        .ok { state with currentUrl := next.href, currentHeaders := headers }

/-- A response of the network; reading its body may fail. -/
structure Answer where
  statusCode : Nat
  headers : OrderedMap String HeaderValue
  bodyText : Except NetError String

structure Attempt where
  options : ConnectOptions
  lookup : Lookup

/-- What happens to the request of one hop: the connections that undici asks the connector for, none when one is
reused, and how the request ends when all are made. -/
structure HopAnswer where
  attempts : List Attempt
  outcome : Except NetError Answer

/-- The sockets opened, and the error of the first refusal. -/
def connectAll : List Attempt → List Socket × Except NetError Unit
  | [] => ([], .ok ())
  | a :: rest =>
    match connectAsync platform.parseAddress a.lookup a.options with
    | .error e => ([], .error e)
    | .ok socket => (socket :: (connectAll rest).1, (connectAll rest).2)

def maxCauseDepth : Nat := 8

def unwrapHostBlocked : Nat → NetError → Option (BlockReason × String)
  | 0, _ => none
  | _ + 1, .hostBlocked reason message => some (reason, message)
  | depth + 1, .caused _ cause => unwrapHostBlocked depth cause
  | _ + 1, .typeError _ => none
  | _ + 1, .error _ => none
  | _ + 1, .driver _ => none

/-- What `issueHopRequest` throws for an error of the request. -/
def rethrow (state : FetchState) (hop : Nat) (err : NetError) : NetError :=
  match unwrapHostBlocked maxCauseDepth err with
  | some (reason, message) =>
    if 0 < hop ∧ reason = .privateIp then
      .hostBlocked .redirectToPrivate s!"redirect target {state.currentUrl} resolves to a blocked address"
    else .hostBlocked reason message
  | none => err

def issueHopRequest (state : FetchState) (hop : Nat) (answer : HopAnswer) :
    List Socket × Except NetError Answer :=
  match connectAll platform answer.attempts with
  | (sockets, .error e) => (sockets, .error (rethrow state hop e))
  | (sockets, .ok ()) =>
    (sockets, match answer.outcome with
      | .error e => .error (rethrow state hop e)
      | .ok response => .ok response)

/-! ## The loop -/

/-- A request that was issued. -/
structure HopLog where
  state : FetchState
  sockets : List Socket

/-- What `responseFromUndici` makes a response of. -/
structure Returned where
  statusCode : Nat
  headers : OrderedMap String HeaderValue
  bodyText : String
  finalUrl : String

inductive Outcome where
  | data (url : String) (method : Option String)
  | returned (r : Returned)
  | thrown (e : NetError)

def redirectChainExceeded : NetError :=
  .hostBlocked .redirectToPrivate s!"redirect chain exceeded {maxRedirects} hops"

def isRedirect (statusCode : Nat) : Bool := 300 ≤ statusCode && statusCode < 400

/-- What follows a response: the next request or the end. -/
def continueWith (state : FetchState) (parsed : Url) (hop : Nat) (response : Answer) :
    FetchState ⊕ Outcome :=
  let final : Outcome :=
    match response.bodyText with
    | .error e => .thrown e
    | .ok text => .returned ⟨response.statusCode, response.headers, text, state.currentUrl⟩
  if isRedirect response.statusCode then
    match extractLocation response.headers with
    | none => .inr final
    | some location =>
      if location = "" then .inr final
      else
        match response.bodyText with
        | .error e => .inr (.thrown e)
        | .ok _ =>
          if maxRedirects ≤ hop then .inr (.thrown redirectChainExceeded)
          else
            match applyRedirect platform state response.statusCode location parsed with
            | .error e => .inr (.thrown e)
            | .ok next => .inl next
  else .inr final

/-- The loop from hop `hop` on, with `rounds` rounds left; the network answers hop by hop. -/
def follow (answers : Nat → HopAnswer) : (rounds hop : Nat) → FetchState → List HopLog × Outcome
  | 0, _, _ => ([], .thrown redirectChainExceeded)
  | rounds + 1, hop, state =>
    match parseUrlOrThrow platform state.currentUrl with
    | .error e => ([], .thrown e)
    | .ok parsed =>
      match validateScheme parsed with
      | .error e => ([], .thrown e)
      | .ok () =>
        let issued := issueHopRequest platform state hop (answers hop)
        match issued.2 with
        | .error e => ([⟨state, issued.1⟩], .thrown e)
        | .ok response =>
          match continueWith platform state parsed hop response with
          | .inr outcome => ([⟨state, issued.1⟩], outcome)
          | .inl next =>
            let rest := follow answers rounds (hop + 1) next
            (⟨state, issued.1⟩ :: rest.1, rest.2)

def isDataUrl (url : String) : Bool := "data:".toList.isPrefixOf (toLowerCase url).toList

def initialMethod (init : RequestInit) : String := platform.toUpperCase (init.method.getD "GET")

def hardenedFetch (input : RequestInfo) (init : RequestInit) (answers : Nat → HopAnswer) :
    List HopLog × Outcome :=
  let initialUrl := normalizeInputUrl input
  if isDataUrl initialUrl then ([], .data initialUrl init.method)
  else
    match headersToRecord init.headers with
    | .error e => ([], .thrown e)
    | .ok headers =>
      follow platform answers (maxRedirects + 1) 0 {
        currentUrl := initialUrl
        currentMethod := initialMethod platform init
        currentHeaders := headers
        currentBody := bodyFromInit init }

end Hop

/-! ## Header records -/

theorem get?_stripHeader (headers : HeaderRecord) (lowerName key : String) (hkey : key ≠ "__proto__") :
    (stripHeader headers lowerName).get? key = if toLowerCase key = lowerName then none else headers.get? key := by
  apply Option.ext
  intro v
  have hsame : ∀ v w, (key, v) ∈ headers.entries.filter (fun e => toLowerCase e.1 ≠ lowerName) →
      (key, w) ∈ headers.entries.filter (fun e => toLowerCase e.1 ≠ lowerName) → v = w := by
    intro v w hv hw
    have hv' := (headers.get?_eq_some_iff key v).mpr (List.mem_of_mem_filter hv)
    have hw' := (headers.get?_eq_some_iff key w).mpr (List.mem_of_mem_filter hw)
    exact Option.some.inj (hv'.symm.trans hw')
  rw [stripHeader, OrderedMap.get?_assignAll hsame v, List.mem_filter, ← headers.get?_eq_some_iff]
  by_cases hlower : toLowerCase key = lowerName
  · simp [hlower]
  · simp [hlower, hkey]

/-- The record has a name exactly when a field has it in some case. -/
theorem isSome_headersToRecord {fields : List (String × String)} {record : HeaderRecord}
    (h : headersToRecord (some fields) = .ok record) {name : String} (hname : name ≠ "__proto__") :
    (record.get? name).isSome ↔ ∃ e ∈ fields, toLowerCase e.1 = name := by
  rw [headersToRecord] at h
  cases happend : HeaderList.appendAll [] fields with
  | error message =>
    rw [happend] at h
    cases h
  | ok filled =>
    rw [happend] at h
    cases h
    obtain ⟨_, rfl⟩ := HeaderList.appendAll_eq_ok.mp happend
    rw [Option.isSome_iff_ne_none, ne_eq, OrderedMap.get?_eq_none_iff, not_not, OrderedMap.mem_keys_assignAll]
    have hnames : name ∈ (lowerNames ([] ++ HeaderList.normalizeFields fields)).sortAndCombine.map Prod.fst ↔
        ∃ e ∈ fields, toLowerCase e.1 = name := by
      rw [HeaderList.mem_map_fst_sortAndCombine]
      simp [HeaderList.names, HeaderList.normalizeFields, lowerNames]
    rw [hnames]
    exact and_iff_left hname

/-! ## One redirect -/

section Redirect
variable (platform : Platform)

def originOf (url : String) : Option String := (platform.newUrl url none).map (·.origin)

def authorizationOf (state : FetchState) : Option String := state.currentHeaders.get? "authorization"

/-- What a followed answer makes of a request. -/
structure Redirected (statusCode : Nat) (state next : FetchState) : Prop where
  authorization : authorizationOf next =
    if originOf platform next.currentUrl = originOf platform state.currentUrl then authorizationOf state else none
  method : next.currentMethod =
    if statusCode ∈ methodChanging ∧ state.currentMethod ≠ "GET" ∧ state.currentMethod ≠ "HEAD" then "GET"
    else state.currentMethod
  body : next.currentBody = if statusCode ∈ methodChanging then none else state.currentBody

variable {platform}

theorem authorization_strip_length (headers : HeaderRecord) :
    (stripHeader headers "content-length").get? "authorization" = headers.get? "authorization" := by
  rw [get?_stripHeader headers _ _ (by decide), if_neg (by decide)]

theorem authorization_strip (headers : HeaderRecord) :
    (stripHeader headers "authorization").get? "authorization" = none := by
  rw [get?_stripHeader headers _ _ (by decide), if_pos (by decide)]

theorem applyRedirect_ok {state next : FetchState} {statusCode : Nat} {location : String} {parsed : Url}
    (hparsed : platform.newUrl state.currentUrl none = some parsed)
    (h : applyRedirect platform state statusCode location parsed = .ok next) :
    Redirected platform statusCode state next := by
  unfold applyRedirect at h
  cases hnext : platform.newUrl location (some state.currentUrl) with
  | none => simp [hnext] at h
  | some target =>
    cases htarget : platform.newUrl target.href none with
    | none => simp [hnext, htarget] at h
    | some nextParsed =>
      simp only [hnext, htarget] at h
      have horigins : originOf platform target.href = originOf platform state.currentUrl ↔
          nextParsed.origin = parsed.origin := by
        simp [originOf, htarget, hparsed]
      have hauth : (if nextParsed.origin ≠ parsed.origin then stripHeader state.currentHeaders "authorization"
          else state.currentHeaders).get? "authorization" =
          if originOf platform target.href = originOf platform state.currentUrl then authorizationOf state
          else none := by
        by_cases hsame : nextParsed.origin = parsed.origin
        · rw [if_neg (not_not.mpr hsame), if_pos (horigins.mpr hsame)]
          rfl
        · rw [if_pos hsame, if_neg (mt horigins.mp hsame), authorization_strip]
      by_cases hchanging : statusCode ∈ methodChanging
      · rw [if_pos hchanging] at h
        cases h
        refine ⟨?_, ?_, ?_⟩
        · rw [authorizationOf, authorization_strip_length]
          exact hauth
        · simp only [hchanging, true_and]
        · rw [if_pos hchanging]
      · rw [if_neg hchanging] at h
        cases h
        refine ⟨hauth, ?_, ?_⟩
        · simp only [hchanging, false_and, if_false]
        · rw [if_neg hchanging]

theorem continueWith_inl {state next : FetchState} {parsed : Url} {hop : Nat} {response : Answer}
    (hparsed : platform.newUrl state.currentUrl none = some parsed)
    (h : continueWith platform state parsed hop response = .inl next) :
    Redirected platform response.statusCode state next := by
  unfold continueWith at h
  by_cases hredirect : isRedirect response.statusCode = true
  · simp only [hredirect, if_true] at h
    cases hlocation : extractLocation response.headers with
    | none => simp [hlocation] at h
    | some location =>
      simp only [hlocation] at h
      by_cases hempty : location = ""
      · simp [hempty] at h
      · rw [if_neg hempty] at h
        cases hbody : response.bodyText with
        | error e => simp [hbody] at h
        | ok text =>
          simp only [hbody] at h
          by_cases hlast : maxRedirects ≤ hop
          · simp [hlast] at h
          · rw [if_neg hlast] at h
            cases happlied : applyRedirect platform state response.statusCode location parsed with
            | error e => simp [happlied] at h
            | ok applied =>
              rw [happlied] at h
              cases h
              exact applyRedirect_ok hparsed happlied
  · simp [hredirect] at h

theorem connectAll_socket {attempts : List Attempt} {socket : Socket}
    (h : socket ∈ (connectAll platform attempts).1) :
    ∃ a ∈ attempts, PublicHost platform.parseAddress a.lookup a.options.hostname socket.address := by
  induction attempts with
  | nil => cases h
  | cons a rest ih =>
    rw [connectAll] at h
    cases hconnect : connectAsync platform.parseAddress a.lookup a.options with
    | error e =>
      rw [hconnect] at h
      cases h
    | ok opened =>
      rw [hconnect] at h
      rcases List.mem_cons.mp h with rfl | hrest
      · exact ⟨a, List.mem_cons_self, connectAsync_ok platform.parseAddress hconnect⟩
      · obtain ⟨b, hb, hpublic⟩ := ih hrest
        exact ⟨b, List.mem_cons_of_mem a hb, hpublic⟩

theorem sockets_issueHopRequest (state : FetchState) (hop : Nat) (answer : HopAnswer) :
    (issueHopRequest platform state hop answer).1 = (connectAll platform answer.attempts).1 := by
  unfold issueHopRequest
  split <;> simp_all

theorem outcome_issueHopRequest {state : FetchState} {hop : Nat} {answer : HopAnswer} {response : Answer}
    (h : (issueHopRequest platform state hop answer).2 = .ok response) : answer.outcome = .ok response := by
  unfold issueHopRequest at h
  split at h
  · cases h
  · cases houtcome : answer.outcome with
    | error e => simp [houtcome] at h
    | ok r => simpa [houtcome] using h

end Redirect

/-! ## The run -/

section Run
variable (platform : Platform) (answers : Nat → HopAnswer)

/-- The records of a run from hop `hop` on: the first request is the given one, each further one is what the
answer to the one before makes of it. -/
inductive Chain : Nat → FetchState → List HopLog → Prop
  | nil (hop : Nat) (state : FetchState) : Chain hop state []
  | last {hop : Nat} {state : FetchState} {sockets : List Socket} : Chain hop state [⟨state, sockets⟩]
  | cons {hop : Nat} {state next : FetchState} {sockets : List Socket} {rest : List HopLog} {response : Answer}
    (houtcome : (answers hop).outcome = .ok response)
    (hnext : Redirected platform response.statusCode state next) (hrest : Chain (hop + 1) next rest) :
    Chain hop state (⟨state, sockets⟩ :: rest)

/-- A record of a request that may be made. -/
structure HopLog.Ok (entry : HopLog) : Prop where
  scheme : ∃ parsed, platform.newUrl entry.state.currentUrl none = some parsed ∧
    (parsed.protocol = "http:" ∨ parsed.protocol = "https:")
  sockets : ∀ socket ∈ entry.sockets, ∃ k, ∃ a ∈ (answers k).attempts,
    PublicHost platform.parseAddress a.lookup a.options.hostname socket.address

variable {platform answers}

theorem validateScheme_ok {parsed : Url} (h : validateScheme parsed = .ok ()) :
    parsed.protocol = "http:" ∨ parsed.protocol = "https:" := by
  unfold validateScheme at h
  by_cases hhttp : parsed.protocol = "http:"
  · exact Or.inl hhttp
  · by_cases hhttps : parsed.protocol = "https:"
    · exact Or.inr hhttps
    · rw [if_pos ⟨hhttp, hhttps⟩] at h
      cases h

/-- A run makes at most as many requests as it has rounds, all of them allowed, each from the one before. -/
theorem follow_spec (rounds hop : Nat) (state : FetchState) :
    (follow platform answers rounds hop state).1.length ≤ rounds ∧
      (∀ entry ∈ (follow platform answers rounds hop state).1, entry.Ok platform answers) ∧
      Chain platform answers hop state (follow platform answers rounds hop state).1 := by
  induction rounds generalizing hop state with
  | zero => exact ⟨Nat.le_refl 0, by simp [follow], .nil hop state⟩
  | succ rounds ih =>
    have hstopped : ((([], .thrown redirectChainExceeded) : List HopLog × Outcome).1.length ≤ rounds + 1) :=
      Nat.zero_le _
    rw [follow]
    cases hparse : parseUrlOrThrow platform state.currentUrl with
    | error e => exact ⟨hstopped, by simp, .nil hop state⟩
    | ok parsed =>
      have hparsed : platform.newUrl state.currentUrl none = some parsed := by
        unfold parseUrlOrThrow at hparse
        cases hurl : platform.newUrl state.currentUrl none with
        | none => simp [hurl] at hparse
        | some p =>
          rw [hurl] at hparse
          cases hparse
          rfl
      cases hscheme : validateScheme parsed with
      | error e =>
        simp only [hscheme]
        exact ⟨hstopped, by simp, .nil hop state⟩
      | ok u =>
        have hok : HopLog.Ok platform answers ⟨state, (issueHopRequest platform state hop (answers hop)).1⟩ := by
          refine ⟨⟨parsed, hparsed, validateScheme_ok hscheme⟩, fun socket hsocket => ?_⟩
          rw [sockets_issueHopRequest] at hsocket
          obtain ⟨a, ha, hpublic⟩ := connectAll_socket hsocket
          exact ⟨hop, a, ha, hpublic⟩
        have hsingle : ∀ entry ∈ [(⟨state, (issueHopRequest platform state hop (answers hop)).1⟩ : HopLog)],
            entry.Ok platform answers := by
          intro entry hentry
          rw [List.mem_singleton.mp hentry]
          exact hok
        simp only [hscheme]
        cases hissued : (issueHopRequest platform state hop (answers hop)).2 with
        | error e => exact ⟨Nat.succ_le_succ (Nat.zero_le rounds), hsingle, .last⟩
        | ok response =>
          simp only
          cases hcontinue : continueWith platform state parsed hop response with
          | inr outcome => exact ⟨Nat.succ_le_succ (Nat.zero_le rounds), hsingle, .last⟩
          | inl next =>
            obtain ⟨hlength, hall, hchain⟩ := ih (hop + 1) next
            exact ⟨Nat.succ_le_succ hlength, List.forall_mem_cons.mpr ⟨hok, hall⟩,
              .cons (outcome_issueHopRequest hissued) (continueWith_inl hparsed hcontinue) hchain⟩

/-- A method-changing answer came to one of the hops from `hop` to `hop + k`, the last one not counted. -/
def ChangedBy (answers : Nat → HopAnswer) (hop k : Nat) : Prop :=
  ∃ j < k, ∃ response, (answers (hop + j)).outcome = .ok response ∧ response.statusCode ∈ methodChanging

/-- The first `k + 1` requests go to one origin. -/
def SameOrigin (platform : Platform) (log : List HopLog) (k : Nat) : Prop :=
  ∀ i ≤ k, ∀ a b, log[i]? = some a → log[0]? = some b →
    originOf platform a.state.currentUrl = originOf platform b.state.currentUrl

theorem changedBy_succ (hop k : Nat) : ChangedBy answers hop (k + 1) ↔
    (∃ response, (answers hop).outcome = .ok response ∧ response.statusCode ∈ methodChanging) ∨
      ChangedBy answers (hop + 1) k := by
  constructor
  · rintro ⟨j, hj, response, hresponse, hstatus⟩
    cases j with
    | zero => exact Or.inl ⟨response, hresponse, hstatus⟩
    | succ j =>
      refine Or.inr ⟨j, Nat.lt_of_succ_lt_succ hj, response, ?_, hstatus⟩
      rwa [Nat.add_assoc, Nat.add_comm 1]
  · rintro (⟨response, hresponse, hstatus⟩ | ⟨j, hj, response, hresponse, hstatus⟩)
    · exact ⟨0, Nat.succ_pos k, response, hresponse, hstatus⟩
    · refine ⟨j + 1, Nat.succ_lt_succ hj, response, ?_, hstatus⟩
      rwa [Nat.add_assoc, Nat.add_comm 1] at hresponse

theorem Chain.head {hop : Nat} {state : FetchState} {log : List HopLog} (h : Chain platform answers hop state log)
    {entry : HopLog} (hentry : log[0]? = some entry) : entry.state = state := by
  cases h with
  | nil => cases hentry
  | last =>
    cases hentry
    rfl
  | cons _ _ _ =>
    cases hentry
    rfl

open Classical in
/-- Method and body of a request by the answers before it. -/
theorem Chain.method_body {hop : Nat} {state : FetchState} {log : List HopLog}
    (h : Chain platform answers hop state log) {k : Nat} {entry : HopLog} (hentry : log[k]? = some entry) :
    (entry.state.currentMethod =
      if ChangedBy answers hop k ∧ state.currentMethod ≠ "GET" ∧ state.currentMethod ≠ "HEAD" then "GET"
      else state.currentMethod) ∧
    entry.state.currentBody = if ChangedBy answers hop k then none else state.currentBody := by
  induction h generalizing k with
  | nil => simp at hentry
  | last =>
    cases k with
    | zero =>
      cases hentry
      simp [ChangedBy]
    | succ k => simp at hentry
  | @cons hop state next sockets rest response houtcome hnext hrest ih =>
    cases k with
    | zero =>
      cases hentry
      simp [ChangedBy]
    | succ k =>
      obtain ⟨hmethod, hbody⟩ := ih hentry
      have hchanged : ChangedBy answers hop (k + 1) ↔
          response.statusCode ∈ methodChanging ∨ ChangedBy answers (hop + 1) k := by
        rw [changedBy_succ, houtcome]
        simp
      rw [hmethod, hbody, hnext.method, hnext.body]
      by_cases hstatus : response.statusCode ∈ methodChanging
      · by_cases hgetHead : state.currentMethod ≠ "GET" ∧ state.currentMethod ≠ "HEAD" <;>
          simp [hchanged, hstatus, hgetHead]
      · simp [hchanged, hstatus]

theorem sameOrigin_cons {entry entry' : HopLog} {rest : List HopLog} (hrest : rest[0]? = some entry') (k : Nat) :
    SameOrigin platform (entry :: rest) (k + 1) ↔
      originOf platform entry'.state.currentUrl = originOf platform entry.state.currentUrl ∧
        SameOrigin platform rest k := by
  constructor
  · intro h
    have hfirst : ∀ i ≤ k, ∀ a, rest[i]? = some a →
        originOf platform a.state.currentUrl = originOf platform entry.state.currentUrl :=
      fun i hi a ha => h (i + 1) (Nat.succ_le_succ hi) a entry ha rfl
    have hsecond := hfirst 0 (Nat.zero_le k) entry' hrest
    refine ⟨hsecond, fun i hi a b ha hb => ?_⟩
    rw [hrest] at hb
    cases hb
    rw [hfirst i hi a ha, hsecond]
  · rintro ⟨hsecond, h⟩ i hi a b ha hb
    cases hb
    cases i with
    | zero =>
      cases ha
      rfl
    | succ i => rw [h i (Nat.le_of_succ_le_succ hi) a entry' ha hrest, hsecond]

open Classical in
/-- The header stays as long as the origin does. -/
theorem Chain.authorization {hop : Nat} {state : FetchState} {log : List HopLog}
    (h : Chain platform answers hop state log) {k : Nat} {entry : HopLog} (hentry : log[k]? = some entry) :
    authorizationOf entry.state = if SameOrigin platform log k then authorizationOf state else none := by
  have hzero : ∀ xs : List HopLog, SameOrigin platform xs 0 := by
    intro xs i hi a b ha hb
    rw [Nat.le_zero.mp hi, hb] at ha
    cases ha
    rfl
  induction h generalizing k with
  | nil => simp at hentry
  | last =>
    cases k with
    | zero =>
      cases hentry
      rw [if_pos (hzero _)]
    | succ k => simp at hentry
  | @cons hop state next sockets rest response houtcome hnext hrest ih =>
    cases k with
    | zero =>
      cases hentry
      rw [if_pos (hzero _)]
    | succ k =>
      rw [List.getElem?_cons_succ] at hentry
      have hlength : 0 < rest.length :=
        Nat.lt_of_le_of_lt (Nat.zero_le k) (List.getElem?_eq_some_iff.mp hentry).1
      have hfirst : rest[0]? = some rest[0] := List.getElem?_eq_getElem hlength
      have hsame : SameOrigin platform (⟨state, sockets⟩ :: rest) (k + 1) ↔
          originOf platform rest[0].state.currentUrl = originOf platform state.currentUrl ∧
            SameOrigin platform rest k := sameOrigin_cons hfirst k
      rw [hrest.head hfirst] at hsame
      rw [ih hentry, hnext.authorization]
      by_cases horigin : originOf platform next.currentUrl = originOf platform state.currentUrl
      · rw [if_pos horigin]
        simp only [hsame, horigin, true_and]
      · rw [if_neg horigin, if_neg fun hall => horigin (hsame.mp hall).1, ite_self]

/-- The caller supplies the header in `init`. -/
def SuppliesAuthorization (init : RequestInit) : Prop :=
  ∃ fields, init.headers = some fields ∧ ∃ e ∈ fields, toLowerCase e.1 = "authorization"

theorem isSome_authorization {init : RequestInit} {record : HeaderRecord}
    (h : headersToRecord init.headers = .ok record) :
    (record.get? "authorization").isSome ↔ SuppliesAuthorization init := by
  unfold SuppliesAuthorization
  cases hheaders : init.headers with
  | none =>
    rw [hheaders] at h
    cases h
    simp
  | some fields =>
    rw [hheaders] at h
    rw [isSome_headersToRecord h (by decide)]
    simp

open Classical in
/-- What holds of the requests of a call, whatever the network answers. -/
structure Hardened (platform : Platform) (init : RequestInit) (answers : Nat → HopAnswer) (log : List HopLog) :
    Prop where
  atMost : log.length ≤ 6
  scheme : ∀ entry ∈ log, ∃ parsed, platform.newUrl entry.state.currentUrl none = some parsed ∧
    (parsed.protocol = "http:" ∨ parsed.protocol = "https:")
  authorization : ∀ (k : Nat) (entry : HopLog), log[k]? = some entry →
    ((authorizationOf entry.state).isSome ↔ SuppliesAuthorization init ∧ SameOrigin platform log k)
  method : ∀ (k : Nat) (entry : HopLog), log[k]? = some entry → entry.state.currentMethod =
    if ChangedBy answers 0 k ∧ initialMethod platform init ≠ "GET" ∧ initialMethod platform init ≠ "HEAD" then "GET"
    else initialMethod platform init
  body : ∀ (k : Nat) (entry : HopLog), log[k]? = some entry → entry.state.currentBody =
    if ChangedBy answers 0 k then none else bodyFromInit init
  sockets : ∀ entry ∈ log, ∀ socket ∈ entry.sockets, ∃ k, ∃ a ∈ (answers k).attempts, ∃ addresses,
    a.lookup.addresses (bareHost a.options.hostname) = .ok addresses ∧ socket.address ∈ addresses ∧
      (a.lookup.disabled = false → ∀ address ∈ addresses, isBlockedAddress platform.parseAddress address = false)

theorem hardened_follow {init : RequestInit} {state : FetchState}
    (hheaders : headersToRecord init.headers = .ok state.currentHeaders)
    (hmethod : state.currentMethod = initialMethod platform init) (hbody : state.currentBody = bodyFromInit init) :
    Hardened platform init answers (follow platform answers (maxRedirects + 1) 0 state).1 := by
  obtain ⟨hlength, hok, hchain⟩ := follow_spec (maxRedirects + 1) 0 state
  refine ⟨hlength, fun entry he => (hok entry he).scheme, ?_, ?_, ?_, ?_⟩
  · intro k entry hentry
    have hsupplied : (authorizationOf state).isSome ↔ SuppliesAuthorization init := isSome_authorization hheaders
    rw [hchain.authorization hentry, ← hsupplied]
    by_cases hsame : SameOrigin platform (follow platform answers (maxRedirects + 1) 0 state).1 k
    · rw [if_pos hsame]
      exact (and_iff_left hsame).symm
    · simp [hsame]
  · intro k entry hentry
    rw [← hmethod]
    exact (hchain.method_body hentry).1
  · intro k entry hentry
    rw [← hbody]
    exact (hchain.method_body hentry).2
  · intro entry he socket hsocket
    obtain ⟨k, a, ha, hpublic⟩ := (hok entry he).sockets socket hsocket
    exact ⟨k, a, ha, hpublic.resolved⟩

/-- Every call is hardened; only the addresses are not checked where the test flag is set. -/
theorem hardenedFetch_hardened (platform : Platform) (input : RequestInfo) (init : RequestInit)
    (answers : Nat → HopAnswer) :
    Hardened platform init answers (hardenedFetch platform input init answers).1 := by
  have hempty : Hardened platform init answers [] := by
    refine ⟨Nat.zero_le 6, ?_, ?_, ?_, ?_, ?_⟩ <;> simp
  change Hardened platform init answers (ite _ _ _ : List HopLog × Outcome).1
  by_cases hdata : isDataUrl (normalizeInputUrl input) = true
  · rw [if_pos hdata]
    exact hempty
  · rw [if_neg hdata]
    cases hheaders : headersToRecord init.headers with
    | error e => exact hempty
    | ok headers => exact hardened_follow hheaders rfl rfl

/-! ## Where a call is not hardened -/

/-- A platform that knows one URL and one address. -/
def loopbackPlatform : Platform where
  newUrl := fun url _ =>
    if url = "http://localhost/" then some ⟨"http://localhost/", "http:", "http://localhost"⟩ else none
  toUpperCase := id
  parseAddress := fun address => if address = "127.0.0.1" then some (.ipv4 (octets 127 0 0 1)) else none

/-- The answer of a server on the loopback interface, with the flag as given. -/
def loopbackAnswer (flag : Option String) : Nat → HopAnswer := fun _ =>
  { attempts := [⟨⟨"localhost", none⟩, ⟨flag, fun _ => .ok ["127.0.0.1"]⟩⟩]
    outcome := .ok ⟨200, .empty, .ok "ok"⟩ }

/-- With the test flag a socket goes to a blocked address, and the header of a `Request` is not sent. -/
theorem loopback_reached :
    (hardenedFetch loopbackPlatform (.request "http://localhost/" "GET" [("authorization", "secret")] none)
        ⟨none, none, none⟩ (loopbackAnswer (some "true"))).1.map
        (fun entry => (entry.sockets.map (·.address), authorizationOf entry.state)) = [(["127.0.0.1"], none)] ∧
      isBlockedAddress loopbackPlatform.parseAddress "127.0.0.1" = true := by
  decide

example : (hardenedFetch loopbackPlatform (.text "http://localhost/") ⟨none, none, none⟩
    (loopbackAnswer none)).1.map (·.sockets) = [[]] := by
  decide

end Run

end WorkflowEngine.Sandbox.HardenedFetch
