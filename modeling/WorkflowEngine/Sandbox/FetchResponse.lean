import WorkflowEngine.Lib.FetchHeaders
import WorkflowEngine.Lib.JsObject
import WorkflowEngine.Lib.Text

/-!
# A response on its way to the guest

`hardenedFetch` puts the answer of the network into a `Response` of Node, the dispatcher
writes that as a plain record, and the guest's `fetch` builds its own `Response` from the
record. Each step has its own refusals, and the record has one value for a name.
-/

namespace WorkflowEngine.Sandbox.FetchResponse

open Lib

set_option autoImplicit false

/-! ## The answer -/

/-- A header of an answer: undici has an array where it was repeated. -/
inductive HeaderValue where
  | single (value : String)
  | repeated (values : List String)
  deriving DecidableEq

def HeaderValue.values : HeaderValue → List String
  | .single value => [value]
  | .repeated values => values

/-- A value that an HTTP parser can have read. -/
def isFieldValue (value : String) : Bool :=
  normalizeValue value = value && value.toList.all fun c => c != '\x00' && c != '\n' && c != '\r'

def extractLocation (headers : OrderedMap String HeaderValue) : Option String :=
  match headers.get? "location" with
  | none => none
  | some (.single value) => some value
  | some (.repeated values) => values.head?

/-- The answers that `hardenedFetch` follows. -/
def isFollowed (statusCode : Nat) (headers : OrderedMap String HeaderValue) : Bool :=
  300 ≤ statusCode && statusCode < 400 &&
    match extractLocation headers with
    | none => false
    | some location => location ≠ ""

/-- A final answer of the network. -/
structure UpstreamResponse where
  statusCode : Nat
  headers : OrderedMap String HeaderValue
  bodyText : String
  status_range : 200 ≤ statusCode ∧ statusCode ≤ 599
  names_token : ∀ name ∈ headers.keys, isToken name = true ∧ ∀ c ∈ name.toList, c.isUpper = false
  values_ne_nil : ∀ name v, headers.get? name = some v → v.values ≠ []
  values_parsed : ∀ name v, headers.get? name = some v → ∀ value ∈ v.values, isFieldValue value = true
  final : isFollowed statusCode headers = false

/-! ## Errors -/

/-- What the `Headers` and `Response` constructors throw. -/
inductive JsError where
  | typeError (message : String)
  | rangeError (message : String)
  deriving DecidableEq

def JsError.message : JsError → String
  | .typeError message => message
  | .rangeError message => message

inductive FetchErrorReason where
  | invalidUrl | redirectLoop | networkError
  deriving DecidableEq

structure FetchError where
  reason : FetchErrorReason
  url : String
  deriving DecidableEq

def translateFetchError (err : JsError) (url : String) : FetchError :=
  let message := err.message.toList
  let invalid := match err with
    | .typeError _ => "invalid URL".toList.isPrefixOf message || "invalid redirect".toList.isPrefixOf message
    | .rangeError _ => false
  if invalid then { reason := .invalidUrl, url }
  else if includes "redirect chain exceeded".toList message then { reason := .redirectLoop, url }
  else { reason := .networkError, url }

/-- What the guest's `fetch` rejects with. -/
inductive GuestError where
  | host (err : FetchError)
  | thrown (err : JsError)
  deriving DecidableEq

/-! ## Responses -/

def nullBodyStatuses : List Nat := [101, 103, 204, 205, 304]

def withContentType (headers : HeaderList) : HeaderList :=
  if headers.has "content-type" then headers else headers ++ [("content-type", "text/plain;charset=UTF-8")]

/-- A `Response` constructor on a text: its checks, and the headers it ends with. -/
def initResponse (outOfRange nullBody : String) (status : Nat) (fields : List (String × String)) :
    Except JsError HeaderList :=
  if status < 200 ∨ 599 < status then .error (.rangeError outOfRange)
  else do
    let headers ← (HeaderList.appendAll [] fields).mapError .typeError
    if status ∈ nullBodyStatuses then .error (.typeError nullBody)
    else return withContentType headers

/-- The text that is decoded from an encoded one: a leading byte order mark is no part of it. -/
def decodeEncoded (text : String) : String :=
  match text.toList with
  | '\uFEFF' :: cs => String.ofList cs
  | _ => text

/-- A `Response` whose body is a text. -/
structure Response where
  status : Nat
  statusText : String
  headers : HeaderList
  body : String
  url : String

def Response.text (r : Response) : String := decodeEncoded r.body

/-! ## The host -/

/-- One of the entries that `responseFromUndici` goes through. -/
def addHeader (h : HeaderList) (e : String × HeaderValue) : Except String HeaderList :=
  match e.2 with
  | .single value => h.set e.1 value
  | .repeated values => h.appendAll (values.map (Prod.mk e.1))

def responseFromUndici (up : UpstreamResponse) (finalUrl : String) : Except JsError Response := do
  let filled ← (up.headers.entries.foldlM addHeader []).mapError .typeError
  -- the constructor reads the `Headers` it is given, name by name
  let headers ← initResponse "init[\"status\"] must be in the range of 200 to 599, inclusive."
    "Response constructor: Invalid response status code" up.statusCode (HeaderList.sortAndCombine filled)
  return { status := up.statusCode, statusText := "", headers, body := up.bodyText, url := finalUrl }

structure FetchResponseWire where
  status : Nat
  statusText : String
  headers : OrderedMap String String
  body : String

/-- `dispatchFetch` from the answer on. -/
def dispatchFetch (up : UpstreamResponse) (url finalUrl : String) : Except FetchError FetchResponseWire :=
  match responseFromUndici up finalUrl with
  | .error err => .error (translateFetchError err url)
  | .ok response =>
    .ok
      { status := response.status
        statusText := response.statusText
        headers := OrderedMap.assignAll response.headers.sortAndCombine
        body := response.text }

/-! ## The guest -/

def makeNetworkResponse (hostRes : FetchResponseWire) (url : String) : Except JsError Response := do
  let headers ← initResponse ("Response status " ++ toString hostRes.status ++ " out of range")
    ("Response with null-body status " ++ toString hostRes.status ++ " cannot have a body")
    hostRes.status hostRes.headers.entries
  return { status := hostRes.status, statusText := hostRes.statusText, headers, body := hostRes.body, url }

/-- What the guest's `fetch` of `url` settles with after the answer. -/
def fetchShim (up : UpstreamResponse) (url finalUrl : String) : Except GuestError Response := do
  let hostRes ← (dispatchFetch up url finalUrl).mapError .host
  (makeNetworkResponse hostRes url).mapError .thrown

/-- The guest has the status, every header value and the text of the answer. Repeated
values come joined, as `Headers` reads them, but for cookies. -/
structure Delivered (up : UpstreamResponse) (r : Response) : Prop where
  status : r.status = up.statusCode
  cookies : ∀ v, up.headers.get? "set-cookie" = some v → r.headers.getSetCookie = v.values
  headers : ∀ name v, up.headers.get? name = some v → name ≠ "set-cookie" →
    r.headers.get name = some (normalizeValue (joinValues v.values))
  text : r.text = up.bodyText

/-- The answers that reach the guest whole. -/
structure PassesThrough (up : UpstreamResponse) : Prop where
  status : up.statusCode ∉ nullBodyStatuses
  cookies : ∀ v, up.headers.get? "set-cookie" = some v → v.values.length ≤ 1
  bytes : ∀ name v, up.headers.get? name = some v → ∀ value ∈ v.values, ∀ c ∈ value.toList, c.toNat ≤ 255
  names : up.headers.get? "__proto__" = none
  text : up.bodyText.toList.head? ≠ some '\uFEFF'

/-! ## Constructors -/

theorem initResponse_eq_ok {outOfRange nullBody : String} {status : Nat} {fields : List (String × String)}
    {headers : HeaderList} :
    initResponse outOfRange nullBody status fields = .ok headers ↔
      ((200 ≤ status ∧ status ≤ 599) ∧ status ∉ nullBodyStatuses ∧ ∀ e ∈ fields, HeaderList.IsField e) ∧
        headers = withContentType (HeaderList.normalizeFields fields) := by
  unfold initResponse
  by_cases hrange : status < 200 ∨ 599 < status
  · rw [if_pos hrange]
    constructor
    · intro h
      cases h
    · rintro ⟨⟨hstatus, _⟩, _⟩
      omega
  rw [if_neg hrange]
  have hstatus : 200 ≤ status ∧ status ≤ 599 := by omega
  constructor
  · intro h
    obtain ⟨filled, hfilled, h⟩ := bind_eq_ok h
    obtain ⟨hfields, rfl⟩ := HeaderList.appendAll_eq_ok.mp (mapError_eq_ok hfilled)
    by_cases hnull : status ∈ nullBodyStatuses
    · rw [if_pos hnull] at h
      cases h
    · rw [if_neg hnull] at h
      cases h
      exact ⟨⟨hstatus, hnull, hfields⟩, rfl⟩
  · rintro ⟨⟨_, hnull, hfields⟩, rfl⟩
    have hfilled : HeaderList.appendAll [] fields = .ok (HeaderList.normalizeFields fields) :=
      HeaderList.appendAll_eq_ok.mpr ⟨hfields, rfl⟩
    rw [hfilled]
    change (if status ∈ nullBodyStatuses then _ else _) = _
    rw [if_neg hnull]
    rfl

theorem valuesOf_withContentType {headers : HeaderList} {name : String} (h : headers.valuesOf name ≠ []) :
    (withContentType headers).valuesOf name = headers.valuesOf name := by
  unfold withContentType
  split
  · rfl
  · rename_i hmissing
    rw [HeaderList.valuesOf_append, HeaderList.valuesOf_singleton]
    have hne : "content-type" ≠ name := by
      rintro rfl
      exact h (HeaderList.valuesOf_eq_nil.mpr (by simpa [HeaderList.has] using hmissing))
    rw [if_neg hne, List.append_nil]

theorem field_withContentType {headers : HeaderList}
    (h : ∀ e ∈ headers, isToken e.1 = true ∧ isHeaderValue e.2 = true) :
    ∀ e ∈ withContentType headers, isToken e.1 = true ∧ isHeaderValue e.2 = true := by
  unfold withContentType
  split
  · exact h
  · intro e he
    rcases List.mem_append.mp he with he | he
    · exact h e he
    · rw [List.mem_singleton.mp he]
      decide

theorem makeNetworkResponse_eq_ok {hostRes : FetchResponseWire} {url : String} {r : Response} :
    makeNetworkResponse hostRes url = .ok r ↔
      ((200 ≤ hostRes.status ∧ hostRes.status ≤ 599) ∧ hostRes.status ∉ nullBodyStatuses ∧
          ∀ e ∈ hostRes.headers.entries, HeaderList.IsField e) ∧
        r = { status := hostRes.status, statusText := hostRes.statusText,
              headers := withContentType (HeaderList.normalizeFields hostRes.headers.entries),
              body := hostRes.body, url } := by
  unfold makeNetworkResponse
  constructor
  · intro h
    obtain ⟨headers, hinit, h⟩ := bind_eq_ok h
    obtain ⟨hvalid, rfl⟩ := initResponse_eq_ok.mp hinit
    cases h
    exact ⟨hvalid, rfl⟩
  · rintro ⟨hvalid, rfl⟩
    rw [initResponse_eq_ok.mpr ⟨hvalid, rfl⟩]
    rfl

/-! ## From undici to Node -/

/-- The fields of an answer, one for each value. -/
def sentFields (up : UpstreamResponse) : List (String × String) :=
  up.headers.entries.flatMap fun e => e.2.values.map (Prod.mk e.1)

theorem addHeader_eq {h : HeaderList} {e : String × HeaderValue} (he : e.1 ∉ h.names) :
    addHeader h e = h.appendAll (e.2.values.map (Prod.mk e.1)) := by
  obtain ⟨name, v⟩ := e
  cases v with
  | single value =>
    change h.set name value = h.append name value >>= pure
    rw [HeaderList.set_of_not_mem value he, bind_pure]
  | repeated values => rfl

theorem foldlM_addHeader (entries : List (String × HeaderValue)) (h : HeaderList)
    (hnodup : (entries.map Prod.fst).Nodup) (hfresh : ∀ e ∈ entries, e.1 ∉ h.names) :
    entries.foldlM addHeader h = h.appendAll (entries.flatMap fun e => e.2.values.map (Prod.mk e.1)) := by
  induction entries generalizing h with
  | nil => rfl
  | cons e entries ih =>
    obtain ⟨he, hnodup⟩ := List.nodup_cons.mp hnodup
    rw [List.foldlM_cons, List.flatMap_cons, HeaderList.appendAll_append, addHeader_eq (hfresh e List.mem_cons_self)]
    cases hadd : h.appendAll (e.2.values.map (Prod.mk e.1)) with
    | error message => rfl
    | ok h' =>
      obtain ⟨_, rfl⟩ := HeaderList.appendAll_eq_ok.mp hadd
      refine ih _ hnodup ?_
      intro e' he' hname
      rw [HeaderList.names_append, HeaderList.names_normalizeFields, List.mem_append] at hname
      rcases hname with hname | hname
      · exact hfresh e' (List.mem_cons_of_mem e he') hname
      · simp only [HeaderList.names, List.map_map, List.mem_map] at hname
        obtain ⟨value, _, hname⟩ := hname
        change e.1 = e'.1 at hname
        exact he (hname ▸ List.mem_map_of_mem he')

theorem normalizeValue_of_parsed {value : String} (h : isFieldValue value = true) : normalizeValue value = value := by
  simp only [isFieldValue, Bool.and_eq_true, decide_eq_true_eq] at h
  exact h.1

theorem isField_of_parsed {name value : String} (hname : isToken name = true) (hvalue : isFieldValue value = true) :
    HeaderList.IsField (name, value) ↔ ∀ c ∈ value.toList, c.toNat ≤ 255 := by
  obtain ⟨hnormal, hchars⟩ : normalizeValue value = value ∧
      ∀ c ∈ value.toList, (c ≠ '\x00' ∧ c ≠ '\n') ∧ c ≠ '\r' := by
    simpa [isFieldValue] using hvalue
  unfold HeaderList.IsField
  rw [hnormal, isHeaderValue, List.all_eq_true]
  constructor
  · rintro ⟨_, h⟩ c hc
    have hheader := h c hc
    simp only [isHeaderChar, Bool.and_eq_true, decide_eq_true_eq] at hheader
    exact hheader.1.1.1
  · intro h
    refine ⟨hname, ?_⟩
    intro c hc
    obtain ⟨⟨hnul, hlf⟩, hcr⟩ := hchars c hc
    simp [isHeaderChar, h c hc, hnul, hlf, hcr]

section Upstream
variable (up : UpstreamResponse)

theorem mem_sentFields (name value : String) :
    (name, value) ∈ sentFields up ↔ ∃ v, up.headers.get? name = some v ∧ value ∈ v.values := by
  unfold sentFields
  rw [List.mem_flatMap]
  constructor
  · rintro ⟨e, he, hmem⟩
    obtain ⟨value', hvalue, heq⟩ := List.mem_map.mp hmem
    cases heq
    exact ⟨e.2, (up.headers.get?_eq_some_iff e.1 e.2).mpr he, hvalue⟩
  · rintro ⟨v, hv, hvalue⟩
    exact ⟨(name, v), (up.headers.get?_eq_some_iff name v).mp hv, List.mem_map_of_mem hvalue⟩

theorem valuesOf_sentFields {name : String} {v : HeaderValue} (hv : up.headers.get? name = some v) :
    HeaderList.valuesOf (sentFields up) name = v.values := by
  have hmem := (up.headers.get?_eq_some_iff name v).mp hv
  exact HeaderList.valuesOf_flatMap Prod.fst (fun e => e.2.values) up.headers.nodup hmem

theorem normalizeFields_sentFields : HeaderList.normalizeFields (sentFields up) = sentFields up := by
  apply HeaderList.normalizeFields_eq_self
  rintro ⟨name, value⟩ he
  obtain ⟨v, hv, hvalue⟩ := (mem_sentFields up name value).mp he
  exact normalizeValue_of_parsed (up.values_parsed name v hv value hvalue)

theorem isField_sentFields :
    (∀ e ∈ sentFields up, HeaderList.IsField e) ↔
      ∀ name v, up.headers.get? name = some v → ∀ value ∈ v.values, ∀ c ∈ value.toList, c.toNat ≤ 255 := by
  have htoken : ∀ name v, up.headers.get? name = some v → isToken name = true := by
    intro name v hv
    exact (up.names_token name (List.mem_map_of_mem ((up.headers.get?_eq_some_iff name v).mp hv))).1
  constructor
  · intro h name v hv value hvalue
    have hfield := h (name, value) ((mem_sentFields up name value).mpr ⟨v, hv, hvalue⟩)
    exact (isField_of_parsed (htoken name v hv) (up.values_parsed name v hv value hvalue)).mp hfield
  · rintro h ⟨name, value⟩ he
    obtain ⟨v, hv, hvalue⟩ := (mem_sentFields up name value).mp he
    exact (isField_of_parsed (htoken name v hv) (up.values_parsed name v hv value hvalue)).mpr (h name v hv value hvalue)

/-- The headers of the response of Node. -/
def nodeHeaders : HeaderList :=
  withContentType (HeaderList.normalizeFields (HeaderList.sortAndCombine (sentFields up)))

theorem responseFromUndici_eq_ok {finalUrl : String} {r : Response} :
    responseFromUndici up finalUrl = .ok r ↔
      (up.statusCode ∉ nullBodyStatuses ∧ ∀ e ∈ sentFields up, HeaderList.IsField e) ∧
        r = { status := up.statusCode, statusText := "", headers := nodeHeaders up, body := up.bodyText,
              url := finalUrl } := by
  have hfold : up.headers.entries.foldlM addHeader [] = HeaderList.appendAll [] (sentFields up) :=
    foldlM_addHeader _ [] up.headers.nodup (fun e _ hname => List.not_mem_nil hname)
  unfold responseFromUndici
  rw [hfold]
  constructor
  · intro h
    obtain ⟨filled, hfilled, h⟩ := bind_eq_ok h
    obtain ⟨hfields, rfl⟩ := HeaderList.appendAll_eq_ok.mp (mapError_eq_ok hfilled)
    obtain ⟨headers, hinit, h⟩ := bind_eq_ok h
    obtain ⟨⟨_, hnull, _⟩, rfl⟩ := initResponse_eq_ok.mp hinit
    cases h
    rw [List.nil_append, normalizeFields_sentFields]
    exact ⟨⟨hnull, hfields⟩, rfl⟩
  · rintro ⟨⟨hnull, hfields⟩, rfl⟩
    have hfilled : HeaderList.appendAll [] (sentFields up) = .ok (sentFields up) := by
      refine HeaderList.appendAll_eq_ok.mpr ⟨hfields, ?_⟩
      rw [normalizeFields_sentFields]
      rfl
    have hvalid : ∀ e ∈ HeaderList.sortAndCombine (sentFields up), HeaderList.IsField e := by
      intro e he
      refine isField_sortAndCombine ?_ he
      rw [← normalizeFields_sentFields]
      exact HeaderList.field_normalizeFields hfields
    rw [hfilled]
    change (initResponse _ _ _ _ >>= _) = _
    rw [initResponse_eq_ok.mpr ⟨⟨up.status_range, hnull, hvalid⟩, rfl⟩]
    rfl

theorem field_nodeHeaders (hfields : ∀ e ∈ sentFields up, HeaderList.IsField e) :
    ∀ e ∈ nodeHeaders up, isToken e.1 = true ∧ isHeaderValue e.2 = true := by
  apply field_withContentType
  apply HeaderList.field_normalizeFields
  intro e he
  refine isField_sortAndCombine ?_ he
  rw [← normalizeFields_sentFields]
  exact HeaderList.field_normalizeFields hfields

/-- The values under a name in the response of Node. -/
def arrivedValues (name : String) (v : HeaderValue) : List String :=
  if name = "set-cookie" then v.values else [normalizeValue (joinValues v.values)]

theorem arrivedValues_ne_nil {name : String} {v : HeaderValue} (hv : up.headers.get? name = some v) :
    arrivedValues name v ≠ [] := by
  unfold arrivedValues
  split
  · exact up.values_ne_nil name v hv
  · exact List.cons_ne_nil _ _

theorem valuesOf_nodeHeaders {name : String} {v : HeaderValue} (hv : up.headers.get? name = some v) :
    (nodeHeaders up).valuesOf name = arrivedValues name v := by
  have hsent := valuesOf_sentFields up hv
  have hname : name ∈ HeaderList.names (sentFields up) := by
    apply HeaderList.mem_names_of_valuesOf
    rw [hsent]
    exact up.values_ne_nil name v hv
  have hvalues : (HeaderList.normalizeFields (HeaderList.sortAndCombine (sentFields up))).valuesOf name =
      arrivedValues name v := by
    rw [HeaderList.valuesOf_normalizeFields, HeaderList.valuesOf_sortAndCombine hname, HeaderList.combinedValues, hsent,
      arrivedValues]
    split
    · have hcookies := congrArg (fun fields => HeaderList.valuesOf fields name) (normalizeFields_sentFields up)
      change HeaderList.valuesOf (HeaderList.normalizeFields (sentFields up)) name = _ at hcookies
      rwa [HeaderList.valuesOf_normalizeFields, hsent] at hcookies
    · rfl
  unfold nodeHeaders
  rw [valuesOf_withContentType, hvalues]
  rw [hvalues]
  exact arrivedValues_ne_nil up hv

/-! ## The record -/

/-- The headers on the wire. -/
def wireHeaders : OrderedMap String String := OrderedMap.assignAll (nodeHeaders up).sortAndCombine

theorem get?_wireHeaders {name value : String} {v : HeaderValue} (hv : up.headers.get? name = some v)
    (hvalues : (nodeHeaders up).combinedValues name = [value]) (hproto : name ≠ "__proto__") :
    (wireHeaders up).get? name = some value := by
  have hname : name ∈ (nodeHeaders up).names := by
    apply HeaderList.mem_names_of_valuesOf
    rw [valuesOf_nodeHeaders up hv]
    exact arrivedValues_ne_nil up hv
  have hmem : ∀ w, (name, w) ∈ (nodeHeaders up).sortAndCombine ↔ w = value := by
    intro w
    rw [HeaderList.mem_sortAndCombine, hvalues, List.mem_singleton]
    exact and_iff_right hname
  refine (OrderedMap.get?_assignAll ?_ value).mpr ⟨(hmem value).mpr rfl, hproto⟩
  intro w w' hw hw'
  rw [(hmem w).mp hw, (hmem w').mp hw']

theorem isField_wireHeaders (hfields : ∀ e ∈ sentFields up, HeaderList.IsField e) :
    ∀ e ∈ (wireHeaders up).entries, HeaderList.IsField e := by
  intro e he
  have hget := ((wireHeaders up).get?_eq_some_iff e.1 e.2).mpr he
  exact isField_sortAndCombine (field_nodeHeaders up hfields) (OrderedMap.mem_of_get?_assignAll hget).1

/-! ## The guest's response -/

def guestHeaders : HeaderList := withContentType (HeaderList.normalizeFields (wireHeaders up).entries)

theorem fetchShim_eq_ok {url finalUrl : String} {r : Response} :
    fetchShim up url finalUrl = .ok r ↔
      (up.statusCode ∉ nullBodyStatuses ∧ ∀ e ∈ sentFields up, HeaderList.IsField e) ∧
        r = { status := up.statusCode, statusText := "", headers := guestHeaders up,
              body := decodeEncoded up.bodyText, url } := by
  unfold fetchShim dispatchFetch
  constructor
  · intro h
    obtain ⟨hostRes, hhost, hguest⟩ := bind_eq_ok h
    have hhost := mapError_eq_ok hhost
    split at hhost
    · cases hhost
    · rename_i response hresponse
      obtain ⟨hcond, rfl⟩ := (responseFromUndici_eq_ok up).mp hresponse
      cases hhost
      obtain ⟨_, rfl⟩ := makeNetworkResponse_eq_ok.mp (mapError_eq_ok hguest)
      exact ⟨hcond, rfl⟩
  · rintro ⟨⟨hnull, hfields⟩, rfl⟩
    rw [(responseFromUndici_eq_ok up).mpr ⟨⟨hnull, hfields⟩, rfl⟩]
    change (makeNetworkResponse { status := _, statusText := _, headers := wireHeaders up, body := _ } url).mapError _ = _
    rw [makeNetworkResponse_eq_ok.mpr ⟨⟨up.status_range, hnull, isField_wireHeaders up hfields⟩, rfl⟩]
    rfl

theorem valuesOf_guestHeaders {name value : String} (h : (wireHeaders up).get? name = some value) :
    (guestHeaders up).valuesOf name = [normalizeValue value] := by
  have hvalues : (HeaderList.normalizeFields (wireHeaders up).entries).valuesOf name = [normalizeValue value] := by
    rw [HeaderList.valuesOf_normalizeFields, HeaderList.valuesOf_entries, h]
    rfl
  unfold guestHeaders
  rw [valuesOf_withContentType, hvalues]
  rw [hvalues]
  exact List.cons_ne_nil _ _

theorem valuesOf_guestHeaders_of_none {name : String} (h : (wireHeaders up).get? name = none)
    (hne : name ≠ "content-type") : (guestHeaders up).valuesOf name = [] := by
  have hvalues : (HeaderList.normalizeFields (wireHeaders up).entries).valuesOf name = [] := by
    rw [HeaderList.valuesOf_normalizeFields, HeaderList.valuesOf_entries, h]
    rfl
  unfold guestHeaders withContentType
  split
  · exact hvalues
  · rw [HeaderList.valuesOf_append, HeaderList.valuesOf_singleton, if_neg (Ne.symm hne), hvalues]
    rfl

/-- The record has one cookie at most. -/
theorem length_getSetCookie_guestHeaders : (guestHeaders up).getSetCookie.length ≤ 1 := by
  unfold HeaderList.getSetCookie
  cases hget : (wireHeaders up).get? "set-cookie" with
  | none =>
    rw [valuesOf_guestHeaders_of_none up hget (by decide)]
    exact Nat.zero_le 1
  | some value =>
    rw [valuesOf_guestHeaders up hget]
    exact Nat.le_refl 1

/-! ## The text -/

theorem decodeEncoded_of_head {text : String} (h : text.toList.head? ≠ some '\uFEFF') : decodeEncoded text = text := by
  unfold decodeEncoded
  split
  · rename_i hcs
    rw [hcs] at h
    exact absurd rfl h
  · rfl

theorem length_decodeEncoded_le (text : String) : (decodeEncoded text).toList.length ≤ text.toList.length := by
  unfold decodeEncoded
  split
  · rename_i hcs
    rw [hcs, String.toList_ofList]
    exact Nat.le_succ _
  · exact Nat.le_refl _

theorem head_of_decodeEncoded_decodeEncoded {text : String} (h : decodeEncoded (decodeEncoded text) = text) :
    text.toList.head? ≠ some '\uFEFF' := by
  intro hhead
  obtain ⟨cs, hcs⟩ := List.head?_eq_some_iff.mp hhead
  have hlength : (decodeEncoded text).toList.length = cs.length := by
    unfold decodeEncoded
    rw [hcs]
    change (String.ofList cs).toList.length = cs.length
    rw [String.toList_ofList]
  have hle := length_decodeEncoded_le (decodeEncoded text)
  rw [h, hlength, hcs, List.length_cons] at hle
  omega

/-! ## Delivery -/

theorem delivered_of_passesThrough {url : String} (h : PassesThrough up) :
    Delivered up
      { status := up.statusCode, statusText := "", headers := guestHeaders up,
        body := decodeEncoded up.bodyText, url } := by
  have hproto : ∀ {name v}, up.headers.get? name = some v → name ≠ "__proto__" := by
    rintro name v hv rfl
    rw [h.names] at hv
    cases hv
  refine ⟨rfl, ?_, ?_, ?_⟩
  · intro v hv
    have hnode := valuesOf_nodeHeaders up hv
    obtain ⟨value, hvalue⟩ : ∃ value, v.values = [value] := by
      have hle := h.cookies v hv
      have hpos := List.length_pos_iff.mpr (up.values_ne_nil _ v hv)
      exact List.length_eq_one_iff.mp (by omega)
    rw [arrivedValues, if_pos rfl, hvalue] at hnode
    have hwire : (wireHeaders up).get? "set-cookie" = some value := by
      refine get?_wireHeaders up hv ?_ (hproto hv)
      rw [HeaderList.combinedValues, if_pos rfl, hnode]
    have hparsed := up.values_parsed _ v hv value (hvalue ▸ List.mem_singleton.mpr rfl)
    change (guestHeaders up).valuesOf "set-cookie" = v.values
    rw [valuesOf_guestHeaders up hwire, normalizeValue_of_parsed hparsed, hvalue]
  · intro name v hv hne
    have hnode := valuesOf_nodeHeaders up hv
    rw [arrivedValues, if_neg hne] at hnode
    have hwire : (wireHeaders up).get? name = some (normalizeValue (joinValues v.values)) := by
      refine get?_wireHeaders up hv ?_ (hproto hv)
      rw [HeaderList.combinedValues, if_neg hne, hnode, joinValues_singleton]
    change (guestHeaders up).get name = _
    rw [HeaderList.get, valuesOf_guestHeaders up hwire, if_neg (List.cons_ne_nil _ _), joinValues_singleton,
      normalizeValue_idem]
  · change decodeEncoded (decodeEncoded up.bodyText) = up.bodyText
    rw [decodeEncoded_of_head h.text, decodeEncoded_of_head h.text]

/-- The guest gets an answer as it was sent exactly where its status allows a body, it sets one
cookie at most, its headers are byte strings under no `__proto__`, and no byte order mark begins it. -/
theorem fetch_delivers_iff (url finalUrl : String) :
    (∃ r, fetchShim up url finalUrl = .ok r ∧ Delivered up r) ↔ PassesThrough up := by
  constructor
  · rintro ⟨r, hfetch, hdelivered⟩
    obtain ⟨⟨hnull, hfields⟩, rfl⟩ := (fetchShim_eq_ok up).mp hfetch
    refine ⟨hnull, ?_, (isField_sentFields up).mp hfields, ?_, ?_⟩
    · intro v hv
      rw [← hdelivered.cookies v hv]
      exact length_getSetCookie_guestHeaders up
    · by_contra hsome
      obtain ⟨v, hv⟩ := Option.ne_none_iff_exists'.mp hsome
      have hget := hdelivered.headers "__proto__" v hv (by decide)
      have hnone : (wireHeaders up).get? "__proto__" = none := by
        rw [OrderedMap.get?_eq_none_iff, wireHeaders, OrderedMap.mem_keys_assignAll]
        exact fun hmem => hmem.2 rfl
      have hvalues := valuesOf_guestHeaders_of_none up hnone (by decide)
      change (guestHeaders up).get "__proto__" = _ at hget
      rw [HeaderList.get, if_pos hvalues] at hget
      cases hget
    · exact head_of_decodeEncoded_decodeEncoded hdelivered.text
  · intro h
    refine ⟨_, (fetchShim_eq_ok up).mpr ⟨⟨h.status, (isField_sentFields up).mpr h.bytes⟩, rfl⟩, ?_⟩
    exact delivered_of_passesThrough up h

end Upstream

/-! ## No content -/

/-- The answer of a server that has nothing to send. -/
def noContent : UpstreamResponse where
  statusCode := 204
  headers := .empty
  bodyText := ""
  status_range := by decide
  names_token := fun _ hname => nomatch hname
  values_ne_nil := fun _ _ hv => nomatch hv
  values_parsed := fun _ _ hv => nomatch hv
  final := by decide

/-- `fetch` rejects although the answer arrived. -/
theorem fetch_rejects_noContent : ¬∃ r, fetchShim noContent "https://example.com/" "https://example.com/" = .ok r := by
  rintro ⟨r, hfetch⟩
  obtain ⟨⟨hnull, _⟩, _⟩ := (fetchShim_eq_ok noContent).mp hfetch
  exact hnull (by decide)

end WorkflowEngine.Sandbox.FetchResponse
