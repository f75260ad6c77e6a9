import WorkflowEngine.Lib.ReadableStream
import WorkflowEngine.Lib.Transition
import WorkflowEngine.Sandbox.FetchResponse

/-!
# Bodies of guest requests and responses

A `BodyState` keeps its content as a blob until somebody asks for the stream, and one flag
says that it was used. The flag is its own: it does not follow readers of the stream, and a
request that is built from another one shares the stream but not the flag.
-/

namespace WorkflowEngine.Sandbox.GuestBody

open Lib
set_option autoImplicit false

abbrev Bytes := List UInt8

/-- What `Blob` and `TextDecoder` of the guest do. -/
structure Platform where
  /-- The chunks of `blob.stream()`. -/
  blobChunks : Bytes → List Bytes
  blobChunks_flatten : ∀ bytes, (blobChunks bytes).flatten = bytes
  /-- Bytes that are decoded as text by the guest and encoded by the host. -/
  throughText : Bytes → Bytes

/-! ## Objects -/

inductive Owner where
  | request (method : String)
  | response
  deriving DecidableEq

def Owner.method : Owner → Option String
  | .request method => some method
  | .response => none

/-- A `BodyInit`; what is no stream is put into a blob. -/
inductive BodyInit where
  | null
  | bytes (content : Bytes)
  | stream (σ : Nat)
  deriving DecidableEq

/-- The `BodyState` of a request or response, what it was constructed with, and whether
a reader or `fetch` took it. -/
structure Body where
  owner : Owner
  blob : Option Bytes
  stream : Option Nat
  bodyUsed : Bool
  content : Bytes
  taken : Bool
  deriving DecidableEq

/-- `#consume` alone. -/
def Body.use (b : Body) : Body := { b with bodyUsed := true }

def Body.take (b : Body) : Body := { b.use with taken := true }

inductive Outcome where
  | got (bytes : Bytes)
  /-- A new object or reader. -/
  | made
  | typeError
  | failed
  deriving DecidableEq

/-- What came of an operation on a body: its content, and whether it was consumed or disturbed before. -/
structure Result where
  content : Bytes
  spent : Bool
  outcome : Outcome
  deriving DecidableEq

structure Guest where
  streams : List (ReadableStream UInt8)
  bodies : List Body
  results : List Result

namespace Guest

def init : Guest := ⟨[], [], []⟩

def disturbed (g : Guest) (σ : Nat) : Bool := g.streams[σ]?.any ReadableStream.disturbed

def streamContent (g : Guest) (σ : Nat) : Bytes := g.streams[σ]?.elim [] ReadableStream.content

def locked (g : Guest) (σ : Nat) : Bool := g.streams[σ]?.any ReadableStream.locked

def fails (g : Guest) (σ : Nat) : Bool := g.streams[σ]?.any ReadableStream.fails

/-- The body is consumed or disturbed. -/
def spent (g : Guest) (b : Body) : Bool := b.taken || b.stream.any g.disturbed

def addStream (g : Guest) (st : ReadableStream UInt8) : Guest := { g with streams := g.streams ++ [st] }

def setStream (g : Guest) (σ : Nat) (st : ReadableStream UInt8) : Guest := { g with streams := g.streams.set σ st }

def setBody (g : Guest) (i : Nat) (b : Body) : Guest := { g with bodies := g.bodies.set i b }

def addBody (g : Guest) (b : Body) : Guest := { g with bodies := g.bodies ++ [b] }

def log (g : Guest) (r : Result) : Guest := { g with results := g.results ++ [r] }

/-! ## Constructors -/

/-- `new BodyState(extractBody(init))`. -/
def extractBody (g : Guest) (owner : Owner) : BodyInit → Body
  | .null => { owner, blob := none, stream := none, bodyUsed := false, content := [], taken := false }
  | .bytes content => { owner, blob := some content, stream := none, bodyUsed := false, content, taken := false }
  | .stream σ =>
    { owner, blob := none, stream := some σ, bodyUsed := false, content := g.streamContent σ, taken := false }

/-- A stream of the guest that exists. -/
def valid (g : Guest) : BodyInit → Bool
  | .stream σ => σ < g.streams.length
  | _ => true

end Guest

/-- The `TypeError` of the `Request` constructor. -/
def requestRefuses (method : String) (init : BodyInit) : Bool := init ≠ .null && (method = "GET" || method = "HEAD")

/-- The `RangeError` and the `TypeError` of the `Response` constructor. -/
def responseRefuses (status : Nat) (init : BodyInit) : Bool :=
  status < 200 || 599 < status || (init ≠ .null && FetchResponse.nullBodyStatuses.contains status)

/-! ## Operations -/

inductive Reader where
  | text | arrayBuffer | bytes | blob
  /-- Whether `JSON.parse` takes the text. -/
  | json (parses : Bool)
  /-- Whether the content type is that of a urlencoded form. -/
  | formData (urlencoded : Bool)
  deriving DecidableEq

/-- What a reader makes of the content it gets. -/
def Reader.outcome : Reader → Outcome → Outcome
  | .json false, .got _ => .failed
  | .formData false, .got _ => .typeError
  | _, outcome => outcome

/-- The body of the request on the wire, where an empty text is `null`. -/
def Outcome.onWire (p : Platform) : Outcome → Outcome
  | .got bytes => .got (p.throughText bytes)
  | outcome => outcome

namespace Guest

/-- `get body()`: a blob is replaced by its stream. -/
def exposed (g : Guest) (b : Body) : Body :=
  match b.stream, b.blob with
  | none, some _ => { b with blob := none, stream := some g.streams.length }
  | _, _ => b

def expose (g : Guest) (p : Platform) (i : Nat) (b : Body) : Guest :=
  match b.stream, b.blob with
  | none, some bytes => (g.addStream (.ofChunks (p.blobChunks bytes) false)).setBody i (g.exposed b)
  | _, _ => g

/-- What all readers begin with: `#consume`, and then the blob, the stream or nothing. -/
def take (g : Guest) (i : Nat) (b : Body) : Guest × Outcome :=
  if b.bodyUsed then (g, .typeError)
  else
    match b.blob, b.stream with
    | some bytes, _ => (g.setBody i b.take, .got bytes)
    | none, none => (g.setBody i b.take, .got [])
    | none, some σ =>
      match g.streams[σ]?.bind ReadableStream.drain with
      | some (st, got) =>
        ((g.setBody i b.take).setStream σ st, got.elim .failed .got)
      -- the flag is set before the stream turns out to be locked
      | none => (g.setBody i b.use, .typeError)

def read (g : Guest) (i : Nat) (b : Body) (reader : Reader) : Guest :=
  (g.take i b).1.log { content := b.content, spent := g.spent b, outcome := reader.outcome (g.take i b).2 }

/-- `fetch(req)`: `req.bodyUsed ? "" : await req.text()`. -/
def fetch (g : Guest) (p : Platform) (i : Nat) (b : Body) : Guest :=
  if b.bodyUsed then g.log { content := b.content, spent := g.spent b, outcome := .got [] }
  else (g.take i b).1.log { content := b.content, spent := g.spent b, outcome := (g.take i b).2.onWire p }

def clone (g : Guest) (b : Body) : Guest :=
  let result := fun outcome => { content := b.content, spent := g.spent b, outcome : Result }
  if b.bodyUsed then g.log (result .typeError)
  else if b.stream.isSome then g.log (result .typeError)
  else (g.addBody (g.extractBody b.owner (b.blob.elim .null .bytes))).log (result .made)

/-- The `body` of `seedFromRequest` and `applyInit`. -/
def copySource (g : Guest) (b : Body) (init : BodyInit) : BodyInit :=
  if init = .null then (g.exposed b).stream.elim .null .stream else init

/-- `new Request(req, init)`; the body of `req` is exposed even where `init` has its own. -/
def copyRequest (g : Guest) (p : Platform) (i : Nat) (b : Body) (method : String) (init : BodyInit) : Guest :=
  let result := fun outcome => { content := b.content, spent := g.spent b, outcome : Result }
  if b.bodyUsed then g.log (result .typeError)
  else
    let g' := g.expose p i b
    if requestRefuses method (g.copySource b init) then g'.log (result .typeError)
    else (g'.addBody (g'.extractBody (.request method) (g.copySource b init))).log (result .made)

/-- `stream.getReader()`. -/
def getReader (g : Guest) (σ : Nat) (st : ReadableStream UInt8) : Guest :=
  let result := fun outcome =>
    { content := [], spent := g.bodies.any fun b => b.stream = some σ && g.spent b, outcome : Result }
  match st.getReader with
  | some st' => (g.setStream σ st').log (result .made)
  | none => g.log (result .typeError)

end Guest

/-- What the guest can do. `fetch` of a URL, or with an `init`, constructs its request first. -/
inductive Action where
  | newStream (chunks : List Bytes) (fails : Bool)
  | newRequest (method : String) (init : BodyInit)
  | newResponse (status : Nat) (init : BodyInit)
  | copyRequest (i : Nat) (method : Option String) (init : BodyInit)
  | clone (i : Nat)
  | body (i : Nat)
  | getReader (σ : Nat)
  | readChunk (σ : Nat)
  | releaseLock (σ : Nat)
  | read (i : Nat) (reader : Reader)
  | fetch (i : Nat)
  deriving DecidableEq

def step (p : Platform) (g : Guest) : Action → Option Guest
  | .newStream chunks fails => some (g.addStream (.ofChunks chunks fails))
  | .newRequest method init =>
    if g.valid init then
      some (if requestRefuses method init then g else g.addBody (g.extractBody (.request method) init))
    else none
  | .newResponse status init =>
    if g.valid init then
      some (if responseRefuses status init then g else g.addBody (g.extractBody .response init))
    else none
  | .copyRequest i method init =>
    match g.bodies[i]? with
    | some b =>
      match b.owner.method with
      | some m => if g.valid init then some (g.copyRequest p i b (method.getD m) init) else none
      | none => none
    | none => none
  | .clone i => g.bodies[i]?.map g.clone
  | .body i => g.bodies[i]?.map (g.expose p i)
  | .getReader σ => g.streams[σ]?.map (g.getReader σ)
  | .readChunk σ => g.streams[σ]?.bind fun st => st.read.map (g.setStream σ)
  | .releaseLock σ => g.streams[σ]?.bind fun st => st.releaseLock.map (g.setStream σ)
  | .read i reader => g.bodies[i]?.map fun b => g.read i b reader
  | .fetch i =>
    match g.bodies[i]? with
    | some b =>
      match b.owner.method with
      | some _ => some (g.fetch p i b)
      | none => none
    | none => none

/-! ## The property -/

/-- A spent body gives a `TypeError`, and what is got is the whole content. -/
structure Result.Faithful (r : Result) : Prop where
  refused : r.spent = true → r.outcome = .typeError
  whole : ∀ bytes, r.outcome = .got bytes → bytes = r.content

theorem Result.faithful_typeError (content : Bytes) (spent : Bool) : Result.Faithful ⟨content, spent, .typeError⟩ where
  refused _ := rfl
  whole := nofun

theorem Result.faithful_of_unspent {r : Result} (hspent : r.spent = false)
    (hwhole : ∀ bytes, r.outcome = .got bytes → bytes = r.content) : r.Faithful where
  refused h := by
    rw [hspent] at h
    cases h
  whole := hwhole

structure Intact (g : Guest) : Prop where
  results : ∀ r ∈ g.results, r.Faithful
  used : ∀ (i : Nat) (b : Body), g.bodies[i]? = some b → b.bodyUsed = g.spent b

/-- A stream that no reader has read. -/
def Guest.fresh (g : Guest) : BodyInit → Bool
  | .stream σ => !g.disturbed σ
  | _ => true

/-- The stream of the body is free, and every other body on it is used. -/
def Guest.OwnsStream (g : Guest) (i : Nat) (b : Body) : Prop :=
  ∀ σ ∈ b.stream, g.locked σ = false ∧
    ∀ j < g.bodies.length, j ≠ i → ∀ b' : Body, b' ∈ g.bodies[j]? → b'.stream = some σ → b'.bodyUsed = true

/-- The steps after which the flags still say what happened to the bodies. -/
def FlagFollows (p : Platform) (g : Guest) : Action → Prop
  | .newRequest method init => requestRefuses method init = false → g.fresh init = true
  | .newResponse status init => responseRefuses status init = false → g.fresh init = true
  | .copyRequest i method init =>
    ∀ b : Body, b ∈ g.bodies[i]? → b.bodyUsed = false →
      ∀ m ∈ b.owner.method, requestRefuses (method.getD m) init = false → g.fresh init = true
  | .getReader σ => g.locked σ = false → ∀ b : Body, b ∈ g.bodies → b.stream = some σ → b.bodyUsed = false
  | .readChunk σ => ∀ b : Body, b ∈ g.bodies → b.stream = some σ → b.bodyUsed = true
  | .read i _ => ∀ b : Body, b ∈ g.bodies[i]? → b.bodyUsed = false → g.OwnsStream i b
  | .fetch i => ∀ b : Body, b ∈ g.bodies[i]? →
      b.bodyUsed = false ∧ g.OwnsStream i b ∧ (b.stream.any g.fails = false → p.throughText b.content = b.content)
  | _ => True

instance (g : Guest) (i : Nat) (b : Body) : Decidable (g.OwnsStream i b) := by
  unfold Guest.OwnsStream
  infer_instance

instance (p : Platform) (g : Guest) (a : Action) : Decidable (FlagFollows p g a) := by
  cases a <;> unfold FlagFollows <;> infer_instance

/-! ## Streams -/

section Streams
variable (g : Guest)

theorem Guest.disturbed_setStream {σ : Nat} (st : ReadableStream UInt8) (hσ : σ < g.streams.length) (σ' : Nat) :
    (g.setStream σ st).disturbed σ' = if σ' = σ then st.disturbed else g.disturbed σ' := by
  unfold Guest.disturbed Guest.setStream
  by_cases h : σ' = σ
  · subst h
    simp [hσ]
  · simp [List.getElem?_set_ne (Ne.symm h), h]

theorem Guest.streamContent_setStream {σ : Nat} (st : ReadableStream UInt8) (hσ : σ < g.streams.length) (σ' : Nat) :
    (g.setStream σ st).streamContent σ' = if σ' = σ then st.content else g.streamContent σ' := by
  unfold Guest.streamContent Guest.setStream
  by_cases h : σ' = σ
  · subst h
    simp [hσ]
  · simp [List.getElem?_set_ne (Ne.symm h), h]

theorem Guest.disturbed_addStream (st : ReadableStream UInt8) {σ : Nat} (hσ : σ < g.streams.length) :
    (g.addStream st).disturbed σ = g.disturbed σ ∧ (g.addStream st).streamContent σ = g.streamContent σ := by
  unfold Guest.disturbed Guest.streamContent Guest.addStream
  rw [List.getElem?_append_left hσ]
  exact ⟨rfl, rfl⟩

theorem Guest.disturbed_addStream_self (st : ReadableStream UInt8) :
    (g.addStream st).disturbed g.streams.length = st.disturbed ∧
      (g.addStream st).streamContent g.streams.length = st.content := by
  simp [Guest.disturbed, Guest.streamContent, Guest.addStream]

end Streams

theorem Guest.disturbed_expose {g : Guest} (p : Platform) (i : Nat) (b : Body) {σ : Nat} (hσ : σ < g.streams.length) :
    (g.expose p i b).disturbed σ = g.disturbed σ ∧ σ < (g.expose p i b).streams.length := by
  unfold Guest.expose
  split
  · rename_i bytes _ _
    refine ⟨(g.disturbed_addStream (.ofChunks (p.blobChunks bytes) false) hσ).1, ?_⟩
    change σ < (g.streams ++ [_]).length
    rw [List.length_append]
    exact Nat.lt_of_lt_of_le hσ (Nat.le_add_right _ _)
  · exact ⟨rfl, hσ⟩

/-! ## Outcomes -/

theorem Reader.outcome_typeError (reader : Reader) : reader.outcome .typeError = .typeError := by
  cases reader with
  | json parses => cases parses <;> rfl
  | formData urlencoded => cases urlencoded <;> rfl
  | _ => rfl

theorem Reader.got_of_outcome {reader : Reader} {outcome : Outcome} {bytes : Bytes}
    (h : reader.outcome outcome = .got bytes) : outcome = .got bytes := by
  unfold Reader.outcome at h
  split at h
  · cases h
  · cases h
  · exact h

/-! ## One body -/

/-- Where an unused body has its content. -/
def Guest.available (g : Guest) (b : Body) : Option Bytes :=
  match b.blob, b.stream with
  | some bytes, none => some bytes
  | none, some σ => some (g.streamContent σ)
  | none, none => some []
  | some _, some _ => none

structure BodyOk (g : Guest) (b : Body) : Prop where
  used : b.bodyUsed = g.spent b
  valid : ∀ σ, b.stream = some σ → σ < g.streams.length
  holds : b.bodyUsed = false → g.available b = some b.content

theorem BodyOk.unspent {g : Guest} {b : Body} (h : BodyOk g b) (hused : b.bodyUsed = false) : g.spent b = false := by
  rw [← h.used, hused]

/-- A step that neither reads nor closes the stream of the body. -/
theorem BodyOk.frame {g g' : Guest} {b : Body} (h : BodyOk g b) (hlength : g.streams.length ≤ g'.streams.length)
    (hsame : ∀ σ, b.stream = some σ → g'.disturbed σ = g.disturbed σ ∧ g'.streamContent σ = g.streamContent σ) :
    BodyOk g' b where
  used := by
    rw [h.used]
    unfold Guest.spent
    cases hstream : b.stream with
    | none => rfl
    | some σ =>
      change (b.taken || g.disturbed σ) = (b.taken || g'.disturbed σ)
      rw [(hsame σ hstream).1]
  valid := by
    intro σ hσ
    exact Nat.lt_of_lt_of_le (h.valid σ hσ) hlength
  holds := by
    intro hused
    rw [← h.holds hused]
    unfold Guest.available
    cases hblob : b.blob <;> cases hstream : b.stream <;> simp only
    rw [(hsame _ hstream).2]

theorem bodyOk_extractBody {g : Guest} {init : BodyInit} (owner : Owner) (hvalid : g.valid init = true)
    (hfresh : g.fresh init = true) : BodyOk g (g.extractBody owner init) := by
  cases init with
  | null => exact ⟨rfl, nofun, fun _ => rfl⟩
  | bytes content => exact ⟨rfl, nofun, fun _ => rfl⟩
  | stream σ =>
    refine ⟨?_, ?_, fun _ => rfl⟩
    · change false = (false || g.disturbed σ)
      rw [Bool.false_or]
      simpa [Guest.fresh] using hfresh.symm
    · rintro _ ⟨rfl⟩
      exact of_decide_eq_true hvalid

/-- Of a stream that is read, only used bodies are left right. -/
theorem BodyOk.disturb {g : Guest} {b : Body} (h : BodyOk g b) {σ : Nat} {st : ReadableStream UInt8}
    (hσ : σ < g.streams.length) (hst : st.disturbed = true) (hused : b.stream = some σ → b.bodyUsed = true) :
    BodyOk (g.setStream σ st) b := by
  have hlength : (g.setStream σ st).streams.length = g.streams.length := List.length_set
  by_cases hstream : b.stream = some σ
  · refine ⟨?_, ?_, ?_⟩
    · change b.bodyUsed = (b.taken || b.stream.any (g.setStream σ st).disturbed)
      rw [hused hstream, hstream]
      change true = (b.taken || (g.setStream σ st).disturbed σ)
      rw [g.disturbed_setStream st hσ, if_pos rfl, hst, Bool.or_true]
    · intro σ' hσ'
      rw [hlength]
      exact h.valid σ' hσ'
    · intro hunused
      rw [hused hstream] at hunused
      cases hunused
  · refine h.frame (Nat.le_of_eq hlength.symm) ?_
    intro σ' hσ'
    have hne : σ' ≠ σ := by
      rintro rfl
      exact hstream hσ'
    rw [g.disturbed_setStream st hσ, g.streamContent_setStream st hσ, if_neg hne, if_neg hne]
    exact ⟨rfl, rfl⟩

/-! ## The invariant -/

structure Inv (g : Guest) : Prop where
  bodies : ∀ (i : Nat) (b : Body), g.bodies[i]? = some b → BodyOk g b
  results : ∀ r ∈ g.results, r.Faithful

namespace Inv
variable {g : Guest}

theorem init : Inv .init where
  bodies := nofun
  results := nofun

theorem intact (h : Inv g) : Intact g where
  results := h.results
  used i b hb := (h.bodies i b hb).used

theorem log (h : Inv g) {r : Result} (hr : r.Faithful) : Inv (g.log r) where
  bodies i b hb := (h.bodies i b hb).frame (Nat.le_refl _) fun _ _ => ⟨rfl, rfl⟩
  results := by
    intro r' hr'
    rcases List.mem_append.mp hr' with hr' | hr'
    · exact h.results r' hr'
    · rw [List.mem_singleton.mp hr']
      exact hr

theorem addBody (h : Inv g) {b : Body} (hb : BodyOk g b) : Inv (g.addBody b) where
  bodies := by
    intro i b' hb'
    change (g.bodies ++ [b])[i]? = some b' at hb'
    have hok : BodyOk g b' := by
      rw [List.getElem?_append] at hb'
      split at hb'
      · exact h.bodies i b' hb'
      · rw [List.getElem?_singleton] at hb'
        split at hb'
        · cases hb'
          exact hb
        · cases hb'
    exact hok.frame (Nat.le_refl _) fun _ _ => ⟨rfl, rfl⟩
  results := h.results

/-- A step on one body and the streams; the other bodies still have theirs as they were. -/
theorem update (h : Inv g) {g' : Guest} {i : Nat} {b' : Body} (hbodies : g'.bodies = g.bodies.set i b')
    (hresults : g'.results = g.results) (hb' : BodyOk g' b')
    (hother : ∀ (j : Nat) (c : Body), g.bodies[j]? = some c → j ≠ i → BodyOk g' c) : Inv g' where
  bodies := by
    intro j c hc
    rw [hbodies, List.getElem?_set] at hc
    split at hc
    · split at hc
      · cases hc
        exact hb'
      · cases hc
    · rename_i hne
      exact hother j c hc (Ne.symm hne)
  results := by
    rw [hresults]
    exact h.results

/-- A stream keeps what its readers see. -/
theorem setStream (h : Inv g) {σ : Nat} {st st' : ReadableStream UInt8} (hst : g.streams[σ]? = some st)
    (hsame : st'.content = st.content ∧ st'.disturbed = st.disturbed) : Inv (g.setStream σ st') where
  bodies := by
    intro i b hb
    have hσ := (List.getElem?_eq_some_iff.mp hst).1
    refine (h.bodies i b hb).frame (Nat.le_of_eq List.length_set.symm) ?_
    intro σ' _
    rw [g.disturbed_setStream st' hσ, g.streamContent_setStream st' hσ, hsame.1, hsame.2]
    by_cases hne : σ' = σ
    · subst hne
      simp [Guest.disturbed, Guest.streamContent, hst]
    · rw [if_neg hne, if_neg hne]
      exact ⟨rfl, rfl⟩
  results := h.results

theorem addStream (h : Inv g) (st : ReadableStream UInt8) : Inv (g.addStream st) where
  bodies := by
    intro i b hb
    have hb := h.bodies i b hb
    refine hb.frame ?_ fun σ hσ => g.disturbed_addStream st (hb.valid σ hσ)
    change g.streams.length ≤ (g.streams ++ [st]).length
    rw [List.length_append]
    exact Nat.le_add_right _ _
  results := h.results

theorem expose (h : Inv g) (p : Platform) {i : Nat} {b : Body} (hb : g.bodies[i]? = some b) :
    Inv (g.expose p i b) ∧ BodyOk (g.expose p i b) (g.exposed b) := by
  have hok := h.bodies i b hb
  unfold Guest.expose
  split
  · rename_i bytes hstream hblob
    have hexposed : g.exposed b = { b with blob := none, stream := some g.streams.length } := by
      rw [Guest.exposed, hstream, hblob]
    have hself := g.disturbed_addStream_self (.ofChunks (p.blobChunks bytes) false)
    have hnew : BodyOk ((g.addStream (.ofChunks (p.blobChunks bytes) false)).setBody i (g.exposed b)) (g.exposed b) := by
      rw [hexposed]
      refine ⟨?_, ?_, ?_⟩
      · change b.bodyUsed = (b.taken || (g.addStream _).disturbed g.streams.length)
        rw [hself.1, hok.used, Guest.spent, hstream]
        rfl
      · rintro _ ⟨rfl⟩
        change g.streams.length < (g.streams ++ [_]).length
        simp
      · intro hused
        change some ((g.addStream _).streamContent g.streams.length) = some b.content
        have hholds := hok.holds hused
        rw [Guest.available, hstream, hblob] at hholds
        rw [hself.2, ReadableStream.content, ReadableStream.ofChunks, p.blobChunks_flatten]
        exact hholds
    refine ⟨(h.addStream _).update rfl rfl hnew ?_, hnew⟩
    intro j c hc _
    exact ((h.addStream _).bodies j c hc).frame (Nat.le_refl _) fun _ _ => ⟨rfl, rfl⟩
  · rename_i hnot
    have hexposed : g.exposed b = b := by
      unfold Guest.exposed
      split
      · rename_i hstream hblob
        exact absurd hblob (hnot _ hstream)
      · rfl
    rw [hexposed]
    exact ⟨h, hok⟩

/-! ## Readers -/

theorem take_used {i : Nat} {b : Body} (hused : b.bodyUsed = true) : g.take i b = (g, .typeError) := if_pos hused

theorem bodyOk_taken {g' : Guest} {b : Body} (hvalid : ∀ σ, b.stream = some σ → σ < g'.streams.length) :
    BodyOk g' b.take where
  used := rfl
  valid := hvalid
  holds := nofun

theorem setTaken (h : Inv g) {i : Nat} {b : Body} (hb : g.bodies[i]? = some b) :
    Inv (g.setBody i b.take) := by
  refine h.update rfl rfl (bodyOk_taken (h.bodies i b hb).valid) ?_
  intro j c hc _
  exact (h.bodies j c hc).frame (Nat.le_refl _) fun _ _ => ⟨rfl, rfl⟩

/-- A reader drains the stream of its body. -/
theorem drained (h : Inv g) {i σ : Nat} {b : Body} {st : ReadableStream UInt8} (hb : g.bodies[i]? = some b)
    (hσ : σ < g.streams.length) (hst : st.disturbed = true)
    (hother : ∀ j < g.bodies.length, j ≠ i → ∀ b' : Body, b' ∈ g.bodies[j]? → b'.stream = some σ → b'.bodyUsed = true) :
    Inv ((g.setBody i b.take).setStream σ st) := by
  refine h.update rfl rfl ?_ ?_
  · apply bodyOk_taken
    intro σ' hσ'
    change σ' < (g.streams.set σ st).length
    rw [List.length_set]
    exact (h.bodies i b hb).valid σ' hσ'
  · intro j c hc hne
    have hused := hother j (List.getElem?_eq_some_iff.mp hc).1 hne c hc
    exact ((h.bodies j c hc).disturb hσ hst hused).frame (Nat.le_refl _) fun _ _ => ⟨rfl, rfl⟩

theorem take (h : Inv g) {i : Nat} {b : Body} (hb : g.bodies[i]? = some b) (hused : b.bodyUsed = false)
    (hown : g.OwnsStream i b) :
    Inv (g.take i b).1 ∧ (g.take i b).2 = if b.stream.any g.fails then .failed else .got b.content := by
  have hok := h.bodies i b hb
  have hholds := hok.holds hused
  unfold Guest.available at hholds
  unfold Guest.take
  rw [if_neg (Bool.not_eq_true _ ▸ hused)]
  split at hholds
  · rename_i bytes hblob hstream
    simp only [hblob, hstream]
    obtain rfl := Option.some.inj hholds
    exact ⟨h.setTaken hb, rfl⟩
  · rename_i σ hblob hstream
    obtain ⟨hfree, hother⟩ := hown σ hstream
    have hσ := hok.valid σ hstream
    obtain ⟨st, hst⟩ : ∃ st, g.streams[σ]? = some st := ⟨_, List.getElem?_eq_getElem hσ⟩
    have hlocked : st.locked = false := by
      rw [Guest.locked, hst] at hfree
      exact hfree
    have hcontent : st.content = b.content := by
      rw [Guest.streamContent, hst] at hholds
      exact Option.some.inj hholds
    simp only [hblob, hstream, hst, Option.bind_some, ReadableStream.drain_of_free hlocked]
    refine ⟨h.drained hb hσ rfl hother, ?_⟩
    rw [hcontent]
    change _ = if g.fails σ then _ else _
    rw [Guest.fails, hst]
    change _ = if st.fails then _ else _
    cases st.fails <;> rfl
  · rename_i hblob hstream
    simp only [hblob, hstream]
    rw [← Option.some.inj hholds]
    exact ⟨h.setTaken hb, rfl⟩
  · cases hholds

/-- A reader that leaves every flag right had the stream for itself. -/
theorem owns_of_take (h : Inv g) {i : Nat} {b : Body} (hb : g.bodies[i]? = some b) (hused : b.bodyUsed = false)
    (hflags : ∀ (j : Nat) (c : Body), (g.take i b).1.bodies[j]? = some c → c.bodyUsed = (g.take i b).1.spent c) :
    g.OwnsStream i b := by
  have hok := h.bodies i b hb
  have hholds := hok.holds hused
  have hi := (List.getElem?_eq_some_iff.mp hb).1
  intro σ hstream
  have hstream : b.stream = some σ := hstream
  have hblob : b.blob = none := by
    unfold Guest.available at hholds
    rw [hstream] at hholds
    cases hblob : b.blob with
    | none => rfl
    | some bytes =>
      rw [hblob] at hholds
      cases hholds
  have hσ := hok.valid σ hstream
  obtain ⟨st, hst⟩ : ∃ st, g.streams[σ]? = some st := ⟨_, List.getElem?_eq_getElem hσ⟩
  unfold Guest.take at hflags
  rw [if_neg (Bool.not_eq_true _ ▸ hused)] at hflags
  simp only [hblob, hstream, hst, Option.bind_some] at hflags
  have hspent := hok.used
  rw [hused, Guest.spent, hstream] at hspent
  by_cases hlocked : st.locked = true
  · -- the flag is set on a body that nobody has read
    rw [ReadableStream.drain_of_locked hlocked] at hflags
    have hself : b.use.bodyUsed = (g.setBody i b.use).spent b.use := hflags i b.use (List.getElem?_set_self hi)
    change true = (b.taken || b.stream.any g.disturbed) at hself
    rw [hstream, ← hspent] at hself
    cases hself
  · have hlocked : st.locked = false := by simpa using hlocked
    rw [ReadableStream.drain_of_free hlocked] at hflags
    constructor
    · rw [Guest.locked, hst]
      exact hlocked
    · intro j hj hne c hc hcstream
      have hother := hflags j c ((List.getElem?_set_ne (Ne.symm hne)).trans hc)
      change c.bodyUsed = (c.taken || c.stream.any (g.setStream σ _).disturbed) at hother
      rw [hcstream] at hother
      change c.bodyUsed = (c.taken || (g.setStream σ _).disturbed σ) at hother
      rw [g.disturbed_setStream _ hσ, if_pos rfl, Bool.or_true] at hother
      exact hother

theorem read (h : Inv g) {i : Nat} {b : Body} (hb : g.bodies[i]? = some b)
    (hown : b.bodyUsed = false → g.OwnsStream i b) (reader : Reader) : Inv (g.read i b reader) := by
  have hok := h.bodies i b hb
  cases hused : b.bodyUsed with
  | true =>
    unfold Guest.read
    rw [take_used hused, reader.outcome_typeError]
    exact h.log (Result.faithful_typeError _ _)
  | false =>
    obtain ⟨hinv, houtcome⟩ := h.take hb hused (hown hused)
    refine hinv.log (Result.faithful_of_unspent (hok.unspent hused) ?_)
    intro bytes hgot
    have hgot := Reader.got_of_outcome hgot
    rw [houtcome] at hgot
    split at hgot
    · cases hgot
    · cases hgot
      rfl

/-- A `fetch` that reaches the host sends the content, if that is text. -/
theorem fetch (h : Inv g) (p : Platform) {i : Nat} {b : Body} (hb : g.bodies[i]? = some b) (hused : b.bodyUsed = false)
    (hown : g.OwnsStream i b) (htext : b.stream.any g.fails = false → p.throughText b.content = b.content) :
    Inv (g.fetch p i b) := by
  have hok := h.bodies i b hb
  obtain ⟨hinv, houtcome⟩ := h.take hb hused hown
  unfold Guest.fetch
  rw [if_neg (Bool.not_eq_true _ ▸ hused)]
  refine hinv.log (Result.faithful_of_unspent (hok.unspent hused) ?_)
  intro bytes hgot
  rw [houtcome] at hgot
  cases hfails : b.stream.any g.fails with
  | true =>
    rw [hfails] at hgot
    cases hgot
  | false =>
    rw [hfails] at hgot
    cases hgot
    exact htext hfails

theorem clone (h : Inv g) {i : Nat} {b : Body} (hb : g.bodies[i]? = some b) : Inv (g.clone b) := by
  have hok := h.bodies i b hb
  unfold Guest.clone
  dsimp only
  split
  · exact h.log (Result.faithful_typeError _ _)
  · rename_i hused
    have hspent := hok.unspent (by simpa using hused)
    split
    · exact h.log (Result.faithful_typeError _ _)
    · have hnew : BodyOk g (g.extractBody b.owner (b.blob.elim .null .bytes)) := by
        apply bodyOk_extractBody <;> cases b.blob <;> rfl
      exact (h.addBody hnew).log (Result.faithful_of_unspent hspent nofun)

/-- A copy starts on a stream that nobody has read. -/
theorem fresh_copySource (h : Inv g) (p : Platform) {i : Nat} {b : Body} (hb : g.bodies[i]? = some b)
    (hused : b.bodyUsed = false) {init : BodyInit} (hvalid : g.valid init = true)
    (hfresh : init ≠ .null → g.fresh init = true) :
    (g.expose p i b).valid (g.copySource b init) = true ∧ (g.expose p i b).fresh (g.copySource b init) = true := by
  obtain ⟨_, hexposed⟩ := h.expose p hb
  unfold Guest.copySource
  split
  · cases hstream : (g.exposed b).stream with
    | none => exact ⟨rfl, rfl⟩
    | some σ =>
      have hspent := hexposed.used
      have hflag : (g.exposed b).bodyUsed = b.bodyUsed := by
        unfold Guest.exposed
        split <;> rfl
      rw [hflag, hused, Guest.spent, hstream] at hspent
      have hundisturbed : (g.expose p i b).disturbed σ = false := (Bool.or_eq_false_iff.mp hspent.symm).2
      refine ⟨decide_eq_true (hexposed.valid σ hstream), ?_⟩
      change (!(g.expose p i b).disturbed σ) = true
      rw [hundisturbed]
      rfl
  · rename_i hnull
    cases init with
    | null => exact absurd rfl hnull
    | bytes content => exact ⟨rfl, rfl⟩
    | stream σ =>
      have hframe := Guest.disturbed_expose p i b (of_decide_eq_true hvalid)
      refine ⟨decide_eq_true hframe.2, ?_⟩
      change (!(g.expose p i b).disturbed σ) = true
      rw [hframe.1]
      exact hfresh hnull

theorem copyRequest (h : Inv g) (p : Platform) {i : Nat} {b : Body} (hb : g.bodies[i]? = some b) (method : String)
    {init : BodyInit} (hvalid : g.valid init = true)
    (hfresh : b.bodyUsed = false → requestRefuses method init = false → g.fresh init = true) :
    Inv (g.copyRequest p i b method init) := by
  have hok := h.bodies i b hb
  unfold Guest.copyRequest
  dsimp only
  split
  · exact h.log (Result.faithful_typeError _ _)
  · rename_i hused
    have hused : b.bodyUsed = false := by simpa using hused
    obtain ⟨hinv, _⟩ := h.expose p hb
    split
    · exact hinv.log (Result.faithful_typeError _ _)
    · rename_i hrefuses
      have hsource := h.fresh_copySource p hb hused hvalid ?_
      · have hnew := bodyOk_extractBody (.request method) hsource.1 hsource.2
        exact (hinv.addBody hnew).log (Result.faithful_of_unspent (hok.unspent hused) nofun)
      · intro hnull
        apply hfresh hused
        unfold Guest.copySource at hrefuses
        rw [if_neg hnull] at hrefuses
        simpa using hrefuses

theorem getReader (h : Inv g) {σ : Nat} {st : ReadableStream UInt8} (hst : g.streams[σ]? = some st)
    (hunused : g.locked σ = false → ∀ b : Body, b ∈ g.bodies → b.stream = some σ → b.bodyUsed = false) :
    Inv (g.getReader σ st) := by
  unfold Guest.getReader
  cases hreader : st.getReader with
  | none => exact h.log (Result.faithful_typeError _ _)
  | some st' =>
    refine (h.setStream hst (ReadableStream.content_of_getReader hreader)).log ⟨?_, nofun⟩
    intro hspent
    obtain ⟨b, hb, hspent⟩ := List.any_eq_true.mp hspent
    simp only [Bool.and_eq_true, decide_eq_true_eq] at hspent
    have hfree : g.locked σ = false := by
      rw [Guest.locked, hst]
      exact (ReadableStream.getReader_eq_some.mp hreader).1
    have hused := hunused hfree b hb hspent.1
    obtain ⟨i, hi⟩ := List.getElem?_of_mem hb
    rw [(h.bodies i b hi).used, hspent.2] at hused
    cases hused

/-- Reading a stream of used bodies only. -/
theorem readChunk (h : Inv g) {σ : Nat} {st st' : ReadableStream UInt8} (hst : g.streams[σ]? = some st)
    (hread : st.read = some st') (hused : ∀ b : Body, b ∈ g.bodies → b.stream = some σ → b.bodyUsed = true) :
    Inv (g.setStream σ st') where
  bodies := by
    intro i b hb
    have hb : g.bodies[i]? = some b := hb
    have hσ := (List.getElem?_eq_some_iff.mp hst).1
    exact (h.bodies i b hb).disturb hσ (ReadableStream.disturbed_of_read hread) (hused b (List.mem_of_getElem? hb))
  results := h.results

end Inv

/-! ## Runs -/

section Runs
variable {p : Platform} {g t : Guest} {a : Action}

theorem inv_step (h : Inv g) (hok : FlagFollows p g a) (hstep : step p g a = some t) : Inv t := by
  cases a with
  | newStream chunks fails =>
    cases hstep
    exact h.addStream _
  | newRequest method init =>
    simp only [step] at hstep
    split at hstep
    · rename_i hvalid
      cases hstep
      split
      · exact h
      · rename_i hrefuses
        exact h.addBody (bodyOk_extractBody _ hvalid (hok (by simpa using hrefuses)))
    · cases hstep
  | newResponse status init =>
    simp only [step] at hstep
    split at hstep
    · rename_i hvalid
      cases hstep
      split
      · exact h
      · rename_i hrefuses
        exact h.addBody (bodyOk_extractBody _ hvalid (hok (by simpa using hrefuses)))
    · cases hstep
  | copyRequest i method init =>
    simp only [step] at hstep
    split at hstep
    · rename_i b hb
      split at hstep
      · rename_i m hm
        split at hstep
        · rename_i hvalid
          cases hstep
          exact h.copyRequest p hb _ hvalid fun hused => hok b hb hused m hm
        · cases hstep
      · cases hstep
    · cases hstep
  | clone i =>
    obtain ⟨b, hb, rfl⟩ := Option.map_eq_some_iff.mp hstep
    exact h.clone hb
  | body i =>
    obtain ⟨b, hb, rfl⟩ := Option.map_eq_some_iff.mp hstep
    exact (h.expose p hb).1
  | getReader σ =>
    obtain ⟨st, hst, rfl⟩ := Option.map_eq_some_iff.mp hstep
    exact h.getReader hst hok
  | readChunk σ =>
    obtain ⟨st, hst, hread⟩ := Option.bind_eq_some_iff.mp hstep
    obtain ⟨st', hst', rfl⟩ := Option.map_eq_some_iff.mp hread
    exact h.readChunk hst hst' hok
  | releaseLock σ =>
    obtain ⟨st, hst, hrelease⟩ := Option.bind_eq_some_iff.mp hstep
    obtain ⟨st', hst', rfl⟩ := Option.map_eq_some_iff.mp hrelease
    exact h.setStream hst (ReadableStream.content_of_releaseLock hst')
  | read i reader =>
    obtain ⟨b, hb, rfl⟩ := Option.map_eq_some_iff.mp hstep
    exact h.read hb (hok b hb) reader
  | fetch i =>
    simp only [step] at hstep
    split at hstep
    · rename_i b hb
      split at hstep
      · cases hstep
        obtain ⟨hused, hown, htext⟩ := hok b hb
        exact h.fetch p hb hused hown htext
      · cases hstep
    · cases hstep

theorem Intact.of_log {r : Result} (h : Intact (g.log r)) : Intact g where
  results r' hr' := h.results r' (List.mem_append_left _ hr')
  used := h.used

theorem Intact.logged {r : Result} (h : Intact (g.log r)) : r.Faithful :=
  h.results r (List.mem_append_right _ (List.mem_singleton.mpr rfl))

/-- Only a body that is not spent gives anything but an error. -/
theorem Result.Faithful.unspent {r : Result} (h : r.Faithful) (hr : r.outcome ≠ .typeError) : r.spent = false := by
  by_contra hspent
  exact hr (h.refused (by simpa using hspent))

/-- The flag of a new body shows that its stream was fresh. -/
theorem fresh_of_intact {init : BodyInit} {owner : Owner} (ht : Intact (g.addBody (g.extractBody owner init))) :
    g.fresh init = true := by
  cases init with
  | null => rfl
  | bytes content => rfl
  | stream σ =>
    have hflag := ht.used g.bodies.length (g.extractBody owner (.stream σ)) (by simp [Guest.addBody])
    change false = (false || g.disturbed σ) at hflag
    change (!g.disturbed σ) = true
    rw [Bool.false_or] at hflag
    rw [← hflag]
    rfl

theorem fresh_of_copyRequest {i : Nat} {b : Body} {m : String} {init : BodyInit} (hused : b.bodyUsed = false)
    (hrefuses : requestRefuses m init = false) (hvalid : g.valid init = true)
    (ht : Intact (g.copyRequest p i b m init)) : g.fresh init = true := by
  cases init with
  | null => rfl
  | bytes content => rfl
  | stream σ =>
    unfold Guest.copyRequest Guest.copySource at ht
    simp only [hused, hrefuses, reduceCtorEq, if_false, Bool.false_eq_true] at ht
    have hfresh := fresh_of_intact ht.of_log
    change (!(g.expose p i b).disturbed σ) = true at hfresh
    rw [(Guest.disturbed_expose p i b (of_decide_eq_true hvalid)).1] at hfresh
    exact hfresh

theorem unused_of_getReader (h : Inv g) {σ : Nat} {st : ReadableStream UInt8} (hlocked : st.locked = false)
    (ht : Intact (g.getReader σ st)) {b : Body} (hb : b ∈ g.bodies) (hstream : b.stream = some σ) :
    b.bodyUsed = false := by
  unfold Guest.getReader at ht
  rw [ReadableStream.getReader_eq_some.mpr ⟨hlocked, rfl⟩] at ht
  have hunspent := ht.logged.unspent nofun
  obtain ⟨i, hi⟩ := List.getElem?_of_mem hb
  rw [(h.bodies i b hi).used]
  have hb' := List.any_eq_false.mp hunspent b hb
  rw [hstream, decide_eq_true rfl, Bool.true_and] at hb'
  simpa using hb'

theorem used_of_readChunk {σ : Nat} {st st' : ReadableStream UInt8} (hst : g.streams[σ]? = some st)
    (hread : st.read = some st') (ht : Intact (g.setStream σ st')) {b : Body} (hb : b ∈ g.bodies)
    (hstream : b.stream = some σ) : b.bodyUsed = true := by
  obtain ⟨i, hi⟩ := List.getElem?_of_mem hb
  have hflag := ht.used i b hi
  change b.bodyUsed = (b.taken || b.stream.any (g.setStream σ st').disturbed) at hflag
  rw [hstream] at hflag
  change b.bodyUsed = (b.taken || (g.setStream σ st').disturbed σ) at hflag
  rw [g.disturbed_setStream st' (List.getElem?_eq_some_iff.mp hst).1, if_pos rfl,
    ReadableStream.disturbed_of_read hread, Bool.or_true] at hflag
  exact hflag

theorem unused_of_fetch (h : Inv g) {i : Nat} {b : Body} (hb : g.bodies[i]? = some b)
    (ht : Intact (g.fetch p i b)) : b.bodyUsed = false := by
  by_contra hused
  have hused : b.bodyUsed = true := by simpa using hused
  unfold Guest.fetch at ht
  rw [if_pos hused] at ht
  have hunspent := ht.logged.unspent nofun
  rw [← (h.bodies i b hb).used, hused] at hunspent
  cases hunspent

theorem owned_of_fetch (h : Inv g) {i : Nat} {b : Body} (hb : g.bodies[i]? = some b)
    (ht : Intact (g.fetch p i b)) :
    g.OwnsStream i b ∧ (b.stream.any g.fails = false → p.throughText b.content = b.content) := by
  have hused := unused_of_fetch h hb ht
  unfold Guest.fetch at ht
  rw [if_neg (Bool.not_eq_true _ ▸ hused)] at ht
  have hown := h.owns_of_take hb hused ht.used
  refine ⟨hown, ?_⟩
  intro hfails
  have hwhole := ht.logged.whole
  rw [(h.take hb hused hown).2, hfails] at hwhole
  exact hwhole _ rfl

/-- What the property after a step shows of the step. -/
theorem flagFollows_of_intact (h : Inv g) (hstep : step p g a = some t) (ht : Intact t) : FlagFollows p g a := by
  cases a with
  | newStream chunks fails => trivial
  | newRequest method init =>
    intro hrefuses
    simp only [step, hrefuses] at hstep
    split at hstep
    · cases hstep
      exact fresh_of_intact ht
    · cases hstep
  | newResponse status init =>
    intro hrefuses
    simp only [step, hrefuses] at hstep
    split at hstep
    · cases hstep
      exact fresh_of_intact ht
    · cases hstep
  | copyRequest i method init =>
    intro b hb hused m hm hrefuses
    have hb : g.bodies[i]? = some b := hb
    have hm : b.owner.method = some m := hm
    simp only [step, hb, hm] at hstep
    split at hstep
    · rename_i hvalid
      cases hstep
      exact fresh_of_copyRequest hused hrefuses hvalid ht
    · cases hstep
  | clone i => trivial
  | body i => trivial
  | getReader σ =>
    intro hfree b hb hstream
    obtain ⟨st, hst, rfl⟩ := Option.map_eq_some_iff.mp hstep
    rw [Guest.locked, hst] at hfree
    exact unused_of_getReader h hfree ht hb hstream
  | readChunk σ =>
    intro b hb hstream
    obtain ⟨st, hst, hread⟩ := Option.bind_eq_some_iff.mp hstep
    obtain ⟨st', hst', rfl⟩ := Option.map_eq_some_iff.mp hread
    exact used_of_readChunk hst hst' ht hb hstream
  | releaseLock σ => trivial
  | read i reader =>
    intro b hb hused
    have hb : g.bodies[i]? = some b := hb
    simp only [step, hb, Option.map_some] at hstep
    cases hstep
    exact h.owns_of_take hb hused ht.used
  | fetch i =>
    intro b hb
    have hb : g.bodies[i]? = some b := hb
    simp only [step, hb] at hstep
    split at hstep
    · cases hstep
      exact ⟨unused_of_fetch h hb ht, owned_of_fetch h hb ht⟩
    · cases hstep

/-- In every run of the guest the bodies are read whole, refused when spent and flagged when used
exactly where every step is one that the flag can follow. -/
theorem intact_iff_flagFollows (p : Platform) {t : Guest} {as : List Action} (h : exec (step p) .init as = some t) :
    Always (step p) Intact .init as ↔ Along (step p) (FlagFollows p) .init as :=
  always_iff_along (fun _ hg => hg.intact) (fun _ _ _ hg hok hstep => inv_step hg hok hstep)
    (fun _ _ _ hg hstep ht => flagFollows_of_intact hg hstep ht) Inv.init h

/-- A platform for contents that are text and fit into one chunk. -/
def smallTexts : Platform where
  blobChunks bytes := [bytes]
  blobChunks_flatten bytes := by simp
  throughText := id

/-- A request is cloned, read and refused, and the clone is sent. -/
theorem intact_clone :
    Always (step smallTexts) Intact .init
      [.newRequest "POST" (.bytes [104, 105]), .clone 0, .read 0 .text, .read 0 .text, .fetch 1] :=
  (intact_iff_flagFollows smallTexts rfl).mpr (by decide)

/-- A request that was read is fetched without its body. -/
theorem fetch_usedRequest_not_intact :
    ¬Always (step smallTexts) Intact .init [.newRequest "POST" (.bytes [104, 105]), .read 0 .text, .fetch 0] := by
  intro h
  have hlast : Intact _ := ((h.2 _ rfl).2 _ rfl).2 _ rfl
  have hresult := hlast.results { content := [104, 105], spent := true, outcome := .got [] } (List.mem_of_getLast? rfl)
  cases hresult.refused rfl

end Runs

end WorkflowEngine.Sandbox.GuestBody
