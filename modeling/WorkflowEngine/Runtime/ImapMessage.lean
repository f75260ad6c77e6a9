import WorkflowEngine.Lib.JsObject
import WorkflowEngine.Lib.Fallible
import WorkflowEngine.Sandbox.OutputBytes

/-!
# Parsed mail messages

Model of `parseRfc822` and its helpers in `triggers/imap.ts`. `PostalMime.parse` is a parameter, and so
is `toLowerCase`, whose Unicode tables play no part here.
-/

namespace WorkflowEngine.Runtime.Imap

open Lib
set_option autoImplicit false

/-! ## What `PostalMime.parse` returns -/

/-- `PostalAddressLike`; the members of a group are addresses again. -/
inductive PostalAddress where
  | mk (name address : Option String) (group : Option (List PostalAddress))

structure Header where
  key : String
  value : String
  deriving DecidableEq, Repr

structure PostalAttachment where
  filename : Option String
  mimeType : Option String
  contentId : Option String
  disposition : Option String
  /-- The content where it is a string. -/
  content : Option String

/-- `parsed.references`, which is read as `unknown`. -/
inductive References where
  | text (refs : String)
  | list (refs : List String)
  | other

structure ParsedMail where
  «from» : Option PostalAddress
  attachments : Option (List PostalAttachment)
  messageId : Option String
  inReplyTo : Option String
  references : References
  «to» : Option (List PostalAddress)
  cc : Option (List PostalAddress)
  bcc : Option (List PostalAddress)
  replyTo : Option (List PostalAddress)
  subject : Option String
  date : Option String
  text : Option String
  html : Option String
  headers : Option (List Header)

/-! ## `ImapMessage` -/

structure MailAddress where
  name : Option String
  address : String
  deriving DecidableEq, Repr

inductive ContentDisposition where
  | inline
  | attachment
  deriving DecidableEq, Repr

structure MailAttachment where
  filename : Option String
  contentType : String
  size : Nat
  contentId : Option String
  contentDisposition : Option ContentDisposition
  content : String

structure ImapMessage where
  uid : Nat
  messageId : Option String
  inReplyTo : Option String
  references : List String
  «from» : MailAddress
  «to» : List MailAddress
  cc : List MailAddress
  bcc : List MailAddress
  replyTo : Option (List MailAddress)
  subject : String
  date : String
  text : Option String
  html : Option String
  headers : OrderedMap String (List String)
  attachments : List MailAttachment

/-- What `parseRfc822` throws: a rejection of the parser, or a `TypeError`. -/
inductive MessageError where
  | parse (message : String)
  | typeError (message : String)
  deriving DecidableEq, Repr

/-- A field that is spread in only when it is not the empty string. -/
def nonEmpty (s : Option String) : Option String := s.filter (· ≠ "")

/-! ## Addresses -/

mutual

/-- `flattenAddress(a, out)` for `a` that is not `undefined`: what it pushes. -/
def flattenAddress : PostalAddress → List MailAddress
  | .mk name address group =>
    match nonEmpty address, group with
    | some address, _ => [⟨nonEmpty name, address⟩]
    | none, some group => flattenGroup group
    | none, none => []

def flattenGroup : List PostalAddress → List MailAddress
  | [] => []
  | a :: rest => flattenAddress a ++ flattenGroup rest

end

def toAddressList (arr : Option (List PostalAddress)) : List MailAddress :=
  match arr with
  | none => []
  | some arr => flattenGroup arr

/-! ## References and attachments -/

/-- The characters of `\s`. -/
def isWhitespace (c : Char) : Bool :=
  c.toNat ∈ [0x9, 0xA, 0xB, 0xC, 0xD, 0x20, 0xA0, 0x1680, 0x2028, 0x2029, 0x202F, 0x205F, 0x3000, 0xFEFF] ||
    (0x2000 ≤ c.toNat && c.toNat ≤ 0x200A)

/-- The empty pieces are dropped, so a run of whitespace separates as one character does. -/
def normalizeReferences : References → List String
  | .text refs => ((refs.toList.splitOnP isWhitespace).filter (· ≠ [])).map String.ofList
  | .list refs => refs
  | .other => []

def base64BytesNumerator : Nat := 3

def base64BytesDenominator : Nat := 4

def normalizeAttachment (att : PostalAttachment) : MailAttachment :=
  let content := att.content.getD ""
  { filename := att.filename
    contentType := att.mimeType.getD "application/octet-stream"
    size := Sandbox.utf16Length content.toList * base64BytesNumerator / base64BytesDenominator
    contentId := nonEmpty att.contentId
    contentDisposition :=
      if att.disposition = some "inline" then some .inline
      else if att.disposition = some "attachment" then some .attachment
      else none
    content := content }

/-! ## Headers -/

section Headers
variable (toLowerCase : String → String)

/-- One turn of the loop in `normalizeHeaders`. -/
def pushHeader (out : OrderedMap String (List String)) (h : Header) :
    Except MessageError (OrderedMap String (List String)) :=
  let key := toLowerCase h.key
  let out := if out.read key = none then out.assign key [] else out
  match out.read key with
  | some (.own values) => .ok (out.set key (values ++ [h.value]))
  -- what stands in `Object.prototype` has no `push`
  | some (.inherited _) => .error (.typeError "out[key].push is not a function")
  | none => .error (.typeError "Cannot read properties of undefined (reading 'push')")

def normalizeHeaders (headers : Option (List Header)) :
    Except MessageError (OrderedMap String (List String)) :=
  match headers with
  | none => .ok .empty
  | some headers => headers.foldlM (pushHeader toLowerCase) .empty

/-- The record has under each name the values of the headers that bear it, in order, and no other name. -/
def Groups (headers : List Header) (out : OrderedMap String (List String)) : Prop :=
  ∀ k, out.get? k = OrderedMap.pushedAt (fun h => toLowerCase h.key) Header.value headers k

theorem groups_empty : Groups toLowerCase [] .empty := fun _ => rfl

theorem pushHeader_of_notMem {out : OrderedMap String (List String)} {h : Header}
    (hkey : toLowerCase h.key ∉ objectPrototype) :
    ∃ out', pushHeader toLowerCase out h = .ok out' ∧
      ∀ k, out'.get? k = if k = toLowerCase h.key then
        some ((out.get? (toLowerCase h.key)).getD [] ++ [h.value]) else out.get? k := by
  have hproto : toLowerCase h.key ≠ "__proto__" := fun hp => hkey (hp ▸ by decide)
  cases hget : out.get? (toLowerCase h.key) with
  | none =>
    have hread : out.read (toLowerCase h.key) = none := by
      unfold OrderedMap.read
      rw [hget, if_neg hkey]
    have hpushed : ((out.set (toLowerCase h.key) []).read (toLowerCase h.key)) = some (.own []) := by
      rw [OrderedMap.read_set, if_pos rfl]
    refine ⟨(out.set (toLowerCase h.key) []).set (toLowerCase h.key) ([] ++ [h.value]), ?_, ?_⟩
    · unfold pushHeader
      simp only [hread, if_true, OrderedMap.assign, if_neg hproto, hpushed]
    · intro k
      rw [OrderedMap.get?_set]
      by_cases hk : k = toLowerCase h.key
      · rw [if_pos hk, if_pos hk, Option.getD_none]
      · rw [if_neg hk, if_neg hk, OrderedMap.get?_set_of_ne _ _ _ hk]
  | some values =>
    have hread : out.read (toLowerCase h.key) = some (.own values) := by
      unfold OrderedMap.read
      rw [hget]
    refine ⟨out.set (toLowerCase h.key) (values ++ [h.value]), ?_, ?_⟩
    · unfold pushHeader
      simp only [hread, reduceCtorEq, if_false]
    · intro k
      rw [OrderedMap.get?_set, Option.getD_some]

theorem pushHeader_of_mem {out : OrderedMap String (List String)} {h : Header}
    (hkey : toLowerCase h.key ∈ objectPrototype) (hget : out.get? (toLowerCase h.key) = none) :
    pushHeader toLowerCase out h = .error (.typeError "out[key].push is not a function") := by
  have hread : out.read (toLowerCase h.key) = some (.inherited (toLowerCase h.key)) := by
    unfold OrderedMap.read
    rw [hget, if_pos hkey]
  unfold pushHeader
  simp only [hread, reduceCtorEq, if_false]

/-- What the loop keeps: the headers done so far are grouped, and none of them has an inherited name. -/
theorem foldlM_pushHeader_ok (before after : List Header) {out : OrderedMap String (List String)}
    (hout : Groups toLowerCase before out) (hafter : ∀ h ∈ after, toLowerCase h.key ∉ objectPrototype) :
    ∃ out', after.foldlM (pushHeader toLowerCase) out = .ok out' ∧ Groups toLowerCase (before ++ after) out' := by
  induction after generalizing before out with
  | nil => exact ⟨out, rfl, by rwa [List.append_nil]⟩
  | cons h after ih =>
    obtain ⟨out₁, hpush, hget⟩ := pushHeader_of_notMem toLowerCase (hafter h List.mem_cons_self)
    have hout₁ : Groups toLowerCase (before ++ [h]) out₁ := by
      intro k
      rw [hget k, OrderedMap.pushedAt_append, hout, hout]
      by_cases hk : k = toLowerCase h.key
      · rw [if_pos hk, if_pos hk, hk]
      · rw [if_neg hk, if_neg hk]
    obtain ⟨out', hrest, hgroups⟩ := ih (before ++ [h]) hout₁ fun x hx => hafter x (List.mem_cons_of_mem h hx)
    refine ⟨out', ?_, ?_⟩
    · rw [List.foldlM_cons, hpush]
      exact hrest
    · simpa using hgroups

theorem foldlM_pushHeader_error (headers : List Header) {out : OrderedMap String (List String)}
    (hout : ∀ k ∈ objectPrototype, out.get? k = none)
    (hmem : ∃ h ∈ headers, toLowerCase h.key ∈ objectPrototype) :
    headers.foldlM (pushHeader toLowerCase) out = .error (.typeError "out[key].push is not a function") := by
  induction headers generalizing out with
  | nil =>
    obtain ⟨h, hh, _⟩ := hmem
    cases hh
  | cons x headers ih =>
    rw [List.foldlM_cons]
    by_cases hx : toLowerCase x.key ∈ objectPrototype
    · rw [pushHeader_of_mem toLowerCase hx (hout _ hx)]
      rfl
    · obtain ⟨out₁, hpush, hget⟩ := pushHeader_of_notMem toLowerCase hx
      rw [hpush]
      refine ih ?_ ?_
      · intro k hk
        have hkx : k ≠ toLowerCase x.key := by
          rintro rfl
          exact hx hk
        rw [hget k, if_neg hkx, hout k hk]
      · obtain ⟨h, hh, hkey⟩ := hmem
        rcases List.mem_cons.mp hh with rfl | hh
        · exact absurd hkey hx
        · exact ⟨h, hh, hkey⟩

theorem normalizeHeaders_ok {headers : Option (List Header)}
    (h : ∀ x ∈ headers.getD [], toLowerCase x.key ∉ objectPrototype) :
    ∃ out, normalizeHeaders toLowerCase headers = .ok out ∧ Groups toLowerCase (headers.getD []) out := by
  cases headers with
  | none => exact ⟨.empty, rfl, groups_empty toLowerCase⟩
  | some headers => exact foldlM_pushHeader_ok toLowerCase [] headers (groups_empty toLowerCase) h

theorem normalizeHeaders_error {headers : Option (List Header)}
    (h : ∃ x ∈ headers.getD [], toLowerCase x.key ∈ objectPrototype) :
    normalizeHeaders toLowerCase headers = .error (.typeError "out[key].push is not a function") := by
  cases headers with
  | none =>
    obtain ⟨x, hx, _⟩ := h
    cases hx
  | some headers => exact foldlM_pushHeader_error toLowerCase headers (fun _ _ => rfl) h

/-! ## Messages -/

def parseRfc822 (parse : List UInt8 → Except String ParsedMail) (source : List UInt8) (uid : Nat) :
    Except MessageError ImapMessage := do
  let parsed ← (parse source).mapError .parse
  let fromList := parsed.from.elim [] flattenAddress
  let attachments := (parsed.attachments.getD []).map normalizeAttachment
  let headers ← normalizeHeaders toLowerCase parsed.headers
  return {
    uid := uid
    messageId := nonEmpty parsed.messageId
    inReplyTo := nonEmpty parsed.inReplyTo
    references := normalizeReferences parsed.references
    «from» := fromList.head?.getD ⟨none, ""⟩
    «to» := toAddressList parsed.to
    cc := toAddressList parsed.cc
    bcc := toAddressList parsed.bcc
    replyTo := parsed.replyTo.map fun replyTo => toAddressList (some replyTo)
    subject := parsed.subject.getD ""
    date := parsed.date.getD "1970-01-01T00:00:00.000Z"
    text := parsed.text
    html := parsed.html
    headers := headers
    attachments := attachments }

theorem parseRfc822_of_headers {parse : List UInt8 → Except String ParsedMail} {source : List UInt8}
    {parsed : ParsedMail} {headers : OrderedMap String (List String)} (uid : Nat)
    (hparse : parse source = .ok parsed) (hheaders : normalizeHeaders toLowerCase parsed.headers = .ok headers) :
    ∃ msg, parseRfc822 toLowerCase parse source uid = .ok msg ∧ msg.headers = headers := by
  simp only [parseRfc822, hparse, Except.mapError, bind, Except.bind, hheaders]
  exact ⟨_, rfl, rfl⟩

theorem parseRfc822_error {parse : List UInt8 → Except String ParsedMail} {source : List UInt8}
    {parsed : ParsedMail} {e : MessageError} (uid : Nat) (hparse : parse source = .ok parsed)
    (hheaders : normalizeHeaders toLowerCase parsed.headers = .error e) :
    parseRfc822 toLowerCase parse source uid = .error e := by
  simp only [parseRfc822, hparse, Except.mapError, bind, Except.bind, hheaders]

/-- `constructor` and `__proto__` are the lower-case names that break the grouping, and with it the message. -/
theorem headers_grouped_iff (headers : Option (List Header)) :
    ((∃ out, normalizeHeaders toLowerCase headers = .ok out ∧ Groups toLowerCase (headers.getD []) out) ∧
      ∀ (parse : List UInt8 → Except String ParsedMail) (source : List UInt8) (uid : Nat) (parsed : ParsedMail),
        parse source = .ok parsed → parsed.headers = headers →
        ∃ msg, parseRfc822 toLowerCase parse source uid = .ok msg ∧
          Groups toLowerCase (headers.getD []) msg.headers) ↔
      ∀ h ∈ headers.getD [], toLowerCase h.key ∉ objectPrototype := by
  constructor
  · intro hok h hh hkey
    obtain ⟨out, hout, _⟩ := hok.1
    rw [normalizeHeaders_error toLowerCase ⟨h, hh, hkey⟩] at hout
    cases hout
  · intro hkeys
    obtain ⟨out, hout, hgroups⟩ := normalizeHeaders_ok toLowerCase hkeys
    refine ⟨⟨out, hout, hgroups⟩, ?_⟩
    intro parse source uid parsed hparse hparsed
    subst hparsed
    obtain ⟨msg, hmsg, hheaders⟩ := parseRfc822_of_headers toLowerCase uid hparse hout
    exact ⟨msg, hmsg, hheaders ▸ hgroups⟩

/-! ## The fetch step of a drain -/

/-- What `client.fetchOne` comes to. -/
inductive Fetched where
  | threw (message : String)
  | noSource
  | source (source : List UInt8)

/-- A uid goes on to `fire`, or to `failedFetchUids` with the text of the error. -/
inductive FetchStep where
  | dispatch (msg : ImapMessage)
  | failed (message : String)

def MessageError.message : MessageError → String
  | .parse message => message
  | .typeError message => message

def fetchMessage (parse : List UInt8 → Except String ParsedMail) (uid : Nat) : Fetched → FetchStep
  | .threw message => .failed message
  | .noSource => .failed "no-source"
  | .source source =>
    match parseRfc822 toLowerCase parse source uid with
    | .ok msg => .dispatch msg
    | .error e => .failed e.message

/-- A parseable message is dispatched unless a header of it has an inherited name; no later fetch changes that. -/
theorem fetchMessage_dispatch_iff {parse : List UInt8 → Except String ParsedMail} {source : List UInt8}
    {parsed : ParsedMail} (uid : Nat) (hparse : parse source = .ok parsed) :
    (∃ msg, fetchMessage toLowerCase parse uid (.source source) = .dispatch msg) ↔
      ∀ h ∈ parsed.headers.getD [], toLowerCase h.key ∉ objectPrototype := by
  constructor
  · rintro ⟨msg, hmsg⟩ h hh hkey
    have herror := parseRfc822_error toLowerCase uid hparse (normalizeHeaders_error toLowerCase ⟨h, hh, hkey⟩)
    simp only [fetchMessage, herror, reduceCtorEq] at hmsg
  · intro hkeys
    obtain ⟨out, hout, _⟩ := normalizeHeaders_ok toLowerCase hkeys
    obtain ⟨msg, hmsg, _⟩ := parseRfc822_of_headers toLowerCase uid hparse hout
    exact ⟨msg, by simp only [fetchMessage, hmsg]⟩

end Headers

/-- `toLowerCase` on names of ASCII letters. -/
def asciiLowerCase (s : String) : String := String.ofList (s.toList.map Char.toLower)

def emptyMail (headers : List Header) : ParsedMail where
  «from» := none
  attachments := none
  messageId := none
  inReplyTo := none
  references := .other
  «to» := none
  cc := none
  bcc := none
  replyTo := none
  subject := none
  date := none
  text := none
  html := none
  headers := some headers

/-- One header `Constructor: x` is enough. -/
theorem constructor_header_throws :
    normalizeHeaders asciiLowerCase (some [⟨"Constructor", "x"⟩]) =
        .error (.typeError "out[key].push is not a function") ∧
      parseRfc822 asciiLowerCase (fun _ => .ok (emptyMail [⟨"Constructor", "x"⟩])) [] 1 =
        .error (.typeError "out[key].push is not a function") := by
  have hheaders : normalizeHeaders asciiLowerCase (some [⟨"Constructor", "x"⟩]) =
      .error (.typeError "out[key].push is not a function") :=
    normalizeHeaders_error asciiLowerCase ⟨⟨"Constructor", "x"⟩, List.mem_cons_self, by decide⟩
  exact ⟨hheaders, parseRfc822_error asciiLowerCase 1 rfl hheaders⟩

end WorkflowEngine.Runtime.Imap
