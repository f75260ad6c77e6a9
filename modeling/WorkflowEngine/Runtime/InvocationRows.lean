import Mathlib.Data.Prod.Lex
import Mathlib.Data.String.Basic
import WorkflowEngine.Lib.FirstRows
import WorkflowEngine.Runtime.OperatorScopes

/-!
# The rows of the invocations list

`fetchInvocationRowsForScopes` of `ui/invocations/middleware.tsx` on the rows of the
event store: the newest requests and the newest single-leaf events of the scopes,
each with its status, the kind of its trigger and the limit that ended it. Rows stand
in the order of the table where a query asks for none. The queries of one page see
one state of the table.
-/

namespace WorkflowEngine.Runtime.Invocations

open Lib
set_option autoImplicit false

variable {Z B : Type}

/-! ## Queries -/

def inScopes (scopes : List Scope) (row : EventsRow) : Bool := scopes.contains ⟨row.owner, row.repo⟩

/-- `EventStore.query`. -/
def query (rows : List EventsRow) (scopes : List Scope) : Except String (List EventsRow) :=
  if scopes.isEmpty then .error "EventStore.query: scopes must be a non-empty (owner, repo) allow-list"
  else .ok (rows.filter (inScopes scopes))

/-- `ORDER BY at DESC, id DESC`. -/
def NewestFirst (a b : EventsRow) : Prop := toLex (b.atIso, b.id) ≤ toLex (a.atIso, a.id)

instance : DecidableRel NewestFirst := fun a b =>
  inferInstanceAs (Decidable (toLex (b.atIso, b.id) ≤ toLex (a.atIso, a.id)))

instance : Std.Total NewestFirst := ⟨fun _ _ => le_total _ _⟩

instance : IsTrans EventsRow NewestFirst := ⟨fun _ _ _ hab hbc => le_trans hbc hab⟩

/-! ## Fields of the JSON columns -/

/-- A column without a text is `undefined`, a text that is no JSON is itself. -/
def parseJsonField : Option (List Char) → JsValue
  | none => .undefined
  | some text => (jsonParse text).getD (.string (String.ofList text))

def stringProperty (key : String) (v : JsValue) : Option String :=
  match parsedProperty key v with
  | .string s => some s
  | _ => none

def numberProperty (key : String) (v : JsValue) : Option JsValue :=
  match parsedProperty key v with
  | .number n => some (.number n)
  | .negZero => some .negZero
  | .nonFinite => some .nonFinite
  | _ => none

/-- A text that counts as given. -/
def given (s : Option String) : Option String := s.filter (· ≠ "")

structure RowUser where
  login : String
  mail : Option String

structure RowDispatch where
  source : String
  user : Option RowUser

def extractDispatch (rawMeta : Option (List Char)) : Option RowDispatch :=
  let d := parsedProperty "dispatch" (parseJsonField rawMeta)
  match stringProperty "source" d with
  | none => none
  | some source =>
    if source = "manual" ∨ source = "trigger" ∨ source = "upload" then
      let user := parsedProperty "user" d
      some ⟨source, (given (stringProperty "login" user)).map fun login => ⟨login, given (stringProperty "mail" user)⟩⟩
    else none

def extractTriggerName (rawInput : Option (List Char)) : Option String :=
  stringProperty "trigger" (parseJsonField rawInput)

mutual

/-- `String(value)` of a value that comes from `JSON.parse`. -/
def jsToString : JsValue → String
  | .undefined => "undefined"
  | .null => "null"
  | .bool b => if b then "true" else "false"
  | .number n => String.ofList n.text
  | .negZero => "0"
  | .nonFinite => "Infinity"
  | .bigint n => toString n
  | .string s => s
  | .date iso => iso.getD "Invalid Date"
  | .array items => ",".intercalate (jsItems items)
  | .object _ => "[object Object]"
  | .builtin _ => "[object Object]"
  | .cycle => ""

/-- The texts that `join` puts together. -/
def jsItems : List JsValue → List String
  | [] => []
  | .undefined :: vs => "" :: jsItems vs
  | .null :: vs => "" :: jsItems vs
  | v :: vs => jsToString v :: jsItems vs

end

def summarizeIssues (rawInput : Option (List Char)) : Option String :=
  match parsedProperty "issues" (parseJsonField rawInput) with
  | .array (first :: _) =>
    let path := match parsedProperty "path" first with
      | .array segments => ".".intercalate (segments.map jsToString)
      | _ => ""
    match first with
    | .object _ =>
      match stringProperty "message" first with
      | none => given (some path)
      | some message => some (if path ≠ "" then path ++ ": " ++ message else message)
    | _ => none
  | _ => none

def composeSetupFailureMessage (row : EventsRow) : String :=
  let stage := (stringProperty "stage" (parseJsonField row.input)).getD ""
  let message := (stringProperty "message" (parseJsonField row.error)).getD ""
  row.name ++ (if stage ≠ "" then " (" ++ stage ++ ")" else "") ++ if message ≠ "" then ": " ++ message else ""

/-! ## Rows of the list -/

inductive InvocationStatus where
  | succeeded | failed | pending | uploaded
  deriving DecidableEq

inductive SyntheticKind where
  | exception | rejection | upload
  deriving DecidableEq

/-- `removed` is `REMOVED_KIND`. -/
inductive RowTriggerKind where
  | live (kind : TriggerKind)
  | removed
  | upload

structure Exhaustion where
  dim : String
  budget : Option JsValue
  observed : Option JsValue

/-- `synthetic` is set where there is a `syntheticKind`. -/
structure InvocationRow where
  id : String
  owner : String
  repo : String
  workflow : String
  trigger : String
  status : InvocationStatus
  startedAt : String
  completedAt : Option String
  startedTs : Int
  completedTs : Option Int
  triggerKind : RowTriggerKind
  removed : Bool
  dispatch : Option RowDispatch
  syntheticKind : Option SyntheticKind
  rejectionSummary : Option String
  setupFailureMessage : Option String
  exhaustion : Option Exhaustion

def statusFromTerminal (kind : Option String) : InvocationStatus :=
  if kind = some "trigger.response" then .succeeded
  else if kind = some "trigger.error" then .failed
  else .pending

/-- The first workflow of the name decides. -/
def lookupTriggerKind (r : Registry Z B) (owner repo workflow trigger : String) : Option TriggerKind :=
  ((r.list owner repo).find? (·.workflow.name = workflow)).bind fun entry =>
    (entry.triggers.find? (·.name = trigger)).map (·.kind)

def rowTriggerKind (kind : Option TriggerKind) : RowTriggerKind := (kind.map RowTriggerKind.live).getD .removed

/-- The row of a request, with its terminal event. -/
def handlerRow (r : Registry Z B) (terminal : Option EventsRow) (row : EventsRow) : InvocationRow :=
  let kind := lookupTriggerKind r row.owner row.repo row.workflow row.name
  { id := row.id
    owner := row.owner
    repo := row.repo
    workflow := row.workflow
    trigger := row.name
    status := statusFromTerminal (terminal.map (·.kind))
    startedAt := row.atIso
    completedAt := terminal.map (·.atIso)
    startedTs := row.ts
    completedTs := terminal.map (·.ts)
    triggerKind := rowTriggerKind kind
    removed := kind.isNone
    dispatch := extractDispatch row.metadata
    syntheticKind := none
    rejectionSummary := none
    setupFailureMessage := none
    exhaustion := none }

def buildUploadRow (row : EventsRow) : InvocationRow where
  id := row.id
  owner := row.owner
  repo := row.repo
  workflow := row.workflow
  trigger := "upload"
  status := .uploaded
  startedAt := row.atIso
  completedAt := some row.atIso
  startedTs := row.ts
  completedTs := some row.ts
  triggerKind := .upload
  removed := false
  dispatch := extractDispatch row.metadata
  syntheticKind := some .upload
  rejectionSummary := none
  setupFailureMessage := none
  exhaustion := none

def buildSyntheticTriggerRow (r : Registry Z B) (row : EventsRow) (trigger : String) : InvocationRow :=
  let kind := lookupTriggerKind r row.owner row.repo row.workflow trigger
  let rejected : Bool := row.kind = "trigger.rejection"
  { id := row.id
    owner := row.owner
    repo := row.repo
    workflow := row.workflow
    trigger := trigger
    status := .failed
    startedAt := row.atIso
    completedAt := some row.atIso
    startedTs := row.ts
    completedTs := some row.ts
    triggerKind := rowTriggerKind kind
    removed := kind.isNone
    dispatch := none
    syntheticKind := some (if rejected then .rejection else .exception)
    rejectionSummary := if rejected then given (summarizeIssues row.input) else none
    setupFailureMessage := if rejected then none else given (some (composeSetupFailureMessage row))
    exhaustion := none }

/-! ## Fetching -/

structure Narrow where
  workflow : String
  trigger : Option String

def terminalRowKinds : List String := ["trigger.response", "trigger.error"]

def syntheticLeafKinds : List String := ["trigger.exception", "trigger.rejection", "system.upload"]

/-- The condition on the rows of the requests. -/
def requestsOf (narrow : Option Narrow) (row : EventsRow) : Bool :=
  row.kind == "trigger.request" && narrow.all fun n =>
    row.workflow == n.workflow && (given n.trigger).all (row.name == ·)

/-- The condition on the single-leaf rows; the trigger is not part of it. -/
def leavesOf (narrow : Option Narrow) (row : EventsRow) : Bool :=
  syntheticLeafKinds.contains row.kind && narrow.all fun n => row.workflow == n.workflow

/-- The row of a single-leaf event, unless the page does not show it. -/
def syntheticRow (r : Registry Z B) (trigger : Option String) (row : EventsRow) : Option InvocationRow :=
  if row.kind = "system.upload" then
    -- a page of one trigger shows no uploads
    if (given trigger).isSome then none else some (buildUploadRow row)
  else
    match extractTriggerName row.input with
    | none => none
    | some name => if (given trigger).all (name == ·) then some (buildSyntheticTriggerRow r row name) else none

/-- The trigger counts after the cut. -/
def fetchSyntheticRows (rows : List EventsRow) (r : Registry Z B) (scopes : List Scope) (limit : Nat)
    (narrow : Option Narrow) : Except String (List InvocationRow) := do
  let base ← query rows scopes
  let leaves := firstRows NewestFirst limit (base.filter (leavesOf narrow))
  return leaves.filterMap (syntheticRow r (narrow.bind (·.trigger)))

/-- The terminal rows of the invocations on the page. -/
def fetchTerminals (rows : List EventsRow) (scopes : List Scope) (ids : List String) :
    Except String (List EventsRow) := do
  if ids.isEmpty then return []
  let base ← query rows scopes
  return base.filter fun row => terminalRowKinds.contains row.kind && ids.contains row.id

def exhaustionOfRow (row : EventsRow) : Exhaustion :=
  let input := parseJsonField row.input
  ⟨row.name, numberProperty "budget" input, numberProperty "observed" input⟩

def failedIds (page : List InvocationRow) : List String := (page.filter (·.status = .failed)).map (·.id)

def attachExhaustion (rows : List EventsRow) (scopes : List Scope) (page : List InvocationRow) :
    Except String (List InvocationRow) := do
  if (failedIds page).isEmpty then return page
  let base ← query rows scopes
  let exhRows := base.filter fun row => row.kind == "system.exhaustion" && (failedIds page).contains row.id
  if exhRows.isEmpty then return page
  let byId := exhRows.foldl (fun m e => m.set e.id e) OrderedMap.empty
  return page.map fun row =>
    match byId.get? row.id with
    | none => row
    | some e => { row with exhaustion := some (exhaustionOfRow e) }

def fetchInvocationRowsForScopes (rows : List EventsRow) (r : Registry Z B) (scopes : List Scope) (limit : Nat)
    (narrow : Option Narrow) : Except String (List InvocationRow) := do
  if scopes.isEmpty then return []
  let base ← query rows scopes
  let requests := firstRows NewestFirst limit (base.filter (requestsOf narrow))
  let terminals ← fetchTerminals rows scopes (requests.map (·.id))
  let terminalById := terminals.foldl (fun m t => m.set t.id t) OrderedMap.empty
  let handlerRows := requests.map fun row => handlerRow r (terminalById.get? row.id) row
  let exceptionRows ← fetchSyntheticRows rows r scopes limit narrow
  attachExhaustion rows scopes (handlerRows ++ exceptionRows)

/-! ## What is fetched -/

theorem query_ok (rows : List EventsRow) {scopes : List Scope} (h : scopes.isEmpty = false) :
    query rows scopes = .ok (rows.filter (inScopes scopes)) := by
  simp [query, h]

/-- The last terminal row of an invocation. -/
def terminalOf (rows : List EventsRow) (id : String) : Option EventsRow :=
  (rows.filter fun row => terminalRowKinds.contains row.kind && row.id == id).getLast?

/-- The last row about a limit that an invocation met. -/
def exhaustionOf (rows : List EventsRow) (id : String) : Option Exhaustion :=
  ((rows.filter fun row => row.kind == "system.exhaustion" && row.id == id).getLast?).map exhaustionOfRow

def InvocationRow.withExhaustion (row : InvocationRow) : Option Exhaustion → InvocationRow
  | none => row
  | some e => { row with exhaustion := some e }

/-- A map filled in a loop over selected rows, read at a selected id. -/
theorem get?_byId {base : List EventsRow} {p : EventsRow → Bool} {ids : List String} {id : String}
    (hid : id ∈ ids) :
    ((base.filter fun row => p row && ids.contains row.id).foldl (fun m e => m.set e.id e)
      OrderedMap.empty).get? id = (base.filter fun row => p row && row.id == id).getLast? := by
  have hfold := OrderedMap.get?_foldl_set_eq (fun e : EventsRow => e.id) (fun e => e)
    (base.filter fun row => p row && ids.contains row.id) OrderedMap.empty id
  have hfilter : ((base.filter fun row => p row && ids.contains row.id).filter fun e => e.id = id) =
      base.filter fun row => p row && row.id == id := by
    rw [List.filter_filter]
    apply List.filter_congr
    intro row _
    by_cases h : row.id = id
    · simp [h, hid]
    · simp [h]
  rw [hfilter] at hfold
  rw [hfold]
  simp

theorem get?_byId_of_not_mem {base : List EventsRow} {p : EventsRow → Bool} {ids : List String} {id : String}
    (hid : id ∉ ids) :
    ((base.filter fun row => p row && ids.contains row.id).foldl (fun m e => m.set e.id e)
      OrderedMap.empty).get? id = none := by
  rw [OrderedMap.get?_eq_none_iff]
  intro h
  rcases (OrderedMap.mem_keys_foldl_set (fun e : EventsRow => e.id) (fun e => e) _ _ id).mp h with h | h
  · obtain ⟨row, hrow, rfl⟩ := List.mem_map.mp h
    simp only [List.mem_filter, Bool.and_eq_true, List.contains_iff_mem] at hrow
    exact hid hrow.2.2
  · cases h

theorem map_withExhaustion_of_none {base : List EventsRow} {page : List InvocationRow} {ids : List String}
    (h : ∀ id ∈ ids, exhaustionOf base id = none) :
    (page.map fun row => if ids.contains row.id then row.withExhaustion (exhaustionOf base row.id) else row) =
      page := by
  have hrow : ∀ row ∈ page,
      (if ids.contains row.id then row.withExhaustion (exhaustionOf base row.id) else row) = id row := by
    intro row _
    by_cases hid : ids.contains row.id = true
    · rw [if_pos hid, h row.id (List.contains_iff_mem.mp hid)]
      rfl
    · rw [if_neg hid]
      rfl
  rw [List.map_congr_left hrow, List.map_id]

theorem attachExhaustion_eq (rows : List EventsRow) {scopes : List Scope} (h : scopes.isEmpty = false)
    (page : List InvocationRow) :
    attachExhaustion rows scopes page = .ok (page.map fun row =>
      if (failedIds page).contains row.id then
        row.withExhaustion (exhaustionOf (rows.filter (inScopes scopes)) row.id)
      else row) := by
  unfold attachExhaustion
  simp only [query_ok rows h]
  by_cases hempty : (failedIds page).isEmpty = true
  · rw [if_pos hempty, map_withExhaustion_of_none]
    · rfl
    · intro id hid
      rw [List.isEmpty_iff.mp hempty] at hid
      cases hid
  · rw [if_neg hempty]
    dsimp only [bind, Except.bind, pure, Except.pure]
    split
    · rename_i hexh
      rw [map_withExhaustion_of_none]
      intro id hid
      -- no row about a limit is left for any failed id, so none for this one
      have hfilter : ((rows.filter (inScopes scopes)).filter fun row =>
          row.kind == "system.exhaustion" && row.id == id) = [] := by
        rw [List.isEmpty_iff, List.filter_eq_nil_iff] at hexh
        rw [List.filter_eq_nil_iff]
        intro row hrow hsel
        simp only [Bool.and_eq_true, beq_iff_eq] at hsel
        exact hexh row hrow (by simp [hsel.1, hsel.2, hid])
      rw [exhaustionOf, hfilter]
      rfl
    · congr 1
      apply List.map_congr_left
      intro row _
      by_cases hid : (failedIds page).contains row.id = true
      · rw [if_pos hid, get?_byId (List.contains_iff_mem.mp hid), exhaustionOf]
        cases ((rows.filter (inScopes scopes)).filter fun e =>
          e.kind == "system.exhaustion" && e.id == row.id).getLast? <;> rfl
      · rw [if_neg hid, get?_byId_of_not_mem (fun hmem => hid (List.contains_iff_mem.mpr hmem))]

theorem fetchTerminals_eq (rows : List EventsRow) {scopes : List Scope} (h : scopes.isEmpty = false)
    (ids : List String) :
    fetchTerminals rows scopes ids = .ok ((rows.filter (inScopes scopes)).filter fun row =>
      terminalRowKinds.contains row.kind && ids.contains row.id) := by
  unfold fetchTerminals
  by_cases hempty : ids.isEmpty = true
  · have hnil : ((rows.filter (inScopes scopes)).filter fun row =>
        terminalRowKinds.contains row.kind && ids.contains row.id) = [] := by
      rw [List.filter_eq_nil_iff]
      intro row _
      simp [List.isEmpty_iff.mp hempty]
    rw [if_pos hempty, hnil]
    rfl
  · rw [if_neg hempty, query_ok rows h]
    rfl

theorem fetchSyntheticRows_eq (rows : List EventsRow) (r : Registry Z B) {scopes : List Scope}
    (h : scopes.isEmpty = false) (limit : Nat) (narrow : Option Narrow) :
    fetchSyntheticRows rows r scopes limit narrow =
      .ok ((firstRows NewestFirst limit ((rows.filter (inScopes scopes)).filter (leavesOf narrow))).filterMap
        (syntheticRow r (narrow.bind (·.trigger)))) := by
  unfold fetchSyntheticRows
  rw [query_ok rows h]
  rfl

/-- The rows before the limits that they met are attached. -/
def merged (base : List EventsRow) (r : Registry Z B) (limit : Nat) (narrow : Option Narrow) :
    List InvocationRow :=
  (firstRows NewestFirst limit (base.filter (requestsOf narrow))).map
      (fun row => handlerRow r (terminalOf base row.id) row) ++
    (firstRows NewestFirst limit (base.filter (leavesOf narrow))).filterMap
      (syntheticRow r (narrow.bind (·.trigger)))

/-- Every query of a page has scopes to ask for, and what the page shows comes from their rows. -/
theorem fetchInvocationRowsForScopes_eq (rows : List EventsRow) (r : Registry Z B) (scopes : List Scope)
    (limit : Nat) (narrow : Option Narrow) :
    fetchInvocationRowsForScopes rows r scopes limit narrow =
      let base := rows.filter (inScopes scopes)
      .ok ((merged base r limit narrow).map fun row =>
        if (failedIds (merged base r limit narrow)).contains row.id then
          row.withExhaustion (exhaustionOf base row.id)
        else row) := by
  unfold fetchInvocationRowsForScopes
  by_cases hempty : scopes.isEmpty = true
  · have hbase : rows.filter (inScopes scopes) = [] := by
      rw [List.filter_eq_nil_iff]
      intro row _
      simp [inScopes, List.isEmpty_iff.mp hempty]
    rw [if_pos hempty, hbase]
    simp [merged, firstRows, pure, Except.pure]
  · have hscopes : scopes.isEmpty = false := by simpa using hempty
    have hterminal : ∀ row ∈ firstRows NewestFirst limit ((rows.filter (inScopes scopes)).filter (requestsOf narrow)),
        handlerRow r (((((rows.filter (inScopes scopes)).filter fun t => terminalRowKinds.contains t.kind &&
          ((firstRows NewestFirst limit ((rows.filter (inScopes scopes)).filter (requestsOf narrow))).map
            (·.id)).contains t.id).foldl (fun m t => m.set t.id t) OrderedMap.empty).get? row.id)) row =
        handlerRow r (terminalOf (rows.filter (inScopes scopes)) row.id) row := by
      intro row hrow
      rw [get?_byId (p := fun t => terminalRowKinds.contains t.kind) (List.mem_map_of_mem hrow)]
      rfl
    rw [if_neg hempty]
    simp only [query_ok rows hscopes, fetchTerminals_eq rows hscopes, fetchSyntheticRows_eq rows r hscopes,
      attachExhaustion_eq rows hscopes, bind, Except.bind, List.map_congr_left hterminal]
    rfl

/-! ## One invocation, one row -/

/-- The row starts an invocation of the list. -/
def isHead (row : EventsRow) : Bool := row.kind == "trigger.request" || syntheticLeafKinds.contains row.kind

/-- The rows of an id are those of one run or of one single-leaf event, under one repo. -/
structure OneInvocation (rows : List EventsRow) : Prop where
  place : ∀ a ∈ rows, ∀ b ∈ rows, a.id = b.id → a.owner = b.owner ∧ a.repo = b.repo
  head : ∀ a ∈ rows, ∀ b ∈ rows, a.id = b.id → isHead a = true → isHead b = true → a = b

/-- Where a row stands and what it is about. -/
structure RowOf (x : EventsRow) (row : InvocationRow) : Prop where
  id : row.id = x.id
  owner : row.owner = x.owner
  repo : row.repo = x.repo
  workflow : row.workflow = x.workflow
  startedAt : row.startedAt = x.atIso

theorem RowOf.handler (r : Registry Z B) (terminal : Option EventsRow) (x : EventsRow) :
    RowOf x (handlerRow r terminal x) := ⟨rfl, rfl, rfl, rfl, rfl⟩

theorem RowOf.withExhaustion {x : EventsRow} {row : InvocationRow} (h : RowOf x row) (e : Option Exhaustion) :
    RowOf x (row.withExhaustion e) := by
  cases e with
  | none => exact h
  | some e => exact ⟨h.id, h.owner, h.repo, h.workflow, h.startedAt⟩

theorem syntheticRow_cases {r : Registry Z B} {trigger : Option String} {x : EventsRow} {row : InvocationRow}
    (h : syntheticRow r trigger x = some row) :
    (x.kind = "system.upload" ∧ given trigger = none ∧ row = buildUploadRow x) ∨
    (x.kind ≠ "system.upload" ∧ ∃ name, extractTriggerName x.input = some name ∧
      (given trigger).all (name == ·) = true ∧ row = buildSyntheticTriggerRow r x name) := by
  unfold syntheticRow at h
  by_cases hupload : x.kind = "system.upload"
  · rw [if_pos hupload] at h
    cases hgiven : given trigger with
    | none =>
      simp only [hgiven, Option.isSome_none, Bool.false_eq_true, if_false, Option.some.injEq] at h
      exact Or.inl ⟨hupload, rfl, h.symm⟩
    | some t => simp [hgiven] at h
  · rw [if_neg hupload] at h
    cases hname : extractTriggerName x.input with
    | none => simp [hname] at h
    | some name =>
      simp only [hname, Option.ite_none_right_eq_some, Option.some.injEq] at h
      exact Or.inr ⟨hupload, name, rfl, h.1, h.2.symm⟩

theorem RowOf.synthetic {r : Registry Z B} {trigger : Option String} {x : EventsRow} {row : InvocationRow}
    (h : syntheticRow r trigger x = some row) : RowOf x row := by
  rcases syntheticRow_cases h with ⟨-, -, rfl⟩ | ⟨-, name, -, -, rfl⟩
  · exact ⟨rfl, rfl, rfl, rfl, rfl⟩
  · exact ⟨rfl, rfl, rfl, rfl, rfl⟩

/-- The row of an event that starts an invocation, before the limit that it met is attached. -/
def headRow (base : List EventsRow) (r : Registry Z B) (trigger : Option String) (x : EventsRow) :
    Option InvocationRow :=
  if x.kind = "trigger.request" then some (handlerRow r (terminalOf base x.id) x) else syntheticRow r trigger x

theorem kind_of_requestsOf {narrow : Option Narrow} {x : EventsRow} (h : requestsOf narrow x = true) :
    x.kind = "trigger.request" := by
  simp only [requestsOf, Bool.and_eq_true, beq_iff_eq] at h
  exact h.1

theorem kind_of_leavesOf {narrow : Option Narrow} {x : EventsRow} (h : leavesOf narrow x = true) :
    syntheticLeafKinds.contains x.kind = true ∧ x.kind ≠ "trigger.request" := by
  simp only [leavesOf, Bool.and_eq_true] at h
  refine ⟨h.1, ?_⟩
  intro hkind
  rw [hkind] at h
  exact absurd h.1 (by decide)

theorem mem_merged {base : List EventsRow} {r : Registry Z B} {limit : Nat} {narrow : Option Narrow}
    {row : InvocationRow} (h : row ∈ merged base r limit narrow) :
    ∃ x ∈ base, isHead x = true ∧ RowOf x row ∧ headRow base r (narrow.bind (·.trigger)) x = some row := by
  rcases List.mem_append.mp h with h | h
  · obtain ⟨x, hx, rfl⟩ := List.mem_map.mp h
    obtain ⟨hbase, hreq⟩ := List.mem_filter.mp (mem_of_mem_firstRows hx)
    have hkind := kind_of_requestsOf hreq
    exact ⟨x, hbase, by simp [isHead, hkind], RowOf.handler r _ x, by simp [headRow, hkind]⟩
  · obtain ⟨x, hx, hrow⟩ := List.mem_filterMap.mp h
    obtain ⟨hbase, hleaf⟩ := List.mem_filter.mp (mem_of_mem_firstRows hx)
    obtain ⟨hkind, hne⟩ := kind_of_leavesOf hleaf
    exact ⟨x, hbase, by simp [isHead, List.contains_iff_mem.mp hkind], RowOf.synthetic hrow, by simp [headRow, hne, hrow]⟩

section
variable {rows : List EventsRow} (hone : OneInvocation rows) {scopes : List Scope}
include hone

theorem OneInvocation.filter_id {x : EventsRow} (hx : x ∈ rows.filter (inScopes scopes)) (p : EventsRow → Bool) :
    (rows.filter (inScopes scopes)).filter (fun row => p row && row.id == x.id) =
      rows.filter fun row => p row && row.id == x.id := by
  obtain ⟨hmem, hin⟩ := List.mem_filter.mp hx
  rw [List.filter_filter]
  apply List.filter_congr
  intro row hrow
  by_cases hid : row.id = x.id
  · obtain ⟨howner, hrepo⟩ := hone.place row hrow x hmem hid
    have hrowIn : inScopes scopes row = true := by
      rw [inScopes, howner, hrepo]
      exact hin
    simp [hrowIn]
  · simp [hid]

/-- The rows of an invocation are in the scopes of its page with it. -/
theorem OneInvocation.terminalOf_eq {x : EventsRow} (hx : x ∈ rows.filter (inScopes scopes)) :
    terminalOf (rows.filter (inScopes scopes)) x.id = terminalOf rows x.id := by
  rw [terminalOf, hone.filter_id hx]
  rfl

theorem OneInvocation.exhaustionOf_eq {x : EventsRow} (hx : x ∈ rows.filter (inScopes scopes)) :
    exhaustionOf (rows.filter (inScopes scopes)) x.id = exhaustionOf rows x.id := by
  rw [exhaustionOf, hone.filter_id hx]
  rfl

theorem OneInvocation.mem_failedIds_iff {r : Registry Z B} {limit : Nat} {narrow : Option Narrow}
    {row : InvocationRow} (h : row ∈ merged (rows.filter (inScopes scopes)) r limit narrow) :
    (failedIds (merged (rows.filter (inScopes scopes)) r limit narrow)).contains row.id = true ↔
      row.status = .failed := by
  rw [List.contains_iff_mem, failedIds, List.mem_map]
  constructor
  · rintro ⟨row', hrow', hid⟩
    obtain ⟨hmem', hfailed⟩ := List.mem_filter.mp hrow'
    obtain ⟨x, hx, hhead, hof, hrow⟩ := mem_merged h
    obtain ⟨x', hx', hhead', hof', hrow''⟩ := mem_merged hmem'
    -- both rows are of one event, so they are one row
    obtain rfl : x = x' := hone.head x (List.mem_of_mem_filter hx) x' (List.mem_of_mem_filter hx')
      (by rw [← hof.id, ← hof'.id, hid]) hhead hhead'
    obtain rfl : row = row' := Option.some.inj (hrow.symm.trans hrow'')
    simpa using hfailed
  · intro hfailed
    exact ⟨row, List.mem_filter.mpr ⟨h, by simpa using hfailed⟩, rfl⟩

end

/-- A failed row with the limit that its invocation met. -/
def finished (rows : List EventsRow) (row : InvocationRow) : InvocationRow :=
  if row.status = .failed then row.withExhaustion (exhaustionOf rows row.id) else row

theorem RowOf.finished {x : EventsRow} {row : InvocationRow} (h : RowOf x row) {rows : List EventsRow} :
    RowOf x (finished rows row) := by
  unfold Invocations.finished
  split
  · exact h.withExhaustion _
  · exact h

def requestRow (rows : List EventsRow) (r : Registry Z B) (x : EventsRow) : InvocationRow :=
  finished rows (handlerRow r (terminalOf rows x.id) x)

def leafRow (rows : List EventsRow) (r : Registry Z B) (trigger : Option String) (x : EventsRow) :
    Option InvocationRow := (syntheticRow r trigger x).map (finished rows)

/-- What a page shows, row by row: each row is that of its own event, whatever else the page shows. -/
theorem OneInvocation.fetch_eq {rows : List EventsRow} (hone : OneInvocation rows) (r : Registry Z B)
    (scopes : List Scope) (limit : Nat) (narrow : Option Narrow) :
    fetchInvocationRowsForScopes rows r scopes limit narrow =
      let base := rows.filter (inScopes scopes)
      .ok ((firstRows NewestFirst limit (base.filter (requestsOf narrow))).map (requestRow rows r) ++
        (firstRows NewestFirst limit (base.filter (leavesOf narrow))).filterMap
          (leafRow rows r (narrow.bind (·.trigger)))) := by
  rw [fetchInvocationRowsForScopes_eq]
  dsimp only
  have hrow : ∀ row ∈ merged (rows.filter (inScopes scopes)) r limit narrow,
      (if (failedIds (merged (rows.filter (inScopes scopes)) r limit narrow)).contains row.id then
        row.withExhaustion (exhaustionOf (rows.filter (inScopes scopes)) row.id) else row) = finished rows row := by
    intro row hrow
    obtain ⟨x, hx, -, hof, -⟩ := mem_merged hrow
    rw [finished, hof.id, hone.exhaustionOf_eq hx]
    by_cases hfailed : row.status = .failed
    · rw [if_pos hfailed, if_pos (by rw [← hof.id]; exact (hone.mem_failedIds_iff hrow).mpr hfailed)]
    · rw [if_neg hfailed, if_neg (by rw [← hof.id]; exact fun h => hfailed ((hone.mem_failedIds_iff hrow).mp h))]
  rw [List.map_congr_left hrow, merged, List.map_append, List.map_map, List.map_filterMap]
  congr 2
  apply List.map_congr_left
  intro x hx
  have hbase := List.mem_of_mem_filter (mem_of_mem_firstRows hx)
  rw [Function.comp_apply, hone.terminalOf_eq hbase]
  rfl

/-! ## Drilling down -/

/-- What a page of the list asks for. -/
structure Selection where
  scopes : List Scope
  narrow : Option Narrow

namespace Selection

/-- The rows that a page is about. A page of one trigger shows no uploads. -/
def shows (s : Selection) (row : InvocationRow) : Bool :=
  s.scopes.contains ⟨row.owner, row.repo⟩ && s.narrow.all fun n =>
    row.workflow == n.workflow && (given n.trigger).all fun t =>
      row.trigger == t && row.syntheticKind != some .upload

/-- `g` asks for a part of what `f` asks for. -/
structure Within (g f : Selection) : Prop where
  scopes : ∀ s ∈ g.scopes, s ∈ f.scopes
  narrow : ∀ n, f.narrow = some n → ∃ m, g.narrow = some m ∧ m.workflow = n.workflow ∧
    ∀ t, given n.trigger = some t → given m.trigger = some t

def requests (s : Selection) (x : EventsRow) : Bool := requestsOf s.narrow x && inScopes s.scopes x

def leaves (s : Selection) (x : EventsRow) : Bool := leavesOf s.narrow x && inScopes s.scopes x

/-- The scope and the workflow of a row are those asked for. -/
def about (s : Selection) (x : EventsRow) : Bool :=
  inScopes s.scopes x && s.narrow.all fun n => x.workflow == n.workflow

def page (rows : List EventsRow) (r : Registry Z B) (limit : Nat) (s : Selection) : Except String (List InvocationRow) :=
  fetchInvocationRowsForScopes rows r s.scopes limit s.narrow

theorem page_eq {rows : List EventsRow} (hone : OneInvocation rows) (r : Registry Z B) (limit : Nat)
    (s : Selection) :
    s.page rows r limit = .ok ((firstRows NewestFirst limit (rows.filter s.requests)).map (requestRow rows r) ++
      (firstRows NewestFirst limit (rows.filter s.leaves)).filterMap
        (leafRow rows r (s.narrow.bind (·.trigger)))) := by
  rw [page, hone.fetch_eq]
  simp only [List.filter_filter]
  rfl

variable {f g : Selection}

theorem Within.inScopes (h : g.Within f) {x : EventsRow} (hx : inScopes g.scopes x = true) :
    Invocations.inScopes f.scopes x = true :=
  List.contains_iff_mem.mpr (h.scopes _ (List.contains_iff_mem.mp hx))

theorem Within.about (h : g.Within f) {x : EventsRow} (hx : g.about x = true) : f.about x = true := by
  simp only [Selection.about, Bool.and_eq_true] at hx ⊢
  refine ⟨h.inScopes hx.1, ?_⟩
  cases hn : f.narrow with
  | none => rfl
  | some n =>
    obtain ⟨m, hm, hworkflow, -⟩ := h.narrow n hn
    have hx := hx.2
    rw [hm, Option.all_some, hworkflow] at hx
    exact hx

/-- The trigger asked for, if any. -/
def trigger (s : Selection) : Option String := given (s.narrow.bind (·.trigger))

theorem Within.trigger (h : g.Within f) {t : String} (ht : f.trigger = some t) : g.trigger = some t := by
  unfold Selection.trigger at ht ⊢
  cases hn : f.narrow with
  | none => simp [hn, given] at ht
  | some n =>
    obtain ⟨m, hm, -, htrigger⟩ := h.narrow n hn
    rw [hn] at ht
    rw [hm]
    exact htrigger t ht

theorem shows_of_rowOf (s : Selection) {x : EventsRow} {row : InvocationRow} (h : RowOf x row) :
    s.shows row = (s.about x && s.trigger.all fun t => row.trigger == t && row.syntheticKind != some .upload) := by
  unfold shows Selection.about Selection.trigger Invocations.inScopes
  rw [h.owner, h.repo, h.workflow]
  cases s.narrow with
  | none => simp [given]
  | some n => simp [Bool.and_assoc]

@[simp] theorem shows_finished (s : Selection) (rows : List EventsRow) (row : InvocationRow) :
    s.shows (finished rows row) = s.shows row := by
  unfold finished
  split
  · cases exhaustionOf rows row.id <;> rfl
  · rfl

theorem shows_requestRow (s : Selection) (rows : List EventsRow) (r : Registry Z B) (x : EventsRow) :
    s.shows (requestRow rows r x) = (s.about x && s.trigger.all (x.name == ·)) := by
  have hkind : ((none : Option SyntheticKind) != some .upload) = true := rfl
  rw [requestRow, shows_finished, s.shows_of_rowOf (RowOf.handler r _ x)]
  simp only [handlerRow, hkind, Bool.and_true]

theorem requests_eq (s : Selection) (x : EventsRow) :
    s.requests x = (x.kind == "trigger.request" && s.about x && s.trigger.all (x.name == ·)) := by
  unfold Selection.requests requestsOf Selection.about Selection.trigger
  cases s.narrow with
  | none => simp [given]
  | some n =>
    simp only [Option.all_some, Option.bind_some]
    cases x.kind == "trigger.request" <;> cases Invocations.inScopes s.scopes x <;> simp

theorem leaves_eq (s : Selection) (x : EventsRow) :
    s.leaves x = (syntheticLeafKinds.contains x.kind && s.about x) := by
  unfold Selection.leaves leavesOf Selection.about
  cases Invocations.inScopes s.scopes x <;> simp

theorem Within.requests_eq (h : g.Within f) (rows : List EventsRow) (r : Registry Z B) (x : EventsRow) :
    g.requests x = (g.shows (requestRow rows r x) && f.requests x) := by
  rw [g.requests_eq, f.requests_eq, shows_requestRow]
  by_cases habout : g.about x = true
  · rw [habout, h.about habout]
    cases ht : f.trigger with
    | none => simp [Bool.and_comm]
    | some t =>
      rw [h.trigger ht]
      cases x.name == t <;> simp
  · simp [habout]

theorem Within.leaves_eq (h : g.Within f) (x : EventsRow) : g.leaves x = (g.about x && f.leaves x) := by
  rw [g.leaves_eq, f.leaves_eq]
  by_cases habout : g.about x = true
  · rw [habout, h.about habout]
    simp
  · simp [habout]

/-- Of the single-leaf rows of `f`, those that `g` shows are the rows of `g`. -/
theorem Within.syntheticRow_eq (h : g.Within f) (r : Registry Z B) (x : EventsRow) :
    (syntheticRow r (f.narrow.bind (·.trigger)) x).filter g.shows =
      if g.about x then syntheticRow r (g.narrow.bind (·.trigger)) x else none := by
  have hf : given (f.narrow.bind (·.trigger)) = f.trigger := rfl
  have hg : given (g.narrow.bind (·.trigger)) = g.trigger := rfl
  unfold syntheticRow
  rw [hf, hg]
  by_cases hupload : x.kind = "system.upload"
  · rw [if_pos hupload, if_pos hupload]
    cases ht : f.trigger with
    | some t =>
      rw [h.trigger ht]
      simp
    | none =>
      have hof : RowOf x (buildUploadRow x) := ⟨rfl, rfl, rfl, rfl, rfl⟩
      have hshows := g.shows_of_rowOf hof
      have hkind : ((buildUploadRow x).syntheticKind != some .upload) = false := rfl
      rw [hkind] at hshows
      cases hgt : g.trigger with
      | none =>
        rw [hgt, Option.all_none, Bool.and_true] at hshows
        by_cases habout : g.about x = true <;> simp [Option.filter, hshows, habout]
      | some t => simp [Option.filter, hshows, hgt]
  · rw [if_neg hupload, if_neg hupload]
    cases hname : extractTriggerName x.input with
    | none => simp
    | some name =>
      have hof : RowOf x (buildSyntheticTriggerRow r x name) := ⟨rfl, rfl, rfl, rfl, rfl⟩
      have hshows := g.shows_of_rowOf hof
      have hkind : ((buildSyntheticTriggerRow r x name).syntheticKind != some .upload) = true := by
        unfold buildSyntheticTriggerRow
        dsimp only
        split <;> rfl
      have htrigger : (buildSyntheticTriggerRow r x name).trigger = name := rfl
      simp only [hkind, htrigger, Bool.and_true] at hshows
      cases ht : f.trigger with
      | none =>
        by_cases habout : g.about x = true <;> simp [Option.filter, hshows, habout]
      | some t =>
        have hgt := h.trigger ht
        rw [hgt, Option.all_some] at hshows
        rw [hgt]
        by_cases hnt : name = t
        · subst hnt
          by_cases habout : g.about x = true <;> simp [Option.filter, hshows, habout]
        · simp [hnt]

theorem Within.leafRow_eq (h : g.Within f) (rows : List EventsRow) (r : Registry Z B) (x : EventsRow) :
    (leafRow rows r (f.narrow.bind (·.trigger)) x).filter g.shows =
      if g.about x then leafRow rows r (g.narrow.bind (·.trigger)) x else none := by
  have hfilter : ∀ o : Option InvocationRow,
      (o.map (finished rows)).filter g.shows = (o.filter g.shows).map (finished rows) := by
    intro o
    cases o with
    | none => rfl
    | some row => by_cases hrow : g.shows row = true <;> simp [Option.filter, hrow]
  rw [leafRow, hfilter, h.syntheticRow_eq, leafRow]
  split <;> rfl

theorem Within.refl (s : Selection) : s.Within s where
  scopes := fun _ hs => hs
  narrow := fun n hn => ⟨n, hn, rfl, fun _ ht => ht⟩

theorem shows_of_mem_page {rows : List EventsRow} (hone : OneInvocation rows) {r : Registry Z B} {limit : Nat}
    {s : Selection} {page : List InvocationRow} (h : s.page rows r limit = .ok page) {row : InvocationRow}
    (hrow : row ∈ page) : s.shows row = true := by
  rw [s.page_eq hone, Except.ok.injEq] at h
  subst h
  rcases List.mem_append.mp hrow with hrow | hrow
  · obtain ⟨x, hx, rfl⟩ := List.mem_map.mp hrow
    have hreq : s.requests x = true := (List.mem_filter.mp (mem_of_mem_firstRows hx)).2
    have heq := (Within.refl s).requests_eq rows r x
    rw [hreq] at heq
    simpa using heq.symm
  · obtain ⟨x, hx, hleaf⟩ := List.mem_filterMap.mp hrow
    have hreq : s.leaves x = true := (List.mem_filter.mp (mem_of_mem_firstRows hx)).2
    rw [s.leaves_eq, Bool.and_eq_true] at hreq
    have heq := (Within.refl s).leafRow_eq rows r x
    rw [hleaf, if_pos hreq.2] at heq
    exact (Option.filter_eq_some_iff.mp heq).2

/-- An event that a page has no room for has `limit` rows in the scopes of the page that are no older. -/
theorem newer_of_not_mem {rows : List EventsRow} {s : Selection} {limit : Nat} {p : EventsRow → Bool} {x : EventsRow}
    {row : InvocationRow} (hp : ∀ y, p y = true → isHead y = true ∧ inScopes s.scopes y = true)
    (hof : RowOf x row) (hx : x ∈ rows.filter p) (hcut : x ∉ firstRows NewestFirst limit (rows.filter p)) :
    ∃ newer : List EventsRow, newer.length = limit ∧ newer.Subperm rows ∧
      ∀ y ∈ newer, isHead y = true ∧ inScopes s.scopes y = true ∧
        toLex (row.startedAt, row.id) ≤ toLex (y.atIso, y.id) := by
  obtain ⟨hlength, hnewer⟩ := full_of_not_mem_firstRows NewestFirst hx hcut
  refine ⟨_, hlength, ?_, ?_⟩
  · have htake := (List.take_sublist limit ((rows.filter p).insertionSort NewestFirst)).subperm
    exact (htake.trans (List.perm_insertionSort NewestFirst _).subperm).trans List.filter_sublist.subperm
  · intro y hy
    obtain ⟨hhead, hin⟩ := hp y (List.mem_filter.mp (mem_of_mem_firstRows hy)).2
    rw [hof.startedAt, hof.id]
    exact ⟨hhead, hin, hnewer y hy⟩

theorem head_of_requests {s : Selection} {x : EventsRow} (h : s.requests x = true) :
    isHead x = true ∧ inScopes s.scopes x = true := by
  simp only [Selection.requests, Bool.and_eq_true] at h
  exact ⟨by simp [isHead, kind_of_requestsOf h.1], h.2⟩

theorem head_of_leaves {s : Selection} {x : EventsRow} (h : s.leaves x = true) :
    isHead x = true ∧ inScopes s.scopes x = true := by
  simp only [Selection.leaves, Bool.and_eq_true] at h
  exact ⟨by simp [isHead, List.contains_iff_mem.mp (kind_of_leavesOf h.1).1], h.2⟩

/-- A page of a part shows all that the whole page shows of the part, row by row the same. What it shows beyond,
the whole page has no room for. -/
theorem drill_down {rows : List EventsRow} (hone : OneInvocation rows) (h : g.Within f) (r : Registry Z B)
    (limit : Nat) {page part : List InvocationRow} (hf : f.page rows r limit = .ok page)
    (hg : g.page rows r limit = .ok part) :
    (page.filter g.shows).Sublist part ∧ (∀ row ∈ part, g.shows row = true) ∧
      ∀ row ∈ part, row ∈ page ∨ ∃ newer : List EventsRow, newer.length = limit ∧ newer.Subperm rows ∧
        ∀ y ∈ newer, isHead y = true ∧ inScopes f.scopes y = true ∧
          toLex (row.startedAt, row.id) ≤ toLex (y.atIso, y.id) := by
  refine ⟨?_, fun row hrow => shows_of_mem_page hone hg hrow, ?_⟩
  · rw [f.page_eq hone, Except.ok.injEq] at hf
    rw [g.page_eq hone, Except.ok.injEq] at hg
    subst hf hg
    rw [List.filter_append]
    apply List.Sublist.append
    · have hrequests : (rows.filter f.requests).filter (g.shows ∘ requestRow rows r) = rows.filter g.requests := by
        rw [List.filter_filter]
        exact List.filter_congr fun x _ => (h.requests_eq rows r x).symm
      rw [List.filter_map, ← hrequests]
      exact (prefix_filter_firstRows NewestFirst _ limit _).sublist.map _
    · have hleaves : (rows.filter f.leaves).filter g.about = rows.filter g.leaves := by
        rw [List.filter_filter]
        exact List.filter_congr fun x _ => (h.leaves_eq x).symm
      have hfilter : ((firstRows NewestFirst limit (rows.filter f.leaves)).filterMap
          (leafRow rows r (f.narrow.bind (·.trigger)))).filter g.shows =
          ((firstRows NewestFirst limit (rows.filter f.leaves)).filter g.about).filterMap
            (leafRow rows r (g.narrow.bind (·.trigger))) := by
        rw [List.filter_filterMap, List.filterMap_filter]
        exact List.filterMap_congr fun x _ => h.leafRow_eq rows r x
      rw [hfilter, ← hleaves]
      exact (prefix_filter_firstRows NewestFirst _ limit _).sublist.filterMap _
  · intro row hrow
    have hshows := shows_of_mem_page hone hg hrow
    rw [f.page_eq hone, Except.ok.injEq] at hf
    rw [g.page_eq hone, Except.ok.injEq] at hg
    subst hf hg
    rcases List.mem_append.mp hrow with hrow | hrow
    · obtain ⟨x, hx, rfl⟩ := List.mem_map.mp hrow
      obtain ⟨hmem, hreq⟩ := List.mem_filter.mp (mem_of_mem_firstRows hx)
      rw [h.requests_eq rows r, Bool.and_eq_true] at hreq
      have hxf : x ∈ rows.filter f.requests := List.mem_filter.mpr ⟨hmem, hreq.2⟩
      by_cases hcut : x ∈ firstRows NewestFirst limit (rows.filter f.requests)
      · exact Or.inl (List.mem_append_left _ (List.mem_map_of_mem hcut))
      · exact Or.inr (newer_of_not_mem (fun _ => head_of_requests) (RowOf.handler r _ x).finished hxf hcut)
    · obtain ⟨x, hx, hleaf⟩ := List.mem_filterMap.mp hrow
      obtain ⟨hmem, hreq⟩ := List.mem_filter.mp (mem_of_mem_firstRows hx)
      rw [h.leaves_eq, Bool.and_eq_true] at hreq
      have hxf : x ∈ rows.filter f.leaves := List.mem_filter.mpr ⟨hmem, hreq.2⟩
      -- the whole page shows the same row for the event, if it shows the event at all
      have heq := h.leafRow_eq rows r x
      rw [if_pos hreq.1, hleaf] at heq
      have hrowf := (Option.filter_eq_some_iff.mp heq).1
      by_cases hcut : x ∈ firstRows NewestFirst limit (rows.filter f.leaves)
      · exact Or.inl (List.mem_append_right _ (List.mem_filterMap.mpr ⟨x, hcut, hrowf⟩))
      · obtain ⟨row', hrow', rfl⟩ := Option.map_eq_some_iff.mp hleaf
        exact Or.inr (newer_of_not_mem (fun _ => head_of_leaves) (RowOf.synthetic hrow').finished hxf hcut)

end Selection

end WorkflowEngine.Runtime.Invocations
