import Mathlib.Data.List.Nodup
import Mathlib.Data.List.Pairwise
import WorkflowEngine.Lib.JsValue
import WorkflowEngine.Lib.ListIndex
import WorkflowEngine.Lib.Transition
import WorkflowEngine.Runtime.QueueStore

/-!
# Concurrent queue calls

The `queue.put` and `queue.get` handlers of `queue-host.ts` over the store of
`queue-store.ts`, statement by statement. Any number of sandboxes share one
table; a put awaits its COUNT and its INSERT, so other calls run in between. A
statement takes effect as a whole or fails. `seq` is chosen by the database,
above every value it has given out. `stored` and `popped` record what the
INSERTs and the popping DELETEs did, in their order.
-/

namespace WorkflowEngine.Runtime.QueueHost

open Lib
set_option autoImplicit false

def maxItemBytes : Nat := 1024

def maxKeyBytes : Nat := 128

def maxWorkflowQueueDepth : Nat := 1000

structure ProducerMeta where
  enqueuedAt : String
  invocationId : String
  triggerKind : String
  triggerName : String
  deriving DecidableEq

/-- A row of `queue_items` with the columns of its producer. -/
structure StoredRow extends QueueRow where
  producer : ProducerMeta
  deriving DecidableEq

/-- What a `get` is scoped to: the tenant tuple and the key. -/
structure Partition where
  scope : QueueScope
  key : String
  deriving DecidableEq

def StoredRow.partition (row : StoredRow) : Partition := ⟨row.scope, row.key⟩

structure PoppedRow where
  item : JsValue
  key : String
  producer : ProducerMeta

inductive QueueErrorCode where
  | itemTooLarge
  | keyTooLarge
  | full
  | schemaMismatch
  | gone
  | notDeclared
  deriving DecidableEq

structure QueueError where
  code : QueueErrorCode
  message : String
  item : Option JsValue

inductive Failure where
  | queueError (e : QueueError)
  | typeError
  | syntaxError
  | statement (message : String)

def tooLargeError (scope : QueueScope) (bytes : Nat) : QueueError :=
  ⟨.itemTooLarge, "queue \"" ++ scope.queue ++ "\" item exceeds size cap: " ++ toString bytes ++
    " > " ++ toString maxItemBytes ++ " bytes", none⟩

def fullError (scope : QueueScope) (cap : Nat) : QueueError :=
  ⟨.full, "workflow \"" ++ scope.owner ++ "/" ++ scope.repo ++ "/" ++ scope.workflow ++
    "\" queues are at capacity (" ++ toString cap ++ " items total across all queues)", none⟩

def assertKeyWithinCap (queue key : String) : Except Failure Unit :=
  if maxKeyBytes < key.utf8ByteSize then
    .error (.queueError ⟨.keyTooLarge, "queue \"" ++ queue ++ "\" key exceeds size cap: " ++
      toString key.utf8ByteSize ++ " > " ++ toString maxKeyBytes ++ " bytes", none⟩)
  else .ok ()

/-- What `buildQueueHostHandlers` closes over. `safeParse` of a validator gives the parsed data. -/
structure HostOptions where
  owner : String
  workflow : String
  validators : String → Option (JsValue → Option JsValue)

structure PutArgs where
  queue : String
  repo : String
  key : String
  invocationId : String
  triggerKind : String
  triggerName : String
  item : JsValue

structure GetArgs where
  queue : String
  repo : String
  key : String

/-- The arguments of `queueStore.put`, with the text that it stores. -/
structure PutCall where
  scope : QueueScope
  item : JsValue
  key : String
  producer : ProducerMeta
  json : String
  encoded : stringify item = .ok (some json.toList)

def PutCall.partition (call : PutCall) : Partition := ⟨call.scope, call.key⟩

/-! ## The handlers before their first statement -/

/-- The declared queue's schema, where the queue is declared. -/
def validate (host : HostOptions) (queue : String) (item : JsValue) : Option JsValue :=
  match host.validators queue with
  | none => some item
  | some safeParse => safeParse item

/-- `queueStore.put` up to its COUNT. -/
def encode (scope : QueueScope) (item : JsValue) (key : String) (producer : ProducerMeta) :
    Except Failure PutCall :=
  match h : stringify item with
  | .error _ => .error .typeError
  | .ok none => .error (.queueError (tooLargeError scope 0))
  | .ok (some json) =>
    let bytes := (String.ofList json).utf8ByteSize
    if maxItemBytes < bytes then .error (.queueError (tooLargeError scope bytes))
    else .ok ⟨scope, item, key, producer, String.ofList json, by simpa using h⟩

/-- The put handler up to the COUNT of its store call. -/
def putHandler (host : HostOptions) (args : PutArgs) (now : String) : Except Failure PutCall := do
  assertKeyWithinCap args.queue args.key
  match validate host args.queue args.item with
  | none =>
    .error (.queueError ⟨.schemaMismatch,
      "queue \"" ++ args.queue ++ "\" put: schema validation failed", none⟩)
  | some data =>
    encode ⟨host.owner, args.repo, host.workflow, args.queue⟩ data args.key
      ⟨now, args.invocationId, args.triggerKind, args.triggerName⟩

def parseItem (raw : String) : Option JsValue := jsonParse raw.toList

/-- The row as `get` returns it, or nothing where `JSON.parse` throws. -/
def rowToMeta (row : StoredRow) : Option PoppedRow :=
  (parseItem row.item).map fun item => ⟨item, row.key, row.producer⟩

/-- The get handler after its statement popped a row: the item that crosses back. -/
def getReply (host : HostOptions) (queue : String) (popped : Option PoppedRow) : Except Failure JsValue :=
  match popped with
  | none => .error .syntaxError
  | some popped =>
    match validate host queue popped.item with
    | some data => .ok data
    | none =>
      .error (.queueError ⟨.schemaMismatch,
        "queue \"" ++ queue ++ "\" get: popped item failed schema validation", some popped.item⟩)

/-! ## The table -/

/-- The rows in the order of their `seq`, all below what the database assigns next. -/
structure QueueItems where
  rows : List StoredRow
  nextSeq : Nat
  sorted : rows.Pairwise fun a b => a.seq < b.seq
  below : ∀ row ∈ rows, row.seq < nextSeq

namespace QueueItems

def empty : QueueItems := ⟨[], 1, List.Pairwise.nil, by simp⟩

/-- The row that a put inserts. -/
def newRow (call : PutCall) (seq : Nat) : StoredRow :=
  ⟨⟨seq, call.scope.owner, call.scope.repo, call.scope.workflow, call.scope.queue, call.key,
    call.json⟩, call.producer⟩

def insert (db : QueueItems) (call : PutCall) (seq : Nat) (h : db.nextSeq ≤ seq) : QueueItems where
  rows := db.rows ++ [newRow call seq]
  nextSeq := seq + 1
  sorted := by
    refine List.pairwise_append.mpr ⟨db.sorted, List.pairwise_singleton _ _, ?_⟩
    intro row hrow new hnew
    obtain rfl := List.mem_singleton.mp hnew
    exact Nat.lt_of_lt_of_le (db.below row hrow) h
  below := by
    intro row hrow
    rcases List.mem_append.mp hrow with hrow | hrow
    · have := db.below row hrow
      omega
    · obtain rfl := List.mem_singleton.mp hrow
      exact Nat.lt_succ_self seq

def delete (db : QueueItems) (where_ : StoredRow → Bool) : QueueItems where
  rows := db.rows.filter fun row => !where_ row
  nextSeq := db.nextSeq
  sorted := db.sorted.sublist List.filter_sublist
  below := fun row hrow => db.below row (List.mem_of_mem_filter hrow)

def rowsOf (db : QueueItems) (p : Partition) : List StoredRow :=
  db.rows.filter fun row => row.partition = p

/-- `SELECT MIN(seq)` over the partition. -/
def minSeq (db : QueueItems) (p : Partition) : Option Nat := ((db.rowsOf p).map fun row => row.seq).min?

/-- The WHERE clause of the popping DELETE. -/
def popWhere (db : QueueItems) (p : Partition) (row : StoredRow) : Bool :=
  row.partition = p && db.minSeq p = some row.seq

/-- `COUNT(*)` over all queues of the workflow. -/
def workflowDepth (db : QueueItems) (owner repo workflow : String) : Nat :=
  db.rows.countP fun row => row.owner = owner && row.repo = repo && row.workflow = workflow

end QueueItems

/-! ## Runs -/

inductive PutTask where
  | counting (call : PutCall)
  | admitted (call : PutCall)
  | stored (call : PutCall)
  | rejected (f : Failure)

/-- A row that a `get` on `partition` deleted, with what the get returns. -/
structure Pop where
  partition : Partition
  row : StoredRow
  result : Option PoppedRow
  reply : Except Failure JsValue

structure Queues where
  db : QueueItems
  puts : List PutTask
  stored : List (PutCall × StoredRow)
  popped : List Pop

def boot (db : QueueItems) : Queues := ⟨db, [], [], []⟩

inductive QueueAction where
  | put (host : HostOptions) (args : PutArgs) (now : String)
  | count (p : Nat) (outcome : Except String Unit)
  | insert (p : Nat) (outcome : Except String Nat)
  | get (host : HostOptions) (args : GetArgs) (outcome : Except String Unit)
  | removeDeclaration (scope : WorkflowQueueScope) (outcome : Except String Unit)

def Queues.putCalled (s : Queues) (host : HostOptions) (args : PutArgs) (now : String) : Queues :=
  match putHandler host args now with
  | .error f => { s with puts := s.puts ++ [.rejected f] }
  | .ok call => { s with puts := s.puts ++ [.counting call] }

def Queues.counted (s : Queues) (cap p : Nat) (call : PutCall) : Except String Unit → Queues
  | .error message => { s with puts := s.puts.set p (.rejected (.statement message)) }
  | .ok () =>
    if cap ≤ s.db.workflowDepth call.scope.owner call.scope.repo call.scope.workflow then
      { s with puts := s.puts.set p (.rejected (.queueError (fullError call.scope cap))) }
    else { s with puts := s.puts.set p (.admitted call) }

def Queues.insertRan (s : Queues) (p : Nat) (call : PutCall) : Except String Nat → Option Queues
  | .error message => some { s with puts := s.puts.set p (.rejected (.statement message)) }
  | .ok seq =>
    if h : s.db.nextSeq ≤ seq then
      some
        { s with
          db := s.db.insert call seq h
          puts := s.puts.set p (.stored call)
          stored := s.stored ++ [(call, QueueItems.newRow call seq)] }
    else none

def Queues.pop (s : Queues) (host : HostOptions) (args : GetArgs) : Queues :=
  let partition : Partition := ⟨⟨host.owner, args.repo, host.workflow, args.queue⟩, args.key⟩
  let returned := s.db.rows.filter (s.db.popWhere partition)
  match returned with
  | [] => { s with db := s.db.delete (s.db.popWhere partition) }
  | row :: _ =>
    { s with
      db := s.db.delete (s.db.popWhere partition)
      popped := s.popped ++
        [⟨partition, row, rowToMeta row, getReply host args.queue (rowToMeta row)⟩] }

def step (cap : Nat) (s : Queues) : QueueAction → Option Queues
  | .put host args now => some (s.putCalled host args now)
  | .count p outcome =>
    match s.puts[p]? with
    | some (.counting call) => some (s.counted cap p call outcome)
    | _ => none
  | .insert p outcome =>
    match s.puts[p]? with
    | some (.admitted call) => s.insertRan p call outcome
    | _ => none
  | .get host args outcome =>
    match assertKeyWithinCap args.queue args.key, outcome with
    | .ok (), .ok () => some (s.pop host args)
    | _, _ => some s
  | .removeDeclaration scope outcome =>
    match outcome with
    | .ok () => some { s with db := s.db.delete fun row => scope.covers row.toQueueRow }
    | .error _ => some s

/-! ## What the statements do to one partition -/

namespace QueueItems

theorem mem_rowsOf {db : QueueItems} {p : Partition} {row : StoredRow} :
    row ∈ db.rowsOf p ↔ row ∈ db.rows ∧ row.partition = p := by
  simp [rowsOf, List.mem_filter]

theorem rowsOf_sorted (db : QueueItems) (p : Partition) :
    (db.rowsOf p).Pairwise fun a b => a.seq < b.seq :=
  db.sorted.sublist List.filter_sublist

theorem eq_of_seq_eq (db : QueueItems) {a b : StoredRow} (ha : a ∈ db.rows) (hb : b ∈ db.rows)
    (h : a.seq = b.seq) : a = b := by
  have hnodup : (db.rows.map fun row => row.seq).Nodup :=
    List.pairwise_map.mpr (db.sorted.imp fun hlt => Nat.ne_of_lt hlt)
  exact List.inj_on_of_nodup_map hnodup ha hb h

theorem rowsOf_insert (db : QueueItems) (call : PutCall) (seq : Nat) (h : db.nextSeq ≤ seq)
    (p : Partition) :
    (db.insert call seq h).rowsOf p =
      db.rowsOf p ++ if call.partition = p then [newRow call seq] else [] := by
  have hp : (newRow call seq).partition = call.partition := rfl
  unfold rowsOf insert
  rw [List.filter_append, List.filter_singleton, hp]
  simp

theorem rowsOf_delete (db : QueueItems) (where_ : StoredRow → Bool) (p : Partition) :
    (db.delete where_).rowsOf p = (db.rowsOf p).filter fun row => !where_ row := by
  simp [rowsOf, delete, Bool.and_comm]

theorem minSeq_eq_head {db : QueueItems} {p : Partition} {row : StoredRow} {rest : List StoredRow}
    (h : db.rowsOf p = row :: rest) : db.minSeq p = some row.seq := by
  have hsorted := db.rowsOf_sorted p
  rw [h, List.pairwise_cons] at hsorted
  unfold minSeq
  rw [h, List.min?_eq_some_iff]
  refine ⟨by simp, ?_⟩
  intro seq hseq
  obtain ⟨other, hother, rfl⟩ := List.mem_map.mp hseq
  rcases List.mem_cons.mp hother with rfl | hrest
  · exact Nat.le_refl _
  · exact Nat.le_of_lt (hsorted.1 other hrest)

theorem minSeq_eq_none {db : QueueItems} {p : Partition} (h : db.rowsOf p = []) :
    db.minSeq p = none := by
  simp [minSeq, h]

/-- The statement returns the oldest row of the partition and no other. -/
theorem filter_popWhere {db : QueueItems} {p : Partition} {row : StoredRow} {rest : List StoredRow}
    (h : db.rowsOf p = row :: rest) : db.rows.filter (db.popWhere p) = [row] := by
  have hsorted := db.rowsOf_sorted p
  rw [h, List.pairwise_cons] at hsorted
  have hsplit : db.rows.filter (db.popWhere p) = (db.rowsOf p).filter fun r => row.seq = r.seq := by
    unfold rowsOf
    rw [List.filter_filter]
    apply List.filter_congr
    intro other _
    simp [popWhere, minSeq_eq_head h, Bool.and_comm]
  have hrest : (rest.filter fun r => row.seq = r.seq) = [] := by
    rw [List.filter_eq_nil_iff]
    intro other hother
    have := hsorted.1 other hother
    simp only [decide_eq_true_eq]
    omega
  rw [hsplit, h, List.filter_cons, hrest]
  simp

theorem filter_popWhere_nil {db : QueueItems} {p : Partition} (h : db.rowsOf p = []) :
    db.rows.filter (db.popWhere p) = [] := by
  rw [List.filter_eq_nil_iff]
  intro row _
  simp [popWhere, minSeq_eq_none h]

theorem rowsOf_pop_self {db : QueueItems} {p : Partition} {row : StoredRow} {rest : List StoredRow}
    (h : db.rowsOf p = row :: rest) : (db.delete (db.popWhere p)).rowsOf p = rest := by
  have hsorted := db.rowsOf_sorted p
  have hpart : ∀ r ∈ row :: rest, r.partition = p := by
    intro r hr
    rw [← h] at hr
    exact (mem_rowsOf.mp hr).2
  rw [h, List.pairwise_cons] at hsorted
  rw [rowsOf_delete, h, List.filter_cons]
  have hrow : db.popWhere p row = true := by
    simp [popWhere, minSeq_eq_head h, hpart row List.mem_cons_self]
  simp only [hrow, Bool.not_true, Bool.false_eq_true, if_false]
  rw [List.filter_eq_self]
  intro other hother
  have := hsorted.1 other hother
  have hne : row.seq ≠ other.seq := by omega
  simp [popWhere, minSeq_eq_head h, hne]

theorem rowsOf_pop_other (db : QueueItems) {p q : Partition} (hpq : q ≠ p) :
    (db.delete (db.popWhere p)).rowsOf q = db.rowsOf q := by
  rw [rowsOf_delete, List.filter_eq_self]
  intro row hrow
  have hq := (mem_rowsOf.mp hrow).2
  simp [popWhere, hq, hpq]

theorem delete_popWhere_nil {db : QueueItems} {p : Partition} (h : db.rowsOf p = []) :
    db.delete (db.popWhere p) = db := by
  have hrows : (db.delete (db.popWhere p)).rows = db.rows := by
    simp [delete, popWhere, minSeq_eq_none h]
  have hnext : (db.delete (db.popWhere p)).nextSeq = db.nextSeq := rfl
  cases hd : db.delete (db.popWhere p)
  cases db
  simp_all

end QueueItems

/-- The WHERE clause of `removeDeclaration` read on a tenant tuple. -/
def coversScope (scope : WorkflowQueueScope) (t : QueueScope) : Bool :=
  t.owner == scope.owner && t.repo == scope.repo && t.workflow == scope.workflow &&
    (match scope.queue with
      | some queue => t.queue == queue
      | none => true)

theorem covers_eq_coversScope (scope : WorkflowQueueScope) (row : StoredRow) :
    scope.covers row.toQueueRow = coversScope scope row.partition.scope := rfl

theorem rowsOf_remove {db : QueueItems} {scope : WorkflowQueueScope} {p : Partition}
    (h : coversScope scope p.scope = false) :
    (db.delete fun row => scope.covers row.toQueueRow).rowsOf p = db.rowsOf p := by
  rw [QueueItems.rowsOf_delete, List.filter_eq_self]
  intro row hrow
  have hp := (QueueItems.mem_rowsOf.mp hrow).2
  simp [covers_eq_coversScope, hp, h]

/-- On the columns of `QueueRow` the DELETE is that of `removeDeclaration`. -/
theorem remove_toQueueRow (db : QueueItems) (scope : WorkflowQueueScope) :
    (db.delete fun row => scope.covers row.toQueueRow).rows.map StoredRow.toQueueRow =
      removeDeclaration (db.rows.map StoredRow.toQueueRow) scope := by
  simp [QueueItems.delete, removeDeclaration, List.filter_map, Function.comp_def]

/-! ## One step -/

def PutTask.AdmittedTo (owner repo workflow : String) : PutTask → Bool
  | .admitted call =>
    call.scope.owner = owner && call.scope.repo = repo && call.scope.workflow = workflow
  | _ => false

/-- The puts of the workflow that are between their COUNT and their INSERT. -/
def Queues.admitted (s : Queues) (owner repo workflow : String) : Nat :=
  s.puts.countP (PutTask.AdmittedTo owner repo workflow)

/-- What one action does to the table, the tasks and the two records. -/
inductive Moved (cap : Nat) (s : Queues) : QueueAction → Queues → Prop
  | unchanged (a : QueueAction) : Moved cap s a s
  | called (host : HostOptions) (args : PutArgs) (now : String) (task : PutTask)
      (htask : ∀ owner repo workflow, task.AdmittedTo owner repo workflow = false) :
      Moved cap s (.put host args now) { s with puts := s.puts ++ [task] }
  | failed (a : QueueAction) (p : Nat) (task : PutTask) (f : Failure) (htask : s.puts[p]? = some task) :
      Moved cap s a { s with puts := s.puts.set p (.rejected f) }
  | admits (p : Nat) (call : PutCall) (htask : s.puts[p]? = some (.counting call))
      (hdepth : s.db.workflowDepth call.scope.owner call.scope.repo call.scope.workflow < cap) :
      Moved cap s (.count p (.ok ())) { s with puts := s.puts.set p (.admitted call) }
  | inserts (p : Nat) (call : PutCall) (seq : Nat) (htask : s.puts[p]? = some (.admitted call))
      (hseq : s.db.nextSeq ≤ seq) :
      Moved cap s (.insert p (.ok seq))
        { s with
          db := s.db.insert call seq hseq
          puts := s.puts.set p (.stored call)
          stored := s.stored ++ [(call, QueueItems.newRow call seq)] }
  | pops (host : HostOptions) (args : GetArgs) (partition : Partition) (row : StoredRow)
      (rest : List StoredRow) (reply : Except Failure JsValue)
      (hpartition : partition = ⟨⟨host.owner, args.repo, host.workflow, args.queue⟩, args.key⟩)
      (hrows : s.db.rowsOf partition = row :: rest) :
      Moved cap s (.get host args (.ok ()))
        { s with
          db := s.db.delete (s.db.popWhere partition)
          popped := s.popped ++ [⟨partition, row, rowToMeta row, reply⟩] }
  | removes (scope : WorkflowQueueScope) :
      Moved cap s (.removeDeclaration scope (.ok ()))
        { s with db := s.db.delete fun row => scope.covers row.toQueueRow }

theorem putCalled_moved (cap : Nat) (s : Queues) (host : HostOptions) (args : PutArgs) (now : String) :
    Moved cap s (.put host args now) (s.putCalled host args now) := by
  unfold Queues.putCalled
  split
  · exact .called host args now _ (fun _ _ _ => rfl)
  · exact .called host args now _ (fun _ _ _ => rfl)

theorem counted_moved (cap : Nat) {s : Queues} {p : Nat} {call : PutCall}
    (htask : s.puts[p]? = some (.counting call)) (outcome : Except String Unit) :
    Moved cap s (.count p outcome) (s.counted cap p call outcome) := by
  cases outcome with
  | error message => exact .failed _ p _ _ htask
  | ok _ =>
    unfold Queues.counted
    simp only
    split
    · exact .failed _ p _ _ htask
    · rename_i hdepth
      exact .admits p call htask (by omega)

theorem insertRan_moved (cap : Nat) {s s' : Queues} {p : Nat} {call : PutCall}
    (htask : s.puts[p]? = some (.admitted call)) {outcome : Except String Nat}
    (h : s.insertRan p call outcome = some s') : Moved cap s (.insert p outcome) s' := by
  cases outcome with
  | error message =>
    obtain rfl := Option.some.inj h
    exact .failed _ p _ _ htask
  | ok seq =>
    unfold Queues.insertRan at h
    simp only at h
    split at h
    · rename_i hseq
      obtain rfl := Option.some.inj h
      exact .inserts p call seq htask hseq
    · cases h

theorem pop_moved (cap : Nat) (s : Queues) (host : HostOptions) (args : GetArgs) :
    Moved cap s (.get host args (.ok ())) (s.pop host args) := by
  unfold Queues.pop
  simp only
  generalize hp : (⟨⟨host.owner, args.repo, host.workflow, args.queue⟩, args.key⟩ : Partition) = partition
  cases hrows : s.db.rowsOf partition with
  | nil =>
    rw [QueueItems.filter_popWhere_nil hrows, QueueItems.delete_popWhere_nil hrows]
    exact .unchanged _
  | cons row rest =>
    rw [QueueItems.filter_popWhere hrows]
    exact .pops host args partition row rest _ hp.symm hrows

theorem step_moved {cap : Nat} {s s' : Queues} {a : QueueAction} (h : step cap s a = some s') :
    Moved cap s a s' := by
  cases a with
  | put host args now =>
    obtain rfl := Option.some.inj h
    exact putCalled_moved cap s host args now
  | count p outcome =>
    simp only [step] at h
    split at h
    · rename_i call htask
      obtain rfl := Option.some.inj h
      exact counted_moved cap htask outcome
    · cases h
  | insert p outcome =>
    simp only [step] at h
    split at h
    · rename_i call htask
      exact insertRan_moved cap htask h
    · cases h
  | get host args outcome =>
    simp only [step] at h
    split at h
    · obtain rfl := Option.some.inj h
      exact pop_moved cap s host args
    · obtain rfl := Option.some.inj h
      exact .unchanged _
  | removeDeclaration scope outcome =>
    simp only [step] at h
    split at h
    · obtain rfl := Option.some.inj h
      exact .removes scope
    · obtain rfl := Option.some.inj h
      exact .unchanged _

/-! ## The depth cap -/

section Depth
variable (cap : Nat) (owner repo workflow : String)

def Queues.depth (s : Queues) : Nat := s.db.workflowDepth owner repo workflow

/-- The largest number of puts of the workflow that are, at one moment of the run, between their
COUNT and their INSERT. -/
def overlap : Queues → List QueueAction → Nat
  | s, [] => s.admitted owner repo workflow
  | s, a :: as =>
    max (s.admitted owner repo workflow)
      (match step cap s a with
        | none => 0
        | some t => overlap t as)

theorem depth_insert (db : QueueItems) (call : PutCall) (seq : Nat) (h : db.nextSeq ≤ seq) :
    (db.insert call seq h).workflowDepth owner repo workflow =
      db.workflowDepth owner repo workflow +
        if (PutTask.admitted call).AdmittedTo owner repo workflow then 1 else 0 := by
  unfold QueueItems.workflowDepth QueueItems.insert
  rw [List.countP_append, List.countP_singleton]
  rfl

theorem depth_delete_le (db : QueueItems) (where_ : StoredRow → Bool) :
    (db.delete where_).workflowDepth owner repo workflow ≤ db.workflowDepth owner repo workflow :=
  List.filter_sublist.countP_le

/-- Rows and admitted puts together stay below the cap and the overlap. -/
theorem moved_depth {k : Nat} {s s' : Queues} {a : QueueAction} (h : Moved cap s a s')
    (hs : s.depth owner repo workflow + s.admitted owner repo workflow ≤ cap + (k - 1))
    (hk : s'.admitted owner repo workflow ≤ k) :
    s'.depth owner repo workflow + s'.admitted owner repo workflow ≤ cap + (k - 1) := by
  unfold Queues.depth Queues.admitted at *
  cases h with
  | unchanged => exact hs
  | called host args now task htask =>
    simp only [List.countP_append, List.countP_singleton, htask] at hk ⊢
    simpa using hs
  | failed _ p task f htask =>
    have hcount := countP_set_add (y := PutTask.rejected f)
      (PutTask.AdmittedTo owner repo workflow) htask
    simp only [PutTask.AdmittedTo, Bool.false_eq_true, if_false] at hcount
    simp only
    omega
  | admits p call htask hdepth =>
    have hcount := countP_set_add (y := PutTask.admitted call)
      (PutTask.AdmittedTo owner repo workflow) htask
    have hcounting : (PutTask.counting call).AdmittedTo owner repo workflow = false := rfl
    simp only [hcounting, Bool.false_eq_true, if_false] at hcount hk ⊢
    split at hcount
    · rename_i hto
      simp only [PutTask.AdmittedTo, Bool.and_eq_true, decide_eq_true_eq] at hto
      obtain ⟨⟨rfl, rfl⟩, rfl⟩ := hto
      omega
    · omega
  | inserts p call seq htask hseq =>
    have hcount := countP_set_add (y := PutTask.stored call)
      (PutTask.AdmittedTo owner repo workflow) htask
    have hstored : (PutTask.stored call).AdmittedTo owner repo workflow = false := rfl
    simp only [hstored, Bool.false_eq_true, if_false] at hcount
    simp only [depth_insert]
    omega
  | pops host args partition row rest reply hpartition hrows =>
    have := depth_delete_le owner repo workflow s.db (s.db.popWhere partition)
    simp only
    omega
  | removes scope =>
    have := depth_delete_le owner repo workflow s.db fun row => scope.covers row.toQueueRow
    simp only
    omega

theorem admitted_le_overlap (s : Queues) (run : List QueueAction) :
    s.admitted owner repo workflow ≤ overlap cap owner repo workflow s run := by
  cases run with
  | nil => exact Nat.le_refl _
  | cons a as => exact Nat.le_max_left _ _

theorem exec_depth {k : Nat} {s s' : Queues} {run : List QueueAction}
    (h : exec (step cap) s run = some s')
    (hs : s.depth owner repo workflow + s.admitted owner repo workflow ≤ cap + (k - 1))
    (hk : overlap cap owner repo workflow s run ≤ k) :
    s'.depth owner repo workflow + s'.admitted owner repo workflow ≤ cap + (k - 1) := by
  induction run generalizing s with
  | nil =>
    cases h
    exact hs
  | cons a as ih =>
    obtain ⟨m, hm, hrest⟩ := exec_cons_eq_some.mp h
    simp only [overlap, hm] at hk
    have hkm : overlap cap owner repo workflow m as ≤ k := by omega
    have hadm := admitted_le_overlap cap owner repo workflow m as
    exact ih hrest (moved_depth cap owner repo workflow (step_moved hm) hs (by omega)) hkm

/-- Two puts of one workflow that overlap can both pass the check on the last free place; the rows
exceed the cap by no more than the overlapping puts beyond the first. -/
theorem depth_le_cap_add_overlap (db : QueueItems) (run : List QueueAction) (s : Queues)
    (hdb : db.workflowDepth owner repo workflow ≤ cap)
    (h : exec (step cap) (boot db) run = some s) :
    s.depth owner repo workflow ≤ cap + (overlap cap owner repo workflow (boot db) run - 1) := by
  have hboot : (boot db).depth owner repo workflow + (boot db).admitted owner repo workflow ≤
      cap + (overlap cap owner repo workflow (boot db) run - 1) := by
    have : (boot db).admitted owner repo workflow = 0 := rfl
    have : (boot db).depth owner repo workflow = db.workflowDepth owner repo workflow := rfl
    omega
  have := exec_depth cap owner repo workflow h hboot (Nat.le_refl _)
  omega

end Depth

/-- A sandbox of the workflow `mailer` whose manifest declares no queue. -/
def undeclaredHost : HostOptions := ⟨"acme", "mailer", fun _ => none⟩

def jobArgs (item : JsValue) : PutArgs := ⟨"jobs", "site", "", "evt_1", "cron", "nightly", item⟩

/-- Two puts that both count before either inserts. -/
def twoPuts : List QueueAction :=
  [.put undeclaredHost (jobArgs .null) "t", .put undeclaredHost (jobArgs .null) "t",
    .count 0 (.ok ()), .count 1 (.ok ()), .insert 0 (.ok 1), .insert 1 (.ok 2)]

theorem depth_le_cap_add_overlap_twoPuts :
    ∃ s, exec (step 1) (boot .empty) twoPuts = some s ∧
      overlap 1 "acme" "site" "mailer" (boot .empty) twoPuts = 2 ∧ s.depth "acme" "site" "mailer" ≤ 2 := by
  have hover : overlap 1 "acme" "site" "mailer" (boot .empty) twoPuts = 2 := by decide +kernel
  have hrun : ∃ s, exec (step 1) (boot .empty) twoPuts = some s := ⟨_, rfl⟩
  obtain ⟨s, hs⟩ := hrun
  have hdepth := depth_le_cap_add_overlap 1 "acme" "site" "mailer" .empty twoPuts s (by decide) hs
  rw [hover] at hdepth
  exact ⟨s, hs, hover, hdepth⟩

theorem depth_exceeds_cap :
    ¬ ∀ (cap : Nat) (owner repo workflow : String) (run : List QueueAction) (s : Queues),
      exec (step cap) (boot .empty) run = some s → s.depth owner repo workflow ≤ cap := by
  intro h
  have hdepth := h 1 "acme" "site" "mailer" twoPuts _ rfl
  revert hdepth
  decide +kernel

/-! ## First in, first out -/

/-- The gets on the partition that popped a row, in order. -/
def Queues.popsOf (s : Queues) (p : Partition) : List Pop := s.popped.filter fun pop => pop.partition = p

/-- The puts to the partition that inserted their row, in the order of the INSERTs. -/
def Queues.storedOf (s : Queues) (p : Partition) : List (PutCall × StoredRow) :=
  s.stored.filter fun e => e.1.partition = p

/-- What a get should return for a stored put: its item after one turn through JSON. -/
def PutCall.delivered (call : PutCall) : Option PoppedRow :=
  (jsonRoundTrip call.item).map fun item => ⟨item, call.key, call.producer⟩

theorem rowToMeta_newRow (call : PutCall) (seq : Nat) :
    rowToMeta (QueueItems.newRow call seq) = call.delivered := by
  have hparse : parseItem call.json = jsonRoundTrip call.item := jsonParse_of_stringify call.encoded
  simp [rowToMeta, PutCall.delivered, QueueItems.newRow, hparse]

theorem PutCall.exists_roundTrip (call : PutCall) : ∃ v, jsonRoundTrip call.item = some v := by
  have h := call.encoded
  unfold stringify at h
  unfold jsonRoundTrip
  cases hj : call.item.toJson with
  | error e =>
    rw [hj] at h
    cases h
  | ok j =>
    rw [hj] at h
    cases j with
    | none => cases h
    | some j => exact ⟨_, rfl⟩

/-- The records agree with the table: a popped row came from the partition of its get, is gone, and
its `seq` is popped by no other get; a stored row is the one its put wrote. -/
structure Recorded (s : Queues) : Prop where
  result : ∀ pop ∈ s.popped, pop.result = rowToMeta pop.row
  partition : ∀ pop ∈ s.popped, pop.row.partition = pop.partition
  old : ∀ pop ∈ s.popped, pop.row.seq < s.db.nextSeq
  gone : ∀ pop ∈ s.popped, ∀ row ∈ s.db.rows, pop.row.seq ≠ row.seq
  once : (s.popped.map fun pop => pop.row.seq).Nodup
  stored : ∀ e ∈ s.stored, ∃ seq, e.2 = QueueItems.newRow e.1 seq

theorem boot_recorded (db : QueueItems) : Recorded (boot db) := by
  constructor <;> simp [boot]

theorem recorded_insert {s : Queues} (h : Recorded s) (puts : List PutTask) (call : PutCall) (seq : Nat)
    (hseq : s.db.nextSeq ≤ seq) :
    Recorded
      { s with
        db := s.db.insert call seq hseq
        puts := puts
        stored := s.stored ++ [(call, QueueItems.newRow call seq)] } where
  result := h.result
  partition := h.partition
  old := by
    intro pop hpop
    have := h.old pop hpop
    show pop.row.seq < seq + 1
    omega
  gone := by
    intro pop hpop row hrow
    rcases List.mem_append.mp hrow with hrow | hrow
    · exact h.gone pop hpop row hrow
    · obtain rfl := List.mem_singleton.mp hrow
      have := h.old pop hpop
      show pop.row.seq ≠ seq
      omega
  once := h.once
  stored := by
    intro e he
    rcases List.mem_append.mp he with he | he
    · exact h.stored e he
    · obtain rfl := List.mem_singleton.mp he
      exact ⟨seq, rfl⟩

theorem recorded_delete {s : Queues} (h : Recorded s) (where_ : StoredRow → Bool) :
    Recorded { s with db := s.db.delete where_ } where
  result := h.result
  partition := h.partition
  old := h.old
  gone := fun pop hpop row hrow => h.gone pop hpop row (List.mem_of_mem_filter hrow)
  once := h.once
  stored := h.stored

theorem recorded_pop {s : Queues} (h : Recorded s) {p : Partition} {row : StoredRow}
    {rest : List StoredRow} (hrows : s.db.rowsOf p = row :: rest) (reply : Except Failure JsValue) :
    Recorded
      { s with
        db := s.db.delete (s.db.popWhere p)
        popped := s.popped ++ [⟨p, row, rowToMeta row, reply⟩] } := by
  have hmem : row ∈ s.db.rowsOf p := by simp [hrows]
  obtain ⟨hrow, hpart⟩ := QueueItems.mem_rowsOf.mp hmem
  have hdel := recorded_delete h (s.db.popWhere p)
  constructor
  case result =>
    intro pop hpop
    rcases List.mem_append.mp hpop with hpop | hpop
    · exact h.result pop hpop
    · obtain rfl := List.mem_singleton.mp hpop
      rfl
  case partition =>
    intro pop hpop
    rcases List.mem_append.mp hpop with hpop | hpop
    · exact h.partition pop hpop
    · obtain rfl := List.mem_singleton.mp hpop
      exact hpart
  case old =>
    intro pop hpop
    rcases List.mem_append.mp hpop with hpop | hpop
    · exact h.old pop hpop
    · obtain rfl := List.mem_singleton.mp hpop
      exact s.db.below row hrow
  case gone =>
    intro pop hpop other hother
    rcases List.mem_append.mp hpop with hpop | hpop
    · exact hdel.gone pop hpop other hother
    · obtain rfl := List.mem_singleton.mp hpop
      obtain ⟨hother, hkept⟩ := List.mem_filter.mp hother
      intro heq
      obtain rfl := s.db.eq_of_seq_eq hother hrow heq.symm
      simp [QueueItems.popWhere, QueueItems.minSeq_eq_head hrows, hpart] at hkept
  case once =>
    simp only [List.map_append, List.map_cons, List.map_nil]
    rw [List.nodup_append]
    refine ⟨h.once, List.nodup_singleton _, ?_⟩
    intro seq hseq other hother
    obtain ⟨pop, hpop, rfl⟩ := List.mem_map.mp hseq
    obtain rfl := List.mem_singleton.mp hother
    exact h.gone pop hpop row hrow
  case stored => exact h.stored

theorem moved_recorded {cap : Nat} {s s' : Queues} {a : QueueAction} (h : Moved cap s a s')
    (hs : Recorded s) : Recorded s' := by
  cases h with
  | unchanged => exact hs
  | called host args now task htask => exact ⟨hs.1, hs.2, hs.3, hs.4, hs.5, hs.6⟩
  | failed _ p task f htask => exact ⟨hs.1, hs.2, hs.3, hs.4, hs.5, hs.6⟩
  | admits p call htask hdepth => exact ⟨hs.1, hs.2, hs.3, hs.4, hs.5, hs.6⟩
  | inserts p call seq htask hseq => exact recorded_insert hs _ call seq hseq
  | pops host args partition row rest reply hpartition hrows => exact recorded_pop hs hrows reply
  | removes scope => exact recorded_delete hs _

/-- No DELETE of a declaration that holds the partition. -/
def Spares (p : Partition) : QueueAction → Prop
  | .removeDeclaration scope (.ok ()) => coversScope scope p.scope = false
  | _ => True

/-- Popped rows and remaining rows together are the rows at the start and those inserted since. -/
def Balanced (db : QueueItems) (p : Partition) (s : Queues) : Prop :=
  (s.popsOf p).map (fun pop => pop.row) ++ s.db.rowsOf p =
    db.rowsOf p ++ (s.storedOf p).map fun e => e.2

theorem moved_balanced {cap : Nat} {db : QueueItems} {p : Partition} {s s' : Queues} {a : QueueAction}
    (h : Moved cap s a s') (hs : Balanced db p s) (ha : Spares p a) : Balanced db p s' := by
  unfold Balanced Queues.popsOf Queues.storedOf at *
  cases h with
  | unchanged => exact hs
  | called host args now task htask => exact hs
  | failed _ q task f htask => exact hs
  | admits q call htask hdepth => exact hs
  | inserts q call seq htask hseq =>
    simp only [QueueItems.rowsOf_insert, List.filter_append, List.filter_singleton]
    by_cases hcall : call.partition = p
    · simp only [hcall, decide_true, if_true, cond_true, List.map_append, List.map_cons, List.map_nil]
      rw [← List.append_assoc, hs, List.append_assoc]
    · simpa [hcall] using hs
  | pops host args q row rest reply hpartition hrows =>
    simp only [List.filter_append, List.filter_singleton]
    by_cases hq : q = p
    · subst hq
      rw [hrows] at hs
      rw [QueueItems.rowsOf_pop_self hrows]
      simpa using hs
    · rw [QueueItems.rowsOf_pop_other s.db (Ne.symm hq)]
      simpa [hq] using hs
  | removes scope =>
    simp only
    rw [rowsOf_remove ha]
    exact hs

theorem exec_recorded {cap : Nat} {db : QueueItems} {run : List QueueAction} {s : Queues}
    (h : exec (step cap) (boot db) run = some s) : Recorded s :=
  exec_invariant (fun _ _ _ hs hstep => moved_recorded (step_moved hstep) hs) (boot_recorded db) h

theorem exec_balanced {cap : Nat} {db : QueueItems} {p : Partition} {run : List QueueAction}
    {s : Queues} (h : exec (step cap) (boot db) run = some s) (hrun : ∀ a ∈ run, Spares p a) :
    Balanced db p s := by
  have hboot : Balanced db p (boot db) := by simp [Balanced, boot, Queues.popsOf, Queues.storedOf]
  generalize boot db = start at h hboot
  induction run generalizing start with
  | nil =>
    cases h
    exact hboot
  | cons a as ih =>
    obtain ⟨m, hm, hrest⟩ := exec_cons_eq_some.mp h
    have hm' := moved_balanced (step_moved hm) hboot (hrun a List.mem_cons_self)
    exact ih (fun b hb => hrun b (List.mem_cons_of_mem a hb)) m hrest hm'

/-- One put and one get. -/
def putThenGet (item : JsValue) : List QueueAction :=
  [.put undeclaredHost (jobArgs item) "t", .count 0 (.ok ()), .insert 0 (.ok 1),
    .get undeclaredHost ⟨"jobs", "site", ""⟩ (.ok ())]

end WorkflowEngine.Runtime.QueueHost
