import Mathlib.Algebra.Ring.Nat
import WorkflowEngine.Lib.OrderedMap

/-!
# The IMAP trigger source

Model of `createImapTriggerSource` in `triggers/imap.ts`. An entry keeps the
slots `client`, `wakeup` and `reconnectTimer`; beside them stand the `runEntry`
calls made for it, each with the client and the wakeup that it created, and the
reconnect timers armed so far. Between two awaits the code runs without a
break, so one action is what happens from the settling of one await, one timer
or one client event to the next await. What the server, the clock, the handler
and `entry.exception` do is chosen by the action. A client that is dropped by
the peer or on which `logout` was called is no longer connected.
-/

namespace WorkflowEngine.Runtime.Imap

open Lib
set_option autoImplicit false

inductive Mode where
  | poll
  | idle
  deriving DecidableEq

structure Descriptor where
  workflowName : String
  name : String
  mode : Mode
  onErrorCommand : List String
  deriving DecidableEq

/-! ## Wakeups -/

/-- A `pollWakeup` or an `idleWakeup`. `timers` are the poll timers that are still to fire, `timer`
the one in the slot; `pendingResolve` is the run blocked in `next()`. -/
structure Wakeup where
  mode : Mode
  dirty : Bool
  listening : Bool
  pendingResolve : Option Nat
  timer : Option Nat
  timers : List Nat
  armed : Nat
  deriving DecidableEq

namespace Wakeup

def create (mode : Mode) : Wakeup := ⟨mode, false, mode = .idle, none, none, [], 0⟩

/-- `dispose()`, less the resolution of the pending promise. -/
def dispose (k : Wakeup) : Wakeup :=
  { k with
    listening := false
    pendingResolve := none
    timer := none
    timers :=
      match k.timer with
      | some t => k.timers.filter (· ≠ t)
      | none => k.timers }

/-- The EXISTS listener. -/
def notify (k : Wakeup) : Wakeup := { k with dirty := true, pendingResolve := none }

/-- The callback of poll timer `t`. -/
def timerFired (k : Wakeup) (t : Nat) : Wakeup :=
  { k with timers := k.timers.filter (· ≠ t), timer := none, pendingResolve := none }

/-- `next()` called by run `r`: the wakeup, and whether the promise is resolved at once. -/
def next (k : Wakeup) (r : Nat) : Wakeup × Bool :=
  match k.mode with
  | .idle =>
    if k.dirty then ({ k with dirty := false, pendingResolve := none }, true)
    else ({ k with pendingResolve := some r }, false)
  | .poll =>
    ({ k with
        pendingResolve := some r
        timer := some k.armed
        timers := k.timers ++ [k.armed]
        armed := k.armed + 1 }, false)

end Wakeup

/-! ## Runs of `runEntry` -/

inductive DrainStage where
  | searching
  | fetching (uid : Nat) (rest : List Nat)
  | parsing (uid : Nat) (rest : List Nat)
  | firing (uid : Nat) (rest : List Nat)
  | disposing (uid : Nat) (commands : List String) (rest : List Nat)
  | excepting (failed : Bool)
  deriving DecidableEq

/-- One call of `drain`, from `setupConnection` or from the main loop. -/
structure Drain where
  client : Nat
  inLoop : Bool
  failedFetchUids : List Nat
  stage : DrainStage
  deriving DecidableEq

/-- Where a `runEntry` call stands: at an await, or between the settling of a promise of its own
(`drained`, `ready`, `woken`) and its continuation. -/
inductive Phase where
  | connecting
  | reportingConnect
  | opening
  | reportingOpen
  | loggingOut
  | draining (d : Drain)
  | drained (client : Nat) (inLoop failed : Bool)
  | ready
  | waiting (wakeup client : Nat)
  | woken (client : Nat)
  | returned
  deriving DecidableEq

/-- A `runEntry` call with the client and the wakeup it made. `fetched` and `fired` record its
`fetchOne` and `fire` calls, with whether the entry was disposed by then. -/
structure Run where
  phase : Phase
  connected : Bool
  wired : Bool
  wakeup : Option Wakeup
  fetched : List (Nat × Bool)
  fired : List (Nat × Bool)
  deriving DecidableEq

def Run.create : Run := ⟨.connecting, false, false, none, [], []⟩

/-- The resolution of `next()`. -/
def Phase.wake : Phase → Phase
  | .waiting _ client => .woken client
  | p => p

structure ReconnectTimer where
  delay : Nat
  pending : Bool
  deriving DecidableEq

structure SourceEntry where
  owner : String
  repo : String
  descriptor : Descriptor
  client : Option Nat
  wakeup : Option Nat
  reconnectTimer : Option Nat
  failures : Nat
  disposed : Bool
  runs : List Run
  timers : List ReconnectTimer
  deriving DecidableEq

def pollIntervalMs : Nat := 60000

def maxBackoffMs : Nat := 60 * 60000

def nextDelay (failures : Nat) : Nat :=
  if failures = 0 then pollIntervalMs else min (pollIntervalMs * 2 ^ (failures - 1)) maxBackoffMs

namespace SourceEntry

def create (owner repo : String) (descriptor : Descriptor) : SourceEntry :=
  ⟨owner, repo, descriptor, none, none, none, 0, false, [], []⟩

def modifyRun (x : SourceEntry) (r : Nat) (f : Run → Run) : SourceEntry :=
  { x with runs := x.runs.modify r f }

def setPhase (x : SourceEntry) (r : Nat) (p : Phase) : SourceEntry :=
  x.modifyRun r fun run => { run with phase := p }

/-- The run blocked in `next()` of the wakeup that run `w` made. -/
def resolver (x : SourceEntry) (w : Nat) : Option Nat :=
  (x.runs[w]?.bind Run.wakeup).bind Wakeup.pendingResolve

/-- Updates the wakeup that run `w` made; where the update resolves `next()`, its caller wakes. -/
def updateWakeup (x : SourceEntry) (w : Nat) (f : Wakeup → Wakeup) (resolves : Bool) : SourceEntry :=
  { x with
    runs := x.runs.mapIdx fun i run =>
      { run with
        phase := if resolves ∧ x.resolver w = some i then run.phase.wake else run.phase
        wakeup := if i = w then run.wakeup.map f else run.wakeup } }

/-- `srcEntry.wakeup.dispose(); srcEntry.wakeup = undefined`, where there is one. -/
def disposeWakeup (x : SourceEntry) : SourceEntry :=
  match x.wakeup with
  | none => x
  | some w => { x.updateWakeup w Wakeup.dispose true with wakeup := none }

/-- `client.logout()` of the client that run `c` made. -/
def logout (x : SourceEntry) (c : Nat) : SourceEntry :=
  x.modifyRun c fun run => { run with connected := false }

/-- `srcEntry.client = undefined` and the logout of that client, where there is one. -/
def dropClient (x : SourceEntry) : SourceEntry :=
  match x.client with
  | none => x
  | some c => { x.logout c with client := none }

def teardownConnection (x : SourceEntry) : SourceEntry := x.disposeWakeup.dropClient

def disposeEntry (x : SourceEntry) : SourceEntry :=
  let x := { x with disposed := true }
  let x :=
    match x.reconnectTimer with
    | none => x
    | some t =>
      { x with
        timers := x.timers.modify t fun timer => { timer with pending := false }
        reconnectTimer := none }
  x.teardownConnection

section Current
variable (current : Bool)

def scheduleReconnect (x : SourceEntry) : SourceEntry :=
  if x.disposed || !current then x
  else
    let x := x.teardownConnection
    { x with
      timers := x.timers ++ [⟨nextDelay x.failures, true⟩]
      reconnectTimer := some x.timers.length }

/-- `runEntry` up to the `connect` of its client. -/
def runEntry (x : SourceEntry) : SourceEntry :=
  if x.disposed || !current then x else { x with runs := x.runs ++ [Run.create] }

def onConnectionLost (x : SourceEntry) : SourceEntry :=
  if x.disposed || !current then x
  else if x.client = none ∧ x.wakeup = none then x
  else scheduleReconnect current { x with failures := x.failures + 1 }

/-- The head of the main loop, up to `await wakeup.next()`. -/
def enterLoop (x : SourceEntry) (r : Nat) : SourceEntry :=
  if x.disposed || !current then x.setPhase r .returned
  else
    match x.wakeup, x.client with
    | some w, some c =>
      match x.runs[w]?.bind Run.wakeup with
      | none => x.setPhase r .returned
      | some k =>
        let (k, resolved) := k.next r
        (x.updateWakeup w (fun _ => k) false).setPhase r (if resolved then .woken c else .waiting w c)
    | _, _ => x.setPhase r .returned

/-! ### `drain` -/

/-- The end of the loop over the uids: the `finally` block. -/
def finishDrain (x : SourceEntry) (r : Nat) (d : Drain) : SourceEntry :=
  if d.failedFetchUids = [] then x.setPhase r (.drained d.client d.inLoop false)
  else x.setPhase r (.draining { d with stage := .excepting false })

/-- The head of the loop over the uids. -/
def nextUid (x : SourceEntry) (r : Nat) (d : Drain) : List Nat → SourceEntry
  | [] => x.finishDrain r d
  | uid :: rest =>
    if x.disposed then x.finishDrain r d
    else
      x.modifyRun r fun run =>
        { run with
          phase := .draining { d with stage := .fetching uid rest }
          fetched := run.fetched ++ [(uid, x.disposed)] }

def fetchFailed (x : SourceEntry) (r : Nat) (d : Drain) (uid : Nat) (rest : List Nat) : SourceEntry :=
  x.nextUid r { d with failedFetchUids := d.failedFetchUids ++ [uid] } rest

def fire (x : SourceEntry) (r : Nat) (d : Drain) (uid : Nat) (rest : List Nat) : SourceEntry :=
  x.modifyRun r fun run =>
    { run with
      phase := .draining { d with stage := .firing uid rest }
      fired := run.fired ++ [(uid, x.disposed)] }

def applyDispositions (x : SourceEntry) (r : Nat) (d : Drain) (uid : Nat) (rest : List Nat) :
    List String → SourceEntry
  | [] => x.nextUid r d rest
  | commands => x.setPhase r (.draining { d with stage := .disposing uid commands rest })

def fatal (x : SourceEntry) (r : Nat) (d : Drain) : SourceEntry :=
  x.setPhase r (.draining { d with stage := .excepting true })

/-! ### Continuations -/

def connectFailed (x : SourceEntry) (r : Nat) : SourceEntry :=
  (scheduleReconnect current { x with failures := x.failures + 1 }).setPhase r .returned

/-- After `drain` in `setupConnection`. -/
def afterSetupDrain (x : SourceEntry) (r : Nat) (failed : Bool) : SourceEntry :=
  if failed then
    let x := scheduleReconnect current x
    { x with failures := x.failures + 1 }.setPhase r .returned
  else { x with failures := 0 }.setPhase r .ready

/-- After `drain` in the main loop. -/
def afterLoopDrain (x : SourceEntry) (r : Nat) (failed : Bool) : SourceEntry :=
  if failed then
    (scheduleReconnect current { x with failures := x.failures + 1 }).setPhase r .returned
  else enterLoop current { x with failures := 0 } r

/-- After `await wakeup.next()`. -/
def afterWake (x : SourceEntry) (r c : Nat) : SourceEntry :=
  if x.disposed || !current then x.setPhase r .returned
  else if x.client ≠ some c then x.setPhase r .returned
  else x.setPhase r (.draining ⟨c, true, [], .searching⟩)

end Current

end SourceEntry

/-! ## Actions on one entry -/

inductive ConnectOutcome where
  | rejected
  | accepted (idle : Bool)
  deriving DecidableEq

inductive LossEvent where
  | close
  | error
  deriving DecidableEq

/-- The settling of an await of `drain`. A fetch without a source counts as failed; a handler that
fails or a `fire` that throws gives no commands. -/
inductive DrainEvent where
  | searched (uids : Option (List Nat))
  | fetched (source : Bool)
  | parsed (ok : Bool)
  | fired (commands : Option (List String))
  | dispositioned (ok : Bool)
  | excepted
  deriving DecidableEq

/-- Runs, and the clients and wakeups they made, go by the number of the run. -/
inductive EntryAction where
  | connected (r : Nat) (outcome : ConnectOutcome)
  | reported (r : Nat)
  | loggedOut (r : Nat)
  | opened (r : Nat) (ok : Bool)
  | drain (r : Nat) (event : DrainEvent)
  | resumed (r : Nat)
  | notified (w : Nat)
  | pollTimer (w t : Nat)
  | connectionLost (c : Nat) (event : LossEvent)
  | reconnectTimer (t : Nat)
  deriving DecidableEq

namespace SourceEntry
variable (current : Bool)

/-- After `connect()`: the capability check, then the wakeup and `mailboxOpen`. -/
def afterConnect (x : SourceEntry) (r : Nat) : ConnectOutcome → SourceEntry
  | .rejected => x.setPhase r .reportingConnect
  | .accepted idle =>
    if x.descriptor.mode = .idle ∧ idle = false then
      x.modifyRun r fun run => { run with phase := .reportingConnect, connected := true }
    else
      { x.modifyRun r fun run =>
          { run with
            phase := .opening
            connected := true
            wakeup := some (Wakeup.create x.descriptor.mode) } with
        wakeup := some r }

/-- After `mailboxOpen()`: the listeners, the entry's client, and the post-connect drain. -/
def afterOpen (x : SourceEntry) (r : Nat) (ok : Bool) : SourceEntry :=
  if ok then
    { x.modifyRun r fun run =>
        { run with phase := .draining ⟨r, false, [], .searching⟩, wired := true } with
      client := some r }
  else x.setPhase r .reportingOpen

/-- After `emitConnectFailure`. For a failed `mailboxOpen` the wakeup in the slot is disposed; an
empty slot makes that a `TypeError`, which ends the run. -/
def afterReport (x : SourceEntry) (r : Nat) : Phase → Option SourceEntry
  | .reportingConnect => some ((x.logout r).setPhase r .loggingOut)
  | .reportingOpen =>
    if x.wakeup = none then some (x.setPhase r .returned)
    else some ((x.disposeWakeup.logout r).setPhase r .loggingOut)
  | _ => none

def drainStep (x : SourceEntry) (r : Nat) (d : Drain) : DrainStage → DrainEvent → Option SourceEntry
  | .searching, .searched none => some (x.fatal r d)
  | .searching, .searched (some uids) => some (x.nextUid r d uids)
  | .fetching uid rest, .fetched true =>
    some (x.setPhase r (.draining { d with stage := .parsing uid rest }))
  | .fetching uid rest, .fetched false => some (x.fetchFailed r d uid rest)
  | .parsing uid rest, .parsed true => some (x.fire r d uid rest)
  | .parsing uid rest, .parsed false => some (x.fetchFailed r d uid rest)
  | .firing uid rest, .fired commands =>
    some (x.applyDispositions r d uid rest (commands.getD x.descriptor.onErrorCommand))
  | .disposing uid commands rest, .dispositioned true =>
    some (x.applyDispositions r d uid rest commands.tail)
  | .disposing _ _ _, .dispositioned false => some (x.fatal r d)
  | .excepting failed, .excepted => some (x.setPhase r (.drained d.client d.inLoop failed))
  | _, _ => none

/-- A continuation after a promise of the run's own. -/
def resume (x : SourceEntry) (r : Nat) : Phase → Option SourceEntry
  | .drained _ false failed => some (afterSetupDrain current x r failed)
  | .drained _ true failed => some (afterLoopDrain current x r failed)
  | .ready => some (enterLoop current x r)
  | .woken c => some (afterWake current x r c)
  | _ => none

def phaseOf (x : SourceEntry) (r : Nat) : Option Phase := x.runs[r]?.map Run.phase

def wakeupOf (x : SourceEntry) (w : Nat) : Option Wakeup := x.runs[w]?.bind Run.wakeup

def isWired (x : SourceEntry) (c : Nat) : Bool := (x.runs[c]?.map Run.wired).getD false

def isConnected (x : SourceEntry) (c : Nat) : Bool := (x.runs[c]?.map Run.connected).getD false

def isPending (x : SourceEntry) (t : Nat) : Bool := (x.timers[t]?.map ReconnectTimer.pending).getD false

def step (x : SourceEntry) : EntryAction → Option SourceEntry
  | .connected r outcome =>
    if x.phaseOf r = some .connecting then some (x.afterConnect r outcome) else none
  | .reported r => (x.phaseOf r).bind (x.afterReport r)
  | .loggedOut r =>
    if x.phaseOf r = some .loggingOut then some (connectFailed current x r) else none
  | .opened r ok => if x.phaseOf r = some .opening then some (x.afterOpen r ok) else none
  | .drain r event =>
    match x.phaseOf r with
    | some (.draining d) => x.drainStep r d d.stage event
    | _ => none
  | .resumed r => (x.phaseOf r).bind (resume current x r)
  | .notified w =>
    match x.wakeupOf w with
    | some k => if k.listening then some (x.updateWakeup w Wakeup.notify true) else none
    | none => none
  | .pollTimer w t =>
    match x.wakeupOf w with
    | some k => if t ∈ k.timers then some (x.updateWakeup w (·.timerFired t) true) else none
    | none => none
  | .connectionLost c event =>
    if x.isWired c then
      some (onConnectionLost current (if event = .close then x.logout c else x))
    else none
  | .reconnectTimer t =>
    if x.isPending t then
      some (runEntry current
        { x with
          timers := x.timers.modify t fun timer => { timer with pending := false }
          reconnectTimer := none })
    else none

end SourceEntry

/-! ## The source -/

structure ImapSource where
  pairs : OrderedMap String (OrderedMap String Nat)
  entries : List SourceEntry

def createImapTriggerSource : ImapSource := ⟨.empty, []⟩

def entryKey (d : Descriptor) : String := d.workflowName ++ "/" ++ d.name

def pairKey (owner repo : String) : String := owner ++ "/" ++ repo

namespace ImapSource

/-- `isCurrent` of the entry with number `e`. -/
def isCurrent (s : ImapSource) (e : Nat) : Bool :=
  match s.entries[e]? with
  | none => false
  | some x =>
    match s.pairs.get? (pairKey x.owner x.repo) with
    | none => false
    | some pairMap => pairMap.get? (entryKey x.descriptor) = some e

/-- `disposeEntry` of the given entries. -/
def disposeAll (s : ImapSource) (ids : List Nat) : ImapSource :=
  { s with entries := s.entries.mapIdx fun e x => if e ∈ ids then x.disposeEntry else x }

def cancelPair (s : ImapSource) (key : String) : ImapSource :=
  match s.pairs.get? key with
  | none => s
  | some pairMap => s.disposeAll pairMap.values

def cancelAll (s : ImapSource) : ImapSource := s.disposeAll (s.pairs.values.flatMap OrderedMap.values)

/-- The new pair map: entry numbers from `n` on. -/
def pairMapOf (n : Nat) : List Descriptor → OrderedMap String Nat
  | ds => (ds.zipIdx n).foldl (fun m d => m.set (entryKey d.1) d.2) .empty

def reconfigure (s : ImapSource) (owner repo : String) (ds : List Descriptor) : ImapSource :=
  let key := pairKey owner repo
  let s := s.cancelPair key
  let s := { s with pairs := s.pairs.delete key }
  if ds = [] then s
  else
    { pairs := s.pairs.set key (pairMapOf s.entries.length ds)
      entries := s.entries ++ ds.map fun d => (SourceEntry.create owner repo d).runEntry true }

def stop (s : ImapSource) : ImapSource := { s.cancelAll with pairs := .empty }

end ImapSource

inductive SourceAction where
  | reconfigure (owner repo : String) (ds : List Descriptor)
  | stop
  | entry (e : Nat) (a : EntryAction)

def step (s : ImapSource) : SourceAction → Option ImapSource
  | .reconfigure owner repo ds => some (s.reconfigure owner repo ds)
  | .stop => some s.stop
  | .entry e a =>
    match s.entries[e]? with
    | none => none
    | some x => (x.step (s.isCurrent e) a).map fun x => { s with entries := s.entries.set e x }

/-- A polled mailbox with no command for failed messages. -/
def inbox : Descriptor := ⟨"mail", "inbox", .poll, []⟩

end WorkflowEngine.Runtime.Imap
