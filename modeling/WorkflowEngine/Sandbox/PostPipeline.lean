import WorkflowEngine.Lib.OrderedMap
import WorkflowEngine.Sandbox.OutputBytes

/-!
# Posting through the hooks of the plugins

`runOnPost` and `post`. A hook is a program that may post on its own before it
returns a message or throws; a post throws where the port cannot clone the
message, and the hook goes on with either outcome. `sends` keeps every message
that was accounted for, and what became of it.
-/

namespace WorkflowEngine.Sandbox.PostPipeline

open Lib
set_option autoImplicit false

/-! ## Hooks -/

inductive Message where
  | event (wire : WireEvent JsValue)
  | onPostFailed (plugin error : String)
  | other (body : JsValue)

/-- A thrown value by its text: the message of an error, `String(err)` of anything else, and `none` where reading
the text throws in turn. -/
structure Thrown where
  text : Option String
  deriving DecidableEq

inductive HookProgram where
  | returns (msg : Message)
  | throws (thrown : Thrown)
  | posts (msg : Message) (next : Except Thrown Unit → HookProgram)

structure PluginSetup where
  onPost : Option (Message → HookProgram)

structure Lifecycle where
  setups : OrderedMap String PluginSetup
  order : List String

def Lifecycle.hook (l : Lifecycle) (name : String) : Option (Message → HookProgram) :=
  (l.setups.get? name).bind (·.onPost)

structure HookError where
  pluginName : String
  message : String

def annotate (name : String) (thrown : Thrown) : Except Thrown HookError :=
  match thrown.text with
  | some text => .ok ⟨name, "plugin \"" ++ name ++ "\" threw in onPost: " ++ text⟩
  | none => .error ⟨some "Cannot convert object to primitive value"⟩

/-! ## The port -/

inductive Fate where
  | delivered
  | overLimit
  | notCloned
  deriving DecidableEq

structure Send where
  msg : Message
  fate : Fate

structure PostState where
  inPostHooks : Bool
  counter : OutputCounter
  sends : List Send

def PostState.start (outputBytes : Nat) : PostState := ⟨false, ⟨outputBytes, 0⟩, []⟩

def accountForOutput (s : PostState) : Message → PostState × Bool
  | .event wire =>
    let accounted := accountOutputBytes s.counter (outputCharge wire)
    ({ s with counter := accounted.1 }, accounted.2)
  | _ => (s, true)

def Fate.result : Fate → Except Thrown Unit
  | .notCloned => .error ⟨some "could not be cloned."⟩
  | _ => .ok ()

section Post
variable (clones : Message → Bool)

/-- The log entry of a hook error holds two strings. -/
def cloned : Message → Bool
  | .onPostFailed _ _ => true
  | msg => clones msg

/-- `accountForOutput`, then `port.postMessage`. -/
def deliver (s : PostState) (msg : Message) : PostState × Fate :=
  let (s, admitted) := accountForOutput s msg
  let fate := if admitted then if cloned clones msg then .delivered else .notCloned else .overLimit
  ({ s with sends := s.sends ++ [⟨msg, fate⟩] }, fate)

def postRaw (s : PostState) (msg : Message) : PostState × Except Thrown Unit :=
  let (s, fate) := deliver clones s msg
  (s, fate.result)

def postLogs : List HookError → PostState → PostState
  | [], s => s
  | err :: errors, s =>
    match deliver clones s (.onPostFailed err.pluginName err.message) with
    | (s, .delivered) => postLogs errors s
    | (s, _) => s

def postFinal (hookErrors : List HookError) (s : PostState) (finalMsg : Message) : PostState × Except Thrown Unit :=
  match deliver clones s finalMsg with
  | (s, .delivered) => (postLogs clones hookErrors s, .ok ())
  | (s, fate) => (s, fate.result)

section Nested
variable (nested : PostState → Message → PostState × Except Thrown Unit)

def runHook : HookProgram → PostState → PostState × Except Thrown Message
  | .returns msg, s => (s, .ok msg)
  | .throws thrown, s => (s, .error thrown)
  | .posts msg next, s =>
    let (s, result) := nested s msg
    runHook (next result) s

def onPostLoop (lifecycle : Lifecycle) :
    List String → PostState → Message → List HookError → PostState × Except Thrown (Message × List HookError)
  | [], s, current, errors => (s, .ok (current, errors))
  | name :: order, s, current, errors =>
    match lifecycle.hook name with
    | none => onPostLoop lifecycle order s current errors
    | some hook =>
      match runHook nested (hook current) s with
      | (s, .ok msg) => onPostLoop lifecycle order s msg errors
      | (s, .error thrown) =>
        match annotate name thrown with
        | .ok annotated => onPostLoop lifecycle order s current (errors ++ [annotated])
        | .error e => (s, .error e)

def runOnPost (lifecycle : Lifecycle) (s : PostState) (msg : Message) :
    PostState × Except Thrown (Message × List HookError) :=
  onPostLoop nested lifecycle lifecycle.order s msg []

def postBody (lifecycle : Option Lifecycle) (s : PostState) (msg : Message) : PostState × Except Thrown Unit :=
  match lifecycle, s.inPostHooks with
  | some lifecycle, false =>
    let (s, result) := runOnPost nested lifecycle { s with inPostHooks := true } msg
    let s := { s with inPostHooks := false }
    match result with
    | .error e => (s, .error e)
    | .ok (finalMsg, hookErrors) => postFinal clones hookErrors s finalMsg
  | _, _ => postRaw clones s msg

end Nested

/-- `post`; `depth` bounds the nesting of its calls. -/
def post (lifecycle : Option Lifecycle) : Nat → PostState → Message → PostState × Except Thrown Unit
  | 0, s, _ => (s, .ok ())
  | depth + 1, s, msg => postBody clones (post lifecycle depth) lifecycle s msg

/-! ## What the hooks do at their turn -/

/-- The messages that a hook posts, in order. -/
def posted : HookProgram → PostState → List Message
  | .posts msg next, s => msg :: posted (next (postRaw clones s msg).2) (postRaw clones s msg).1
  | _, _ => []

structure Turn where
  name : String
  posted : List Message
  result : Except Thrown Message

/-- A hook that throws leaves the message as it was. -/
def Turn.apply (current : Message) (t : Turn) : Message := t.result.toOption.getD current

def Turn.throws (t : Turn) : Bool := !t.result.isOk

def Turn.HasText (t : Turn) : Prop := ∀ thrown, t.result = .error thrown → thrown.text.isSome = true

/-- The hooks in order, each on the message that the hooks before it made. -/
def turnsLoop (lifecycle : Lifecycle) : List String → PostState → Message → List Turn
  | [], _, _ => []
  | name :: order, s, current =>
    match lifecycle.hook name with
    | none => turnsLoop lifecycle order s current
    | some hook =>
      let (s', result) := runHook (postRaw clones) (hook current) s
      let turn : Turn := ⟨name, posted clones (hook current) s, result⟩
      turn :: turnsLoop lifecycle order s' (turn.apply current)

def turns (lifecycle : Option Lifecycle) (s : PostState) (msg : Message) : List Turn :=
  match lifecycle with
  | some lifecycle => turnsLoop clones lifecycle lifecycle.order { s with inPostHooks := true } msg
  | none => []

/-! ## The port -/

@[simp] theorem deliver_inPostHooks (s : PostState) (msg : Message) :
    (deliver clones s msg).1.inPostHooks = s.inPostHooks := by
  cases msg <;> rfl

theorem deliver_sends (s : PostState) (msg : Message) :
    (deliver clones s msg).1.sends = s.sends ++ [⟨msg, (deliver clones s msg).2⟩] := by
  cases msg <;> rfl

/-- The sends grew by these messages. -/
def Grew (msgs : List Message) (s s' : PostState) : Prop :=
  ∃ nested, s'.sends = s.sends ++ nested ∧ nested.map (·.msg) = msgs

theorem Grew.refl (s : PostState) : Grew [] s s := ⟨[], by simp⟩

theorem Grew.trans {msgs msgs' : List Message} {s s' s'' : PostState} (h : Grew msgs s s')
    (h' : Grew msgs' s' s'') : Grew (msgs ++ msgs') s s'' := by
  obtain ⟨nested, hs, rfl⟩ := h
  obtain ⟨nested', hs', rfl⟩ := h'
  exact ⟨nested ++ nested', by rw [hs', hs, List.append_assoc], by simp⟩

theorem deliver_log (s : PostState) (plugin error : String) :
    (deliver clones s (.onPostFailed plugin error)).2 = .delivered := rfl

@[simp] theorem postRaw_inPostHooks (s : PostState) (msg : Message) :
    (postRaw clones s msg).1.inPostHooks = s.inPostHooks :=
  deliver_inPostHooks clones s msg

theorem postRaw_grew (s : PostState) (msg : Message) : Grew [msg] s (postRaw clones s msg).1 :=
  ⟨_, deliver_sends clones s msg, rfl⟩

def HookError.log (err : HookError) : Message := .onPostFailed err.pluginName err.message

theorem postLogs_cons (err : HookError) (errors : List HookError) (s : PostState) :
    postLogs clones (err :: errors) s = postLogs clones errors (deliver clones s err.log).1 := rfl

@[simp] theorem postLogs_inPostHooks (errors : List HookError) (s : PostState) :
    (postLogs clones errors s).inPostHooks = s.inPostHooks := by
  induction errors generalizing s with
  | nil => rfl
  | cons err errors ih => rw [postLogs_cons, ih, deliver_inPostHooks]

/-- A log entry bypasses the counter, so none of them is held back. -/
theorem postLogs_sends (errors : List HookError) (s : PostState) :
    (postLogs clones errors s).sends = s.sends ++ errors.map fun err => ⟨err.log, .delivered⟩ := by
  induction errors generalizing s with
  | nil => simp [postLogs]
  | cons err errors ih =>
    rw [postLogs_cons, ih, deliver_sends, HookError.log, deliver_log]
    simp [HookError.log]

/-! ## Hooks that post -/

/-- Under the guard a nested call skips the hooks. -/
theorem post_nested (lifecycle : Option Lifecycle) (depth : Nat) {s : PostState} (hs : s.inPostHooks = true)
    (msg : Message) : post clones lifecycle (depth + 1) s msg = postRaw clones s msg := by
  cases lifecycle <;> simp [post, postBody, hs]

theorem runHook_nested (lifecycle : Option Lifecycle) (depth : Nat) (p : HookProgram) {s : PostState}
    (hs : s.inPostHooks = true) :
    runHook (post clones lifecycle (depth + 1)) p s = runHook (postRaw clones) p s := by
  induction p generalizing s with
  | returns msg => rfl
  | throws thrown => rfl
  | posts msg next ih =>
    simp only [runHook, post_nested clones lifecycle depth hs]
    exact ih _ (by simpa using hs)

theorem runHook_inPostHooks (p : HookProgram) (s : PostState) :
    (runHook (postRaw clones) p s).1.inPostHooks = s.inPostHooks := by
  induction p generalizing s with
  | returns msg => rfl
  | throws thrown => rfl
  | posts msg next ih =>
    simp only [runHook]
    rw [ih, postRaw_inPostHooks]

theorem runHook_grew (p : HookProgram) (s : PostState) :
    Grew (posted clones p s) s (runHook (postRaw clones) p s).1 := by
  induction p generalizing s with
  | returns msg => exact Grew.refl s
  | throws thrown => exact Grew.refl s
  | posts msg next ih => exact (postRaw_grew clones s msg).trans (ih _ _)

/-! ## The loop over the hooks -/

theorem onPostLoop_nested (lifecycle : Lifecycle) (l : Option Lifecycle) (depth : Nat) (order : List String)
    {s : PostState} (hs : s.inPostHooks = true) (current : Message) (errors : List HookError) :
    onPostLoop (post clones l (depth + 1)) lifecycle order s current errors =
      onPostLoop (postRaw clones) lifecycle order s current errors := by
  induction order generalizing s current errors with
  | nil => rfl
  | cons name order ih =>
    unfold onPostLoop
    cases lifecycle.hook name with
    | none => exact ih hs current errors
    | some hook =>
      have hflag := runHook_inPostHooks clones (hook current) s
      simp only [runHook_nested clones l depth (hook current) hs]
      rcases hrun : runHook (postRaw clones) (hook current) s with ⟨s', _ | _⟩
      · rw [hrun, hs] at hflag
        simp only
        split
        · exact ih hflag _ _
        · rfl
      · rw [hrun, hs] at hflag
        exact ih hflag _ _

section Loop
variable {lifecycle : Lifecycle} {name : String} {hook : Message → HookProgram} {s s' : PostState}
  {current : Message}

theorem onPostLoop_skip (h : lifecycle.hook name = none) (order : List String) (errors : List HookError) :
    onPostLoop (postRaw clones) lifecycle (name :: order) s current errors =
      onPostLoop (postRaw clones) lifecycle order s current errors := by
  simp [onPostLoop, h]

theorem onPostLoop_returned (h : lifecycle.hook name = some hook) {msg : Message}
    (hrun : runHook (postRaw clones) (hook current) s = (s', .ok msg)) (order : List String)
    (errors : List HookError) :
    onPostLoop (postRaw clones) lifecycle (name :: order) s current errors =
      onPostLoop (postRaw clones) lifecycle order s' msg errors := by
  simp [onPostLoop, h, hrun]

theorem onPostLoop_threw (h : lifecycle.hook name = some hook) {thrown : Thrown}
    (hrun : runHook (postRaw clones) (hook current) s = (s', .error thrown)) {annotated : HookError}
    (ha : annotate name thrown = .ok annotated) (order : List String) (errors : List HookError) :
    onPostLoop (postRaw clones) lifecycle (name :: order) s current errors =
      onPostLoop (postRaw clones) lifecycle order s' current (errors ++ [annotated]) := by
  simp [onPostLoop, h, hrun, ha]

theorem onPostLoop_failed (h : lifecycle.hook name = some hook) {thrown e : Thrown}
    (hrun : runHook (postRaw clones) (hook current) s = (s', .error thrown))
    (ha : annotate name thrown = .error e) (order : List String) (errors : List HookError) :
    onPostLoop (postRaw clones) lifecycle (name :: order) s current errors = (s', .error e) := by
  simp [onPostLoop, h, hrun, ha]

theorem turnsLoop_skip (h : lifecycle.hook name = none) (order : List String) :
    turnsLoop clones lifecycle (name :: order) s current = turnsLoop clones lifecycle order s current := by
  simp [turnsLoop, h]

theorem turnsLoop_run (h : lifecycle.hook name = some hook) {result : Except Thrown Message}
    (hrun : runHook (postRaw clones) (hook current) s = (s', result)) (order : List String) :
    turnsLoop clones lifecycle (name :: order) s current =
      ⟨name, posted clones (hook current) s, result⟩ ::
        turnsLoop clones lifecycle order s' (result.toOption.getD current) := by
  simp [turnsLoop, h, hrun, Turn.apply]

end Loop

theorem onPostLoop_inPostHooks (lifecycle : Lifecycle) (order : List String) (s : PostState) (current : Message)
    (errors : List HookError) :
    (onPostLoop (postRaw clones) lifecycle order s current errors).1.inPostHooks = s.inPostHooks := by
  induction order generalizing s current errors with
  | nil => rfl
  | cons name order ih =>
    cases hhook : lifecycle.hook name with
    | none => rw [onPostLoop_skip clones hhook, ih]
    | some hook =>
      have hflag := runHook_inPostHooks clones (hook current) s
      rcases hrun : runHook (postRaw clones) (hook current) s with ⟨s', thrown | msg⟩
      · rw [hrun] at hflag
        cases ha : annotate name thrown with
        | ok annotated => rw [onPostLoop_threw clones hhook hrun ha, ih, ← hflag]
        | error e => rw [onPostLoop_failed clones hhook hrun ha, ← hflag]
      · rw [hrun] at hflag
        rw [onPostLoop_returned clones hhook hrun, ih, ← hflag]

/-- The error of a turn, where its value has a text. -/
def Turn.error (t : Turn) : Option HookError :=
  match t.result with
  | .error thrown => (annotate t.name thrown).toOption
  | .ok _ => none

theorem annotate_pluginName {name : String} {thrown : Thrown} {annotated : HookError}
    (h : annotate name thrown = .ok annotated) : annotated.pluginName = name := by
  unfold annotate at h
  split at h <;> cases h
  rfl

theorem annotate_of_text {thrown : Thrown} (h : thrown.text.isSome = true) (name : String) :
    ∃ annotated, annotate name thrown = .ok annotated := by
  obtain ⟨text, htext⟩ := Option.isSome_iff_exists.mp h
  simp [annotate, htext]

theorem annotate_textless {thrown : Thrown} (h : thrown.text = none) (name : String) :
    ∃ e, annotate name thrown = .error e := by
  simp [annotate, h]

theorem onPostLoop_ok (lifecycle : Lifecycle) (order : List String) (s : PostState) (current : Message)
    (errors : List HookError) (h : ∀ t ∈ turnsLoop clones lifecycle order s current, t.HasText) :
    (onPostLoop (postRaw clones) lifecycle order s current errors).2 =
        .ok ((turnsLoop clones lifecycle order s current).foldl Turn.apply current,
          errors ++ (turnsLoop clones lifecycle order s current).filterMap (·.error)) ∧
      Grew ((turnsLoop clones lifecycle order s current).flatMap (·.posted)) s
        (onPostLoop (postRaw clones) lifecycle order s current errors).1 := by
  induction order generalizing s current errors with
  | nil => exact ⟨by simp [onPostLoop, turnsLoop], Grew.refl s⟩
  | cons name order ih =>
    cases hhook : lifecycle.hook name with
    | none =>
      rw [turnsLoop_skip clones hhook] at h ⊢
      rw [onPostLoop_skip clones hhook]
      exact ih s current errors h
    | some hook =>
      have hgrew := runHook_grew clones (hook current) s
      rcases hrun : runHook (postRaw clones) (hook current) s with ⟨s', thrown | msg⟩
      · rw [hrun] at hgrew
        rw [turnsLoop_run clones hhook hrun] at h ⊢
        obtain ⟨hfirst, hrest⟩ := List.forall_mem_cons.mp h
        obtain ⟨annotated, ha⟩ := annotate_of_text (hfirst thrown rfl) name
        obtain ⟨hres, hsends⟩ := ih s' current (errors ++ [annotated]) hrest
        rw [onPostLoop_threw clones hhook hrun ha, hres]
        exact ⟨by simp [Turn.apply, Turn.error, ha, Except.toOption], hgrew.trans hsends⟩
      · rw [hrun] at hgrew
        rw [turnsLoop_run clones hhook hrun] at h ⊢
        obtain ⟨hfirst, hrest⟩ := List.forall_mem_cons.mp h
        obtain ⟨hres, hsends⟩ := ih s' msg errors hrest
        rw [onPostLoop_returned clones hhook hrun, hres]
        exact ⟨by simp [Turn.apply, Turn.error, Except.toOption], hgrew.trans hsends⟩

/-- A thrown value without a text ends the loop. -/
theorem onPostLoop_hasText (lifecycle : Lifecycle) (order : List String) (s : PostState) (current : Message)
    (errors : List HookError) {result : Message × List HookError}
    (h : (onPostLoop (postRaw clones) lifecycle order s current errors).2 = .ok result) :
    ∀ t ∈ turnsLoop clones lifecycle order s current, t.HasText := by
  induction order generalizing s current errors with
  | nil => simp [turnsLoop]
  | cons name order ih =>
    cases hhook : lifecycle.hook name with
    | none =>
      rw [onPostLoop_skip clones hhook] at h
      rw [turnsLoop_skip clones hhook]
      exact ih s current errors h
    | some hook =>
      rcases hrun : runHook (postRaw clones) (hook current) s with ⟨s', thrown | msg⟩
      · rw [turnsLoop_run clones hhook hrun]
        refine List.forall_mem_cons.mpr ⟨?_, ?_⟩
        · intro other hother
          cases hother
          by_contra hnone
          obtain ⟨e, he⟩ := annotate_textless (Option.not_isSome_iff_eq_none.mp hnone) name
          rw [onPostLoop_failed clones hhook hrun he] at h
          cases h
        · cases ha : annotate name thrown with
          | ok annotated =>
            rw [onPostLoop_threw clones hhook hrun ha] at h
            exact ih s' current _ h
          | error e =>
            rw [onPostLoop_failed clones hhook hrun ha] at h
            cases h
      · rw [turnsLoop_run clones hhook hrun]
        rw [onPostLoop_returned clones hhook hrun] at h
        refine List.forall_mem_cons.mpr ⟨?_, ih s' msg errors h⟩
        intro other hother
        cases hother

/-- One error for each hook that threw, in the order of the hooks. -/
theorem errors_pluginName {ts : List Turn} (h : ∀ t ∈ ts, t.HasText) :
    (ts.filterMap (·.error)).map (·.pluginName) = (ts.filter (·.throws)).map (·.name) := by
  induction ts with
  | nil => rfl
  | cons t ts ih =>
    obtain ⟨hfirst, hrest⟩ := List.forall_mem_cons.mp h
    rcases ht : t.result with thrown | msg
    · obtain ⟨annotated, ha⟩ := annotate_of_text (hfirst thrown ht) t.name
      have herror : t.error = some annotated := by simp [Turn.error, ht, ha, Except.toOption]
      have hthrows : t.throws = true := by simp [Turn.throws, ht, Except.isOk, Except.toBool]
      simp [herror, hthrows, ih hrest, annotate_pluginName ha]
    · have herror : t.error = none := by simp [Turn.error, ht]
      have hthrows : t.throws = false := by simp [Turn.throws, ht, Except.isOk, Except.toBool]
      simp [herror, hthrows, ih hrest]

/-! ## One call of `post` -/

def hooked (lifecycle : Lifecycle) (s : PostState) (msg : Message) :
    PostState × Except Thrown (Message × List HookError) :=
  runOnPost (postRaw clones) lifecycle { s with inPostHooks := true } msg

theorem runOnPost_nested (lifecycle : Lifecycle) (l : Option Lifecycle) (depth : Nat) (s : PostState)
    (msg : Message) :
    runOnPost (post clones l (depth + 1)) lifecycle { s with inPostHooks := true } msg =
      hooked clones lifecycle s msg :=
  onPostLoop_nested clones lifecycle l depth lifecycle.order rfl msg []

theorem post_none (depth : Nat) (s : PostState) (msg : Message) :
    post clones none (depth + 1) s msg = postRaw clones s msg := rfl

theorem postBody_threw (nested : PostState → Message → PostState × Except Thrown Unit) {lifecycle : Lifecycle}
    {s : PostState} (hs : s.inPostHooks = false) {msg : Message} {e : Thrown}
    (h : (runOnPost nested lifecycle { s with inPostHooks := true } msg).2 = .error e) :
    postBody clones nested (some lifecycle) s msg =
      ({ (runOnPost nested lifecycle { s with inPostHooks := true } msg).1 with inPostHooks := false },
        .error e) := by
  simp [postBody, hs, h]

theorem postBody_returned (nested : PostState → Message → PostState × Except Thrown Unit)
    {lifecycle : Lifecycle} {s : PostState} (hs : s.inPostHooks = false) {msg finalMsg : Message}
    {errors : List HookError}
    (h : (runOnPost nested lifecycle { s with inPostHooks := true } msg).2 = .ok (finalMsg, errors)) :
    postBody clones nested (some lifecycle) s msg =
      postFinal clones errors
        { (runOnPost nested lifecycle { s with inPostHooks := true } msg).1 with inPostHooks := false }
        finalMsg := by
  simp [postBody, hs, h]

theorem post_threw {lifecycle : Lifecycle} (depth : Nat) {s : PostState} (hs : s.inPostHooks = false)
    {msg : Message} {e : Thrown} (h : (hooked clones lifecycle s msg).2 = .error e) :
    post clones (some lifecycle) (depth + 2) s msg =
      ({ (hooked clones lifecycle s msg).1 with inPostHooks := false }, .error e) := by
  rw [← runOnPost_nested clones lifecycle (some lifecycle) depth] at h ⊢
  exact postBody_threw clones _ hs h

theorem post_returned {lifecycle : Lifecycle} (depth : Nat) {s : PostState} (hs : s.inPostHooks = false)
    {msg finalMsg : Message} {errors : List HookError}
    (h : (hooked clones lifecycle s msg).2 = .ok (finalMsg, errors)) :
    post clones (some lifecycle) (depth + 2) s msg =
      postFinal clones errors { (hooked clones lifecycle s msg).1 with inPostHooks := false } finalMsg := by
  rw [← runOnPost_nested clones lifecycle (some lifecycle) depth] at h ⊢
  exact postBody_returned clones _ hs h

@[simp] theorem postFinal_inPostHooks (errors : List HookError) (s : PostState) (finalMsg : Message) :
    (postFinal clones errors s finalMsg).1.inPostHooks = s.inPostHooks := by
  have hflag := deliver_inPostHooks clones s finalMsg
  unfold postFinal
  rcases hdeliver : deliver clones s finalMsg with ⟨s', fate⟩
  rw [hdeliver] at hflag
  cases fate with
  | delivered => simpa using hflag
  | overLimit => exact hflag
  | notCloned => exact hflag

theorem postFinal_sends (errors : List HookError) (s : PostState) (finalMsg : Message) :
    (postFinal clones errors s finalMsg).1.sends =
      s.sends ++ ⟨finalMsg, (deliver clones s finalMsg).2⟩ ::
        if (deliver clones s finalMsg).2 = .delivered then
          errors.map fun err => ⟨err.log, .delivered⟩ else [] := by
  have hsends := deliver_sends clones s finalMsg
  unfold postFinal
  rcases hdeliver : deliver clones s finalMsg with ⟨s', fate⟩
  rw [hdeliver] at hsends
  replace hsends : s'.sends = s.sends ++ [⟨finalMsg, fate⟩] := hsends
  cases fate with
  | delivered => simp [postLogs_sends, hsends]
  | overLimit => simp [hsends]
  | notCloned => simp [hsends]

/-- The guard is free again whether the outermost call returns or throws. -/
theorem post_inPostHooks (lifecycle : Option Lifecycle) (depth : Nat) {s : PostState}
    (hs : s.inPostHooks = false) (msg : Message) :
    (post clones lifecycle (depth + 2) s msg).1.inPostHooks = false := by
  cases lifecycle with
  | none => rw [post_none, postRaw_inPostHooks, hs]
  | some lifecycle =>
    cases h : (hooked clones lifecycle s msg).2 with
    | error e => rw [post_threw clones depth hs h]
    | ok result => rw [post_returned clones depth hs h, postFinal_inPostHooks]

/-- What the messages of one outermost call come to: those that the hooks post, the final message, and one log
entry for each error where the final message went out. -/
def Accounted (turns : List Turn) (final : Message) (errors : List HookError) (before after : List Send) :
    Prop :=
  ∃ nested fate,
    nested.map (·.msg) = turns.flatMap (·.posted) ∧
    after = before ++ nested ++ ⟨final, fate⟩ ::
      if fate = .delivered then errors.map fun err => ⟨err.log, .delivered⟩ else []

/-- Each hook that returns is folded over the message, each that throws leaves one error, and every message is
accounted for once. -/
def Handled (depth : Nat) (lifecycle : Option Lifecycle) (s : PostState) (msg : Message) : Prop :=
  let ts := turns clones lifecycle s msg
  ∃ errors,
    errors.map (·.pluginName) = (ts.filter (·.throws)).map (·.name) ∧
    (∀ l, lifecycle = some l →
      (runOnPost (post clones lifecycle (depth + 1)) l { s with inPostHooks := true } msg).2 =
        .ok (ts.foldl Turn.apply msg, errors)) ∧
    Accounted ts (ts.foldl Turn.apply msg) errors s.sends (post clones lifecycle (depth + 2) s msg).1.sends

theorem handled_none (depth : Nat) (s : PostState) (msg : Message) : Handled clones depth none s msg := by
  refine ⟨[], rfl, ?_, [], (deliver clones s msg).2, rfl, ?_⟩
  · intro l hl
    cases hl
  · rw [post_none]
    simp [turns, postRaw, deliver_sends]

theorem handled_of_hasText (depth : Nat) (lifecycle : Lifecycle) {s : PostState} (hs : s.inPostHooks = false)
    {msg : Message} (h : ∀ t ∈ turns clones (some lifecycle) s msg, t.HasText) :
    Handled clones depth (some lifecycle) s msg := by
  obtain ⟨hres, nested, hsends, hnested⟩ :=
    onPostLoop_ok clones lifecycle lifecycle.order { s with inPostHooks := true } msg [] h
  replace hres : (hooked clones lifecycle s msg).2 = .ok ((turns clones (some lifecycle) s msg).foldl Turn.apply msg,
    (turns clones (some lifecycle) s msg).filterMap (·.error)) := hres
  replace hsends : (hooked clones lifecycle s msg).1.sends = s.sends ++ nested := hsends
  have hafter := postFinal_sends clones ((turns clones (some lifecycle) s msg).filterMap (·.error))
    { (hooked clones lifecycle s msg).1 with inPostHooks := false }
    ((turns clones (some lifecycle) s msg).foldl Turn.apply msg)
  rw [← post_returned clones depth hs hres, hsends] at hafter
  refine ⟨_, errors_pluginName h, ?_, nested, _, hnested, hafter⟩
  intro l hl
  cases hl
  rw [runOnPost_nested, hres]

theorem hasText_of_handled {depth : Nat} {lifecycle : Lifecycle} {s : PostState} {msg : Message}
    (h : Handled clones depth (some lifecycle) s msg) : ∀ t ∈ turns clones (some lifecycle) s msg, t.HasText := by
  obtain ⟨errors, -, hrun, -⟩ := h
  have hres := hrun lifecycle rfl
  rw [runOnPost_nested] at hres
  exact onPostLoop_hasText clones lifecycle lifecycle.order _ msg [] hres

/-! ## The calls of one worker -/

inductive WorkerStep where
  | post (lifecycle : Option Lifecycle) (msg : Message)
  | resetRunCounters

def workerStep (depth : Nat) (s : PostState) : WorkerStep → PostState
  | .post lifecycle msg => (post clones lifecycle (depth + 2) s msg).1
  | .resetRunCounters => { s with counter := { s.counter with used := 0 } }

def workerPosts (depth outputBytes : Nat) (steps : List WorkerStep) : PostState :=
  steps.foldl (workerStep clones depth) (PostState.start outputBytes)

theorem workerStep_inPostHooks (depth : Nat) {s : PostState} (hs : s.inPostHooks = false) (step : WorkerStep) :
    (workerStep clones depth s step).inPostHooks = false := by
  cases step with
  | post lifecycle msg => exact post_inPostHooks clones lifecycle depth hs msg
  | resetRunCounters => exact hs

theorem workerPosts_inPostHooks (depth outputBytes : Nat) (steps : List WorkerStep) :
    (workerPosts clones depth outputBytes steps).inPostHooks = false := by
  refine List.foldlRecOn (motive := fun s : PostState => s.inPostHooks = false) steps
    (workerStep clones depth) rfl ?_
  intro s hs step _
  exact workerStep_inPostHooks clones depth hs step

end Post

end WorkflowEngine.Sandbox.PostPipeline
