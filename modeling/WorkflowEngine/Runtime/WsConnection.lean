import WorkflowEngine.Lib.ListIndex
import WorkflowEngine.Lib.Transition
import WorkflowEngine.Runtime.Manifest

/-!
# The frames of one websocket connection

`dispatchFrame` and `onConnection` of `triggers/ws.ts` with the `fire` closure of
`build-fire.ts`. A `message` event starts the dispatch of its frame at once; nothing
makes it wait for the frames before it. Only a frame that passes validation goes
through the run queue of the executor, so a later frame that is binary, malformed or
refused can close the connection while an earlier one is still being handled.
-/

namespace WorkflowEngine.Runtime.Ws

open Lib
set_option autoImplicit false

def closeInvalidPayload : Nat := 1007

def closeServerError : Nat := 1011

structure Frame where
  text : String
  isBinary : Bool

/-- `JSON.parse` and the closures of the trigger entry; issues are texts. -/
structure Trigger where
  parse : String → Option Json
  validate : Json → Except (List String) Json
  validateOutput : Json → Except (List String) Unit

/-- How the executor answers an invocation. -/
inductive Handled where
  | threw
  | failed
  | ok (output : Json)

inductive Outcome where
  | replied (output : Json)
  | closed (code : Nat) (reason : String)
  /-- The socket was no longer open; `reply` is what would have been sent. -/
  | dropped (reply : Option Json)

/-- Where the dispatch of a frame waits. -/
inductive Dispatch where
  | invoked (input : Json)
  | refused (issues : List String)
  | rejecting (reason : String)
  | settled (outcome : Outcome)

def Dispatch.isSettled : Dispatch → Bool
  | .settled _ => true
  | _ => false

inductive Effect where
  | reply (output : Json)
  | close (code : Nat) (reason : String)

/-- `closed` is the first call of `close` and the frame that made it; `effects` is what reached the
socket, with the frame it is from. -/
structure Connection where
  closed : Option (Option Nat × Nat × String)
  frames : List Dispatch
  effects : List (Nat × Effect)

namespace Connection

/-- `ws.close`; only the first call takes effect. -/
def close (c : Connection) (by_ : Option Nat) (code : Nat) (reason : String) : Connection :=
  match c.closed with
  | some _ => c
  | none =>
    { c with
      closed := some (by_, code, reason)
      effects := match by_ with
        | some k => c.effects ++ [(k, .close code reason)]
        | none => c.effects }

/-- The dispatch of frame `k` ends with a call of `close`. -/
def settleClosed (c : Connection) (k : Nat) (code : Nat) (reason : String) : Connection :=
  close { c with frames := c.frames.set k (.settled (.closed code reason)) } (some k) code reason

def settleDropped (c : Connection) (k : Nat) (reply : Option Json) : Connection :=
  { c with frames := c.frames.set k (.settled (.dropped reply)) }

def sendReply (c : Connection) (k : Nat) (output : Json) (sendThrows : Bool) : Connection :=
  if sendThrows then c.settleClosed k closeServerError "send failed"
  else
    { c with
      frames := c.frames.set k (.settled (.replied output))
      effects := c.effects ++ [(k, .reply output)] }

end Connection

inductive WsAction where
  /-- The `message` event. -/
  | message (frame : Frame)
  /-- The executor answers the invocation of frame `k`. -/
  | handled (k : Nat) (result : Handled) (sendThrows : Bool)
  /-- `fire` had refused the payload of frame `k`. -/
  | resumed (k : Nat)
  /-- `entry.exception` for frame `k` settles. -/
  | reported (k : Nat) (ok : Bool)
  /-- The peer, the heartbeat, a reconfiguration or `stop` ends the connection. -/
  | shut (code : Nat) (reason : String)

/-- `dispatchFrame` up to its first `await`. -/
def dispatchFrame (trigger : Trigger) (c : Connection) (frame : Frame) : Connection :=
  let k := c.frames.length
  if frame.isBinary then
    Connection.close
      { c with frames := c.frames ++ [.settled (.closed closeInvalidPayload "binary frame")] }
      (some k) closeInvalidPayload "binary frame"
  else
    match trigger.parse frame.text with
    | none => { c with frames := c.frames ++ [.rejecting "json parse"] }
    | some data =>
      match trigger.validate data with
      | .error issues => { c with frames := c.frames ++ [.refused issues] }
      | .ok input => { c with frames := c.frames ++ [.invoked input] }

/-- What follows once `fire` has settled. -/
def afterFire (trigger : Trigger) (c : Connection) (k : Nat) (sendThrows : Bool) : Handled → Connection
  | .threw => c.settleClosed k closeServerError "dispatch"
  | .failed =>
    if c.closed.isSome then c.settleDropped k none else c.settleClosed k closeServerError "handler"
  | .ok output =>
    match trigger.validateOutput output with
    | .error _ =>
      if c.closed.isSome then c.settleDropped k none else c.settleClosed k closeServerError "handler"
    | .ok _ =>
      if c.closed.isSome then c.settleDropped k (some output) else c.sendReply k output sendThrows

def step (trigger : Trigger) (c : Connection) : WsAction → Option Connection
  | .message frame => some (dispatchFrame trigger c frame)
  | .handled k result sendThrows =>
    match c.frames[k]? with
    | some (.invoked _) => some (afterFire trigger c k sendThrows result)
    | _ => none
  | .resumed k =>
    match c.frames[k]? with
    | some (.refused _) =>
      some (if c.closed.isSome then c.settleDropped k none
        else { c with frames := c.frames.set k (.rejecting "schema") })
    | _ => none
  | .reported k ok =>
    match c.frames[k]? with
    | some (.rejecting reason) =>
      some (if ok then c.settleClosed k closeInvalidPayload reason
        else c.settleClosed k closeServerError "dispatch")
    | _ => none
  | .shut code reason => some (c.close none code reason)

/-! ## Frame order -/

/-- Only the last frame is still being dispatched, what reached the socket is in frame order, and no
reply is dropped because a later frame closed the connection. -/
structure InFrameOrder (c : Connection) : Prop where
  sequential : ∀ (k : Nat) (d : Dispatch), c.frames[k]? = some d → d.isSettled = false →
    k + 1 = c.frames.length
  effects : (c.effects.map Prod.fst).Pairwise (· < ·)
  delivered : ∀ (k : Nat) (output : Json), c.frames[k]? = some (.settled (.dropped (some output))) →
    ∀ j code reason, c.closed = some (some j, code, reason) → j < k

/-- A frame arrives once every frame before it has been dealt with. -/
def Awaited (c : Connection) : WsAction → Prop
  | .message _ => ∀ d ∈ c.frames, d.isSettled = true
  | _ => True

/-- What reached the socket, or closed it, is from a frame that is dealt with, and nothing is dropped
while the socket is open. -/
structure Good (c : Connection) : Prop extends InFrameOrder c where
  done : ∀ (j : Nat) (effect : Effect), (j, effect) ∈ c.effects →
    ∃ outcome, c.frames[j]? = some (.settled outcome)
  closer : ∀ j code reason, c.closed = some (some j, code, reason) →
    ∃ outcome, c.frames[j]? = some (.settled outcome)
  dropped : ∀ (k : Nat) (reply : Option Json), c.frames[k]? = some (.settled (.dropped reply)) →
    c.closed.isSome = true

def opened : Connection := ⟨none, [], []⟩

theorem good_opened : Good opened := by
  refine ⟨⟨?_, ?_, ?_⟩, ?_, ?_, ?_⟩ <;> simp [opened]

/-- An effect of the last frame comes after all others. -/
theorem Good.pairwise_snoc {c : Connection} (h : Good c) {k : Nat}
    (hbefore : ∀ (j : Nat) (outcome : Outcome), c.frames[j]? = some (.settled outcome) → j < k)
    (effect : Effect) : ((c.effects ++ [(k, effect)]).map Prod.fst).Pairwise (· < ·) := by
  rw [List.map_append, List.pairwise_append]
  refine ⟨h.effects, by simp, ?_⟩
  intro j hj i hi
  obtain ⟨⟨j', effect'⟩, hmem, rfl⟩ := List.mem_map.mp hj
  obtain rfl : i = k := by simpa using hi
  obtain ⟨outcome, houtcome⟩ := h.done j' effect' hmem
  exact hbefore j' outcome houtcome

/-- What the dispatch of the last frame does, when all others are dealt with and stay as they are. -/
theorem Good.last {c t : Connection} (h : Good c) {k : Nat} {d : Dispatch}
    (hopen : ∀ outcome, c.frames[k]? ≠ some (.settled outcome))
    (hbefore : ∀ (j : Nat) (e : Dispatch), j ≠ k → c.frames[j]? = some e → e.isSettled = true)
    (hlength : t.frames.length = k + 1) (hself : t.frames[k]? = some d)
    (hother : ∀ j, j ≠ k → t.frames[j]? = c.frames[j]?)
    (heffects : t.effects = c.effects ∨
      ∃ effect, t.effects = c.effects ++ [(k, effect)] ∧ d.isSettled = true)
    (hclosed : t.closed = c.closed ∨
      (c.closed = none ∧ d.isSettled = true ∧ ∃ code reason, t.closed = some (some k, code, reason)))
    (hdropped : ∀ reply, d = .settled (.dropped reply) → c.closed.isSome = true) : Good t := by
  have hcases : ∀ {j e}, t.frames[j]? = some e → (j = k ∧ e = d) ∨ (j ≠ k ∧ c.frames[j]? = some e) := by
    intro j e he
    by_cases hj : j = k
    · subst hj
      exact Or.inl ⟨rfl, Option.some.inj (he.symm.trans hself)⟩
    · exact Or.inr ⟨hj, (hother j hj).symm.trans he⟩
  have hkeep : ∀ {j outcome}, c.frames[j]? = some (.settled outcome) →
      j < k ∧ t.frames[j]? = some (.settled outcome) := by
    intro j outcome hj
    have hne : j ≠ k := by
      rintro rfl
      exact hopen outcome hj
    have hstays := (hother j hne).trans hj
    have hlt := lt_of_getElem?_eq_some hstays
    exact ⟨by omega, hstays⟩
  have hsome : c.closed.isSome = true → t.closed = c.closed := by
    intro hc
    rcases hclosed with heq | ⟨hnone, -⟩
    · exact heq
    · rw [hnone] at hc
      cases hc
  have hsettled : d.isSettled = true → ∃ outcome, t.frames[k]? = some (.settled outcome) := by
    intro hs
    cases d with
    | settled outcome => exact ⟨outcome, hself⟩
    | invoked input => cases hs
    | refused issues => cases hs
    | rejecting reason => cases hs
  refine ⟨⟨?_, ?_, ?_⟩, ?_, ?_, ?_⟩
  · intro j e he hw
    rcases hcases he with ⟨rfl, -⟩ | ⟨hne, hj⟩
    · exact hlength.symm
    · rw [hbefore j e hne hj] at hw
      cases hw
  · rcases heffects with heq | ⟨effect, heq, -⟩
    · rw [heq]
      exact h.effects
    · rw [heq]
      exact h.pairwise_snoc (fun j outcome hj => (hkeep hj).1) effect
  · intro j output hj i code reason hi
    rcases hcases hj with ⟨rfl, rfl⟩ | ⟨-, hj⟩
    · rw [hsome (hdropped _ rfl)] at hi
      obtain ⟨outcome, houtcome⟩ := h.closer i code reason hi
      exact (hkeep houtcome).1
    · rw [hsome (h.dropped j _ hj)] at hi
      exact h.delivered j output hj i code reason hi
  · intro j effect hj
    have hmem : (j, effect) ∈ c.effects ∨ (j = k ∧ d.isSettled = true) := by
      rcases heffects with heq | ⟨effect', heq, hs⟩
      · exact Or.inl (heq ▸ hj)
      · rw [heq, List.mem_append, List.mem_singleton] at hj
        rcases hj with hj | hj
        · exact Or.inl hj
        · exact Or.inr ⟨congrArg Prod.fst hj, hs⟩
    rcases hmem with hj | ⟨rfl, hs⟩
    · obtain ⟨outcome, houtcome⟩ := h.done j effect hj
      exact ⟨outcome, (hkeep houtcome).2⟩
    · exact hsettled hs
  · intro j code reason hj
    rcases hclosed with heq | ⟨-, hs, code', reason', heq⟩
    · rw [heq] at hj
      obtain ⟨outcome, houtcome⟩ := h.closer j code reason hj
      exact ⟨outcome, (hkeep houtcome).2⟩
    · rw [heq] at hj
      obtain rfl : k = j := by simpa using congrArg (Option.map Prod.fst) hj
      exact hsettled hs
  · intro j reply hj
    rcases hcases hj with ⟨rfl, rfl⟩ | ⟨-, hj⟩
    · rw [hsome (hdropped reply rfl)]
      exact hdropped reply rfl
    · rw [hsome (h.dropped j reply hj)]
      exact h.dropped j reply hj

/-- The dispatch of one frame goes on. -/
theorem Good.frame {c t : Connection} (h : Good c) {k : Nat} {d d' : Dispatch}
    (hd : c.frames[k]? = some d) (hwaiting : d.isSettled = false) (hframes : t.frames = c.frames.set k d')
    (heffects : t.effects = c.effects ∨
      ∃ effect, t.effects = c.effects ++ [(k, effect)] ∧ d'.isSettled = true)
    (hclosed : t.closed = c.closed ∨
      (c.closed = none ∧ d'.isSettled = true ∧ ∃ code reason, t.closed = some (some k, code, reason)))
    (hdropped : ∀ reply, d' = .settled (.dropped reply) → c.closed.isSome = true) : Good t := by
  have hlast := h.sequential k d hd hwaiting
  refine h.last ?_ ?_ ?_ ?_ ?_ heffects hclosed hdropped
  · intro outcome hk
    obtain rfl := Option.some.inj (hd.symm.trans hk)
    cases hwaiting
  · intro j e hne hj
    cases hw : e.isSettled with
    | true => rfl
    | false =>
      have hj := h.sequential j e hj hw
      omega
  · rw [hframes, List.length_set, hlast]
  · rw [hframes]
    exact List.getElem?_set_self (lt_of_getElem?_eq_some hd)
  · intro j hne
    rw [hframes, List.getElem?_set_ne (Ne.symm hne)]

section Waiting
variable {c : Connection} {k : Nat} {d : Dispatch}

theorem Good.settleClosed (h : Good c) (hd : c.frames[k]? = some d) (hwaiting : d.isSettled = false)
    (code : Nat) (reason : String) : Good (c.settleClosed k code reason) := by
  unfold Connection.settleClosed Connection.close
  cases hclosed : c.closed with
  | some closed =>
    refine h.frame hd hwaiting rfl (Or.inl ?_) (Or.inl ?_) (by simp)
    · rfl
    · simp [hclosed]
  | none =>
    refine h.frame hd hwaiting rfl (Or.inr ⟨.close code reason, ?_, rfl⟩)
      (Or.inr ⟨hclosed, rfl, code, reason, ?_⟩) (by simp)
    · rfl
    · rfl

theorem Good.settleDropped (h : Good c) (hd : c.frames[k]? = some d) (hwaiting : d.isSettled = false)
    (hclosed : c.closed.isSome = true) (reply : Option Json) : Good (c.settleDropped k reply) :=
  h.frame hd hwaiting rfl (Or.inl rfl) (Or.inl rfl) fun _ _ => hclosed

theorem Good.sendReply (h : Good c) (hd : c.frames[k]? = some d) (hwaiting : d.isSettled = false)
    (output : Json) (sendThrows : Bool) : Good (c.sendReply k output sendThrows) := by
  unfold Connection.sendReply
  split
  · exact h.settleClosed hd hwaiting closeServerError "send failed"
  · exact h.frame hd hwaiting rfl (Or.inr ⟨_, rfl, rfl⟩) (Or.inl rfl) (by simp)

theorem Good.afterFire (h : Good c) (hd : c.frames[k]? = some d) (hwaiting : d.isSettled = false)
    (trigger : Trigger) (sendThrows : Bool) (result : Handled) :
    Good (afterFire trigger c k sendThrows result) := by
  cases result with
  | threw => exact h.settleClosed hd hwaiting _ _
  | failed =>
    simp only [Ws.afterFire]
    split
    · rename_i hclosed
      exact h.settleDropped hd hwaiting hclosed none
    · exact h.settleClosed hd hwaiting _ _
  | ok output =>
    simp only [Ws.afterFire]
    split
    · split
      · rename_i hclosed
        exact h.settleDropped hd hwaiting hclosed none
      · exact h.settleClosed hd hwaiting _ _
    · split
      · rename_i hclosed
        exact h.settleDropped hd hwaiting hclosed (some output)
      · exact h.sendReply hd hwaiting output sendThrows

end Waiting

/-- A frame that arrives when all others are dealt with. -/
theorem Good.snoc {c t : Connection} (h : Good c) (hall : ∀ d ∈ c.frames, d.isSettled = true)
    {d : Dispatch} (hframes : t.frames = c.frames ++ [d])
    (heffects : t.effects = c.effects ∨
      ∃ effect, t.effects = c.effects ++ [(c.frames.length, effect)] ∧ d.isSettled = true)
    (hclosed : t.closed = c.closed ∨ (c.closed = none ∧ d.isSettled = true ∧
      ∃ code reason, t.closed = some (some c.frames.length, code, reason)))
    (hdropped : ∀ reply, d ≠ .settled (.dropped reply)) : Good t := by
  refine h.last ?_ ?_ ?_ ?_ ?_ heffects hclosed fun reply hd => absurd hd (hdropped reply)
  · intro outcome hk
    exact Nat.lt_irrefl _ (lt_of_getElem?_eq_some hk)
  · intro j e _ hj
    exact hall e (List.mem_of_getElem? hj)
  · rw [hframes, List.length_append, List.length_singleton]
  · rw [hframes, List.getElem?_concat_length]
  · intro j hne
    rw [hframes, List.getElem?_append]
    split
    · rfl
    · rename_i hge
      have hlt : c.frames.length < j := by omega
      rw [List.getElem?_eq_none (Nat.le_of_lt hlt), List.getElem?_eq_none (by simp; omega)]

/-- Every frame gets the next number. -/
theorem frames_dispatchFrame (trigger : Trigger) (c : Connection) (frame : Frame) :
    ∃ d, (dispatchFrame trigger c frame).frames = c.frames ++ [d] := by
  unfold dispatchFrame
  dsimp only
  split
  · refine ⟨.settled (.closed closeInvalidPayload "binary frame"), ?_⟩
    unfold Connection.close
    split <;> rfl
  · split
    · exact ⟨_, rfl⟩
    · split <;> exact ⟨_, rfl⟩

theorem Good.dispatchFrame {c : Connection} (h : Good c) (hall : ∀ d ∈ c.frames, d.isSettled = true)
    (trigger : Trigger) (frame : Frame) : Good (dispatchFrame trigger c frame) := by
  unfold Ws.dispatchFrame
  dsimp only
  split
  · unfold Connection.close
    cases hclosed : c.closed with
    | some closed =>
      refine h.snoc hall rfl (Or.inl ?_) (Or.inl ?_) (by simp)
      · rfl
      · simp [hclosed]
    | none =>
      refine h.snoc hall rfl (Or.inr ⟨.close closeInvalidPayload "binary frame", ?_, rfl⟩)
        (Or.inr ⟨hclosed, rfl, closeInvalidPayload, "binary frame", ?_⟩) (by simp)
      · rfl
      · rfl
  · split
    · exact h.snoc hall rfl (Or.inl rfl) (Or.inl rfl) (by simp)
    · split
      · exact h.snoc hall rfl (Or.inl rfl) (Or.inl rfl) (by simp)
      · exact h.snoc hall rfl (Or.inl rfl) (Or.inl rfl) (by simp)

theorem Good.shut {c : Connection} (h : Good c) (code : Nat) (reason : String) :
    Good (c.close none code reason) := by
  unfold Connection.close
  cases hclosed : c.closed with
  | some closed => exact h
  | none =>
    refine ⟨⟨h.sequential, h.effects, ?_⟩, h.done, ?_, ?_⟩
    · intro k output _ j code' reason' hj
      cases hj
    · intro j code' reason' hj
      cases hj
    · intro k reply _
      rfl

theorem Good.step {trigger : Trigger} {c t : Connection} {a : WsAction} (h : Good c)
    (hok : Awaited c a) (hstep : step trigger c a = some t) : Good t := by
  cases a with
  | message frame =>
    obtain rfl := Option.some.inj hstep
    exact h.dispatchFrame hok trigger frame
  | handled k result sendThrows =>
    simp only [Ws.step] at hstep
    split at hstep
    · rename_i input hd
      obtain rfl := Option.some.inj hstep
      exact h.afterFire hd rfl trigger sendThrows result
    · cases hstep
  | resumed k =>
    simp only [Ws.step] at hstep
    split at hstep
    · rename_i issues hd
      obtain rfl := Option.some.inj hstep
      split
      · rename_i hclosed
        exact h.settleDropped hd rfl hclosed none
      · exact h.frame hd rfl rfl (Or.inl rfl) (Or.inl rfl) (by simp)
    · cases hstep
  | reported k ok =>
    simp only [Ws.step] at hstep
    split at hstep
    · rename_i reason hd
      obtain rfl := Option.some.inj hstep
      split
      · exact h.settleClosed hd rfl _ _
      · exact h.settleClosed hd rfl _ _
    · cases hstep
  | shut code reason =>
    obtain rfl := Option.some.inj hstep
    exact h.shut code reason

/-- A frame that is dispatched out of turn leaves two unsettled ones behind. -/
theorem awaited_of_inFrameOrder {trigger : Trigger} {c t : Connection} {a : WsAction}
    (hstep : step trigger c a = some t) (h : InFrameOrder t) : Awaited c a := by
  cases a with
  | message frame =>
    obtain rfl := Option.some.inj hstep
    intro d hd
    by_contra hwaiting
    rw [Bool.not_eq_true] at hwaiting
    obtain ⟨k, hk⟩ := List.mem_iff_getElem?.mp hd
    obtain ⟨d', hframes⟩ := frames_dispatchFrame trigger c frame
    have hk' : (dispatchFrame trigger c frame).frames[k]? = some d := by
      rw [hframes]
      exact getElem?_snoc_of_some hk
    have hlast := h.sequential k d hk' hwaiting
    have hlt := lt_of_getElem?_eq_some hk
    rw [hframes, List.length_append, List.length_singleton] at hlast
    omega
  | handled k result sendThrows => trivial
  | resumed k => trivial
  | reported k ok => trivial
  | shut code reason => trivial

/-- The frames of a connection are dealt with one after the other, and take effect in their order,
exactly as long as the client waits for each of them. -/
theorem inFrameOrder_iff_awaited (trigger : Trigger) (acts : List WsAction) (c : Connection)
    (h : exec (step trigger) opened acts = some c) :
    Always (step trigger) InFrameOrder opened acts ↔ Along (step trigger) Awaited opened acts :=
  always_iff_along (fun _ hgood => hgood.toInFrameOrder) (fun _ _ _ hgood hok hstep => hgood.step hok hstep)
    (fun _ _ _ _ hstep horder => awaited_of_inFrameOrder hstep horder) good_opened h

/-- Takes every text as `null`. -/
def nullTrigger : Trigger := ⟨fun _ => some .null, fun data => .ok data, fun _ => .ok ()⟩

theorem inFrameOrder_iff_awaited_twice :
    Always (step nullTrigger) InFrameOrder opened
      [.message ⟨"null", false⟩, .handled 0 (.ok .null) false, .message ⟨"", true⟩] := by
  refine (inFrameOrder_iff_awaited nullTrigger _ _ rfl).mpr ?_
  refine ⟨by simp [Awaited, opened], ?_⟩
  intro s hs
  obtain rfl := Option.some.inj hs
  refine ⟨trivial, ?_⟩
  intro t ht
  obtain rfl := Option.some.inj ht
  refine ⟨?_, fun _ _ => trivial⟩
  intro d hd
  obtain rfl := List.mem_singleton.mp hd
  rfl

/-- A binary frame closes the connection while the frame before it is being handled; its reply is
dropped. -/
theorem reply_lost_to_binary_frame :
    ∃ c, exec (step nullTrigger) opened
        [.message ⟨"null", false⟩, .message ⟨"", true⟩, .handled 0 (.ok .null) false] = some c ∧
      c.frames[0]? = some (.settled (.dropped (some .null))) ∧
      c.closed = some (some 1, closeInvalidPayload, "binary frame") ∧ ¬ InFrameOrder c := by
  refine ⟨_, rfl, rfl, rfl, ?_⟩
  intro h
  have hlt := h.delivered 0 .null rfl 1 _ _ rfl
  omega

end WorkflowEngine.Runtime.Ws
