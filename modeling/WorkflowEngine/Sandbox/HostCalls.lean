import WorkflowEngine.Lib.ListIndex
import WorkflowEngine.Lib.OrderedMap
import WorkflowEngine.Lib.Transition

/-!
# The host-call channel

Model of `callHost`, `resolveHostCall` and `rejectPendingHostCalls` of
`worker.ts` and of `handleHostCallRequest` of `sandbox.ts`, with the two message
directions between them. Handlers settle in any order, responses arrive in any
order and may come after the run of their request has ended; a request or a
response can be lost. A promise is known by its position in `promises`.

Three things are recorded only to state the law: the promise that a request and
its response belong to, the number of runs that had ended when a call was made,
and the same number at its settlement.
-/

namespace WorkflowEngine.Sandbox

open Lib
set_option autoImplicit false

universe u v
variable {V : Type u} {E : Type v}

/-- What `post` does with a `host-call-request`: it reaches the port, an `onPost` hook puts another
message in its place, or `port.postMessage` throws because an argument cannot be cloned. -/
inductive Posting where
  | sent
  | replaced
  | threw
  deriving DecidableEq

/-- How a `callHost` promise settled. -/
inductive HostOutcome (V : Type u) (E : Type v) where
  | response (request : Nat) (reply : Except E V)
  | runEnded
  | postFailed

/-- A `callHost` promise; `run` and the number in `settled` count ended runs. -/
structure HostPromise (V : Type u) (E : Type v) where
  posting : Posting
  run : Nat
  settled : Option (HostOutcome V E × Nat)

structure HostRequest (V : Type u) where
  id : Nat
  promise : Nat
  method : String
  args : List V

structure HostResponse (V : Type u) (E : Type v) where
  id : Nat
  promise : Nat
  reply : Except E V

structure HostCalls (V : Type u) (E : Type v) where
  hostCallSeq : Nat
  pendingHostCalls : OrderedMap Nat Nat
  promises : List (HostPromise V E)
  runs : Nat
  requests : List (HostRequest V)
  handling : List (HostRequest V)
  responses : List (HostResponse V E)
  disposed : Bool

/-- `hostHandlers`: whether a method is registered, and the error that answers one that is not. -/
structure HostHandlers (E : Type v) where
  registered : String → Bool
  unknownMethod : String → E

inductive HostAction (V : Type u) (E : Type v) where
  | callHost (method : String) (args : List V) (posting : Posting)
  | receiveRequest
  | handlerSettles (i : Nat) (reply : Except E V) (posted : Bool)
  | receiveResponse (i : Nat)
  | finalizeRun
  | dispose

/-- `resolve` or `reject`: the first call decides. -/
def HostPromise.settle (runs : Nat) (outcome : HostOutcome V E) (p : HostPromise V E) :
    HostPromise V E :=
  match p.settled with
  | some _ => p
  | none => { p with settled := some (outcome, runs) }

namespace HostCalls

def init : HostCalls V E := ⟨0, .empty, [], 0, [], [], [], false⟩

/-! ## The worker -/

def settle (s : HostCalls V E) (promise : Nat) (outcome : HostOutcome V E) : HostCalls V E :=
  { s with promises := s.promises.modify promise (HostPromise.settle s.runs outcome) }

/-- The executor registers the promise before it posts, and a throw inside it rejects. -/
def callHost (s : HostCalls V E) (method : String) (args : List V) (posting : Posting) :
    HostCalls V E :=
  let id := s.hostCallSeq
  let promise := s.promises.length
  let s := { s with
    hostCallSeq := s.hostCallSeq + 1
    promises := s.promises ++ [⟨posting, s.runs, none⟩]
    pendingHostCalls := s.pendingHostCalls.set id promise }
  match posting with
  | .sent => { s with requests := s.requests ++ [⟨id, promise, method, args⟩] }
  | .replaced => s
  | .threw => s.settle promise .postFailed

def resolveHostCall (s : HostCalls V E) (msg : HostResponse V E) : HostCalls V E :=
  match s.pendingHostCalls.get? msg.id with
  | none => s
  | some promise =>
    { s with pendingHostCalls := s.pendingHostCalls.delete msg.id }.settle promise
      (.response msg.promise msg.reply)

def rejectPendingHostCalls (s : HostCalls V E) : HostCalls V E :=
  { s.pendingHostCalls.values.foldl (fun s promise => s.settle promise .runEnded) s with
    pendingHostCalls := .empty }

def finalizeRun (s : HostCalls V E) : HostCalls V E :=
  { s.rejectPendingHostCalls with runs := s.runs + 1 }

/-! ## The main thread -/

/-- The end of `handleHostCallRequest`; a reply that cannot be posted is dropped. -/
def reply (s : HostCalls V E) (msg : HostRequest V) (reply : Except E V) (posted : Bool) :
    HostCalls V E :=
  if s.disposed ∨ posted = false then s
  else { s with responses := s.responses ++ [⟨msg.id, msg.promise, reply⟩] }

def receiveRequest (handlers : HostHandlers E) (s : HostCalls V E) : Option (HostCalls V E) :=
  match s.requests with
  | [] => none
  | msg :: requests =>
    let s := { s with requests := requests }
    some (if handlers.registered msg.method then { s with handling := s.handling ++ [msg] }
      else s.reply msg (.error (handlers.unknownMethod msg.method)) true)

def handlerSettles (s : HostCalls V E) (i : Nat) (outcome : Except E V) (posted : Bool) :
    Option (HostCalls V E) :=
  match s.handling[i]? with
  | none => none
  | some msg => some ({ s with handling := s.handling.eraseIdx i }.reply msg outcome posted)

def receiveResponse (s : HostCalls V E) (i : Nat) : Option (HostCalls V E) :=
  match s.responses[i]? with
  | none => none
  | some msg => some ({ s with responses := s.responses.eraseIdx i }.resolveHostCall msg)

def step (handlers : HostHandlers E) (s : HostCalls V E) :
    HostAction V E → Option (HostCalls V E)
  | .callHost method args posting => some (s.callHost method args posting)
  | .receiveRequest => s.receiveRequest handlers
  | .handlerSettles i outcome posted => s.handlerSettles i outcome posted
  | .receiveResponse i => s.receiveResponse i
  | .finalizeRun => some s.finalizeRun
  | .dispose => some { s with disposed := true }

/-! ## Settlement -/

@[simp] theorem settle_posting (runs : Nat) (o : HostOutcome V E) (c : HostPromise V E) :
    (c.settle runs o).posting = c.posting := by
  unfold HostPromise.settle; split <;> rfl

@[simp] theorem settle_run (runs : Nat) (o : HostOutcome V E) (c : HostPromise V E) :
    (c.settle runs o).run = c.run := by
  unfold HostPromise.settle; split <;> rfl

theorem settle_of_some {c : HostPromise V E} {x : HostOutcome V E × Nat}
    (h : c.settled = some x) (runs : Nat) (o : HostOutcome V E) : c.settle runs o = c := by
  simp [HostPromise.settle, h]

theorem settle_of_none {c : HostPromise V E} (h : c.settled = none) (runs : Nat)
    (o : HostOutcome V E) : (c.settle runs o).settled = some (o, runs) := by
  simp [HostPromise.settle, h]

theorem settle_isSome (c : HostPromise V E) (runs : Nat) (o : HostOutcome V E) :
    (c.settle runs o).settled.isSome = true := by
  cases h : c.settled with
  | none => simp [settle_of_none h]
  | some x => simp [settle_of_some h, h]

theorem settle_promise (s : HostCalls V E) (p : Nat) (o : HostOutcome V E) (q : Nat) :
    (s.settle p o).promises[q]? =
      if p = q then s.promises[q]?.map (HostPromise.settle s.runs o) else s.promises[q]? := by
  simp only [settle, List.getElem?_modify]
  split <;> simp

theorem foldl_settle (o : HostOutcome V E) (ps : List Nat) (s : HostCalls V E) :
    ps.foldl (fun s p => s.settle p o) s =
      { s with promises :=
          ps.foldl (fun l p => l.modify p (HostPromise.settle s.runs o)) s.promises } := by
  induction ps generalizing s with
  | nil => rfl
  | cons p ps ih => exact ih (s.settle p o)

/-- One pass over `ps` settles exactly the promises of `ps`. -/
theorem foldl_modify_settle (runs : Nat) (o : HostOutcome V E) (ps : List Nat)
    (l : List (HostPromise V E)) (q : Nat) :
    (ps.foldl (fun l p => l.modify p (HostPromise.settle runs o)) l)[q]? =
      if q ∈ ps then l[q]?.map (HostPromise.settle runs o) else l[q]? := by
  induction ps generalizing l with
  | nil => simp
  | cons p ps ih =>
    rw [List.foldl_cons, ih, List.getElem?_modify]
    have htwice : ∀ c : HostPromise V E, (c.settle runs o).settle runs o = c.settle runs o := by
      intro c
      obtain ⟨x, hx⟩ := Option.isSome_iff_exists.mp (settle_isSome c runs o)
      exact settle_of_some hx runs o
    by_cases hpq : p = q
    · subst hpq
      by_cases hmem : p ∈ ps
      · cases l[p]? <;> simp [hmem, htwice]
      · simp [hmem]
    · have hqp : ¬ q = p := fun h => hpq h.symm
      simp [hpq, hqp]

theorem foldl_modify_length (f : HostPromise V E → HostPromise V E) (ps : List Nat)
    (l : List (HostPromise V E)) : (ps.foldl (fun l p => l.modify p f) l).length = l.length := by
  induction ps generalizing l with
  | nil => rfl
  | cons p ps ih => simp [ih]

theorem rejectPendingHostCalls_eq (s : HostCalls V E) :
    s.rejectPendingHostCalls =
      { s with
        promises := s.pendingHostCalls.values.foldl
          (fun l p => l.modify p (HostPromise.settle s.runs .runEnded)) s.promises
        pendingHostCalls := .empty } := by
  unfold rejectPendingHostCalls
  rw [foldl_settle]

theorem finalizeRun_promise (s : HostCalls V E) (q : Nat) :
    s.finalizeRun.promises[q]? =
      if q ∈ s.pendingHostCalls.values then
        s.promises[q]?.map (HostPromise.settle s.runs .runEnded)
      else s.promises[q]? := by
  rw [finalizeRun, rejectPendingHostCalls_eq]
  exact foldl_modify_settle _ _ _ _ q

/-! ## The invariant -/

/-- The outcomes that the promise at `p` may settle with. -/
def Proper (p : Nat) (c : HostPromise V E) : HostOutcome V E → Prop
  | .response request _ => request = p ∧ c.posting = .sent
  | .runEnded => c.posting ≠ .threw
  | .postFailed => c.posting = .threw

/-- A message about the request of the promise it names. -/
def Names (s : HostCalls V E) (id promise : Nat) : Prop :=
  id = promise ∧ ∃ c, s.promises[promise]? = some c ∧ c.posting = .sent

structure Inv (s : HostCalls V E) : Prop where
  seq : s.hostCallSeq = s.promises.length
  pending : ∀ id p, s.pendingHostCalls.get? id = some p →
    id = p ∧ ∃ c, s.promises[p]? = some c ∧ c.run = s.runs
  held : ∀ p c, s.promises[p]? = some c → c.settled = none →
    s.pendingHostCalls.get? p = some p ∧ c.posting ≠ .threw
  requests : ∀ r ∈ s.requests, s.Names r.id r.promise
  handling : ∀ r ∈ s.handling, s.Names r.id r.promise
  responses : ∀ r ∈ s.responses, s.Names r.id r.promise
  settled : ∀ p c o n, s.promises[p]? = some c → c.settled = some (o, n) →
    n = c.run ∧ Proper p c o

theorem inv_init : Inv (init : HostCalls V E) := by
  refine ⟨rfl, ?_, ?_, ?_, ?_, ?_, ?_⟩ <;> simp [init]

/-- Promises of `s` keep their place and what is fixed about them, and a settled one stays. -/
def Grows (s t : HostCalls V E) : Prop :=
  ∀ (p : Nat) (c : HostPromise V E), s.promises[p]? = some c →
    ∃ d, t.promises[p]? = some d ∧ d.posting = c.posting ∧ d.run = c.run ∧
      (c.settled.isSome = true → d = c)

theorem Grows.refl (s : HostCalls V E) : Grows s s := fun _ c h => ⟨c, h, rfl, rfl, fun _ => rfl⟩

theorem Grows.trans {s t r : HostCalls V E} (h : Grows s t) (h' : Grows t r) : Grows s r := by
  intro p c hc
  obtain ⟨d, hd, hpd, hrd, hsd⟩ := h p c hc
  obtain ⟨e, he, hpe, hre, hse⟩ := h' p d hd
  refine ⟨e, he, hpe.trans hpd, hre.trans hrd, fun hs => ?_⟩
  have hdc := hsd hs
  subst hdc
  exact hse hs

theorem Grows.names {s t : HostCalls V E} (h : Grows s t) {id p : Nat} (hn : s.Names id p) :
    t.Names id p := by
  obtain ⟨hid, c, hc, hp⟩ := hn
  obtain ⟨d, hd, hpd, -⟩ := h p c hc
  exact ⟨hid, d, hd, hpd.trans hp⟩

theorem grows_append {s t : HostCalls V E} {c : HostPromise V E}
    (h : t.promises = s.promises ++ [c]) : Grows s t := by
  intro p d hd
  refine ⟨d, ?_, rfl, rfl, fun _ => rfl⟩
  rw [h]
  exact getElem?_snoc_of_some hd

theorem grows_settled {s t : HostCalls V E} (o : HostOutcome V E) (runs : Nat)
    (h : ∀ p : Nat, t.promises[p]? = s.promises[p]? ∨
      t.promises[p]? = s.promises[p]?.map (HostPromise.settle runs o)) : Grows s t := by
  intro p c hc
  rcases h p with hp | hp
  · exact ⟨c, hp.trans hc, rfl, rfl, fun _ => rfl⟩
  · refine ⟨c.settle runs o, by simp [hp, hc], settle_posting _ _ _, settle_run _ _ _, ?_⟩
    intro hs
    obtain ⟨x, hx⟩ := Option.isSome_iff_exists.mp hs
    exact settle_of_some hx _ _

/-! ## Every step keeps it -/

/-- A new promise under the next id, which no message names yet. -/
theorem inv_push {s : HostCalls V E} (h : Inv s) (c : HostPromise V E) (hrun : c.run = s.runs)
    (hheld : c.settled = none → c.posting ≠ .threw)
    (hsettled : ∀ o n, c.settled = some (o, n) → n = c.run ∧ Proper s.promises.length c o) :
    Inv { s with
      hostCallSeq := s.hostCallSeq + 1
      promises := s.promises ++ [c]
      pendingHostCalls := s.pendingHostCalls.set s.hostCallSeq s.promises.length } := by
  have hgrow : Grows s { s with
      hostCallSeq := s.hostCallSeq + 1
      promises := s.promises ++ [c]
      pendingHostCalls := s.pendingHostCalls.set s.hostCallSeq s.promises.length } :=
    grows_append rfl
  have hlook : ∀ (p : Nat) (d : HostPromise V E), (s.promises ++ [c])[p]? = some d →
      s.promises[p]? = some d ∨ (p = s.promises.length ∧ d = c) :=
    fun _ _ hd => getElem?_snoc_cases hd
  refine ⟨?_, ?_, ?_, ?_, ?_, ?_, ?_⟩
  · simp [h.seq]
  · intro id p hp
    rw [OrderedMap.get?_set] at hp
    split at hp
    · rename_i hid
      cases hp
      exact ⟨hid.trans h.seq, c, by simp, hrun⟩
    · obtain ⟨hid, d, hd, hr⟩ := h.pending id p hp
      obtain ⟨e, he, -, hre, -⟩ := hgrow p d hd
      exact ⟨hid, e, he, hre.trans hr⟩
  · intro p d hd hnone
    rcases hlook p d hd with hold | ⟨rfl, rfl⟩
    · obtain ⟨hget, hpost⟩ := h.held p d hold hnone
      refine ⟨?_, hpost⟩
      have hlt : p < s.promises.length := (List.getElem?_eq_some_iff.mp hold).1
      rw [OrderedMap.get?_set_of_ne _ _ _ (by rw [h.seq]; omega)]
      exact hget
    · exact ⟨by rw [h.seq]; simp, hheld hnone⟩
  · exact fun r hr => hgrow.names (h.requests r hr)
  · exact fun r hr => hgrow.names (h.handling r hr)
  · exact fun r hr => hgrow.names (h.responses r hr)
  · intro p d o n hd hs
    rcases hlook p d hd with hold | ⟨rfl, rfl⟩
    · exact h.settled p d o n hold hs
    · exact hsettled o n hs

theorem modify_append_singleton (l : List (HostPromise V E)) (c : HostPromise V E)
    (f : HostPromise V E → HostPromise V E) : (l ++ [c]).modify l.length f = l ++ [f c] := by
  induction l with
  | nil => rfl
  | cons d l ih => simpa using ih

theorem inv_callHost {s : HostCalls V E} (h : Inv s) (method : String) (args : List V)
    (posting : Posting) :
    Inv (s.callHost method args posting) ∧ Grows s (s.callHost method args posting) := by
  cases posting with
  | sent =>
    have hpush := inv_push h ⟨.sent, s.runs, none⟩ rfl (by simp) (by simp)
    refine ⟨{ hpush with requests := fun r hr => ?_ }, grows_append rfl⟩
    rcases List.mem_append.mp hr with hr | hr
    · exact hpush.requests r hr
    · rw [List.mem_singleton.mp hr]
      exact ⟨h.seq, ⟨.sent, s.runs, none⟩, by simp [callHost], rfl⟩
  | replaced =>
    exact ⟨inv_push h ⟨.replaced, s.runs, none⟩ rfl (by simp) (by simp), grows_append rfl⟩
  | threw =>
    have heq : s.callHost method args .threw =
        { s with
          hostCallSeq := s.hostCallSeq + 1
          promises := s.promises ++ [⟨.threw, s.runs, some (.postFailed, s.runs)⟩]
          pendingHostCalls := s.pendingHostCalls.set s.hostCallSeq s.promises.length } := by
      simp only [callHost, settle]
      rw [modify_append_singleton]
      rfl
    rw [heq]
    refine ⟨inv_push h _ rfl (by simp) ?_, grows_append rfl⟩
    intro o n hs
    cases hs
    exact ⟨rfl, rfl⟩

theorem inv_reply {s : HostCalls V E} (h : Inv s) {msg : HostRequest V}
    (hmsg : s.Names msg.id msg.promise) (outcome : Except E V) (posted : Bool) :
    Inv (s.reply msg outcome posted) ∧ Grows s (s.reply msg outcome posted) := by
  unfold reply
  split
  · exact ⟨h, Grows.refl s⟩
  · refine ⟨{ h with responses := fun r hr => ?_ }, Grows.refl s⟩
    rcases List.mem_append.mp hr with hr | hr
    · exact h.responses r hr
    · rw [List.mem_singleton.mp hr]
      exact hmsg

theorem inv_receiveRequest {s t : HostCalls V E} {handlers : HostHandlers E} (h : Inv s)
    (hs : s.receiveRequest handlers = some t) : Inv t ∧ Grows s t := by
  unfold receiveRequest at hs
  split at hs
  · cases hs
  · rename_i msg requests hreq
    have hmsg : s.Names msg.id msg.promise := h.requests msg (by simp [hreq])
    have hpop : Inv { s with requests := requests } :=
      { h with requests := fun r hr => h.requests r (by simp [hreq, hr]) }
    cases hs
    split
    · refine ⟨{ hpop with handling := fun r hr => ?_ }, Grows.refl s⟩
      rcases List.mem_append.mp hr with hr | hr
      · exact h.handling r hr
      · rw [List.mem_singleton.mp hr]
        exact hmsg
    · exact inv_reply hpop hmsg _ true

theorem inv_handlerSettles {s t : HostCalls V E} {i : Nat} {outcome : Except E V} {posted : Bool}
    (h : Inv s) (hs : s.handlerSettles i outcome posted = some t) : Inv t ∧ Grows s t := by
  unfold handlerSettles at hs
  split at hs
  · cases hs
  · rename_i msg hi
    cases hs
    have hpop : Inv { s with handling := s.handling.eraseIdx i } :=
      { h with handling := fun r hr => h.handling r (List.mem_of_mem_eraseIdx hr) }
    exact inv_reply hpop (h.handling msg (List.mem_of_getElem? hi)) outcome posted

/-- A change of `s` that only settles promises which the pending map holds. -/
structure Settles (o : HostOutcome V E) (s t : HostCalls V E) : Prop where
  seq : t.hostCallSeq = s.hostCallSeq
  length : t.promises.length = s.promises.length
  look : ∀ q : Nat, t.promises[q]? = s.promises[q]? ∨
    (t.promises[q]? = s.promises[q]?.map (HostPromise.settle s.runs o) ∧
      s.pendingHostCalls.get? q = some q ∧
      ∀ c, s.promises[q]? = some c → c.settled = none → Proper q c o)
  pending : ∀ id p, t.pendingHostCalls.get? id = some p →
    s.pendingHostCalls.get? id = some p ∧ t.runs = s.runs
  held : ∀ (q : Nat) (c : HostPromise V E), t.promises[q]? = some c → c.settled = none →
    t.pendingHostCalls.get? q = some q
  requests : t.requests = s.requests
  handling : t.handling = s.handling
  responses : t.responses = s.responses

theorem Settles.grows {o : HostOutcome V E} {s t : HostCalls V E} (h : Settles o s t) :
    Grows s t := by
  apply grows_settled o s.runs
  intro q
  rcases h.look q with hq | ⟨hq, -⟩
  · exact Or.inl hq
  · exact Or.inr hq

theorem Settles.inv {o : HostOutcome V E} {s t : HostCalls V E} (hs : Settles o s t)
    (h : Inv s) : Inv t := by
  have hgrow := hs.grows
  have hback : ∀ (q : Nat) (d : HostPromise V E), t.promises[q]? = some d →
      s.promises[q]? = some d ∨ ∃ c, s.promises[q]? = some c ∧ d = c.settle s.runs o ∧
        c.run = s.runs ∧ (c.settled = none → Proper q c o) := by
    intro q d hd
    rcases hs.look q with hq | ⟨hq, hget, hproper⟩
    · exact Or.inl (hq ▸ hd)
    · rw [hq] at hd
      obtain ⟨c, hc, rfl⟩ := Option.map_eq_some_iff.mp hd
      obtain ⟨-, e, he, hrun⟩ := h.pending q q hget
      rw [hc] at he
      cases he
      exact Or.inr ⟨c, hc, rfl, hrun, hproper c hc⟩
  refine ⟨?_, ?_, ?_, ?_, ?_, ?_, ?_⟩
  · rw [hs.seq, hs.length, h.seq]
  · intro id p hp
    obtain ⟨hold, hruns⟩ := hs.pending id p hp
    obtain ⟨hid, c, hc, hrun⟩ := h.pending id p hold
    obtain ⟨d, hd, -, hrd, -⟩ := hgrow p c hc
    exact ⟨hid, d, hd, (hrd.trans hrun).trans hruns.symm⟩
  · intro q d hd hnone
    refine ⟨hs.held q d hd hnone, ?_⟩
    rcases hback q d hd with hold | ⟨c, -, rfl, -, -⟩
    · exact (h.held q d hold hnone).2
    · have := settle_isSome c s.runs o
      simp [hnone] at this
  · rw [hs.requests]
    exact fun r hr => hgrow.names (h.requests r hr)
  · rw [hs.handling]
    exact fun r hr => hgrow.names (h.handling r hr)
  · rw [hs.responses]
    exact fun r hr => hgrow.names (h.responses r hr)
  · intro q d out n hd hset
    rcases hback q d hd with hold | ⟨c, hc, rfl, hrun, hproper⟩
    · exact h.settled q d out n hold hset
    · cases hnone : c.settled with
      | some x =>
        rw [settle_of_some hnone] at hset ⊢
        exact h.settled q c out n hc hset
      | none =>
        rw [settle_of_none hnone] at hset
        cases hset
        refine ⟨by rw [settle_run, hrun], ?_⟩
        have hp := hproper hnone
        cases o <;> simpa [Proper] using hp

/-- A response settles the promise of its own request, during the run that made the call. -/
theorem settles_resolveHostCall {s : HostCalls V E} (h : Inv s) {msg : HostResponse V E}
    (hmsg : s.Names msg.id msg.promise) (p : Nat)
    (hget : s.pendingHostCalls.get? msg.id = some p) :
    Settles (.response msg.promise msg.reply) s
      ({ s with pendingHostCalls := s.pendingHostCalls.delete msg.id }.settle p
        (.response msg.promise msg.reply)) := by
  obtain ⟨hid, c, hc, hrun⟩ := h.pending _ p hget
  obtain ⟨hname, d, hd, hposted⟩ := hmsg
  have hp : msg.promise = p := hname.symm.trans hid
  rw [hp, hc] at hd
  cases hd
  refine ⟨rfl, by simp [settle], fun q => ?_, fun id q hq => ?_, fun q e he hnone => ?_, rfl, rfl,
    rfl⟩
  · rw [settle_promise]
    split
    · rename_i hpq
      subst hpq
      refine Or.inr ⟨rfl, hid ▸ hget, fun e he _ => ?_⟩
      rw [hc] at he
      cases he
      exact ⟨hp, hposted⟩
    · exact Or.inl rfl
  · refine ⟨?_, rfl⟩
    simp only [settle] at hq
    rw [OrderedMap.get?_delete] at hq
    split at hq
    · cases hq
    · exact hq
  · rw [settle_promise] at he
    split at he
    · rename_i hpq
      obtain ⟨e', -, rfl⟩ := Option.map_eq_some_iff.mp he
      have := settle_isSome e' s.runs (.response msg.promise msg.reply)
      simp [hnone] at this
    · rename_i hpq
      simp only [settle]
      rw [OrderedMap.get?_delete_of_ne _ (by rw [hid]; exact fun hqp => hpq hqp.symm)]
      exact (h.held q e he hnone).1

theorem inv_resolveHostCall {s : HostCalls V E} (h : Inv s) {msg : HostResponse V E}
    (hmsg : s.Names msg.id msg.promise) :
    Inv (s.resolveHostCall msg) ∧ Grows s (s.resolveHostCall msg) := by
  unfold resolveHostCall
  split
  · exact ⟨h, Grows.refl s⟩
  · rename_i p hget
    have hset := settles_resolveHostCall h hmsg p hget
    exact ⟨hset.inv h, hset.grows⟩

theorem inv_receiveResponse {s t : HostCalls V E} {i : Nat} (h : Inv s)
    (hs : s.receiveResponse i = some t) : Inv t ∧ Grows s t := by
  unfold receiveResponse at hs
  split at hs
  · cases hs
  · rename_i msg hi
    cases hs
    have hpop : Inv { s with responses := s.responses.eraseIdx i } :=
      { h with responses := fun r hr => h.responses r (List.mem_of_mem_eraseIdx hr) }
    exact inv_resolveHostCall hpop (h.responses msg (List.mem_of_getElem? hi))

theorem values_iff_held {s : HostCalls V E} (h : Inv s) (q : Nat) :
    q ∈ s.pendingHostCalls.values ↔ s.pendingHostCalls.get? q = some q := by
  constructor
  · intro hq
    obtain ⟨⟨id, p⟩, he, rfl⟩ := List.mem_map.mp hq
    have hget := (OrderedMap.get?_eq_some_iff _ _ _).mpr he
    have hid := (h.pending id p hget).1
    subst hid
    exact hget
  · intro hq
    exact List.mem_map.mpr ⟨(q, q), (OrderedMap.get?_eq_some_iff _ _ _).mp hq, rfl⟩

theorem finalizeRun_settled {s : HostCalls V E} (h : Inv s) {q : Nat} {c : HostPromise V E}
    (hc : s.finalizeRun.promises[q]? = some c) : c.settled.isSome = true := by
  rw [finalizeRun_promise] at hc
  split at hc
  · obtain ⟨d, -, rfl⟩ := Option.map_eq_some_iff.mp hc
    exact settle_isSome d _ _
  · rename_i hq
    by_contra hne
    have hnone : c.settled = none := by simpa using hne
    exact hq ((values_iff_held h q).mpr (h.held q c hc hnone).1)

theorem settles_finalizeRun {s : HostCalls V E} (h : Inv s) : Settles .runEnded s s.finalizeRun := by
  have heq := rejectPendingHostCalls_eq s
  refine ⟨?_, ?_, fun q => ?_, fun id p hp => ?_, fun q c hc hnone => ?_, ?_, ?_, ?_⟩
  · simp [finalizeRun, heq]
  · simp [finalizeRun, heq, foldl_modify_length]
  · rw [finalizeRun_promise]
    split
    · rename_i hq
      have hget := (values_iff_held h q).mp hq
      exact Or.inr ⟨rfl, hget, fun c hc hnone => (h.held q c hc hnone).2⟩
    · exact Or.inl rfl
  · simp [finalizeRun, heq] at hp
  · have := finalizeRun_settled h hc
    simp [hnone] at this
  · simp [finalizeRun, heq]
  · simp [finalizeRun, heq]
  · simp [finalizeRun, heq]

theorem step_inv {handlers : HostHandlers E} {s t : HostCalls V E} {a : HostAction V E}
    (h : Inv s) (hs : s.step handlers a = some t) : Inv t ∧ Grows s t := by
  cases a with
  | callHost method args posting =>
    cases hs
    exact inv_callHost h method args posting
  | receiveRequest => exact inv_receiveRequest h hs
  | handlerSettles i outcome posted => exact inv_handlerSettles h hs
  | receiveResponse i => exact inv_receiveResponse h hs
  | finalizeRun =>
    cases hs
    exact ⟨(settles_finalizeRun h).inv h, (settles_finalizeRun h).grows⟩
  | dispose =>
    cases hs
    exact ⟨{ h with }, Grows.refl s⟩

/-! ## Runs -/

/-- What holds of the channel in every state: an outcome is the reply to the call's own request,
the run-end rejection or the failed post, and it comes in the run of the call; every call of an
ended run has settled; the next run end leaves nothing pending; and a response to a call of an
ended run settles nothing. -/
structure Sound (s : HostCalls V E) : Prop where
  own : ∀ (p : Nat) (c : HostPromise V E) o n, s.promises[p]? = some c → c.settled = some (o, n) → n = c.run ∧ Proper p c o
  ended : ∀ (p : Nat) (c : HostPromise V E), s.promises[p]? = some c → c.run < s.runs → c.settled.isSome = true
  cleared : s.finalizeRun.pendingHostCalls.size = 0 ∧
    ∀ c ∈ s.finalizeRun.promises, c.settled.isSome = true
  late : ∀ (i : Nat) msg c t, s.responses[i]? = some msg → s.promises[msg.promise]? = some c →
    c.run < s.runs → s.receiveResponse i = some t → t.promises = s.promises

theorem Inv.ended {s : HostCalls V E} (h : Inv s) {p : Nat} {c : HostPromise V E}
    (hc : s.promises[p]? = some c) (hrun : c.run < s.runs) :
    s.pendingHostCalls.get? p = none := by
  cases hget : s.pendingHostCalls.get? p with
  | none => rfl
  | some q =>
    obtain ⟨rfl, d, hd, hr⟩ := h.pending p q hget
    rw [hc] at hd
    cases hd
    omega

theorem Inv.sound {s : HostCalls V E} (h : Inv s) : Sound s where
  own := h.settled
  ended := by
    intro p c hc hrun
    by_contra hne
    have hheld := (h.held p c hc (by simpa using hne)).1
    rw [h.ended hc hrun] at hheld
    cases hheld
  cleared := by
    refine ⟨by simp [finalizeRun, rejectPendingHostCalls_eq, OrderedMap.size], fun c hc => ?_⟩
    obtain ⟨q, hq⟩ := List.mem_iff_getElem?.mp hc
    exact finalizeRun_settled h hq
  late := by
    intro i msg c t hi hc hrun ht
    obtain ⟨hname, -⟩ := h.responses msg (List.mem_of_getElem? hi)
    have hnone : s.pendingHostCalls.get? msg.id = none := by
      rw [hname]
      exact h.ended hc hrun
    simp only [receiveResponse, hi, resolveHostCall, hnone] at ht
    cases ht
    rfl

theorem exec_inv {handlers : HostHandlers E} {as : List (HostAction V E)} {s : HostCalls V E}
    (h : exec (step handlers) init as = some s) : Inv s :=
  exec_invariant (fun _ _ _ hi hs => (step_inv hi hs).1) inv_init h

theorem exec_grows {handlers : HostHandlers E} {as : List (HostAction V E)} {s t : HostCalls V E}
    (hs : Inv s) (h : exec (step handlers) s as = some t) : Grows s t :=
  (exec_invariant (fun _ _ _ (hi : Inv _ ∧ Grows s _) ha =>
    ⟨(step_inv hi.1 ha).1, hi.2.trans (step_inv hi.1 ha).2⟩) ⟨hs, Grows.refl s⟩ h).2

/-- Each host call settles once: with the reply to its own request, at the end of its run, or with
the error of its post. -/
theorem hostCall_settles_once (handlers : HostHandlers E) (as bs : List (HostAction V E))
    (s t : HostCalls V E) (hs : exec (step handlers) init as = some s)
    (ht : exec (step handlers) s bs = some t) :
    Sound s ∧ ∀ (p : Nat) (c : HostPromise V E), s.promises[p]? = some c →
      c.settled.isSome = true → t.promises[p]? = some c := by
  have hinv := exec_inv hs
  refine ⟨hinv.sound, fun p c hc hsome => ?_⟩
  obtain ⟨d, hd, -, -, hsame⟩ := exec_grows hinv ht p c hc
  rw [hd, hsame hsome]

/-- A response that arrives after its run has ended, beside one call of the next run. -/
def lateResponse : List (HostAction Nat String) :=
  [.callHost "queue.get" [1] .sent, .receiveRequest, .finalizeRun, .callHost "queue.get" [2] .sent,
    .handlerSettles 0 (.ok 7) true, .receiveResponse 0]

theorem hostCall_settles_once_lateResponse :
    ∃ s : HostCalls Nat String,
      exec (step ⟨fun _ => true, id⟩) init lateResponse = some s ∧
        (s.promises.map fun c => c.settled.isSome) = [true, false] ∧ Sound s ∧
        ∀ (p : Nat) (c : HostPromise Nat String), s.promises[p]? = some c →
          c.settled.isSome = true → s.promises[p]? = some c :=
  ⟨_, rfl, rfl, hostCall_settles_once ⟨fun _ => true, id⟩ lateResponse [] _ _ rfl rfl⟩

/-- An argument that cannot be cloned: the promise settles with the error of its post. -/
theorem hostCall_settles_with_postFailed :
    ¬ ∀ (as : List (HostAction Nat String)) (s : HostCalls Nat String),
      exec (step ⟨fun _ => true, id⟩) init as = some s →
      ∀ (p : Nat) c o n, s.promises[p]? = some c → c.settled = some (o, n) →
        (∃ reply, o = .response p reply) ∨ o = .runEnded := by
  intro h
  rcases h [.callHost "queue.put" [1] .threw] _ rfl 0 _ .postFailed 0 rfl rfl with ⟨_, hx⟩ | hx
  · cases hx
  · cases hx

end HostCalls

end WorkflowEngine.Sandbox
