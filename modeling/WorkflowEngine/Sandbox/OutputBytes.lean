import WorkflowEngine.Lib.JsValue
import WorkflowEngine.Sandbox.Protocol
import Mathlib.Data.List.Induction

/-!
# The output-bytes counter of the worker

Model of `accountForOutput` in `worker.ts` and of the output half of
`limit-counters.ts`: what each event message is charged, and which of the events
of one run cross the channel. The other messages bypass the counter. A breach
drops the event and ends the worker in a later microtask, so events that the
same task still posts are counted on.
-/

namespace WorkflowEngine.Sandbox

open Lib
set_option autoImplicit false

/-! ## An event as a JavaScript object -/

def jsString (key : String) : Option String → List (String × JsValue)
  | none => []
  | some s => [(key, .string s)]

def jsField (key : String) : Option JsValue → List (String × JsValue)
  | none => []
  | some v => [(key, v)]

def EventError.toJs (e : EventError JsValue) : JsValue :=
  .object ([("message", .string e.message)] ++ jsString "stack" e.stack ++ jsField "issues" e.issues ++
    jsString "kind" e.kind)

def WireFraming.toJs : WireFraming → JsValue
  | .leaf => .string "leaf"
  | .openCall callId => .object [("open", .number (.ofNat callId))]
  | .closeCall callId => .object [("close", .number (.ofNat callId))]

def WireEvent.toJs (w : WireEvent JsValue) : JsValue :=
  .object ([("kind", .string w.kind), ("name", .string w.name), ("at", .string w.atIso),
    ("ts", .number (.ofInt w.ts)), ("type", w.type.toJs)] ++ jsField "input" w.input ++
    jsField "output" w.output ++ jsField "error" (w.error.map (·.toJs)))

/-- The payload of an event has neither a bigint nor a cycle. -/
def EventInfo.plain (e : EventInfo JsValue) : Bool :=
  e.input.all (·.plain) && e.output.all (·.plain) && e.error.all fun error => error.issues.all (·.plain)

theorem plainFields_jsField (key : String) (v : Option JsValue) :
    plainFields (jsField key v) = v.all (·.plain) := by
  cases v <;> simp [jsField, plainFields]

theorem plainFields_jsString (key : String) (s : Option String) : plainFields (jsString key s) = true := by
  cases s <;> rfl

theorem plain_errorToJs (e : EventError JsValue) : e.toJs.plain = e.issues.all (·.plain) := by
  simp [EventError.toJs, JsValue.plain, plainFields_append, plainFields_jsField, plainFields_jsString,
    plainFields]

theorem plain_toJs (w : WireEvent JsValue) : w.toJs.plain = w.plain := by
  have htype : w.type.toJs.plain = true := by cases w.type <;> rfl
  have herror : (w.error.map (·.toJs)).all (·.plain) = w.error.all fun e => e.issues.all (·.plain) := by
    cases w.error <;> simp [plain_errorToJs]
  simp [WireEvent.toJs, JsValue.plain, plainFields_append, plainFields_jsField, plainFields, htype,
    herror, EventInfo.plain, Bool.and_assoc]

/-! ## The counter -/

/-- `text.length` of a JavaScript string, in UTF-16 code units. -/
def utf16Length (text : List Char) : Nat :=
  (text.map fun c => if c.toNat < 65536 then 1 else 2).sum

structure OutputCounter where
  limit : Nat
  used : Nat

/-- The counter and whether the message may cross; `observed` is reported by the limit error. -/
def accountOutputBytes (c : OutputCounter) (size : Nat) : OutputCounter × Bool :=
  if c.used + size > c.limit then (c, false) else ({ c with used := c.used + size }, true)

/-- The size that `accountForOutput` measures: an event that `JSON.stringify` rejects counts nothing. -/
def outputCharge (w : WireEvent JsValue) : Nat :=
  match stringify w.toJs with
  | .ok (some text) => utf16Length text
  | _ => 0

/-- The output of one run: the counter, the events that reached main, the observed breaches. -/
structure OutputRun where
  counter : OutputCounter
  reached : List (WireEvent JsValue)
  breaches : List Nat

/-- `resetRunCounters` at the start of the run. -/
def OutputRun.start (outputBytes : Nat) : OutputRun := ⟨⟨outputBytes, 0⟩, [], []⟩

def OutputRun.post (r : OutputRun) (w : WireEvent JsValue) : OutputRun :=
  let size := outputCharge w
  let accounted := accountOutputBytes r.counter size
  if accounted.2 then { r with counter := accounted.1, reached := r.reached ++ [w] }
  else { r with counter := accounted.1, breaches := r.breaches ++ [r.counter.used + size] }

def outputRun (outputBytes : Nat) (posted : List (WireEvent JsValue)) : OutputRun :=
  posted.foldl OutputRun.post (OutputRun.start outputBytes)

/-! ## What it bounds -/

/-- What the charges of the events that reached main add up to. -/
structure OutputRun.Counted (r : OutputRun) (posted : List (WireEvent JsValue)) (outputBytes : Nat) :
    Prop where
  limit : r.counter.limit = outputBytes
  used : r.counter.used = (r.reached.map outputCharge).sum
  within : r.counter.used ≤ outputBytes
  posted : r.reached ⊆ posted

theorem OutputRun.Counted.post {r : OutputRun} {posted : List (WireEvent JsValue)} {outputBytes : Nat}
    (h : r.Counted posted outputBytes) (w : WireEvent JsValue) :
    (r.post w).Counted (posted ++ [w]) outputBytes := by
  have hsub : r.reached ⊆ posted ++ [w] := fun x hx => List.mem_append_left _ (h.posted hx)
  by_cases hgt : r.counter.used + outputCharge w > r.counter.limit
  · have hpost : r.post w =
        { r with breaches := r.breaches ++ [r.counter.used + outputCharge w] } := by
      simp [OutputRun.post, accountOutputBytes, hgt]
    rw [hpost]
    exact ⟨h.limit, h.used, h.within, hsub⟩
  · have hpost : r.post w =
        { r with
          counter := { r.counter with used := r.counter.used + outputCharge w }
          reached := r.reached ++ [w] } := by
      simp [OutputRun.post, accountOutputBytes, hgt]
    rw [hpost]
    rw [h.limit] at hgt
    refine ⟨h.limit, by simp [h.used], by simpa using hgt, ?_⟩
    intro x hx
    rcases List.mem_append.mp hx with hx | hx
    · exact hsub hx
    · exact List.mem_append_right _ hx

theorem counted_outputRun (outputBytes : Nat) (posted : List (WireEvent JsValue)) :
    (outputRun outputBytes posted).Counted posted outputBytes := by
  induction posted using List.reverseRecOn with
  | nil => exact ⟨rfl, rfl, Nat.zero_le _, List.Subset.refl _⟩
  | append_singleton posted w ih =>
    rw [outputRun, List.foldl_append]
    exact ih.post w

end WorkflowEngine.Sandbox
