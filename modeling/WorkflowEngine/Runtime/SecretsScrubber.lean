import WorkflowEngine.Lib.Text
import WorkflowEngine.Sandbox.Protocol
import WorkflowEngine.Runtime.EventStore

/-!
# The outbound scrubber of the secrets plugin

Model of `scrubString` and `onPost` in `plugins/secrets.ts`. The scrubber walks
every string of a worker-to-main message, the protocol's own words included, so
a plaintext that occurs in one of them changes how the main thread reads the
message. Payload values are opaque; how strings inside them are walked is a
parameter.
-/

namespace WorkflowEngine.Runtime

open Lib Sandbox
set_option autoImplicit false

universe u
variable {V : Type u}

def scrubString (plaintexts : List String) (s : String) : String :=
  String.ofList (replaceEach "[secret]".toList (plaintexts.map String.toList) s.toList)

/-- No plaintext occurs in `s`. -/
def Intact (plaintexts : List String) (s : String) : Prop :=
  ∀ p ∈ plaintexts, p ≠ "" → includes p.toList s.toList = false

instance (plaintexts : List String) (s : String) : Decidable (Intact plaintexts s) :=
  inferInstanceAs (Decidable (∀ p ∈ plaintexts, _))

theorem Intact.mono {ps qs : List String} (h : ps ⊆ qs) {s : String} (hs : Intact qs s) :
    Intact ps s := fun p hp => hs p (h hp)

theorem toList_ne_nil_iff (p : String) : p.toList ≠ [] ↔ p ≠ "" := by
  rw [ne_eq, ne_eq, String.toList_eq_nil_iff]

theorem scrubString_cases (plaintexts : List String) (s : String) :
    (scrubString plaintexts s = s ∧ Intact plaintexts s) ∨
    ('[' ∈ (scrubString plaintexts s).toList ∧ ¬ Intact plaintexts s) := by
  have hmark : '[' ∈ "[secret]".toList := by decide
  rcases replaceEach_cases hmark (plaintexts.map String.toList) s.toList with
    ⟨heq, hall⟩ | ⟨hmem, p, hp, hne, hinc⟩
  · refine Or.inl ⟨by rw [scrubString, heq, String.ofList_toList], ?_⟩
    intro p hp hne
    exact hall p.toList (List.mem_map_of_mem hp) ((toList_ne_nil_iff p).mpr hne)
  · obtain ⟨q, hq, rfl⟩ := List.mem_map.mp hp
    refine Or.inr ⟨by rw [scrubString, String.toList_ofList]; exact hmem, ?_⟩
    intro hintact
    rw [hintact q hq ((toList_ne_nil_iff q).mp hne)] at hinc
    cases hinc

theorem scrubString_of_intact {plaintexts : List String} {s : String} (h : Intact plaintexts s) :
    scrubString plaintexts s = s := by
  rcases scrubString_cases plaintexts s with hs | hs
  · exact hs.1
  · exact absurd h hs.2

/-- A word of the protocol survives the scrubber only if no plaintext occurs in it. -/
theorem scrubString_eq_iff (plaintexts : List String) (s : String) (hs : '[' ∉ s.toList) :
    scrubString plaintexts s = s ↔ Intact plaintexts s := by
  refine ⟨?_, scrubString_of_intact⟩
  intro heq
  rcases scrubString_cases plaintexts s with h | h
  · exact h.2
  · rw [heq] at h
    exact absurd h.1 hs

theorem no_mark_of_isTerminal {kind : String} (h : isTerminal kind = true) : '[' ∉ kind.toList := by
  have hall : ∀ k ∈ terminalKinds, '[' ∉ k.toList := by decide
  exact hall kind (by simpa [isTerminal] using h)

/-- Scrubbing never turns another kind into a terminal one. -/
theorem isTerminal_scrubString (plaintexts : List String) (kind : String) :
    isTerminal (scrubString plaintexts kind) = true ↔
      isTerminal kind = true ∧ Intact plaintexts kind := by
  rcases scrubString_cases plaintexts kind with ⟨heq, hintact⟩ | ⟨hmark, hnot⟩
  · simp [heq, hintact]
  · refine ⟨fun h => absurd hmark (no_mark_of_isTerminal h), fun h => absurd h.2 hnot⟩

/-- How the payload values are walked and built. -/
structure PayloadOps (V : Type u) where
  walkStrings : (String → String) → V → V
  timerId : Nat → V

def scrubError (ops : PayloadOps V) (plaintexts : List String) (e : EventError V) : EventError V where
  message := scrubString plaintexts e.message
  stack := e.stack.map (scrubString plaintexts)
  issues := e.issues.map (ops.walkStrings (scrubString plaintexts))
  kind := e.kind.map (scrubString plaintexts)

def scrubEvent (ops : PayloadOps V) (plaintexts : List String) (wire : WireEvent V) : WireEvent V where
  kind := scrubString plaintexts wire.kind
  name := scrubString plaintexts wire.name
  ts := wire.ts
  atIso := scrubString plaintexts wire.atIso
  input := wire.input.map (ops.walkStrings (scrubString plaintexts))
  output := wire.output.map (ops.walkStrings (scrubString plaintexts))
  error := wire.error.map (scrubError ops plaintexts)
  type := wire.type

/-- The event that `sequencer.next` sees for a posted one. A message whose `type` is no longer
`"event"` is ignored; a leaf whose framing is no longer `"leaf"` makes `next` throw. -/
def onPost (ops : PayloadOps V) (plaintexts : List String) (wire : WireEvent V) :
    Option (WireEvent V) :=
  if plaintexts = [] then some wire
  else if scrubString plaintexts "event" ≠ "event" then none
  else if wire.type = .leaf ∧ scrubString plaintexts "leaf" ≠ "leaf" then none
  else some (scrubEvent ops plaintexts wire)

theorem intact_nil (s : String) : Intact [] s := by simp [Intact]

theorem onPost_eq_none_iff (ops : PayloadOps V) (plaintexts : List String) (wire : WireEvent V) :
    onPost ops plaintexts wire = none ↔
      ¬ Intact plaintexts "event" ∨ (wire.type = .leaf ∧ ¬ Intact plaintexts "leaf") := by
  have hevent := scrubString_eq_iff plaintexts "event" (by decide)
  have hleaf := scrubString_eq_iff plaintexts "leaf" (by decide)
  unfold onPost
  split
  · rename_i hnil
    simp [hnil, intact_nil]
  · rw [← hevent, ← hleaf]
    split
    · rename_i h
      simp [h]
    · rename_i h
      split
      · rename_i h'
        simp [h']
      · rename_i h'
        simp only [reduceCtorEq, false_iff, not_or]
        exact ⟨h, h'⟩

theorem onPost_type {ops : PayloadOps V} {plaintexts : List String} {wire posted : WireEvent V}
    (h : onPost ops plaintexts wire = some posted) :
    posted.type = wire.type ∧ posted.kind = scrubString plaintexts wire.kind := by
  unfold onPost at h
  split at h
  · rename_i hnil
    cases h
    refine ⟨rfl, ?_⟩
    rw [hnil, scrubString_of_intact (intact_nil _)]
  · split at h
    · cases h
    · split at h
      · cases h
      · cases h
        exact ⟨rfl, rfl⟩

end WorkflowEngine.Runtime
