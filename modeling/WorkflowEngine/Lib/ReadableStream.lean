import Mathlib.Data.List.Basic

/-!
# Readable streams

A stream of the Streams standard as its readers see it: the chunks that are still to come,
whether any reader has read, and who holds the one lock.
-/

namespace WorkflowEngine.Lib

set_option autoImplicit false

universe u

inductive Lock where
  | free
  /-- A reader that can be released. -/
  | held
  /-- A reader that nobody can reach any more. -/
  | kept
  deriving DecidableEq

structure ReadableStream (α : Type u) where
  chunks : List (List α)
  /-- After its chunks the stream errors instead of closing. -/
  fails : Bool
  disturbed : Bool
  lock : Lock
  deriving DecidableEq

namespace ReadableStream
variable {α : Type u}

def ofChunks (chunks : List (List α)) (fails : Bool) : ReadableStream α where
  chunks
  fails
  disturbed := false
  lock := .free

/-- What readers have yet to see. -/
def content (st : ReadableStream α) : List α := st.chunks.flatten

def locked (st : ReadableStream α) : Bool := st.lock ≠ .free

/-- `none` is the `TypeError` of a locked stream. -/
def getReader (st : ReadableStream α) : Option (ReadableStream α) :=
  if st.locked then none else some { st with lock := .held }

/-- `reader.read()`. -/
def read (st : ReadableStream α) : Option (ReadableStream α) :=
  if st.lock = .held then some { st with chunks := st.chunks.tail, disturbed := true } else none

def releaseLock (st : ReadableStream α) : Option (ReadableStream α) :=
  if st.lock = .held then some { st with lock := .free } else none

/-- A reader that reads to the end, and what it read unless the stream errored. -/
def drain (st : ReadableStream α) : Option (ReadableStream α × Option (List α)) :=
  if st.locked then none
  else
    some ({ st with chunks := [], disturbed := true, lock := .kept },
      if st.fails then none else some st.content)

theorem getReader_eq_some {st st' : ReadableStream α} :
    st.getReader = some st' ↔ st.locked = false ∧ st' = { st with lock := .held } := by
  unfold getReader
  cases st.locked <;> simp [eq_comm]

theorem content_of_getReader {st st' : ReadableStream α} (h : st.getReader = some st') :
    st'.content = st.content ∧ st'.disturbed = st.disturbed := by
  obtain ⟨_, rfl⟩ := getReader_eq_some.mp h
  exact ⟨rfl, rfl⟩

theorem disturbed_of_read {st st' : ReadableStream α} (h : st.read = some st') : st'.disturbed = true := by
  unfold read at h
  split at h
  · cases h
    rfl
  · cases h

theorem content_of_releaseLock {st st' : ReadableStream α} (h : st.releaseLock = some st') :
    st'.content = st.content ∧ st'.disturbed = st.disturbed := by
  unfold releaseLock at h
  split at h
  · cases h
    exact ⟨rfl, rfl⟩
  · cases h

theorem drain_of_locked {st : ReadableStream α} (h : st.locked = true) : st.drain = none := if_pos h

theorem drain_of_free {st : ReadableStream α} (h : st.locked = false) :
    st.drain = some ({ st with chunks := [], disturbed := true, lock := .kept },
      if st.fails then none else some st.content) :=
  if_neg (Bool.not_eq_true _ ▸ h)

end ReadableStream

end WorkflowEngine.Lib
