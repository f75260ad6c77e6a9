import WorkflowEngine.Lib.Utf16

/-!
# The guest's text encoder stream

The transformer of `TextEncoderStream`: a chunk that ends in a high surrogate gives it up, and the surrogate stands
before the next chunk. Cutting a string into chunks does not change the bytes.
-/

namespace WorkflowEngine.Sandbox.TextEncoderStream

open WorkflowEngine.Lib

set_option autoImplicit false

/-- What `pendingHigh` may hold. -/
structure HighSurrogate where
  unit : UInt16
  high : Utf16.isHigh unit = true

/-- `pendingHigh`, as the text in front of the next chunk. -/
def pendingText : Option HighSurrogate → List UInt16
  | none => []
  | some pending => [pending.unit]

/-- The last code unit of a text, when it is between 0xD800 and 0xDBFF. -/
def lastHigh (str : List UInt16) : Option HighSurrogate :=
  match str.getLast? with
  | none => none
  | some last => if h : Utf16.isHigh last = true then some ⟨last, h⟩ else none

/-- `controller.enqueue(encoder.encode(str))`, for a text that is not empty. -/
def enqueue (str : List UInt16) : List (List UInt8) := if str.length > 0 then [Utf16.encode str] else []

/-- The surrogate held after a chunk, and the byte chunks enqueued. -/
def transform (pendingHigh : Option HighSurrogate) (chunk : List UInt16) : Option HighSurrogate × List (List UInt8) :=
  let str := pendingText pendingHigh ++ chunk
  match lastHigh str with
  | some last => (some last, enqueue str.dropLast)
  | none => (none, enqueue str)

def flush (pendingHigh : Option HighSurrogate) : List (List UInt8) :=
  match pendingHigh with
  | some pending => [Utf16.encode [pending.unit]]
  | none => []

/-- The byte chunks of the chunks to come and of the flush. -/
def emittedFrom : Option HighSurrogate → List (List UInt16) → List (List UInt8)
  | pendingHigh, [] => flush pendingHigh
  | pendingHigh, chunk :: chunks =>
    (transform pendingHigh chunk).2 ++ emittedFrom (transform pendingHigh chunk).1 chunks

/-- What the readable side of a new stream delivers. -/
def emitted (chunks : List (List UInt16)) : List (List UInt8) := emittedFrom none chunks

/-! ## One chunk -/

theorem flatten_enqueue (str : List UInt16) : (enqueue str).flatten = Utf16.encode str := by
  cases str with
  | nil => rfl
  | cons u str => exact List.flatten_singleton

theorem ne_nil_of_mem_enqueue {str : List UInt16} {bytes : List UInt8} (h : bytes ∈ enqueue str) : bytes ≠ [] := by
  unfold enqueue at h
  split at h
  · rename_i hlength
    rw [List.mem_singleton.mp h]
    exact Utf16.encode_ne_nil (List.ne_nil_of_length_pos hlength)
  · exact absurd h List.not_mem_nil

theorem lastHigh_eq_some {str : List UInt16} {last : HighSurrogate} (h : lastHigh str = some last) :
    str = str.dropLast ++ [last.unit] := by
  unfold lastHigh at h
  split at h
  · exact absurd h (by simp)
  · rename_i unit hlast
    split at h
    · rw [← Option.some.inj h]
      exact (List.dropLast_append_getLast? unit hlast).symm
    · exact absurd h (by simp)

theorem not_pairs_of_lastHigh_eq_none {str : List UInt16} (h : lastHigh str = none) (rest : List UInt16) :
    ¬ Utf16.Pairs str rest := by
  rintro ⟨high, low, hlast, -, hhigh, -⟩
  rw [lastHigh, hlast] at h
  simp only [hhigh, dite_true] at h
  exact absurd h (by simp)

theorem not_pairs_high (str : List UInt16) (last : HighSurrogate) (rest : List UInt16) :
    ¬ Utf16.Pairs str (last.unit :: rest) := by
  rintro ⟨high, low, -, hfirst, -, hlow⟩
  have hunit : last.unit = low := Option.some.inj hfirst
  rw [← hunit, Utf16.isLow_of_isHigh last.high] at hlow
  exact absurd hlow (by simp)

/-- Either no surrogate is held and the whole text goes out, or the text is cut before its last unit. -/
theorem transform_cases (pendingHigh : Option HighSurrogate) (chunk : List UInt16) :
    (lastHigh (pendingText pendingHigh ++ chunk) = none ∧
      transform pendingHigh chunk = (none, enqueue (pendingText pendingHigh ++ chunk))) ∨
    (∃ last, lastHigh (pendingText pendingHigh ++ chunk) = some last ∧
      transform pendingHigh chunk = (some last, enqueue (pendingText pendingHigh ++ chunk).dropLast)) := by
  cases hlast : lastHigh (pendingText pendingHigh ++ chunk) with
  | none => exact Or.inl ⟨rfl, by simp only [transform, hlast]⟩
  | some last => exact Or.inr ⟨last, rfl, by simp only [transform, hlast]⟩

/-- One chunk: its bytes, followed by the encoding of what is held and of any continuation. -/
theorem transform_encode (pendingHigh : Option HighSurrogate) (chunk rest : List UInt16) :
    (transform pendingHigh chunk).2.flatten ++ Utf16.encode (pendingText (transform pendingHigh chunk).1 ++ rest) =
      Utf16.encode (pendingText pendingHigh ++ chunk ++ rest) := by
  rcases transform_cases pendingHigh chunk with ⟨hlast, hstep⟩ | ⟨last, hlast, hstep⟩
  · have hcut : ¬ Utf16.Pairs (pendingText pendingHigh ++ chunk) rest := not_pairs_of_lastHigh_eq_none hlast rest
    rw [hstep, flatten_enqueue, Utf16.encode_append hcut]
    rfl
  · rw [hstep, flatten_enqueue]
    generalize pendingText pendingHigh ++ chunk = str at hlast ⊢
    have hcut : ¬ Utf16.Pairs str.dropLast (last.unit :: rest) := not_pairs_high str.dropLast last rest
    calc
      Utf16.encode str.dropLast ++ Utf16.encode (last.unit :: rest) =
          Utf16.encode (str.dropLast ++ [last.unit] ++ rest) := by
        rw [← Utf16.encode_append hcut, List.append_assoc, List.singleton_append]
      _ = Utf16.encode (str ++ rest) := by rw [← lastHigh_eq_some hlast]

theorem ne_nil_of_mem_transform {pendingHigh : Option HighSurrogate} {chunk : List UInt16} {bytes : List UInt8}
    (h : bytes ∈ (transform pendingHigh chunk).2) : bytes ≠ [] := by
  rcases transform_cases pendingHigh chunk with ⟨-, hstep⟩ | ⟨last, -, hstep⟩
  · rw [hstep] at h
    exact ne_nil_of_mem_enqueue h
  · rw [hstep] at h
    exact ne_nil_of_mem_enqueue h

/-! ## A whole stream -/

theorem flatten_flush (pendingHigh : Option HighSurrogate) :
    (flush pendingHigh).flatten = Utf16.encode (pendingText pendingHigh) := by
  cases pendingHigh with
  | none => rfl
  | some pending => exact List.flatten_singleton

theorem ne_nil_of_mem_flush {pendingHigh : Option HighSurrogate} {bytes : List UInt8} (h : bytes ∈ flush pendingHigh) :
    bytes ≠ [] := by
  cases pendingHigh with
  | none => exact absurd h List.not_mem_nil
  | some pending =>
    rw [List.mem_singleton.mp h]
    exact Utf16.encode_ne_nil (List.cons_ne_nil _ _)

theorem flatten_emittedFrom (pendingHigh : Option HighSurrogate) (chunks : List (List UInt16)) :
    (emittedFrom pendingHigh chunks).flatten = Utf16.encode (pendingText pendingHigh ++ chunks.flatten) := by
  induction chunks generalizing pendingHigh with
  | nil => rw [emittedFrom, flatten_flush, List.flatten_nil, List.append_nil]
  | cons chunk chunks ih =>
    rw [emittedFrom, List.flatten_append, ih, transform_encode, List.flatten_cons, List.append_assoc]

theorem ne_nil_of_mem_emittedFrom {pendingHigh : Option HighSurrogate} {chunks : List (List UInt16)}
    {bytes : List UInt8} (h : bytes ∈ emittedFrom pendingHigh chunks) : bytes ≠ [] := by
  induction chunks generalizing pendingHigh with
  | nil => exact ne_nil_of_mem_flush h
  | cons chunk chunks ih =>
    rcases List.mem_append.mp h with hchunk | hrest
    · exact ne_nil_of_mem_transform hchunk
    · exact ih hrest

/-- The stream emits the encoding of the whole text, however it is cut, and no empty chunk. -/
theorem emitted_encode (chunks : List (List UInt16)) :
    (emitted chunks).flatten = Utf16.encode chunks.flatten ∧ ∀ bytes ∈ emitted chunks, bytes ≠ [] := by
  constructor
  · exact flatten_emittedFrom none chunks
  · intro bytes h
    exact ne_nil_of_mem_emittedFrom h

example : emitted [[0xD83D], [], [0xDE00, 0xD83D], [0x41]] = [[0xF0, 0x9F, 0x98, 0x80], [0xEF, 0xBF, 0xBD, 0x41]] := by
  decide

/-- A well-formed text gives its UTF-8 bytes, also when cuts separate its surrogate pairs. -/
theorem flatten_emitted_units {chunks : List (List UInt16)} {text : List Char}
    (h : chunks.flatten = text.flatMap Utf16.units) :
    (emitted chunks).flatten = text.flatMap String.utf8EncodeChar := by
  rw [emitted, flatten_emittedFrom, pendingText, List.nil_append, h, Utf16.encode_flatMap_units]

end WorkflowEngine.Sandbox.TextEncoderStream
