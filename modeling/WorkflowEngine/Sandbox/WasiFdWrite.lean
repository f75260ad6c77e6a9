import Mathlib.Algebra.Ring.Nat
import WorkflowEngine.Lib.Utf8Decode
import WorkflowEngine.Lib.OrderedMap

/-!
# What the virtual machine writes

The `fd_write` override of the sandbox: it reads the slices that a call names from the memory, decodes them, and posts
each completed line of a descriptor as a log message. Every slice is decoded on its own, so the lines are those of the
whole stream if and only if no cut before the last newline falls inside a character and no later slice begins with the
byte order mark.
-/

namespace WorkflowEngine.Sandbox.Wasi

open WorkflowEngine.Lib
open WorkflowEngine.Lib.Utf8Decode (decode decodeFrom Uncut Unmarked stripMark)

set_option autoImplicit false

/-! ## The memory -/

/-- `view.getUint32(offset, true)`; a `RangeError` is `none`. -/
def getUint32 (memory : List UInt8) (offset : Int) : Option Nat :=
  if 0 ≤ offset ∧ offset + 4 ≤ memory.length then
    some (((memory.drop offset.toNat).take 4).foldr (fun b value => b.toNat + 256 * value) 0)
  else none

/-- `view.setUint32(offset, value, true)`. -/
def setUint32 (memory : List UInt8) (offset : Int) (value : Nat) : Option (List UInt8) :=
  if 0 ≤ offset ∧ offset + 4 ≤ memory.length then
    some (memory.take offset.toNat ++
      [UInt8.ofNat value, UInt8.ofNat (value / 256), UInt8.ofNat (value / 65536), UInt8.ofNat (value / 16777216)] ++
      memory.drop (offset.toNat + 4))
  else none

def wasiCiovecSize : Int := 8

def wasiCiovecLenOffset : Int := 4

/-- The bytes of one slice, and the length that it names. -/
def readCiovec (memory : List UInt8) (iovsPtr : Int) (i : Nat) : Option (List UInt8 × Nat) := do
  let chunkPtr ← getUint32 memory (iovsPtr + i * wasiCiovecSize)
  let chunkLen ← getUint32 memory (iovsPtr + i * wasiCiovecSize + wasiCiovecLenOffset)
  pure ((memory.drop chunkPtr).take chunkLen, chunkLen)

/-! ## One call -/

def wasiErrnoSuccess : Nat := 0

def wasiErrnoBadf : Nat := 8

def wasiStdoutFd : Int := 1

def wasiStderrFd : Int := 2

structure LogMessage where
  level : String
  message : String
  fd : Int
  text : List Char
  deriving DecidableEq

inductive Effect where
  | post (message : LogMessage)
  | fdWrite (fd : Int) (text : List Char)
  deriving DecidableEq

/-- `hook` says whether a plugin has filled the `fdWrite` slot. -/
structure WasiState where
  fdLineBuffer : OrderedMap Int (List Char)
  hook : Bool

def createWasiState : WasiState := ⟨.empty, false⟩

structure FdWriteArgs where
  fd : Int
  iovsPtr : Int
  iovsLen : Int
  nwrittenPtr : Int

/-- A call of the override, with the memory that it finds. -/
structure Call where
  memory : List UInt8
  args : FdWriteArgs

/-- What a call that returns leaves behind. -/
structure Returned where
  errno : Nat
  memory : List UInt8
  state : WasiState
  effects : List Effect

def logMessage (fd : Int) (line : List Char) : LogMessage := ⟨"debug", "quickjs.fd_write", fd, line⟩

/-- The slices of a call; `none` when it throws before it writes. -/
def slices (call : Call) : Option (List (List UInt8 × Nat)) :=
  (List.range call.args.iovsLen.toNat).mapM (readCiovec call.memory call.args.iovsPtr)

/-- `none` stands for a thrown `RangeError`. -/
def wasiFdWrite (wState : WasiState) (call : Call) : Option Returned :=
  let fd := call.args.fd
  if fd ≠ wasiStdoutFd ∧ fd ≠ wasiStderrFd then some ⟨wasiErrnoBadf, call.memory, wState, []⟩
  else do
    let chunks ← slices call
    let decoded := chunks.flatMap fun chunk => decode chunk.1
    let totalWritten := (chunks.map Prod.snd).sum
    let memory ← setUint32 call.memory call.args.nwrittenPtr totalWritten
    if wState.hook then pure ⟨wasiErrnoSuccess, memory, wState, [.fdWrite fd decoded]⟩
    else
      let prev := (wState.fdLineBuffer.get? fd).getD []
      let lines := (prev ++ decoded).splitOn '\n'
      let trailing := lines.getLast?.getD []
      pure ⟨wasiErrnoSuccess, memory, { wState with fdLineBuffer := wState.fdLineBuffer.set fd trailing },
        lines.dropLast.map fun line => .post (logMessage fd line)⟩

/-- The state and the effects of a call; one that throws has none. -/
def perform (wState : WasiState) (call : Call) : WasiState × List Effect :=
  match wasiFdWrite wState call with
  | some returned => (returned.state, returned.effects)
  | none => (wState, [])

def effectsFrom : WasiState → List Call → List Effect
  | _, [] => []
  | wState, call :: calls => (perform wState call).2 ++ effectsFrom (perform wState call).1 calls

/-- What the default path posts over a run of the virtual machine. -/
def effects (calls : List Call) : List Effect := effectsFrom createWasiState calls

/-! ## The two views of a descriptor -/

/-- The slices that a call writes, when it returns with success. -/
def accepted (call : Call) : Option (List (List UInt8)) :=
  if call.args.fd ≠ wasiStdoutFd ∧ call.args.fd ≠ wasiStderrFd then none
  else do
    let chunks ← slices call
    let _ ← setUint32 call.memory call.args.nwrittenPtr (chunks.map Prod.snd).sum
    pure (chunks.map Prod.fst)

def writtenBy (fd : Int) (call : Call) : List (List UInt8) :=
  if call.args.fd = fd then (accepted call).getD [] else []

/-- All slices written to a descriptor, in order. -/
def written (fd : Int) (calls : List Call) : List (List UInt8) := calls.flatMap (writtenBy fd)

/-- The line of an effect, when it is a log message of the descriptor. -/
def Effect.line (fd : Int) : Effect → Option (List Char)
  | .post message => if message = logMessage fd message.text then some message.text else none
  | .fdWrite _ _ => none

/-- The texts of the log messages of a descriptor, in order. -/
def loggedLines (fd : Int) (es : List Effect) : List (List Char) := es.filterMap (Effect.line fd)

/-- The lines of a text up to its last newline. -/
def completeLines (text : List Char) : List (List Char) := (text.splitOn '\n').dropLast

/-- What follows the last newline. -/
def partialLine (text : List Char) : List Char := (text.splitOn '\n').getLast?.getD []

/-! ## Lines -/

theorem splitOn_append (text more : List Char) :
    (text ++ more).splitOn '\n' = completeLines text ++ (partialLine text ++ more).splitOn '\n' := by
  induction text with
  | nil => rfl
  | cons c text ih =>
    obtain ⟨line, lines, hlines⟩ := List.exists_cons_of_ne_nil (List.splitOn_ne_nil '\n' text)
    rw [completeLines, partialLine, hlines] at ih
    rw [completeLines, partialLine, List.cons_append, List.splitOn_cons_eq_if_modifyHead c (text ++ more),
      List.splitOn_cons_eq_if_modifyHead c text, ih, hlines]
    by_cases hc : (c == '\n') = true
    · rw [if_pos hc, if_pos hc]
      rfl
    · rw [if_neg hc, if_neg hc]
      cases lines with
      | nil =>
        have hone : (c :: (line ++ more)).splitOn '\n' = ((line ++ more).splitOn '\n').modifyHead (c :: ·) := by
          rw [List.splitOn_cons_eq_if_modifyHead, if_neg hc]
        exact hone.symm
      | cons next lines => rfl

theorem newline_not_mem_partialLine (text : List Char) : '\n' ∉ partialLine text := by
  induction text with
  | nil => exact List.not_mem_nil
  | cons c text ih =>
    obtain ⟨line, lines, hlines⟩ := List.exists_cons_of_ne_nil (List.splitOn_ne_nil '\n' text)
    rw [partialLine, hlines] at ih
    rw [partialLine, List.splitOn_cons_eq_if_modifyHead, hlines]
    split
    · exact ih
    · rename_i hc
      cases lines with
      | nil =>
        intro hmem
        rcases List.mem_cons.mp hmem with hhead | hrest
        · exact hc (beq_iff_eq.mpr hhead.symm)
        · exact ih hrest
      | cons next lines => exact ih

theorem completeLines_append (text more : List Char) :
    completeLines (text ++ more) = completeLines text ++ completeLines (partialLine text ++ more) := by
  rw [completeLines, splitOn_append, List.dropLast_append_of_ne_nil (List.splitOn_ne_nil _ _)]
  rfl

theorem completeLines_of_not_mem {text : List Char} (h : '\n' ∉ text) : completeLines text = [] := by
  rw [completeLines, List.splitOn_eq_singleton h]
  rfl

theorem partialLine_of_not_mem {text : List Char} (h : '\n' ∉ text) : partialLine text = text := by
  rw [partialLine, List.splitOn_eq_singleton h]
  rfl

/-- What follows the last newline does not matter. -/
theorem completeLines_append_of_not_mem {more : List Char} (h : '\n' ∉ more) (text : List Char) :
    completeLines (text ++ more) = completeLines text := by
  have hmore : '\n' ∉ partialLine text ++ more := by
    intro hmem
    rcases List.mem_append.mp hmem with hpartial | htail
    · exact newline_not_mem_partialLine text hpartial
    · exact h htail
  rw [completeLines_append, completeLines_of_not_mem hmore, List.append_nil]

theorem completeLines_concat (text : List Char) : completeLines (text ++ ['\n']) = text.splitOn '\n' := by
  rw [completeLines, List.splitOn_append_cons_self, List.splitOn_nil, List.dropLast_concat]

/-- A text that ends in a newline is known by its lines. -/
theorem completeLines_concat_inj {a b : List Char} :
    completeLines (a ++ ['\n']) = completeLines (b ++ ['\n']) ↔ a ++ ['\n'] = b ++ ['\n'] := by
  rw [completeLines_concat, completeLines_concat]
  constructor
  · intro h
    have hjoin : ['\n'].intercalate (a.splitOn '\n') = a := List.intercalate_splitOn '\n'
    rw [← hjoin, h, List.intercalate_splitOn]
  · intro h
    rw [List.append_cancel_right h]

/-! ## The run -/

def WasiState.buffered (wState : WasiState) (fd : Int) : List Char := (wState.fdLineBuffer.get? fd).getD []

/-- A call changes nothing, or it appends the text of its slices to the buffer of its descriptor. -/
theorem perform_cases {wState : WasiState} (hhook : wState.hook = false) (call : Call) :
    (accepted call = none ∧ perform wState call = (wState, [])) ∨
    ∃ pieces, accepted call = some pieces ∧
      perform wState call =
        ({ wState with
            fdLineBuffer := wState.fdLineBuffer.set call.args.fd
              (partialLine (wState.buffered call.args.fd ++ pieces.flatMap decode)) },
          (completeLines (wState.buffered call.args.fd ++ pieces.flatMap decode)).map fun line =>
            .post (logMessage call.args.fd line)) := by
  unfold perform accepted wasiFdWrite
  by_cases hfd : call.args.fd ≠ wasiStdoutFd ∧ call.args.fd ≠ wasiStderrFd
  · rw [if_pos hfd, if_pos hfd]
    exact Or.inl ⟨rfl, rfl⟩
  · rw [if_neg hfd, if_neg hfd]
    cases hslices : slices call with
    | none => exact Or.inl ⟨rfl, rfl⟩
    | some chunks =>
      cases hwritten : setUint32 call.memory call.args.nwrittenPtr (chunks.map Prod.snd).sum with
      | none =>
        left
        constructor
        · simp only [Option.bind_eq_bind, Option.bind_some, hwritten, Option.bind_none]
        · simp only [Option.bind_eq_bind, Option.bind_some, hwritten, Option.bind_none]
      | some memory =>
        right
        refine ⟨chunks.map Prod.fst, ?_, ?_⟩
        · simp only [Option.bind_eq_bind, Option.bind_some, hwritten]
          rfl
        · simp only [Option.bind_eq_bind, Option.bind_some, hwritten, hhook, Bool.false_eq_true, if_false,
            List.flatMap_map]
          rfl

theorem line_post (fd fd' : Int) (line : List Char) :
    (Effect.post (logMessage fd' line)).line fd = if fd' = fd then some line else none := by
  by_cases hfd : fd' = fd
  · rw [if_pos hfd, hfd]
    exact if_pos rfl
  · rw [if_neg hfd]
    exact if_neg fun h => hfd (congrArg LogMessage.fd h)

theorem loggedLines_posts (fd fd' : Int) (lines : List (List Char)) :
    loggedLines fd (lines.map fun line => .post (logMessage fd' line)) = if fd' = fd then lines else [] := by
  rw [loggedLines, List.filterMap_map]
  by_cases hfd : fd' = fd
  · have hline : (Effect.line fd ∘ fun line => .post (logMessage fd' line)) = some := by
      funext line
      exact (line_post fd fd' line).trans (if_pos hfd)
    rw [hline, List.filterMap_some, if_pos hfd]
  · have hline : (Effect.line fd ∘ fun line => .post (logMessage fd' line)) = fun _ => none := by
      funext line
      exact (line_post fd fd' line).trans (if_neg hfd)
    rw [hline, if_neg hfd, List.filterMap_none]

/-- One call, seen from any descriptor. -/
theorem perform_spec {wState : WasiState} (hhook : wState.hook = false) (call : Call) {fd : Int}
    (hbuffer : '\n' ∉ wState.buffered fd) :
    loggedLines fd (perform wState call).2 =
        completeLines (wState.buffered fd ++ (writtenBy fd call).flatMap decode) ∧
      (perform wState call).1.buffered fd =
        partialLine (wState.buffered fd ++ (writtenBy fd call).flatMap decode) := by
  have hidle : writtenBy fd call = [] →
      completeLines (wState.buffered fd ++ (writtenBy fd call).flatMap decode) = [] ∧
        partialLine (wState.buffered fd ++ (writtenBy fd call).flatMap decode) = wState.buffered fd := by
    intro hnone
    rw [hnone, List.flatMap_nil, List.append_nil]
    exact ⟨completeLines_of_not_mem hbuffer, partialLine_of_not_mem hbuffer⟩
  rcases perform_cases hhook call with ⟨haccepted, hperform⟩ | ⟨pieces, haccepted, hperform⟩
  · have hnone : writtenBy fd call = [] := by
      rw [writtenBy, haccepted, Option.getD_none, ite_self]
    rw [hperform, (hidle hnone).1, (hidle hnone).2]
    exact ⟨rfl, rfl⟩
  · rw [hperform, loggedLines_posts]
    by_cases hfd : call.args.fd = fd
    · have hwritten : writtenBy fd call = pieces := by
        rw [writtenBy, if_pos hfd, haccepted, Option.getD_some]
      rw [if_pos hfd, hwritten, hfd]
      refine ⟨rfl, ?_⟩
      rw [WasiState.buffered, OrderedMap.get?_set_self, Option.getD_some]
    · have hnone : writtenBy fd call = [] := if_neg hfd
      rw [if_neg hfd, (hidle hnone).1, (hidle hnone).2]
      refine ⟨rfl, ?_⟩
      rw [WasiState.buffered, OrderedMap.get?_set_of_ne _ _ _ (Ne.symm hfd)]
      rfl

theorem perform_hook {wState : WasiState} (hhook : wState.hook = false) (call : Call) :
    (perform wState call).1.hook = false := by
  rcases perform_cases hhook call with ⟨-, hperform⟩ | ⟨pieces, -, hperform⟩
  · rw [hperform]
    exact hhook
  · rw [hperform]
    exact hhook

theorem loggedLines_effectsFrom {wState : WasiState} (hhook : wState.hook = false) {fd : Int}
    (hbuffer : '\n' ∉ wState.buffered fd) (calls : List Call) :
    loggedLines fd (effectsFrom wState calls) =
      completeLines (wState.buffered fd ++ (written fd calls).flatMap decode) := by
  induction calls generalizing wState with
  | nil =>
    rw [written, List.flatMap_nil, List.flatMap_nil, List.append_nil, completeLines_of_not_mem hbuffer]
    rfl
  | cons call calls ih =>
    obtain ⟨hlogged, hbuffered⟩ := perform_spec hhook call hbuffer
    have hnext : '\n' ∉ (perform wState call).1.buffered fd := by
      rw [hbuffered]
      exact newline_not_mem_partialLine _
    have hrest := ih (perform_hook hhook call) hnext
    rw [hbuffered] at hrest
    have hwritten : written fd (call :: calls) = writtenBy fd call ++ written fd calls := List.flatMap_cons
    calc
      loggedLines fd (effectsFrom wState (call :: calls)) =
          loggedLines fd (perform wState call).2 ++ loggedLines fd (effectsFrom (perform wState call).1 calls) :=
        List.filterMap_append
      _ = completeLines ((wState.buffered fd ++ (writtenBy fd call).flatMap decode) ++
          (written fd calls).flatMap decode) := by rw [hlogged, hrest, ← completeLines_append]
      _ = completeLines (wState.buffered fd ++ (written fd (call :: calls)).flatMap decode) := by
        rw [hwritten, List.flatMap_append, List.append_assoc]

/-- The lines logged for a descriptor are those of its own slices, decoded one by one. -/
theorem loggedLines_effects (fd : Int) (calls : List Call) :
    loggedLines fd (effects calls) = completeLines ((written fd calls).flatMap decode) := by
  have hbuffer : '\n' ∉ createWasiState.buffered fd := List.not_mem_nil
  exact loggedLines_effectsFrom rfl hbuffer calls

/-! ## Up to the last newline -/

def newline : UInt8 := 10

/-- The bytes up to the last newline. -/
def upToNewline : List UInt8 → List UInt8
  | [] => []
  | b :: bytes => if newline ∈ b :: bytes then b :: upToNewline bytes else []

/-- The slices, cut off after the last newline of all. -/
def slicesUpToNewline : List (List UInt8) → List (List UInt8)
  | [] => []
  | piece :: pieces => if newline ∈ pieces.flatten then piece :: slicesUpToNewline pieces else [upToNewline piece]

/-- Before the last newline no cut falls inside a character, and no slice but the first begins with the mark. -/
def Intact (pieces : List (List UInt8)) : Prop :=
  Uncut [] (slicesUpToNewline pieces) ∧ Unmarked [] (slicesUpToNewline pieces)

theorem upToNewline_of_not_mem {bytes : List UInt8} (h : newline ∉ bytes) : upToNewline bytes = [] := by
  cases bytes with
  | nil => rfl
  | cons b bytes => exact if_neg h

theorem upToNewline_append {tail : List UInt8} (h : newline ∉ tail) (front : List UInt8) :
    upToNewline (front ++ newline :: tail) = front ++ [newline] := by
  induction front with
  | nil =>
    rw [List.nil_append, upToNewline, if_pos List.mem_cons_self, upToNewline_of_not_mem h]
    rfl
  | cons b front ih =>
    have hmem : newline ∈ b :: (front ++ newline :: tail) := by simp
    rw [List.cons_append, upToNewline, if_pos hmem, ih, List.cons_append]

/-- A text of bytes with a newline, split after the last one. -/
theorem exists_last_newline {bytes : List UInt8} (h : newline ∈ bytes) :
    ∃ front tail, bytes = front ++ newline :: tail ∧ newline ∉ tail := by
  induction bytes with
  | nil => exact absurd h List.not_mem_nil
  | cons b bytes ih =>
    by_cases hrest : newline ∈ bytes
    · obtain ⟨front, tail, rfl, htail⟩ := ih hrest
      exact ⟨b :: front, tail, rfl, htail⟩
    · have hb : newline = b := (List.mem_cons.mp h).resolve_right hrest
      exact ⟨[], bytes, congrArg (· :: bytes) hb.symm, hrest⟩

/-- Where the last newline of the slices is. -/
theorem slicesUpToNewline_spec {pieces : List (List UInt8)} (h : newline ∈ pieces.flatten) :
    ∃ front bytes tail back, pieces = front ++ (bytes ++ newline :: tail) :: back ∧ newline ∉ tail ∧
      newline ∉ back.flatten ∧ slicesUpToNewline pieces = front ++ [bytes ++ [newline]] := by
  induction pieces with
  | nil => exact absurd h List.not_mem_nil
  | cons piece pieces ih =>
    by_cases hrest : newline ∈ pieces.flatten
    · obtain ⟨front, bytes, tail, back, rfl, htail, hback, heq⟩ := ih hrest
      refine ⟨piece :: front, bytes, tail, back, rfl, htail, hback, ?_⟩
      rw [slicesUpToNewline, if_pos hrest, heq, List.cons_append]
    · have hpiece : newline ∈ piece := (List.mem_append.mp h).resolve_right hrest
      obtain ⟨bytes, tail, rfl, htail⟩ := exists_last_newline hpiece
      refine ⟨[], bytes, tail, pieces, rfl, htail, hrest, ?_⟩
      rw [slicesUpToNewline, if_neg hrest, upToNewline_append htail]
      rfl

/-! ## Pieces and the whole stream -/

theorem mem_stripMark {cs : List Char} {c : Char} (h : c ∈ stripMark cs) : c ∈ cs := by
  cases cs with
  | nil => exact h
  | cons c' cs =>
    rw [stripMark] at h
    split at h
    · exact List.mem_cons_of_mem c' h
    · exact h

theorem newline_not_mem_decodeFrom {q : Utf8Decode.State} {bytes : List UInt8} (h : newline ∉ bytes) :
    '\n' ∉ decodeFrom q bytes := fun hmem => h (Utf8Decode.mem_of_mem_decodeFrom (by decide) hmem)

theorem newline_not_mem_decode {bytes : List UInt8} (h : newline ∉ bytes) : '\n' ∉ decode bytes :=
  fun hmem => newline_not_mem_decodeFrom h (mem_stripMark hmem)

theorem newline_not_mem_flatMap_decode {pieces : List (List UInt8)} (h : newline ∉ pieces.flatten) :
    '\n' ∉ pieces.flatMap decode := by
  intro hmem
  obtain ⟨piece, hpiece, hc⟩ := List.mem_flatMap.mp hmem
  exact newline_not_mem_decode (fun hn => h (List.mem_flatten.mpr ⟨piece, hpiece, hn⟩)) hc

/-- The text of bytes that end in a newline ends in a newline. -/
theorem decode_concat_newline (bytes : List UInt8) : decode (bytes ++ [newline]) = decode bytes ++ ['\n'] := by
  rw [decode, decode, Utf8Decode.decodeFrom_ascii (by decide)]
  by_cases hnil : decodeFrom none bytes = []
  · rw [hnil]
    rfl
  · exact Utf8Decode.stripMark_append hnil _

/-- Behind a newline the decoder begins anew. -/
theorem decode_append_newline (bytes tail : List UInt8) :
    decode (bytes ++ newline :: tail) = decode (bytes ++ [newline]) ++ decodeFrom none tail := by
  have hascii : newline.toNat ≤ 0x7F := by decide
  have hstate : Utf8Decode.stateAfter none (bytes ++ [newline]) = none := Utf8Decode.stateAfter_ascii hascii none bytes
  have houtput : decodeFrom none (bytes ++ [newline]) = Utf8Decode.output none (bytes ++ [newline]) := by
    rw [decodeFrom, hstate]
    exact List.append_nil _
  have hne : decodeFrom none (bytes ++ [newline]) ≠ [] := by
    rw [Utf8Decode.decodeFrom_ascii hascii]
    simp
  have hsplit : bytes ++ newline :: tail = (bytes ++ [newline]) ++ tail := by
    rw [List.append_assoc, List.singleton_append]
  rw [decode, hsplit, Utf8Decode.decodeFrom_append, hstate, ← houtput, Utf8Decode.stripMark_append hne]
  rfl

theorem intact_of_not_mem {pieces : List (List UInt8)} (h : newline ∉ pieces.flatten) : Intact pieces := by
  cases pieces with
  | nil => exact ⟨trivial, trivial⟩
  | cons piece pieces =>
    have hpiece : newline ∉ piece := fun hmem => h (List.mem_append_left _ hmem)
    have hrest : newline ∉ pieces.flatten := fun hmem => h (List.mem_append_right _ hmem)
    rw [Intact, slicesUpToNewline, if_neg hrest, upToNewline_of_not_mem hpiece]
    refine ⟨⟨?_, trivial⟩, ⟨fun hne => absurd rfl hne, trivial⟩⟩
    rintro ⟨sequence, b, c, -, -, hhead, -⟩
    exact absurd hhead (by simp)

/-- The lines of the pieces are those of the whole exactly when the pieces are intact. -/
theorem completeLines_flatMap_decode_iff (pieces : List (List UInt8)) :
    completeLines (pieces.flatMap decode) = completeLines (decode pieces.flatten) ↔ Intact pieces := by
  by_cases hmem : newline ∈ pieces.flatten
  · obtain ⟨front, bytes, tail, back, heq, htail, hback, htrimmed⟩ := slicesUpToNewline_spec hmem
    have hrest : '\n' ∉ decodeFrom none tail ++ back.flatMap decode := by
      intro hc
      rcases List.mem_append.mp hc with hc | hc
      · exact newline_not_mem_decodeFrom htail hc
      · exact newline_not_mem_flatMap_decode hback hc
    have hend : newline ∉ tail ++ back.flatten := by
      intro hn
      rcases List.mem_append.mp hn with hn | hn
      · exact htail hn
      · exact hback hn
    have hparts : pieces.flatMap decode =
        (front.flatMap decode ++ decode bytes ++ ['\n']) ++ (decodeFrom none tail ++ back.flatMap decode) := by
      rw [heq, List.flatMap_append, List.flatMap_cons, decode_append_newline, decode_concat_newline]
      simp only [List.append_assoc]
    have hwhole : decode pieces.flatten =
        (decode (front.flatten ++ bytes) ++ ['\n']) ++ decodeFrom none (tail ++ back.flatten) := by
      rw [heq, List.flatten_append, List.flatten_cons, ← decode_concat_newline, ← decode_append_newline]
      simp only [List.append_assoc, List.cons_append]
    have hpartsTrimmed : (slicesUpToNewline pieces).flatMap decode =
        front.flatMap decode ++ decode bytes ++ ['\n'] := by
      rw [htrimmed, List.flatMap_append, List.flatMap_singleton, decode_concat_newline, List.append_assoc]
    have hwholeTrimmed : decode (slicesUpToNewline pieces).flatten = decode (front.flatten ++ bytes) ++ ['\n'] := by
      rw [htrimmed, List.flatten_append, List.flatten_singleton, ← List.append_assoc, decode_concat_newline]
    rw [hparts, hwhole, completeLines_append_of_not_mem hrest,
      completeLines_append_of_not_mem (newline_not_mem_decodeFrom hend), completeLines_concat_inj, ← hpartsTrimmed,
      ← hwholeTrimmed, Utf8Decode.flatMap_decode_eq_iff]
    exact Iff.rfl
  · have hparts : completeLines (pieces.flatMap decode) = [] :=
      completeLines_of_not_mem (newline_not_mem_flatMap_decode hmem)
    have hwhole : completeLines (decode pieces.flatten) = [] := completeLines_of_not_mem (newline_not_mem_decode hmem)
    rw [hparts, hwhole]
    exact iff_of_true rfl (intact_of_not_mem hmem)

/-! ## The log -/

theorem fd_of_accepted {call : Call} {pieces : List (List UInt8)} (h : accepted call = some pieces) :
    call.args.fd = wasiStdoutFd ∨ call.args.fd = wasiStderrFd := by
  unfold accepted at h
  split at h
  · exact absurd h (by simp)
  · rename_i hfd
    by_contra hne
    exact hfd (not_or.mp hne)

/-- A log message for standard output or standard error. -/
def Effect.IsLog (e : Effect) : Prop :=
  ∃ fd line, e = .post (logMessage fd line) ∧ (fd = wasiStdoutFd ∨ fd = wasiStderrFd)

theorem isLog_of_mem_perform {wState : WasiState} (hhook : wState.hook = false) {call : Call} {e : Effect}
    (h : e ∈ (perform wState call).2) : e.IsLog := by
  rcases perform_cases hhook call with ⟨-, hperform⟩ | ⟨pieces, haccepted, hperform⟩
  · rw [hperform] at h
    exact absurd h List.not_mem_nil
  · rw [hperform] at h
    obtain ⟨line, -, rfl⟩ := List.mem_map.mp h
    exact ⟨call.args.fd, line, rfl, fd_of_accepted haccepted⟩

theorem isLog_of_mem_effectsFrom {wState : WasiState} (hhook : wState.hook = false) {calls : List Call} {e : Effect}
    (h : e ∈ effectsFrom wState calls) : e.IsLog := by
  induction calls generalizing wState with
  | nil => exact absurd h List.not_mem_nil
  | cons call calls ih =>
    rcases List.mem_append.mp h with hcall | hrest
    · exact isLog_of_mem_perform hhook hcall
    · exact ih (perform_hook hhook call) hrest

/--
Whatever the virtual machine writes, only lines of the two descriptors are posted; those of a descriptor are the lines
of its whole stream exactly when its slices are intact.
-/
theorem log_iff (calls : List Call) :
    (∀ e ∈ effects calls, e.IsLog) ∧
      ∀ fd, loggedLines fd (effects calls) = completeLines (decode (written fd calls).flatten) ↔
        Intact (written fd calls) := by
  constructor
  · intro e h
    exact isLog_of_mem_effectsFrom rfl h
  · intro fd
    rw [loggedLines_effects, completeLines_flatMap_decode_iff]

/-- The iovecs `e2 | 82 ac 0a` of one call. -/
def splitEuro : Call where
  memory := [16, 0, 0, 0, 1, 0, 0, 0, 17, 0, 0, 0, 3, 0, 0, 0, 0xE2, 0x82, 0xAC, 0x0A, 0, 0, 0, 0]
  args := ⟨wasiStdoutFd, 0, 2, 20⟩

/-- A euro sign that two slices share is logged as three replacement characters. -/
theorem split_euro_lost :
    (written wasiStdoutFd [splitEuro]).flatten = [0xE2, 0x82, 0xAC, 0x0A] ∧
      completeLines (decode (written wasiStdoutFd [splitEuro]).flatten) = [['€']] ∧
      loggedLines wasiStdoutFd (effects [splitEuro]) = [['\uFFFD', '\uFFFD', '\uFFFD']] := by
  decide

/-! ## Well-formed writes -/

theorem decodeFrom_text (text : List Char) : decodeFrom none (text.flatMap String.utf8EncodeChar) = text := by
  induction text with
  | nil => rfl
  | cons c text ih => rw [List.flatMap_cons, Utf8Decode.decodeFrom_utf8EncodeChar, ih]

theorem decode_text {text : List Char} (h : text.head? ≠ some Utf8Decode.byteOrderMark) :
    decode (text.flatMap String.utf8EncodeChar) = text := by
  rw [decode, decodeFrom_text, (Utf8Decode.stripMark_eq_self_iff text).mpr h]

/-- Slices that are whole texts without a mark in front are logged as the lines of the joined texts. -/
theorem loggedLines_texts {calls : List Call} {fd : Int} {texts : List (List Char)}
    (hwritten : written fd calls = texts.map fun text => text.flatMap String.utf8EncodeChar)
    (hmark : ∀ text ∈ texts, text.head? ≠ some Utf8Decode.byteOrderMark) :
    loggedLines fd (effects calls) = completeLines texts.flatten := by
  have htexts : (texts.map fun text => text.flatMap String.utf8EncodeChar).flatMap decode = texts.flatten := by
    rw [List.flatMap_map, List.flatten_eq_flatMap]
    exact List.flatMap_congr fun text htext => decode_text (hmark text htext)
  rw [loggedLines_effects, hwritten, htexts]

end WorkflowEngine.Sandbox.Wasi
