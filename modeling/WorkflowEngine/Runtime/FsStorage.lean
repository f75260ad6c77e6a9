import Mathlib.Data.List.DropRight
import WorkflowEngine.Lib.OrderedMap
import WorkflowEngine.Lib.Transition

/-!
# File storage

`storage/fs.ts` as a system of concurrent calls over a file system: a directory that maps paths to inodes and
inodes that hold bytes. A write goes chunk by chunk to `<path>.tmp` and is then renamed; a read opens the path,
asks for the size and reads chunk by chunk. Directories are made before a file is opened and are left out;
whatever fails for a reason of its own ends a call.
-/

namespace WorkflowEngine.Runtime.FsStorage

set_option autoImplicit false

open Lib

/-! ## Paths -/

/-- One segment of a path that is being normalised. -/
def pushSegment (done : List (List Char)) (segment : List Char) : List (List Char) :=
  if segment = [] ∨ segment = ['.'] then done
  else if segment = ['.', '.'] then done.dropLast
  else done ++ [segment]

/-- `join(absoluteRoot, path)`. -/
def join (absoluteRoot path : String) : String :=
  let joined := if path = "" then absoluteRoot.toList else absoluteRoot.toList ++ '/' :: path.toList
  let segments := (joined.splitOn '/').foldl pushSegment []
  let trailing := if joined.getLast? = some '/' ∧ segments ≠ [] then ['/'] else []
  String.ofList ('/' :: ['/'].intercalate segments ++ trailing)

def staging (fullPath : String) : String := fullPath ++ ".tmp"

def endsWithTmp (name : String) : Bool := ".tmp".toList.isSuffixOf name.toList

/-! ## Calls -/

inductive Call where
  | write (key : String) (data : List UInt8)
  | read (key : String)
  | list (start : String)
  deriving DecidableEq

inductive Phase where
  | called
  /-- A write has its staging file open and has written `offset` bytes. -/
  | writing (inode offset : Nat)
  /-- The rename is done; `installed` is what stands under the path right after it. -/
  | renamed (installed : List UInt8)
  | resolved (installed : List UInt8)
  | opened (inode : Nat)
  | reading (inode size : Nat) (bytes : List UInt8)
  | returned (data : List UInt8)
  | notFound
  | listed (keys : List String)
  /-- The rename finds no staging file. -/
  | stagingLost
  | failed
  deriving DecidableEq

structure Op where
  call : Call
  phase : Phase
  deriving DecidableEq

structure State where
  dir : OrderedMap String Nat
  inodes : List (List UInt8)
  ops : List Op

def State.empty : State := ⟨.empty, [], []⟩

inductive Action where
  | call (c : Call)
  | openFile (i : Nat)
  | stat (i : Nat)
  | chunk (i size : Nat)
  | renameFile (i : Nat)
  | resolve (i : Nat)
  | fail (i : Nat)

def Call.key? : Call → Option String
  | .write key _ => some key
  | .read key => some key
  | .list _ => none

/-! ## Steps -/

/-- Bytes written at an offset; a gap is filled with zeros. -/
def writeAt (content : List UInt8) (offset : Nat) (bytes : List UInt8) : List UInt8 :=
  content.take offset ++ List.replicate (offset - content.length) 0 ++ bytes ++ content.drop (offset + bytes.length)

/-- The name and the directory of a path. -/
def splitName (path : List Char) : List Char × List Char :=
  (path.rtakeWhile (· ≠ '/'), (path.rdropWhile (· ≠ '/')).dropLast)

/-- The key that `list` makes of a file, if the file is below the directory. -/
def listedKey (start dir path : String) : Option String :=
  let (name, parent) := splitName path.toList
  let top := if dir.toList.getLast? = some '/' then dir.toList.dropLast else dir.toList
  let below := parent = top ∨ (top ++ ['/']).isPrefixOf parent
  if ¬below ∨ endsWithTmp (String.ofList name) then none
  else
    let relative := parent.drop dir.toList.length
    some (start ++ String.ofList (if relative = [] then name else relative ++ '/' :: name))

def listing (absoluteRoot start : String) (paths : List String) : List String :=
  (paths.filterMap (listedKey start (join absoluteRoot start))).mergeSort fun a b => a ≤ b

def setPhase (s : State) (i : Nat) (op : Op) (phase : Phase) : State :=
  { s with ops := s.ops.set i { op with phase := phase } }

section Step
variable (absoluteRoot : String)

def openOp (s : State) (i : Nat) (op : Op) : Option State :=
  match op.call, op.phase with
  | .write key _, .called =>
    match s.dir.get? (staging (join absoluteRoot key)) with
    | some inode => some { setPhase s i op (.writing inode 0) with inodes := s.inodes.set inode [] }
    | none => some { setPhase s i op (.writing s.inodes.length 0) with
        dir := s.dir.set (staging (join absoluteRoot key)) s.inodes.length, inodes := s.inodes ++ [[]] }
  | .read key, .called =>
    match s.dir.get? (join absoluteRoot key) with
    | some inode => some (setPhase s i op (.opened inode))
    | none => some (setPhase s i op .notFound)
  | .list start, .called => some (setPhase s i op (.listed (listing absoluteRoot start s.dir.keys)))
  | _, _ => none

def statOp (s : State) (i : Nat) (op : Op) : Option State :=
  match op.phase with
  | .opened inode => some (setPhase s i op (.reading inode (s.inodes.getD inode []).length []))
  | _ => none

/-- A read ends at the size it was told, or where there is nothing more; a size of zero is no limit. -/
def chunkOp (s : State) (i size : Nat) (op : Op) : Option State :=
  match op.call, op.phase with
  | .write _ data, .writing inode offset =>
    let bytes := (data.drop offset).take size
    some { setPhase s i op (.writing inode (offset + bytes.length)) with
      inodes := s.inodes.set inode (writeAt (s.inodes.getD inode []) offset bytes) }
  | .read _, .reading inode total bytes =>
    let content := s.inodes.getD inode []
    if (total ≠ 0 ∧ bytes.length = total) ∨ content.length ≤ bytes.length then
      some (setPhase s i op (.returned bytes))
    else
      let more := (content.drop bytes.length).take (if total = 0 then size else min size (total - bytes.length))
      some (setPhase s i op (.reading inode total (bytes ++ more)))
  | _, _ => none

def renameOp (s : State) (i : Nat) (op : Op) : Option State :=
  match op.call, op.phase with
  | .write key data, .writing _ offset =>
    if offset = data.length then
      match s.dir.get? (staging (join absoluteRoot key)) with
      | none => some (setPhase s i op .stagingLost)
      | some inode => some { setPhase s i op (.renamed (s.inodes.getD inode [])) with
          dir := (s.dir.delete (staging (join absoluteRoot key))).set (join absoluteRoot key) inode }
    else none
  | _, _ => none

def resolveOp (s : State) (i : Nat) (op : Op) : Option State :=
  match op.phase with
  | .renamed installed => some (setPhase s i op (.resolved installed))
  | _ => none

/-- Only what is under way can fail. -/
def failOp (s : State) (i : Nat) (op : Op) : Option State :=
  match op.phase with
  | .called | .writing _ _ | .opened _ | .reading _ _ _ => some (setPhase s i op .failed)
  | _ => none

def step (s : State) : Action → Option State
  | .call c => if c.key?.any endsWithTmp then none else some { s with ops := s.ops ++ [⟨c, .called⟩] }
  | .openFile i => s.ops[i]?.bind (openOp absoluteRoot s i)
  | .stat i => s.ops[i]?.bind (statOp s i)
  | .chunk i size => s.ops[i]?.bind (chunkOp s i size)
  | .renameFile i => s.ops[i]?.bind (renameOp absoluteRoot s i)
  | .resolve i => s.ops[i]?.bind (resolveOp s i)
  | .fail i => s.ops[i]?.bind (failOp s i)

end Step

/-! ## What is promised -/

def State.calls (s : State) : List Call := s.ops.map (·.call)

/-- Call `i` and how far it is. -/
def State.At (s : State) (i : Nat) (call : Call) (phase : Phase) : Prop := s.ops[i]? = some ⟨call, phase⟩

/-- Reads return what one write of the key wrote, writes have installed what they wrote, and no write has lost its
staging file. -/
structure Safe (s : State) : Prop where
  reads : ∀ i key data, s.At i (.read key) (.returned data) → Call.write key data ∈ s.calls
  writes : ∀ i key data installed, s.At i (.write key data) (.resolved installed) → installed = data
  unhindered : ∀ i call, ¬s.At i call .stagingLost

/-! ## The condition -/

theorem staging_inj {p q : String} : staging p = staging q ↔ p = q := by
  refine ⟨fun h => ?_, congrArg staging⟩
  have hlist := congrArg String.toList h
  rw [staging, staging, String.toList_append, String.toList_append] at hlist
  exact String.toList_injective (List.append_cancel_right hlist)

theorem staging_ne (p : String) : staging p ≠ p := by
  intro h
  have hlength := congrArg (fun q : String => q.toList.length) h
  simp [staging] at hlength

section Condition
variable (absoluteRoot : String)

/-- Two keys are one key or have files of their own, staging files included. -/
structure Apart (k k' : String) : Prop where
  file : join absoluteRoot k = join absoluteRoot k' → k = k'
  left : join absoluteRoot k ≠ staging (join absoluteRoot k')
  right : join absoluteRoot k' ≠ staging (join absoluteRoot k)

/-- The key of a write that has not opened its staging file. -/
def startingKey : Op → Option String
  | ⟨.write key _, .called⟩ => some key
  | _ => none

/-- The key of a write between the opening of its staging file and the rename. -/
def writingKey : Op → Option String
  | ⟨.write key _, .writing _ _⟩ => some key
  | _ => none

/-- A call uses a key apart from those in use, and a write opens its staging file while no other write of the
file is between its opening and its rename. -/
def Undisturbed (s : State) : Action → Prop
  | .call c => ∀ k ∈ c.key?, ∀ c' ∈ s.calls, ∀ k' ∈ c'.key?, Apart absoluteRoot k k'
  | .openFile i => ∀ k ∈ s.ops[i]?.bind startingKey, ∀ k' ∈ s.ops.filterMap writingKey,
      join absoluteRoot k' ≠ join absoluteRoot k
  | _ => True

instance decidableApart (k k' : String) : Decidable (Apart absoluteRoot k k') :=
  decidable_of_iff ((join absoluteRoot k = join absoluteRoot k' → k = k') ∧
      join absoluteRoot k ≠ staging (join absoluteRoot k') ∧ join absoluteRoot k' ≠ staging (join absoluteRoot k))
    ⟨fun ⟨file, left, right⟩ => ⟨file, left, right⟩, fun h => ⟨h.file, h.left, h.right⟩⟩

instance decidableUndisturbed (s : State) : (a : Action) → Decidable (Undisturbed absoluteRoot s a)
  | .call c => inferInstanceAs (Decidable (∀ k ∈ c.key?, ∀ c' ∈ s.calls, ∀ k' ∈ c'.key?, Apart absoluteRoot k k'))
  | .openFile i => inferInstanceAs (Decidable (∀ k ∈ s.ops[i]?.bind startingKey,
      ∀ k' ∈ s.ops.filterMap writingKey, join absoluteRoot k' ≠ join absoluteRoot k))
  | .stat _ | .chunk _ _ | .renameFile _ | .resolve _ | .fail _ => isTrue trivial

/-! ## The invariant -/

/-- An inode that holds what a write of the key wrote, and stands nowhere but under that key. -/
structure Holds (s : State) (k : String) (inode : Nat) (data : List UInt8) : Prop where
  written : Call.write k data ∈ s.calls
  content : s.inodes[inode]? = some data
  stands : ∀ p, s.dir.get? p = some inode → p = join absoluteRoot k

def OpOk (s : State) (op : Op) : Prop :=
  match op.call, op.phase with
  | .write k data, .writing inode offset =>
    s.dir.get? (staging (join absoluteRoot k)) = some inode ∧ s.inodes[inode]? = some (data.take offset) ∧
      offset ≤ data.length
  | .write _ data, .renamed installed => installed = data
  | .write _ data, .resolved installed => installed = data
  | .read k, .opened inode => ∃ data, Holds absoluteRoot s k inode data
  | .read k, .reading inode size bytes =>
    ∃ data, Holds absoluteRoot s k inode data ∧ size = data.length ∧ bytes = data.take bytes.length
  | .read k, .returned data => Call.write k data ∈ s.calls
  | _, .stagingLost => False
  | _, _ => True

structure Consistent (s : State) : Prop where
  apart : ∀ c ∈ s.calls, ∀ c' ∈ s.calls, ∀ k ∈ c.key?, ∀ k' ∈ c'.key?, Apart absoluteRoot k k'
  entries : ∀ p inode, s.dir.get? p = some inode → inode < s.inodes.length ∧ ∃ k data, Call.write k data ∈ s.calls ∧
    (p = staging (join absoluteRoot k) ∨ (p = join absoluteRoot k ∧ s.inodes[inode]? = some data))
  injective : ∀ p q inode, s.dir.get? p = some inode → s.dir.get? q = some inode → p = q
  exclusive : ∀ i j k k' d d' inode inode' n n', s.At i (.write k d) (.writing inode n) →
    s.At j (.write k' d') (.writing inode' n') → i ≠ j → join absoluteRoot k ≠ join absoluteRoot k'
  ops : ∀ (i : Nat) (op : Op), s.ops[i]? = some op → OpOk absoluteRoot s op

end Condition

section Keep
variable {absoluteRoot : String} {s t : State}

theorem calls_setPhase {i : Nat} {op : Op} (hop : s.ops[i]? = some op) (phase : Phase) :
    (setPhase s i op phase).calls = s.calls := by
  obtain ⟨hi, hget⟩ := List.getElem?_eq_some_iff.mp hop
  unfold State.calls setPhase
  rw [List.map_set, ← hget]
  have hlength : i < (s.ops.map (·.call)).length := by rwa [List.length_map]
  have hmap : (s.ops.map (·.call))[i] = s.ops[i].call := List.getElem_map _
  rw [← hmap, List.set_getElem_self]

theorem getElem?_setPhase {i j : Nat} {op x : Op} {phase : Phase}
    (h : (setPhase s i op phase).ops[j]? = some x) :
    (j = i ∧ x = { op with phase := phase }) ∨ (j ≠ i ∧ s.ops[j]? = some x) := by
  unfold setPhase at h
  rw [List.getElem?_set] at h
  by_cases hij : i = j
  · rw [if_pos hij] at h
    split_ifs at h
    exact Or.inl ⟨hij.symm, (Option.some.inj h).symm⟩
  · rw [if_neg hij] at h
    exact Or.inr ⟨Ne.symm hij, h⟩

theorem mem_calls {i : Nat} {op : Op} (hop : s.ops[i]? = some op) : op.call ∈ s.calls :=
  List.mem_map_of_mem (List.mem_of_getElem? hop)

theorem Consistent.apart_keys (h : Consistent absoluteRoot s) {k k' : String} {c c' : Call} (hc : c ∈ s.calls) (hc' : c' ∈ s.calls)
    (hk : c.key? = some k) (hk' : c'.key? = some k') : Apart absoluteRoot k k' :=
  h.apart c hc c' hc' k hk k' hk'

/-- What a call relies on stays as long as the entries and inodes it relies on do. -/
theorem OpOk.keep {op : Op} (hok : OpOk absoluteRoot s op) (hcalls : ∀ c ∈ s.calls, c ∈ t.calls)
    (hwriter : ∀ k d inode n, op = ⟨.write k d, .writing inode n⟩ →
      s.dir.get? (staging (join absoluteRoot k)) = some inode → s.inodes[inode]? = some (d.take n) →
      t.dir.get? (staging (join absoluteRoot k)) = some inode ∧ t.inodes[inode]? = some (d.take n))
    (hreader : ∀ k inode data, op.call = .read k → Holds absoluteRoot s k inode data →
      t.inodes[inode]? = some data ∧ ∀ p, t.dir.get? p = some inode → p = join absoluteRoot k) :
    OpOk absoluteRoot t op := by
  have hholds : ∀ k inode data, op.call = .read k → Holds absoluteRoot s k inode data →
      Holds absoluteRoot t k inode data := by
    intro k inode data hcall hheld
    obtain ⟨hcontent, hstands⟩ := hreader k inode data hcall hheld
    exact ⟨hcalls _ hheld.written, hcontent, hstands⟩
  obtain ⟨call, phase⟩ := op
  cases call with
  | write k d =>
    cases phase with
    | writing inode n =>
      obtain ⟨hdir, hcontent, hle⟩ := hok
      obtain ⟨hdir', hcontent'⟩ := hwriter k d inode n rfl hdir hcontent
      exact ⟨hdir', hcontent', hle⟩
    | called | renamed | resolved | opened | reading | returned | notFound | listed | stagingLost | failed => exact hok
  | read k =>
    cases phase with
    | opened inode =>
      obtain ⟨data, hheld⟩ := hok
      exact ⟨data, hholds k inode data rfl hheld⟩
    | reading inode size bytes =>
      obtain ⟨data, hheld, hrest⟩ := hok
      exact ⟨data, hholds k inode data rfl hheld, hrest⟩
    | returned data => exact hcalls _ hok
    | called | writing | renamed | resolved | notFound | listed | stagingLost | failed => exact hok
  | list start =>
    cases phase <;> exact hok

theorem OpOk.of_same {op : Op} (hok : OpOk absoluteRoot s op) (hcalls : ∀ c ∈ s.calls, c ∈ t.calls)
    (hdir : t.dir = s.dir) (hinodes : t.inodes = s.inodes) : OpOk absoluteRoot t op := by
  refine hok.keep hcalls ?_ ?_
  · intro k d inode n _ hget hcontent
    rw [hdir, hinodes]
    exact ⟨hget, hcontent⟩
  · intro k inode data _ hheld
    rw [hdir, hinodes]
    exact ⟨hheld.content, hheld.stands⟩

/-- A phase in which no write has its staging file open. -/
def Phase.idle : Phase → Prop
  | .writing _ _ => False
  | _ => True

/-- A step that changes nothing but how far one call is. -/
theorem Consistent.advance (h : Consistent absoluteRoot s) {i : Nat} {op : Op} (hop : s.ops[i]? = some op)
    {phase : Phase} (hidle : phase.idle) (hok : OpOk absoluteRoot s { op with phase := phase }) :
    Consistent absoluteRoot (setPhase s i op phase) where
  apart := by
    rw [calls_setPhase hop]
    exact h.apart
  entries := by
    rw [calls_setPhase hop]
    exact h.entries
  injective := h.injective
  exclusive := by
    intro a b k k' d d' inode inode' n n' ha hb hab
    rcases getElem?_setPhase ha with ⟨_, hx⟩ | ⟨_, ha⟩
    · injection hx with _ hphase
      subst hphase
      exact hidle.elim
    · rcases getElem?_setPhase hb with ⟨_, hx⟩ | ⟨_, hb⟩
      · injection hx with _ hphase
        subst hphase
        exact hidle.elim
      · exact h.exclusive a b k k' d d' inode inode' n n' ha hb hab
  ops := by
    intro j x hx
    have hcalls : ∀ c ∈ s.calls, c ∈ (setPhase s i op phase).calls := by
      rw [calls_setPhase hop]
      exact fun c hc => hc
    rcases getElem?_setPhase hx with ⟨_, rfl⟩ | ⟨_, hx⟩
    · exact hok.of_same hcalls rfl rfl
    · exact (h.ops j x hx).of_same hcalls rfl rfl

/-- What stands under a key in use is what one write of the key wrote. -/
theorem Consistent.holds (h : Consistent absoluteRoot s) {i : Nat} {op : Op} (hop : s.ops[i]? = some op) {k : String}
    (hcall : op.call = .read k) {inode : Nat} (hget : s.dir.get? (join absoluteRoot k) = some inode) :
    ∃ data, Holds absoluteRoot s k inode data := by
  have hmem : Call.read k ∈ s.calls := hcall ▸ mem_calls hop
  obtain ⟨_, k', data, hwrite, hpath⟩ := h.entries _ _ hget
  have hapart : Apart absoluteRoot k k' := h.apart_keys hmem hwrite rfl rfl
  rcases hpath with hstaging | ⟨hfile, hcontent⟩
  · exact absurd hstaging hapart.left
  · obtain rfl := hapart.file hfile
    exact ⟨data, hwrite, hcontent, fun p hp => h.injective p _ inode hp hget⟩

/-- An inode under the staging path of one key is not what a reader of a key holds. -/
theorem Holds.ne_staged {k k' : String} {inode : Nat} {data : List UInt8} (hheld : Holds absoluteRoot s k inode data)
    (hapart : Apart absoluteRoot k k') : s.dir.get? (staging (join absoluteRoot k')) ≠ some inode := by
  intro hget
  exact hapart.left (hheld.stands _ hget).symm

/-- No other write of the file has its staging file open. -/
def Alone (absoluteRoot : String) (s : State) (i : Nat) (k : String) : Prop :=
  ∀ j k' d' inode n, j ≠ i → s.At j (.write k' d') (.writing inode n) → join absoluteRoot k' ≠ join absoluteRoot k

/-- With one more staging file open the writes still have different files. -/
theorem Consistent.exclusive_writing (h : Consistent absoluteRoot s) {i : Nat} {op : Op} {k : String}
    {d : List UInt8} (hcall : op.call = .write k d) (halone : Alone absoluteRoot s i k) {staged n : Nat} :
    ∀ a b k₁ k₂ d₁ d₂ inode₁ inode₂ n₁ n₂, (setPhase s i op (.writing staged n)).At a (.write k₁ d₁) (.writing inode₁ n₁) →
      (setPhase s i op (.writing staged n)).At b (.write k₂ d₂) (.writing inode₂ n₂) → a ≠ b →
      join absoluteRoot k₁ ≠ join absoluteRoot k₂ := by
  intro a b k₁ k₂ d₁ d₂ inode₁ inode₂ n₁ n₂ ha hb hab
  have hself : ∀ k' d' inode' n', (⟨.write k' d', .writing inode' n'⟩ : Op) = { op with phase := .writing staged n } →
      k' = k := by
    intro k' d' inode' n' hx
    injection hx with hc _
    rw [hcall] at hc
    exact (Call.write.inj hc).1
  rcases getElem?_setPhase ha with ⟨hai, hx⟩ | ⟨hai, hold⟩
  · rcases getElem?_setPhase hb with ⟨hbi, _⟩ | ⟨hbi, hold'⟩
    · exact absurd (hai.trans hbi.symm) hab
    · rw [hself _ _ _ _ hx]
      exact (halone b k₂ d₂ inode₂ n₂ hbi hold').symm
  · rcases getElem?_setPhase hb with ⟨_, hx⟩ | ⟨_, hold'⟩
    · rw [hself _ _ _ _ hx]
      exact halone a k₁ d₁ inode₁ n₁ hai hold
    · exact h.exclusive a b k₁ k₂ d₁ d₂ inode₁ inode₂ n₁ n₂ hold hold' hab

/-- A write alone on its staging file puts there the first bytes of its data. -/
theorem Consistent.overwrite (h : Consistent absoluteRoot s) {i : Nat} {op : Op} (hop : s.ops[i]? = some op)
    {k : String} {d : List UInt8} (hcall : op.call = .write k d) {inode : Nat}
    (hget : s.dir.get? (staging (join absoluteRoot k)) = some inode) (halone : Alone absoluteRoot s i k) {n : Nat}
    (hn : n ≤ d.length) :
    Consistent absoluteRoot
      { setPhase s i op (.writing inode n) with inodes := s.inodes.set inode (d.take n) } := by
  have hcalls : State.calls { setPhase s i op (.writing inode n) with
      inodes := s.inodes.set inode (d.take n) } = s.calls := calls_setPhase hop _
  have hwrite : Call.write k d ∈ s.calls := hcall ▸ mem_calls hop
  have hlt : inode < s.inodes.length := (h.entries _ _ hget).1
  refine ⟨by rw [hcalls]; exact h.apart, ?_, h.injective, h.exclusive_writing hcall halone, ?_⟩
  · rw [hcalls]
    intro p x hp
    obtain ⟨hx, k', d', hwrite', hpath⟩ := h.entries p x hp
    refine ⟨by rwa [List.length_set], ?_⟩
    by_cases hsame : inode = x
    · subst hsame
      exact ⟨k, d, hwrite, Or.inl (h.injective p _ inode hp hget)⟩
    · refine ⟨k', d', hwrite', hpath.imp id fun hfile => ⟨hfile.1, ?_⟩⟩
      rw [List.getElem?_set_ne hsame]
      exact hfile.2
  · intro j x hx
    rcases getElem?_setPhase hx with ⟨_, rfl⟩ | ⟨hji, hx⟩
    · unfold OpOk
      rw [hcall]
      exact ⟨hget, List.getElem?_set_self hlt, hn⟩
    · refine (h.ops j x hx).keep (by rw [hcalls]; exact fun c hc => hc) ?_ ?_
      · rintro k' d' inode' n' rfl hget' hcontent
        refine ⟨hget', ?_⟩
        have hne : inode ≠ inode' := by
          rintro rfl
          have hpath := h.injective _ _ inode hget' hget
          exact halone j k' d' inode n' hji hx (staging_inj.mp hpath)
        exact (List.getElem?_set_ne hne).trans hcontent
      · intro k' inode' data hread hheld
        have hapart : Apart absoluteRoot k' k := h.apart_keys (hread ▸ mem_calls hx) hwrite rfl rfl
        have hne : inode ≠ inode' := by
          rintro rfl
          exact hheld.ne_staged hapart hget
        exact ⟨(List.getElem?_set_ne hne).trans hheld.content, hheld.stands⟩

/-- A write that finds no staging file makes one with a new inode. -/
theorem Consistent.create (h : Consistent absoluteRoot s) {i : Nat} {op : Op} (hop : s.ops[i]? = some op)
    {k : String} {d : List UInt8} (hcall : op.call = .write k d)
    (halone : Alone absoluteRoot s i k) :
    Consistent absoluteRoot { setPhase s i op (.writing s.inodes.length 0) with
      dir := s.dir.set (staging (join absoluteRoot k)) s.inodes.length, inodes := s.inodes ++ [[]] } := by
  have hcalls : State.calls { setPhase s i op (.writing s.inodes.length 0) with
      dir := s.dir.set (staging (join absoluteRoot k)) s.inodes.length, inodes := s.inodes ++ [[]] } = s.calls :=
    calls_setPhase hop _
  have hwrite : Call.write k d ∈ s.calls := hcall ▸ mem_calls hop
  have hold : ∀ {x : Nat} {content : List UInt8}, s.inodes[x]? = some content →
      (s.inodes ++ [[]])[x]? = some content := by
    intro x content hx
    rw [List.getElem?_append_left (List.getElem?_eq_some_iff.mp hx).1]
    exact hx
  have hset : ∀ p x, (s.dir.set (staging (join absoluteRoot k)) s.inodes.length).get? p = some x →
      (p = staging (join absoluteRoot k) ∧ x = s.inodes.length) ∨
        (p ≠ staging (join absoluteRoot k) ∧ s.dir.get? p = some x ∧ x < s.inodes.length) := by
    intro p x hp
    rw [OrderedMap.get?_set] at hp
    by_cases hpath : p = staging (join absoluteRoot k)
    · rw [if_pos hpath] at hp
      exact Or.inl ⟨hpath, (Option.some.inj hp).symm⟩
    · rw [if_neg hpath] at hp
      exact Or.inr ⟨hpath, hp, (h.entries p x hp).1⟩
  refine ⟨by rw [hcalls]; exact h.apart, ?_, ?_, h.exclusive_writing hcall halone, ?_⟩
  · rw [hcalls]
    intro p x hp
    change x < (s.inodes ++ [[]]).length ∧ _
    rw [List.length_append, List.length_singleton]
    rcases hset p x hp with ⟨rfl, rfl⟩ | ⟨_, hp, hx⟩
    · exact ⟨Nat.lt_succ_self _, k, d, hwrite, Or.inl rfl⟩
    · obtain ⟨_, k', d', hwrite', hpath⟩ := h.entries p x hp
      exact ⟨Nat.lt_succ_of_lt hx, k', d', hwrite', hpath.imp id fun hfile => ⟨hfile.1, hold hfile.2⟩⟩
  · intro p q x hp hq
    rcases hset p x hp with ⟨rfl, rfl⟩ | ⟨_, hp, hx⟩
    · rcases hset q _ hq with ⟨rfl, _⟩ | ⟨_, _, hx⟩
      · rfl
      · exact absurd hx (Nat.lt_irrefl _)
    · rcases hset q x hq with ⟨_, rfl⟩ | ⟨_, hq, _⟩
      · exact absurd hx (Nat.lt_irrefl _)
      · exact h.injective p q x hp hq
  · intro j x hx
    rcases getElem?_setPhase hx with ⟨_, rfl⟩ | ⟨hji, hx⟩
    · unfold OpOk
      rw [hcall]
      refine ⟨OrderedMap.get?_set_self _ _ _, ?_, Nat.zero_le _⟩
      change (s.inodes ++ [[]])[s.inodes.length]? = some (d.take 0)
      simp
    · refine (h.ops j x hx).keep (by rw [hcalls]; exact fun c hc => hc) ?_ ?_
      · rintro k' d' inode' n' rfl hget' hcontent
        refine ⟨?_, hold hcontent⟩
        have hpath : staging (join absoluteRoot k') ≠ staging (join absoluteRoot k) :=
          fun hpath => halone j k' d' inode' n' hji hx (staging_inj.mp hpath)
        exact (OrderedMap.get?_set_of_ne _ _ _ hpath).trans hget'
      · intro k' inode' data _ hheld
        refine ⟨hold hheld.content, fun p hp => ?_⟩
        rcases hset p inode' hp with ⟨_, rfl⟩ | ⟨_, hp, _⟩
        · have hlt := (List.getElem?_eq_some_iff.mp hheld.content).1
          exact absurd hlt (Nat.lt_irrefl _)
        · exact hheld.stands p hp

/-- The rename of a finished write installs its data. -/
theorem Consistent.install (h : Consistent absoluteRoot s) {i : Nat} {k : String} {d : List UInt8} {inode n : Nat}
    (hat : s.At i (.write k d) (.writing inode n)) (hn : n = d.length) :
    s.dir.get? (staging (join absoluteRoot k)) = some inode ∧ s.inodes.getD inode [] = d ∧
      Consistent absoluteRoot { setPhase s i ⟨.write k d, .writing inode n⟩ (.renamed d) with
        dir := (s.dir.delete (staging (join absoluteRoot k))).set (join absoluteRoot k) inode } := by
  obtain ⟨hget, hcontent, _⟩ := h.ops i _ hat
  rw [hn, List.take_length] at hcontent
  have hwrite : Call.write k d ∈ s.calls := mem_calls hat
  have hcalls : State.calls { setPhase s i ⟨.write k d, .writing inode n⟩ (.renamed d) with
      dir := (s.dir.delete (staging (join absoluteRoot k))).set (join absoluteRoot k) inode } = s.calls :=
    calls_setPhase hat _
  have hlt : inode < s.inodes.length := (h.entries _ _ hget).1
  have hentry : ∀ p x, ((s.dir.delete (staging (join absoluteRoot k))).set (join absoluteRoot k) inode).get? p = some x →
      (p = join absoluteRoot k ∧ x = inode) ∨
        (p ≠ join absoluteRoot k ∧ p ≠ staging (join absoluteRoot k) ∧ s.dir.get? p = some x) := by
    intro p x hp
    rw [OrderedMap.get?_set] at hp
    by_cases hfile : p = join absoluteRoot k
    · rw [if_pos hfile] at hp
      exact Or.inl ⟨hfile, (Option.some.inj hp).symm⟩
    · rw [if_neg hfile] at hp
      by_cases hstaging : p = staging (join absoluteRoot k)
      · rw [hstaging, OrderedMap.get?_delete_self] at hp
        cases hp
      · rw [OrderedMap.get?_delete_of_ne _ hstaging] at hp
        exact Or.inr ⟨hfile, hstaging, hp⟩
  refine ⟨hget, ?_, ⟨by rw [hcalls]; exact h.apart, ?_, ?_, ?_, ?_⟩⟩
  · rw [List.getD_eq_getElem?_getD, hcontent]
    rfl
  · rw [hcalls]
    intro p x hp
    rcases hentry p x hp with ⟨rfl, rfl⟩ | ⟨_, _, hp⟩
    · exact ⟨hlt, k, d, hwrite, Or.inr ⟨rfl, hcontent⟩⟩
    · exact h.entries p x hp
  · intro p q x hp hq
    rcases hentry p x hp with ⟨rfl, rfl⟩ | ⟨_, hp', hold⟩
    · rcases hentry q _ hq with ⟨rfl, _⟩ | ⟨_, hq', hold'⟩
      · rfl
      · exact absurd (h.injective _ _ _ hold' hget) hq'
    · rcases hentry q x hq with ⟨_, rfl⟩ | ⟨_, _, hold'⟩
      · exact absurd (h.injective _ _ _ hold hget) hp'
      · exact h.injective p q x hold hold'
  · intro a b k₁ k₂ d₁ d₂ inode₁ inode₂ n₁ n₂ ha hb hab
    rcases getElem?_setPhase ha with ⟨_, hx⟩ | ⟨_, hold⟩
    · cases hx
    · rcases getElem?_setPhase hb with ⟨_, hx⟩ | ⟨_, hold'⟩
      · cases hx
      · exact h.exclusive a b k₁ k₂ d₁ d₂ inode₁ inode₂ n₁ n₂ hold hold' hab
  · intro j x hx
    rcases getElem?_setPhase hx with ⟨_, rfl⟩ | ⟨hji, hx⟩
    · exact rfl
    · refine (h.ops j x hx).keep (by rw [hcalls]; exact fun c hc => hc) ?_ ?_
      · rintro k' d' inode' n' rfl hget' hcontent'
        refine ⟨?_, hcontent'⟩
        have hother : join absoluteRoot k' ≠ join absoluteRoot k := h.exclusive j i k' k d' d inode' inode n' n hx hat hji
        have hapart : Apart absoluteRoot k' k := h.apart_keys (mem_calls hx) hwrite rfl rfl
        refine (OrderedMap.get?_set_of_ne _ _ _ (Ne.symm hapart.right)).trans ?_
        exact (OrderedMap.get?_delete_of_ne _ fun hpath => hother (staging_inj.mp hpath)).trans hget'
      · intro k' inode' data hread hheld
        refine ⟨hheld.content, fun p hp => ?_⟩
        have hreadCall : Call.read k' ∈ s.calls := hread ▸ mem_calls (s := s) hx
        rcases hentry p inode' hp with ⟨_, rfl⟩ | ⟨_, _, hold⟩
        · exact absurd hget (hheld.ne_staged (h.apart_keys hreadCall hwrite rfl rfl))
        · exact hheld.stands p hold

/-- The next bytes of a part read from the front make a longer part. -/
theorem take_append_chunk {d bytes : List UInt8} (h : bytes = d.take bytes.length) (size : Nat) :
    bytes ++ (d.drop bytes.length).take size = d.take (bytes ++ (d.drop bytes.length).take size).length := by
  rw [List.length_append, List.take_add, ← h, List.length_take, ← List.take_eq_take_min]

theorem writeAt_take {d : List UInt8} {offset : Nat} (h : offset ≤ d.length) (size : Nat) :
    writeAt (d.take offset) offset ((d.drop offset).take size) =
      d.take (offset + ((d.drop offset).take size).length) := by
  have hlength : (d.take offset).length = offset := List.length_take_of_le h
  have hrest : (d.take offset).drop (offset + ((d.drop offset).take size).length) = [] :=
    List.drop_eq_nil_of_le (by omega)
  have hchunk : (d.drop offset).take size = (d.drop offset).take ((d.drop offset).take size).length := by
    rw [List.length_take, ← List.take_eq_take_min]
  unfold writeAt
  rw [hrest, hlength, Nat.sub_self, List.replicate_zero, List.append_nil, List.append_nil, List.take_take, Nat.min_self]
  rw [List.take_add, ← hchunk]

end Keep

/-! ## Every step -/

section Runs
variable {absoluteRoot : String} {s t : State}

theorem Consistent.safe (h : Consistent absoluteRoot s) : Safe s where
  reads := fun i _ _ hat => h.ops i _ hat
  writes := fun i _ _ _ hat => h.ops i _ hat
  unhindered := by
    intro i call hat
    have hok := h.ops i _ hat
    unfold OpOk at hok
    cases call <;> exact hok

theorem consistent_empty : Consistent absoluteRoot .empty := by
  refine ⟨?_, ?_, ?_, ?_, ?_⟩
  · intro c hc
    cases hc
  · intro p x hp
    cases hp
  · intro p q x hp
    cases hp
  · intro i j k k' d d' inode inode' n n' hi
    cases hi
  · intro i op hop
    cases hop

theorem Consistent.call (h : Consistent absoluteRoot s) {c : Call}
    (hok : ∀ k ∈ c.key?, ∀ c' ∈ s.calls, ∀ k' ∈ c'.key?, Apart absoluteRoot k k') :
    Consistent absoluteRoot { s with ops := s.ops ++ [⟨c, .called⟩] } := by
  have hcalls : State.calls { s with ops := s.ops ++ [⟨c, .called⟩] } = s.calls ++ [c] := List.map_append
  have hkept : ∀ c' ∈ s.calls, c' ∈ State.calls { s with ops := s.ops ++ [⟨c, .called⟩] } := by
    rw [hcalls]
    exact fun c' hc' => List.mem_append_left _ hc'
  have hold : ∀ (i : Nat) (op : Op), (s.ops ++ [⟨c, .called⟩])[i]? = some op → s.ops[i]? = some op ∨ op = ⟨c, .called⟩ := by
    intro i op hop
    rw [List.getElem?_append] at hop
    split_ifs at hop with hi
    · exact Or.inl hop
    · exact Or.inr (List.mem_singleton.mp (List.mem_of_getElem? hop))
  refine ⟨?_, ?_, h.injective, ?_, ?_⟩
  · rw [hcalls]
    intro c₁ hc₁ c₂ hc₂ k hk k' hk'
    rw [List.mem_append, List.mem_singleton] at hc₁ hc₂
    rcases hc₁ with hc₁ | rfl
    · rcases hc₂ with hc₂ | rfl
      · exact h.apart c₁ hc₁ c₂ hc₂ k hk k' hk'
      · obtain ⟨hfile, hleft, hright⟩ := hok k' hk' c₁ hc₁ k hk
        exact ⟨fun heq => (hfile heq.symm).symm, hright, hleft⟩
    · rcases hc₂ with hc₂ | rfl
      · exact hok k hk c₂ hc₂ k' hk'
      · obtain rfl : k = k' := Option.some.inj (hk.symm.trans hk')
        exact ⟨fun _ => rfl, (staging_ne _).symm, (staging_ne _).symm⟩
  · intro p x hp
    obtain ⟨hx, k, d, hwrite, hpath⟩ := h.entries p x hp
    exact ⟨hx, k, d, hkept _ hwrite, hpath⟩
  · intro i j k k' d d' inode inode' n n' hi hj hij
    rcases hold i _ hi with hi | hnew
    · rcases hold j _ hj with hj | hnew
      · exact h.exclusive i j k k' d d' inode inode' n n' hi hj hij
      · cases hnew
    · cases hnew
  · intro i op hop
    rcases hold i op hop with hop | rfl
    · exact (h.ops i op hop).of_same hkept rfl rfl
    · cases c <;> exact trivial

theorem Consistent.openOp (h : Consistent absoluteRoot s) {i : Nat} {op : Op} (hop : s.ops[i]? = some op)
    (hok : Undisturbed absoluteRoot s (.openFile i)) (ht : openOp absoluteRoot s i op = some t) :
    Consistent absoluteRoot t := by
  obtain ⟨call, phase⟩ := op
  cases phase with
  | called =>
    cases call with
    | write k d =>
      have halone : Alone absoluteRoot s i k := by
        intro j k' d' inode n _ hat
        have hstarting : k ∈ s.ops[i]?.bind startingKey := by
          rw [hop]
          rfl
        exact hok k hstarting k' (List.mem_filterMap.mpr ⟨_, List.mem_of_getElem? hat, rfl⟩)
      unfold FsStorage.openOp at ht
      cases hget : s.dir.get? (staging (join absoluteRoot k)) with
      | some inode =>
        simp only [hget] at ht
        cases ht
        exact h.overwrite hop rfl hget halone (Nat.zero_le _)
      | none =>
        simp only [hget] at ht
        cases ht
        exact h.create hop rfl halone
    | read k =>
      unfold FsStorage.openOp at ht
      cases hget : s.dir.get? (join absoluteRoot k) with
      | some inode =>
        simp only [hget] at ht
        cases ht
        exact h.advance hop trivial (h.holds hop rfl hget)
      | none =>
        simp only [hget] at ht
        cases ht
        exact h.advance hop trivial trivial
    | list start =>
      cases ht
      exact h.advance hop trivial trivial
  | writing | renamed | resolved | opened | reading | returned | notFound | listed | stagingLost | failed =>
    cases call <;> cases ht

theorem Consistent.statOp (h : Consistent absoluteRoot s) {i : Nat} {op : Op} (hop : s.ops[i]? = some op)
    (ht : statOp s i op = some t) : Consistent absoluteRoot t := by
  obtain ⟨call, phase⟩ := op
  cases phase with
  | opened inode =>
    cases ht
    refine h.advance hop trivial ?_
    cases call with
    | read k =>
      obtain ⟨d, hheld⟩ := h.ops i _ hop
      refine ⟨d, hheld, ?_, rfl⟩
      rw [List.getD_eq_getElem?_getD, hheld.content]
      rfl
    | write | list => exact trivial
  | called | writing | renamed | resolved | reading | returned | notFound | listed | stagingLost | failed => cases ht

theorem Consistent.chunkOp (h : Consistent absoluteRoot s) {i size : Nat} {op : Op} (hop : s.ops[i]? = some op)
    (ht : chunkOp s i size op = some t) : Consistent absoluteRoot t := by
  obtain ⟨call, phase⟩ := op
  cases call with
  | write k d =>
    cases phase with
    | writing inode offset =>
      cases ht
      obtain ⟨hget, hcontent, hle⟩ := h.ops i _ hop
      have halone : Alone absoluteRoot s i k := by
        intro j k' d' inode' n hji hat
        exact h.exclusive j i k' k d' d inode' inode n offset hat hop hji
      rw [List.getD_eq_getElem?_getD, hcontent, Option.getD_some, writeAt_take hle]
      refine h.overwrite hop rfl hget halone ?_
      rw [List.length_take, List.length_drop]
      omega
    | called | renamed | resolved | opened | reading | returned | notFound | listed | stagingLost | failed => cases ht
  | read k =>
    cases phase with
    | reading inode total bytes =>
      obtain ⟨d, hheld, htotal, hbytes⟩ := h.ops i _ hop
      have hcontent : s.inodes.getD inode [] = d := by
        rw [List.getD_eq_getElem?_getD, hheld.content]
        rfl
      unfold FsStorage.chunkOp at ht
      simp only [hcontent] at ht
      by_cases hend : (total ≠ 0 ∧ bytes.length = total) ∨ d.length ≤ bytes.length
      · rw [if_pos hend] at ht
        cases ht
        have hlength : d.length ≤ bytes.length := by omega
        rw [List.take_of_length_le hlength] at hbytes
        refine h.advance hop trivial ?_
        rw [hbytes]
        exact hheld.written
      · rw [if_neg hend] at ht
        cases ht
        exact h.advance hop trivial ⟨d, hheld, htotal, take_append_chunk hbytes _⟩
    | called | writing | renamed | resolved | opened | returned | notFound | listed | stagingLost | failed => cases ht
  | list start => cases ht

theorem Consistent.renameOp (h : Consistent absoluteRoot s) {i : Nat} {op : Op} (hop : s.ops[i]? = some op)
    (ht : renameOp absoluteRoot s i op = some t) : Consistent absoluteRoot t := by
  obtain ⟨call, phase⟩ := op
  cases call with
  | write k d =>
    cases phase with
    | writing inode n =>
      unfold FsStorage.renameOp at ht
      by_cases hn : n = d.length
      · obtain ⟨hget, hcontent, hinstalled⟩ := h.install hop hn
        simp only [if_pos hn, hget, hcontent] at ht
        cases ht
        exact hinstalled
      · simp only [if_neg hn] at ht
        cases ht
    | called | renamed | resolved | opened | reading | returned | notFound | listed | stagingLost | failed => cases ht
  | read | list => cases ht

theorem Consistent.resolveOp (h : Consistent absoluteRoot s) {i : Nat} {op : Op} (hop : s.ops[i]? = some op)
    (ht : resolveOp s i op = some t) : Consistent absoluteRoot t := by
  obtain ⟨call, phase⟩ := op
  cases phase with
  | renamed installed =>
    cases ht
    refine h.advance hop trivial ?_
    have hok := h.ops i _ hop
    cases call <;> exact hok
  | called | writing | resolved | opened | reading | returned | notFound | listed | stagingLost | failed => cases ht

theorem Consistent.failOp (h : Consistent absoluteRoot s) {i : Nat} {op : Op} (hop : s.ops[i]? = some op)
    (ht : failOp s i op = some t) : Consistent absoluteRoot t := by
  obtain ⟨call, phase⟩ := op
  have hfailed : OpOk absoluteRoot s ⟨call, .failed⟩ := by cases call <;> exact trivial
  cases phase with
  | called | writing | opened | reading =>
    cases ht
    exact h.advance hop trivial hfailed
  | renamed | resolved | returned | notFound | listed | stagingLost | failed => cases ht

theorem Consistent.step (h : Consistent absoluteRoot s) {a : Action} (hok : Undisturbed absoluteRoot s a)
    (ht : step absoluteRoot s a = some t) : Consistent absoluteRoot t := by
  cases a with
  | call c =>
    rw [FsStorage.step] at ht
    split_ifs at ht
    cases ht
    exact h.call hok
  | openFile i =>
    obtain ⟨op, hop, ht⟩ := Option.bind_eq_some_iff.mp ht
    exact h.openOp hop hok ht
  | stat i =>
    obtain ⟨op, hop, ht⟩ := Option.bind_eq_some_iff.mp ht
    exact h.statOp hop ht
  | chunk i size =>
    obtain ⟨op, hop, ht⟩ := Option.bind_eq_some_iff.mp ht
    exact h.chunkOp hop ht
  | renameFile i =>
    obtain ⟨op, hop, ht⟩ := Option.bind_eq_some_iff.mp ht
    exact h.renameOp hop ht
  | resolve i =>
    obtain ⟨op, hop, ht⟩ := Option.bind_eq_some_iff.mp ht
    exact h.resolveOp hop ht
  | fail i =>
    obtain ⟨op, hop, ht⟩ := Option.bind_eq_some_iff.mp ht
    exact h.failOp hop ht

/-- In every run in which each step is undisturbed the storage is safe. -/
theorem undisturbed_safe (absoluteRoot : String) (as : List Action) (t : State)
    (hok : Along (FsStorage.step absoluteRoot) (Undisturbed absoluteRoot) .empty as)
    (h : exec (FsStorage.step absoluteRoot) .empty as = some t) : Safe t := by
  have hstep : ∀ s a t, Consistent absoluteRoot s → Undisturbed absoluteRoot s a →
      FsStorage.step absoluteRoot s a = some t → Consistent absoluteRoot t :=
    fun _ _ _ hs hundisturbed ht => hs.step hundisturbed ht
  exact (exec_invariant_along hstep consistent_empty hok h).safe

/-- Two writes of a key one after the other, and a read during the second. -/
def orderlyRun : List Action :=
  [.call (.write "w/o/r" [1, 2]), .openFile 0, .chunk 0 1, .chunk 0 1, .renameFile 0, .resolve 0,
    .call (.write "w/o/r" [3]), .openFile 1, .call (.read "w/o/r"), .openFile 2, .chunk 1 1, .stat 2, .renameFile 1,
    .chunk 2 8, .chunk 2 8]

theorem orderlyRun_safe : ∃ t, exec (FsStorage.step "/data") .empty orderlyRun = some t ∧ Safe t :=
  ⟨_, rfl, undisturbed_safe "/data" orderlyRun _ (by decide) rfl⟩

/-- Two writes of a key that overlap, with a read after the first rename. -/
def overlappingRun : List Action :=
  [.call (.write "w/o/r" [1, 2]), .call (.write "w/o/r" [3, 4]), .openFile 0, .chunk 0 2, .openFile 1, .renameFile 0,
    .resolve 0, .call (.read "w/o/r"), .openFile 2, .stat 2, .chunk 2 8, .chunk 1 2, .renameFile 1]

/-- The read returns what no write wrote, the first write has installed nothing of its own, and the second finds
its staging file gone. -/
theorem overlappingRun_unsafe : ∃ t, exec (FsStorage.step "/data") .empty overlappingRun = some t ∧ ¬Safe t ∧
    t.ops = [⟨.write "w/o/r" [1, 2], .resolved []⟩, ⟨.write "w/o/r" [3, 4], .stagingLost⟩,
      ⟨.read "w/o/r", .returned []⟩] := by
  refine ⟨_, rfl, fun hsafe => ?_, by decide⟩
  exact hsafe.unhindered 1 (.write "w/o/r" [3, 4]) rfl

end Runs

end WorkflowEngine.Runtime.FsStorage
