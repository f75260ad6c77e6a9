import Mathlib.Algebra.Group.Nat.Even
import Mathlib.Data.List.Infix

/-!
# Decoding UTF-8 with replacement

The UTF-8 decoder of the encoding standard, byte by byte: a sequence that cannot be continued gives one U+FFFD, and the
byte that stops it is read again. A byte order mark in front is dropped. Decoding pieces one after the other gives what
decoding the whole gives if and only if no piece begins inside a sequence, and none but the first begins with the mark.
-/

namespace WorkflowEngine.Lib.Utf8Decode

set_option autoImplicit false

/-! ## The decoder -/

/--
A sequence with bytes still to come: one between `lower` and `upper`, then `more` continuation bytes. Whatever they
are, the sequence gives a scalar value above 0x7F.
-/
structure Pending where
  codePoint : Nat
  more : Nat
  lower : Nat
  upper : Nat
  lower_ge : 0x80 ≤ lower
  ordered : lower ≤ upper
  upper_le : upper ≤ 0xBF
  scalar : ∀ n, (codePoint * 64 + (lower - 0x80)) * 64 ^ more ≤ n →
    n < (codePoint * 64 + (upper - 0x80) + 1) * 64 ^ more → 0x80 ≤ n ∧ n.isValidChar

/-- Between two sequences, or inside one. -/
abbrev State := Option Pending

def replacement : Char := '\uFFFD'

def twoBytes (b : UInt8) (h : 0xC2 ≤ b.toNat ∧ b.toNat ≤ 0xDF) : Pending where
  codePoint := b.toNat % 32
  more := 0
  lower := 0x80
  upper := 0xBF
  lower_ge := by decide
  ordered := by decide
  upper_le := by decide
  scalar := by
    intro n hlower hupper
    simp only [Nat.isValidChar]
    omega

def threeBytes (b : UInt8) (h : 0xE0 ≤ b.toNat ∧ b.toNat ≤ 0xEF) : Pending where
  codePoint := b.toNat % 16
  more := 1
  lower := if b.toNat = 0xE0 then 0xA0 else 0x80
  upper := if b.toNat = 0xED then 0x9F else 0xBF
  lower_ge := by split <;> decide
  ordered := by split <;> split <;> omega
  upper_le := by split <;> decide
  scalar := by
    intro n hlower hupper
    simp only [Nat.isValidChar]
    split at hlower <;> split at hupper <;> omega

def fourBytes (b : UInt8) (h : 0xF0 ≤ b.toNat ∧ b.toNat ≤ 0xF4) : Pending where
  codePoint := b.toNat % 8
  more := 2
  lower := if b.toNat = 0xF0 then 0x90 else 0x80
  upper := if b.toNat = 0xF4 then 0x8F else 0xBF
  lower_ge := by split <;> decide
  ordered := by split <;> split <;> omega
  upper_le := by split <;> decide
  scalar := by
    intro n hlower hupper
    simp only [Nat.isValidChar]
    split at hlower <;> split at hupper <;> omega

/-- A byte between two sequences. -/
def lead (b : UInt8) : State × List Char :=
  if b.toNat ≤ 0x7F then (none, [Char.ofNat b.toNat])
  else if h : 0xC2 ≤ b.toNat ∧ b.toNat ≤ 0xDF then (some (twoBytes b h), [])
  else if h : 0xE0 ≤ b.toNat ∧ b.toNat ≤ 0xEF then (some (threeBytes b h), [])
  else if h : 0xF0 ≤ b.toNat ∧ b.toNat ≤ 0xF4 then (some (fourBytes b h), [])
  else (none, [replacement])

def Pending.Accepts (p : Pending) (b : UInt8) : Prop := p.lower ≤ b.toNat ∧ b.toNat ≤ p.upper

instance (p : Pending) (b : UInt8) : Decidable (p.Accepts b) := inferInstanceAs (Decidable (_ ∧ _))

theorem Pending.Accepts.continuation {p : Pending} {b : UInt8} (h : p.Accepts b) : 0x80 ≤ b.toNat ∧ b.toNat ≤ 0xBF :=
  ⟨Nat.le_trans p.lower_ge h.1, Nat.le_trans h.2 p.upper_le⟩

/-- The value so far, with the six bits of a continuation byte. -/
def Pending.extend (p : Pending) (b : UInt8) : Nat := p.codePoint * 64 + b.toNat % 64

/-- What a byte between the bounds leaves possible was possible before. -/
theorem Pending.scalar_extend {p : Pending} {b : UInt8} (h : p.Accepts b) {n : Nat}
    (hlower : p.extend b * 64 ^ p.more ≤ n) (hupper : n < (p.extend b + 1) * 64 ^ p.more) :
    0x80 ≤ n ∧ n.isValidChar := by
  have hcontinuation := h.continuation
  have hge := p.lower_ge
  obtain ⟨hb, hb'⟩ := h
  apply p.scalar n
  · exact Nat.le_trans (Nat.mul_le_mul_right _ (by unfold Pending.extend; omega)) hlower
  · exact Nat.lt_of_lt_of_le hupper (Nat.mul_le_mul_right _ (by unfold Pending.extend; omega))

/-- The sequence after a byte that is not its last. -/
def Pending.continued (p : Pending) (b : UInt8) (more : Nat) (hmore : p.more = more + 1) (h : p.Accepts b) : Pending where
  codePoint := p.extend b
  more := more
  lower := 0x80
  upper := 0xBF
  lower_ge := by decide
  ordered := by decide
  upper_le := by decide
  scalar := by
    intro n hlower hupper
    have hpow : 64 ^ p.more = 64 * 64 ^ more := by rw [hmore, Nat.pow_succ, Nat.mul_comm]
    apply Pending.scalar_extend h
    · rw [hpow, ← Nat.mul_assoc]
      exact hlower
    · rw [hpow, ← Nat.mul_assoc]
      exact Nat.lt_of_lt_of_le hupper (Nat.mul_le_mul_right _ (by omega))

/-- A byte that the sequence accepts. -/
def Pending.next (p : Pending) (b : UInt8) (h : p.Accepts b) : State × List Char :=
  match hmore : p.more with
  | 0 => (none, [Char.ofNat (p.extend b)])
  | more + 1 => (some (p.continued b more hmore h), [])

/-- One byte: the state after it and the characters it gives. -/
def step : State → UInt8 → State × List Char
  | none, b => lead b
  | some p, b => if h : p.Accepts b then p.next b h else ((lead b).1, replacement :: (lead b).2)

/-- At the end of the input. -/
def finish : State → List Char
  | none => []
  | some _ => [replacement]

def stateAfter (q : State) (bytes : List UInt8) : State := bytes.foldl (fun q b => (step q b).1) q

def output : State → List UInt8 → List Char
  | _, [] => []
  | q, b :: bytes => (step q b).2 ++ output (step q b).1 bytes

/-- The characters of an input that begins in a state. -/
def decodeFrom (q : State) (bytes : List UInt8) : List Char := output q bytes ++ finish (stateAfter q bytes)

def byteOrderMark : Char := '\uFEFF'

def stripMark : List Char → List Char
  | [] => []
  | c :: cs => if c = byteOrderMark then cs else c :: cs

/-- `new TextDecoder().decode(bytes)`. -/
def decode (bytes : List UInt8) : List Char := stripMark (decodeFrom none bytes)

example : decode [0xEF, 0xBB, 0xBF, 0x41, 0xE2, 0x82, 0xAC, 0xF0, 0x9F, 0x41] = ['A', '€', '\uFFFD', 'A'] := by decide

/-! ## One piece -/

theorem decodeFrom_nil (q : State) : decodeFrom q [] = finish q := rfl

theorem decodeFrom_cons (q : State) (b : UInt8) (bytes : List UInt8) :
    decodeFrom q (b :: bytes) = (step q b).2 ++ decodeFrom (step q b).1 bytes := by
  rw [decodeFrom, output, List.append_assoc]
  rfl

theorem decodeFrom_append (q : State) (before after : List UInt8) :
    decodeFrom q (before ++ after) = output q before ++ decodeFrom (stateAfter q before) after := by
  induction before generalizing q with
  | nil => rfl
  | cons b before ih =>
    rw [List.cons_append, decodeFrom_cons, ih, output, List.append_assoc]
    rfl

theorem stateAfter_append (q : State) (before after : List UInt8) :
    stateAfter q (before ++ after) = stateAfter (stateAfter q before) after := List.foldl_append

/-- The first of the bytes belongs to a sequence that has begun. -/
def Continued (q : State) (bytes : List UInt8) : Prop :=
  ∃ p b, q = some p ∧ bytes.head? = some b ∧ p.Accepts b

theorem step_of_not_accepts {p : Pending} {b : UInt8} (h : ¬ p.Accepts b) :
    step (some p) b = ((lead b).1, replacement :: (lead b).2) := dif_neg h

theorem step_of_accepts {p : Pending} {b : UInt8} (h : p.Accepts b) : step (some p) b = p.next b h := dif_pos h

/-- The end of the input and a byte that does not belong to it do the same to a sequence. -/
theorem decodeFrom_of_not_continued {q : State} {bytes : List UInt8} (h : ¬ Continued q bytes) :
    decodeFrom q bytes = finish q ++ decodeFrom none bytes := by
  cases q with
  | none => rfl
  | some p =>
    cases bytes with
    | nil => rfl
    | cons b bytes =>
      have hnot : ¬ p.Accepts b := fun haccepts => h ⟨p, b, rfl, rfl, haccepts⟩
      rw [decodeFrom_cons, decodeFrom_cons, step_of_not_accepts hnot]
      rfl

/-- A continuation byte on its own is an error. -/
theorem lead_continuation {b : UInt8} (h : 0x80 ≤ b.toNat ∧ b.toNat ≤ 0xBF) : lead b = (none, [replacement]) := by
  obtain ⟨hge, hle⟩ := h
  rw [lead, if_neg (by omega), dif_neg (by omega), dif_neg (by omega), dif_neg (by omega)]

theorem step_last {p : Pending} {b : UInt8} (h : p.Accepts b) (hmore : p.more = 0) :
    step (some p) b = (none, [Char.ofNat (p.extend b)]) := by
  rw [step_of_accepts h, Pending.next]
  split
  · rfl
  · rename_i more hsucc
    omega

theorem step_continued {p : Pending} {b : UInt8} {more : Nat} (h : p.Accepts b) (hmore : p.more = more + 1) :
    step (some p) b = (some (p.continued b more hmore h), []) := by
  rw [step_of_accepts h, Pending.next]
  split
  · omega
  · rename_i more' hsucc
    obtain rfl : more' = more := by omega
    rfl

theorem decodeFrom_last {p : Pending} {b : UInt8} (h : p.Accepts b) (hmore : p.more = 0) (bytes : List UInt8) :
    decodeFrom (some p) (b :: bytes) = Char.ofNat (p.extend b) :: decodeFrom none bytes := by
  rw [decodeFrom_cons, step_last h hmore]
  rfl

theorem decodeFrom_continued {p : Pending} {b : UInt8} {more : Nat} (h : p.Accepts b) (hmore : p.more = more + 1)
    (bytes : List UInt8) :
    decodeFrom (some p) (b :: bytes) = decodeFrom (some (p.continued b more hmore h)) bytes := by
  rw [decodeFrom_cons, step_continued h hmore]
  rfl

/-- Without its beginning a sequence gives more replacements. -/
theorem count_decodeFrom_lt {p : Pending} {b : UInt8} {bytes : List UInt8} (h : p.Accepts b)
    (hrest : ∀ p' : Pending, (decodeFrom (some p') bytes).count replacement ≤
      1 + (decodeFrom none bytes).count replacement) :
    (decodeFrom (some p) (b :: bytes)).count replacement <
      1 + (decodeFrom none (b :: bytes)).count replacement := by
  have halone : decodeFrom none (b :: bytes) = replacement :: decodeFrom none bytes := by
    rw [decodeFrom_cons, step, lead_continuation h.continuation]
    rfl
  rw [halone, List.count_cons_self]
  cases hmore : p.more with
  | zero =>
    have hone : (Char.ofNat (p.extend b) :: decodeFrom none bytes).count replacement ≤
        (decodeFrom none bytes).count replacement + 1 := by
      rw [List.count_cons]
      split <;> omega
    rw [decodeFrom_last h hmore]
    omega
  | succ more =>
    have hcontinued := hrest (p.continued b more hmore h)
    rw [decodeFrom_continued h hmore]
    omega

theorem count_decodeFrom_le (p : Pending) (bytes : List UInt8) :
    (decodeFrom (some p) bytes).count replacement ≤ 1 + (decodeFrom none bytes).count replacement := by
  induction bytes generalizing p with
  | nil => exact Nat.le_refl 1
  | cons b bytes ih =>
    by_cases h : p.Accepts b
    · exact Nat.le_of_lt (count_decodeFrom_lt h ih)
    · have hnot : ¬ Continued (some p) (b :: bytes) := by
        rintro ⟨p', b', hp, hb, haccepts⟩
        rw [← Option.some.inj hp, ← Option.some.inj hb] at haccepts
        exact h haccepts
      rw [decodeFrom_of_not_continued hnot, List.count_append]
      exact Nat.le_refl _

/-! ## ASCII -/

theorem lead_ascii {b : UInt8} (h : b.toNat ≤ 0x7F) : lead b = (none, [Char.ofNat b.toNat]) := if_pos h

/-- An ASCII byte ends whatever has begun. -/
theorem step_ascii {b : UInt8} (h : b.toNat ≤ 0x7F) (q : State) :
    step q b = (none, finish q ++ [Char.ofNat b.toNat]) := by
  cases q with
  | none => exact lead_ascii h
  | some p =>
    have hnot : ¬ p.Accepts b := by
      intro haccepts
      have hcontinuation := haccepts.continuation
      omega
    rw [step_of_not_accepts hnot, lead_ascii h]
    rfl

theorem stateAfter_ascii {b : UInt8} (h : b.toNat ≤ 0x7F) (q : State) (bytes : List UInt8) :
    stateAfter q (bytes ++ [b]) = none := by
  rw [stateAfter, List.foldl_append, List.foldl_cons, List.foldl_nil, step_ascii h]

theorem decodeFrom_ascii {b : UInt8} (h : b.toNat ≤ 0x7F) (q : State) (bytes : List UInt8) :
    decodeFrom q (bytes ++ [b]) = decodeFrom q bytes ++ [Char.ofNat b.toNat] := by
  have hend : decodeFrom none [] = [] := rfl
  rw [decodeFrom_append, decodeFrom_cons, step_ascii h, hend, List.append_nil, ← List.append_assoc]
  rfl

/-! ## Pieces -/

/-- No piece begins inside a sequence. -/
def UncutFrom : State → List (List UInt8) → Prop
  | _, [] => True
  | q, piece :: pieces => ¬ Continued q piece ∧ UncutFrom (stateAfter q piece) pieces

theorem decodeFrom_flatten {q : State} {pieces : List (List UInt8)} (h : UncutFrom q pieces) :
    decodeFrom q pieces.flatten = finish q ++ pieces.flatMap (decodeFrom none) := by
  induction pieces generalizing q with
  | nil => exact (List.append_nil _).symm
  | cons piece pieces ih =>
    obtain ⟨hnot, hrest⟩ := h
    calc
      decodeFrom q (piece ++ pieces.flatten) =
          output q piece ++ decodeFrom (stateAfter q piece) pieces.flatten := decodeFrom_append q piece _
      _ = decodeFrom q piece ++ pieces.flatMap (decodeFrom none) := by
        rw [ih hrest, decodeFrom, List.append_assoc]
      _ = finish q ++ (piece :: pieces).flatMap (decodeFrom none) := by
        rw [decodeFrom_of_not_continued hnot, List.flatMap_cons, List.append_assoc]

theorem count_decodeFrom_piece (q : State) (piece : List UInt8) :
    (decodeFrom q piece).count replacement ≤ (finish q).count replacement + (decodeFrom none piece).count replacement := by
  cases q with
  | none => exact Nat.le_add_left _ _
  | some p => exact count_decodeFrom_le p piece

theorem count_decodeFrom_continued {q : State} {piece : List UInt8} (h : Continued q piece) :
    (decodeFrom q piece).count replacement < (finish q).count replacement + (decodeFrom none piece).count replacement := by
  obtain ⟨p, b, rfl, hb, haccepts⟩ := h
  cases piece with
  | nil => exact absurd hb (by simp)
  | cons b' bytes =>
    rw [← Option.some.inj hb] at haccepts
    exact count_decodeFrom_lt haccepts fun p' => count_decodeFrom_le p' bytes

/-- The replacements of the whole, and those of the pieces. -/
theorem count_decodeFrom_cons (q : State) (piece : List UInt8) (pieces : List (List UInt8))
    {n : Nat} (h : (decodeFrom (stateAfter q piece) pieces.flatten).count replacement ≤
      (finish (stateAfter q piece)).count replacement + n) :
    (decodeFrom q (piece :: pieces).flatten).count replacement ≤ (decodeFrom q piece).count replacement + n := by
  have hpiece : (decodeFrom q piece).count replacement =
      (output q piece).count replacement + (finish (stateAfter q piece)).count replacement := List.count_append
  rw [List.flatten_cons, decodeFrom_append, List.count_append]
  omega

theorem count_decodeFrom_flatten_le (q : State) (pieces : List (List UInt8)) :
    (decodeFrom q pieces.flatten).count replacement ≤
      (finish q).count replacement + (pieces.flatMap (decodeFrom none)).count replacement := by
  induction pieces generalizing q with
  | nil => exact Nat.le_refl _
  | cons piece pieces ih =>
    have hpieces := count_decodeFrom_cons q piece pieces (ih (stateAfter q piece))
    have hpiece := count_decodeFrom_piece q piece
    rw [List.flatMap_cons, List.count_append]
    omega

theorem count_decodeFrom_flatten_lt {q : State} {pieces : List (List UInt8)} (h : ¬ UncutFrom q pieces) :
    (decodeFrom q pieces.flatten).count replacement <
      (finish q).count replacement + (pieces.flatMap (decodeFrom none)).count replacement := by
  induction pieces generalizing q with
  | nil => exact absurd trivial h
  | cons piece pieces ih =>
    rw [List.flatMap_cons, List.count_append]
    by_cases hcontinued : Continued q piece
    · have hpieces := count_decodeFrom_cons q piece pieces (count_decodeFrom_flatten_le _ pieces)
      have hpiece := count_decodeFrom_continued hcontinued
      omega
    · have hrest := ih fun huncut => h ⟨hcontinued, huncut⟩
      have hpiece := count_decodeFrom_piece q piece
      rw [List.flatten_cons, decodeFrom_append, List.count_append]
      rw [decodeFrom, List.count_append] at hpiece
      omega

/-! ## Sequences and characters -/

/-- The characters that the bytes to come can give. -/
def Pending.Reaches (p : Pending) (c : Char) : Prop :=
  (p.codePoint * 64 + (p.lower - 0x80)) * 64 ^ p.more ≤ c.toNat ∧
    c.toNat < (p.codePoint * 64 + (p.upper - 0x80) + 1) * 64 ^ p.more

/-- The continuation byte of a character that `more` others follow. -/
def continuation (c : Char) (more : Nat) : UInt8 := UInt8.ofNat (c.toNat / 64 ^ more % 64 + 0x80)

def continuations (c : Char) : Nat → List UInt8
  | 0 => [continuation c 0]
  | more + 1 => continuation c (more + 1) :: continuations c more

theorem head?_continuations (c : Char) (more : Nat) : (continuations c more).head? = some (continuation c more) := by
  cases more with
  | zero => rfl
  | succ more => rfl

theorem continuation_zero (c : Char) : continuation c 0 = UInt8.ofNat (c.toNat % 64 + 0x80) := by
  rw [continuation, Nat.pow_zero, Nat.div_one]

theorem utf8EncodeChar_one {c : Char} (h : c.toNat ≤ 0x7F) : String.utf8EncodeChar c = [UInt8.ofNat c.toNat] := if_pos h

theorem utf8EncodeChar_two {c : Char} (h : 0x80 ≤ c.toNat) (h' : c.toNat < 0x800) :
    String.utf8EncodeChar c = UInt8.ofNat (c.toNat / 64 + 0xC0) :: continuations c 0 := by
  have hlead : c.toNat / 64 % 0x20 = c.toNat / 64 := Nat.mod_eq_of_lt (by omega)
  change c.val.toNat / 64 % 0x20 = c.toNat / 64 at hlead
  change 0x80 ≤ c.val.toNat at h
  change c.val.toNat < 0x800 at h'
  rw [String.utf8EncodeChar, if_neg (by omega), if_pos (by omega), hlead, continuations, continuation_zero]
  rfl

theorem utf8EncodeChar_three {c : Char} (h : 0x800 ≤ c.toNat) (h' : c.toNat < 0x10000) :
    String.utf8EncodeChar c = UInt8.ofNat (c.toNat / 4096 + 0xE0) :: continuations c 1 := by
  have hlead : c.toNat / 4096 % 0x10 = c.toNat / 4096 := Nat.mod_eq_of_lt (by omega)
  change c.val.toNat / 4096 % 0x10 = c.toNat / 4096 at hlead
  change 0x800 ≤ c.val.toNat at h
  change c.val.toNat < 0x10000 at h'
  rw [String.utf8EncodeChar, if_neg (by omega), if_neg (by omega), if_pos (by omega), hlead, continuations, continuations,
    continuation_zero]
  rfl

theorem utf8EncodeChar_four {c : Char} (h : 0x10000 ≤ c.toNat) :
    String.utf8EncodeChar c = UInt8.ofNat (c.toNat / 262144 + 0xF0) :: continuations c 2 := by
  have hvalid : c.toNat < 0xD800 ∨ 0xDFFF < c.toNat ∧ c.toNat < 0x110000 := c.valid
  have hlead : c.toNat / 262144 % 0x08 = c.toNat / 262144 := Nat.mod_eq_of_lt (by omega)
  change c.val.toNat / 262144 % 0x08 = c.toNat / 262144 at hlead
  change 0x10000 ≤ c.val.toNat at h
  rw [String.utf8EncodeChar, if_neg (by omega), if_neg (by omega), if_neg (by omega), hlead, continuations, continuations,
    continuations, continuation_zero]
  rfl

theorem reaches_twoBytes {b : UInt8} (h : 0xC2 ≤ b.toNat ∧ b.toNat ≤ 0xDF) {c : Char} :
    (twoBytes b h).Reaches c ↔ (0x80 ≤ c.toNat ∧ c.toNat < 0x800) ∧ c.toNat / 64 + 0xC0 = b.toNat := by
  simp only [Pending.Reaches, twoBytes]
  omega

theorem reaches_threeBytes {b : UInt8} (h : 0xE0 ≤ b.toNat ∧ b.toNat ≤ 0xEF) {c : Char} :
    (threeBytes b h).Reaches c ↔ (0x800 ≤ c.toNat ∧ c.toNat < 0x10000) ∧ c.toNat / 4096 + 0xE0 = b.toNat := by
  have hvalid : c.toNat < 0xD800 ∨ 0xDFFF < c.toNat ∧ c.toNat < 0x110000 := c.valid
  simp only [Pending.Reaches, threeBytes]
  split <;> split <;> omega

theorem reaches_fourBytes {b : UInt8} (h : 0xF0 ≤ b.toNat ∧ b.toNat ≤ 0xF4) {c : Char} :
    (fourBytes b h).Reaches c ↔ 0x10000 ≤ c.toNat ∧ c.toNat / 262144 + 0xF0 = b.toNat := by
  have hvalid : c.toNat < 0xD800 ∨ 0xDFFF < c.toNat ∧ c.toNat < 0x110000 := c.valid
  simp only [Pending.Reaches, fourBytes]
  split <;> split <;> omega

theorem lead_cases (b : UInt8) :
    (b.toNat ≤ 0x7F ∧ lead b = (none, [Char.ofNat b.toNat])) ∨ lead b = (none, [replacement]) ∨
      ∃ p, lead b = (some p, []) ∧
        ((∃ htwo, p = twoBytes b htwo) ∨ (∃ hthree, p = threeBytes b hthree) ∨ ∃ hfour, p = fourBytes b hfour) := by
  unfold lead
  split
  · rename_i hascii
    exact Or.inl ⟨hascii, rfl⟩
  · right
    split
    · exact Or.inr ⟨_, rfl, Or.inl ⟨_, rfl⟩⟩
    · split
      · exact Or.inr ⟨_, rfl, Or.inr (Or.inl ⟨_, rfl⟩)⟩
      · split
        · exact Or.inr ⟨_, rfl, Or.inr (Or.inr ⟨_, rfl⟩)⟩
        · exact Or.inl rfl

theorem lead_some {b : UInt8} {p : Pending} (h : (lead b).1 = some p) :
    (∃ htwo, p = twoBytes b htwo) ∨ (∃ hthree, p = threeBytes b hthree) ∨ ∃ hfour, p = fourBytes b hfour := by
  rcases lead_cases b with ⟨-, hlead⟩ | hlead | ⟨p', hlead, hcases⟩
  · rw [hlead] at h
    exact absurd h (by simp)
  · rw [hlead] at h
    exact absurd h (by simp)
  · rw [hlead] at h
    rw [← Option.some.inj h]
    exact hcases

theorem lead_twoBytes {b : UInt8} (h : 0xC2 ≤ b.toNat ∧ b.toNat ≤ 0xDF) : lead b = (some (twoBytes b h), []) := by
  rw [lead, if_neg (by omega), dif_pos h]

theorem lead_threeBytes {b : UInt8} (h : 0xE0 ≤ b.toNat ∧ b.toNat ≤ 0xEF) : lead b = (some (threeBytes b h), []) := by
  rw [lead, if_neg (by omega), dif_neg (by omega), dif_pos h]

theorem lead_fourBytes {b : UInt8} (h : 0xF0 ≤ b.toNat ∧ b.toNat ≤ 0xF4) : lead b = (some (fourBytes b h), []) := by
  rw [lead, if_neg (by omega), dif_neg (by omega), dif_neg (by omega), dif_pos h]

/-- The characters that a first byte can begin are those whose encoding it begins. -/
theorem utf8EncodeChar_of_lead {b : UInt8} {p : Pending} {c : Char} (hlead : (lead b).1 = some p) (hc : p.Reaches c) :
    String.utf8EncodeChar c = b :: continuations c p.more := by
  rcases lead_some hlead with ⟨h, rfl⟩ | ⟨h, rfl⟩ | ⟨h, rfl⟩
  · obtain ⟨hsize, hbyte⟩ := (reaches_twoBytes h).mp hc
    rw [utf8EncodeChar_two hsize.1 hsize.2, hbyte, UInt8.ofNat_toNat]
    rfl
  · obtain ⟨hsize, hbyte⟩ := (reaches_threeBytes h).mp hc
    rw [utf8EncodeChar_three hsize.1 hsize.2, hbyte, UInt8.ofNat_toNat]
    rfl
  · obtain ⟨hsize, hbyte⟩ := (reaches_fourBytes h).mp hc
    rw [utf8EncodeChar_four hsize, hbyte, UInt8.ofNat_toNat]
    rfl

theorem exists_lead {c : Char} (h : 0x80 ≤ c.toNat) : ∃ b p, lead b = (some p, []) ∧ p.Reaches c := by
  have hvalid : c.toNat < 0xD800 ∨ 0xDFFF < c.toNat ∧ c.toNat < 0x110000 := c.valid
  by_cases htwo : c.toNat < 0x800
  · have hb : (UInt8.ofNat (c.toNat / 64 + 0xC0)).toNat = c.toNat / 64 + 0xC0 :=
      UInt8.toNat_ofNat_of_lt' (by simp only [UInt8.size]; omega)
    have hbounds : 0xC2 ≤ (UInt8.ofNat (c.toNat / 64 + 0xC0)).toNat ∧ (UInt8.ofNat (c.toNat / 64 + 0xC0)).toNat ≤ 0xDF := by
      omega
    exact ⟨_, _, lead_twoBytes hbounds, (reaches_twoBytes hbounds).mpr ⟨⟨h, htwo⟩, hb.symm⟩⟩
  · by_cases hthree : c.toNat < 0x10000
    · have hb : (UInt8.ofNat (c.toNat / 4096 + 0xE0)).toNat = c.toNat / 4096 + 0xE0 :=
        UInt8.toNat_ofNat_of_lt' (by simp only [UInt8.size]; omega)
      have hbounds : 0xE0 ≤ (UInt8.ofNat (c.toNat / 4096 + 0xE0)).toNat ∧
          (UInt8.ofNat (c.toNat / 4096 + 0xE0)).toNat ≤ 0xEF := by omega
      exact ⟨_, _, lead_threeBytes hbounds, (reaches_threeBytes hbounds).mpr ⟨⟨by omega, hthree⟩, hb.symm⟩⟩
    · have hb : (UInt8.ofNat (c.toNat / 262144 + 0xF0)).toNat = c.toNat / 262144 + 0xF0 :=
        UInt8.toNat_ofNat_of_lt' (by simp only [UInt8.size]; omega)
      have hbounds : 0xF0 ≤ (UInt8.ofNat (c.toNat / 262144 + 0xF0)).toNat ∧
          (UInt8.ofNat (c.toNat / 262144 + 0xF0)).toNat ≤ 0xF4 := by omega
      exact ⟨_, _, lead_fourBytes hbounds, (reaches_fourBytes hbounds).mpr ⟨by omega, hb.symm⟩⟩

/-! ## Continuation bytes -/

theorem toNat_continuation (c : Char) (more : Nat) :
    (continuation c more).toNat = c.toNat / 64 ^ more % 64 + 0x80 := by
  have hmod : c.toNat / 64 ^ more % 64 < 64 := Nat.mod_lt _ (by decide)
  exact UInt8.toNat_ofNat_of_lt' (by simp only [UInt8.size]; omega)

/-- The byte that a sequence needs next for a character it can give. -/
theorem accepts_of_reaches {p : Pending} {c : Char} {more : Nat} (h : p.Reaches c) (hmore : p.more = more) :
    p.Accepts (continuation c more) ∧ c.toNat / 64 ^ more = p.extend (continuation c more) := by
  subst hmore
  have hpos : 0 < 64 ^ p.more := Nat.pow_pos (by decide)
  have hge := p.lower_ge
  have hordered := p.ordered
  have hle := p.upper_le
  have hlower : p.codePoint * 64 + (p.lower - 0x80) ≤ c.toNat / 64 ^ p.more := (Nat.le_div_iff_mul_le hpos).mpr h.1
  have hupper : c.toNat / 64 ^ p.more < p.codePoint * 64 + (p.upper - 0x80) + 1 := (Nat.div_lt_iff_lt_mul hpos).mpr h.2
  rw [Pending.Accepts, Pending.extend, toNat_continuation]
  omega

theorem reaches_of_accepts {p : Pending} {b : UInt8} {c : Char} {more : Nat} (h : p.Accepts b) (hmore : p.more = more)
    (hc : c.toNat / 64 ^ more = p.extend b) : p.Reaches c ∧ continuation c more = b := by
  subst hmore
  have hpos : 0 < 64 ^ p.more := Nat.pow_pos (by decide)
  have hcontinuation := h.continuation
  have hge := p.lower_ge
  obtain ⟨hb, hb'⟩ := h
  rw [Pending.extend] at hc
  refine ⟨⟨?_, ?_⟩, ?_⟩
  · apply (Nat.le_div_iff_mul_le hpos).mp
    omega
  · apply (Nat.div_lt_iff_lt_mul hpos).mp
    omega
  · have hbyte : c.toNat / 64 ^ p.more % 64 + 0x80 = b.toNat := by omega
    rw [continuation, hbyte, UInt8.ofNat_toNat]

theorem reaches_continued {p : Pending} {b : UInt8} {c : Char} {more : Nat} (h : p.Accepts b) (hmore : p.more = more + 1) :
    (p.continued b more hmore h).Reaches c ↔ c.toNat / 64 ^ p.more = p.extend b := by
  have hpow : 64 ^ p.more = 64 * 64 ^ more := by rw [hmore, Nat.pow_succ, Nat.mul_comm]
  have hpos : 0 < 64 ^ p.more := Nat.pow_pos (by decide)
  have hleast : p.extend b * 64 * 64 ^ more = p.extend b * 64 ^ p.more := by rw [hpow, Nat.mul_assoc]
  have hbound : (p.extend b * 64 + 63 + 1) * 64 ^ more = (p.extend b + 1) * 64 ^ p.more := by
    rw [hpow, ← Nat.mul_assoc, Nat.add_mul (p.extend b) 1 64]
  simp only [Pending.Reaches, Pending.continued, Nat.reduceSub, Nat.add_zero]
  rw [hleast, hbound, ← Nat.le_div_iff_mul_le hpos, ← Nat.div_lt_iff_lt_mul hpos]
  omega

theorem toNat_ofNat {n : Nat} (h : n.isValidChar) : (Char.ofNat n).toNat = n := by
  rw [Char.ofNat, dif_pos h]
  rfl

theorem scalar_last {p : Pending} {b : UInt8} (h : p.Accepts b) (hmore : p.more = 0) :
    0x80 ≤ p.extend b ∧ (p.extend b).isValidChar := by
  apply Pending.scalar_extend h
  · rw [hmore, Nat.pow_zero, Nat.mul_one]
  · rw [hmore, Nat.pow_zero, Nat.mul_one]
    exact Nat.lt_succ_self _

/-- A sequence followed by the bytes it needs for a character gives the character. -/
theorem decodeFrom_continuations {p : Pending} {c : Char} {more : Nat} (h : p.Reaches c) (hmore : p.more = more)
    (rest : List UInt8) : decodeFrom (some p) (continuations c more ++ rest) = c :: decodeFrom none rest := by
  induction more generalizing p with
  | zero =>
    obtain ⟨haccepts, hextend⟩ := accepts_of_reaches h hmore
    rw [Nat.pow_zero, Nat.div_one] at hextend
    rw [continuations, List.singleton_append, decodeFrom_last haccepts hmore, ← hextend, Char.ofNat_toNat]
  | succ more ih =>
    obtain ⟨haccepts, hextend⟩ := accepts_of_reaches h hmore
    have hreaches : (p.continued _ more hmore haccepts).Reaches c :=
      (reaches_continued haccepts hmore).mpr (by rw [hmore, hextend])
    rw [continuations, List.cons_append, decodeFrom_continued haccepts hmore, ih hreaches rfl]

/-- The decoder gives back an encoded character. -/
theorem decodeFrom_utf8EncodeChar (c : Char) (rest : List UInt8) :
    decodeFrom none (String.utf8EncodeChar c ++ rest) = c :: decodeFrom none rest := by
  by_cases hascii : c.toNat ≤ 0x7F
  · have hbyte : (UInt8.ofNat c.toNat).toNat = c.toNat := UInt8.toNat_ofNat_of_lt' (by simp only [UInt8.size]; omega)
    have hlead : lead (UInt8.ofNat c.toNat) = (none, [c]) := by
      rw [lead_ascii (by omega), hbyte, Char.ofNat_toNat]
    rw [utf8EncodeChar_one hascii, List.singleton_append, decodeFrom_cons, step, hlead]
    rfl
  · obtain ⟨b, p, hlead, hreaches⟩ := exists_lead (by omega : 0x80 ≤ c.toNat)
    rw [utf8EncodeChar_of_lead (congrArg Prod.fst hlead) hreaches, List.cons_append, decodeFrom_cons, step, hlead]
    exact decodeFrom_continuations hreaches rfl rest

/-- An ASCII character comes from its own byte. -/
theorem mem_of_mem_decodeFrom {q : State} {bytes : List UInt8} {c : Char} (hc : c.toNat ≤ 0x7F)
    (h : c ∈ decodeFrom q bytes) : UInt8.ofNat c.toNat ∈ bytes := by
  have hreplacement : c ≠ replacement := by
    rintro rfl
    exact absurd hc (by decide)
  induction bytes generalizing q with
  | nil =>
    cases q with
    | none => exact absurd h List.not_mem_nil
    | some p => exact absurd (List.mem_singleton.mp h) hreplacement
  | cons b bytes ih =>
    have hlead : c ∈ (lead b).2 → UInt8.ofNat c.toNat ∈ b :: bytes := by
      intro hmem
      rcases lead_cases b with ⟨hascii, hlead⟩ | hlead | ⟨p, hlead, -⟩
      · rw [hlead] at hmem
        rw [List.mem_singleton.mp hmem, toNat_ofNat (Or.inl (by omega)), UInt8.ofNat_toNat]
        exact List.mem_cons_self
      · rw [hlead] at hmem
        exact absurd (List.mem_singleton.mp hmem) hreplacement
      · rw [hlead] at hmem
        exact absurd hmem List.not_mem_nil
    rw [decodeFrom_cons] at h
    rcases List.mem_append.mp h with hstep | hrest
    · cases q with
      | none => exact hlead hstep
      | some p =>
        by_cases haccepts : p.Accepts b
        · cases hmore : p.more with
          | zero =>
            rw [step_last haccepts hmore] at hstep
            have hscalar := scalar_last haccepts hmore
            have hvalue : c.toNat = p.extend b := by
              rw [List.mem_singleton.mp hstep, toNat_ofNat hscalar.2]
            omega
          | succ more =>
            rw [step_continued haccepts hmore] at hstep
            exact absurd hstep List.not_mem_nil
        · rw [step_of_not_accepts haccepts] at hstep
          rcases List.mem_cons.mp hstep with hfirst | hmem
          · exact absurd hfirst hreplacement
          · exact hlead hmem
    · exact List.mem_cons_of_mem b (ih hrest)

/-- A sequence that gives a character is continued by the bytes of that character. -/
theorem continuations_prefix {p : Pending} {bytes : List UInt8} {c : Char} (hc : c ≠ replacement)
    (h : (decodeFrom (some p) bytes).head? = some c) : p.Reaches c ∧ continuations c p.more <+: bytes := by
  induction bytes generalizing p with
  | nil => exact absurd (Option.some.inj h).symm hc
  | cons b bytes ih =>
    by_cases haccepts : p.Accepts b
    · cases hmore : p.more with
      | zero =>
        have hchar : Char.ofNat (p.extend b) = c := by
          rw [decodeFrom_last haccepts hmore] at h
          exact Option.some.inj h
        have hvalue : c.toNat / 64 ^ 0 = p.extend b := by
          rw [← hchar, toNat_ofNat (scalar_last haccepts hmore).2, Nat.pow_zero, Nat.div_one]
        obtain ⟨hreaches, hbyte⟩ := reaches_of_accepts haccepts hmore hvalue
        rw [continuations, hbyte]
        exact ⟨hreaches, bytes, rfl⟩
      | succ more =>
        rw [decodeFrom_continued haccepts hmore] at h
        obtain ⟨hrest, hbegins⟩ := ih h
        have hvalue := (reaches_continued haccepts hmore).mp hrest
        rw [hmore] at hvalue
        obtain ⟨hreaches, hbyte⟩ := reaches_of_accepts haccepts hmore hvalue
        rw [continuations, hbyte]
        exact ⟨hreaches, List.cons_prefix_cons.mpr ⟨rfl, hbegins⟩⟩
    · rw [decodeFrom_cons, step_of_not_accepts haccepts] at h
      exact absurd (Option.some.inj h).symm hc

/-- The first character is the replacement, or its encoding begins the input. -/
theorem utf8EncodeChar_prefix {bytes : List UInt8} {c : Char} (hc : c ≠ replacement)
    (h : (decodeFrom none bytes).head? = some c) : String.utf8EncodeChar c <+: bytes := by
  cases bytes with
  | nil => exact absurd h (by simp [decodeFrom_nil, finish])
  | cons b bytes =>
    rw [decodeFrom_cons, step] at h
    rcases lead_cases b with ⟨hascii, hlead⟩ | hlead | ⟨p, hlead, -⟩
    · rw [hlead] at h
      have hchar : Char.ofNat b.toNat = c := Option.some.inj h
      have hvalue : c.toNat = b.toNat := by
        rw [← hchar]
        exact toNat_ofNat (Or.inl (by omega))
      rw [utf8EncodeChar_one (by omega), hvalue, UInt8.ofNat_toNat]
      exact ⟨bytes, rfl⟩
    · rw [hlead] at h
      exact absurd (Option.some.inj h).symm hc
    · rw [hlead, List.nil_append] at h
      obtain ⟨hreaches, hbegins⟩ := continuations_prefix hc h
      rw [utf8EncodeChar_of_lead (congrArg Prod.fst hlead) hreaches]
      exact List.cons_prefix_cons.mpr ⟨rfl, hbegins⟩

/-! ## Cuts inside a character -/

/-- The last bytes before a cut and the byte after it begin the encoding of one character. -/
def Splits (before after : List UInt8) : Prop :=
  ∃ sequence b c, sequence ≠ [] ∧ sequence <:+ before ∧ after.head? = some b ∧
    sequence ++ [b] <+: String.utf8EncodeChar c

/-- A byte that a sequence accepts is the next byte of some character that the sequence can give. -/
theorem exists_reaches {p : Pending} {b : UInt8} (h : p.Accepts b) : ∃ c, p.Reaches c ∧ continuation c p.more = b := by
  have hpos : 0 < 64 ^ p.more := Nat.pow_pos (by decide)
  have hscalar : 0x80 ≤ p.extend b * 64 ^ p.more ∧ (p.extend b * 64 ^ p.more).isValidChar := by
    apply Pending.scalar_extend h (Nat.le_refl _)
    exact Nat.mul_lt_mul_of_pos_right (Nat.lt_succ_self _) hpos
  have hvalue : (Char.ofNat (p.extend b * 64 ^ p.more)).toNat / 64 ^ p.more = p.extend b := by
    rw [toNat_ofNat hscalar.2, Nat.mul_div_cancel _ hpos]
  exact ⟨_, reaches_of_accepts h rfl hvalue⟩

theorem stateAfter_concat (q : State) (bytes : List UInt8) (b : UInt8) :
    stateAfter q (bytes ++ [b]) = (step (stateAfter q bytes) b).1 := stateAfter_append q bytes [b]

/-- Inside a sequence, the last bytes read are the first bytes of every character that it can give. -/
theorem exists_sequence {before : List UInt8} {p : Pending} (h : stateAfter none before = some p) :
    ∃ sequence, sequence ≠ [] ∧ sequence <:+ before ∧
      ∀ c, p.Reaches c → String.utf8EncodeChar c = sequence ++ continuations c p.more := by
  induction before using List.reverseRecOn generalizing p with
  | nil => exact absurd h (by simp [stateAfter])
  | append_singleton before b ih =>
    have hsuffix : [b] <:+ before ++ [b] := List.suffix_append before [b]
    rw [stateAfter_concat] at h
    cases hstate : stateAfter none before with
    | none =>
      rw [hstate] at h
      exact ⟨[b], List.cons_ne_nil _ _, hsuffix, fun c hc => utf8EncodeChar_of_lead h hc⟩
    | some p' =>
      rw [hstate] at h
      by_cases haccepts : p'.Accepts b
      · cases hmore : p'.more with
        | zero =>
          rw [step_last haccepts hmore] at h
          exact absurd h (by simp)
        | succ more =>
          rw [step_continued haccepts hmore] at h
          rw [← Option.some.inj h]
          obtain ⟨sequence, hne, hbefore, hall⟩ := ih hstate
          refine ⟨sequence ++ [b], by simp, (List.suffix_append_inj_of_length_eq rfl).mpr ⟨hbefore, rfl⟩, ?_⟩
          intro c hc
          have hvalue := (reaches_continued haccepts hmore).mp hc
          rw [hmore] at hvalue
          obtain ⟨hreaches, hbyte⟩ := reaches_of_accepts haccepts hmore hvalue
          rw [hall c hreaches, hmore, continuations, hbyte, List.append_assoc]
          rfl
      · rw [step_of_not_accepts haccepts] at h
        exact ⟨[b], List.cons_ne_nil _ _, hsuffix, fun c hc => utf8EncodeChar_of_lead h hc⟩

/-- Within the encoding of a character the next byte is accepted. -/
theorem accepts_of_prefix {p : Pending} {c : Char} {more : Nat} {bytes : List UInt8} {b : UInt8} (h : p.Reaches c)
    (hmore : p.more = more) (hbegins : bytes ++ [b] <+: continuations c more) :
    ∃ p', stateAfter (some p) bytes = some p' ∧ p'.Accepts b := by
  induction bytes generalizing p more with
  | nil =>
    obtain ⟨rest, hrest⟩ := hbegins
    have hb : continuation c more = b := by
      have hhead := head?_continuations c more
      rw [← hrest] at hhead
      exact (Option.some.inj hhead).symm
    rw [← hb]
    exact ⟨p, rfl, (accepts_of_reaches h hmore).1⟩
  | cons x bytes ih =>
    cases more with
    | zero =>
      have hlength := hbegins.length_le
      simp [continuations] at hlength
    | succ more =>
      obtain ⟨hx, htail⟩ := List.cons_prefix_cons.mp hbegins
      obtain ⟨haccepts, hextend⟩ := accepts_of_reaches h hmore
      rw [← hx] at haccepts hextend
      have hreaches : (p.continued x more hmore haccepts).Reaches c :=
        (reaches_continued haccepts hmore).mpr (by rw [hmore, hextend])
      obtain ⟨p', hstate, hb⟩ := ih hreaches rfl htail
      refine ⟨p', ?_, hb⟩
      rw [← hstate, stateAfter, List.foldl_cons, step_continued haccepts hmore]
      rfl

/-- A first byte of a longer encoding begins a sequence wherever it stands. -/
theorem step_lead {b : UInt8} {p : Pending} (h : lead b = (some p, [])) (q : State) : (step q b).1 = some p := by
  cases q with
  | none => rw [step, h]
  | some p' =>
    have hnot : ¬ p'.Accepts b := by
      intro haccepts
      have hcontinuation := lead_continuation haccepts.continuation
      rw [h] at hcontinuation
      exact absurd (congrArg Prod.fst hcontinuation) (by simp)
    rw [step_of_not_accepts hnot, h]

theorem splits_iff {before after : List UInt8} : Splits before after ↔ Continued (stateAfter none before) after := by
  constructor
  · rintro ⟨sequence, b, c, hne, ⟨front, hbefore⟩, hhead, hbegins⟩
    obtain ⟨first, bytes, rfl⟩ := List.exists_cons_of_ne_nil hne
    have hlarge : 0x80 ≤ c.toNat := by
      by_contra hascii
      have hlength := hbegins.length_le
      rw [utf8EncodeChar_one (by omega)] at hlength
      simp at hlength
    obtain ⟨b', p, hlead, hreaches⟩ := exists_lead hlarge
    rw [utf8EncodeChar_of_lead (congrArg Prod.fst hlead) hreaches] at hbegins
    obtain ⟨hfirst, htail⟩ := List.cons_prefix_cons.mp hbegins
    rw [← hfirst] at hlead
    obtain ⟨p', hstate, haccepts⟩ := accepts_of_prefix hreaches rfl htail
    refine ⟨p', b, ?_, hhead, haccepts⟩
    rw [← hbefore, stateAfter_append, stateAfter, List.foldl_cons, step_lead hlead]
    exact hstate
  · rintro ⟨p, b, hstate, hhead, haccepts⟩
    obtain ⟨sequence, hne, hsuffix, hall⟩ := exists_sequence hstate
    obtain ⟨c, hreaches, hbyte⟩ := exists_reaches haccepts
    refine ⟨sequence, b, c, hne, hsuffix, hhead, ?_⟩
    rw [hall c hreaches]
    apply (List.prefix_append_right_inj sequence).mpr
    cases hmore : p.more with
    | zero =>
      rw [hmore] at hbyte
      rw [continuations, hbyte]
    | succ more =>
      rw [hmore] at hbyte
      rw [continuations, hbyte]
      exact ⟨continuations c more, rfl⟩

/-! ## Decoding in pieces -/

/-- No cut between two pieces falls inside the encoding of a character; `before` stands in front of the pieces. -/
def Uncut (before : List UInt8) : List (List UInt8) → Prop
  | [] => True
  | piece :: pieces => ¬ Splits before piece ∧ Uncut (before ++ piece) pieces

/-- No piece that something stands in front of begins with the byte order mark. -/
def Unmarked (before : List UInt8) : List (List UInt8) → Prop
  | [] => True
  | piece :: pieces =>
    (before ≠ [] → ¬ String.utf8EncodeChar byteOrderMark <+: piece) ∧ Unmarked (before ++ piece) pieces

theorem uncut_iff (before : List UInt8) (pieces : List (List UInt8)) :
    Uncut before pieces ↔ UncutFrom (stateAfter none before) pieces := by
  induction pieces generalizing before with
  | nil => exact Iff.rfl
  | cons piece pieces ih => rw [Uncut, UncutFrom, splits_iff, ih, stateAfter_append]

theorem count_stripMark (cs : List Char) : (stripMark cs).count replacement = cs.count replacement := by
  cases cs with
  | nil => rfl
  | cons c cs =>
    rw [stripMark]
    split
    · rename_i hmark
      rw [hmark, List.count_cons_of_ne (by decide)]
    · rfl

theorem count_flatMap_decode (pieces : List (List UInt8)) :
    (pieces.flatMap decode).count replacement = (pieces.flatMap (decodeFrom none)).count replacement := by
  induction pieces with
  | nil => rfl
  | cons piece pieces ih =>
    rw [List.flatMap_cons, List.flatMap_cons, List.count_append, List.count_append, ih, decode, count_stripMark]

theorem decodeFrom_some_ne_nil (p : Pending) (bytes : List UInt8) : decodeFrom (some p) bytes ≠ [] := by
  induction bytes generalizing p with
  | nil => exact List.cons_ne_nil _ _
  | cons b bytes ih =>
    by_cases haccepts : p.Accepts b
    · cases hmore : p.more with
      | zero =>
        rw [decodeFrom_last haccepts hmore]
        exact List.cons_ne_nil _ _
      | succ more =>
        rw [decodeFrom_continued haccepts hmore]
        exact ih _
    · rw [decodeFrom_cons, step_of_not_accepts haccepts]
      exact List.cons_ne_nil _ _

theorem decodeFrom_ne_nil {bytes : List UInt8} (h : bytes ≠ []) : decodeFrom none bytes ≠ [] := by
  obtain ⟨b, bytes, rfl⟩ := List.exists_cons_of_ne_nil h
  rw [decodeFrom_cons, step]
  rcases lead_cases b with ⟨-, hlead⟩ | hlead | ⟨p, hlead, -⟩
  · rw [hlead]
    exact List.cons_ne_nil _ _
  · rw [hlead]
    exact List.cons_ne_nil _ _
  · rw [hlead]
    exact decodeFrom_some_ne_nil p bytes

theorem stripMark_append {cs : List Char} (h : cs ≠ []) (rest : List Char) :
    stripMark (cs ++ rest) = stripMark cs ++ rest := by
  obtain ⟨c, cs, rfl⟩ := List.exists_cons_of_ne_nil h
  rw [List.cons_append, stripMark, stripMark]
  split
  · rfl
  · rfl

theorem length_stripMark_le (cs : List Char) : (stripMark cs).length ≤ cs.length := by
  cases cs with
  | nil => exact Nat.le_refl _
  | cons c cs =>
    rw [stripMark]
    split
    · exact Nat.le_succ _
    · exact Nat.le_refl _

theorem stripMark_eq_self_iff (cs : List Char) : stripMark cs = cs ↔ cs.head? ≠ some byteOrderMark := by
  cases cs with
  | nil => exact iff_of_true rfl (by simp)
  | cons c cs =>
    rw [stripMark, List.head?_cons]
    split
    · rename_i hmark
      exact iff_of_false (fun h => absurd (congrArg List.length h) (by simp)) (fun h => h (congrArg some hmark))
    · rename_i hmark
      exact iff_of_true rfl (fun h => hmark (Option.some.inj h))

/-- The first character is the mark exactly when the input begins with the bytes of the mark. -/
theorem head?_decodeFrom_iff {bytes : List UInt8} :
    (decodeFrom none bytes).head? = some byteOrderMark ↔ String.utf8EncodeChar byteOrderMark <+: bytes := by
  constructor
  · exact utf8EncodeChar_prefix (by decide)
  · rintro ⟨rest, rfl⟩
    rw [decodeFrom_utf8EncodeChar, List.head?_cons]

theorem length_flatMap_decode_le (pieces : List (List UInt8)) :
    (pieces.flatMap decode).length ≤ (pieces.flatMap (decodeFrom none)).length := by
  induction pieces with
  | nil => exact Nat.le_refl _
  | cons piece pieces ih =>
    have hpiece := length_stripMark_le (decodeFrom none piece)
    rw [List.flatMap_cons, List.flatMap_cons, List.length_append, List.length_append, decode]
    omega

/-- After the first byte, exactly the pieces without a mark in front keep all their characters. -/
theorem unmarked_iff {before : List UInt8} (h : before ≠ []) (pieces : List (List UInt8)) :
    Unmarked before pieces ↔ pieces.flatMap decode = pieces.flatMap (decodeFrom none) := by
  induction pieces generalizing before with
  | nil => exact iff_of_true trivial rfl
  | cons piece pieces ih =>
    have hself := stripMark_eq_self_iff (decodeFrom none piece)
    rw [Ne, head?_decodeFrom_iff] at hself
    rw [Unmarked, ih (List.append_ne_nil_of_left_ne_nil h piece), ← hself, List.flatMap_cons, List.flatMap_cons, decode]
    constructor
    · rintro ⟨hpiece, hrest⟩
      rw [hpiece h, hrest]
    · intro heq
      have hlengths := congrArg List.length heq
      rw [List.length_append, List.length_append] at hlengths
      have hpiece := length_stripMark_le (decodeFrom none piece)
      have hpieces := length_flatMap_decode_le pieces
      obtain ⟨hfirst, hrest⟩ := List.append_inj heq (by omega)
      exact ⟨fun _ => hfirst, hrest⟩

theorem unmarked_nil_iff (pieces : List (List UInt8)) :
    Unmarked [] pieces ↔ pieces.flatMap decode = stripMark (pieces.flatMap (decodeFrom none)) := by
  induction pieces with
  | nil => exact iff_of_true trivial rfl
  | cons piece pieces ih =>
    have hfirst : Unmarked [] (piece :: pieces) ↔ Unmarked piece pieces :=
      ⟨fun h => h.2, fun h => ⟨fun hne => absurd rfl hne, h⟩⟩
    rw [hfirst]
    by_cases hpiece : piece = []
    · rw [hpiece]
      exact ih
    · rw [unmarked_iff hpiece, List.flatMap_cons, List.flatMap_cons, stripMark_append (decodeFrom_ne_nil hpiece)]
      exact (List.append_right_inj (decode piece)).symm

/-- Pieces decode to what the whole does exactly when they cut no character and bring in no further mark. -/
theorem flatMap_decode_eq_iff (pieces : List (List UInt8)) :
    pieces.flatMap decode = decode pieces.flatten ↔ Uncut [] pieces ∧ Unmarked [] pieces := by
  have hstate : Uncut [] pieces ↔ UncutFrom none pieces := uncut_iff [] pieces
  by_cases huncut : UncutFrom none pieces
  · rw [decode, decodeFrom_flatten huncut, hstate, unmarked_nil_iff]
    exact (and_iff_right huncut).symm
  · have hcount := count_decodeFrom_flatten_lt huncut
    constructor
    · intro heq
      have hwhole := congrArg (List.count replacement) heq
      rw [count_flatMap_decode, decode, count_stripMark] at hwhole
      rw [hwhole] at hcount
      exact absurd hcount (by simp [finish])
    · intro h
      exact absurd (hstate.mp h.1) huncut

end WorkflowEngine.Lib.Utf8Decode
