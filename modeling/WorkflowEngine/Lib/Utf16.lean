import Mathlib.Data.List.Basic

/-!
# UTF-16 texts and their UTF-8 encoding

A JavaScript string is a list of code units, and any list of them is one: a surrogate may stand alone. An encoder
reads the scalar values from the left and puts U+FFFD for each surrogate without a partner.
-/

namespace WorkflowEngine.Lib.Utf16

set_option autoImplicit false

def isHigh (u : UInt16) : Bool := decide (0xD800 ≤ u.toNat ∧ u.toNat ≤ 0xDBFF)

def isLow (u : UInt16) : Bool := decide (0xDC00 ≤ u.toNat ∧ u.toNat ≤ 0xDFFF)

def replacement : Char := '\uFFFD'

/-- The scalar value of a unit on its own. -/
def single (u : UInt16) : Char :=
  if isHigh u || isLow u then replacement else Char.ofNat u.toNat

/-- The scalar value of a surrogate pair. -/
def pair (high low : UInt16) : Char :=
  Char.ofNat (0x10000 + (high.toNat - 0xD800) * 0x400 + (low.toNat - 0xDC00))

def scalars : List UInt16 → List Char
  | [] => []
  | [u] => [single u]
  | u :: v :: units =>
    if isHigh u && isLow v then pair u v :: scalars units else single u :: scalars (v :: units)

/-- The UTF-8 encoding of a string. -/
def encode (units : List UInt16) : List UInt8 := (scalars units).flatMap String.utf8EncodeChar

/-! ## Cutting a string -/

theorem isLow_of_isHigh {u : UInt16} (h : isHigh u = true) : isLow u = false := by
  have hbounds := of_decide_eq_true h
  apply decide_eq_false
  omega

theorem scalars_cons_of_not_high {u : UInt16} (h : isHigh u = false) (units : List UInt16) :
    scalars (u :: units) = single u :: scalars units := by
  cases units with
  | nil => rfl
  | cons v units => simp only [scalars, h, Bool.false_and, Bool.false_eq_true, if_false]

/-- The two units on both sides of a cut. -/
def Pairs (before after : List UInt16) : Prop :=
  ∃ u v, before.getLast? = some u ∧ after.head? = some v ∧ isHigh u = true ∧ isLow v = true

theorem Pairs.cons {before after : List UInt16} (h : Pairs before after) (u : UInt16) : Pairs (u :: before) after := by
  obtain ⟨high, low, hlast, hrest⟩ := h
  refine ⟨high, low, ?_, hrest⟩
  rw [List.getLast?_cons, hlast, Option.getD_some]

/-- A cut that separates no pair is respected. -/
theorem scalars_append {before after : List UInt16} (h : ¬ Pairs before after) :
    scalars (before ++ after) = scalars before ++ scalars after := by
  induction before using scalars.induct with
  | case1 => rfl
  | case2 u =>
    cases after with
    | nil => rfl
    | cons v after =>
      have hnot : ¬ (isHigh u && isLow v) = true := by
        intro hpair
        obtain ⟨hhigh, hlow⟩ := Bool.and_eq_true_iff.mp hpair
        exact h ⟨u, v, rfl, rfl, hhigh, hlow⟩
      simp only [List.cons_append, List.nil_append, scalars, if_neg hnot]
  | case3 u v units hpair ih =>
    have hunits : ¬ Pairs units after := fun hcut => h ((hcut.cons v).cons u)
    rw [List.cons_append, List.cons_append, scalars, scalars, if_pos hpair, if_pos hpair, ih hunits, List.cons_append]
  | case4 u v units hpair ih =>
    have hunits : ¬ Pairs (v :: units) after := fun hcut => h (hcut.cons u)
    rw [List.cons_append, List.cons_append, scalars, scalars, if_neg hpair, if_neg hpair, List.cons_append,
      ← List.cons_append, ih hunits]

theorem encode_append {before after : List UInt16} (h : ¬ Pairs before after) :
    encode (before ++ after) = encode before ++ encode after := by
  rw [encode, scalars_append h, List.flatMap_append]
  rfl

theorem scalars_ne_nil {units : List UInt16} (h : units ≠ []) : scalars units ≠ [] := by
  fun_cases scalars units with
  | case1 => exact absurd rfl h
  | case2 u => exact List.cons_ne_nil _ _
  | case3 u v units hpair => exact List.cons_ne_nil _ _
  | case4 u v units hpair => exact List.cons_ne_nil _ _

theorem encode_ne_nil {units : List UInt16} (h : units ≠ []) : encode units ≠ [] := by
  obtain ⟨c, cs, hscalars⟩ := List.exists_cons_of_ne_nil (scalars_ne_nil h)
  rw [encode, hscalars, List.flatMap_cons]
  exact List.append_ne_nil_of_left_ne_nil String.utf8EncodeChar_ne_nil _

/-! ## Well-formed strings -/

/-- The code units of a character. -/
def units (c : Char) : List UInt16 :=
  if c.toNat < 0x10000 then [UInt16.ofNat c.toNat]
  else [UInt16.ofNat (0xD800 + (c.toNat - 0x10000) / 0x400), UInt16.ofNat (0xDC00 + (c.toNat - 0x10000) % 0x400)]

theorem scalars_units_append (c : Char) (rest : List UInt16) :
    scalars (units c ++ rest) = c :: scalars rest := by
  have hbounds : c.toNat < 0xD800 ∨ 0xDFFF < c.toNat ∧ c.toNat < 0x110000 := c.valid
  unfold units
  split
  · rename_i hsmall
    have hunit : (UInt16.ofNat c.toNat).toNat = c.toNat := UInt16.toNat_ofNat_of_lt' hsmall
    have hhigh : isHigh (UInt16.ofNat c.toNat) = false := by
      apply decide_eq_false
      omega
    have hlow : isLow (UInt16.ofNat c.toNat) = false := by
      apply decide_eq_false
      omega
    have hsingle : single (UInt16.ofNat c.toNat) = c := by
      rw [single, hhigh, hlow, hunit]
      exact Char.ofNat_toNat c
    rw [List.singleton_append, scalars_cons_of_not_high hhigh, hsingle]
  · rename_i hlarge
    generalize hhighUnit : UInt16.ofNat (0xD800 + (c.toNat - 0x10000) / 0x400) = high
    generalize hlowUnit : UInt16.ofNat (0xDC00 + (c.toNat - 0x10000) % 0x400) = low
    have hhighNat : high.toNat = 0xD800 + (c.toNat - 0x10000) / 0x400 := by
      rw [← hhighUnit]
      exact UInt16.toNat_ofNat_of_lt' (by simp only [UInt16.size]; omega)
    have hlowNat : low.toNat = 0xDC00 + (c.toNat - 0x10000) % 0x400 := by
      rw [← hlowUnit]
      exact UInt16.toNat_ofNat_of_lt' (by simp only [UInt16.size]; omega)
    have hpair : (isHigh high && isLow low) = true := by
      apply Bool.and_eq_true_iff.mpr
      exact ⟨decide_eq_true (by omega), decide_eq_true (by omega)⟩
    have hvalue : 0x10000 + (high.toNat - 0xD800) * 0x400 + (low.toNat - 0xDC00) = c.toNat := by omega
    rw [List.cons_append, List.singleton_append, scalars, if_pos hpair, pair, hvalue, Char.ofNat_toNat]

theorem scalars_flatMap_units (text : List Char) : scalars (text.flatMap units) = text := by
  induction text with
  | nil => rfl
  | cons c text ih => rw [List.flatMap_cons, scalars_units_append, ih]

theorem encode_flatMap_units (text : List Char) :
    encode (text.flatMap units) = text.flatMap String.utf8EncodeChar := by
  rw [encode, scalars_flatMap_units]

end WorkflowEngine.Lib.Utf16
