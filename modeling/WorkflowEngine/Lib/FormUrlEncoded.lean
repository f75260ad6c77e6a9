import Mathlib.Data.String.Basic

/-!
# The form-urlencoded format

The serializer and the parser of `application/x-www-form-urlencoded`, as the URL standard gives them, over lists
of characters. Bytes that are not UTF-8 are decoded by a parameter. Parsing undoes serializing.
-/

namespace WorkflowEngine.Lib.FormUrlEncoded

set_option autoImplicit false

/-! ## Percent encoding -/

def hexDigit (n : Nat) : Char := if n < 10 then Char.ofNat (48 + n) else Char.ofNat (55 + n)

def hexValue (c : Char) : Option Nat :=
  if '0' ≤ c ∧ c ≤ '9' then some (c.toNat - 48)
  else if 'A' ≤ c ∧ c ≤ 'F' then some (c.toNat - 55)
  else if 'a' ≤ c ∧ c ≤ 'f' then some (c.toNat - 87)
  else none

/-- The bytes that stand for themselves. -/
def plain (n : Nat) : Bool :=
  decide (48 ≤ n ∧ n ≤ 57 ∨ 65 ≤ n ∧ n ≤ 90 ∨ 97 ≤ n ∧ n ≤ 122 ∨ n = 42 ∨ n = 45 ∨ n = 46 ∨ n = 95)

def encodeByte (b : UInt8) : List Char :=
  if b.toNat = 32 then ['+']
  else if plain b.toNat then [Char.ofNat b.toNat]
  else ['%', hexDigit (b.toNat / 16), hexDigit (b.toNat % 16)]

/-- A percent sign that two hexadecimal digits do not follow stands for itself. -/
def percentDecode : List Char → List UInt8
  | [] => []
  | '+' :: cs => 32 :: percentDecode cs
  | '%' :: a :: b :: cs =>
    match hexValue a, hexValue b with
    | some high, some low => UInt8.ofNat (16 * high + low) :: percentDecode cs
    | _, _ => String.utf8EncodeChar '%' ++ percentDecode (a :: b :: cs)
  | c :: cs => String.utf8EncodeChar c ++ percentDecode cs

theorem hexValue_hexDigit {n : Nat} (h : n < 16) : hexValue (hexDigit n) = some n := by
  revert n
  decide

theorem utf8EncodeChar_plain : ∀ n < 128, plain n = true →
    String.utf8EncodeChar (Char.ofNat n) = [UInt8.ofNat n] ∧ Char.ofNat n ≠ '+' ∧ Char.ofNat n ≠ '%' := by
  decide +kernel

theorem lt_of_plain {n : Nat} (h : plain n = true) : n < 128 := by
  have hcases := of_decide_eq_true h
  omega

theorem percentDecode_char {c : Char} (hplus : c ≠ '+') (hpercent : c ≠ '%') (cs : List Char) :
    percentDecode (c :: cs) = String.utf8EncodeChar c ++ percentDecode cs := by
  rw [percentDecode]
  · exact hplus
  · intro a b rest hc
    exact absurd hc hpercent

theorem percentDecode_encodeByte (b : UInt8) (cs : List Char) :
    percentDecode (encodeByte b ++ cs) = b :: percentDecode cs := by
  have hbound : b.toNat < 256 := b.toNat_lt
  unfold encodeByte
  split
  · rename_i hspace
    have hb : b = 32 := UInt8.toNat_inj.mp hspace
    rw [hb]
    rfl
  · split
    · rename_i hplain
      obtain ⟨hbytes, hplus, hpercent⟩ := utf8EncodeChar_plain b.toNat (lt_of_plain hplain) hplain
      rw [List.singleton_append, percentDecode_char hplus hpercent, hbytes, UInt8.ofNat_toNat, List.singleton_append]
    · have hhigh : b.toNat / 16 < 16 := by omega
      have hlow : b.toNat % 16 < 16 := Nat.mod_lt _ (by decide)
      rw [List.cons_append, List.cons_append, List.cons_append, List.nil_append, percentDecode]
      simp only [hexValue_hexDigit hhigh, hexValue_hexDigit hlow, Nat.div_add_mod, UInt8.ofNat_toNat]

theorem percentDecode_flatMap (bytes : List UInt8) (cs : List Char) :
    percentDecode (bytes.flatMap encodeByte ++ cs) = bytes ++ percentDecode cs := by
  induction bytes with
  | nil => rfl
  | cons b bytes ih => rw [List.flatMap_cons, List.append_assoc, percentDecode_encodeByte, ih, List.cons_append]

/-! ## Texts -/

def encode (s : String) : List Char := (s.toList.flatMap String.utf8EncodeChar).flatMap encodeByte

/-- `lossy` decodes bytes that are not UTF-8. -/
def decode (lossy : List UInt8 → String) (cs : List Char) : String :=
  (String.fromUTF8? (percentDecode cs).toByteArray).getD (lossy (percentDecode cs))

theorem fromUTF8?_utf8Encode (s : String) :
    String.fromUTF8? (s.toList.flatMap String.utf8EncodeChar).toByteArray = some s := by
  have hbytes : (s.toList.flatMap String.utf8EncodeChar).toByteArray = s.toByteArray := String.utf8Encode_toList
  rw [hbytes, String.fromUTF8?, dif_pos s.isValidUTF8]
  rfl

theorem decode_encode (lossy : List UInt8 → String) (s : String) : decode lossy (encode s) = s := by
  have hbytes : percentDecode (encode s) = s.toList.flatMap String.utf8EncodeChar := by
    have h := percentDecode_flatMap (s.toList.flatMap String.utf8EncodeChar) []
    rw [List.append_nil, percentDecode, List.append_nil] at h
    exact h
  rw [decode, hbytes, fromUTF8?_utf8Encode, Option.getD_some]

/-- The separators of the format do not occur in an encoded text. -/
theorem separators_not_mem_encodeByte :
    ∀ n < 256, '&' ∉ encodeByte (UInt8.ofNat n) ∧ '=' ∉ encodeByte (UInt8.ofNat n) := by
  decide +kernel

theorem separators_not_mem_encode (s : String) : '&' ∉ encode s ∧ '=' ∉ encode s := by
  have hbyte : ∀ b : UInt8, '&' ∉ encodeByte b ∧ '=' ∉ encodeByte b := by
    intro b
    have h := separators_not_mem_encodeByte b.toNat b.toNat_lt
    rwa [UInt8.ofNat_toNat] at h
  constructor
  · intro h
    obtain ⟨b, -, hb⟩ := List.mem_flatMap.mp h
    exact (hbyte b).1 hb
  · intro h
    obtain ⟨b, -, hb⟩ := List.mem_flatMap.mp h
    exact (hbyte b).2 hb

/-! ## Lists of names and values -/

def serializeEntry (e : String × String) : List Char := encode e.1 ++ '=' :: encode e.2

def serialize (es : List (String × String)) : List Char := ['&'].intercalate (es.map serializeEntry)

def parseEntry (lossy : List UInt8 → String) (piece : List Char) : String × String :=
  (decode lossy (piece.takeWhile (· ≠ '=')), decode lossy ((piece.dropWhile (· ≠ '=')).drop 1))

def parse (lossy : List UInt8 → String) (text : List Char) : List (String × String) :=
  ((text.splitOn '&').filter (· ≠ [])).map (parseEntry lossy)

theorem parseEntry_serializeEntry (lossy : List UInt8 → String) (e : String × String) :
    parseEntry lossy (serializeEntry e) = e := by
  have hname : ∀ c ∈ encode e.1, decide (c ≠ '=') = true := by
    intro c hc
    rw [decide_eq_true_eq]
    rintro rfl
    exact (separators_not_mem_encode e.1).2 hc
  unfold parseEntry serializeEntry
  rw [List.takeWhile_append_of_pos hname, List.dropWhile_append_of_pos hname]
  simp [decode_encode]

theorem serializeEntry_ne_nil (e : String × String) : serializeEntry e ≠ [] := by
  simp [serializeEntry]

theorem separator_not_mem_serializeEntry (e : String × String) : '&' ∉ serializeEntry e := by
  simp [serializeEntry, (separators_not_mem_encode e.1).1, (separators_not_mem_encode e.2).1]

theorem parse_serialize (lossy : List UInt8 → String) (es : List (String × String)) :
    parse lossy (serialize es) = es := by
  cases es with
  | nil => rfl
  | cons e es =>
    have hsplit : (serialize (e :: es)).splitOn '&' = (e :: es).map serializeEntry := by
      refine List.splitOn_intercalate '&' ?_ (List.cons_ne_nil _ _)
      intro piece hpiece
      obtain ⟨e', -, rfl⟩ := List.mem_map.mp hpiece
      exact separator_not_mem_serializeEntry e'
    have hfilter : ((e :: es).map serializeEntry).filter (· ≠ []) = (e :: es).map serializeEntry := by
      rw [List.filter_eq_self]
      intro piece hpiece
      obtain ⟨e', -, rfl⟩ := List.mem_map.mp hpiece
      exact decide_eq_true (serializeEntry_ne_nil e')
    rw [parse, hsplit, hfilter, List.map_map]
    conv_rhs => rw [← List.map_id (e :: es)]
    exact List.map_congr_left fun e' _ => parseEntry_serializeEntry lossy e'

/-! ## The characters of the format -/

/-- The characters that a URL query keeps as they are. -/
def safe (c : Char) : Bool := plain c.toNat || ['+', '%', '&', '='].contains c

theorem safe_hexDigit : ∀ n < 16, safe (hexDigit n) = true := by decide

theorem toNat_charOfNat {n : Nat} (h : n < 256) : (Char.ofNat n).toNat = n := by
  rw [Char.ofNat, dif_pos (Or.inl (by omega))]
  rfl

theorem safe_of_mem_encodeByte : ∀ n < 256, ∀ c ∈ encodeByte (UInt8.ofNat n), safe c = true := by
  intro n hn c hc
  have htoNat : (UInt8.ofNat n).toNat = n := UInt8.toNat_ofNat_of_lt' hn
  rw [encodeByte, htoNat] at hc
  split at hc
  · rw [List.mem_singleton.mp hc]
    decide
  · split at hc
    · rename_i hplain
      rw [List.mem_singleton.mp hc, safe, toNat_charOfNat hn, hplain, Bool.true_or]
    · rcases List.mem_cons.mp hc with rfl | hc
      · decide
      · rcases List.mem_cons.mp hc with rfl | hc
        · exact safe_hexDigit (n / 16) (by omega)
        · rw [List.mem_singleton.mp hc]
          exact safe_hexDigit (n % 16) (by omega)

theorem safe_of_mem_encode {s : String} {c : Char} (h : c ∈ encode s) : safe c = true := by
  obtain ⟨b, -, hb⟩ := List.mem_flatMap.mp h
  rw [← UInt8.ofNat_toNat (x := b)] at hb
  exact safe_of_mem_encodeByte b.toNat b.toNat_lt c hb

theorem safe_of_mem_serialize {es : List (String × String)} {c : Char} (h : c ∈ serialize es) : safe c = true := by
  have hentry : ∀ e : String × String, c ∈ serializeEntry e → safe c = true := by
    intro e he
    rcases List.mem_append.mp he with hname | hvalue
    · exact safe_of_mem_encode hname
    · rcases List.mem_cons.mp hvalue with rfl | hvalue
      · rfl
      · exact safe_of_mem_encode hvalue
  unfold serialize at h
  induction es with
  | nil => cases h
  | cons e es ih =>
    cases es with
    | nil => exact hentry e (by simpa using h)
    | cons e' es =>
      rw [List.map_cons, List.map_cons, List.intercalate_cons_cons, List.mem_append, List.mem_append] at h
      rcases h with (hfirst | hseparator) | hrest
      · exact hentry e hfirst
      · rw [List.mem_singleton.mp hseparator]
        rfl
      · exact ih hrest

end WorkflowEngine.Lib.FormUrlEncoded
