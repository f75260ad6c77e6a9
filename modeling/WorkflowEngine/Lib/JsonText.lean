import Mathlib.Data.List.Basic

/-!
# JSON texts

The JSON tree, its compact text as `JSON.stringify` writes it, and the reader of
`JSON.parse`. A number is known by its numeral; the reader keeps the numeral it
finds, which for the shortest numeral of a number is that number again. Strings
are Unicode strings, so a lone surrogate does not occur in one, and the members
of an object keep the order of the text.
-/

namespace WorkflowEngine.Lib

set_option autoImplicit false

/-! ## Numerals -/

def numeralChar (c : Char) : Bool := c.isDigit || ['-', '+', '.', 'e', 'E'].contains c

def isExponent : List Char → Bool
  | [] => true
  | e :: cs =>
    (e == 'e' || e == 'E') &&
      match cs with
      | '+' :: d :: ds | '-' :: d :: ds => (d :: ds).all Char.isDigit
      | d :: ds => (d :: ds).all Char.isDigit
      | [] => false

def isFraction : List Char → Bool
  | '.' :: d :: cs => d.isDigit && isExponent (cs.dropWhile Char.isDigit)
  | cs => isExponent cs

def isUnsigned : List Char → Bool
  | '0' :: cs => isFraction cs
  | d :: cs => d.isDigit && isFraction (cs.dropWhile Char.isDigit)
  | [] => false

/-- The number grammar of JSON. -/
def isNumeral (cs : List Char) : Bool :=
  cs.all numeralChar && !cs.isEmpty &&
    match cs with
    | '-' :: cs => isUnsigned cs
    | cs => isUnsigned cs

structure Numeral where
  text : List Char
  valid : isNumeral text = true
  deriving DecidableEq

/-! ## Values and their text -/

inductive JsonValue where
  | null
  | bool (b : Bool)
  | number (n : Numeral)
  | string (s : String)
  | array (items : List JsonValue)
  | object (fields : List (String × JsonValue))

def hexDigit (n : Nat) : Char := "0123456789abcdef".toList.getD n '0'

/-- The escapes of `JSON.stringify`. -/
def escapeChar (c : Char) : List Char :=
  if c = '"' then ['\\', '"']
  else if c = '\\' then ['\\', '\\']
  else if c = Char.ofNat 8 then ['\\', 'b']
  else if c = Char.ofNat 12 then ['\\', 'f']
  else if c = '\n' then ['\\', 'n']
  else if c = '\r' then ['\\', 'r']
  else if c = '\t' then ['\\', 't']
  else if c.toNat < 32 then ['\\', 'u', '0', '0', hexDigit (c.toNat / 16), hexDigit (c.toNat % 16)]
  else [c]

def printString (s : String) : List Char := '"' :: (s.toList.flatMap escapeChar ++ ['"'])

mutual
def JsonValue.print : JsonValue → List Char
  | .null => ['n', 'u', 'l', 'l']
  | .bool true => ['t', 'r', 'u', 'e']
  | .bool false => ['f', 'a', 'l', 's', 'e']
  | .number n => n.text
  | .string s => printString s
  | .array [] => ['[', ']']
  | .array (item :: items) => '[' :: (item.print ++ printItems items)
  | .object [] => ['{', '}']
  | .object ((key, value) :: fields) =>
    '{' :: (printString key ++ ':' :: (value.print ++ printFields fields))

/-- The items after the first one, and the closing bracket. -/
def printItems : List JsonValue → List Char
  | [] => [']']
  | item :: items => ',' :: (item.print ++ printItems items)

/-- The members after the first one, and the closing brace. -/
def printFields : List (String × JsonValue) → List Char
  | [] => ['}']
  | (key, value) :: fields =>
    ',' :: (printString key ++ ':' :: (value.print ++ printFields fields))
end

/-! ## The reader -/

def isSpace (c : Char) : Bool := c == ' ' || c == '\n' || c == '\r' || c == '\t'

def skipSpace (cs : List Char) : List Char := cs.dropWhile isSpace

def hexValue (c : Char) : Option Nat :=
  if '0' ≤ c ∧ c ≤ '9' then some (c.toNat - '0'.toNat)
  else if 'a' ≤ c ∧ c ≤ 'f' then some (c.toNat - 'a'.toNat + 10)
  else if 'A' ≤ c ∧ c ≤ 'F' then some (c.toNat - 'A'.toNat + 10)
  else none

/-- The code unit of `\uXXXX`. -/
def hexUnit (a b c d : Char) : Option Nat := do
  let a ← hexValue a
  let b ← hexValue b
  let c ← hexValue c
  let d ← hexValue d
  some (((a * 16 + b) * 16 + c) * 16 + d)

def unescape : Char → Option Char
  | '"' => some '"'
  | '\\' => some '\\'
  | '/' => some '/'
  | 'b' => some (Char.ofNat 8)
  | 'f' => some (Char.ofNat 12)
  | 'n' => some '\n'
  | 'r' => some '\r'
  | 't' => some '\t'
  | _ => none

/-- The characters of a string up to its closing quote, and what follows it. -/
def parseChars : List Char → Option (List Char × List Char)
  | '"' :: cs => some ([], cs)
  | '\\' :: 'u' :: a :: b :: c :: d :: cs =>
    match hexUnit a b c d with
    | none => none
    | some unit =>
      if unit < 0xd800 ∨ 0xdfff < unit then
        (parseChars cs).map fun r => (Char.ofNat unit :: r.1, r.2)
      else
        -- a high surrogate and the low one after it
        match cs with
        | '\\' :: 'u' :: a :: b :: c :: d :: cs =>
          match hexUnit a b c d with
          | none => none
          | some low =>
            if unit ≤ 0xdbff ∧ 0xdc00 ≤ low ∧ low ≤ 0xdfff then
              (parseChars cs).map fun r =>
                (Char.ofNat (0x10000 + (unit - 0xd800) * 0x400 + (low - 0xdc00)) :: r.1, r.2)
            else none
        | _ => none
  | '\\' :: c :: cs =>
    match unescape c with
    | none => none
    | some c => (parseChars cs).map fun r => (c :: r.1, r.2)
  | c :: cs => if c.toNat < 32 then none else (parseChars cs).map fun r => (c :: r.1, r.2)
  | [] => none

def parseNumber (cs : List Char) : Option (JsonValue × List Char) :=
  if h : isNumeral (cs.takeWhile numeralChar) = true then
    some (.number ⟨cs.takeWhile numeralChar, h⟩, cs.dropWhile numeralChar)
  else none

mutual
/-- One value from the front of a text; `fuel` bounds the nesting. -/
def parseValue : Nat → List Char → Option (JsonValue × List Char)
  | 0, _ => none
  | fuel + 1, cs =>
    match skipSpace cs with
    | 'n' :: 'u' :: 'l' :: 'l' :: cs => some (.null, cs)
    | 't' :: 'r' :: 'u' :: 'e' :: cs => some (.bool true, cs)
    | 'f' :: 'a' :: 'l' :: 's' :: 'e' :: cs => some (.bool false, cs)
    | '"' :: cs => (parseChars cs).map fun r => (.string (String.ofList r.1), r.2)
    | '[' :: cs =>
      match skipSpace cs with
      | ']' :: cs => some (.array [], cs)
      | cs => (parseItems fuel cs).map fun r => (.array r.1, r.2)
    | '{' :: cs =>
      match skipSpace cs with
      | '}' :: cs => some (.object [], cs)
      | cs => (parseFields fuel cs).map fun r => (.object r.1, r.2)
    | cs => parseNumber cs

def parseItems : Nat → List Char → Option (List JsonValue × List Char)
  | 0, _ => none
  | fuel + 1, cs =>
    match parseValue fuel cs with
    | none => none
    | some (item, cs) =>
      match skipSpace cs with
      | ',' :: cs => (parseItems fuel cs).map fun r => (item :: r.1, r.2)
      | ']' :: cs => some ([item], cs)
      | _ => none

def parseFields : Nat → List Char → Option (List (String × JsonValue) × List Char)
  | 0, _ => none
  | fuel + 1, cs =>
    match skipSpace cs with
    | '"' :: cs =>
      match parseChars cs with
      | none => none
      | some (key, cs) =>
        match skipSpace cs with
        | ':' :: cs =>
          match parseValue fuel cs with
          | none => none
          | some (value, cs) =>
            match skipSpace cs with
            | ',' :: cs =>
              (parseFields fuel cs).map fun r => ((String.ofList key, value) :: r.1, r.2)
            | '}' :: cs => some ([(String.ofList key, value)], cs)
            | _ => none
        | _ => none
    | _ => none
end

/-- `JSON.parse`; `none` is the `SyntaxError`. -/
def parseJson (cs : List Char) : Option JsonValue :=
  match parseValue (cs.length + 1) cs with
  | some (value, rest) => if skipSpace rest = [] then some value else none
  | none => none

/-! ## Reading back what was written -/

theorem skipSpace_cons {c : Char} (h : isSpace c = false) (cs : List Char) :
    skipSpace (c :: cs) = c :: cs := by
  simp [skipSpace, h]

theorem hexValue_hexDigit : ∀ n < 16, hexValue (hexDigit n) = some n := by decide

theorem hexUnit_control {n : Nat} (h : n < 32) :
    hexUnit '0' '0' (hexDigit (n / 16)) (hexDigit (n % 16)) = some n := by
  have hzero : hexValue '0' = some 0 := by decide
  have hhigh := hexValue_hexDigit (n / 16) (by omega)
  have hlow := hexValue_hexDigit (n % 16) (by omega)
  simp only [hexUnit, hzero, hhigh, hlow, bind, Option.bind]
  congr 1
  omega

theorem parseChars_cons {c : Char} (hquote : c ≠ '"') (hslash : c ≠ '\\') (hctl : ¬ c.toNat < 32)
    (cs : List Char) :
    parseChars (c :: cs) = (parseChars cs).map fun r => (c :: r.1, r.2) := by
  rw [parseChars.eq_def]
  split
  · rename_i h
    exact absurd (List.cons.inj h).1 hquote
  · rename_i h
    exact absurd (List.cons.inj h).1 hslash
  · rename_i h
    exact absurd (List.cons.inj h).1 hslash
  · rename_i h
    obtain ⟨rfl, rfl⟩ := List.cons.inj h
    rw [if_neg hctl]
  · rename_i h
    cases h

theorem parseChars_escapeChar (c : Char) (cs : List Char) :
    parseChars (escapeChar c ++ cs) = (parseChars cs).map fun r => (c :: r.1, r.2) := by
  unfold escapeChar
  split
  · subst_vars; rfl
  split
  · subst_vars; rfl
  split
  · subst_vars; rfl
  split
  · subst_vars; rfl
  split
  · subst_vars; rfl
  split
  · subst_vars; rfl
  split
  · subst_vars; rfl
  split
  · rename_i hctl
    have hunit := hexUnit_control hctl
    have hchar : Char.ofNat c.toNat = c := Char.ofNat_toNat c
    have hsmall : c.toNat < 0xd800 ∨ 0xdfff < c.toNat := Or.inl (by omega)
    simp only [List.cons_append, List.nil_append]
    rw [parseChars]
    simp only [hunit, hsmall, if_true, hchar]
  · rename_i hquote hslash _ _ _ _ _ hctl
    exact parseChars_cons hquote hslash hctl cs

theorem parseChars_flatMap (s cs : List Char) :
    parseChars (s.flatMap escapeChar ++ '"' :: cs) = some (s, cs) := by
  induction s with
  | nil => simp [parseChars]
  | cons c s ih =>
    rw [List.flatMap_cons, List.append_assoc, parseChars_escapeChar, ih]
    rfl

/-- What may follow a value: nothing, or a character that is part of no numeral. -/
def Stops (cs : List Char) : Prop := ∀ c rest, cs = c :: rest → numeralChar c = false

theorem stops_nil : Stops [] := by
  intro c rest h
  cases h

theorem stops_cons {c : Char} (h : numeralChar c = false) (cs : List Char) : Stops (c :: cs) := by
  intro d rest he
  cases he
  exact h

theorem takeWhile_append_stops {ds cs : List Char} (hd : ∀ c ∈ ds, numeralChar c = true)
    (hs : Stops cs) : (ds ++ cs).takeWhile numeralChar = ds ∧ (ds ++ cs).dropWhile numeralChar = cs := by
  induction ds with
  | nil =>
    cases cs with
    | nil => exact ⟨rfl, rfl⟩
    | cons c cs => simp [hs c cs rfl]
  | cons d ds ih =>
    obtain ⟨ht, hdrop⟩ := ih fun c hc => hd c (List.mem_cons_of_mem _ hc)
    have hhead := hd d List.mem_cons_self
    exact ⟨by simp [hhead, ht], by simp [hhead, hdrop]⟩

theorem Numeral.chars (n : Numeral) : (∀ c ∈ n.text, numeralChar c = true) ∧ n.text ≠ [] := by
  have h := n.valid
  simp only [isNumeral, Bool.and_eq_true, List.all_eq_true] at h
  refine ⟨h.1.1, fun hnil => ?_⟩
  have := h.1.2
  simp [hnil] at this

theorem parseNumber_text (n : Numeral) {cs : List Char} (hs : Stops cs) :
    parseNumber (n.text ++ cs) = some (.number n, cs) := by
  obtain ⟨htake, hdrop⟩ := takeWhile_append_stops n.chars.1 hs
  unfold parseNumber
  rw [htake, hdrop, dif_pos n.valid]

/-- A character that starts none of the other values. -/
theorem parseValue_number {c : Char} (h : numeralChar c = true) (fuel : Nat) (cs : List Char) :
    parseValue (fuel + 1) (c :: cs) = parseNumber (c :: cs) := by
  have hne : c ≠ 'n' ∧ c ≠ 't' ∧ c ≠ 'f' ∧ c ≠ '"' ∧ c ≠ '[' ∧ c ≠ '{' ∧ isSpace c = false := by
    refine ⟨?_, ?_, ?_, ?_, ?_, ?_, ?_⟩
    · rintro rfl; simp [numeralChar] at h
    · rintro rfl; simp [numeralChar] at h
    · rintro rfl; simp [numeralChar] at h
    · rintro rfl; simp [numeralChar] at h
    · rintro rfl; simp [numeralChar] at h
    · rintro rfl; simp [numeralChar] at h
    · by_contra hs
      simp only [isSpace, Bool.not_eq_false, Bool.or_eq_true, beq_iff_eq] at hs
      rcases hs with ((rfl | rfl) | rfl) | rfl <;> simp [numeralChar] at h
  obtain ⟨h1, h2, h3, h4, h5, h6, hspace⟩ := hne
  rw [parseValue, skipSpace_cons hspace]
  split <;> simp_all

/-- No text of a value starts with a space or with a closing bracket. -/
theorem print_head (v : JsonValue) :
    ∃ c cs, v.print = c :: cs ∧ isSpace c = false ∧ c ≠ ']' ∧ c ≠ '}' := by
  cases v with
  | null => exact ⟨_, _, rfl, rfl, by simp, by simp⟩
  | bool b => cases b <;> exact ⟨_, _, rfl, rfl, by simp, by simp⟩
  | number n =>
    obtain ⟨hall, hne⟩ := n.chars
    cases ht : n.text with
    | nil => exact absurd ht hne
    | cons c cs =>
      have hc := hall c (by simp [ht])
      refine ⟨c, cs, ht, ?_, ?_, ?_⟩
      · by_contra hs
        simp only [isSpace, Bool.not_eq_false, Bool.or_eq_true, beq_iff_eq] at hs
        rcases hs with ((rfl | rfl) | rfl) | rfl <;> simp [numeralChar] at hc
      · rintro rfl; simp [numeralChar] at hc
      · rintro rfl; simp [numeralChar] at hc
  | string s => exact ⟨_, _, rfl, rfl, by simp, by simp⟩
  | array items => cases items <;> exact ⟨_, _, rfl, rfl, by simp, by simp⟩
  | object fields =>
    cases fields with
    | nil => exact ⟨_, _, rfl, rfl, by simp, by simp⟩
    | cons field fields => exact ⟨_, _, rfl, rfl, by simp, by simp⟩

theorem parseValue_string (s : String) (fuel : Nat) (rest : List Char) :
    parseValue (fuel + 1) (printString s ++ rest) = some (.string s, rest) := by
  have hchars := parseChars_flatMap s.toList rest
  simp only [printString, List.cons_append, List.append_assoc, List.nil_append, parseValue,
    skipSpace_cons (c := '"') rfl, hchars, Option.map_some, String.ofList_toList]

mutual
theorem parseValue_print : ∀ (v : JsonValue) (fuel : Nat) (rest : List Char),
    v.print.length ≤ fuel → Stops rest → parseValue fuel (v.print ++ rest) = some (v, rest)
  | v, 0, rest, hlen, _ => by
    obtain ⟨c, cs, hp, -⟩ := print_head v
    simp [hp] at hlen
  | .null, fuel + 1, rest, _, _ => by
    simp [JsonValue.print, parseValue, skipSpace_cons (c := 'n') rfl]
  | .bool true, fuel + 1, rest, _, _ => by
    simp [JsonValue.print, parseValue, skipSpace_cons (c := 't') rfl]
  | .bool false, fuel + 1, rest, _, _ => by
    simp [JsonValue.print, parseValue, skipSpace_cons (c := 'f') rfl]
  | .number n, fuel + 1, rest, _, hs => by
    have hparse := parseNumber_text n hs
    obtain ⟨hall, hne⟩ := n.chars
    simp only [JsonValue.print]
    cases ht : n.text with
    | nil => exact absurd ht hne
    | cons c cs =>
      rw [ht] at hparse
      rw [List.cons_append, parseValue_number (hall c (by simp [ht]))]
      exact hparse
  | .string s, fuel + 1, rest, _, _ => by
    simp only [JsonValue.print]
    exact parseValue_string s fuel rest
  | .array [], fuel + 1, rest, _, _ => by
    simp [JsonValue.print, parseValue, skipSpace_cons (c := '[') rfl,
      skipSpace_cons (c := ']') rfl]
  | .array (item :: items), fuel + 1, rest, hlen, _ => by
    simp only [JsonValue.print, List.length_cons, List.length_append] at hlen
    have hitems := parseItems_print item items fuel rest (by omega)
    obtain ⟨c, cs, hp, hspace, hclose, -⟩ := print_head item
    simp only [JsonValue.print, List.cons_append, List.append_assoc, parseValue,
      skipSpace_cons (c := '[') rfl]
    rw [hp, List.cons_append] at hitems ⊢
    rw [skipSpace_cons hspace]
    split
    · rename_i heq
      exact absurd (List.cons.inj heq).1 hclose
    · rw [hitems]
      rfl
  | .object [], fuel + 1, rest, _, _ => by
    simp [JsonValue.print, parseValue, skipSpace_cons (c := '{') rfl,
      skipSpace_cons (c := '}') rfl]
  | .object ((key, value) :: fields), fuel + 1, rest, hlen, _ => by
    simp only [JsonValue.print, List.length_cons, List.length_append] at hlen
    have hfields := parseFields_print key value fields fuel rest (by omega)
    simp only [JsonValue.print, List.cons_append, List.append_assoc, parseValue,
      skipSpace_cons (c := '{') rfl]
    simp only [printString, List.cons_append, List.append_assoc, List.nil_append] at hfields ⊢
    rw [skipSpace_cons (c := '"') rfl]
    split
    · rename_i heq
      simp at heq
    · rw [hfields]
      rfl

theorem parseItems_print : ∀ (item : JsonValue) (items : List JsonValue) (fuel : Nat)
    (rest : List Char), item.print.length + (printItems items).length ≤ fuel →
    parseItems fuel (item.print ++ (printItems items ++ rest)) = some (item :: items, rest)
  | item, [], fuel + 1, rest, hlen => by
    simp only [printItems, List.length_singleton] at hlen
    have hitem := parseValue_print item fuel (']' :: rest) (by omega) (stops_cons rfl _)
    simp only [printItems, List.singleton_append, parseItems, hitem,
      skipSpace_cons (c := ']') rfl]
  | item, next :: items, fuel + 1, rest, hlen => by
    simp only [printItems, List.length_cons, List.length_append] at hlen
    have hitem := parseValue_print item fuel (',' :: (next.print ++ (printItems items ++ rest)))
      (by omega) (stops_cons rfl _)
    have hitems := parseItems_print next items fuel rest (by omega)
    simp only [printItems, List.cons_append, List.append_assoc, parseItems, hitem,
      skipSpace_cons (c := ',') rfl, hitems, Option.map_some]
  | item, [], 0, rest, hlen => by simp [printItems] at hlen
  | item, next :: items, 0, rest, hlen => by simp [printItems] at hlen

theorem parseFields_print : ∀ (key : String) (value : JsonValue)
    (fields : List (String × JsonValue)) (fuel : Nat) (rest : List Char),
    value.print.length + (printFields fields).length ≤ fuel →
    parseFields fuel (printString key ++ ':' :: (value.print ++ (printFields fields ++ rest))) =
      some ((key, value) :: fields, rest)
  | key, value, [], fuel + 1, rest, hlen => by
    simp only [printFields, List.length_singleton] at hlen
    have hvalue := parseValue_print value fuel ('}' :: rest) (by omega) (stops_cons rfl _)
    simp only [printFields, printString, List.cons_append, List.append_assoc,
      List.nil_append, parseFields, skipSpace_cons (c := '"') rfl,
      parseChars_flatMap, skipSpace_cons (c := ':') rfl, hvalue,
      skipSpace_cons (c := '}') rfl, String.ofList_toList]
  | key, value, (nextKey, next) :: fields, fuel + 1, rest, hlen => by
    simp only [printFields, List.length_cons, List.length_append] at hlen
    have hvalue := parseValue_print value fuel
      (',' :: (printString nextKey ++ ':' :: (next.print ++ (printFields fields ++ rest))))
      (by omega) (stops_cons rfl _)
    have hfields := parseFields_print nextKey next fields fuel rest (by omega)
    simp only [printString, List.cons_append, List.append_assoc, List.nil_append] at hvalue hfields
    simp only [printFields, printString, List.cons_append, List.append_assoc, List.nil_append,
      parseFields, skipSpace_cons (c := '"') rfl, parseChars_flatMap,
      skipSpace_cons (c := ':') rfl, hvalue,
      skipSpace_cons (c := ',') rfl, hfields, Option.map_some,
      String.ofList_toList]
  | key, value, [], 0, rest, hlen => by simp [printFields] at hlen
  | key, value, (nextKey, next) :: fields, 0, rest, hlen => by simp [printFields] at hlen
end

/-- `JSON.parse` gives back the value whose text it reads. -/
theorem parseJson_print (v : JsonValue) : parseJson v.print = some v := by
  have h := parseValue_print v (v.print.length + 1) [] (by omega) stops_nil
  rw [List.append_nil] at h
  unfold parseJson
  rw [h]
  rfl

end WorkflowEngine.Lib
