import WorkflowEngine.Lib.Scan
import WorkflowEngine.Runtime.TriggerEntries
import WorkflowEngine.Sdk.Bundle

/-!
# Secret sentinels in trigger descriptors

`encodeSentinel` writes a reference to a secret into a text, `resolveSecretSentinels` puts the plaintext in
its place. A text is read once from the left; a sentinel is a piece of it and every other character is one.
-/

namespace WorkflowEngine.Runtime

open Lib
open Sdk (encodeSentinel)
set_option autoImplicit false

/-! ## Encoding -/

/-- `SECRET_SENTINEL_NAME_RE`. -/
def secretNameRe (name : List Char) : Bool :=
  match name with
  | [] => false
  | c :: cs => isNameStart c && cs.all isNameChar

def sentinelText (name : List Char) : List Char := sentinelOpen ++ name ++ ['\x00']

theorem encodeSentinel_eq (name : String) :
    encodeSentinel name = if secretNameRe name.toList then .ok (String.ofList (sentinelText name.toList))
      else .error (encodeSentinel.invalid name) := by
  unfold encodeSentinel
  cases name.toList with
  | nil => rfl
  | cons c cs => rfl

theorem encodeSentinel_eq_ok_iff {name text : String} :
    encodeSentinel name = .ok text ↔ secretNameRe name.toList = true ∧ text.toList = sentinelText name.toList := by
  rw [encodeSentinel_eq]
  split
  · rename_i h
    rw [Except.ok.injEq, ← String.toList_inj, String.toList_ofList]
    exact ⟨fun heq => ⟨h, heq.symm⟩, fun heq => heq.2.symm⟩
  · rename_i h
    constructor
    · intro herror
      cases herror
    · rintro ⟨hname, _⟩
      exact absurd hname h

/-! ## Reading -/

theorem all_isNameChar_of_secretNameRe {name : List Char} (h : secretNameRe name = true) :
    ∀ c ∈ name, isNameChar c = true := by
  unfold secretNameRe at h
  split at h
  · cases h
  · rename_i c cs
    rw [Bool.and_eq_true, List.all_eq_true] at h
    intro d hd
    rcases List.mem_cons.mp hd with rfl | hd
    · have hstart := h.1
      simp only [isNameStart, Bool.or_eq_true] at hstart
      rcases hstart with halpha | hunderscore
      · simp [isNameChar, Char.isAlphanum, halpha]
      · simp [isNameChar, hunderscore]
    · exact h.2 d hd

theorem takeWhile_nameChars {name : List Char} (after : List Char) (h : ∀ c ∈ name, isNameChar c = true) :
    (name ++ '\x00' :: after).takeWhile isNameChar = name ∧
      (name ++ '\x00' :: after).dropWhile isNameChar = '\x00' :: after := by
  have hnul : isNameChar '\x00' = false := by decide
  rw [List.takeWhile_append_of_pos h, List.dropWhile_append_of_pos h, List.takeWhile_cons, List.dropWhile_cons, hnul]
  simp

/-- The pattern matches the encodings and nothing else. -/
theorem matchSentinel_eq_some_iff {cs name after : List Char} :
    matchSentinel cs = some (name, after) ↔ secretNameRe name = true ∧ cs = sentinelText name ++ after := by
  constructor
  · intro h
    unfold matchSentinel at h
    split at h
    · rename_i hopen
      obtain ⟨rest, rfl⟩ := List.isPrefixOf_iff_prefix.mp hopen
      rw [List.drop_left] at h
      dsimp only at h
      split at h
      · rename_i c cs after' hname hafter
        split at h
        · rename_i hstart
          obtain ⟨rfl, rfl⟩ := Prod.mk.inj (Option.some.inj h)
          refine ⟨?_, ?_⟩
          · rw [hname, secretNameRe, hstart, Bool.true_and, List.all_eq_true]
            intro d hd
            have hall := List.all_takeWhile (p := isNameChar) (l := rest)
            rw [hname, List.all_eq_true] at hall
            exact hall d (List.mem_cons_of_mem c hd)
          · have hsplit := List.takeWhile_append_dropWhile (p := isNameChar) (l := rest)
            rw [hname, hafter] at hsplit
            rw [hname, sentinelText, List.append_assoc, List.append_assoc, ← hsplit]
            rfl
        · cases h
      · cases h
    · cases h
  · rintro ⟨hname, rfl⟩
    have hscan := takeWhile_nameChars after (all_isNameChar_of_secretNameRe hname)
    have htext : sentinelText name ++ after = sentinelOpen ++ (name ++ '\x00' :: after) := by
      simp [sentinelText]
    unfold matchSentinel
    rw [htext, if_pos (List.isPrefixOf_iff_prefix.mpr (List.prefix_append _ _)), List.drop_left]
    dsimp only
    rw [hscan.1, hscan.2]
    cases name with
    | nil => cases hname
    | cons c cs =>
      rw [secretNameRe, Bool.and_eq_true] at hname
      exact if_pos hname.1

theorem sentinelText_ne_nil (name : List Char) : sentinelText name ≠ [] := by
  simp [sentinelText, sentinelOpen]

/-- `ps` are the sentinels of `s` and the characters around them. -/
def Reads (s : String) (ps : List (Piece Char (List Char))) : Prop :=
  Piece.Scanned sentinelText matchSentinel ps ∧ Piece.render sentinelText ps = s.toList

theorem exists_reads (s : String) : ∃ ps, Reads s ps :=
  Piece.Scanned.exists sentinelText_ne_nil (fun h => (matchSentinel_eq_some_iff.mp h).2) s.toList

theorem Reads.unique {s : String} {ps qs : List (Piece Char (List Char))} (hp : Reads s ps) (hq : Reads s qs) :
    ps = qs :=
  hp.1.unique sentinelText_ne_nil hq.1 (hp.2.trans hq.2.symm)

/-! ## Resolving a text -/

variable (store : OrderedMap String String)

/-- What stands for a sentinel after the replacement. -/
def plaintextOf (name : List Char) : List Char :=
  match store.get? (String.ofList name) with
  | some plaintext => plaintext.toList
  | none => sentinelText name

/-- The names of the sentinels that stay, in the order of the text. -/
def namesLeft : List (Piece Char (List Char)) → List String
  | [] => []
  | .char _ :: ps => namesLeft ps
  | .token name :: ps =>
    match store.get? (String.ofList name) with
    | some _ => namesLeft ps
    | none => String.ofList name :: namesLeft ps

theorem mem_namesLeft {ps : List (Piece Char (List Char))} {n : String} :
    n ∈ namesLeft store ps ↔ .token n.toList ∈ ps ∧ store.get? n = none := by
  induction ps with
  | nil => simp [namesLeft]
  | cons p ps ih =>
    cases p with
    | char c => simp [namesLeft, ih]
    | token name =>
      have hname : n.toList = name ↔ n = String.ofList name := by
        rw [← String.toList_inj, String.toList_ofList]
      simp only [namesLeft, List.mem_cons, Piece.token.injEq, hname]
      cases hget : store.get? (String.ofList name) with
      | some plaintext =>
        rw [ih]
        constructor
        · rintro ⟨hmem, hnone⟩
          exact ⟨Or.inr hmem, hnone⟩
        · rintro ⟨rfl | hmem, hnone⟩
          · rw [hget] at hnone
            cases hnone
          · exact ⟨hmem, hnone⟩
      | none =>
        rw [List.mem_cons, ih]
        constructor
        · rintro (rfl | ⟨hmem, hnone⟩)
          · exact ⟨Or.inl rfl, hget⟩
          · exact ⟨Or.inr hmem, hnone⟩
        · rintro ⟨rfl | hmem, hnone⟩
          · exact Or.inl rfl
          · exact Or.inr ⟨hmem, hnone⟩

theorem mem_foldl_addMissing {names missing : List String} {n : String} :
    n ∈ names.foldl addMissing missing ↔ n ∈ missing ∨ n ∈ names := by
  induction names generalizing missing with
  | nil => simp
  | cons name names ih =>
    have hadd : n ∈ addMissing missing name ↔ n ∈ missing ∨ n = name := by
      unfold addMissing
      split
      · rename_i hmem
        constructor
        · exact Or.inl
        · rintro (h | rfl)
          · exact h
          · exact hmem
      · simp
    rw [List.foldl_cons, ih, hadd, List.mem_cons, or_assoc]

/-- The replacer turns every piece into what stands for it, and notes the names that stay. -/
theorem replaceSentinels_scanned {ps : List (Piece Char (List Char))}
    (hps : Piece.Scanned sentinelText matchSentinel ps) (fuel : Nat) (missing : List String)
    (hfuel : (Piece.render sentinelText ps).length ≤ fuel) :
    replaceSentinels store fuel (Piece.render sentinelText ps) missing =
      (Piece.render (plaintextOf store) ps, (namesLeft store ps).foldl addMissing missing) := by
  induction ps generalizing fuel missing with
  | nil => cases fuel <;> rfl
  | cons p ps ih =>
    cases p with
    | char c =>
      cases fuel with
      | zero => simp [Piece.render] at hfuel
      | succ fuel =>
        have hrest := ih hps.2 fuel missing (by simpa [Piece.render] using hfuel)
        simp only [Piece.render, replaceSentinels, hps.1, hrest, namesLeft]
    | token name =>
      have hpos := List.length_pos_iff.mpr (sentinelText_ne_nil name)
      rw [Piece.render, List.length_append] at hfuel
      cases fuel with
      | zero => omega
      | succ fuel =>
        obtain ⟨c, cs, hcs⟩ : ∃ c cs, sentinelText name ++ Piece.render sentinelText ps = c :: cs :=
          List.exists_cons_of_ne_nil (by simp [sentinelText_ne_nil])
        have hmatch := hps.1
        rw [hcs] at hmatch
        rw [Piece.render, Piece.render, hcs, replaceSentinels, hmatch]
        cases hget : store.get? (String.ofList name) with
        | some plaintext =>
          have hrest := ih hps.2 fuel missing (by omega)
          simp only [hget, hrest, namesLeft, plaintextOf]
        | none =>
          have hrest := ih hps.2 fuel (addMissing missing (String.ofList name)) (by omega)
          simp only [hget, hrest, namesLeft, plaintextOf, sentinelText, List.foldl_cons, List.append_assoc,
            List.cons_append, List.nil_append]

theorem char_of_not_includes {ps : List (Piece Char (List Char))}
    (h : includes sentinelOpen (Piece.render sentinelText ps) = false) (name : List Char) : .token name ∉ ps := by
  intro hmem
  obtain ⟨before, after, rfl⟩ := List.append_of_mem hmem
  have hinfix : sentinelOpen <:+: Piece.render sentinelText (before ++ .token name :: after) := by
    refine ⟨Piece.render sentinelText before, name ++ ['\x00'] ++ Piece.render sentinelText after, ?_⟩
    rw [Piece.render_append, Piece.render, sentinelText]
    simp only [List.append_assoc]
  rw [← includes_eq_true_iff, h] at hinfix
  cases hinfix

theorem namesLeft_eq_nil {ps : List (Piece Char (List Char))} (h : ∀ name, .token name ∉ ps) :
    namesLeft store ps = [] := by
  rw [List.eq_nil_iff_forall_not_mem]
  intro n hn
  exact h n.toList ((mem_namesLeft store).mp hn).1

theorem resolveString_eq {s : String} {ps : List (Piece Char (List Char))} (hps : Reads s ps) (missing : List String) :
    resolveString store s missing =
      (String.ofList (Piece.render (plaintextOf store) ps), (namesLeft store ps).foldl addMissing missing) := by
  obtain ⟨hscan, hrender⟩ := hps
  unfold resolveString
  split
  · have hreplace := replaceSentinels_scanned store hscan s.toList.length missing (by rw [hrender])
    rw [hrender] at hreplace
    simp only [hreplace]
  · rename_i hincludes
    rw [Bool.not_eq_true, ← hrender] at hincludes
    have hchar := char_of_not_includes hincludes
    rw [namesLeft_eq_nil store hchar, Piece.render_congr (g := sentinelText) fun name hname => absurd hname (hchar name),
      hrender, String.ofList_toList]
    rfl

/-- A text without a sentinel resolves to itself. -/
theorem resolveString_of_no_token {s : String} {ps : List (Piece Char (List Char))} (hps : Reads s ps)
    (hno : ∀ name, .token name ∉ ps) (missing : List String) : resolveString store s missing = (s, missing) := by
  rw [resolveString_eq store hps, namesLeft_eq_nil store hno,
    Piece.render_congr (g := sentinelText) fun name hname => absurd hname (hno name), hps.2, String.ofList_toList]
  rfl

theorem resolvedText_eq {s : String} {ps : List (Piece Char (List Char))} (hps : Reads s ps) :
    (resolvedText store s).toList = Piece.render (plaintextOf store) ps := by
  rw [resolvedText, resolveString_eq store hps, String.toList_ofList]

/-! ## Resolving a value -/

mutual

/-- The value with `f` applied to its strings; keys are no string values. -/
def Json.mapStrings (f : String → String) : Json → Json
  | .string s => .string (f s)
  | .array items => .array (Json.mapItems f items)
  | .object fields => .object (Json.mapFields f fields)
  | .null => .null
  | .bool b => .bool b
  | .number text => .number text

def Json.mapItems (f : String → String) : List Json → List Json
  | [] => []
  | v :: vs => v.mapStrings f :: Json.mapItems f vs

def Json.mapFields (f : String → String) : List (String × Json) → List (String × Json)
  | [] => []
  | (k, v) :: fields => (k, v.mapStrings f) :: Json.mapFields f fields

end

mutual

def Json.strings : Json → List String
  | .string s => [s]
  | .array items => Json.itemStrings items
  | .object fields => Json.fieldStrings fields
  | .null => []
  | .bool _ => []
  | .number _ => []

def Json.itemStrings : List Json → List String
  | [] => []
  | v :: vs => v.strings ++ Json.itemStrings vs

def Json.fieldStrings : List (String × Json) → List String
  | [] => []
  | (_, v) :: fields => v.strings ++ Json.fieldStrings fields

end

mutual

/-- The keys of all objects in the value. -/
def Json.keys : Json → List String
  | .array items => Json.itemKeys items
  | .object fields => Json.fieldKeys fields
  | .string _ => []
  | .null => []
  | .bool _ => []
  | .number _ => []

def Json.itemKeys : List Json → List String
  | [] => []
  | v :: vs => v.keys ++ Json.itemKeys vs

def Json.fieldKeys : List (String × Json) → List String
  | [] => []
  | (k, v) :: fields => k :: (v.keys ++ Json.fieldKeys fields)

end

mutual

theorem keys_mapStrings (f : String → String) (v : Json) : (v.mapStrings f).keys = v.keys := by
  cases v with
  | array items => simp only [Json.mapStrings, Json.keys, itemKeys_mapItems f items]
  | object fields => simp only [Json.mapStrings, Json.keys, fieldKeys_mapFields f fields]
  | string s => rfl
  | null => rfl
  | bool b => rfl
  | number text => rfl

theorem itemKeys_mapItems (f : String → String) (vs : List Json) :
    Json.itemKeys (Json.mapItems f vs) = Json.itemKeys vs := by
  cases vs with
  | nil => rfl
  | cons v vs => simp only [Json.mapItems, Json.itemKeys, keys_mapStrings f v, itemKeys_mapItems f vs]

theorem fieldKeys_mapFields (f : String → String) (fields : List (String × Json)) :
    Json.fieldKeys (Json.mapFields f fields) = Json.fieldKeys fields := by
  cases fields with
  | nil => rfl
  | cons field fields =>
    obtain ⟨k, v⟩ := field
    simp only [Json.mapFields, Json.fieldKeys, keys_mapStrings f v, fieldKeys_mapFields f fields]

end

mutual

/-- Mapping a function that leaves every string alone changes nothing. -/
theorem mapStrings_eq_self {f : String → String} {v : Json} (h : ∀ s ∈ v.strings, f s = s) :
    v.mapStrings f = v := by
  cases v with
  | string s => rw [Json.mapStrings, h s (List.mem_singleton.mpr rfl)]
  | array items => rw [Json.mapStrings, mapItems_eq_self h]
  | object fields => rw [Json.mapStrings, mapFields_eq_self h]
  | null => rfl
  | bool b => rfl
  | number text => rfl

theorem mapItems_eq_self {f : String → String} {vs : List Json} (h : ∀ s ∈ Json.itemStrings vs, f s = s) :
    Json.mapItems f vs = vs := by
  cases vs with
  | nil => rfl
  | cons v vs =>
    rw [Json.mapItems, mapStrings_eq_self fun s hs => h s (List.mem_append_left _ hs),
      mapItems_eq_self fun s hs => h s (List.mem_append_right _ hs)]

theorem mapFields_eq_self {f : String → String} {fields : List (String × Json)}
    (h : ∀ s ∈ Json.fieldStrings fields, f s = s) : Json.mapFields f fields = fields := by
  cases fields with
  | nil => rfl
  | cons field fields =>
    obtain ⟨k, v⟩ := field
    rw [Json.mapFields, mapStrings_eq_self fun s hs => h s (List.mem_append_left _ hs),
      mapFields_eq_self fun s hs => h s (List.mem_append_right _ hs)]

end

mutual

/-- Without a key `__proto__` the walk is the map over the strings. -/
theorem resolveSecretSentinels_eq_mapStrings {v : Json} (h : "__proto__" ∉ v.keys) (missing : List String) :
    (resolveSecretSentinels store v missing).1 = v.mapStrings (resolvedText store) := by
  cases v with
  | string s => simp only [resolveSecretSentinels, Json.mapStrings, resolveString_fst]
  | array items => simp only [resolveSecretSentinels, Json.mapStrings, resolveItems_eq_mapItems h missing]
  | object fields => simp only [resolveSecretSentinels, Json.mapStrings, resolveFields_eq_mapFields h missing]
  | null => rfl
  | bool b => rfl
  | number text => rfl

theorem resolveItems_eq_mapItems {vs : List Json} (h : "__proto__" ∉ Json.itemKeys vs) (missing : List String) :
    (resolveItems store vs missing).1 = Json.mapItems (resolvedText store) vs := by
  cases vs with
  | nil => rfl
  | cons v vs =>
    rw [Json.itemKeys, List.mem_append, not_or] at h
    simp only [resolveItems, Json.mapItems, resolveSecretSentinels_eq_mapStrings h.1 missing]
    rw [resolveItems_eq_mapItems h.2]

theorem resolveFields_eq_mapFields {fields : List (String × Json)} (h : "__proto__" ∉ Json.fieldKeys fields)
    (missing : List String) :
    (resolveFields store fields missing).1 = Json.mapFields (resolvedText store) fields := by
  cases fields with
  | nil => rfl
  | cons field fields =>
    obtain ⟨k, v⟩ := field
    rw [Json.fieldKeys, List.mem_cons, List.mem_append, not_or, not_or] at h
    have hk : k ≠ "__proto__" := fun hk => h.1 hk.symm
    simp only [resolveFields, Json.mapFields, resolveSecretSentinels_eq_mapStrings h.2.1 missing, if_neg hk]
    rw [resolveFields_eq_mapFields h.2.2]

end

mutual

/-- What the walk builds has no property `__proto__` anywhere. -/
theorem proto_notMem_keys_resolve (v : Json) (missing : List String) :
    "__proto__" ∉ (resolveSecretSentinels store v missing).1.keys := by
  cases v with
  | string s => exact List.not_mem_nil
  | array items => exact proto_notMem_itemKeys_resolve items missing
  | object fields => exact proto_notMem_fieldKeys_resolve fields missing
  | null => exact List.not_mem_nil
  | bool b => exact List.not_mem_nil
  | number text => exact List.not_mem_nil

theorem proto_notMem_itemKeys_resolve (vs : List Json) (missing : List String) :
    "__proto__" ∉ Json.itemKeys (resolveItems store vs missing).1 := by
  cases vs with
  | nil => exact List.not_mem_nil
  | cons v vs =>
    simp only [resolveItems, Json.itemKeys, List.mem_append, not_or]
    exact ⟨proto_notMem_keys_resolve v missing, proto_notMem_itemKeys_resolve vs _⟩

theorem proto_notMem_fieldKeys_resolve (fields : List (String × Json)) (missing : List String) :
    "__proto__" ∉ Json.fieldKeys (resolveFields store fields missing).1 := by
  cases fields with
  | nil => exact List.not_mem_nil
  | cons field fields =>
    obtain ⟨k, v⟩ := field
    simp only [resolveFields]
    split
    · exact proto_notMem_fieldKeys_resolve fields _
    · rename_i hk
      simp only [Json.fieldKeys, List.mem_cons, List.mem_append, not_or]
      exact ⟨fun heq => hk heq.symm, proto_notMem_keys_resolve v missing, proto_notMem_fieldKeys_resolve fields _⟩

end

/-- What the texts of a value add to the names. -/
def missingAfter (strings : List String) (missing : List String) : List String :=
  strings.foldl (fun missing s => (resolveString store s missing).2) missing

mutual

/-- The walk meets the texts one after the other. -/
theorem resolveSecretSentinels_snd (v : Json) (missing : List String) :
    (resolveSecretSentinels store v missing).2 = missingAfter store v.strings missing := by
  cases v with
  | string s => rfl
  | array items => exact resolveItems_snd items missing
  | object fields => exact resolveFields_snd fields missing
  | null => rfl
  | bool b => rfl
  | number text => rfl

theorem resolveItems_snd (vs : List Json) (missing : List String) :
    (resolveItems store vs missing).2 = missingAfter store (Json.itemStrings vs) missing := by
  cases vs with
  | nil => rfl
  | cons v vs =>
    simp only [resolveItems, Json.itemStrings]
    rw [resolveItems_snd vs, resolveSecretSentinels_snd v, missingAfter, missingAfter, missingAfter, List.foldl_append]

theorem resolveFields_snd (fields : List (String × Json)) (missing : List String) :
    (resolveFields store fields missing).2 = missingAfter store (Json.fieldStrings fields) missing := by
  cases fields with
  | nil => rfl
  | cons field fields =>
    obtain ⟨k, v⟩ := field
    simp only [resolveFields, Json.fieldStrings]
    rw [resolveFields_snd fields, resolveSecretSentinels_snd v, missingAfter, missingAfter, missingAfter,
      List.foldl_append]

end

theorem mem_missingAfter {strings missing : List String} {n : String} :
    n ∈ missingAfter store strings missing ↔
      n ∈ missing ∨ ∃ s ∈ strings, ∃ ps, Reads s ps ∧ .token n.toList ∈ ps ∧ store.get? n = none := by
  induction strings generalizing missing with
  | nil => simp [missingAfter]
  | cons s strings ih =>
    obtain ⟨ps, hps⟩ := exists_reads s
    have hhead : n ∈ (resolveString store s missing).2 ↔
        n ∈ missing ∨ ∃ ps, Reads s ps ∧ .token n.toList ∈ ps ∧ store.get? n = none := by
      rw [resolveString_eq store hps, mem_foldl_addMissing, mem_namesLeft]
      refine or_congr_right ?_
      constructor
      · intro h
        exact ⟨ps, hps, h⟩
      · rintro ⟨qs, hqs, h⟩
        rwa [hps.unique hqs]
    rw [missingAfter, List.foldl_cons, ← missingAfter, ih, hhead]
    simp only [List.mem_cons, or_and_right, exists_or, exists_eq_left, or_assoc]

theorem missingAfter_of_no_token {strings : List String}
    (h : ∀ s ∈ strings, ∀ ps, Reads s ps → ∀ name, .token name ∉ ps) (missing : List String) :
    missingAfter store strings missing = missing := by
  induction strings with
  | nil => rfl
  | cons s strings ih =>
    obtain ⟨ps, hps⟩ := exists_reads s
    rw [missingAfter, List.foldl_cons, resolveString_of_no_token store hps (h s List.mem_cons_self ps hps)]
    exact ih fun s' hs' => h s' (List.mem_cons_of_mem s hs')

/-- A value without sentinels is resolved to itself. -/
theorem resolve_of_no_token {v : Json} (hkeys : "__proto__" ∉ v.keys)
    (h : ∀ s ∈ v.strings, ∀ ps, Reads s ps → ∀ name, .token name ∉ ps) (missing : List String) :
    resolveSecretSentinels store v missing = (v, missing) := by
  apply Prod.ext
  · rw [resolveSecretSentinels_eq_mapStrings store hkeys]
    apply mapStrings_eq_self
    intro s hs
    obtain ⟨ps, hps⟩ := exists_reads s
    rw [resolvedText, resolveString_of_no_token store hps (h s hs ps hps)]
  · rw [resolveSecretSentinels_snd, missingAfter_of_no_token store h]

/-! ## Literal text between sentinels -/

/-- `first`, then for each pair what `f` gives for the name, then the literal. -/
def concatWith (f : String → String) (first : String) : List (String × String) → String
  | [] => first
  | (name, literal) :: rest => first ++ f name ++ concatWith f literal rest

def piecesOf (first : String) : List (String × String) → List (Piece Char (List Char))
  | [] => first.toList.map .char
  | (name, literal) :: rest => first.toList.map .char ++ .token name.toList :: piecesOf literal rest

theorem toList_concatWith {f : String → String} {g : List Char → List Char} {first : String}
    {rest : List (String × String)} (h : ∀ p ∈ rest, (f p.1).toList = g p.1.toList) :
    (concatWith f first rest).toList = Piece.render g (piecesOf first rest) := by
  induction rest generalizing first with
  | nil => simp [concatWith, piecesOf]
  | cons p rest ih =>
    obtain ⟨name, literal⟩ := p
    have hname := h (name, literal) List.mem_cons_self
    have hrest : (concatWith f literal rest).toList = Piece.render g (piecesOf literal rest) :=
      ih fun p hp => h p (List.mem_cons_of_mem _ hp)
    rw [concatWith, piecesOf, Piece.render_append, Piece.render_map_char, Piece.render, String.toList_append,
      String.toList_append, hrest, hname, List.append_assoc]

theorem sentinelOpen_tail : ∀ c ∈ sentinelOpen.tail, c ≠ '\x00' := by
  simp [sentinelOpen]

/-- No sentinel starts in a literal without the prefix, whatever sentinel comes next. -/
theorem matchSentinel_in_literal {before after rest : List Char} {c : Char}
    (hliteral : includes sentinelOpen (before ++ c :: after) = false) (hrest : rest = [] ∨ ∃ cs, rest = '\x00' :: cs) :
    matchSentinel (c :: (after ++ rest)) = none := by
  rw [Option.eq_none_iff_forall_ne_some]
  rintro ⟨name, tail⟩ hmatch
  have htext := (matchSentinel_eq_some_iff.mp hmatch).2
  rw [sentinelText, List.append_assoc, List.append_assoc, ← List.cons_append] at htext
  have hinfix : ¬sentinelOpen <:+: before ++ c :: after := by
    rw [← includes_eq_true_iff, hliteral]
    exact Bool.false_ne_true
  rcases List.append_eq_append_iff.mp htext with ⟨m, hopen, hm⟩ | ⟨m, hc, _⟩
  · -- the prefix would end in the next sentinel, whose first character it has only at its start
    cases m with
    | nil =>
      rw [List.append_nil] at hopen
      exact hinfix ⟨before, [], by rw [List.append_nil, hopen]⟩
    | cons d m =>
      rcases hrest with hnil | ⟨cs, hcs⟩
      · rw [hnil] at hm
        cases hm
      · rw [hcs] at hm
        obtain ⟨hd, _⟩ := List.cons.inj hm
        refine sentinelOpen_tail d ?_ hd.symm
        rw [hopen, List.cons_append, List.tail_cons]
        simp
  · exact hinfix ⟨before, m, by rw [hc, List.append_assoc]⟩

theorem scanned_piecesOf {first : String} {rest : List (String × String)}
    (hnames : ∀ p ∈ rest, secretNameRe p.1.toList = true)
    (hfirst : includes sentinelOpen first.toList = false)
    (hliterals : ∀ p ∈ rest, includes sentinelOpen p.2.toList = false) :
    Piece.Scanned sentinelText matchSentinel (piecesOf first rest) := by
  induction rest generalizing first with
  | nil =>
    rw [piecesOf, ← List.append_nil (first.toList.map Piece.char)]
    refine Piece.Scanned.map_char_append trivial ?_
    intro c before after hsplit
    rw [hsplit] at hfirst
    exact matchSentinel_in_literal hfirst (Or.inl rfl)
  | cons p rest ih =>
    obtain ⟨name, literal⟩ := p
    have hrest : Piece.Scanned sentinelText matchSentinel (piecesOf literal rest) :=
      ih (fun p hp => hnames p (List.mem_cons_of_mem _ hp)) (hliterals (name, literal) List.mem_cons_self)
        fun p hp => hliterals p (List.mem_cons_of_mem _ hp)
    have hname := hnames (name, literal) List.mem_cons_self
    refine Piece.Scanned.map_char_append ⟨matchSentinel_eq_some_iff.mpr ⟨hname, rfl⟩, hrest⟩ ?_
    intro c before after hsplit
    rw [hsplit] at hfirst
    exact matchSentinel_in_literal hfirst (Or.inr ⟨_, rfl⟩)

/-- Resolution goes through a text of literals and sentinels piece by piece. -/
theorem resolve_concatWith {encoded : String → String} {first : String} {rest : List (String × String)}
    (hencoded : ∀ p ∈ rest, encodeSentinel p.1 = .ok (encoded p.1))
    (hfirst : includes sentinelOpen first.toList = false)
    (hliterals : ∀ p ∈ rest, includes sentinelOpen p.2.toList = false) (missing : List String) :
    (resolveSecretSentinels store (.string (concatWith encoded first rest)) missing).1 =
      .string (concatWith (fun name => (store.get? name).getD (encoded name)) first rest) := by
  have htexts : ∀ p ∈ rest, secretNameRe p.1.toList = true ∧ (encoded p.1).toList = sentinelText p.1.toList :=
    fun p hp => encodeSentinel_eq_ok_iff.mp (hencoded p hp)
  have hreads : Reads (concatWith encoded first rest) (piecesOf first rest) :=
    ⟨scanned_piecesOf (fun p hp => (htexts p hp).1) hfirst hliterals,
      (toList_concatWith fun p hp => (htexts p hp).2).symm⟩
  have hplain : ∀ p ∈ rest, ((store.get? p.1).getD (encoded p.1)).toList = plaintextOf store p.1.toList := by
    intro p hp
    rw [plaintextOf, String.ofList_toList]
    cases store.get? p.1 with
    | none => exact (htexts p hp).2
    | some plaintext => rfl
  simp only [resolveSecretSentinels, resolveString_fst, Json.string.injEq]
  rw [← String.toList_inj, resolvedText_eq store hreads, toList_concatWith hplain]

/-! ## The whole value -/

/-- A key `__proto__`, which a schema read by `JSON.parse` can have, is all that the walk does not keep. -/
theorem resolveSecretSentinels_exact_iff (v : Json) (missing : List String) :
    ((∃ f : String → String,
        (∀ s, ∃ ps, Reads s ps ∧ (f s).toList = Piece.render (plaintextOf store) ps) ∧
          (resolveSecretSentinels store v missing).1 = v.mapStrings f) ∧
      (∀ n, n ∈ (resolveSecretSentinels store v missing).2 ↔
        n ∈ missing ∨ ∃ s ∈ v.strings, ∃ ps, Reads s ps ∧ .token n.toList ∈ ps ∧ store.get? n = none) ∧
      ((∀ s ∈ v.strings, ∀ ps, Reads s ps → ∀ name, .token name ∉ ps) →
        resolveSecretSentinels store v missing = (v, missing)) ∧
      ∀ (encoded : String → String) (first : String) (rest : List (String × String)),
        (∀ p ∈ rest, encodeSentinel p.1 = .ok (encoded p.1)) → includes sentinelOpen first.toList = false →
        (∀ p ∈ rest, includes sentinelOpen p.2.toList = false) →
        (resolveSecretSentinels store (.string (concatWith encoded first rest)) missing).1 =
          .string (concatWith (fun name => (store.get? name).getD (encoded name)) first rest)) ↔
      "__proto__" ∉ v.keys := by
  constructor
  · intro hexact
    obtain ⟨⟨f, _, hmap⟩, _⟩ := hexact
    rw [← keys_mapStrings f v, ← hmap]
    exact proto_notMem_keys_resolve store v missing
  · intro hkeys
    refine ⟨⟨resolvedText store, ?_, resolveSecretSentinels_eq_mapStrings store hkeys missing⟩, ?_, ?_, ?_⟩
    · intro s
      obtain ⟨ps, hps⟩ := exists_reads s
      exact ⟨ps, hps, resolvedText_eq store hps⟩
    · intro n
      rw [resolveSecretSentinels_snd, mem_missingAfter]
    · intro hno
      exact resolve_of_no_token store hkeys hno missing
    · intro encoded first rest hencoded hfirst hliterals
      exact resolve_concatWith store hencoded hfirst hliterals missing

/-- An input schema with a property `__proto__` loses it although it has no sentinel. -/
theorem resolve_drops_proto :
    (resolveSecretSentinels .empty
        (.object [("properties", .object [("__proto__", .object [("type", .string "string")])])]) []).1 =
      .object [("properties", .object [])] := rfl

example : resolveString ⟨[("A", "\x00secret:B\x00"), ("B", "b")], by decide⟩
    "x\x00secret:A\x00\x00secret:C\x00y" [] = ("x\x00secret:B\x00\x00secret:C\x00y", ["C"]) := by
  decide

end WorkflowEngine.Runtime
