import WorkflowEngine.Lib.Utf8Decode
import WorkflowEngine.Runtime.AuthAllow
import WorkflowEngine.Runtime.WorkflowRecovery

/-!
# The key ring of the server and its rotation

`SECRETS_PRIVATE_KEYS` as `parse-keys.ts` and `key-store.ts` read it, the key store that
it makes, and what a restart with another list of keys finds of the stored bundles. The
primitives of libsodium, the hash and `Buffer` are parameters.
-/

namespace WorkflowEngine.Runtime

open Lib
open Auth (trim)
set_option autoImplicit false

variable {Z B : Type}

/-! ## Parsing -/

structure SealedBox where
  base64 : String → List UInt8
  derivePublicKey : List UInt8 → List UInt8
  fingerprintSync : List UInt8 → String
  unsealCiphertext : List UInt8 → List UInt8 → List UInt8 → Except String (List UInt8)

structure ParsedKey where
  keyId : String
  sk : List UInt8
  deriving DecidableEq

def secretKeyBytes : Nat := 32

def secretsKeysParseError (message : String) : String := "SECRETS_PRIVATE_KEYS: " ++ message

section Parse
variable (box : SealedBox)

def parseEntry (entry : String) : Except String ParsedKey :=
  if entry = "" then .error (secretsKeysParseError "empty entry (check for trailing comma)")
  else
    match entry.toList.dropWhile (· ≠ ':') with
    | [] => .error (secretsKeysParseError ("malformed entry \"" ++ entry ++ "\" (expected \"keyId:base64\")"))
    | _ :: rest =>
      let keyId := trim (String.ofList (entry.toList.takeWhile (· ≠ ':')))
      let b64 := trim (String.ofList rest)
      if keyId = "" then .error (secretsKeysParseError ("malformed entry \"" ++ entry ++ "\" (keyId is empty)"))
      else if b64 = "" then
        .error (secretsKeysParseError ("malformed entry \"" ++ keyId ++ ":...\" (base64 secret key is empty)"))
      else if (box.base64 b64).length ≠ secretKeyBytes then
        .error (secretsKeysParseError ("keyId \"" ++ keyId ++ "\" has wrong secret-key length " ++
          toString (box.base64 b64).length ++ " (expected " ++ toString secretKeyBytes ++ ")"))
      else .ok ⟨keyId, box.base64 b64⟩

/-- The loop over the entries still to come; `seen` are the labels so far. -/
def parseEntries : List String → List String → Except String (List ParsedKey)
  | [], _ => .ok []
  | entry :: entries, seen => do
    let key ← parseEntry box entry
    if seen.contains key.keyId then .error (secretsKeysParseError ("duplicate keyId \"" ++ key.keyId ++ "\""))
    else do
      let keys ← parseEntries entries (seen ++ [key.keyId])
      return key :: keys

/-- The entries of a list of keys. -/
def keyEntries (csv : String) : List String := (((trim csv).toList.splitOn ',').map String.ofList).map trim

def parseSecretsPrivateKeys (csv : String) : Except String (List ParsedKey) :=
  if trim csv = "" then .error (secretsKeysParseError "value is empty") else parseEntries box (keyEntries csv) []

end Parse

/-! ## The key store -/

structure ResolvedKey where
  keyId : String
  pk : List UInt8
  sk : List UInt8
  deriving DecidableEq

structure KeyRing where
  resolved : OrderedMap String ResolvedKey
  order : List String
  primaryKeyId : String

namespace KeyRing

def getPrimary (ring : KeyRing) : Except String ResolvedKey :=
  match ring.resolved.get? ring.primaryKeyId with
  | some key => .ok key
  | none => .error "createKeyStore: primary key missing (should not happen)"

def lookup (ring : KeyRing) (keyId : String) : Option ResolvedKey := ring.resolved.get? keyId

def allKeyIds (ring : KeyRing) : List String := ring.order

end KeyRing

section KeyStore
variable (box : SealedBox)

/-- The pair of a parsed key, under its fingerprint; the label is gone. -/
def resolveKey (key : ParsedKey) : ResolvedKey :=
  ⟨box.fingerprintSync (box.derivePublicKey key.sk), box.derivePublicKey key.sk, key.sk⟩

/-- The loop of `createKeyStore` over the keys still to come. -/
def resolveKeys : List ParsedKey → OrderedMap String ResolvedKey → List String →
    Except String (OrderedMap String ResolvedKey × List String)
  | [], resolved, order => .ok (resolved, order)
  | key :: keys, resolved, order =>
    let entry := resolveKey box key
    if resolved.has entry.keyId then
      .error ("createKeyStore: duplicate fingerprint \"" ++ entry.keyId ++
        "\" (two CSV entries derive to the same public key)")
    else resolveKeys keys (resolved.set entry.keyId entry) (order ++ [entry.keyId])

def createKeyStore (csv : String) : Except String KeyRing := do
  let parsed ← parseSecretsPrivateKeys box csv
  let (resolved, order) ← resolveKeys box parsed .empty []
  match order with
  | [] => .error "createKeyStore: parsed key list was empty"
  | primaryKeyId :: _ => .ok ⟨resolved, order, primaryKeyId⟩

/-- What `decryptSealed` does with the pair that it finds. -/
def unsealText (key : ResolvedKey) (ciphertext : String) : Except String String :=
  (box.unsealCiphertext (box.base64 ciphertext) key.pk key.sk).map fun bytes => String.ofList (Utf8Decode.decode bytes)

def KeyRing.store (ring : KeyRing) : SecretsKeyStore := ⟨fun keyId => (ring.lookup keyId).map (unsealText box)⟩

end KeyStore

/-! ### Which lists make a key store -/

section Exact
variable {box : SealedBox}

/-- How an entry writes a key. -/
def Writes (box : SealedBox) (entry : String) (key : ParsedKey) : Prop :=
  ∃ left right : List Char, entry.toList = left ++ ':' :: right ∧ ':' ∉ left ∧ trim (String.ofList left) = key.keyId ∧
    key.keyId ≠ "" ∧ trim (String.ofList right) ≠ "" ∧ box.base64 (trim (String.ofList right)) = key.sk ∧
    key.sk.length = secretKeyBytes

theorem parseEntry_eq_ok_iff {entry : String} {key : ParsedKey} :
    parseEntry box entry = .ok key ↔ Writes box entry key := by
  unfold parseEntry
  constructor
  · intro h
    split at h
    · cases h
    · split at h
      · cases h
      · rename_i c rest hdrop
        have hc : c = ':' := by
          have hhead := List.head?_dropWhile_not (fun c : Char => decide (c ≠ ':')) entry.toList
          rw [hdrop] at hhead
          simpa using hhead
        have happ := List.takeWhile_append_dropWhile (p := fun c : Char => decide (c ≠ ':')) (l := entry.toList)
        rw [hdrop, hc] at happ
        dsimp only at h
        split at h
        · cases h
        · rename_i hkeyId
          split at h
          · cases h
          · rename_i hb64
            split at h
            · cases h
            · rename_i hlength
              rw [Except.ok.injEq] at h
              subst h
              refine ⟨_, rest, happ.symm, ?_, rfl, hkeyId, hb64, rfl, by simpa using hlength⟩
              intro hmem
              simpa using List.mem_takeWhile_imp hmem
  · rintro ⟨left, right, hentry, hcolon, hkeyId, hne, hright, hsk, hlength⟩
    have hleft : ∀ c ∈ left, decide (c ≠ ':') = true := by
      intro c hc
      rw [decide_eq_true_eq]
      rintro rfl
      exact hcolon hc
    have hdrop : entry.toList.dropWhile (· ≠ ':') = ':' :: right := by
      rw [hentry, List.dropWhile_append_of_pos hleft]
      simp
    have htake : entry.toList.takeWhile (· ≠ ':') = left := by
      rw [hentry, List.takeWhile_append_of_pos hleft]
      simp
    have hnonempty : entry ≠ "" := by
      rintro rfl
      simp at hentry
    rw [if_neg hnonempty, hdrop, htake]
    dsimp only
    rw [hkeyId, if_neg hne, if_neg hright, hsk, if_neg (by simpa using hlength)]

theorem parseEntries_eq_ok_iff {entries : List String} {seen : List String} {keys : List ParsedKey} :
    parseEntries box entries seen = .ok keys ↔
      List.Forall₂ (Writes box) entries keys ∧ (keys.map (·.keyId)).Nodup ∧ ∀ key ∈ keys, key.keyId ∉ seen := by
  induction entries generalizing seen keys with
  | nil =>
    rw [parseEntries, Except.ok.injEq]
    constructor
    · rintro rfl
      exact ⟨.nil, List.nodup_nil, nofun⟩
    · rintro ⟨hwrites, -⟩
      cases hwrites
      rfl
  | cons entry entries ih =>
    rw [parseEntries]
    constructor
    · intro h
      obtain ⟨key, hkey, h⟩ := bind_eq_ok h
      split at h
      · cases h
      · rename_i hnew
        obtain ⟨rest, hrest, h⟩ := bind_eq_ok h
        cases h
        obtain ⟨hwrites, hnodup, hseen⟩ := ih.mp hrest
        simp only [List.mem_append, List.mem_singleton, not_or] at hseen
        refine ⟨.cons (parseEntry_eq_ok_iff.mp hkey) hwrites, ?_, ?_⟩
        · rw [List.map_cons, List.nodup_cons, List.mem_map]
          refine ⟨?_, hnodup⟩
          rintro ⟨other, hother, heq⟩
          exact (hseen other hother).2 heq
        · intro other hother
          rcases List.mem_cons.mp hother with rfl | hother
          · simpa using hnew
          · exact (hseen other hother).1
    · rintro ⟨hwrites, hnodup, hseen⟩
      cases hwrites with
      | cons hkey hwrites =>
        rename_i key keys
        rw [List.map_cons, List.nodup_cons, List.mem_map] at hnodup
        have hrest : parseEntries box entries (seen ++ [key.keyId]) = .ok keys := by
          refine ih.mpr ⟨hwrites, hnodup.2, ?_⟩
          intro other hother hmem
          rcases List.mem_append.mp hmem with hmem | hmem
          · exact hseen other (List.mem_cons_of_mem _ hother) hmem
          · exact hnodup.1 ⟨other, hother, List.mem_singleton.mp hmem⟩
        have hnew : ¬ seen.contains key.keyId = true := by
          rw [List.contains_iff_mem]
          exact hseen key List.mem_cons_self
        rw [parseEntry_eq_ok_iff.mpr hkey]
        simp only [bind, Except.bind, if_neg hnew, hrest]
        rfl

/-- The fingerprint of a parsed key. -/
def idOf (box : SealedBox) (key : ParsedKey) : String := (resolveKey box key).keyId

def addKey (box : SealedBox) (resolved : OrderedMap String ResolvedKey) (key : ParsedKey) :
    OrderedMap String ResolvedKey := resolved.set (idOf box key) (resolveKey box key)

theorem resolveKeys_eq_ok_iff {keys : List ParsedKey} {resolved resolved' : OrderedMap String ResolvedKey}
    {order order' : List String} :
    resolveKeys box keys resolved order = .ok (resolved', order') ↔
      (keys.map (idOf box)).Nodup ∧ (∀ key ∈ keys, idOf box key ∉ resolved.keys) ∧
        resolved' = keys.foldl (addKey box) resolved ∧ order' = order ++ keys.map (idOf box) := by
  induction keys generalizing resolved order with
  | nil => simp [resolveKeys, eq_comm]
  | cons key keys ih =>
    rw [resolveKeys]
    by_cases hhas : resolved.has (idOf box key) = true
    · have hmem : idOf box key ∈ resolved.keys := by
        by_contra hnot
        rw [OrderedMap.has, (resolved.get?_eq_none_iff _).mpr hnot] at hhas
        cases hhas
      rw [idOf] at hhas
      rw [if_pos hhas]
      constructor
      · intro h
        cases h
      · rintro ⟨-, hfresh, -⟩
        exact absurd hmem (hfresh key List.mem_cons_self)
    · have hnot : idOf box key ∉ resolved.keys := by
        rw [← OrderedMap.get?_eq_none_iff]
        simpa [OrderedMap.has] using hhas
      have hstep : resolved.set (resolveKey box key).keyId (resolveKey box key) = addKey box resolved key := rfl
      rw [idOf] at hhas
      rw [if_neg hhas, hstep, ih, List.map_cons, List.nodup_cons, List.foldl_cons, List.append_assoc]
      have hkeys : ∀ id, id ∈ (addKey box resolved key).keys ↔ id = idOf box key ∨ id ∈ resolved.keys :=
        fun id => resolved.mem_keys_set _ _ id
      simp only [hkeys, not_or, List.mem_map, List.mem_cons, forall_eq_or_imp]
      constructor
      · rintro ⟨hnodup, hfresh, hresolved, horder⟩
        refine ⟨⟨?_, hnodup⟩, ⟨hnot, fun other hother => (hfresh other hother).2⟩, hresolved, horder⟩
        rintro ⟨other, hother, heq⟩
        exact (hfresh other hother).1 heq
      · rintro ⟨⟨hnew, hnodup⟩, ⟨-, hfresh⟩, hresolved, horder⟩
        exact ⟨hnodup, fun other hother => ⟨fun heq => hnew ⟨other, hother, heq⟩, hfresh other hother⟩, hresolved, horder⟩

/-- The entries of the list write these keys, no label and no fingerprint twice. -/
structure Lists (box : SealedBox) (csv : String) (keys : List ParsedKey) : Prop where
  given : trim csv ≠ ""
  writes : List.Forall₂ (Writes box) (keyEntries csv) keys
  labels : (keys.map (·.keyId)).Nodup
  fingerprints : (keys.map (idOf box)).Nodup

/-- `split` gives at least one text. -/
theorem Lists.ne_nil {csv : String} {keys : List ParsedKey} (h : Lists box csv keys) : keys ≠ [] := by
  rintro rfl
  have hlength := h.writes.length_eq
  simp [keyEntries, List.splitOn_ne_nil] at hlength

/-- The store of a list of keys. -/
def ringOf (box : SealedBox) (keys : List ParsedKey) : KeyRing where
  resolved := keys.foldl (addKey box) .empty
  order := keys.map (idOf box)
  primaryKeyId := ((keys.map (idOf box)).head?).getD ""

theorem createKeyStore_eq_ok_iff {csv : String} {ring : KeyRing} :
    createKeyStore box csv = .ok ring ↔ ∃ keys, Lists box csv keys ∧ ring = ringOf box keys := by
  have hparse : ∀ keys, parseSecretsPrivateKeys box csv = .ok keys ↔
      trim csv ≠ "" ∧ List.Forall₂ (Writes box) (keyEntries csv) keys ∧ (keys.map (·.keyId)).Nodup := by
    intro keys
    unfold parseSecretsPrivateKeys
    by_cases hempty : trim csv = ""
    · simp [hempty]
    · rw [if_neg hempty, parseEntries_eq_ok_iff]
      simp [hempty]
  unfold createKeyStore
  constructor
  · intro h
    obtain ⟨keys, hkeys, h⟩ := bind_eq_ok h
    obtain ⟨⟨resolved, order⟩, hresolve, h⟩ := bind_eq_ok h
    obtain ⟨hgiven, hwrites, hlabels⟩ := (hparse keys).mp hkeys
    obtain ⟨hfingerprints, -, hresolved, horder⟩ := resolveKeys_eq_ok_iff.mp hresolve
    refine ⟨keys, ⟨hgiven, hwrites, hlabels, hfingerprints⟩, ?_⟩
    rw [List.nil_append] at horder
    subst hresolved horder
    dsimp only at h
    cases keys with
    | nil => cases h
    | cons key keys =>
      exact (Except.ok.inj h).symm
  · rintro ⟨keys, hlists, rfl⟩
    obtain ⟨hgiven, hwrites, hlabels, hfingerprints⟩ := hlists
    have hresolve : resolveKeys box keys .empty [] = .ok (keys.foldl (addKey box) .empty, keys.map (idOf box)) :=
      resolveKeys_eq_ok_iff.mpr ⟨hfingerprints, fun _ _ => List.not_mem_nil, rfl, rfl⟩
    rw [(hparse keys).mpr ⟨hgiven, hwrites, hlabels⟩]
    simp only [bind, Except.bind, hresolve]
    cases keys with
    | nil => exact absurd rfl (Lists.ne_nil ⟨hgiven, hwrites, hlabels, hfingerprints⟩)
    | cons key keys => rfl

theorem lookup_ringOf {keys : List ParsedKey} (h : (keys.map (idOf box)).Nodup) (keyId : String) (found : ResolvedKey) :
    (ringOf box keys).lookup keyId = some found ↔ ∃ key ∈ keys, idOf box key = keyId ∧ resolveKey box key = found := by
  have hget := OrderedMap.get?_foldl_set (idOf box) (resolveKey box) keys h .empty keyId found
  simp only [OrderedMap.get?_empty, reduceCtorEq, and_false, or_false] at hget
  exact hget

theorem getPrimary_ringOf {key : ParsedKey} {keys : List ParsedKey} (h : ((key :: keys).map (idOf box)).Nodup) :
    (ringOf box (key :: keys)).getPrimary = .ok (resolveKey box key) := by
  have hlookup := (lookup_ringOf h (idOf box key) (resolveKey box key)).mpr ⟨key, List.mem_cons_self, rfl, rfl⟩
  unfold KeyRing.getPrimary
  rw [show (ringOf box (key :: keys)).resolved.get? (ringOf box (key :: keys)).primaryKeyId = _ from hlookup]

/-- Which texts start the server, and the key store that they give: the first entry is the key that is served for
sealing, and the pair of every entry is found under its fingerprint, whatever its label. -/
theorem createKeyStore_exact (box : SealedBox) (csv : String) :
    ((∃ ring, createKeyStore box csv = .ok ring) ↔ ∃ keys, Lists box csv keys) ∧
      ∀ ring, createKeyStore box csv = .ok ring → ∃ first rest, Lists box csv (first :: rest) ∧
        ring.getPrimary = .ok (resolveKey box first) ∧ ring.allKeyIds = (first :: rest).map (idOf box) ∧
        ∀ keyId found, ring.lookup keyId = some found ↔
          ∃ key ∈ first :: rest, idOf box key = keyId ∧ resolveKey box key = found := by
  constructor
  · constructor
    · rintro ⟨ring, hring⟩
      obtain ⟨keys, hkeys, -⟩ := createKeyStore_eq_ok_iff.mp hring
      exact ⟨keys, hkeys⟩
    · rintro ⟨keys, hkeys⟩
      exact ⟨_, createKeyStore_eq_ok_iff.mpr ⟨keys, hkeys, rfl⟩⟩
  · intro ring hring
    obtain ⟨keys, hkeys, rfl⟩ := createKeyStore_eq_ok_iff.mp hring
    cases keys with
    | nil => exact absurd rfl hkeys.ne_nil
    | cons first rest =>
      exact ⟨first, rest, hkeys, getPrimary_ringOf hkeys.fingerprints, rfl, lookup_ringOf hkeys.fingerprints⟩

end Exact

end WorkflowEngine.Runtime
