import Mathlib.Algebra.Group.Nat.Even
import Mathlib.Data.List.Basic

/-!
# The guard of outgoing connections

`net-guard/index.ts` and the connector of `hardened-fetch.ts`: special-use addresses, hosts and the sockets that
are opened to them. The parser of addresses and the resolver are parameters.
-/

namespace WorkflowEngine.Sandbox.NetGuard

set_option autoImplicit false

inductive BlockReason where
  | badScheme
  | privateIp
  | redirectToPrivate
  | zoneId
  deriving DecidableEq

/-- An error of the platform or of a driver, with a `code` that is a string. -/
structure DriverError where
  isTypeError : Bool
  name : String
  message : String
  code : Option String
  deriving DecidableEq

/-- What is thrown on the way to a response. -/
inductive NetError where
  | hostBlocked (reason : BlockReason) (message : String)
  | typeError (message : String)
  | error (message : String)
  | caused (message : String) (cause : NetError)
  | driver (e : DriverError)
  deriving DecidableEq

/-! ## Addresses -/

inductive IpAddress where
  | ipv4 (bits : BitVec 32)
  | ipv6 (bits : BitVec 128)
  deriving DecidableEq

structure Cidr (w : Nat) where
  network : BitVec w
  bits : Nat

/-- Both addresses begin with the same `bits` bits. -/
def matchCidr {w : Nat} (address : BitVec w) (cidr : Cidr w) : Bool :=
  address >>> (w - cidr.bits) == cidr.network >>> (w - cidr.bits)

def octets (a b c d : Nat) : BitVec 32 := BitVec.ofNat 32 (((a * 256 + b) * 256 + c) * 256 + d)

/-- An IPv6 address whose groups after the first are zero. -/
def firstGroup (g : Nat) : BitVec 128 := BitVec.ofNat 128 (g * 2 ^ 112)

def blockedCidrsIpv4 : List (Cidr 32) :=
  [⟨octets 0 0 0 0, 8⟩, ⟨octets 10 0 0 0, 8⟩, ⟨octets 100 64 0 0, 10⟩, ⟨octets 127 0 0 0, 8⟩,
    ⟨octets 169 254 0 0, 16⟩, ⟨octets 172 16 0 0, 12⟩, ⟨octets 192 0 0 0, 24⟩, ⟨octets 192 0 2 0, 24⟩,
    ⟨octets 192 88 99 0, 24⟩, ⟨octets 192 168 0 0, 16⟩, ⟨octets 198 18 0 0, 15⟩, ⟨octets 198 51 100 0, 24⟩,
    ⟨octets 203 0 113 0, 24⟩, ⟨octets 224 0 0 0, 4⟩, ⟨octets 240 0 0 0, 4⟩, ⟨octets 255 255 255 255, 32⟩]

def blockedCidrsIpv6 : List (Cidr 128) :=
  [⟨0, 128⟩, ⟨1, 128⟩, ⟨firstGroup 0x100, 64⟩, ⟨firstGroup 0xfc00, 7⟩, ⟨firstGroup 0xfe80, 10⟩]

/-- `::ffff:0:0/96`. -/
def isIPv4MappedAddress (address : BitVec 128) : Bool := matchCidr address ⟨BitVec.ofNat 128 (0xffff * 2 ^ 32), 96⟩

def toIPv4Address (address : BitVec 128) : BitVec 32 := address.setWidth 32

/-- IPv4-mapped addresses are classified as IPv4 ones. -/
def unwrapMapped : IpAddress → IpAddress
  | .ipv4 bits => .ipv4 bits
  | .ipv6 bits => if isIPv4MappedAddress bits then .ipv4 (toIPv4Address bits) else .ipv6 bits

def isBlockedIp (address : IpAddress) : Bool :=
  match unwrapMapped address with
  | .ipv4 bits => blockedCidrsIpv4.any (matchCidr bits)
  | .ipv6 bits => blockedCidrsIpv6.any (matchCidr bits)

section Guard
variable (parse : String → Option IpAddress)

/-- What does not parse is refused. -/
def isBlockedAddress (addrStr : String) : Bool :=
  match parse addrStr with
  | none => true
  | some address => isBlockedIp address

/-! ## Hosts -/

def hasZoneIdentifier (hostname : String) : Bool := hostname.toList.contains '%'

/-- A bracketed IPv6 literal without its brackets. -/
def bareHost (hostname : String) : String :=
  if hostname.toList.head? = some '[' ∧ hostname.toList.getLast? = some ']' then
    String.ofList (hostname.toList.drop 1).dropLast
  else hostname

/-- One call of the resolver: the test flag as it is read after it, and its answer. -/
structure Lookup where
  disableSsrfProtection : Option String
  addresses : String → Except NetError (List String)

def Lookup.disabled (l : Lookup) : Bool := l.disableSsrfProtection == some "true"

def assertHostIsPublic (lookup : Lookup) (hostname : String) : Except NetError String :=
  if hasZoneIdentifier hostname then .error (.hostBlocked .zoneId "IPv6 zone identifiers are not permitted")
  else
    match lookup.addresses (bareHost hostname) with
    | .error e => .error e
    | .ok [] => .error (.error s!"dns.lookup returned no addresses for {hostname}")
    | .ok (first :: rest) =>
      if !lookup.disabled && (first :: rest).any (isBlockedAddress parse) then
        .error (.hostBlocked .privateIp s!"{hostname} resolves to a blocked address")
      else .ok first

/-- Why a host was let through. -/
structure PublicHost (lookup : Lookup) (hostname chosen : String) : Prop where
  noZone : hasZoneIdentifier hostname = false
  resolved : ∃ addresses, lookup.addresses (bareHost hostname) = .ok addresses ∧ chosen ∈ addresses ∧
    (lookup.disabled = false → ∀ a ∈ addresses, isBlockedAddress parse a = false)

theorem assertHostIsPublic_ok {lookup : Lookup} {hostname chosen : String}
    (h : assertHostIsPublic parse lookup hostname = .ok chosen) : PublicHost parse lookup hostname chosen := by
  unfold assertHostIsPublic at h
  cases hzone : hasZoneIdentifier hostname with
  | true => simp [hzone] at h
  | false =>
    rw [hzone, if_neg Bool.false_ne_true] at h
    refine ⟨hzone, ?_⟩
    cases haddresses : lookup.addresses (bareHost hostname) with
    | error e => simp [haddresses] at h
    | ok addresses =>
      rw [haddresses] at h
      cases addresses with
      | nil => cases h
      | cons entry rest =>
        simp only at h
        by_cases hblocked : (!lookup.disabled && (entry :: rest).any (isBlockedAddress parse)) = true
        · rw [if_pos hblocked] at h
          cases h
        · rw [if_neg hblocked] at h
          cases h
          refine ⟨chosen :: rest, rfl, List.mem_cons_self, fun henabled a ha => ?_⟩
          rw [henabled] at hblocked
          by_contra hbad
          apply hblocked
          rw [Bool.not_false, Bool.true_and, List.any_eq_true]
          exact ⟨a, ha, by simpa using hbad⟩

/-- The name has addresses, and unless the test flag is set none of them is blocked. -/
def Reachable (lookup : Lookup) (hostname : String) : Prop :=
  hasZoneIdentifier hostname = false ∧ ∃ first rest, lookup.addresses (bareHost hostname) = .ok (first :: rest) ∧
    (lookup.disabled = true ∨ ∀ a ∈ first :: rest, isBlockedAddress parse a = false)

theorem assertHostIsPublic_eq_ok_iff (lookup : Lookup) (hostname : String) :
    (∃ chosen, assertHostIsPublic parse lookup hostname = .ok chosen) ↔ Reachable parse lookup hostname := by
  constructor
  · rintro ⟨chosen, h⟩
    obtain ⟨hzone, addresses, haddresses, hmem, hpublic⟩ := assertHostIsPublic_ok parse h
    obtain ⟨first, rest, rfl⟩ := List.exists_cons_of_ne_nil (List.ne_nil_of_mem hmem)
    refine ⟨hzone, first, rest, haddresses, ?_⟩
    cases hdisabled : lookup.disabled with
    | true => exact Or.inl rfl
    | false => exact Or.inr (hpublic hdisabled)
  · rintro ⟨hzone, first, rest, haddresses, hpublic⟩
    refine ⟨first, ?_⟩
    have hnot : ¬ (!lookup.disabled && (first :: rest).any (isBlockedAddress parse)) = true := by
      rw [Bool.and_eq_true, List.any_eq_true]
      rintro ⟨henabled, a, ha, hblocked⟩
      rcases hpublic with hdisabled | hpublic
      · simp [hdisabled] at henabled
      · rw [hpublic a ha] at hblocked
        cases hblocked
    unfold assertHostIsPublic
    rw [hzone, if_neg Bool.false_ne_true, haddresses]
    simp only
    rw [if_neg hnot]

/-! ## The connector -/

structure ConnectOptions where
  hostname : String
  servername : Option String

/-- A socket opened by the base connector. -/
structure Socket where
  address : String
  servername : String
  deriving DecidableEq

/-- The name is resolved and checked once, and the socket goes to the address found. -/
def connectAsync (lookup : Lookup) (options : ConnectOptions) : Except NetError Socket :=
  match assertHostIsPublic parse lookup options.hostname with
  | .error e => .error e
  | .ok chosen => .ok { address := chosen, servername := options.servername.getD options.hostname }

theorem connectAsync_ok {lookup : Lookup} {options : ConnectOptions} {socket : Socket}
    (h : connectAsync parse lookup options = .ok socket) :
    PublicHost parse lookup options.hostname socket.address := by
  unfold connectAsync at h
  cases hpublic : assertHostIsPublic parse lookup options.hostname with
  | error e =>
    rw [hpublic] at h
    cases h
  | ok chosen =>
    rw [hpublic] at h
    cases h
    exact assertHostIsPublic_ok parse hpublic

end Guard

theorem toIPv4Address_mapped (bits : BitVec 32) :
    isIPv4MappedAddress (BitVec.ofNat 128 (0xffff * 2 ^ 32 + bits.toNat)) = true ∧
      toIPv4Address (BitVec.ofNat 128 (0xffff * 2 ^ 32 + bits.toNat)) = bits := by
  have hbits := bits.isLt
  constructor
  · unfold isIPv4MappedAddress matchCidr
    rw [beq_iff_eq]
    apply BitVec.eq_of_toNat_eq
    simp only [BitVec.toNat_ushiftRight, BitVec.toNat_ofNat, Nat.shiftRight_eq_div_pow]
    omega
  · apply BitVec.eq_of_toNat_eq
    simp only [toIPv4Address, BitVec.toNat_setWidth, BitVec.toNat_ofNat]
    omega

/-- An IPv4 address cannot pass as its mapped IPv6 one. -/
theorem isBlockedIp_mapped (bits : BitVec 32) :
    isBlockedIp (.ipv6 (BitVec.ofNat 128 (0xffff * 2 ^ 32 + bits.toNat))) = isBlockedIp (.ipv4 bits) := by
  obtain ⟨hmapped, haddress⟩ := toIPv4Address_mapped bits
  have hunwrap : unwrapMapped (.ipv6 (BitVec.ofNat 128 (0xffff * 2 ^ 32 + bits.toNat))) = .ipv4 bits := by
    rw [unwrapMapped, if_pos hmapped, haddress]
  rw [isBlockedIp, hunwrap]
  rfl

end WorkflowEngine.Sandbox.NetGuard
