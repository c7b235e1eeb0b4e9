import Webfang.Network.NetworkPolicy

/-!
# SSRF guard

The address verdicts of `domain/ssrf_guard.rs`: the flat deny list, the always-denied set,
the two policy-parameterised paths, and the host-literal parser the entry guard uses. An IPv6
address can embed an IPv4 address in several forms, and carry two of them at once: what the
verdicts say about it is decided by the first decoder that matches, and by the native ranges that
are tested before any decoder.
-/
namespace Webfang.Network

open Library

/-! ### Address ranges -/

def isCgnat (v4 : Ipv4Addr) : Bool :=
  v4.octet 0 == 100 && (v4.octet 1 &&& 0b11000000) == 0b01000000

def isReservedV4 (v4 : Ipv4Addr) : Bool :=
  v4.octet 0 &&& 0b11110000 == 0b11110000 && !v4.isBroadcast

def isIpv4ThisNetwork (v4 : Ipv4Addr) : Bool := v4.octet 0 == 0

def isIpv6UniqueLocal (v6 : Ipv6Addr) : Bool := v6.segment 0 &&& 0xfe00 == 0xfc00

def isIpv6LinkLocal (v6 : Ipv6Addr) : Bool := v6.segment 0 &&& 0xffc0 == 0xfe80

def isIpv6Nat64WellKnownPrefix (v6 : Ipv6Addr) : Bool :=
  v6.segment 0 == 0x0064 && v6.segment 1 == 0xff9b &&
    (v6.segment 2 == 0 && v6.segment 3 == 0 && v6.segment 4 == 0 && v6.segment 5 == 0)

def isIpv6Nat64PrefixSpace (v6 : Ipv6Addr) : Bool :=
  v6.segment 0 == 0x0064 && v6.segment 1 == 0xff9b

def isIpv6Nat64NonCanonical (v6 : Ipv6Addr) : Bool :=
  isIpv6Nat64PrefixSpace v6 && !isIpv6Nat64WellKnownPrefix v6

def isIpv6Teredo (v6 : Ipv6Addr) : Bool := v6.segment 0 == 0x2001 && v6.segment 1 == 0x0000

/-! ### Embedded IPv4 addresses -/

def ipv6Nat64EmbeddedV4 (v6 : Ipv6Addr) : Option Ipv4Addr :=
  if !isIpv6Nat64WellKnownPrefix v6 then none
  else some (Ipv6Addr.v4OfSegments (v6.segment 6) (v6.segment 7))

def ipv66to4EmbeddedV4 (v6 : Ipv6Addr) : Option Ipv4Addr :=
  if v6.segment 0 != 0x2002 then none
  else some (Ipv6Addr.v4OfSegments (v6.segment 1) (v6.segment 2))

def ipv6IsatapEmbeddedV4 (v6 : Ipv6Addr) : Option Ipv4Addr :=
  if v6.segment 5 != 0x5efe then none
  else some (Ipv6Addr.v4OfSegments (v6.segment 6) (v6.segment 7))

/-- The chain of decoders the verdicts consult; the first that matches wins. -/
def embeddedV4 (v6 : Ipv6Addr) : Option Ipv4Addr :=
  ((ipv6Nat64EmbeddedV4 v6).or (ipv66to4EmbeddedV4 v6)).or (ipv6IsatapEmbeddedV4 v6)

/-! ### The flat deny list -/

/-- The IPv4 arm of `is_forbidden_ip`. -/
def isForbiddenV4 (v4 : Ipv4Addr) : Bool :=
  v4.isLoopback || v4.isPrivate || v4.isLinkLocal || isIpv4ThisNetwork v4 || v4.isBroadcast ||
    isReservedV4 v4 || isCgnat v4

def isForbiddenIp : IpAddr → Bool
  | .v4 v4 => isForbiddenV4 v4
  | .v6 v6 =>
    if v6.isLoopback || v6.isUnspecified || isIpv6UniqueLocal v6 || isIpv6LinkLocal v6 then true
    else if isIpv6Nat64NonCanonical v6 then true
    else match v6.toIpv4 with
      | some v4 => isForbiddenV4 v4
      | none =>
        if isIpv6Teredo v6 then true
        else match embeddedV4 v6 with
          | some v4 => isForbiddenV4 v4
          | none => false

def isPermittedLoopback : IpAddr → Bool
  | .v4 v4 => v4 == Ipv4Addr.localhost
  | .v6 v6 => v6.isLoopback

def isForbiddenIpWith (ip : IpAddr) (allowLoopback : Bool) : Bool :=
  if allowLoopback && isPermittedLoopback ip then false else isForbiddenIp ip

/-! ### The always-denied set -/

/-- The IPv4 arm of `is_always_denied_ip`. -/
def isAlwaysDeniedV4 (v4 : Ipv4Addr) : Bool :=
  v4.isLinkLocal || isIpv4ThisNetwork v4 || v4.isBroadcast || v4.isMulticast || isReservedV4 v4

def isAlwaysDeniedIp (ip : IpAddr) : Bool :=
  -- the native special addresses keep their own spelling
  let normalized := match ip with
    | .v6 v6 =>
      if v6.isLoopback || v6.isUnspecified then ip else (v6.toIpv4).elim ip .v4
    | .v4 _ => ip
  match normalized with
  | .v4 v4 => isAlwaysDeniedV4 v4
  | .v6 v6 =>
    v6.isUnspecified || isIpv6LinkLocal v6 || v6.isMulticast || isIpv6Teredo v6 ||
      isIpv6Nat64NonCanonical v6

/-! ### The policy paths -/

/-- The policy verdict on an IPv4 address: nothing is embedded in it. -/
def isForbiddenV4WithPolicy (v4 : Ipv4Addr) (allowLoopback : Bool) (policy : NetworkPolicy) :
    Bool :=
  if isAlwaysDeniedIp (.v4 v4) then true
  else if allowLoopback && isPermittedLoopback (.v4 v4) then false
  else if !isForbiddenIp (.v4 v4) then false
  else !policy.allowsIp (.v4 v4)

def isForbiddenIpWithPolicy (ip : IpAddr) (allowLoopback : Bool) (policy : NetworkPolicy) : Bool :=
  match ip with
  | .v4 v4 => isForbiddenV4WithPolicy v4 allowLoopback policy
  | .v6 v6 =>
    if isAlwaysDeniedIp (.v6 v6) then true
    else if allowLoopback && isPermittedLoopback (.v6 v6) then false
    else if !isForbiddenIp (.v6 v6) then false
    else match embeddedV4 v6 with
      | some v4 =>
        -- the loopback exemption does not travel through a translation prefix
        if isPermittedLoopback (.v4 v4) then true
        else isForbiddenV4WithPolicy v4 allowLoopback policy
      | none => !policy.allowsIp (.v6 v6)

/-! ### Host literals -/

/-- `u64::from_str_radix` on digits of that radix. -/
def fromStrRadix (radix : Nat) (digits : List Char) : Option Nat :=
  let value := (digits.filterMap (IpText.toDigit radix)).foldl
    (fun acc digit => acc * radix + digit) 0
  if value < 2 ^ 64 then some value else none

def parseIpv4Number (part : List Char) : Option Nat :=
  let (radix, digits) := match part with
    | '0' :: 'x' :: hex => (16, hex)
    | '0' :: 'X' :: hex => (16, hex)
    | '0' :: _ :: _ => (8, part)
    | _ => (10, part)
  if digits.isEmpty then none
  else if digits.all fun c => (IpText.toDigit radix c).isSome then fromStrRadix radix digits
  else none

def parseIpv4AllForms (text : String) : Option Ipv4Addr :=
  let text := (Text.stripSuffix text ".").getD text
  if text.isEmpty then none
  else
    let parts := text.toList.splitOn '.'
    if parts.length > 4 || parts.any List.isEmpty then none
    else do
      let numbers ← parts.mapM parseIpv4Number
      -- every leading part is one octet; the last fills the bytes that are left
      let leading := numbers.dropLast
      let last := numbers.getLastD 0
      if leading.any (· ≥ 256) || last ≥ 256 ^ (5 - numbers.length) then none
      else
        let shifted := (leading.zipIdx).map fun (number, index) => number * 2 ^ (8 * (3 - index))
        return BitVec.ofNat 32 (last + shifted.sum)

def stripBrackets (host : String) : String :=
  match host.toList with
  | '[' :: rest =>
    if rest.getLast? = some ']' then String.ofList rest.dropLast else host
  | _ => host

def parseIpLiteral (host : String) : Option IpAddr :=
  let literal := stripBrackets host
  match IpAddr.parse literal with
  | some ip => some ip
  | none =>
    if Text.contains literal ":" then none
    else (parseIpv4AllForms literal).map .v4

def isForbiddenLiteralHost (host : String) : Bool :=
  (parseIpLiteral host).any isForbiddenIp

/-! ### The verdict on a resolved address -/

/-- The resolved verdict on an IPv4 address. -/
def isForbiddenResolvedV4 (v4 : Ipv4Addr) (host : String) (allowLoopback : Bool)
    (policy : NetworkPolicy) : Bool :=
  if isAlwaysDeniedIp (.v4 v4) then true
  else if allowLoopback && isPermittedLoopback (.v4 v4) then false
  else if !isForbiddenIp (.v4 v4) then false
  else if !policy.allowsIp (.v4 v4) then true
  else !((parseIpLiteral host).isSome || policy.allowsHost host)

def isForbiddenResolvedAddress (ip : IpAddr) (host : String) (allowLoopback : Bool)
    (policy : NetworkPolicy) : Bool :=
  match ip with
  | .v4 v4 => isForbiddenResolvedV4 v4 host allowLoopback policy
  | .v6 v6 =>
    if isAlwaysDeniedIp (.v6 v6) then true
    else if allowLoopback && isPermittedLoopback (.v6 v6) then false
    else if !isForbiddenIp (.v6 v6) then false
    else match embeddedV4 v6 with
      | some v4 =>
        if isPermittedLoopback (.v4 v4) then true
        else isForbiddenResolvedV4 v4 host allowLoopback policy
      | none =>
        if !policy.allowsIp (.v6 v6) then true
        else !((parseIpLiteral host).isSome || policy.allowsHost host)

/-! ### The entry guard -/

/-- What a rejected request URL is rejected for. -/
structure ForbiddenLiteral where
  host : String
  ip : IpAddr
  deriving DecidableEq, Repr

def ForbiddenLiteral.message (rejection : ForbiddenLiteral) : String :=
  "SSRF detectado: la IP " ++ rejection.ip.display ++ " del host '" ++ rejection.host ++
    "' está prohibida (acceso a red interna/cloud metadata bloqueado)"

/-- `hatch` is the value of `WEBFANG_DISABLE_SSRF_ENTRY_GUARD`; `host` is the URL's, if any. -/
def seedGuardRefusal (hatch : Option String) (host : Option String) : Option ForbiddenLiteral :=
  if hatch = some "1" then none
  else
    let host := host.getD ""
    ((parseIpLiteral host).filter isForbiddenIp).map fun ip => ⟨host, ip⟩

end Webfang.Network

namespace Webfang.Network

variable {v6 : Ipv6Addr} {v4 : Ipv4Addr}

/-! ### What each form fixes -/

@[simp] theorem isForbiddenIp_v4 (v4 : Ipv4Addr) : isForbiddenIp (.v4 v4) = isForbiddenV4 v4 := rfl

theorem nat64_segments (embedded : ipv6Nat64EmbeddedV4 v6 = some v4) :
    v6.segment 0 = 0x0064 ∧ v6.segment 1 = 0xff9b ∧ v6.segment 5 = 0 := by
  simp only [ipv6Nat64EmbeddedV4, Option.ite_none_left_eq_some, isIpv6Nat64WellKnownPrefix,
    Bool.not_eq_true', Bool.not_eq_false, Bool.and_eq_true, beq_iff_eq] at embedded
  obtain ⟨⟨⟨first, second⟩, -, sixth⟩, -⟩ := embedded
  exact ⟨first, second, sixth⟩

theorem sixToFour_segment (embedded : ipv66to4EmbeddedV4 v6 = some v4) :
    v6.segment 0 = 0x2002 := by
  simp only [ipv66to4EmbeddedV4, Option.ite_none_left_eq_some, bne_iff_ne, Decidable.not_not]
    at embedded
  exact embedded.1

theorem isatap_segment (embedded : ipv6IsatapEmbeddedV4 v6 = some v4) :
    v6.segment 5 = 0x5efe := by
  simp only [ipv6IsatapEmbeddedV4, Option.ite_none_left_eq_some, bne_iff_ne, Decidable.not_not]
    at embedded
  exact embedded.1

theorem toIpv4_segments (embedded : v6.toIpv4 = some v4) :
    v6.segment 0 = 0 ∧ (v6.segment 5 = 0 ∨ v6.segment 5 = 0xffff) := by
  simp only [Ipv6Addr.toIpv4, Option.ite_none_right_eq_some, Bool.and_eq_true, Bool.or_eq_true,
    beq_iff_eq] at embedded
  obtain ⟨⟨⟨⟨⟨⟨first, -⟩, -⟩, -⟩, -⟩, sixth⟩, -⟩ := embedded
  exact ⟨first, sixth⟩

theorem special_segments (special : v6.isLoopback ∨ v6.isUnspecified) :
    v6.segment 0 = 0 ∧ v6.segment 5 = 0 := by
  rcases special with loopback | unspecified
  · have one : v6 = 1 := by simpa [Ipv6Addr.isLoopback] using loopback
    subst one
    decide
  · have zero : v6 = 0 := by simpa [Ipv6Addr.isUnspecified] using unspecified
    subst zero
    decide

/-- The mask tests on the first segment exclude each other and every exact prefix. -/
theorem uniqueLocal_excludes (local_ : isIpv6UniqueLocal v6) :
    v6.segment 0 ≠ 0 ∧ v6.segment 0 ≠ 0x0064#16 ∧ v6.segment 0 ≠ 0x2001#16 ∧
      v6.segment 0 ≠ 0x2002#16 ∧ isIpv6LinkLocal v6 = false ∧ v6.isMulticast = false := by
  simp only [isIpv6UniqueLocal, isIpv6LinkLocal, Ipv6Addr.isMulticast, beq_iff_eq,
    beq_eq_false_iff_ne] at *
  generalize v6.segment 0 = first at *
  refine ⟨?_, ?_, ?_, ?_, ?_, ?_⟩
  · rintro rfl
    exact absurd local_ (by decide)
  · rintro rfl
    exact absurd local_ (by decide)
  · rintro rfl
    exact absurd local_ (by decide)
  · rintro rfl
    exact absurd local_ (by decide)
  · intro linkLocal
    have coarser : first &&& (0xffc0 &&& 0xfe00) = 0xfe80 &&& 0xfe00 := by
      rw [← BitVec.and_assoc, linkLocal]
    exact absurd (local_.symm.trans coarser) (by decide)
  · intro multicast
    have coarser : first &&& (0xff00 &&& 0xfe00) = 0xff00 &&& 0xfe00 := by
      rw [← BitVec.and_assoc, multicast]
    exact absurd (local_.symm.trans coarser) (by decide)

/-! ### Two embeddings at once -/

/-- The embedding forms the guard knows. -/
inductive Embeds (v6 : Ipv6Addr) (v4 : Ipv4Addr) : Prop where
  | mapped (decoded : v6.toIpv4Mapped = some v4)
  /-- `to_ipv4` also reads the deprecated compatible form. -/
  | compatible (decoded : v6.toIpv4 = some v4)
  | nat64 (decoded : ipv6Nat64EmbeddedV4 v6 = some v4)
  | sixToFour (decoded : ipv66to4EmbeddedV4 v6 = some v4)
  | isatap (decoded : ipv6IsatapEmbeddedV4 v6 = some v4)

/-- A public 6to4 address is decoded first and hides a forbidden ISATAP address. -/
def SixToFourHidesIsatap (v6 : Ipv6Addr) : Prop :=
  ∃ outer inner, ipv66to4EmbeddedV4 v6 = some outer ∧ ipv6IsatapEmbeddedV4 v6 = some inner ∧
    isForbiddenIp (.v4 outer) = false ∧ isForbiddenIp (.v4 inner) = true

theorem toIpv4_of_mapped (mapped : v6.toIpv4Mapped = some v4) : v6.toIpv4 = some v4 := by
  simp only [Ipv6Addr.toIpv4Mapped, Ipv6Addr.toIpv4, Option.ite_none_right_eq_some,
    Bool.and_eq_true, Bool.or_eq_true, beq_iff_eq] at *
  obtain ⟨⟨zeros, marker⟩, decoded⟩ := mapped
  exact ⟨⟨zeros, .inr marker⟩, decoded⟩

theorem toIpv4_eq_none (first : v6.segment 0 ≠ 0) : v6.toIpv4 = none := by
  cases decoded : v6.toIpv4 with
  | none => rfl
  | some v4 => exact absurd (toIpv4_segments decoded).1 first

theorem isForbiddenIp_of_toIpv4 (decoded : v6.toIpv4 = some v4)
    (forbidden : isForbiddenV4 v4 = true) : isForbiddenIp (.v6 v6) = true := by
  simp [isForbiddenIp, decoded, forbidden]

/-- Whatever the native ranges say, a forbidden address found by the decoders is denied. -/
theorem isForbiddenIp_of_embeddedV4 (native : v6.toIpv4 = none) (decoded : embeddedV4 v6 = some v4)
    (forbidden : isForbiddenV4 v4 = true) : isForbiddenIp (.v6 v6) = true := by
  simp [isForbiddenIp, native, decoded, forbidden]

/-- No native range contains a 6to4 address, so its first embedding alone decides. -/
theorem isForbiddenIp_sixToFour (decoded : ipv66to4EmbeddedV4 v6 = some v4) :
    isForbiddenIp (.v6 v6) = isForbiddenV4 v4 := by
  have first := sixToFour_segment decoded
  have special : (v6.isLoopback || v6.isUnspecified) = false := by
    rw [Bool.eq_false_iff]
    intro special
    have zero := (special_segments (by simpa using special)).1
    exact absurd (first.symm.trans zero) (by decide)
  have nat64 : ipv6Nat64EmbeddedV4 v6 = none := by
    cases other : ipv6Nat64EmbeddedV4 v6 with
    | none => rfl
    | some v4 => exact absurd (first.symm.trans (nat64_segments other).1) (by decide)
  have chain : embeddedV4 v6 = some v4 := by simp [embeddedV4, nat64, decoded]
  have native : v6.toIpv4 = none := toIpv4_eq_none (by rw [first]; decide)
  simp only [isForbiddenIp, special, isIpv6UniqueLocal, isIpv6LinkLocal, isIpv6Nat64NonCanonical,
    isIpv6Nat64PrefixSpace, isIpv6Teredo, first, native, chain]
  rfl

/-- Every embedded address the deny list forbids makes the IPv6 address forbidden, unless a
public 6to4 address stands in front of a forbidden ISATAP one. -/
theorem embedded_forbidden_iff (v6 : Ipv6Addr) :
    (∀ v4, Embeds v6 v4 → isForbiddenIp (.v4 v4) = true → isForbiddenIp (.v6 v6) = true) ↔
      ¬ SixToFourHidesIsatap v6 := by
  constructor
  · rintro denies ⟨outer, inner, sixToFour, isatap, isPublic, forbidden⟩
    have denied := denies inner (.isatap isatap) forbidden
    rw [isForbiddenIp_sixToFour sixToFour] at denied
    exact absurd denied (by simpa using isPublic)
  · intro visible v4 embeds forbidden
    rw [isForbiddenIp_v4] at forbidden
    cases embeds with
    | mapped decoded => exact isForbiddenIp_of_toIpv4 (toIpv4_of_mapped decoded) forbidden
    | compatible decoded => exact isForbiddenIp_of_toIpv4 decoded forbidden
    | nat64 decoded =>
      have native : v6.toIpv4 = none := by
        apply toIpv4_eq_none
        rw [(nat64_segments decoded).1]
        decide
      exact isForbiddenIp_of_embeddedV4 native (by simp [embeddedV4, decoded]) forbidden
    | sixToFour decoded => rw [isForbiddenIp_sixToFour decoded, forbidden]
    | isatap decoded =>
      have marker := isatap_segment decoded
      have native : v6.toIpv4 = none := by
        cases other : v6.toIpv4 with
        | none => rfl
        | some v4 =>
          rcases (toIpv4_segments other).2 with sixth | sixth
          · exact absurd (marker.symm.trans sixth) (by decide)
          · exact absurd (marker.symm.trans sixth) (by decide)
      have nat64 : ipv6Nat64EmbeddedV4 v6 = none := by
        cases other : ipv6Nat64EmbeddedV4 v6 with
        | none => rfl
        | some v4 => exact absurd (marker.symm.trans (nat64_segments other).2.2) (by decide)
      cases sixToFour : ipv66to4EmbeddedV4 v6 with
      | none =>
        exact isForbiddenIp_of_embeddedV4 native (by simp [embeddedV4, nat64, sixToFour, decoded])
          forbidden
      | some outer =>
        -- both forms at once: the outer address must be forbidden too
        rw [isForbiddenIp_sixToFour sixToFour]
        by_contra isPublic
        exact visible ⟨outer, v4, sixToFour, decoded, by simpa using isPublic, forbidden⟩

/-- `2002:808:808::5efe:7f00:1` is 8.8.8.8 to the 6to4 decoder and 127.0.0.1 to ISATAP. -/
theorem isatap_loopback_permitted :
    ipv6IsatapEmbeddedV4 (.new 0x2002 0x808 0x808 0 0 0x5efe 0x7f00 1) = some .localhost ∧
      isForbiddenIp (.v4 .localhost) = true ∧
      isForbiddenIp (.v6 (.new 0x2002 0x808 0x808 0 0 0x5efe 0x7f00 1)) = false ∧
      ¬ ∀ v6 v4, Embeds v6 v4 → isForbiddenIp (.v4 v4) = true → isForbiddenIp (.v6 v6) = true := by
  refine ⟨by decide, by decide, by decide, ?_⟩
  intro denies
  have denied := denies (.new 0x2002 0x808 0x808 0 0 0x5efe 0x7f00 1) .localhost
    (.isatap (by decide)) (by decide)
  exact absurd denied (by decide)

end Webfang.Network
