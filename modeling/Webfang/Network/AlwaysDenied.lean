import Webfang.Network.SsrfGuard

/-!
# Always-denied addresses

The always-denied set is to stay closed above the loopback flag and above every allowlist. The
flat deny list is a union of its own, and the two differ on multicast.
-/
namespace Webfang.Network

variable {v4 : Ipv4Addr} {v6 : Ipv6Addr} {ip : IpAddr}

/-! ### IPv4 -/

/-- A multicast address is in no range of the flat deny list. -/
theorem isForbiddenV4_multicast (multicast : v4.isMulticast = true) : isForbiddenV4 v4 = false := by
  obtain ⟨low, high⟩ : 224 ≤ (v4.octet 0).toNat ∧ (v4.octet 0).toNat ≤ 239 := by
    simpa [Ipv4Addr.isMulticast, BitVec.le_def] using multicast
  have first (value : BitVec 8) (outside : value.toNat < 224) : v4.octet 0 ≠ value := by
    intro same
    rw [same] at low
    omega
  have reserved : isReservedV4 v4 = false := by
    rw [isReservedV4, Bool.and_eq_false_iff, beq_eq_false_iff_ne]
    left
    intro masked
    -- the upper half of the octet would be all ones
    have below : (v4.octet 0).toNat &&& 240 ≤ (v4.octet 0).toNat := Nat.and_le_left
    have ones : (v4.octet 0).toNat &&& 240 = 240 := by
      simpa using congrArg BitVec.toNat masked
    omega
  have broadcast : v4.isBroadcast = false := by
    rw [Ipv4Addr.isBroadcast, beq_eq_false_iff_ne]
    rintro rfl
    exact absurd multicast (by decide)
  simp [isForbiddenV4, Ipv4Addr.isLoopback, Ipv4Addr.isPrivate, Ipv4Addr.isLinkLocal, isIpv4ThisNetwork,
    isCgnat, reserved, broadcast, first 127#8, first 10#8, first 172#8, first 192#8, first 169#8, first 0#8,
    first 100#8]

theorem isForbiddenV4_of_alwaysDenied (denied : isAlwaysDeniedV4 v4 = true)
    (other : v4.isMulticast = false) : isForbiddenV4 v4 = true := by
  simp only [isAlwaysDeniedV4, other, Bool.or_false, Bool.or_eq_true] at denied
  simp only [isForbiddenV4, Bool.or_eq_true]
  tauto

/-! ### IPv6 -/

theorem native_ranges_zero (first : v6.segment 0 = 0) :
    isIpv6UniqueLocal v6 = false ∧ isIpv6LinkLocal v6 = false ∧ isIpv6Nat64NonCanonical v6 = false ∧
      v6.isMulticast = false ∧ isIpv6Teredo v6 = false := by
  simp [isIpv6UniqueLocal, isIpv6LinkLocal, isIpv6Nat64NonCanonical, isIpv6Nat64PrefixSpace,
    Ipv6Addr.isMulticast, isIpv6Teredo, first]

theorem toIpv4_isSome_of_special (special : (v6.isLoopback || v6.isUnspecified) = true) :
    ∃ v4, v6.toIpv4 = some v4 ∧ v4.isMulticast = false := by
  rw [Bool.or_eq_true] at special
  rcases special with loopback | unspecified
  · have one : v6 = 1 := by simpa [Ipv6Addr.isLoopback] using loopback
    subst one
    exact ⟨1, by decide, by decide⟩
  · have zero : v6 = 0 := by simpa [Ipv6Addr.isUnspecified] using unspecified
    subst zero
    exact ⟨0, by decide, by decide⟩

/-- Both verdicts on an address that spells an IPv4 address are those on that address. -/
theorem verdicts_of_toIpv4 (decoded : v6.toIpv4 = some v4)
    (plain : (v6.isLoopback || v6.isUnspecified) = false) :
    isAlwaysDeniedIp (.v6 v6) = isAlwaysDeniedV4 v4 ∧ isForbiddenIp (.v6 v6) = isForbiddenV4 v4 := by
  obtain ⟨uniqueLocal, linkLocal, nat64, -, -⟩ := native_ranges_zero (toIpv4_segments decoded).1
  constructor
  · simp [isAlwaysDeniedIp, plain, decoded]
  · simp [isForbiddenIp, plain, uniqueLocal, linkLocal, nat64, decoded]

/-- A native multicast address is in no other range that is tested on its first segments. -/
theorem native_ranges_multicast (multicast : v6.isMulticast = true) :
    isIpv6UniqueLocal v6 = false ∧ isIpv6LinkLocal v6 = false ∧ isIpv6Nat64NonCanonical v6 = false ∧
      isIpv6Teredo v6 = false ∧ ipv6Nat64EmbeddedV4 v6 = none ∧ ipv66to4EmbeddedV4 v6 = none ∧
      v6.toIpv4 = none := by
  have masked : v6.segment 0 &&& 0xff00 = 0xff00 := by simpa [Ipv6Addr.isMulticast] using multicast
  have first (value : BitVec 16) (other : value &&& 0xff00 ≠ 0xff00) : v6.segment 0 ≠ value := by
    rintro rfl
    exact other masked
  have coarser (mask value : BitVec 16) (other : value &&& 0xff00 ≠ 0xff00 &&& mask) :
      v6.segment 0 &&& mask ≠ value := by
    rintro rfl
    rw [BitVec.and_assoc, BitVec.and_comm mask, ← BitVec.and_assoc, masked] at other
    exact other rfl
  have nat64 : v6.segment 0 ≠ 0x0064#16 := first _ (by decide)
  have sixToFour : v6.segment 0 ≠ 0x2002#16 := first _ (by decide)
  refine ⟨?_, ?_, ?_, ?_, ?_, ?_, toIpv4_eq_none (first _ (by decide))⟩
  · simpa [isIpv6UniqueLocal] using coarser 0xfe00 0xfc00 (by decide)
  · simpa [isIpv6LinkLocal] using coarser 0xffc0 0xfe80 (by decide)
  · simp [isIpv6Nat64NonCanonical, isIpv6Nat64PrefixSpace, nat64]
  · simp [isIpv6Teredo, first 0x2001#16 (by decide)]
  · simp [ipv6Nat64EmbeddedV4, isIpv6Nat64WellKnownPrefix, nat64]
  · simp [ipv66to4EmbeddedV4, sixToFour]

/-! ### The verdict -/

/-- A multicast address, by itself or as an IPv4 address spelled in IPv6, that carries no forbidden
address behind the ISATAP marker. -/
def OpenMulticast : IpAddr → Prop
  | .v4 v4 => v4.isMulticast = true
  | .v6 v6 => (∃ v4, v6.toIpv4 = some v4 ∧ v4.isMulticast = true) ∨
      v6.isMulticast = true ∧ ∀ v4, ipv6IsatapEmbeddedV4 v6 = some v4 → isForbiddenV4 v4 = false

theorem isAlwaysDeniedV4_multicast (multicast : v4.isMulticast = true) : isAlwaysDeniedV4 v4 = true := by
  simp [isAlwaysDeniedV4, multicast]

/-- The address is denied for good, and not forbidden. -/
theorem OpenMulticast.verdicts (opened : OpenMulticast ip) :
    isAlwaysDeniedIp ip = true ∧ isForbiddenIp ip = false := by
  cases ip with
  | v4 v4 => exact ⟨isAlwaysDeniedV4_multicast opened, isForbiddenV4_multicast opened⟩
  | v6 v6 =>
    rcases opened with ⟨v4, decoded, multicast⟩ | ⟨multicast, carries⟩
    · have plain : (v6.isLoopback || v6.isUnspecified) = false := by
        rw [Bool.eq_false_iff]
        intro special
        obtain ⟨other, same, quiet⟩ := toIpv4_isSome_of_special special
        rw [decoded, Option.some.injEq] at same
        rw [← same, multicast] at quiet
        cases quiet
      obtain ⟨denied, forbidden⟩ := verdicts_of_toIpv4 decoded plain
      rw [denied, forbidden]
      exact ⟨isAlwaysDeniedV4_multicast multicast, isForbiddenV4_multicast multicast⟩
    · obtain ⟨uniqueLocal, linkLocal, nat64, teredo, translated, sixToFour, native⟩ :=
        native_ranges_multicast multicast
      have plain : (v6.isLoopback || v6.isUnspecified) = false := by
        rw [Bool.eq_false_iff]
        intro special
        obtain ⟨other, same, -⟩ := toIpv4_isSome_of_special special
        rw [native] at same
        cases same
      refine ⟨by simp [isAlwaysDeniedIp, plain, native, multicast], ?_⟩
      have chain : embeddedV4 v6 = ipv6IsatapEmbeddedV4 v6 := by simp [embeddedV4, translated, sixToFour]
      simp only [isForbiddenIp, plain, uniqueLocal, linkLocal, nat64, native, teredo, chain, Bool.or_self,
        Bool.false_eq_true, if_false]
      cases isatap : ipv6IsatapEmbeddedV4 v6 with
      | none => rfl
      | some inner => exact carries inner isatap

theorem isForbiddenIp_of_alwaysDenied (denied : isAlwaysDeniedIp ip = true) (closed : ¬ OpenMulticast ip) :
    isForbiddenIp ip = true := by
  cases ip with
  | v4 v4 => exact isForbiddenV4_of_alwaysDenied denied (Bool.eq_false_iff.mpr closed)
  | v6 v6 =>
    cases plain : v6.isLoopback || v6.isUnspecified with
    | true => simp [isForbiddenIp, plain]
    | false =>
      cases native : v6.toIpv4 with
      | some v4 =>
        obtain ⟨verdict, forbidden⟩ := verdicts_of_toIpv4 native plain
        rw [verdict] at denied
        rw [forbidden]
        apply isForbiddenV4_of_alwaysDenied denied
        rw [Bool.eq_false_iff]
        exact fun multicast => closed (.inl ⟨v4, native, multicast⟩)
      | none =>
        have own : (if v6.isLoopback || v6.isUnspecified then IpAddr.v6 v6
            else v6.toIpv4.elim (.v6 v6) .v4) = .v6 v6 := by
          rw [plain, native]
          rfl
        have unspecified : v6.isUnspecified = false := (Bool.or_eq_false_iff.mp plain).2
        unfold isAlwaysDeniedIp at denied
        dsimp only at denied
        rw [own] at denied
        simp only [unspecified, Bool.false_or, Bool.or_eq_true] at denied
        rcases denied with ((linkLocal | multicast) | teredo) | nat64
        · simp [isForbiddenIp, linkLocal]
        · -- only the address behind the ISATAP marker can forbid it
          have carries : ¬ ∀ v4, ipv6IsatapEmbeddedV4 v6 = some v4 → isForbiddenV4 v4 = false :=
            fun carries => closed (.inr ⟨multicast, carries⟩)
          push Not at carries
          obtain ⟨v4, isatap, forbidden⟩ := carries
          obtain ⟨-, -, -, -, translated, sixToFour, -⟩ := native_ranges_multicast multicast
          have chain : embeddedV4 v6 = some v4 := by simp [embeddedV4, translated, sixToFour, isatap]
          exact isForbiddenIp_of_embeddedV4 native chain (by simpa using forbidden)
        · simp [isForbiddenIp, native, teredo]
        · simp [isForbiddenIp, nat64]

theorem not_permitted_of_alwaysDenied (denied : isAlwaysDeniedIp ip = true) :
    isPermittedLoopback ip = false := by
  rw [Bool.eq_false_iff]
  intro permitted
  cases ip with
  | v4 v4 =>
    have localhost : v4 = .localhost := by simpa [isPermittedLoopback] using permitted
    subst localhost
    exact absurd denied (by decide)
  | v6 v6 =>
    have one : v6 = 1 := by simpa [isPermittedLoopback, Ipv6Addr.isLoopback] using permitted
    subst one
    exact absurd denied (by decide)

theorem isForbiddenIpWith_of_alwaysDenied (denied : isAlwaysDeniedIp ip = true) (allowLoopback : Bool) :
    isForbiddenIpWith ip allowLoopback = isForbiddenIp ip := by
  simp [isForbiddenIpWith, not_permitted_of_alwaysDenied denied]

/-- **An always-denied address is refused by the flat path, with the loopback flag and without it, unless
it is a multicast address with nothing forbidden inside.** -/
theorem alwaysDenied_refused_iff (ip : IpAddr) : (isAlwaysDeniedIp ip = true →
      isForbiddenIp ip = true ∧ ∀ allowLoopback, isForbiddenIpWith ip allowLoopback = true) ↔
        ¬ OpenMulticast ip := by
  constructor
  · intro refused opened
    obtain ⟨denied, permitted⟩ := opened.verdicts
    rw [(refused denied).1] at permitted
    cases permitted
  · intro closed denied
    have forbidden := isForbiddenIp_of_alwaysDenied denied closed
    exact ⟨forbidden, fun allowLoopback => by rw [isForbiddenIpWith_of_alwaysDenied denied, forbidden]⟩

/-- 224.0.0.1 and ff02::1, all hosts of the local network. -/
theorem all_hosts_permitted :
    (isAlwaysDeniedIp (.v4 (.new 224 0 0 1)) = true ∧ isForbiddenIp (.v4 (.new 224 0 0 1)) = false ∧
      isForbiddenIpWith (.v4 (.new 224 0 0 1)) true = false) ∧
    (isAlwaysDeniedIp (.v6 (.new 0xff02 0 0 0 0 0 0 1)) = true ∧
      isForbiddenIp (.v6 (.new 0xff02 0 0 0 0 0 0 1)) = false) ∧
    ¬ ∀ ip, isAlwaysDeniedIp ip = true →
      isForbiddenIp ip = true ∧ ∀ allowLoopback, isForbiddenIpWith ip allowLoopback = true := by
  refine ⟨by decide, by decide, fun refused => ?_⟩
  exact absurd (refused (.v4 (.new 224 0 0 1)) (by decide)).1 (by decide)

end Webfang.Network
