import Webfang.Network.SsrfGuard

/-!
# Configuration and dial time agree

The configuration rejects blocks, the guard denies addresses. A block is the set of the
addresses that share its prefix; on the blocks that reach it the overlap test says whether
two such sets meet, so an accepted block holds no address of a denied range.
-/
namespace Webfang.Network

open Library PrefixBlock

/-! ### A block as a set of addresses -/

namespace CidrBlock

/-- The addresses of the block: its family and its prefix. -/
def Holds (block : CidrBlock) (ip : IpAddr) : Prop :=
  match block.addr, ip with
  | .v4 net, .v4 ip => SharesPrefix block.prefixLen net ip
  | .v6 net, .v6 ip => SharesPrefix block.prefixLen net ip
  | _, _ => False

def WellFormed (block : CidrBlock) : Prop := block.prefixLen ≤ block.addr.maxPrefixLen

/-- The base is not an IPv4 address in mapped form. -/
def Unmapped (block : CidrBlock) : Prop := normalizeMapped block.addr = block.addr

theorem shift_eq {width bits : Nat} (positive : bits ≠ 0) (bounded : bits ≤ width) :
    shift width bits = width - bits := by
  unfold shift
  rcases Nat.lt_or_eq_of_le bounded with short | rfl
  · rw [Nat.mod_eq_of_lt short, Nat.mod_eq_of_lt (by omega)]
  · simp

/-- What the code computes is membership of the normalised address. -/
theorem contains_iff {block : CidrBlock} (wellFormed : block.WellFormed) (ip : IpAddr) :
    block.contains ip = true ↔ block.Holds (normalizeMapped ip) := by
  obtain ⟨addr, prefixLen⟩ := block
  cases addr with
  | v4 net =>
    simp only [contains, Holds]
    cases normalizeMapped ip with
    | v6 v6 => simp
    | v4 v4 =>
      by_cases all : prefixLen = 0
      · subst all
        simp [sharesPrefix_zero]
      · have shifted : shift 32 prefixLen = 32 - prefixLen := shift_eq all wellFormed
        simp only [if_neg all, shifted, beq_iff_eq, and_mask_eq_iff]
        exact Iff.rfl
  | v6 net =>
    simp only [contains, Holds]
    cases normalizeMapped ip with
    | v4 v4 => simp
    | v6 v6 =>
      by_cases all : prefixLen = 0
      · subst all
        simp [sharesPrefix_zero]
      · have shifted : shift 128 prefixLen = 128 - prefixLen := shift_eq all wellFormed
        simp only [if_neg all, shifted, beq_iff_eq]
        exact Iff.rfl

end CidrBlock

/-- Two blocks meet exactly when one holds the base of the other. -/
theorem holds_base_iff (a b : CidrBlock) :
    (∃ ip, a.Holds ip ∧ b.Holds ip) ↔ a.Holds b.addr ∨ b.Holds a.addr := by
  obtain ⟨net, m⟩ := a
  obtain ⟨net', n⟩ := b
  cases net with
  | v4 net =>
    cases net' with
    | v4 net' =>
      simp only [CidrBlock.Holds, ← meet_iff]
      constructor
      · rintro ⟨ip, left, right⟩
        cases ip with
        | v4 ip => exact ⟨ip, left, right⟩
        | v6 ip => cases left
      · rintro ⟨ip, left, right⟩
        exact ⟨.v4 ip, left, right⟩
    | v6 net' =>
      simp only [CidrBlock.Holds, or_self, iff_false]
      rintro ⟨ip, left, right⟩
      cases ip with
      | v4 ip => cases right
      | v6 ip => cases left
  | v6 net =>
    cases net' with
    | v6 net' =>
      simp only [CidrBlock.Holds, ← meet_iff]
      constructor
      · rintro ⟨ip, left, right⟩
        cases ip with
        | v6 ip => exact ⟨ip, left, right⟩
        | v4 ip => cases left
      · rintro ⟨ip, left, right⟩
        exact ⟨.v6 ip, left, right⟩
    | v4 net' =>
      simp only [CidrBlock.Holds, or_self, iff_false]
      rintro ⟨ip, left, right⟩
      cases ip with
      | v6 ip => cases right
      | v4 ip => cases left

/-- The overlap test, on blocks whose bases are not written in mapped form. -/
theorem intersects_iff {a b : CidrBlock} (wellFormed : a.WellFormed) (wellFormed' : b.WellFormed)
    (unmapped : a.Unmapped) (unmapped' : b.Unmapped) :
    intersects a b = true ↔ ∃ ip, a.Holds ip ∧ b.Holds ip := by
  rw [holds_base_iff, intersects, Bool.or_eq_true, CidrBlock.contains_iff wellFormed,
    CidrBlock.contains_iff wellFormed', unmapped, unmapped']

/-! ### What an accepted entry avoids -/

structure Accepted (block : CidrBlock) : Prop where
  wellFormed : block.WellFormed
  unmapped : block.isMapped = false
  allowable : ∀ range ∈ neverAllowable, intersects range.block block = false
  notLoopback : ∀ loopback ∈ loopbackPrefixes, intersects loopback block = false

theorem parse_wellFormed {text : String} {block : CidrBlock}
    (parsed : CidrBlock.parse text = .ok block) : block.WellFormed := by
  simp only [CidrBlock.parse] at parsed
  split at parsed
  · cases parsed
  · split at parsed
    next addr prefixLen _ _ =>
      split at parsed
      · cases parsed
      next bounded =>
        cases parsed
        exact Nat.le_of_not_lt bounded
    · cases parsed

theorem checkCidr_accepted {text : String} {block : CidrBlock}
    (checked : checkCidr text = .ok block) : Accepted block := by
  simp only [checkCidr] at checked
  cases parsed : CidrBlock.parse (Text.trim text) with
  | error e =>
    rw [parsed] at checked
    cases checked
  | ok found =>
    rw [parsed] at checked
    simp only [bind, Except.bind] at checked
    split at checked
    · cases checked
    next native =>
      split at checked
      · cases checked
      next allowable =>
        split at checked
        · cases checked
        next notLoopback =>
          cases checked
          refine ⟨parse_wellFormed parsed, by simpa using native, ?_, ?_⟩
          · simpa [List.find?_eq_none] using allowable
          · simpa using notLoopback

theorem mem_of_mapM {α β ε : Type} {f : α → Except ε β} {xs : List α} {ys : List β}
    (mapped : xs.mapM f = .ok ys) {y : β} (member : y ∈ ys) : ∃ x ∈ xs, f x = .ok y := by
  induction xs generalizing ys with
  | nil =>
    cases mapped
    cases member
  | cons x xs ih =>
    rw [List.mapM_cons] at mapped
    cases first : f x with
    | error e =>
      rw [first] at mapped
      cases mapped
    | ok value =>
      rw [first] at mapped
      cases rest : xs.mapM f with
      | error e =>
        rw [rest] at mapped
        cases mapped
      | ok values =>
        rw [rest] at mapped
        cases mapped
        rcases List.mem_cons.mp member with rfl | later
        · exact ⟨x, List.mem_cons_self, first⟩
        · obtain ⟨x', listed, found⟩ := ih rest later
          exact ⟨x', List.mem_cons_of_mem _ listed, found⟩

theorem intoPolicy_accepted {raw : NetworkPolicyRaw} {policy : NetworkPolicy}
    (accepted : raw.intoPolicy = .ok policy) : ∀ block ∈ policy.allowCidrs, Accepted block := by
  simp only [NetworkPolicyRaw.intoPolicy] at accepted
  split at accepted
  · cases accepted
  · cases cidrs : raw.allowCidrs.mapM checkCidr with
    | error e =>
      rw [cidrs] at accepted
      cases accepted
    | ok blocks =>
      rw [cidrs] at accepted
      cases hosts : raw.allowHosts.mapM checkHost with
      | error e =>
        rw [hosts] at accepted
        cases accepted
      | ok names =>
        rw [hosts] at accepted
        cases accepted
        intro block listed
        obtain ⟨text, -, checked⟩ := mem_of_mapM cidrs listed
        exact checkCidr_accepted checked

/-- The addresses of the rows an entry may not touch. -/
def Denied (ip : IpAddr) : Prop :=
  (∃ range ∈ neverAllowable, range.block.Holds ip) ∨ ∃ loopback ∈ loopbackPrefixes, loopback.Holds ip

theorem CidrBlock.unmapped_of_native {block : CidrBlock} (native : block.isMapped = false) :
    block.Unmapped := by
  obtain ⟨addr, prefixLen⟩ := block
  cases addr with
  | v4 net => rfl
  | v6 net =>
    cases mapped : net.toIpv4Mapped with
    | none => simp [CidrBlock.Unmapped, normalizeMapped, mapped]
    | some v4 => simp [CidrBlock.isMapped, toIpv4_of_mapped mapped] at native

theorem neverAllowable_rows :
    ∀ range ∈ neverAllowable, range.block.WellFormed ∧ range.block.Unmapped := by
  simp only [neverAllowable, CidrBlock.WellFormed, CidrBlock.Unmapped]
  decide

theorem loopbackPrefixes_rows :
    ∀ loopback ∈ loopbackPrefixes, loopback.WellFormed ∧ loopback.Unmapped := by
  simp only [loopbackPrefixes, CidrBlock.WellFormed, CidrBlock.Unmapped]
  decide

/-- The overlap test keeps every address of the rows out of an accepted block. -/
theorem Accepted.not_denied {block : CidrBlock} (accepted : Accepted block) {ip : IpAddr}
    (holds : block.Holds ip) : ¬ Denied ip := by
  rintro (⟨range, listed, denied⟩ | ⟨loopback, listed, denied⟩)
  · obtain ⟨wellFormed, unmapped⟩ := neverAllowable_rows range listed
    have meets := (intersects_iff wellFormed accepted.wellFormed unmapped
      (CidrBlock.unmapped_of_native accepted.unmapped)).mpr ⟨ip, denied, holds⟩
    rw [accepted.allowable range listed] at meets
    cases meets
  · obtain ⟨wellFormed, unmapped⟩ := loopbackPrefixes_rows loopback listed
    have meets := (intersects_iff wellFormed accepted.wellFormed unmapped
      (CidrBlock.unmapped_of_native accepted.unmapped)).mpr ⟨ip, denied, holds⟩
    rw [accepted.notLoopback loopback listed] at meets
    cases meets

/-! ### The ranges of the guard lie in the rows -/

theorem octet_toNat (v4 : Ipv4Addr) (i : Nat) :
    (v4.octet i).toNat = v4.toNat / 2 ^ (24 - 8 * i) % 256 := by
  simp [Ipv4Addr.octet, BitVec.extractLsb'_toNat, Nat.shiftRight_eq_div_pow]

theorem segment_toNat (v6 : Ipv6Addr) (i : Nat) :
    (v6.segment i).toNat = v6.toNat / 2 ^ (112 - 16 * i) % 65536 := by
  simp [Ipv6Addr.segment, BitVec.extractLsb'_toNat, Nat.shiftRight_eq_div_pow]

theorem octet_eq {v4 : Ipv4Addr} {i : Nat} {value : BitVec 8} (same : v4.octet i = value) :
    v4.toNat / 2 ^ (24 - 8 * i) % 256 = value.toNat := by
  rw [← octet_toNat, same]

theorem segment_eq {v6 : Ipv6Addr} {i : Nat} {value : BitVec 16} (same : v6.segment i = value) :
    v6.toNat / 2 ^ (112 - 16 * i) % 65536 = value.toNat := by
  rw [← segment_toNat, same]

/-- A row of the table, by the number its prefix spells. -/
theorem denied_v4 {v4 : Ipv4Addr} (net : Ipv4Addr) (len : Nat)
    (row : ⟨.v4 net, len⟩ ∈ neverAllowable.map DeniedRange.block)
    (same : net.toNat / 2 ^ (32 - len) = v4.toNat / 2 ^ (32 - len)) : Denied (.v4 v4) := by
  obtain ⟨range, listed, block⟩ := List.mem_map.mp row
  refine .inl ⟨range, listed, ?_⟩
  rw [block]
  exact (sharesPrefix_iff len net v4).mpr same

theorem denied_v6 {v6 : Ipv6Addr} (net : Ipv6Addr) (len : Nat)
    (row : ⟨.v6 net, len⟩ ∈ neverAllowable.map DeniedRange.block)
    (same : net.toNat / 2 ^ (128 - len) = v6.toNat / 2 ^ (128 - len)) : Denied (.v6 v6) := by
  obtain ⟨range, listed, block⟩ := List.mem_map.mp row
  refine .inl ⟨range, listed, ?_⟩
  rw [block]
  exact (sharesPrefix_iff len net v6).mpr same

theorem denied_of_alwaysDeniedV4 {v4 : Ipv4Addr} (denied : isAlwaysDeniedV4 v4 = true) :
    Denied (.v4 v4) := by
  have bounded := v4.isLt
  simp only [isAlwaysDeniedV4, Bool.or_eq_true] at denied
  rcases denied with (((linkLocal | thisNetwork) | broadcast) | multicast) | reserved
  · simp only [Ipv4Addr.isLinkLocal, Bool.and_eq_true, beq_iff_eq] at linkLocal
    have first := octet_eq linkLocal.1
    have second := octet_eq linkLocal.2
    apply denied_v4 (.new 169 254 0 0) 16 (by decide)
    have base : (Ipv4Addr.new 169 254 0 0).toNat = 2851995648 := by decide
    simp at first second
    omega
  · simp only [isIpv4ThisNetwork, beq_iff_eq] at thisNetwork
    have first := octet_eq thisNetwork
    apply denied_v4 (.new 0 0 0 0) 8 (by decide)
    have base : (Ipv4Addr.new 0 0 0 0).toNat = 0 := by decide
    simp at first
    omega
  · have same : v4 = .new 255 255 255 255 := by
      simpa [Ipv4Addr.isBroadcast, Ipv4Addr.broadcast] using broadcast
    exact denied_v4 (.new 255 255 255 255) 32 (by decide) (by rw [same])
  · simp only [Ipv4Addr.isMulticast, Bool.and_eq_true, decide_eq_true_eq, BitVec.le_def,
      octet_toNat] at multicast
    apply denied_v4 (.new 224 0 0 0) 4 (by decide)
    have base : (Ipv4Addr.new 224 0 0 0).toNat = 3758096384 := by decide
    simp at multicast
    omega
  · simp only [isReservedV4, Bool.and_eq_true, beq_iff_eq] at reserved
    have high := (and_mask_eq_const_iff 4 (by decide) (by decide) _).mp reserved.1
    have first := congrArg BitVec.toNat high
    rw [BitVec.toNat_ushiftRight, octet_toNat, Nat.shiftRight_eq_div_pow] at first
    apply denied_v4 (.new 240 0 0 0) 4 (by decide)
    have base : (Ipv4Addr.new 240 0 0 0).toNat = 4026531840 := by decide
    simp at first
    omega

theorem denied_of_loopbackV4 {v4 : Ipv4Addr} (loopback : v4.isLoopback = true) :
    Denied (.v4 v4) := by
  have bounded := v4.isLt
  simp only [Ipv4Addr.isLoopback, beq_iff_eq] at loopback
  have first := octet_eq loopback
  refine .inr ⟨⟨.v4 (.new 127 0 0 0), 8⟩, by decide, ?_⟩
  apply (sharesPrefix_iff 8 _ v4).mpr
  have base : (Ipv4Addr.new 127 0 0 0).toNat = 2130706432 := by decide
  simp at first
  omega

theorem denied_of_native {v6 : Ipv6Addr}
    (denied : (v6.isUnspecified || isIpv6LinkLocal v6 || v6.isMulticast || isIpv6Teredo v6 ||
      isIpv6Nat64NonCanonical v6) = true) : Denied (.v6 v6) := by
  have bounded := v6.isLt
  simp only [Bool.or_eq_true] at denied
  rcases denied with (((unspecified | linkLocal) | multicast) | teredo) | nat64
  · have zero : v6 = 0 := by simpa [Ipv6Addr.isUnspecified] using unspecified
    exact denied_v6 0 128 (by decide) (by rw [zero])
  · simp only [isIpv6LinkLocal, beq_iff_eq] at linkLocal
    have high := (and_mask_eq_const_iff 6 (by decide) (by decide) _).mp linkLocal
    have first := congrArg BitVec.toNat high
    rw [BitVec.toNat_ushiftRight, segment_toNat, Nat.shiftRight_eq_div_pow] at first
    apply denied_v6 (.new 0xfe80 0 0 0 0 0 0 0) 10 (by decide)
    have base : (Ipv6Addr.new 0xfe80 0 0 0 0 0 0 0).toNat = 0xfe80 * 2 ^ 112 := by decide
    simp at first
    omega
  · simp only [Ipv6Addr.isMulticast, beq_iff_eq] at multicast
    have high := (and_mask_eq_const_iff 8 (by decide) (by decide) _).mp multicast
    have first := congrArg BitVec.toNat high
    rw [BitVec.toNat_ushiftRight, segment_toNat, Nat.shiftRight_eq_div_pow] at first
    apply denied_v6 (.new 0xff00 0 0 0 0 0 0 0) 8 (by decide)
    have base : (Ipv6Addr.new 0xff00 0 0 0 0 0 0 0).toNat = 0xff00 * 2 ^ 112 := by decide
    simp at first
    omega
  · simp only [isIpv6Teredo, Bool.and_eq_true, beq_iff_eq] at teredo
    have first := segment_eq teredo.1
    have second := segment_eq teredo.2
    apply denied_v6 (.new 0x2001 0 0 0 0 0 0 0) 32 (by decide)
    have base : (Ipv6Addr.new 0x2001 0 0 0 0 0 0 0).toNat = 0x2001 * 2 ^ 112 := by decide
    simp at first second
    omega
  · simp only [isIpv6Nat64NonCanonical, isIpv6Nat64PrefixSpace, Bool.and_eq_true, beq_iff_eq] at nat64
    have first := segment_eq nat64.1.1
    have second := segment_eq nat64.1.2
    apply denied_v6 (.new 0x0064 0xff9b 0 0 0 0 0 0) 32 (by decide)
    have base : (Ipv6Addr.new 0x0064 0xff9b 0 0 0 0 0 0).toNat = 0x0064ff9b * 2 ^ 96 := by decide
    simp at first second
    omega

/-! ### The compatible form

No row holds `::a.b.c.d`. It stays out because a block around it either starts with the
zeros of `::`, or has a base in the same form. -/

theorem toIpv4_isSome {v6 : Ipv6Addr} (small : v6.toNat / 2 ^ 32 = 0) : v6.toIpv4.isSome = true := by
  have zero (i : Nat) (high : i ≤ 5) : v6.segment i = 0 := by
    apply BitVec.eq_of_toNat_eq
    rw [segment_toNat]
    have smaller : v6.toNat < 2 ^ (112 - 16 * i) := by
      have below : v6.toNat < 2 ^ 32 := by omega
      exact below.trans_le (Nat.pow_le_pow_right (by decide) (by omega))
    rw [Nat.div_eq_of_lt smaller]
    rfl
  simp [Ipv6Addr.toIpv4, zero 0 (by decide), zero 1 (by decide), zero 2 (by decide),
    zero 3 (by decide), zero 4 (by decide), zero 5 (by decide)]

theorem small_of_compatible {v6 : Ipv6Addr} {v4 : Ipv4Addr} (compatible : v6.toIpv4 = some v4)
    (native : v6.toIpv4Mapped = none) : v6.toNat / 2 ^ 32 = 0 := by
  have bounded := v6.isLt
  simp only [Ipv6Addr.toIpv4, Option.ite_none_right_eq_some, Bool.and_eq_true, Bool.or_eq_true,
    beq_iff_eq] at compatible
  obtain ⟨⟨⟨⟨⟨⟨zero, one⟩, two⟩, three⟩, four⟩, five | marker⟩, -⟩ := compatible
  · have zero := segment_eq zero
    have one := segment_eq one
    have two := segment_eq two
    have three := segment_eq three
    have four := segment_eq four
    have five := segment_eq five
    simp at zero one two three four five
    omega
  · simp [Ipv6Addr.toIpv4Mapped, zero, one, two, three, four, marker] at native

theorem Accepted.not_compatible {block : CidrBlock} (accepted : Accepted block) {v6 : Ipv6Addr}
    (small : v6.toNat / 2 ^ 32 = 0) : ¬ block.Holds (.v6 v6) := by
  intro holds
  have native := accepted.unmapped
  have avoids (ip : IpAddr) (holds : block.Holds ip) : ¬ Denied ip :=
    accepted.not_denied holds
  obtain ⟨addr, prefixLen⟩ := block
  cases addr with
  | v4 net => exact holds
  | v6 net =>
    have shared : SharesPrefix prefixLen net v6 := holds
    by_cases short : prefixLen ≤ 96
    · -- the block starts with the zeros of `::`, and `::` is a row
      have quotient := (sharesPrefix_iff prefixLen net v6).mp shared
      have below : v6.toNat < 2 ^ (128 - prefixLen) := by
        have below : v6.toNat < 2 ^ 32 := by omega
        exact below.trans_le (Nat.pow_le_pow_right (by decide) (by omega))
      rw [Nat.div_eq_of_lt below] at quotient
      have unspecified : SharesPrefix prefixLen net 0 := by
        rw [sharesPrefix_iff, quotient]
        simp
      exact avoids (.v6 0) unspecified (denied_of_native (by decide))
    · -- the base has the same high bits, so it is an IPv4 address in IPv6 form
      have quotient := (sharesPrefix_iff 96 net v6).mp (shared.mono (by omega))
      rw [small] at quotient
      exact absurd (toIpv4_isSome quotient) (by simpa [CidrBlock.isMapped] using native)

/-! ### The agreement -/

/-- A loopback address, native or in an IPv4-in-IPv6 spelling. -/
def LoopbackSpelling : IpAddr → Prop
  | .v4 v4 => v4.isLoopback = true
  | .v6 v6 => v6.isLoopback = true ∨ ∃ v4, v6.toIpv4 = some v4 ∧ v4.isLoopback = true

theorem denied_of_loopbackV6 {v6 : Ipv6Addr} (loopback : v6.isLoopback = true) :
    Denied (.v6 v6) := by
  have one : v6 = 1 := by simpa [Ipv6Addr.isLoopback] using loopback
  refine .inr ⟨⟨.v6 (.new 0 0 0 0 0 0 0 1), 128⟩, by decide, ?_⟩
  rw [one]
  exact SharesPrefix.refl 128 1

theorem Accepted.agrees {block : CidrBlock} (accepted : Accepted block) {ip : IpAddr}
    (holds : block.Holds (normalizeMapped ip)) :
    isAlwaysDeniedIp ip = false ∧ ¬ LoopbackSpelling ip := by
  have avoids := accepted.not_denied holds
  have notV4 {v4 : Ipv4Addr} (avoids : ¬ Denied (.v4 v4)) :
      isAlwaysDeniedV4 v4 = false ∧ v4.isLoopback = false := by
    constructor
    · exact Bool.eq_false_iff.mpr fun denied => avoids (denied_of_alwaysDeniedV4 denied)
    · exact Bool.eq_false_iff.mpr fun loopback => avoids (denied_of_loopbackV4 loopback)
  cases ip with
  | v4 v4 =>
    obtain ⟨allowable, notLoopback⟩ := notV4 avoids
    exact ⟨allowable, by simp [LoopbackSpelling, notLoopback]⟩
  | v6 v6 =>
    cases mapped : v6.toIpv4Mapped with
    | some v4 =>
      -- both layers see the IPv4 address
      have decoded := toIpv4_of_mapped mapped
      simp only [normalizeMapped, mapped, Option.elim_some] at avoids
      obtain ⟨allowable, notLoopback⟩ := notV4 avoids
      have special : (v6.isLoopback || v6.isUnspecified) = false := by
        rw [Bool.eq_false_iff]
        intro special
        have sixth := (special_segments (by simpa using special)).2
        simp [Ipv6Addr.toIpv4Mapped, sixth] at mapped
      refine ⟨by simpa [isAlwaysDeniedIp, special, decoded] using allowable, ?_⟩
      simp [LoopbackSpelling, decoded, notLoopback, (Bool.or_eq_false_iff.mp special).1]
    | none =>
      simp only [normalizeMapped, mapped, Option.elim_none] at avoids holds
      have compatible : v6.toIpv4 = none := by
        cases decoded : v6.toIpv4 with
        | none => rfl
        | some v4 =>
          exact absurd holds (accepted.not_compatible (small_of_compatible decoded mapped))
      have native := Bool.eq_false_iff.mpr fun denied => avoids (denied_of_native denied)
      have notLoopback := Bool.eq_false_iff.mpr fun loopback => avoids (denied_of_loopbackV6 loopback)
      refine ⟨?_, by simp [LoopbackSpelling, compatible, notLoopback]⟩
      simpa [isAlwaysDeniedIp, compatible] using native

/-- An accepted policy allows no address that the guard always denies and no loopback
address; and the overlap test, on every entry and row it is asked about, says whether the
two blocks have an address in common. -/
theorem accepted_policy_agrees {raw : NetworkPolicyRaw} {policy : NetworkPolicy}
    (accepted : raw.intoPolicy = .ok policy) :
    (∀ ip, policy.allowsIp ip = true → isAlwaysDeniedIp ip = false ∧ ¬ LoopbackSpelling ip) ∧
      ∀ text block, CidrBlock.parse text = .ok block → block.isMapped = false →
        ∀ row ∈ neverAllowable.map DeniedRange.block ++ loopbackPrefixes,
          (intersects row block = true ↔ ∃ ip, row.Holds ip ∧ block.Holds ip) := by
  constructor
  · intro ip allows
    simp only [NetworkPolicy.allowsIp] at allows
    split at allows
    · cases allows
    · obtain ⟨block, listed, contains⟩ := List.any_eq_true.mp allows
      have entry := intoPolicy_accepted accepted block listed
      rw [CidrBlock.contains_iff entry.wellFormed] at contains
      exact entry.agrees (by rwa [normalizeMapped_idem] at contains)
  · intro text block parsed native row listed
    have unmapped := CidrBlock.unmapped_of_native native
    have overlap {row : CidrBlock} (row_ : row.WellFormed ∧ row.Unmapped) :=
      intersects_iff row_.1 (parse_wellFormed parsed) row_.2 unmapped
    rcases List.mem_append.mp listed with denied | loopback
    · obtain ⟨range, tabled, rfl⟩ := List.mem_map.mp denied
      exact overlap (neverAllowable_rows range tabled)
    · exact overlap (loopbackPrefixes_rows row loopback)

/-- A private network and a block with host bits set, the way a provider declares them. -/
theorem accepted_lan_policy :
    ∃ policy, ({ mode := .allowlist, allowCidrs := ["10.0.0.7/8", "fd00::/7"] } :
        NetworkPolicyRaw).intoPolicy = .ok policy ∧
      policy.allowsIp (.v4 (.new 10 1 2 3)) = true ∧
      isAlwaysDeniedIp (.v4 (.new 10 1 2 3)) = false ∧
      ¬ LoopbackSpelling (.v4 (.new 10 1 2 3)) := by
  cases accepted : ({ mode := .allowlist, allowCidrs := ["10.0.0.7/8", "fd00::/7"] } :
      NetworkPolicyRaw).intoPolicy with
  | error e =>
    have passes : (({ mode := .allowlist, allowCidrs := ["10.0.0.7/8", "fd00::/7"] } :
        NetworkPolicyRaw).intoPolicy).toOption.isSome = true := by decide
    rw [accepted] at passes
    cases passes
  | ok policy =>
    have allowed : (({ mode := .allowlist, allowCidrs := ["10.0.0.7/8", "fd00::/7"] } :
        NetworkPolicyRaw).intoPolicy.toOption.any fun policy =>
          policy.allowsIp (.v4 (.new 10 1 2 3))) = true := by decide
    rw [accepted] at allowed
    exact ⟨policy, rfl, allowed, (accepted_policy_agrees accepted).1 _ allowed⟩

end Webfang.Network
