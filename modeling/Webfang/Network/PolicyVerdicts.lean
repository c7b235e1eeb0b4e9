import Webfang.Network.SsrfGuard

/-!
# What a policy opens

The policy paths compared with the flat deny list. A path may permit what the flat list
denies only where the loopback flag or an allowlist entry says so.
-/
namespace Webfang.Network

variable {v6 : Ipv6Addr} {v4 : Ipv4Addr} {policy : NetworkPolicy} {allowLoopback : Bool}
  {host : String} {ip : IpAddr}

/-- The address an allowlist entry has to cover: the embedded one of a translated form. -/
def dialTarget : IpAddr → IpAddr
  | .v4 v4 => .v4 v4
  | .v6 v6 => (embeddedV4 v6).elim (.v6 v6) .v4

/-- An `allow_cidrs` entry contains the address. -/
def NetworkPolicy.Covers (policy : NetworkPolicy) (ip : IpAddr) : Prop :=
  ∃ block ∈ policy.allowCidrs, block.contains ip = true

/-- The host needs no declaration, or `allow_hosts` declares it. -/
def NetworkPolicy.Names (policy : NetworkPolicy) (host : String) : Prop :=
  (parseIpLiteral host).isSome ∨
    ∃ declared ∈ policy.allowHosts, normalizeHost declared = normalizeHost host

/-- The flag opens the two loopback addresses and nothing else. -/
def FlaggedLoopback (allowLoopback : Bool) (ip : IpAddr) : Prop :=
  allowLoopback = true ∧ (ip = .v4 (.new 127 0 0 1) ∨ ip = .v6 (.new 0 0 0 0 0 0 0 1))

/-- A denied address is opened by the flag or by the policy's own entries, on either path;
without flag and entries neither path permits more than the flat list. -/
structure OpensOnlyDeclared (policy : NetworkPolicy) (allowLoopback : Bool) (host : String)
    (ip : IpAddr) : Prop where
  policyPath : isForbiddenIp ip = true → isForbiddenIpWithPolicy ip allowLoopback policy = false →
    FlaggedLoopback allowLoopback ip ∨ policy.Covers (dialTarget ip)
  resolvedPath : isForbiddenIp ip = true →
    isForbiddenResolvedAddress ip host allowLoopback policy = false →
      FlaggedLoopback allowLoopback ip ∨ (policy.Covers (dialTarget ip) ∧ policy.Names host)
  empty : policy.allowCidrs = [] → policy.allowHosts = [] → allowLoopback = false →
    isForbiddenIp ip = true → isForbiddenIpWithPolicy ip allowLoopback policy = true ∧
      isForbiddenResolvedAddress ip host allowLoopback policy = true

/-- A unique-local address with the ISATAP marker, whose embedded address is public and not
an entry of the policy: its range is denied, but only the embedded address is asked. -/
def UniqueLocalIsatap (policy : NetworkPolicy) (host : String) : IpAddr → Prop
  | .v4 _ => False
  | .v6 v6 => isIpv6UniqueLocal v6 = true ∧ ∃ v4, ipv6IsatapEmbeddedV4 v6 = some v4 ∧
      isForbiddenIp (.v4 v4) = false ∧ v4.isMulticast = false ∧
        ¬ (policy.Covers (.v4 v4) ∧ policy.Names host)

/-! ### The helpers of the policy -/

theorem covers_of_allowsIp (allows : policy.allowsIp ip = true) : policy.Covers ip := by
  simp only [NetworkPolicy.allowsIp, CidrBlock.contains_normalizeMapped] at allows
  split at allows
  · cases allows
  · exact List.any_eq_true.mp allows

theorem names_of_allowsHost (allows : policy.allowsHost host = true) : policy.Names host := by
  simp only [NetworkPolicy.allowsHost] at allows
  split at allows
  · cases allows
  · obtain ⟨declared, listed, same⟩ := List.any_eq_true.mp allows
    exact .inr ⟨declared, listed, by simpa using same⟩

/-! ### The ladders as conditions -/

theorem isForbiddenV4WithPolicy_eq (v4 : Ipv4Addr) (allowLoopback : Bool) (policy : NetworkPolicy) :
    isForbiddenV4WithPolicy v4 allowLoopback policy =
      (isAlwaysDeniedIp (.v4 v4) || (!(allowLoopback && isPermittedLoopback (.v4 v4)) &&
        isForbiddenIp (.v4 v4) && !policy.allowsIp (.v4 v4))) := by
  unfold isForbiddenV4WithPolicy
  generalize isAlwaysDeniedIp (.v4 v4) = denied
  generalize isPermittedLoopback (.v4 v4) = permitted
  generalize isForbiddenIp (.v4 v4) = forbidden
  cases denied <;> cases allowLoopback <;> cases permitted <;> cases forbidden <;> simp

theorem isForbiddenResolvedV4_eq (v4 : Ipv4Addr) (host : String) (allowLoopback : Bool)
    (policy : NetworkPolicy) :
    isForbiddenResolvedV4 v4 host allowLoopback policy =
      (isAlwaysDeniedIp (.v4 v4) || (!(allowLoopback && isPermittedLoopback (.v4 v4)) &&
        isForbiddenIp (.v4 v4) && !(policy.allowsIp (.v4 v4) &&
          ((parseIpLiteral host).isSome || policy.allowsHost host)))) := by
  unfold isForbiddenResolvedV4
  generalize isAlwaysDeniedIp (.v4 v4) = denied
  generalize isPermittedLoopback (.v4 v4) = permitted
  generalize isForbiddenIp (.v4 v4) = forbidden
  generalize policy.allowsIp (.v4 v4) = allowed
  cases denied <;> cases allowLoopback <;> cases permitted <;> cases forbidden <;>
    cases allowed <;> simp

/-- An IPv6 address past the always-denied set, the flag and the flat list. -/
structure Asked (v6 : Ipv6Addr) (allowLoopback : Bool) : Prop where
  allowable : isAlwaysDeniedIp (.v6 v6) = false
  unflagged : (allowLoopback && isPermittedLoopback (.v6 v6)) = false
  forbidden : isForbiddenIp (.v6 v6) = true

theorem Asked.policyPath (asked : Asked v6 allowLoopback) :
    isForbiddenIpWithPolicy (.v6 v6) allowLoopback policy =
      (embeddedV4 v6).elim (!policy.allowsIp (.v6 v6)) fun v4 =>
        isPermittedLoopback (.v4 v4) || isForbiddenV4WithPolicy v4 allowLoopback policy := by
  simp only [isForbiddenIpWithPolicy, asked.allowable, asked.unflagged, asked.forbidden]
  cases embeddedV4 v6 with
  | none => rfl
  | some v4 => cases loopback : isPermittedLoopback (.v4 v4) <;> simp [loopback]

theorem Asked.resolvedPath (asked : Asked v6 allowLoopback) :
    isForbiddenResolvedAddress (.v6 v6) host allowLoopback policy =
      (embeddedV4 v6).elim
        (!(policy.allowsIp (.v6 v6) && ((parseIpLiteral host).isSome || policy.allowsHost host)))
        fun v4 => isPermittedLoopback (.v4 v4) ||
          isForbiddenResolvedV4 v4 host allowLoopback policy := by
  simp only [isForbiddenResolvedAddress, asked.allowable, asked.unflagged, asked.forbidden]
  cases embeddedV4 v6 with
  | none => cases policy.allowsIp (.v6 v6) <;> simp
  | some v4 => cases loopback : isPermittedLoopback (.v4 v4) <;> simp [loopback]

theorem flagged_of_permitted (flagged : (allowLoopback && isPermittedLoopback ip) = true) :
    FlaggedLoopback allowLoopback ip := by
  obtain ⟨flag, permitted⟩ := Bool.and_eq_true_iff.mp flagged
  refine ⟨flag, ?_⟩
  cases ip with
  | v4 v4 => exact .inl (by simpa [isPermittedLoopback, Ipv4Addr.localhost] using permitted)
  | v6 v6 =>
    have one : v6 = 1 := by simpa [isPermittedLoopback, Ipv6Addr.isLoopback] using permitted
    exact .inr (by rw [one]; rfl)

theorem permitted_of_flagged (flagged : FlaggedLoopback allowLoopback ip) :
    (allowLoopback && isPermittedLoopback ip) = true := by
  obtain ⟨rfl, rfl | rfl⟩ := flagged
  · decide
  · decide

/-- Neither path permits an IPv6 address that is denied, unless it reaches the allowlist. -/
theorem asked_of_permitted (host : String) (forbidden : isForbiddenIp (.v6 v6) = true)
    (permits : isForbiddenIpWithPolicy (.v6 v6) allowLoopback policy = false ∨
      isForbiddenResolvedAddress (.v6 v6) host allowLoopback policy = false) :
    FlaggedLoopback allowLoopback (.v6 v6) ∨ Asked v6 allowLoopback := by
  cases denied : isAlwaysDeniedIp (.v6 v6) with
  | true => simp [isForbiddenIpWithPolicy, isForbiddenResolvedAddress, denied] at permits
  | false =>
    cases flagged : allowLoopback && isPermittedLoopback (.v6 v6) with
    | true => exact .inl (flagged_of_permitted flagged)
    | false => exact .inr ⟨denied, flagged, forbidden⟩

/-! ### The address behind a translated form -/

theorem isForbiddenV4_localhost : isForbiddenV4 .localhost = true := by decide

/-- Beyond the flat list the always-denied set holds the multicast addresses alone. -/
theorem isAlwaysDeniedV4_of_public (isPublic : isForbiddenV4 v4 = false) :
    isAlwaysDeniedIp (.v4 v4) = v4.isMulticast := by
  simp only [isForbiddenV4, Bool.or_eq_false_iff] at isPublic
  obtain ⟨⟨⟨⟨⟨⟨-, -⟩, linkLocal⟩, thisNetwork⟩, broadcast⟩, reserved⟩, -⟩ := isPublic
  simp [isAlwaysDeniedIp, isAlwaysDeniedV4, linkLocal, thisNetwork, broadcast, reserved]

/-- An address whose embedded address is public is denied for its range, and the only range
that the decoders read and the always-denied set leaves is the unique-local one. -/
theorem uniqueLocal_of_public (asked : Asked v6 allowLoopback) (decoded : embeddedV4 v6 = some v4)
    (isPublic : isForbiddenV4 v4 = false) :
    isIpv6UniqueLocal v6 = true ∧ ipv6IsatapEmbeddedV4 v6 = some v4 := by
  have special : (v6.isLoopback || v6.isUnspecified) = false := by
    rw [Bool.eq_false_iff]
    intro special
    obtain ⟨first, sixth⟩ := special_segments (by simpa using special)
    simp [embeddedV4, ipv6Nat64EmbeddedV4, isIpv6Nat64WellKnownPrefix, ipv66to4EmbeddedV4,
      ipv6IsatapEmbeddedV4, first, sixth] at decoded
  have native : v6.toIpv4 = none := by
    cases other : v6.toIpv4 with
    | none => rfl
    | some v4 =>
      obtain ⟨first, sixth⟩ := toIpv4_segments other
      rcases sixth with sixth | sixth <;>
        simp [embeddedV4, ipv6Nat64EmbeddedV4, isIpv6Nat64WellKnownPrefix, ipv66to4EmbeddedV4,
          ipv6IsatapEmbeddedV4, first, sixth] at decoded
  have allowable := asked.allowable
  simp only [isAlwaysDeniedIp, special, native, Option.elim_none, Bool.false_eq_true, if_false,
    Bool.or_eq_false_iff] at allowable
  obtain ⟨⟨⟨⟨-, linkLocal⟩, -⟩, teredo⟩, nat64⟩ := allowable
  have local_ : isIpv6UniqueLocal v6 = true := by
    have forbidden := asked.forbidden
    simpa [isForbiddenIp, Bool.or_eq_false_iff.mp special, linkLocal, nat64, native, teredo, decoded,
      isPublic] using forbidden
  refine ⟨local_, ?_⟩
  -- the other two decoders need a first segment that is not unique-local
  obtain ⟨-, notNat64, -, not6to4, -, -⟩ := uniqueLocal_excludes local_
  simpa [embeddedV4, ipv6Nat64EmbeddedV4, isIpv6Nat64WellKnownPrefix, ipv66to4EmbeddedV4,
    notNat64, not6to4] using decoded

/-- Such an address is asked about its embedded address alone. -/
theorem asked_of_uniqueLocal (allowLoopback : Bool) (local_ : isIpv6UniqueLocal v6 = true)
    (decoded : ipv6IsatapEmbeddedV4 v6 = some v4) :
    Asked v6 allowLoopback ∧ embeddedV4 v6 = some v4 := by
  obtain ⟨notZero, notNat64, notTeredo, not6to4, linkLocal, multicast⟩ := uniqueLocal_excludes local_
  have special : (v6.isLoopback || v6.isUnspecified) = false := by
    rw [Bool.eq_false_iff]
    intro special
    exact notZero (special_segments (by simpa using special)).1
  obtain ⟨loopback, unspecified⟩ := Bool.or_eq_false_iff.mp special
  refine ⟨⟨?_, ?_, ?_⟩, ?_⟩
  · simp [isAlwaysDeniedIp, toIpv4_eq_none notZero, unspecified, linkLocal, multicast,
      isIpv6Teredo, isIpv6Nat64NonCanonical, isIpv6Nat64PrefixSpace, notTeredo, notNat64]
  · simp [isPermittedLoopback, loopback]
  · simp [isForbiddenIp, local_]
  · simp [embeddedV4, ipv6Nat64EmbeddedV4, isIpv6Nat64WellKnownPrefix, ipv66to4EmbeddedV4,
      notNat64, not6to4, decoded]

/-! ### What opens an address -/

theorem covers_of_v4 (forbidden : isForbiddenIp (.v4 v4) = true)
    (unflagged : (allowLoopback && isPermittedLoopback (.v4 v4)) = false)
    (permits : isForbiddenV4WithPolicy v4 allowLoopback policy = false) : policy.Covers (.v4 v4) := by
  rw [isForbiddenV4WithPolicy_eq, unflagged, forbidden] at permits
  simp only [Bool.not_false, Bool.true_and, Bool.or_eq_false_iff, Bool.not_eq_false'] at permits
  exact covers_of_allowsIp permits.2

theorem named_of_v4 (forbidden : isForbiddenIp (.v4 v4) = true)
    (unflagged : (allowLoopback && isPermittedLoopback (.v4 v4)) = false)
    (permits : isForbiddenResolvedV4 v4 host allowLoopback policy = false) :
    policy.Covers (.v4 v4) ∧ policy.Names host := by
  rw [isForbiddenResolvedV4_eq, unflagged, forbidden] at permits
  simp only [Bool.not_false, Bool.true_and, Bool.or_eq_false_iff, Bool.not_eq_false',
    Bool.and_eq_true, Bool.or_eq_true] at permits
  obtain ⟨-, allowed, named⟩ := permits
  exact ⟨covers_of_allowsIp allowed, named.elim .inl names_of_allowsHost⟩

/-- A public embedded address is opened without a question to the policy. -/
structure EmbedsPublic (v6 : Ipv6Addr) (v4 : Ipv4Addr) : Prop where
  decoded : embeddedV4 v6 = some v4
  isPublic : isForbiddenIp (.v4 v4) = false
  unicast : v4.isMulticast = false

theorem EmbedsPublic.permitted (embeds : EmbedsPublic v6 v4) (asked : Asked v6 allowLoopback)
    (policy : NetworkPolicy) (host : String) :
    isForbiddenIpWithPolicy (.v6 v6) allowLoopback policy = false ∧
      isForbiddenResolvedAddress (.v6 v6) host allowLoopback policy = false := by
  have literal : isPermittedLoopback (.v4 v4) = false := by
    rw [Bool.eq_false_iff]
    intro loopback
    have same : v4 = .localhost := by simpa [isPermittedLoopback] using loopback
    have isPublic := embeds.isPublic
    rw [same, isForbiddenIp_v4, isForbiddenV4_localhost] at isPublic
    cases isPublic
  have allowable : isAlwaysDeniedIp (.v4 v4) = false := by
    rw [isAlwaysDeniedV4_of_public embeds.isPublic, embeds.unicast]
  constructor
  · rw [asked.policyPath, embeds.decoded, Option.elim_some, literal, isForbiddenV4WithPolicy_eq,
      allowable, embeds.isPublic]
    simp
  · rw [asked.resolvedPath, embeds.decoded, Option.elim_some, literal, isForbiddenResolvedV4_eq,
      allowable, embeds.isPublic]
    simp

/-- On the policy path either the allowlist covers what is dialled, or it was not asked. -/
theorem Asked.covers (asked : Asked v6 allowLoopback)
    (permits : isForbiddenIpWithPolicy (.v6 v6) allowLoopback policy = false) :
    policy.Covers (dialTarget (.v6 v6)) ∨ ∃ v4, EmbedsPublic v6 v4 := by
  rw [asked.policyPath] at permits
  cases decoded : embeddedV4 v6 with
  | none =>
    rw [decoded, Option.elim_none, Bool.not_eq_false'] at permits
    exact .inl (by simpa [dialTarget, decoded] using covers_of_allowsIp permits)
  | some v4 =>
    rw [decoded, Option.elim_some, Bool.or_eq_false_iff] at permits
    obtain ⟨literal, permits⟩ := permits
    cases forbidden : isForbiddenIp (.v4 v4) with
    | true =>
      have covered := covers_of_v4 forbidden (by rw [literal, Bool.and_false]) permits
      exact .inl (by simpa [dialTarget, decoded] using covered)
    | false =>
      rw [isForbiddenV4WithPolicy_eq, Bool.or_eq_false_iff,
        isAlwaysDeniedV4_of_public forbidden] at permits
      exact .inr ⟨v4, decoded, forbidden, permits.1⟩

/-- On the resolved path the host is declared too. -/
theorem Asked.named (asked : Asked v6 allowLoopback)
    (permits : isForbiddenResolvedAddress (.v6 v6) host allowLoopback policy = false) :
    (policy.Covers (dialTarget (.v6 v6)) ∧ policy.Names host) ∨ ∃ v4, EmbedsPublic v6 v4 := by
  rw [asked.resolvedPath] at permits
  cases decoded : embeddedV4 v6 with
  | none =>
    rw [decoded, Option.elim_none, Bool.not_eq_false', Bool.and_eq_true, Bool.or_eq_true] at permits
    have covered := covers_of_allowsIp permits.1
    exact .inl ⟨by simpa [dialTarget, decoded] using covered,
      permits.2.elim .inl names_of_allowsHost⟩
  | some v4 =>
    rw [decoded, Option.elim_some, Bool.or_eq_false_iff] at permits
    obtain ⟨literal, permits⟩ := permits
    cases forbidden : isForbiddenIp (.v4 v4) with
    | true =>
      obtain ⟨covered, named⟩ := named_of_v4 forbidden (by rw [literal, Bool.and_false]) permits
      exact .inl ⟨by simpa [dialTarget, decoded] using covered, named⟩
    | false =>
      rw [isForbiddenResolvedV4_eq, Bool.or_eq_false_iff,
        isAlwaysDeniedV4_of_public forbidden] at permits
      exact .inr ⟨v4, decoded, forbidden, permits.1⟩

theorem declared_of_public (visible : ¬ UniqueLocalIsatap policy host (.v6 v6))
    (asked : Asked v6 allowLoopback) (embeds : EmbedsPublic v6 v4) :
    policy.Covers (dialTarget (.v6 v6)) ∧ policy.Names host := by
  obtain ⟨local_, isatap⟩ := uniqueLocal_of_public asked embeds.decoded embeds.isPublic
  by_contra undeclared
  refine visible ⟨local_, v4, isatap, embeds.isPublic, embeds.unicast, ?_⟩
  simpa [dialTarget, embeds.decoded] using undeclared

/-- The policy paths open what the flag or the entries declare and nothing else, except for
the unique-local addresses whose ISATAP identifier embeds a public address. -/
theorem opens_only_declared_iff (policy : NetworkPolicy) (allowLoopback : Bool) (host : String)
    (ip : IpAddr) :
    OpensOnlyDeclared policy allowLoopback host ip ↔ ¬ UniqueLocalIsatap policy host ip := by
  constructor
  · rintro opens hidden
    cases ip with
    | v4 v4 => exact hidden
    | v6 v6 =>
      obtain ⟨local_, v4, isatap, isPublic, unicast, undeclared⟩ := hidden
      obtain ⟨asked, decoded⟩ := asked_of_uniqueLocal allowLoopback local_ isatap
      have permitted :=
        EmbedsPublic.permitted ⟨decoded, isPublic, unicast⟩ asked policy host
      rcases opens.resolvedPath asked.forbidden permitted.2 with flagged | declared
      · have unflagged := asked.unflagged
        rw [permitted_of_flagged flagged] at unflagged
        cases unflagged
      · exact undeclared (by simpa [dialTarget, decoded] using declared)
  · intro visible
    have policyPath (forbidden : isForbiddenIp ip = true)
        (permits : isForbiddenIpWithPolicy ip allowLoopback policy = false) :
        FlaggedLoopback allowLoopback ip ∨ policy.Covers (dialTarget ip) := by
      cases ip with
      | v4 v4 =>
        cases flagged : allowLoopback && isPermittedLoopback (.v4 v4) with
        | true => exact .inl (flagged_of_permitted flagged)
        | false => exact .inr (covers_of_v4 forbidden flagged permits)
      | v6 v6 =>
        rcases asked_of_permitted host forbidden (.inl permits) with flagged | asked
        · exact .inl flagged
        · rcases asked.covers permits with covered | ⟨v4, embeds⟩
          · exact .inr covered
          · exact .inr (declared_of_public visible asked embeds).1
    have resolvedPath (forbidden : isForbiddenIp ip = true)
        (permits : isForbiddenResolvedAddress ip host allowLoopback policy = false) :
        FlaggedLoopback allowLoopback ip ∨
          (policy.Covers (dialTarget ip) ∧ policy.Names host) := by
      cases ip with
      | v4 v4 =>
        cases flagged : allowLoopback && isPermittedLoopback (.v4 v4) with
        | true => exact .inl (flagged_of_permitted flagged)
        | false => exact .inr (named_of_v4 forbidden flagged permits)
      | v6 v6 =>
        rcases asked_of_permitted host forbidden (.inr permits) with flagged | asked
        · exact .inl flagged
        · rcases asked.named permits with named | ⟨v4, embeds⟩
          · exact .inr named
          · exact .inr (declared_of_public visible asked embeds)
    refine ⟨policyPath, resolvedPath, ?_⟩
    -- without entries and flag there is nothing left that could open the address
    intro noCidrs _ noFlag forbidden
    have uncovered (ip : IpAddr) : ¬ policy.Covers ip := by
      rintro ⟨block, listed, -⟩
      rw [noCidrs] at listed
      cases listed
    have unflagged : ¬ FlaggedLoopback allowLoopback ip := by
      rintro ⟨flag, -⟩
      rw [noFlag] at flag
      cases flag
    constructor
    · by_contra permits
      rcases policyPath forbidden (by simpa using permits) with flagged | covered
      · exact unflagged flagged
      · exact uncovered _ covered
    · by_contra permits
      rcases resolvedPath forbidden (by simpa using permits) with flagged | covered
      · exact unflagged flagged
      · exact uncovered _ covered.1

/-- `fd00::5efe:808:808` is denied as unique-local, and both paths dial it as 8.8.8.8. -/
theorem unique_local_opened_by_empty_policy :
    isForbiddenIp (.v6 (.new 0xfd00 0 0 0 0 0x5efe 0x808 0x808)) = true ∧
      isForbiddenIpWithPolicy (.v6 (.new 0xfd00 0 0 0 0 0x5efe 0x808 0x808)) false {} = false ∧
      isForbiddenResolvedAddress (.v6 (.new 0xfd00 0 0 0 0 0x5efe 0x808 0x808)) "example.com"
        false {} = false ∧
      ¬ ∀ policy allowLoopback host ip, OpensOnlyDeclared policy allowLoopback host ip := by
  have denied : isForbiddenIp (.v6 (.new 0xfd00 0 0 0 0 0x5efe 0x808 0x808)) = true := by decide
  have opened :
      isForbiddenIpWithPolicy (.v6 (.new 0xfd00 0 0 0 0 0x5efe 0x808 0x808)) false {} = false := by
    decide
  refine ⟨denied, opened, by decide, ?_⟩
  intro declares
  have refused := (declares {} false "example.com"
    (.v6 (.new 0xfd00 0 0 0 0 0x5efe 0x808 0x808))).empty rfl rfl rfl denied
  rw [opened] at refused
  exact absurd refused.1 (by decide)

end Webfang.Network
