import Webfang.Network.IpAddr

/-!
# Network policy

The per-provider allowlist of `domain/network_policy.rs`: its CIDR blocks, the ranges that
no entry may touch, and the validation that turns the configured texts into a policy.
-/
namespace Webfang.Network

open Library

structure CidrBlock where
  addr : IpAddr
  /-- A configured block has at most 32 or 128 here; one built by hand may have any `u8`. -/
  prefixLen : Nat
  deriving DecidableEq, Repr

def normalizeMapped : IpAddr → IpAddr
  | .v6 addr => (addr.toIpv4Mapped).elim (.v6 addr) .v4
  | .v4 addr => .v4 addr

theorem normalizeMapped_idem (ip : IpAddr) :
    normalizeMapped (normalizeMapped ip) = normalizeMapped ip := by
  cases ip with
  | v4 v4 => rfl
  | v6 v6 =>
    simp only [normalizeMapped]
    cases mapped : v6.toIpv4Mapped with
    | none => simp [mapped]
    | some v4 => rfl

namespace CidrBlock

/-- The shift by `width - bits` in the wrapping arithmetic of a release build. -/
def shift (width bits : Nat) : Nat := (width - bits % width) % width

def contains (block : CidrBlock) (ip : IpAddr) : Bool :=
  match block.addr, normalizeMapped ip with
  | .v4 net, .v4 ip =>
    if block.prefixLen = 0 then true
    else
      let mask := BitVec.allOnes 32 <<< shift 32 block.prefixLen
      net &&& mask == ip &&& mask
  | .v6 net, .v6 ip =>
    if block.prefixLen = 0 then true
    else net >>> shift 128 block.prefixLen == ip >>> shift 128 block.prefixLen
  | _, _ => false

def display (block : CidrBlock) : String :=
  block.addr.display ++ "/" ++ toString block.prefixLen

@[simp] theorem contains_normalizeMapped (block : CidrBlock) (ip : IpAddr) :
    block.contains (normalizeMapped ip) = block.contains ip := by
  simp only [CidrBlock.contains, normalizeMapped_idem]

end CidrBlock

def intersects (a b : CidrBlock) : Bool := a.contains b.addr || b.contains a.addr

inductive NetworkPolicyMode where
  | restricted
  | allowlist
  deriving DecidableEq, Repr

structure NetworkPolicy where
  mode : NetworkPolicyMode := .restricted
  allowCidrs : List CidrBlock := []
  allowHosts : List String := []
  deriving DecidableEq, Repr

/-- Trimmed, lower case, without one trailing root dot. -/
def normalizeHost (host : String) : String :=
  let host := Text.toAsciiLowercase (Text.trim host)
  (Text.stripSuffix host ".").getD host

namespace NetworkPolicy

def allowsIp (policy : NetworkPolicy) (ip : IpAddr) : Bool :=
  if policy.mode ≠ .allowlist then false
  else policy.allowCidrs.any fun block => block.contains (normalizeMapped ip)

def allowsHost (policy : NetworkPolicy) (host : String) : Bool :=
  if policy.mode ≠ .allowlist || policy.allowHosts.isEmpty then false
  else policy.allowHosts.any fun declared => normalizeHost declared == normalizeHost host

end NetworkPolicy

/-! ### The ranges no entry may touch -/

structure DeniedRange where
  addr : IpAddr
  prefixLen : Nat
  rangeClass : String

def DeniedRange.block (range : DeniedRange) : CidrBlock := ⟨range.addr, range.prefixLen⟩

def neverAllowable : List DeniedRange := [
  ⟨.v4 (.new 0 0 0 0), 8, "this-network (routes to the local host)"⟩,
  ⟨.v4 (.new 169 254 0 0), 16, "link-local (cloud metadata)"⟩,
  ⟨.v4 (.new 224 0 0 0), 4, "multicast"⟩,
  ⟨.v4 (.new 240 0 0 0), 4, "reserved"⟩,
  ⟨.v4 (.new 255 255 255 255), 32, "broadcast"⟩,
  ⟨.v6 0, 128, "unspecified"⟩,
  ⟨.v6 (.new 0xfe80 0 0 0 0 0 0 0), 10, "link-local"⟩,
  ⟨.v6 (.new 0xff00 0 0 0 0 0 0 0), 8, "multicast"⟩,
  ⟨.v6 (.new 0x2001 0 0 0 0 0 0 0), 32, "Teredo"⟩,
  ⟨.v6 (.new 0x0064 0xff9b 0 0 0 0 0 0), 32, "NAT64 translation prefix"⟩,
  ⟨.v6 (.new 0x2002 0 0 0 0 0 0 0), 16, "6to4 translation prefix"⟩]

def loopbackPrefixes : List CidrBlock := [
  ⟨.v4 (.new 127 0 0 0), 8⟩,
  ⟨.v6 (.new 0 0 0 0 0 0 0 1), 128⟩]

/-! ### Validation -/

inductive NetworkPolicyError where
  | invalidCidr (entry : String)
  | neverAllowable (entry range rangeClass : String)
  | loopbackEntry (entry : String)
  | entriesWithoutAllowlistMode
  | hostIpLiteral (entry : String)
  | hostBlank
  | mappedV6Entry (entry : String)
  deriving DecidableEq, Repr

def IpAddr.maxPrefixLen : IpAddr → Nat
  | .v4 _ => 32
  | .v6 _ => 128

/-- `text.parse::<u8>()`. -/
def parseU8 (text : String) : Option Nat := (Text.parseUsize text).filter (· < 256)

def CidrBlock.parse (text : String) : Except NetworkPolicyError CidrBlock :=
  match Text.splitOnce (Text.trim text) '/' with
  | none => .error (.invalidCidr text)
  | some (addrText, prefixText) =>
    match IpAddr.parse addrText, parseU8 prefixText with
    | some addr, some prefixLen =>
      if prefixLen > addr.maxPrefixLen then .error (.invalidCidr text) else .ok ⟨addr, prefixLen⟩
    | _, _ => .error (.invalidCidr text)

/-- An IPv4 block written in IPv6 form. -/
def CidrBlock.isMapped (block : CidrBlock) : Bool :=
  match block.addr with
  | .v6 addr => addr.toIpv4.isSome
  | .v4 _ => false

def checkCidr (entryText : String) : Except NetworkPolicyError CidrBlock := do
  let block ← CidrBlock.parse (Text.trim entryText)
  if block.isMapped then .error (.mappedV6Entry entryText)
  else match neverAllowable.find? fun range => intersects range.block block with
    | some range => .error (.neverAllowable entryText range.block.display range.rangeClass)
    | none =>
      if loopbackPrefixes.any fun loopback => intersects loopback block then
        .error (.loopbackEntry entryText)
      else .ok block

/-- One entry of `allow_hosts`. -/
def checkHost (hostText : String) : Except NetworkPolicyError String :=
  let host := Text.trim hostText
  if host.isEmpty then .error .hostBlank
  else if (IpAddr.parse host).isSome then .error (.hostIpLiteral hostText)
  else .ok (normalizeHost host)

structure NetworkPolicyRaw where
  mode : NetworkPolicyMode := .restricted
  allowCidrs : List String := []
  allowHosts : List String := []

def NetworkPolicyRaw.intoPolicy (raw : NetworkPolicyRaw) :
    Except NetworkPolicyError NetworkPolicy := do
  let hasEntries := !raw.allowCidrs.isEmpty || !raw.allowHosts.isEmpty
  if hasEntries && raw.mode == .restricted then .error .entriesWithoutAllowlistMode
  else
    let allowCidrs ← raw.allowCidrs.mapM checkCidr
    let allowHosts ← raw.allowHosts.mapM checkHost
    return ⟨raw.mode, allowCidrs, allowHosts⟩

end Webfang.Network
