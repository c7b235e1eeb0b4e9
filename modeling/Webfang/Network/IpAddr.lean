import Webfang.Library.PrefixBlock
import Webfang.Library.Text

/-!
# IP addresses

What the network policy uses of `std::net`: the address types, their range predicates, the
text parser and the text form.
-/
namespace Webfang.Network

open Library

abbrev Ipv4Addr := BitVec 32
abbrev Ipv6Addr := BitVec 128

inductive IpAddr where
  | v4 (addr : Ipv4Addr)
  | v6 (addr : Ipv6Addr)
  deriving DecidableEq, Repr

namespace Ipv4Addr

def new (a b c d : BitVec 8) : Ipv4Addr := a ++ b ++ c ++ d

/-- `self.octets()[i]`, the most significant first. -/
def octet (addr : Ipv4Addr) (i : Nat) : BitVec 8 := addr.extractLsb' (24 - 8 * i) 8

def localhost : Ipv4Addr := new 127 0 0 1

def broadcast : Ipv4Addr := new 255 255 255 255

def isLoopback (addr : Ipv4Addr) : Bool := octet addr 0 == 127

def isPrivate (addr : Ipv4Addr) : Bool :=
  octet addr 0 == 10 || (octet addr 0 == 172 && 16 ≤ octet addr 1 && octet addr 1 ≤ 31) ||
    (octet addr 0 == 192 && octet addr 1 == 168)

def isLinkLocal (addr : Ipv4Addr) : Bool := octet addr 0 == 169 && octet addr 1 == 254

def isBroadcast (addr : Ipv4Addr) : Bool := addr == broadcast

def isMulticast (addr : Ipv4Addr) : Bool := 224 ≤ octet addr 0 && octet addr 0 ≤ 239

end Ipv4Addr

namespace Ipv6Addr

def new (a b c d e f g h : BitVec 16) : Ipv6Addr := a ++ b ++ c ++ d ++ e ++ f ++ g ++ h

/-- `self.segments()[i]`, the most significant first. -/
def segment (addr : Ipv6Addr) (i : Nat) : BitVec 16 := addr.extractLsb' (112 - 16 * i) 16

/-- The IPv4 address two adjacent segments spell. -/
def v4OfSegments (high low : BitVec 16) : Ipv4Addr :=
  Ipv4Addr.new ((high >>> 8).setWidth 8) (high.setWidth 8) ((low >>> 8).setWidth 8) (low.setWidth 8)

def isUnspecified (addr : Ipv6Addr) : Bool := addr == 0

def isLoopback (addr : Ipv6Addr) : Bool := addr == 1

def isMulticast (addr : Ipv6Addr) : Bool := segment addr 0 &&& 0xff00 == 0xff00

/-- `::ffff:a.b.c.d`. -/
def toIpv4Mapped (addr : Ipv6Addr) : Option Ipv4Addr :=
  if segment addr 0 == 0 && segment addr 1 == 0 && segment addr 2 == 0 && segment addr 3 == 0 &&
      segment addr 4 == 0 && segment addr 5 == 0xffff then
    some (v4OfSegments (segment addr 6) (segment addr 7))
  else none

/-- `::ffff:a.b.c.d` and the deprecated `::a.b.c.d`. -/
def toIpv4 (addr : Ipv6Addr) : Option Ipv4Addr :=
  if segment addr 0 == 0 && segment addr 1 == 0 && segment addr 2 == 0 && segment addr 3 == 0 &&
      segment addr 4 == 0 && (segment addr 5 == 0 || segment addr 5 == 0xffff) then
    some (v4OfSegments (segment addr 6) (segment addr 7))
  else none

end Ipv6Addr

/-! ### The text parser -/

namespace IpText

/-- A parser either reads a value off the front of its input or leaves the input alone. -/
abbrev Parser (α : Type) := List Char → Option (α × List Char)

def readGivenChar (c : Char) : Parser Unit
  | d :: rest => if d = c then some ((), rest) else none
  | [] => none

/-- `c.to_digit(radix)`, for the radixes 10 and 16. -/
def toDigit (radix : Nat) (c : Char) : Option Nat :=
  let value :=
    if c.isDigit then some (c.toNat - '0'.toNat)
    else if 'a' ≤ c ∧ c ≤ 'f' then some (c.toNat - 'a'.toNat + 10)
    else if 'A' ≤ c ∧ c ≤ 'F' then some (c.toNat - 'A'.toNat + 10)
    else none
  value.filter (· < radix)

/-- At most `maxDigits` digits, and a value below `bound`. -/
def readNumber (radix maxDigits : Nat) (allowZeroPrefix : Bool) (bound : Nat) : Parser Nat :=
  fun input =>
    let digits := input.takeWhile fun c => (toDigit radix c).isSome
    let value := (digits.filterMap (toDigit radix)).foldl (fun acc digit => acc * radix + digit) 0
    let hasLeadingZero := input.head? == some '0'
    if digits.length > maxDigits || digits.isEmpty then none
    else if !allowZeroPrefix && hasLeadingZero && digits.length > 1 then none
    else if value < bound then some (value, input.drop digits.length) else none

/-- The separator stands before every group but the first. -/
def readSeparator {α : Type} (sep : Char) (first : Bool) (inner : Parser α) : Parser α :=
  fun input =>
    if first then inner input
    else (readGivenChar sep input).bind fun (_, rest) => inner rest

def readIpv4Octet (first : Bool) : Parser (BitVec 8) := fun input =>
  (readSeparator '.' first (readNumber 10 3 false 256) input).map fun (n, rest) =>
    (BitVec.ofNat 8 n, rest)

def readIpv4Addr : Parser Ipv4Addr := fun input => do
  let (a, input) ← readIpv4Octet true input
  let (b, input) ← readIpv4Octet false input
  let (c, input) ← readIpv4Octet false input
  let (d, input) ← readIpv4Octet false input
  return (Ipv4Addr.new a b c d, input)

/-- Groups until `limit` are read or the next one fails; an IPv4 tail fills two of them. -/
def readGroups : (limit : Nat) → (first : Bool) → List Char → List (BitVec 16) × Bool × List Char
  | 0, _, input => ([], false, input)
  | limit + 1, first, input =>
    match if limit = 0 then none else readSeparator ':' first readIpv4Addr input with
    | some (v4, rest) => ([v4.extractLsb' 16 16, v4.extractLsb' 0 16], true, rest)
    | none =>
      match readSeparator ':' first (readNumber 16 4 true 65536) input with
      | none => ([], false, input)
      | some (group, rest) =>
        let (groups, ipv4, rest) := readGroups limit false rest
        (BitVec.ofNat 16 group :: groups, ipv4, rest)

def ofGroups (groups : List (BitVec 16)) : Ipv6Addr :=
  groups.foldl (fun acc group => acc <<< 16 ||| group.setWidth 128) 0

def readIpv6Addr : Parser Ipv6Addr := fun input =>
  let (head, headIpv4, input) := readGroups 8 true input
  if head.length = 8 then some (ofGroups head, input)
  else if headIpv4 then none
  else do
    let (_, input) ← readGivenChar ':' input
    let (_, input) ← readGivenChar ':' input
    let (tail, _, input) := readGroups (8 - (head.length + 1)) true input
    let zeros := List.replicate (8 - head.length - tail.length) 0
    return (ofGroups (head ++ zeros ++ tail), input)

def readIpAddr : Parser IpAddr := fun input =>
  ((readIpv4Addr input).map fun (addr, rest) => (.v4 addr, rest)).orElse fun _ =>
    (readIpv6Addr input).map fun (addr, rest) => (.v6 addr, rest)

end IpText

/-- `text.parse::<IpAddr>()`: one address and nothing after it. -/
def IpAddr.parse (text : String) : Option IpAddr :=
  ((IpText.readIpAddr text.toList).filter fun (_, rest) => rest.isEmpty).map Prod.fst

/-! ### The text form -/

def Ipv4Addr.display (addr : Ipv4Addr) : String :=
  ".".intercalate (((List.range 4).map (octet addr)).map fun octet => toString octet.toNat)

namespace Ipv6Addr

/-- The first longest run of zero segments, as start and length. -/
def longestZeros (segments : List (BitVec 16)) : Nat × Nat :=
  let runs := (List.range segments.length).map fun start =>
    (start, ((segments.drop start).takeWhile (· == 0)).length)
  runs.foldl (fun best run => if run.2 > best.2 then run else best) (0, 0)

def hexGroups (segments : List (BitVec 16)) : String :=
  ":".intercalate (segments.map fun group => String.ofList (Nat.toDigits 16 group.toNat))

def display (addr : Ipv6Addr) : String :=
  match toIpv4Mapped addr with
  | some v4 => "::ffff:" ++ v4.display
  | none =>
    let segments := (List.range 8).map (segment addr)
    let (start, length) := longestZeros segments
    if length > 1 then
      hexGroups (segments.take start) ++ "::" ++ hexGroups (segments.drop (start + length))
    else hexGroups segments

end Ipv6Addr

def IpAddr.display : IpAddr → String
  | .v4 addr => addr.display
  | .v6 addr => addr.display

end Webfang.Network
