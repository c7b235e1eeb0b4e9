/-!
# Content digests

`Sha256Hex` of `domain/value_objects.rs`: a SHA-256 digest written as 64 lowercase hex
characters.
-/
namespace Webfang.Domain

/-- The 32 bytes of a SHA-256 digest. -/
abbrev Digest := Vector UInt8 32

namespace Sha256Hex

def hexLen : Nat := 64

/-- `b.is_ascii_digit() || (b'a'..=b'f').contains(&b)`. -/
def isLowerHex (c : Char) : Bool := c.isDigit || (decide ('a' ≤ c) && decide (c ≤ 'f'))

def hexByte (byte : UInt8) : List Char :=
  [Nat.digitChar (byte.toNat / 16), Nat.digitChar (byte.toNat % 16)]

theorem hexByte_length (byte : UInt8) : (hexByte byte).length = 2 := rfl

theorem isLowerHex_digitChar : ∀ n < 16, isLowerHex (Nat.digitChar n) = true := by decide

theorem digitChar_inj : ∀ n < 16, ∀ m < 16, Nat.digitChar n = Nat.digitChar m → n = m := by decide

theorem hexByte_inj {a b : UInt8} (same : hexByte a = hexByte b) : a = b := by
  have boundA := a.toNat_lt
  have boundB := b.toNat_lt
  simp only [hexByte, List.cons.injEq, and_true] at same
  have high := digitChar_inj _ (by omega) _ (by omega) same.1
  have low := digitChar_inj _ (by omega) _ (by omega) same.2
  apply UInt8.toNat_inj.mp
  omega

/-- Two bytes are two digits each, so the digits of a digest can be cut again. -/
theorem flatMap_hexByte_inj {xs ys : List UInt8} (same : xs.flatMap hexByte = ys.flatMap hexByte) :
    xs = ys := by
  induction xs generalizing ys with
  | nil => cases ys <;> simp [hexByte] at same ⊢
  | cons x xs ih =>
    cases ys with
    | nil => simp [hexByte] at same
    | cons y ys =>
      simp only [List.flatMap_cons] at same
      obtain ⟨head, tail⟩ := List.append_inj same (by simp [hexByte_length])
      rw [hexByte_inj head, ih tail]

end Sha256Hex

structure Sha256Hex where
  asStr : String
  valid : asStr.toList.length = Sha256Hex.hexLen ∧ asStr.toList.all Sha256Hex.isLowerHex = true
  deriving DecidableEq

namespace Sha256Hex

theorem hexLen_flatMap (bytes : List UInt8) : (bytes.flatMap hexByte).length = 2 * bytes.length := by
  induction bytes with
  | nil => rfl
  | cons byte bytes ih =>
    rw [List.flatMap_cons, List.length_append, ih, hexByte_length, List.length_cons]
    omega

def fromDigest (digest : Digest) : Sha256Hex where
  asStr := String.ofList (digest.toList.flatMap hexByte)
  valid := by
    rw [String.toList_ofList, hexLen_flatMap, Vector.length_toList]
    refine ⟨rfl, ?_⟩
    simp only [List.all_eq_true, List.mem_flatMap, hexByte]
    rintro c ⟨byte, -, member⟩
    have bound := byte.toNat_lt
    simp only [List.mem_cons, List.not_mem_nil, or_false] at member
    rcases member with rfl | rfl <;> exact isLowerHex_digitChar _ (by omega)

theorem fromDigest_inj {a b : Digest} (same : fromDigest a = fromDigest b) : a = b := by
  have written : a.toList.flatMap hexByte = b.toList.flatMap hexByte :=
    String.ofList_inj.mp (congrArg asStr same)
  exact Vector.toList_inj.mp (flatMap_hexByte_inj written)

end Sha256Hex

end Webfang.Domain
