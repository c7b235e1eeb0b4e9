import Mathlib.Algebra.Order.Ring.Int

/-!
# Blocks of bit vectors that share a prefix

The words of `w` bits that agree on their first `len` bits. Two such blocks meet exactly
when one of them contains the word the other is written with.
-/
namespace Library.PrefixBlock

variable {w : Nat}

def SharesPrefix (len : Nat) (a b : BitVec w) : Prop := a >>> (w - len) = b >>> (w - len)

instance (len : Nat) (a b : BitVec w) : Decidable (SharesPrefix len a b) :=
  inferInstanceAs (Decidable (a >>> (w - len) = b >>> (w - len)))

variable {len m n : Nat} {a b c : BitVec w}

@[simp] theorem SharesPrefix.refl (len : Nat) (a : BitVec w) : SharesPrefix len a a := rfl

theorem SharesPrefix.symm (h : SharesPrefix len a b) : SharesPrefix len b a := Eq.symm h

theorem SharesPrefix.trans (h : SharesPrefix len a b) (h' : SharesPrefix len b c) :
    SharesPrefix len a c := Eq.trans h h'

theorem sharesPrefix_zero (a b : BitVec w) : SharesPrefix 0 a b := by
  simp [SharesPrefix, BitVec.ushiftRight_eq_zero]

/-- On numbers a prefix is the quotient by a power of two. -/
theorem sharesPrefix_iff (len : Nat) (a b : BitVec w) :
    SharesPrefix len a b ↔ a.toNat / 2 ^ (w - len) = b.toNat / 2 ^ (w - len) := by
  simp [SharesPrefix, ← BitVec.toNat_inj, Nat.shiftRight_eq_div_pow]

theorem SharesPrefix.mono (shorter : m ≤ n) (h : SharesPrefix n a b) : SharesPrefix m a b := by
  have split : w - m = (w - n) + ((w - m) - (w - n)) := by omega
  unfold SharesPrefix at *
  rw [split, BitVec.shiftRight_add, BitVec.shiftRight_add, h]

/-- Blocks are nested or apart: they meet exactly when one holds the base of the other. -/
theorem meet_iff (m n : Nat) (a b : BitVec w) :
    (∃ c, SharesPrefix m a c ∧ SharesPrefix n b c) ↔ SharesPrefix m a b ∨ SharesPrefix n b a := by
  constructor
  · rintro ⟨c, left, right⟩
    rcases Nat.le_total m n with shorter | shorter
    · exact .inl (left.trans (right.mono shorter).symm)
    · exact .inr (right.trans (left.mono shorter).symm)
  · rintro (held | held)
    · exact ⟨b, held, .refl n b⟩
    · exact ⟨a, .refl m a, held⟩

/-- Comparing under a mask of leading ones compares the prefixes. -/
theorem and_mask_eq_iff (s : Nat) (a b : BitVec w) :
    a &&& (BitVec.allOnes w <<< s) = b &&& (BitVec.allOnes w <<< s) ↔ a >>> s = b >>> s := by
  constructor
  · intro masked
    apply BitVec.eq_of_getLsbD_eq
    intro i _
    simp only [BitVec.getLsbD_ushiftRight]
    by_cases inside : s + i < w
    · have kept : ¬ s + i < s := by omega
      have bit := congrArg (fun v => v.getLsbD (s + i)) masked
      simpa [inside, kept] using bit
    · rw [BitVec.getLsbD_of_ge _ _ (by omega), BitVec.getLsbD_of_ge _ _ (by omega)]
  · intro shifted
    apply BitVec.eq_of_getLsbD_eq
    intro i inside
    simp only [BitVec.getLsbD_and, BitVec.getLsbD_shiftLeft, BitVec.getLsbD_allOnes, inside]
    by_cases below : i < s
    · simp [below]
    · have bit := congrArg (fun v => v.getLsbD (i - s)) shifted
      simp only [BitVec.getLsbD_ushiftRight, Nat.add_sub_cancel' (Nat.le_of_not_lt below)] at bit
      rw [bit]

/-- A field compared with a constant under a mask of leading ones. -/
theorem and_mask_eq_const_iff {mask value : BitVec w} (s : Nat)
    (leading : mask = BitVec.allOnes w <<< s) (aligned : value &&& mask = value) (a : BitVec w) :
    a &&& mask = value ↔ a >>> s = value >>> s := by
  subst leading
  rw [← and_mask_eq_iff, aligned]

end Library.PrefixBlock
