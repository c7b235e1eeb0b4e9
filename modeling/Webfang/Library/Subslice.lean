import Mathlib.Algebra.Order.Ring.Int
import Mathlib.Data.List.Infix

/-!
# Subslices of a byte sequence

The search for a marker, the overwriting of a window in place and the lossy UTF-8 decoding,
as a program that patches a text file does them.
-/
namespace Library.Subslice

variable {α : Type}

section

variable [DecidableEq α]

/-- The offset of the first window that equals `needle`. -/
def find (needle : List α) : List α → Option Nat
  | [] => none
  | b :: rest =>
    if needle.isPrefixOf (b :: rest) then some 0 else (find needle rest).map (· + 1)

theorem find_eq_some {needle haystack : List α} {offset : Nat}
    (found : find needle haystack = some offset) :
    ∃ before after, haystack = before ++ needle ++ after ∧ before.length = offset := by
  induction haystack generalizing offset with
  | nil => cases found
  | cons b rest ih =>
    simp only [find] at found
    split at found
    next here =>
      cases found
      obtain ⟨after, split⟩ := List.isPrefixOf_iff_prefix.mp here
      exact ⟨[], after, by simpa using split.symm, rfl⟩
    next =>
      obtain ⟨n, later, rfl⟩ := Option.map_eq_some_iff.mp found
      obtain ⟨before, after, split, size⟩ := ih later
      exact ⟨b :: before, after, by simp [split], by simp [size]⟩

/-- No occurrence starts before the one found. -/
theorem find_le {needle : List α} (before after : List α) (nonempty : needle ≠ []) :
    ∃ offset, find needle (before ++ needle ++ after) = some offset ∧ offset ≤ before.length := by
  induction before with
  | nil =>
    cases needle with
    | nil => exact absurd rfl nonempty
    | cons b rest =>
      have here : (b :: rest).isPrefixOf (b :: (rest ++ after)) = true := by
        rw [List.isPrefixOf_iff_prefix]
        exact ⟨after, by simp⟩
      exact ⟨0, by simp [find, here], Nat.le_refl 0⟩
  | cons b before ih =>
    obtain ⟨offset, found, bounded⟩ := ih
    rw [List.cons_append, List.cons_append, find]
    split
    · exact ⟨0, rfl, Nat.zero_le _⟩
    · exact ⟨offset + 1, by rw [found]; rfl, by simpa using bounded⟩

/-- A search that succeeds within a prefix finds the same offset in the whole. -/
theorem find_append {needle haystack : List α} {offset : Nat} (after : List α)
    (found : find needle haystack = some offset) : find needle (haystack ++ after) = some offset := by
  induction haystack generalizing offset with
  | nil => cases found
  | cons b rest ih =>
    simp only [find, List.cons_append] at found ⊢
    split at found
    next here =>
      obtain ⟨tail, split⟩ := List.isPrefixOf_iff_prefix.mp here
      have still : needle.isPrefixOf (b :: (rest ++ after)) = true := by
        rw [List.isPrefixOf_iff_prefix]
        exact ⟨tail ++ after, by rw [← List.append_assoc, split, List.cons_append]⟩
      rw [if_pos still]
      exact found
    next missing =>
      obtain ⟨n, later, rfl⟩ := Option.map_eq_some_iff.mp found
      have stillMissing : needle.isPrefixOf (b :: (rest ++ after)) = false := by
        obtain ⟨before, tail, split, -⟩ := find_eq_some later
        rw [Bool.eq_false_iff]
        intro here
        apply missing
        rw [List.isPrefixOf_iff_prefix] at here ⊢
        -- the occurrence found later leaves room for the one claimed here
        refine List.prefix_of_prefix_length_le here ⟨after, rfl⟩ ?_
        simp only [split, List.length_cons, List.length_append]
        omega
      rw [if_neg (by simp [stillMissing]), ih later]
      rfl

/-- A front in which no occurrence can begin is passed over. -/
theorem find_skip {needle front : List α}
    (apart : ∀ k < front.length, ¬ front.drop k <+: needle ∧ ¬ needle <+: front.drop k)
    (after : List α) :
    find needle (front ++ after) = (find needle after).map (· + front.length) := by
  induction front with
  | nil => simp
  | cons b front ih =>
    have missing : needle.isPrefixOf (b :: (front ++ after)) = false := by
      rw [Bool.eq_false_iff, ne_eq, List.isPrefixOf_iff_prefix]
      intro here
      obtain ⟨short, long⟩ := apart 0 (Nat.succ_pos _)
      -- two prefixes of one list are prefixes of each other
      rcases List.prefix_or_prefix_of_prefix here (List.prefix_append (b :: front) after) with
        inside | beyond
      · exact long inside
      · exact short beyond
    have later := ih fun k inside => apart (k + 1) (Nat.succ_lt_succ inside)
    rw [List.cons_append, find, if_neg (by simp [missing]), later, Option.map_map]
    rfl

theorem find_skip_of_notMem {b : α} {needle front : List α} (absent : b ∉ front) (after : List α) :
    find (b :: needle) (front ++ after) = (find (b :: needle) after).map (· + front.length) := by
  apply find_skip
  intro k inside
  have here : front.drop k = front[k] :: front.drop (k + 1) := List.drop_eq_getElem_cons inside
  rw [here, List.cons_prefix_cons, List.cons_prefix_cons]
  have other : front[k] ≠ b := fun same => absent (same ▸ List.getElem_mem inside)
  exact ⟨fun both => other both.1, fun both => other both.1.symm⟩

theorem find_append_self {needle : List α} (nonempty : needle ≠ []) (after : List α) :
    find needle (needle ++ after) = some 0 := by
  obtain ⟨offset, found, early⟩ := find_le [] after nonempty
  rw [List.nil_append] at found
  rw [found, Nat.le_zero.mp early]

/-- The same within the first `n` elements. -/
theorem find_take_append {needle haystack : List α} {n offset : Nat} (after : List α)
    (found : find needle (haystack.take n) = some offset) :
    find needle ((haystack ++ after).take n) = some offset := by
  rw [List.take_append]
  exact find_append _ found

end

/-- Write `value` over the bytes from `start` on. -/
def overwrite (bytes : List α) (start : Nat) (value : List α) : List α :=
  bytes.take start ++ value ++ bytes.drop (start + value.length)

/-- A window inside the first part leaves the second alone. -/
theorem overwrite_append {before after value : List α} {start : Nat}
    (fits : start + value.length ≤ before.length) :
    overwrite (before ++ after) start value = overwrite before start value ++ after := by
  simp only [overwrite]
  rw [List.take_append_of_le_length (by omega), List.drop_append_of_le_length fits]
  simp

/-! ### Lossy decoding -/

def isContinuation (b : UInt8) : Bool := 0x80 ≤ b && b ≤ 0xBF

/-- U+FFFD in UTF-8. -/
def replacement : List UInt8 := [0xEF, 0xBF, 0xBD]

/-- The second bytes that may follow a lead byte of three. -/
def secondOfThree (lead b : UInt8) : Bool :=
  if lead == 0xE0 then 0xA0 ≤ b && b ≤ 0xBF
  else if lead == 0xED then 0x80 ≤ b && b ≤ 0x9F
  else isContinuation b

/-- The second bytes that may follow a lead byte of four. -/
def secondOfFour (lead b : UInt8) : Bool :=
  if lead == 0xF0 then 0x90 ≤ b && b ≤ 0xBF
  else if lead == 0xF4 then 0x80 ≤ b && b ≤ 0x8F
  else isContinuation b

/-- The length of the longest start of the sequence that begins a character, and whether it
is a whole one. -/
def scanChar : List UInt8 → Nat × Bool
  | [] => (0, false)
  | b :: rest =>
    if b < 0x80 then (1, true)
    else if 0xC2 ≤ b && b ≤ 0xDF then
      match rest with
      | c :: _ => if isContinuation c then (2, true) else (1, false)
      | [] => (1, false)
    else if 0xE0 ≤ b && b ≤ 0xEF then
      match rest with
      | c :: d :: _ =>
        if !secondOfThree b c then (1, false)
        else if isContinuation d then (3, true) else (2, false)
      | [c] => if secondOfThree b c then (2, false) else (1, false)
      | [] => (1, false)
    else if 0xF0 ≤ b && b ≤ 0xF4 then
      match rest with
      | c :: d :: e :: _ =>
        if !secondOfFour b c then (1, false)
        else if !isContinuation d then (2, false)
        else if isContinuation e then (4, true) else (3, false)
      | [c, d] =>
        if !secondOfFour b c then (1, false)
        else if isContinuation d then (3, false) else (2, false)
      | [c] => if secondOfFour b c then (2, false) else (1, false)
      | [] => (1, false)
    else (1, false)

/-- `String::from_utf8_lossy`, as the UTF-8 bytes of its result: each maximal broken start
of a character becomes one U+FFFD. The first argument bounds the number of characters. -/
def decodeLossy : Nat → List UInt8 → List UInt8
  | 0, _ => []
  | _, [] => []
  | fuel + 1, bytes =>
    let (size, whole) := scanChar bytes
    (if whole then bytes.take size else replacement) ++ decodeLossy fuel (bytes.drop size)

def fromUtf8Lossy (bytes : List UInt8) : List UInt8 := decodeLossy bytes.length bytes

example : fromUtf8Lossy [0x61, 0xC3, 0xA9, 0xA9, 0xE2, 0x82, 0x62] =
    [0x61, 0xC3, 0xA9, 0xEF, 0xBF, 0xBD, 0xEF, 0xBF, 0xBD, 0x62] := by decide

end Library.Subslice
