import Webfang.Library.Subslice

/-!
# Texts cut at a character boundary

The bytes of a text decode as they stand, and so do its last bytes when the first of them
continues no character. Where the cut is inside a character, each byte that is left of it decodes as
one replacement.
-/
namespace Library.Subslice

/-- The bytes of a sequence of characters. -/
def encodeChars (chars : List Char) : List UInt8 := chars.flatMap String.utf8EncodeChar

@[simp] theorem encodeChars_nil : encodeChars [] = [] := rfl

@[simp] theorem encodeChars_cons (c : Char) (chars : List Char) :
    encodeChars (c :: chars) = String.utf8EncodeChar c ++ encodeChars chars := rfl

@[simp] theorem encodeChars_append (chars more : List Char) :
    encodeChars (chars ++ more) = encodeChars chars ++ encodeChars more := List.flatMap_append ..

/-! ### One character -/

theorem toNat_ofNat_of_lt {n : Nat} (small : n < 256) : (UInt8.ofNat n).toNat = n := by
  rw [UInt8.toNat_ofNat']
  exact Nat.mod_eq_of_lt small

theorem isContinuation_iff {b : UInt8} : isContinuation b = true ↔ 0x80 ≤ b.toNat ∧ b.toNat ≤ 0xBF := by
  simp [isContinuation, UInt8.le_iff_toNat_le]

theorem isContinuation_ofNat (v : Nat) : isContinuation (UInt8.ofNat (v % 0x40 + 0x80)) = true := by
  rw [isContinuation_iff, toNat_ofNat_of_lt (by omega)]
  omega

/-- A character is neither beyond the planes of Unicode nor a surrogate. -/
theorem char_range (c : Char) :
    c.val.toNat < 0xD800 ∨ (0xDFFF < c.val.toNat ∧ c.val.toNat < 0x110000) := c.valid

/-- Every byte of a character but its first one continues it. -/
theorem isContinuation_encodeChar {c : Char} {i : Nat} {b : UInt8} (later : 0 < i)
    (here : (String.utf8EncodeChar c)[i]? = some b) : isContinuation b = true := by
  obtain ⟨j, rfl⟩ : ∃ j, i = j + 1 := ⟨i - 1, by omega⟩
  have tail : ∀ d ∈ (String.utf8EncodeChar c).tail, isContinuation d = true := by
    intro d member
    simp only [String.utf8EncodeChar] at member
    split at member
    · cases member
    · split at member
      · simp only [List.tail_cons, List.mem_singleton] at member
        exact member ▸ isContinuation_ofNat _
      · split at member
        all_goals
          simp only [List.tail_cons, List.mem_cons, List.not_mem_nil, or_false] at member
          rcases member with rfl | rfl | rfl <;> exact isContinuation_ofNat _
  apply tail
  rw [← List.drop_one]
  exact List.mem_iff_getElem?.mpr ⟨j, by rw [List.getElem?_drop, Nat.add_comm, here]⟩

/-- An ASCII byte stands for its character only. -/
theorem toNat_of_mem_encodeChar {c : Char} {b : UInt8} (ascii : b.toNat < 128)
    (member : b ∈ String.utf8EncodeChar c) : c.toNat = b.toNat := by
  rw [String.utf8EncodeChar] at member
  split_ifs at member with one two three
  · rw [List.mem_singleton.mp member, toNat_ofNat_of_lt (by omega)]
    rfl
  -- the bytes of a longer character are 128 and more
  all_goals
    simp only [List.mem_cons, List.not_mem_nil, or_false] at member
    rcases member with rfl | rfl | rfl | rfl <;> rw [toNat_ofNat_of_lt (by omega)] at ascii <;> omega

/-! ### The lead bytes -/

theorem lt_iff {a b : UInt8} : (a < b) ↔ a.toNat < b.toNat := UInt8.lt_iff_toNat_lt

theorem le_iff {a b : UInt8} : (a ≤ b) ↔ a.toNat ≤ b.toNat := UInt8.le_iff_toNat_le

variable {a b c d : UInt8}

theorem scanChar_one (lead : a.toNat < 0x80) (rest : List UInt8) :
    scanChar (a :: rest) = (1, true) := by
  rw [scanChar.eq_def]
  exact if_pos (lt_iff.mpr lead)

theorem between_iff {low high : UInt8} :
    (decide (low ≤ a) && decide (a ≤ high)) = true ↔ low.toNat ≤ a.toNat ∧ a.toNat ≤ high.toNat := by
  rw [Bool.and_eq_true, decide_eq_true_iff, decide_eq_true_iff, le_iff, le_iff]

theorem not_ascii {least : Nat} (low : least ≤ a.toNat) (above : 0x80 ≤ least) : ¬ a < 0x80 := by
  rw [lt_iff]
  simp only [UInt8.reduceToNat]
  omega

theorem scanChar_two (low : 0xC2 ≤ a.toNat) (high : a.toNat ≤ 0xDF) (tail : isContinuation b = true)
    (rest : List UInt8) : scanChar (a :: b :: rest) = (2, true) := by
  have lead : (decide (0xC2 ≤ a) && decide (a ≤ 0xDF)) = true := between_iff.mpr ⟨low, high⟩
  rw [scanChar, if_neg (not_ascii low (by decide)), if_pos lead, if_pos tail]

theorem scanChar_three (low : 0xE0 ≤ a.toNat) (high : a.toNat ≤ 0xEF)
    (second : secondOfThree a b = true) (tail : isContinuation c = true) (rest : List UInt8) :
    scanChar (a :: b :: c :: rest) = (3, true) := by
  have notTwo : ¬ (decide (0xC2 ≤ a) && decide (a ≤ 0xDF)) = true :=
    mt between_iff.mp (by simp only [UInt8.reduceToNat]; omega)
  have lead : (decide (0xE0 ≤ a) && decide (a ≤ 0xEF)) = true := between_iff.mpr ⟨low, high⟩
  rw [scanChar, if_neg (not_ascii low (by decide)), if_neg notTwo, if_pos lead]
  dsimp only
  rw [if_neg (by simp [second]), if_pos tail]

theorem scanChar_four (low : 0xF0 ≤ a.toNat) (high : a.toNat ≤ 0xF4)
    (second : secondOfFour a b = true) (third : isContinuation c = true)
    (tail : isContinuation d = true) (rest : List UInt8) :
    scanChar (a :: b :: c :: d :: rest) = (4, true) := by
  have notTwo : ¬ (decide (0xC2 ≤ a) && decide (a ≤ 0xDF)) = true :=
    mt between_iff.mp (by simp only [UInt8.reduceToNat]; omega)
  have notThree : ¬ (decide (0xE0 ≤ a) && decide (a ≤ 0xEF)) = true :=
    mt between_iff.mp (by simp only [UInt8.reduceToNat]; omega)
  have lead : (decide (0xF0 ≤ a) && decide (a ≤ 0xF4)) = true := between_iff.mpr ⟨low, high⟩
  rw [scanChar, if_neg (not_ascii low (by decide)), if_neg notTwo, if_neg notThree, if_pos lead]
  dsimp only
  rw [if_neg (by simp [second]), if_neg (by simp [third]), if_pos tail]

theorem eq_iff_toNat {a b : UInt8} : a = b ↔ a.toNat = b.toNat := UInt8.toNat_inj.symm

/-- The second byte of a character of three: no overlong form, and no surrogate. -/
theorem secondOfThree_ofNat {v : Nat} (low : 0x7FF < v) (high : v ≤ 0xFFFF)
    (range : v < 0xD800 ∨ 0xDFFF < v) :
    secondOfThree (UInt8.ofNat (v / 4096 % 0x10 + 0xE0)) (UInt8.ofNat (v / 64 % 0x40 + 0x80)) = true := by
  unfold secondOfThree
  simp only [beq_iff_eq, eq_iff_toNat, UInt8.reduceToNat]
  rw [toNat_ofNat_of_lt (by omega)]
  split
  · simp only [Bool.and_eq_true, decide_eq_true_eq, le_iff, UInt8.reduceToNat]
    rw [toNat_ofNat_of_lt (by omega)]
    omega
  · split
    · simp only [Bool.and_eq_true, decide_eq_true_eq, le_iff, UInt8.reduceToNat]
      rw [toNat_ofNat_of_lt (by omega)]
      omega
    · exact isContinuation_ofNat _

/-- The second byte of a character of four: no overlong form, and none beyond the planes. -/
theorem secondOfFour_ofNat {v : Nat} (low : 0xFFFF < v) (high : v < 0x110000) :
    secondOfFour (UInt8.ofNat (v / 262144 % 0x08 + 0xF0)) (UInt8.ofNat (v / 4096 % 0x40 + 0x80)) =
      true := by
  unfold secondOfFour
  simp only [beq_iff_eq, eq_iff_toNat, UInt8.reduceToNat]
  rw [toNat_ofNat_of_lt (by omega)]
  split
  · simp only [Bool.and_eq_true, decide_eq_true_eq, le_iff, UInt8.reduceToNat]
    rw [toNat_ofNat_of_lt (by omega)]
    omega
  · split
    · simp only [Bool.and_eq_true, decide_eq_true_eq, le_iff, UInt8.reduceToNat]
      rw [toNat_ofNat_of_lt (by omega)]
      omega
    · exact isContinuation_ofNat _

theorem scanChar_encodeChar (c : Char) (rest : List UInt8) :
    scanChar (String.utf8EncodeChar c ++ rest) = ((String.utf8EncodeChar c).length, true) := by
  have range := char_range c
  simp only [String.utf8EncodeChar]
  generalize c.val.toNat = v at range
  -- one case for each length of the encoding
  split
  next one =>
    apply scanChar_one
    rw [toNat_ofNat_of_lt (by omega)]
    omega
  next notOne =>
    split
    next two =>
      apply scanChar_two _ _ (isContinuation_ofNat _)
      all_goals rw [toNat_ofNat_of_lt (by omega)]; omega
    next notTwo =>
      split
      next three =>
        apply scanChar_three _ _ (secondOfThree_ofNat (by omega) three (by omega))
          (isContinuation_ofNat _)
        all_goals rw [toNat_ofNat_of_lt (by omega)]; omega
      next notThree =>
        apply scanChar_four _ _ (secondOfFour_ofNat (by omega) (by omega)) (isContinuation_ofNat _)
          (isContinuation_ofNat _)
        all_goals rw [toNat_ofNat_of_lt (by omega)]; omega

/-! ### A whole text -/

theorem decodeLossy_encodeChars (chars : List Char) {fuel : Nat}
    (enough : (encodeChars chars).length ≤ fuel) :
    decodeLossy fuel (encodeChars chars) = encodeChars chars := by
  induction chars generalizing fuel with
  | nil => cases fuel <;> rfl
  | cons c chars ih =>
    cases fuel with
    | zero =>
      have empty := List.length_eq_zero_iff.mp (Nat.le_zero.mp enough)
      rw [empty, decodeLossy]
    | succ fuel =>
      have size := List.length_pos_iff.mpr (@String.utf8EncodeChar_ne_nil c)
      rw [encodeChars_cons, List.length_append] at enough
      rw [encodeChars_cons, decodeLossy, scanChar_encodeChar]
      · dsimp only
        rw [if_pos rfl, List.take_left, List.drop_left, ih (by omega)]
      · intro empty
        exact String.utf8EncodeChar_ne_nil (List.append_eq_nil_iff.mp empty).1

theorem fromUtf8Lossy_encodeChars (chars : List Char) :
    fromUtf8Lossy (encodeChars chars) = encodeChars chars :=
  decodeLossy_encodeChars chars (Nat.le_refl _)

/-- The bytes from `n` on begin with no byte that continues a character. -/
def AtBoundary (n : Nat) (bytes : List UInt8) : Prop :=
  ∀ b, bytes[n]? = some b → isContinuation b = false

instance (n : Nat) (bytes : List UInt8) : Decidable (AtBoundary n bytes) :=
  decidable_of_iff ((bytes[n]?).all fun b => !isContinuation b) (by
    rw [AtBoundary]
    cases bytes[n]? <;> simp)

theorem drop_encodeChars (chars : List Char) {n : Nat} (boundary : AtBoundary n (encodeChars chars)) :
    ∃ later, (encodeChars chars).drop n = encodeChars later := by
  induction chars generalizing n with
  | nil => exact ⟨[], by simp⟩
  | cons c chars ih =>
    by_cases inside : n < (String.utf8EncodeChar c).length
    · cases n with
      | zero => exact ⟨c :: chars, by simp⟩
      | succ n =>
        -- a cut behind the first byte of the character meets a byte that continues it
        have here : (String.utf8EncodeChar c)[n + 1]? = some (String.utf8EncodeChar c)[n + 1] :=
          List.getElem?_eq_getElem inside
        have continued := isContinuation_encodeChar (Nat.succ_pos n) here
        rw [AtBoundary, encodeChars_cons] at boundary
        rw [boundary _ (by rw [List.getElem?_append_left inside, here])] at continued
        cases continued
    · have beyond : (String.utf8EncodeChar c).length ≤ n := by omega
      rw [encodeChars_cons, List.drop_append, List.drop_eq_nil_of_le beyond, List.nil_append]
      apply ih
      intro b read
      apply boundary
      rw [encodeChars_cons, List.getElem?_append_right beyond, read]

/-- Only the character of code zero has a zero byte. -/
theorem zero_notMem_encodeChars {chars : List Char} (nonzero : ∀ c ∈ chars, c.toNat ≠ 0) :
    (0 : UInt8) ∉ encodeChars chars := by
  intro member
  obtain ⟨c, listed, inside⟩ := List.mem_flatMap.mp member
  obtain ⟨i, here⟩ := List.mem_iff_getElem?.mp inside
  cases i with
  | zero =>
    have first := nonzero c listed
    rw [Char.toNat] at first
    simp only [String.utf8EncodeChar] at here
    generalize c.val.toNat = v at first here
    have value {n : Nat} (small : n < 256) (same : UInt8.ofNat n = 0) : n = 0 := by
      have code := congrArg UInt8.toNat same
      rwa [toNat_ofNat_of_lt small] at code
    split at here
    · exact first (value (by omega) (Option.some.inj here))
    · split at here
      · exact absurd (value (by omega) (Option.some.inj here)) (by omega)
      · split at here
        all_goals exact absurd (value (by omega) (Option.some.inj here)) (by omega)
  | succ i => exact absurd (isContinuation_encodeChar (Nat.succ_pos i) here) (by decide)

/-- The end of a text from a boundary on decodes as it stands. -/
theorem fromUtf8Lossy_drop {chars : List Char} {n : Nat} (boundary : AtBoundary n (encodeChars chars)) :
    fromUtf8Lossy ((encodeChars chars).drop n) = (encodeChars chars).drop n := by
  obtain ⟨later, rest⟩ := drop_encodeChars chars boundary
  rw [rest, fromUtf8Lossy_encodeChars]

end Library.Subslice

namespace Library.Subslice

/-- The end of a text begins with up to three bytes of a character. -/
theorem drop_encodeChars_stray (chars : List Char) (n : Nat) :
    ∃ stray later, (encodeChars chars).drop n = stray ++ encodeChars later ∧ stray.length ≤ 3 ∧
      ∀ b ∈ stray, isContinuation b = true := by
  induction chars generalizing n with
  | nil => exact ⟨[], [], by simp, by simp, nofun⟩
  | cons c chars ih =>
    by_cases inside : n < (String.utf8EncodeChar c).length
    · cases n with
      | zero => exact ⟨[], c :: chars, by simp, by simp, nofun⟩
      | succ n =>
        -- the rest of the character
        refine ⟨(String.utf8EncodeChar c).drop (n + 1), chars, ?_, ?_, ?_⟩
        · rw [encodeChars_cons, List.drop_append_of_le_length (by omega)]
        · have size := String.length_utf8EncodeChar c
          have bound := Char.utf8Size_le_four c
          rw [List.length_drop]
          omega
        · intro b member
          rcases List.mem_iff_getElem?.mp member with ⟨i, here⟩
          rw [List.getElem?_drop] at here
          exact isContinuation_encodeChar (by omega) here
    · have beyond : (String.utf8EncodeChar c).length ≤ n := by omega
      rw [encodeChars_cons, List.drop_append, List.drop_eq_nil_of_le beyond, List.nil_append]
      exact ih _

theorem scanChar_stray {b : UInt8} (continues : isContinuation b = true) (rest : List UInt8) :
    scanChar (b :: rest) = (1, false) := by
  rw [isContinuation_iff] at continues
  have notTwo : ¬ (decide (0xC2 ≤ b) && decide (b ≤ 0xDF)) = true :=
    mt between_iff.mp (by simp only [UInt8.reduceToNat]; omega)
  have notThree : ¬ (decide (0xE0 ≤ b) && decide (b ≤ 0xEF)) = true :=
    mt between_iff.mp (by simp only [UInt8.reduceToNat]; omega)
  have notFour : ¬ (decide (0xF0 ≤ b) && decide (b ≤ 0xF4)) = true :=
    mt between_iff.mp (by simp only [UInt8.reduceToNat]; omega)
  rw [scanChar.eq_def]
  dsimp only
  rw [if_neg (not_ascii continues.1 (Nat.le_refl _)), if_neg notTwo, if_neg notThree, if_neg notFour]

theorem decodeLossy_stray {stray : List UInt8} (continues : ∀ b ∈ stray, isContinuation b = true)
    (chars : List Char) {fuel : Nat} (enough : (stray ++ encodeChars chars).length ≤ fuel) :
    decodeLossy fuel (stray ++ encodeChars chars) =
      (stray.flatMap fun _ => replacement) ++ encodeChars chars := by
  induction stray generalizing fuel with
  | nil => exact decodeLossy_encodeChars chars enough
  | cons b rest ih =>
    cases fuel with
    | zero => simp at enough
    | succ fuel =>
      rw [List.forall_mem_cons] at continues
      rw [List.cons_append, decodeLossy, scanChar_stray continues.1]
      · dsimp only
        rw [if_neg Bool.false_ne_true, List.drop_one, List.tail_cons, ih continues.2, List.flatMap_cons,
          List.append_assoc]
        rw [List.cons_append, List.length_cons] at enough
        omega
      · exact List.cons_ne_nil b _

theorem fromUtf8Lossy_stray {stray : List UInt8} (continues : ∀ b ∈ stray, isContinuation b = true)
    (chars : List Char) :
    fromUtf8Lossy (stray ++ encodeChars chars) =
      (stray.flatMap fun _ => replacement) ++ encodeChars chars :=
  decodeLossy_stray continues chars (Nat.le_refl _)

theorem length_replacements (stray : List UInt8) :
    (stray.flatMap fun _ => replacement).length = 3 * stray.length := by
  induction stray with
  | nil => rfl
  | cons b rest ih =>
    have size : replacement.length = 3 := rfl
    rw [List.flatMap_cons, List.length_append, ih, size, List.length_cons]
    omega

/-- Whole characters do not begin inside of one. -/
theorem isContinuation_head_encodeChars {chars : List Char} {b : UInt8}
    (first : (encodeChars chars).head? = some b) : isContinuation b = false := by
  cases chars with
  | nil => cases first
  | cons c rest =>
    have read := scanChar_encodeChar c (encodeChars rest)
    by_contra continues
    rw [Bool.not_eq_false] at continues
    rw [encodeChars_cons] at first
    cases encoded : String.utf8EncodeChar c ++ encodeChars rest with
    | nil => exact String.utf8EncodeChar_ne_nil (List.append_eq_nil_iff.mp encoded).1
    | cons d more =>
      rw [encoded, List.head?_cons, Option.some.injEq] at first
      rw [encoded, first, scanChar_stray continues] at read
      exact absurd (congrArg Prod.snd read) Bool.false_ne_true

end Library.Subslice
