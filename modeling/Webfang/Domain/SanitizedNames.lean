import Webfang.Domain.Filename

/-!
# Sanitised names

What the steps of `sanitize_filename_component` establish and what a later step takes back: the
suffix of a reserved stem is put behind the extension, so the stem of the result is the same.
-/
namespace Webfang.Domain.Filename

open Library

/-! ### Stems -/

/-- What stands before the first dot. -/
def stem (name : List Char) : List Char := name.takeWhile (· ≠ '.')

theorem isWindowsReserved_iff {name : List Char} :
    isWindowsReserved name = true ↔ ∃ word ∈ windowsReserved, word.toList = (stem name).map Char.toUpper := by
  rw [isWindowsReserved, List.contains_iff_mem, Text.toAsciiUppercase, String.toList_ofList]
  constructor
  · exact fun listed => ⟨_, listed, String.toList_ofList⟩
  · rintro ⟨word, listed, spelled⟩
    rwa [← stem, ← spelled, String.ofList_toList]

theorem isWindowsReserved_congr {name other : List Char} (same : stem name = stem other) :
    isWindowsReserved name = isWindowsReserved other := by
  rw [Bool.eq_iff_iff, isWindowsReserved_iff, isWindowsReserved_iff, same]

/-- The letters and digits of the device names. -/
def deviceChars : List Char := windowsReserved.flatMap String.toList

theorem toUpper_of_mem_stem {name : List Char} {c : Char} (reserved : isWindowsReserved name = true)
    (inside : c ∈ stem name) : c.toUpper ∈ deviceChars := by
  obtain ⟨word, listed, spelled⟩ := isWindowsReserved_iff.mp reserved
  exact List.mem_flatMap.mpr ⟨word, listed, spelled ▸ List.mem_map_of_mem inside⟩

theorem unreserved_of_mem_stem {name : List Char} {c : Char} (other : c.toUpper ∉ deviceChars)
    (inside : c ∈ stem name) : isWindowsReserved name = false :=
  Bool.eq_false_iff.mpr fun reserved => other (toUpper_of_mem_stem reserved inside)

theorem length_stem_le {name : List Char} (reserved : isWindowsReserved name = true) :
    (stem name).length ≤ 4 := by
  obtain ⟨word, listed, spelled⟩ := isWindowsReserved_iff.mp reserved
  have short : windowsReserved.all (·.toList.length ≤ 4) = true := by decide
  have word_short := of_decide_eq_true (List.all_eq_true.mp short word listed)
  rwa [spelled, List.length_map] at word_short

theorem stem_append_of_plain {name : List Char} (plain : '.' ∉ name) (more : List Char) :
    stem (name ++ more) = name ++ stem more := by
  apply List.takeWhile_append_of_pos
  exact fun c member => decide_eq_true fun dot => plain (dot ▸ member)

theorem stem_of_plain {name : List Char} (plain : '.' ∉ name) : stem name = name := by
  simpa [stem] using stem_append_of_plain plain []

/-- What is put behind the first dot leaves the stem as it is. -/
theorem stem_append_of_dotted {name : List Char} (dotted : '.' ∈ name) (more : List Char) :
    stem (name ++ more) = stem name := by
  obtain ⟨before, after, whole, first⟩ := List.eq_append_cons_of_mem dotted
  rw [whole, List.append_assoc, stem_append_of_plain first, stem_append_of_plain first]
  simp [stem]

/-! ### The characters of a result -/

/-- No rule of the sanitizer is about this character. -/
structure PlainChar (c : Char) : Prop where
  flat : isSeparator c = false
  printed : Text.isControl c = false
  windows : c ∉ windowsInvalidComponentChars

instance (c : Char) : Decidable (PlainChar c) :=
  decidable_of_iff (isSeparator c = false ∧ Text.isControl c = false ∧ c ∉ windowsInvalidComponentChars)
    ⟨fun ⟨flat, printed, windows⟩ => ⟨flat, printed, windows⟩,
      fun plain => ⟨plain.flat, plain.printed, plain.windows⟩⟩

/-- What the sanitizer establishes for every name; a dot and two dots end in a dot. -/
structure Clean (component : List Char) : Prop where
  nonempty : component ≠ []
  plain : ∀ c ∈ component, PlainChar c
  ended : component.getLast? ≠ some '.' ∧ component.getLast? ≠ some ' '

/-- What it is to establish: the name can be created on every platform. -/
structure SafeName (component : List Char) : Prop extends Clean component where
  unreserved : isWindowsReserved component = false
  short : Text.utf8Len component ≤ maxFilenameLen

theorem Clean.append {front back : List Char} (plain : ∀ c ∈ front, PlainChar c) (clean : Clean back) :
    Clean (front ++ back) where
  nonempty := List.append_ne_nil_of_right_ne_nil front clean.nonempty
  plain c member := (List.mem_append.mp member).elim (plain c) (clean.plain c)
  ended := by
    rw [List.getLast?_append_of_ne_nil front clean.nonempty]
    exact clean.ended

/-! ### Safe names are left as they are -/

theorem Clean.trimmed {component : List Char} (clean : Clean component) :
    trimWindowsTrailingDotsAndSpaces component = component := by
  rw [trimWindowsTrailingDotsAndSpaces, List.rdropWhile_eq_self_iff]
  intro more
  have ended := clean.ended
  rw [List.getLast?_eq_some_getLast more] at ended
  simpa using ended

theorem Clean.neutralized {component : List Char} (clean : Clean component) :
    neutralizeWindowsInvalidChars component = component := by
  rw [neutralizeWindowsInvalidChars,
    List.map_congr_left fun c member => if_neg (clean.plain c member).windows]
  exact List.map_id component

theorem SafeName.sanitized {name : String} (safe : SafeName name.toList) (hash : String → UInt64) :
    sanitizeFilenameComponent hash name = some name := by
  have cleaned : (name.toList.filter fun c => !Text.isControl c) = name.toList := by
    rw [List.filter_eq_self]
    intro c member
    rw [(safe.plain c member).printed, Bool.not_false]
  have whole : name.toList.splitOnP isSeparator = [name.toList] :=
    List.splitOnP_eq_singleton fun c member => (safe.plain c member).flat
  have named : name.toList ≠ [] ∧ name.toList ≠ ['.'] ∧ name.toList ≠ ['.', '.'] := by
    refine ⟨safe.nonempty, fun dot => safe.ended.1 ?_, fun dots => safe.ended.1 ?_⟩
    · rw [dot]
      rfl
    · rw [dots]
      rfl
  rw [sanitizeFilenameComponent, cleaned, whole]
  simp [named, safe.neutralized, safe.trimmed, safe.unreserved, safe.short]

/-! ### The steps of the sanitizer -/

/-- The last segment that names something, control characters left out. -/
def namedSegment (name : String) : Option (List Char) :=
  ((name.toList.filter fun c => !Text.isControl c).splitOnP isSeparator).reverse.find? fun segment =>
    segment ≠ [] ∧ segment ≠ ['.'] ∧ segment ≠ ['.', '.']

def trimmedSegment (segment : List Char) : List Char :=
  trimWindowsTrailingDotsAndSpaces (neutralizeWindowsInvalidChars segment)

def suffixed (candidate : List Char) : List Char :=
  if isWindowsReserved candidate then candidate ++ reservedSafeSuffix.toList else candidate

def capped (hash : String → UInt64) (candidate : List Char) : List Char :=
  if Text.utf8Len candidate ≤ maxFilenameLen then candidate
  else
    let digits := hash8 (hash (String.ofList candidate))
    truncateOnCharBoundary (maxFilenameLen - 1 - digits.length) candidate ++ '-' :: digits

theorem sanitizeFilenameComponent_eq_some_iff {hash : String → UInt64} {name result : String} :
    sanitizeFilenameComponent hash name = some result ↔
      ∃ segment, namedSegment name = some segment ∧ trimmedSegment segment ≠ [] ∧
        capped hash (suffixed (trimmedSegment segment)) = result.toList := by
  have unfolded : sanitizeFilenameComponent hash name = (namedSegment name).bind fun segment =>
      if trimmedSegment segment = [] then none
      else if Text.utf8Len (suffixed (trimmedSegment segment)) ≤ maxFilenameLen then
        some (String.ofList (suffixed (trimmedSegment segment)))
      else
        let digits := hash8 (hash (String.ofList (suffixed (trimmedSegment segment))))
        some (String.ofList (truncateOnCharBoundary (maxFilenameLen - 1 - digits.length)
          (suffixed (trimmedSegment segment)) ++ '-' :: digits)) := rfl
  rw [unfolded]
  cases namedSegment name with
  | none => simp
  | some segment =>
    simp only [Option.bind_some, Option.some.injEq, exists_eq_left']
    by_cases empty : trimmedSegment segment = []
    · simp [empty]
    · rw [if_neg empty, capped]
      split <;> simp [empty, ← String.toList_inj]

/-! ### The segment -/

theorem namedSegment_plain {name : String} {segment : List Char} (named : namedSegment name = some segment) :
    ∀ c ∈ segment, isSeparator c = false ∧ Text.isControl c = false := by
  intro c inside
  have part := List.mem_reverse.mp (List.mem_of_find?_eq_some named)
  refine ⟨Text.not_delimiter_of_mem_splitOnP part c inside, ?_⟩
  simpa using (List.mem_filter.mp ((Text.sublist_of_mem_splitOnP part).subset inside)).2

/-- The character that stands for another one in the candidate. -/
def neutral (c : Char) : Char := if c ∈ windowsInvalidComponentChars then invalidCharReplacement else c

theorem neutral_plain {c : Char} (flat : isSeparator c = false) (printed : Text.isControl c = false) :
    PlainChar (neutral c) := by
  unfold neutral
  split
  next => decide
  next valid => exact ⟨flat, printed, valid⟩

theorem neutral_eq_iff {c d : Char} (valid : d ∉ windowsInvalidComponentChars)
    (other : d ≠ invalidCharReplacement) : neutral c = d ↔ c = d := by
  unfold neutral
  split
  next listed =>
    constructor
    · exact fun same => absurd same.symm other
    · exact fun same => absurd (same ▸ listed) valid
  next => exact Iff.rfl

theorem neutral_eq_dot_iff (c : Char) : neutral c = '.' ↔ c = '.' := neutral_eq_iff (by decide) (by decide)

theorem neutral_eq_space_iff (c : Char) : neutral c = ' ' ↔ c = ' ' := neutral_eq_iff (by decide) (by decide)

theorem trimmedSegment_clean {name : String} {segment : List Char} (named : namedSegment name = some segment)
    (left : trimmedSegment segment ≠ []) : Clean (trimmedSegment segment) where
  nonempty := left
  plain c member := by
    obtain ⟨d, inside, rfl⟩ := List.mem_map.mp ((List.rdropWhile_prefix _ _).subset member)
    exact neutral_plain (namedSegment_plain named d inside).1 (namedSegment_plain named d inside).2
  ended := by
    have last := List.rdropWhile_last_not _ _ left
    rw [List.getLast?_eq_some_getLast left]
    simpa [trimmedSegment, trimWindowsTrailingDotsAndSpaces] using last

/-! ### Digits -/

/-- A digit is not touched by any rule, and takes one byte. -/
theorem digitChar_plain : ∀ digit < 16, PlainChar (Nat.digitChar digit) ∧ Nat.digitChar digit ≠ '.' ∧
    Nat.digitChar digit ≠ ' ' ∧ (Nat.digitChar digit).utf8Size = 1 := by
  intro digit small
  have all : (((List.range 16).map Nat.digitChar).all fun c =>
      PlainChar c ∧ c ≠ '.' ∧ c ≠ ' ' ∧ c.utf8Size = 1) = true := by decide
  have member := List.mem_map_of_mem (f := Nat.digitChar) (List.mem_range.mpr small)
  exact forall_of_all all _ member

/-! ### The suffix and the cap -/

theorem suffixed_clean {candidate : List Char} (clean : Clean candidate) : Clean (suffixed candidate) := by
  unfold suffixed
  split
  next =>
    have plain : (reservedSafeSuffix.toList.all fun c => PlainChar c) = true := by decide
    refine Clean.append clean.plain ⟨by decide, fun c member => ?_, by decide⟩
    exact forall_of_all plain c member
  next => exact clean

/-- Behind an extension the suffix changes nothing about the stem. -/
theorem suffixed_reserved_iff {candidate : List Char} :
    isWindowsReserved (suffixed candidate) = true ↔ isWindowsReserved candidate = true ∧ '.' ∈ candidate := by
  unfold suffixed
  split
  next reserved =>
    by_cases dotted : '.' ∈ candidate
    · rw [isWindowsReserved_congr (stem_append_of_dotted dotted _)]
      exact iff_of_true reserved ⟨reserved, dotted⟩
    · have mark : '_' ∈ stem (candidate ++ reservedSafeSuffix.toList) := by
        rw [stem_append_of_plain dotted]
        exact List.mem_append_right _ (by decide)
      rw [unreserved_of_mem_stem (by decide) mark]
      simp [dotted]
  next unreserved => simp [unreserved]

theorem mem_hash8 {hash : UInt64} {c : Char} (member : c ∈ hash8 hash) :
    ∃ digit < 16, c = Nat.digitChar digit := by
  rcases List.mem_append.mp member with filled | written
  · exact ⟨0, by decide, List.eq_of_mem_replicate filled⟩
  · exact Text.mem_lowerHex written

theorem hash8_length (hash : UInt64) : 8 ≤ (hash8 hash).length ∧ (hash8 hash).length ≤ 16 := by
  have fits := (Text.length_lowerHex_le_iff (n := hash.toNat) (k := 16) (by decide)).mpr hash.toNat_lt
  simp only [hash8, List.length_append, List.length_replicate]
  omega

theorem utf8Len_hash8 (hash : UInt64) : Text.utf8Len (hash8 hash) = (hash8 hash).length := by
  refine Text.utf8Len_eq_length fun c member => ?_
  obtain ⟨digit, small, rfl⟩ := mem_hash8 member
  exact (digitChar_plain digit small).2.2.2

theorem cap_clean (hash : UInt64) : Clean ('-' :: hash8 hash) where
  nonempty := List.cons_ne_nil _ _
  plain c member := by
    rcases List.mem_cons.mp member with rfl | inside
    · decide
    · obtain ⟨digit, small, rfl⟩ := mem_hash8 inside
      exact (digitChar_plain digit small).1
  ended := by
    have more : hash8 hash ≠ [] := List.ne_nil_of_length_pos (by have := hash8_length hash; omega)
    obtain ⟨digit, small, last⟩ := mem_hash8 (List.getLast_mem more)
    rw [List.getLast?_cons, List.getLast?_eq_some_getLast more, last]
    simp

theorem truncateOnCharBoundary_front (maxBytes : Nat) (text : List Char) :
    truncateOnCharBoundary maxBytes text <+: text := by
  induction text generalizing maxBytes with
  | nil => exact List.nil_prefix
  | cons c rest ih =>
    rw [truncateOnCharBoundary]
    split
    next => exact List.cons_prefix_cons.mpr ⟨rfl, ih _⟩
    next => exact List.nil_prefix

theorem utf8Len_truncateOnCharBoundary_le (maxBytes : Nat) (text : List Char) :
    Text.utf8Len (truncateOnCharBoundary maxBytes text) ≤ maxBytes := by
  induction text generalizing maxBytes with
  | nil => exact Nat.zero_le _
  | cons c rest ih =>
    rw [truncateOnCharBoundary]
    split
    next fits =>
      have behind := ih (maxBytes - c.utf8Size)
      rw [Text.utf8Len_cons]
      omega
    next => exact Nat.zero_le _

theorem truncateOnCharBoundary_append {maxBytes : Nat} {front : List Char}
    (fits : Text.utf8Len front ≤ maxBytes) (rest : List Char) :
    truncateOnCharBoundary maxBytes (front ++ rest) =
      front ++ truncateOnCharBoundary (maxBytes - Text.utf8Len front) rest := by
  induction front generalizing maxBytes with
  | nil => rfl
  | cons c front ih =>
    rw [Text.utf8Len_cons] at fits ⊢
    rw [List.cons_append, truncateOnCharBoundary, if_pos (by omega), ih (by omega), List.cons_append,
      Nat.sub_sub]

theorem capped_clean {candidate : List Char} (hash : String → UInt64) (clean : Clean candidate) :
    Clean (capped hash candidate) := by
  unfold capped
  split
  next => exact clean
  next =>
    refine Clean.append (fun c member => clean.plain c ?_) (cap_clean _)
    exact (truncateOnCharBoundary_front _ _).subset member

theorem utf8Len_capped_le (hash : String → UInt64) (candidate : List Char) :
    Text.utf8Len (capped hash candidate) ≤ maxFilenameLen := by
  unfold capped
  split
  next short => exact short
  next =>
    have kept := utf8Len_truncateOnCharBoundary_le
      (maxFilenameLen - 1 - (hash8 (hash (String.ofList candidate))).length) candidate
    have fits := (hash8_length (hash (String.ofList candidate))).2
    have dash : Text.utf8Len ('-' :: hash8 (hash (String.ofList candidate))) =
        1 + (hash8 (hash (String.ofList candidate))).length := by
      rw [Text.utf8Len_cons, utf8Len_hash8]
      rfl
    rw [Text.utf8Len_append, dash]
    unfold maxFilenameLen at *
    omega

/-- The stem of a device name is too short to be cut, and no cut makes a device name. -/
theorem capped_reserved (hash : String → UInt64) (candidate : List Char) :
    isWindowsReserved (capped hash candidate) = isWindowsReserved candidate := by
  unfold capped
  split
  next => rfl
  next long =>
    extract_lets digits
    have fits : digits.length ≤ 16 := (hash8_length (hash (String.ofList candidate))).2
    by_cases dotted : '.' ∈ truncateOnCharBoundary (maxFilenameLen - 1 - digits.length) candidate
    · obtain ⟨rest, whole⟩ := truncateOnCharBoundary_front (maxFilenameLen - 1 - digits.length) candidate
      have same := stem_append_of_dotted dotted rest
      rw [whole] at same
      exact isWindowsReserved_congr ((stem_append_of_dotted dotted _).trans same.symm)
    · have dash : '-' ∈
          stem (truncateOnCharBoundary (maxFilenameLen - 1 - digits.length) candidate ++ '-' :: digits) := by
        rw [stem_append_of_plain dotted]
        exact List.mem_append_right _ (by simp [stem])
      rw [unreserved_of_mem_stem (by decide) dash]
      -- a device name has at most sixteen bytes before its dot, and the cut is behind that
      refine (Bool.eq_false_iff.mpr fun reserved => ?_).symm
      have short : Text.utf8Len (stem candidate) ≤ 4 * 4 :=
        (Text.utf8Len_le_four_mul _).trans (Nat.mul_le_mul_left 4 (length_stem_le reserved))
      by_cases inside : '.' ∈ candidate
      · obtain ⟨before, after, whole, first⟩ := List.eq_append_cons_of_mem inside
        rw [List.append_cons] at whole
        have before_stem : stem candidate = before := by
          rw [whole, List.append_assoc, stem_append_of_plain first]
          simp [stem]
        have room : Text.utf8Len (before ++ ['.']) ≤ maxFilenameLen - 1 - digits.length := by
          have dot : Text.utf8Len ['.'] = 1 := by decide
          rw [Text.utf8Len_append, dot, ← before_stem]
          unfold maxFilenameLen
          omega
        apply dotted
        rw [whole, truncateOnCharBoundary_append room]
        simp
      · rw [stem_of_plain inside] at short
        unfold maxFilenameLen at long
        omega

/-! ### Reserved stems with an extension -/

/-- The stem is a device name, and behind the dot after it there are more than dots and spaces. -/
structure ReservedWithExtension (segment : List Char) : Prop where
  reserved : isWindowsReserved segment = true
  extension : ∃ c ∈ segment.dropWhile (· ≠ '.'), c ≠ '.' ∧ c ≠ ' '

theorem neutralizeWindowsInvalidChars_eq (name : List Char) :
    neutralizeWindowsInvalidChars name = name.map neutral := rfl

theorem not_dot_neutral : (fun c => decide (c ≠ '.')) ∘ neutral = fun c => decide (c ≠ '.') := by
  funext c
  simp [neutral_eq_dot_iff]

theorem stem_neutralized (segment : List Char) :
    stem (neutralizeWindowsInvalidChars segment) = (stem segment).map neutral := by
  rw [stem, neutralizeWindowsInvalidChars_eq, List.takeWhile_map, not_dot_neutral, ← stem]

theorem neutralized_reserved (segment : List Char) :
    isWindowsReserved (neutralizeWindowsInvalidChars segment) = isWindowsReserved segment := by
  by_cases valid : ∀ c ∈ stem segment, c ∉ windowsInvalidComponentChars
  · apply isWindowsReserved_congr
    have kept : ∀ c ∈ stem segment, neutral c = c := fun c inside => if_neg (valid c inside)
    rw [stem_neutralized, List.map_congr_left kept]
    exact List.map_id _
  · push Not at valid
    obtain ⟨c, inside, listed⟩ := valid
    have mark : '_' ∈ stem (neutralizeWindowsInvalidChars segment) := by
      rw [stem_neutralized]
      exact List.mem_map.mpr ⟨c, inside, if_pos listed⟩
    have all : (windowsInvalidComponentChars.all fun d => d.toUpper ∉ deviceChars) = true := by decide
    have other := forall_of_all all c listed
    rw [unreserved_of_mem_stem (by decide) mark, unreserved_of_mem_stem other inside]

/-- What is trimmed off is dots and spaces. -/
theorem trim_split (text : List Char) :
    ∃ tail, text = trimWindowsTrailingDotsAndSpaces text ++ tail ∧ ∀ c ∈ tail, c = '.' ∨ c = ' ' := by
  refine ⟨text.rtakeWhile fun c => c = '.' || c = ' ', List.rdropWhile_append_rtakeWhile.symm, ?_⟩
  intro c member
  simpa using List.mem_rtakeWhile_imp member

theorem stem_trimmed {text : List Char} (dotted : '.' ∈ trimWindowsTrailingDotsAndSpaces text) :
    stem (trimWindowsTrailingDotsAndSpaces text) = stem text := by
  obtain ⟨tail, whole, -⟩ := trim_split text
  have same := stem_append_of_dotted dotted tail
  rw [← whole] at same
  exact same.symm

theorem last_trimmed {text : List Char} {c : Char}
    (last : (trimWindowsTrailingDotsAndSpaces text).getLast? = some c) : c ≠ '.' ∧ c ≠ ' ' := by
  have more : trimWindowsTrailingDotsAndSpaces text ≠ [] := by
    intro empty
    rw [empty] at last
    cases last
  have kept := List.rdropWhile_last_not _ _ more
  rw [List.getLast?_eq_some_getLast more, Option.some.injEq] at last
  simpa [trimWindowsTrailingDotsAndSpaces, ← last] using kept

theorem dotted_trimmed_iff (text : List Char) :
    '.' ∈ trimWindowsTrailingDotsAndSpaces text ↔ ∃ c ∈ text.dropWhile (· ≠ '.'), c ≠ '.' ∧ c ≠ ' ' := by
  obtain ⟨tail, whole, thin⟩ := trim_split text
  constructor
  · intro dotted
    obtain ⟨before, after, cut, first⟩ := List.eq_append_cons_of_mem dotted
    have behind : text.dropWhile (· ≠ '.') = '.' :: after ++ tail := by
      have skipped : ∀ c ∈ before, decide (c ≠ '.') = true := fun c member =>
        decide_eq_true fun dot => first (dot ▸ member)
      rw [whole, cut, List.append_assoc, List.dropWhile_append_of_pos skipped]
      simp
    have last : (trimWindowsTrailingDotsAndSpaces text).getLast? = ('.' :: after).getLast? := by
      rw [cut, List.getLast?_append_of_ne_nil _ (List.cons_ne_nil _ _)]
    rw [List.getLast?_eq_some_getLast (List.cons_ne_nil _ _)] at last
    refine ⟨_, ?_, last_trimmed last⟩
    rw [behind]
    exact List.mem_append_left _ (List.getLast_mem _)
  · rintro ⟨c, behind, other⟩
    by_contra absent
    have skipped : ∀ c ∈ trimWindowsTrailingDotsAndSpaces text, decide (c ≠ '.') = true := fun c member =>
      decide_eq_true fun dot => absent (dot ▸ member)
    rw [whole, List.dropWhile_append_of_pos skipped] at behind
    rcases thin c ((List.dropWhile_suffix _).subset behind) with dot | space
    · exact other.1 dot
    · exact other.2 space

theorem trimmedSegment_reserved_iff (segment : List Char) :
    isWindowsReserved (trimmedSegment segment) = true ∧ '.' ∈ trimmedSegment segment ↔
      ReservedWithExtension segment := by
  have extension : '.' ∈ trimmedSegment segment ↔ ∃ c ∈ segment.dropWhile (· ≠ '.'), c ≠ '.' ∧ c ≠ ' ' := by
    rw [trimmedSegment, dotted_trimmed_iff, neutralizeWindowsInvalidChars_eq, List.dropWhile_map,
      not_dot_neutral]
    simp only [List.mem_map, exists_exists_and_eq_and, ne_eq, neutral_eq_dot_iff, neutral_eq_space_iff]
  have reserved (dotted : '.' ∈ trimmedSegment segment) :
      isWindowsReserved (trimmedSegment segment) = isWindowsReserved segment :=
    (isWindowsReserved_congr (stem_trimmed dotted)).trans (neutralized_reserved segment)
  constructor
  · exact fun ⟨device, dotted⟩ => ⟨(reserved dotted).symm.trans device, extension.mp dotted⟩
  · intro both
    have dotted := extension.mpr both.extension
    exact ⟨(reserved dotted).trans both.reserved, dotted⟩

/-! ### The result -/

/-- The sanitizer leaves the stem of the name a device name. -/
def KeepsDevice (name : String) : Prop :=
  ∃ segment, namedSegment name = some segment ∧ ReservedWithExtension segment

theorem sanitized_clean {hash : String → UInt64} {name result : String}
    (sanitized : sanitizeFilenameComponent hash name = some result) :
    Clean result.toList ∧ Text.utf8Len result.toList ≤ maxFilenameLen := by
  obtain ⟨segment, named, left, cut⟩ := sanitizeFilenameComponent_eq_some_iff.mp sanitized
  rw [← cut]
  exact ⟨capped_clean hash (suffixed_clean (trimmedSegment_clean named left)), utf8Len_capped_le hash _⟩

/-- What the sanitizer returns is safe, unless the stem was a device name with an extension. -/
theorem sanitized_safeName_iff {hash : String → UInt64} {name result : String}
    (sanitized : sanitizeFilenameComponent hash name = some result) :
    SafeName result.toList ↔ ¬ KeepsDevice name := by
  obtain ⟨clean, short⟩ := sanitized_clean sanitized
  obtain ⟨segment, named, left, cut⟩ := sanitizeFilenameComponent_eq_some_iff.mp sanitized
  have reserved : isWindowsReserved result.toList = true ↔ KeepsDevice name := by
    rw [← cut, capped_reserved, suffixed_reserved_iff, trimmedSegment_reserved_iff, KeepsDevice, named]
    simp only [Option.some.injEq, exists_eq_left']
  rw [← reserved, Bool.not_eq_true]
  exact ⟨fun safe => safe.unreserved, fun unreserved => ⟨clean, unreserved, short⟩⟩

theorem sanitized_of_keepsDevice {name : String} (device : KeepsDevice name) (hash : String → UInt64) :
    ∃ result, sanitizeFilenameComponent hash name = some result := by
  obtain ⟨segment, named, reserved⟩ := device
  have dotted := (trimmedSegment_reserved_iff segment).mpr reserved |>.2
  refine ⟨String.ofList (capped hash (suffixed (trimmedSegment segment))), ?_⟩
  exact sanitizeFilenameComponent_eq_some_iff.mpr
    ⟨segment, named, List.ne_nil_of_mem dotted, String.toList_ofList.symm⟩

/-! ### The name of a page -/

/-- Something other than dots and spaces is left of the name. -/
def LeavesName (name : String) : Prop :=
  ∃ segment, namedSegment name = some segment ∧ ∃ c ∈ segment, c ≠ '.' ∧ c ≠ ' '

theorem trimmedSegment_ne_nil_iff (segment : List Char) :
    trimmedSegment segment ≠ [] ↔ ∃ c ∈ segment, c ≠ '.' ∧ c ≠ ' ' := by
  rw [trimmedSegment, trimWindowsTrailingDotsAndSpaces, Ne, List.rdropWhile_eq_nil_iff,
    neutralizeWindowsInvalidChars_eq]
  simp [neutral_eq_dot_iff, neutral_eq_space_iff]

theorem sanitizes_iff {hash : String → UInt64} {name : String} :
    (∃ result, sanitizeFilenameComponent hash name = some result) ↔ LeavesName name := by
  simp only [sanitizeFilenameComponent_eq_some_iff, trimmedSegment_ne_nil_iff]
  constructor
  · exact fun ⟨_, segment, named, left, _⟩ => ⟨segment, named, left⟩
  · exact fun ⟨segment, named, left⟩ => ⟨String.ofList _, segment, named, left, String.toList_ofList.symm⟩

theorem sanitizeFilenameComponent_eq_none_iff {hash : String → UInt64} {name : String} :
    sanitizeFilenameComponent hash name = none ↔ ¬ LeavesName name := by
  have sanitizes : (∃ result, sanitizeFilenameComponent hash name = some result) ↔ LeavesName name := sanitizes_iff
  rw [← sanitizes, Option.eq_none_iff_forall_ne_some]
  push Not
  exact Iff.rfl

/-- The last segment of the path, up to a question mark in it. -/
def pathName (url : Url) : String := String.ofList ((basename url.path).toList.takeWhile (· ≠ '?'))

theorem serverName_eq (hash : String → UInt64) (contentDisposition : Option String) (url : Url) :
    serverName hash contentDisposition url =
      ((contentDisposition.bind parseContentDisposition).bind (sanitizeFilenameComponent hash)).or
        (sanitizeFilenameComponent hash (pathName url)) := by
  have empty : sanitizeFilenameComponent hash "" = none := rfl
  unfold serverName pathName
  cases (contentDisposition.bind parseContentDisposition).bind (sanitizeFilenameComponent hash) with
  | some name => rfl
  | none =>
    by_cases unnamed : basename url.path = ""
    · simp [unnamed, empty]
    · simp [unnamed]

/-! ### The synthesised name -/

theorem extension_plain : ∀ extension ∈ extensions, (∀ c ∈ extension.toList, PlainChar c ∧ c.utf8Size = 1) ∧
    extension.toList ≠ [] ∧ extension.toList.getLast? ≠ some '.' ∧ extension.toList.getLast? ≠ some ' ' := by
  intro extension listed
  have plain : (extensions.all fun extension => extension.toList.all fun c => PlainChar c ∧ c.utf8Size = 1) =
      true := by decide
  have ended : (extensions.all fun extension => extension.toList ≠ [] ∧ extension.toList.getLast? ≠ some '.' ∧
      extension.toList.getLast? ≠ some ' ') = true := by decide
  refine ⟨fun c member => ?_, of_decide_eq_true (List.all_eq_true.mp ended extension listed)⟩
  exact of_decide_eq_true (List.all_eq_true.mp (List.all_eq_true.mp plain extension listed) c member)

theorem extension_short : ∀ extension ∈ extensions, extension.toList.length ≤ 4 := by decide

/-- The part of the host that fits in front of the hash and the extension. -/
def keptHost (url : Url) (contentType : String) : List Char :=
  truncateOnCharBoundary (maxFilenameLen - (10 + (extensionOf contentType).toList.length))
    (url.hostStr.getD "unknown").toList

theorem fallbackName_eq_none_iff {hash : String → UInt64} {url : Url} {contentType : String} :
    fallbackName hash url contentType = none ↔ (hash url.path).toNat < 2 ^ 28 := by
  have digits := Text.length_lowerHex_le_iff (n := (hash url.path).toNat) (k := 7) (by decide)
  unfold fallbackName
  dsimp only
  split <;> simp <;> omega

/-- Dots of the host become underscores. -/
def undotted (c : Char) : Char := if c = '.' then '_' else c

theorem undotted_ne_dot (c : Char) : undotted c ≠ '.' := by
  unfold undotted
  split
  next => decide
  next other => exact other

theorem undotted_plain_iff (c : Char) : PlainChar (undotted c) ↔ PlainChar c := by
  unfold undotted
  split
  next dot => exact iff_of_true (by decide) (dot ▸ by decide)
  next => exact Iff.rfl

theorem utf8Size_undotted (c : Char) : (undotted c).utf8Size = c.utf8Size := by
  unfold undotted
  split
  next dot =>
    rw [dot]
    decide
  next => rfl

theorem truncateOnCharBoundary_undotted (maxBytes : Nat) (text : List Char) :
    truncateOnCharBoundary maxBytes (text.map undotted) =
      (truncateOnCharBoundary maxBytes text).map undotted := by
  induction text generalizing maxBytes with
  | nil => rfl
  | cons c rest ih =>
    rw [List.map_cons, truncateOnCharBoundary, truncateOnCharBoundary, utf8Size_undotted, ih]
    split <;> rfl

theorem fallbackName_eq_some {hash : String → UInt64} {url : Url} {contentType : String}
    (enough : 2 ^ 28 ≤ (hash url.path).toNat) :
    fallbackName hash url contentType = some
      ⟨(keptHost url contentType).map undotted, (Text.lowerHex (hash url.path).toNat).take 8,
        (extensionOf contentType).toList⟩ := by
  have digits := Text.length_lowerHex_le_iff (n := (hash url.path).toNat) (k := 7) (by decide)
  have eight : ((Text.lowerHex (hash url.path).toNat).take 8).length = 8 := by
    rw [List.length_take]
    omega
  have long : ¬ (Text.lowerHex (hash url.path).toNat).length < 8 := by omega
  unfold fallbackName keptHost
  dsimp only
  rw [if_neg long, ← truncateOnCharBoundary_undotted, eight, Nat.add_right_comm]
  rfl

theorem fallback_safeName_iff {host digits extension : List Char} (undotted : '.' ∉ host)
    (written : ∀ c ∈ digits, ∃ digit < 16, c = Nat.digitChar digit)
    (listed : String.ofList extension ∈ extensions)
    (room : Text.utf8Len host + (2 + digits.length + extension.length) ≤ maxFilenameLen) :
    SafeName (FallbackName.filename ⟨host, digits, extension⟩).toList ↔ ∀ c ∈ host, PlainChar c := by
  obtain ⟨plain, some_extension, ended⟩ := extension_plain _ listed
  rw [String.toList_ofList] at plain some_extension ended
  rw [FallbackName.filename, String.toList_ofList]
  dsimp only
  constructor
  · exact fun safe c member => safe.plain c (List.mem_append_left _ (List.mem_append_left _ member))
  intro plain_host
  have clean : Clean (host ++ '_' :: digits ++ '.' :: extension) := by
    refine Clean.append (fun c member => ?_) ⟨List.cons_ne_nil _ _, fun c member => ?_, ?_⟩
    · rcases List.mem_append.mp member with inside | behind
      · exact plain_host c inside
      · rcases List.mem_cons.mp behind with rfl | digit
        · decide
        · obtain ⟨value, small, rfl⟩ := written c digit
          exact (digitChar_plain value small).1
    · rcases List.mem_cons.mp member with rfl | inside
      · decide
      · exact (plain c inside).1
    · rw [List.getLast?_cons, List.getLast?_eq_some_getLast some_extension, Option.getD_some]
      rwa [List.getLast?_eq_some_getLast some_extension] at ended
  have mark : '_' ∈ stem (host ++ '_' :: digits ++ '.' :: extension) := by
    rw [List.append_assoc, stem_append_of_plain undotted]
    exact List.mem_append_right _ (by simp [stem])
  refine ⟨clean, unreserved_of_mem_stem (by decide) mark, ?_⟩
  have digits_length : Text.utf8Len digits = digits.length := by
    refine Text.utf8Len_eq_length fun c member => ?_
    obtain ⟨value, small, rfl⟩ := written c member
    exact (digitChar_plain value small).2.2.2
  have extension_length : Text.utf8Len extension = extension.length :=
    Text.utf8Len_eq_length fun c member => (plain c member).2
  have one : ('_').utf8Size = 1 ∧ ('.').utf8Size = 1 := by decide
  rw [Text.utf8Len_append, Text.utf8Len_append, Text.utf8Len_cons, Text.utf8Len_cons, digits_length,
    extension_length, one.1, one.2]
  omega

/-- A safe name comes out, and the sanitizer leaves it as it is. -/
def DerivedSafely (hash : String → UInt64) (contentDisposition : Option String) (url : Url)
    (contentType : String) : Prop :=
  ∃ name, deriveFilenameFromContentDisposition hash contentDisposition url contentType = some name ∧
    SafeName name.toList ∧ sanitizeFilenameComponent hash name = some name

def HeaderNames (contentDisposition : Option String) : Prop :=
  ∃ name, contentDisposition.bind parseContentDisposition = some name ∧ LeavesName name

/-- Wherever the name comes from, it is no device name with an extension, and one that is synthesised
has a hash of eight digits or more and a host that can stand in a file name. -/
structure SafeSource (hash : String → UInt64) (contentDisposition : Option String) (url : Url)
    (contentType : String) : Prop where
  header : ∀ name, contentDisposition.bind parseContentDisposition = some name → ¬ KeepsDevice name
  path : ¬ HeaderNames contentDisposition → ¬ KeepsDevice (pathName url)
  synthesised : ¬ HeaderNames contentDisposition → ¬ LeavesName (pathName url) →
    2 ^ 28 ≤ (hash url.path).toNat ∧ ∀ c ∈ keptHost url contentType, PlainChar c

theorem leavesName_of_keepsDevice {name : String} (device : KeepsDevice name) : LeavesName name :=
  sanitizes_iff.mp (sanitized_of_keepsDevice device fun _ => 0)

section Derived

variable {hash : String → UInt64} {contentDisposition : Option String} {url : Url} {contentType name : String}

theorem derivedSafely_of_derived
    (derived : deriveFilenameFromContentDisposition hash contentDisposition url contentType = some name) :
    DerivedSafely hash contentDisposition url contentType ↔ SafeName name.toList := by
  constructor
  · rintro ⟨other, derived', safe, -⟩
    cases derived.symm.trans derived'
    exact safe
  · exact fun safe => ⟨name, derived, safe, safe.sanitized hash⟩

theorem derived_of_header {given : String}
    (header : contentDisposition.bind parseContentDisposition = some given)
    (sanitized : sanitizeFilenameComponent hash given = some name) :
    deriveFilenameFromContentDisposition hash contentDisposition url contentType = some name := by
  rw [deriveFilenameFromContentDisposition, serverName_eq, header, Option.bind_some, sanitized,
    Option.some_or]

theorem header_silent (unnamed : ¬ HeaderNames contentDisposition) :
    (contentDisposition.bind parseContentDisposition).bind (sanitizeFilenameComponent hash) = none := by
  cases header : contentDisposition.bind parseContentDisposition with
  | none => rfl
  | some given =>
    rw [Option.bind_some, sanitizeFilenameComponent_eq_none_iff]
    exact fun left => unnamed ⟨given, header, left⟩

theorem derived_of_path (unnamed : ¬ HeaderNames contentDisposition)
    (sanitized : sanitizeFilenameComponent hash (pathName url) = some name) :
    deriveFilenameFromContentDisposition hash contentDisposition url contentType = some name := by
  rw [deriveFilenameFromContentDisposition, serverName_eq, header_silent unnamed, Option.none_or, sanitized]

theorem derived_of_fallback (unnamed : ¬ HeaderNames contentDisposition)
    (bare : ¬ LeavesName (pathName url)) :
    deriveFilenameFromContentDisposition hash contentDisposition url contentType =
      (fallbackName hash url contentType).map FallbackName.filename := by
  rw [deriveFilenameFromContentDisposition, serverName_eq, header_silent unnamed, Option.none_or,
    sanitizeFilenameComponent_eq_none_iff.mpr bare]

theorem derivedSafely_of_fallback (unnamed : ¬ HeaderNames contentDisposition)
    (bare : ¬ LeavesName (pathName url)) :
    DerivedSafely hash contentDisposition url contentType ↔
      2 ^ 28 ≤ (hash url.path).toNat ∧ ∀ c ∈ keptHost url contentType, PlainChar c := by
  have derived : deriveFilenameFromContentDisposition hash contentDisposition url contentType =
      (fallbackName hash url contentType).map FallbackName.filename := derived_of_fallback unnamed bare
  by_cases enough : 2 ^ 28 ≤ (hash url.path).toNat
  · rw [fallbackName_eq_some enough, Option.map_some] at derived
    rw [derivedSafely_of_derived derived, fallback_safeName_iff, and_iff_right enough]
    · simp only [List.mem_map, forall_exists_index, and_imp, forall_apply_eq_imp_iff₂, undotted_plain_iff]
    · exact fun dot => by simpa [undotted_ne_dot] using List.mem_map.mp dot
    · exact fun c member => Text.mem_lowerHex (List.mem_of_mem_take member)
    · rw [String.ofList_toList]
      exact extensionOf_mem contentType
    · have kept := utf8Len_truncateOnCharBoundary_le
        (maxFilenameLen - (10 + (extensionOf contentType).toList.length))
        ((url.hostStr.getD "unknown").toList.map undotted)
      rw [truncateOnCharBoundary_undotted] at kept
      have eight := List.length_take_le 8 (Text.lowerHex (hash url.path).toNat)
      have short := extension_short _ (extensionOf_mem contentType)
      unfold keptHost maxFilenameLen at *
      omega
  · have panics : fallbackName hash url contentType = none :=
      fallbackName_eq_none_iff.mpr (Nat.lt_of_not_le enough)
    rw [panics, Option.map_none] at derived
    refine iff_of_false ?_ fun both => enough both.1
    rintro ⟨name, derived', -⟩
    cases derived.symm.trans derived'

end Derived

/-- What is derived is safe exactly where the source of the name is. -/
theorem derivedSafely_iff (hash : String → UInt64) (contentDisposition : Option String) (url : Url)
    (contentType : String) :
    DerivedSafely hash contentDisposition url contentType ↔
      SafeSource hash contentDisposition url contentType := by
  by_cases named : HeaderNames contentDisposition
  · obtain ⟨given, header, left⟩ := named
    obtain ⟨name, sanitized⟩ := sanitizes_iff.mpr left
    rw [derivedSafely_of_derived (derived_of_header header sanitized), sanitized_safeName_iff sanitized]
    constructor
    · intro other
      refine ⟨fun name header' => ?_, fun unnamed => absurd ⟨given, header, left⟩ unnamed,
        fun unnamed => absurd ⟨given, header, left⟩ unnamed⟩
      cases header.symm.trans header'
      exact other
    · exact fun source => source.header given header
  have header : ∀ name, contentDisposition.bind parseContentDisposition = some name → ¬ KeepsDevice name :=
    fun name header device => named ⟨name, header, leavesName_of_keepsDevice device⟩
  by_cases left : LeavesName (pathName url)
  · obtain ⟨name, sanitized⟩ := sanitizes_iff.mpr left
    rw [derivedSafely_of_derived (derived_of_path named sanitized), sanitized_safeName_iff sanitized]
    constructor
    · exact fun other => ⟨header, fun _ => other, fun _ bare => absurd left bare⟩
    · exact fun source => source.path named
  · rw [derivedSafely_of_fallback named left]
    constructor
    · exact fun both => ⟨header, fun _ device => left (leavesName_of_keepsDevice device), fun _ _ => both⟩
    · exact fun source => source.synthesised named left

/-- The host of an IPv6 address has colons, and no step replaces them. -/
theorem ipv6_host_kept :
    ¬ ∀ (hash : String → UInt64) (contentDisposition : Option String) (url : Url) (contentType : String),
      DerivedSafely hash contentDisposition url contentType := by
  intro all
  obtain ⟨name, derived, safe, -⟩ :=
    all (fun _ => 0xdb8a6c1f00d2e4b7) none ⟨"http://[::1]/", "/", some "[::1]"⟩ "text/html"
  have kept : deriveFilenameFromContentDisposition (fun _ => 0xdb8a6c1f00d2e4b7) none
      ⟨"http://[::1]/", "/", some "[::1]"⟩ "text/html" = some "[::1]_db8a6c1f.bin" := by decide
  cases kept.symm.trans derived
  exact (safe.plain ':' (by decide)).windows (by decide)

end Webfang.Domain.Filename
