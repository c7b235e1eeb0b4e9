import Mathlib.Algebra.Order.Ring.Int
import Mathlib.Data.List.DropRight
import Mathlib.Data.List.Infix

/-!
# Text operations

The string operations of the Rust standard library that the model needs, over the
list of characters so that they evaluate; ASCII letter case; and lists trimmed at their ends.
-/
namespace Library.Text

/-- The Unicode `White_Space` property, as `char::is_whitespace` tests it. -/
def isWhitespace (c : Char) : Bool :=
  let n := c.toNat
  (0x09 ≤ n && n ≤ 0x0D) || n == 0x20 || n == 0x85 || n == 0xA0 || n == 0x1680 ||
    (0x2000 ≤ n && n ≤ 0x200A) || n == 0x2028 || n == 0x2029 || n == 0x202F ||
    n == 0x205F || n == 0x3000

/-- `s.trim().is_empty()`: nothing is left exactly when every character is white space. -/
def isBlank (s : String) : Bool := s.toList.all isWhitespace

/-- `s.contains(pattern)`. -/
def contains (s pattern : String) : Bool := decide (pattern.toList <:+: s.toList)

/-- `s.strip_suffix(suffix)`. -/
def stripSuffix (s suffix : String) : Option String :=
  if suffix.toList.isSuffixOf s.toList then
    some (String.ofList (s.toList.take (s.toList.length - suffix.toList.length)))
  else none

/-- `s.strip_prefix(front)`. -/
def stripPrefix (s front : String) : Option String :=
  if front.toList.isPrefixOf s.toList then some (String.ofList (s.toList.drop front.toList.length))
  else none

/-- `s.trim_matches(c)`. -/
def trimMatches (s : String) (c : Char) : String :=
  String.ofList ((s.toList.dropWhile (· == c)).rdropWhile (· == c))

/-- `s.to_ascii_lowercase()`. -/
def toAsciiLowercase (s : String) : String := String.ofList (s.toList.map Char.toLower)

/-- `s.to_ascii_uppercase()`. -/
def toAsciiUppercase (s : String) : String := String.ofList (s.toList.map Char.toUpper)

/-- `char::is_control`: the Unicode category `Cc`. -/
def isControl (c : Char) : Bool := c.toNat < 0x20 || (0x7F ≤ c.toNat && c.toNat < 0xA0)

/-- `s.len()`, of the string with these characters. -/
def utf8Len (chars : List Char) : Nat := (chars.map Char.utf8Size).sum

/-- `format!("{n:x}")`. -/
def lowerHex (n : Nat) : List Char := Nat.toDigits 16 n

/-- `s.pop()`, keeping the string. -/
def dropLastChar (s : String) : String := String.ofList s.toList.dropLast

/-- `s.trim()`. -/
def trim (s : String) : String :=
  String.ofList ((s.toList.dropWhile isWhitespace).rdropWhile isWhitespace)

/-- `s.split_whitespace()`: the maximal runs without white space. -/
def splitWhitespace (s : String) : List String :=
  ((s.toList.splitOnP isWhitespace).filter fun word => !word.isEmpty).map String.ofList

/-- `s.parse::<usize>()`: decimal digits after an optional plus sign, on 64 bits. -/
def parseUsize (s : String) : Option Nat :=
  let digits := match s.toList with
    | '+' :: rest => rest
    | all => all
  if digits = [] || digits.any (fun c => !c.isDigit) then none
  else
    let value := Nat.ofDigitChars 10 digits 0
    if value < 2 ^ 64 then some value else none

/-- `s.split_once(delimiter)`. -/
def splitOnce (s : String) (delimiter : Char) : Option (String × String) :=
  let front := s.toList.takeWhile (· ≠ delimiter)
  match s.toList.drop front.length with
  | [] => none
  | _ :: back => some (String.ofList front, String.ofList back)

/-- What stands before and after the first occurrence of `pattern`. -/
def splitFirst (pattern : List Char) : List Char → Option (List Char × List Char)
  | [] => if pattern = [] then some ([], []) else none
  | c :: rest =>
    if pattern.isPrefixOf (c :: rest) then some ([], (c :: rest).drop pattern.length)
    else (splitFirst pattern rest).map fun (front, back) => (c :: front, back)

/-- `format!("{n:>width$}")`. -/
def padLeft (width : Nat) (s : String) : String :=
  String.ofList (List.replicate (width - s.toList.length) ' ' ++ s.toList)

/-- `s.trim_start_matches(pattern)`, for a pattern that is not empty; the first argument bounds how
often it is taken off. -/
def trimStart (pattern : List Char) : Nat → List Char → List Char
  | 0, text => text
  | fuel + 1, text =>
    if pattern.isPrefixOf text then trimStart pattern fuel (text.drop pattern.length) else text

def trimStartMatches (text pattern : List Char) : List Char := trimStart pattern text.length text

theorem splitFirst_append {pattern text front back : List Char} (split : splitFirst pattern text = some (front, back)) :
    front ++ pattern ++ back = text := by
  induction text generalizing front with
  | nil =>
    rw [splitFirst] at split
    split at split
    next empty =>
      cases split
      rw [empty]
      rfl
    next => cases split
  | cons c rest ih =>
    rw [splitFirst] at split
    split at split
    next opens =>
      cases split
      obtain ⟨behind, whole⟩ := List.isPrefixOf_iff_prefix.mp opens
      rw [← whole, List.drop_left, List.nil_append]
    next =>
      rw [Option.map_eq_some_iff] at split
      obtain ⟨⟨front', back'⟩, later, same⟩ := split
      cases same
      rw [List.cons_append, List.cons_append, ih later]

theorem splitFirst_absent {pattern text front back : List Char} (nonempty : pattern ≠ [])
    (split : splitFirst pattern text = some (front, back)) : ¬ pattern <:+: front := by
  induction text generalizing front with
  | nil =>
    rw [splitFirst, if_neg nonempty] at split
    cases split
  | cons c rest ih =>
    have whole := splitFirst_append split
    rw [splitFirst] at split
    split at split
    next =>
      cases split
      exact fun occurs => nonempty (List.infix_nil.mp occurs)
    next shut =>
      rw [Option.map_eq_some_iff] at split
      obtain ⟨⟨front', back'⟩, later, same⟩ := split
      cases same
      intro occurs
      rcases List.infix_cons_iff.mp occurs with opens | inside
      · refine shut (List.isPrefixOf_iff_prefix.mpr (opens.trans ⟨pattern ++ back, ?_⟩))
        rw [← List.append_assoc, whole]
      · exact ih later inside

theorem trimStart_of_absent {pattern text : List Char} (absent : ¬ pattern <+: text) (fuel : Nat) :
    trimStart pattern fuel text = text := by
  cases fuel with
  | zero => rfl
  | succ fuel => rw [trimStart, if_neg (mt List.isPrefixOf_iff_prefix.mp absent)]

theorem trimStart_append (pattern rest : List Char) (fuel : Nat) :
    trimStart pattern (fuel + 1) (pattern ++ rest) = trimStart pattern fuel rest := by
  have here : pattern.isPrefixOf (pattern ++ rest) = true :=
    List.isPrefixOf_iff_prefix.mpr (List.prefix_append pattern rest)
  rw [trimStart, if_pos here, List.drop_left]

/-! ### Splitting -/

theorem not_delimiter_of_mem_splitOnP {α : Type} {p : α → Bool} {l part : List α} (member : part ∈ l.splitOnP p) :
    ∀ a ∈ part, p a = false := by
  induction l generalizing part with
  | nil =>
    rw [List.splitOnP_nil, List.mem_singleton] at member
    subst member
    nofun
  | cons a rest ih =>
    rw [List.splitOnP_cons_eq_if_modifyHead] at member
    split at member
    next =>
      rcases List.mem_cons.mp member with rfl | later
      · nofun
      · exact ih later
    next other =>
      cases parts : rest.splitOnP p with
      | nil => exact absurd parts (List.splitOnP_ne_nil p rest)
      | cons head tail =>
        rw [parts, List.modifyHead_cons] at member
        rcases List.mem_cons.mp member with rfl | later
        · exact List.forall_mem_cons.mpr ⟨Bool.eq_false_iff.mpr other, ih (parts ▸ List.mem_cons_self)⟩
        · exact ih (parts ▸ List.mem_cons_of_mem _ later)

theorem not_mem_of_mem_splitOn {α : Type} [BEq α] [LawfulBEq α] {delim : α} {l part : List α}
    (member : part ∈ l.splitOn delim) : delim ∉ part := fun inside =>
  absurd (not_delimiter_of_mem_splitOnP member delim inside) (by simp)

theorem sublist_of_mem_splitOnP {α : Type} {p : α → Bool} {l part : List α} (member : part ∈ l.splitOnP p) :
    part.Sublist l := by
  induction l generalizing part with
  | nil =>
    rw [List.splitOnP_nil, List.mem_singleton] at member
    exact member ▸ List.Sublist.refl []
  | cons first rest ih =>
    rw [List.splitOnP_cons_eq_if_modifyHead] at member
    split at member
    next =>
      rcases List.mem_cons.mp member with rfl | later
      · exact List.nil_sublist _
      · exact (ih later).cons first
    next =>
      cases parts : rest.splitOnP p with
      | nil => exact absurd parts (List.splitOnP_ne_nil p rest)
      | cons head tail =>
        rw [parts, List.modifyHead_cons] at member
        rcases List.mem_cons.mp member with rfl | later
        · exact (ih (parts ▸ List.mem_cons_self)).cons_cons first
        · exact (ih (parts ▸ List.mem_cons_of_mem _ later)).cons first

theorem splitOn_append {α : Type} [BEq α] [LawfulBEq α] {delim : α} (front : List α) {back first : List α}
    {rest : List (List α)} (split : back.splitOn delim = first :: rest) :
    ∃ parts last, front.splitOn delim = parts ++ [last] ∧
      (front ++ back).splitOn delim = parts ++ (last ++ first) :: rest := by
  induction front with
  | nil => exact ⟨[], [], rfl, split⟩
  | cons a front ih =>
    obtain ⟨parts, last, atFront, atWhole⟩ := ih
    rw [List.cons_append, List.splitOn_cons_eq_if_modifyHead, List.splitOn_cons_eq_if_modifyHead, atFront, atWhole]
    split
    next => exact ⟨[] :: parts, last, rfl, rfl⟩
    next =>
      cases parts with
      | nil => exact ⟨[], a :: last, rfl, rfl⟩
      | cons part parts => exact ⟨(a :: part) :: parts, last, rfl, rfl⟩

theorem intercalate_prefix {α : Type} (delim : α) (parts : List (List α)) (last more : List α)
    (rest : List (List α)) :
    [delim].intercalate (parts ++ [last]) <+: [delim].intercalate (parts ++ (last ++ more) :: rest) := by
  induction parts with
  | nil =>
    cases rest with
    | nil => simp
    | cons part rest => simp [List.intercalate_cons_cons]
  | cons part parts ih =>
    rw [List.cons_append, List.cons_append, List.intercalate_cons_of_ne_nil (by simp),
      List.intercalate_cons_of_ne_nil (by simp), List.append_assoc, List.append_assoc,
      List.prefix_append_right_inj, List.prefix_append_right_inj]
    exact ih

theorem getLast?_cons_or {α : Type} (a : α) (rest : List α) (before : Option α) :
    (a :: rest).getLast?.or before = rest.getLast?.or (some a) := by
  rw [List.getLast?_cons]
  cases rest.getLast? <;> rfl

theorem intercalate_append {α : Type} (delim front back : List α) (later : List (List α)) :
    delim.intercalate ((front ++ back) :: later) = front ++ delim.intercalate (back :: later) := by
  cases later with
  | nil => simp
  | cons next later =>
    rw [List.intercalate_cons_cons, List.intercalate_cons_cons]
    simp only [List.append_assoc]

theorem mem_intercalate_iff {α : Type} {a : α} (delim first : List α) (later : List (List α)) :
    a ∈ delim.intercalate (first :: later) ↔ a ∈ (first :: later).flatten ∨ later ≠ [] ∧ a ∈ delim := by
  induction later generalizing first with
  | nil => simp [List.intercalate, List.intersperse]
  | cons next later ih =>
    rw [List.intercalate_cons_cons, List.append_assoc, List.mem_append, List.mem_append, ih,
      List.flatten_cons (l := first), List.mem_append]
    simp only [ne_eq, reduceCtorEq, not_false_eq_true, true_and]
    tauto

theorem count_intercalate {α : Type} [BEq α] (a : α) (delim first : List α) (later : List (List α)) :
    (delim.intercalate (first :: later)).count a =
      (first :: later).flatten.count a + later.length * delim.count a := by
  induction later generalizing first with
  | nil => simp
  | cons next later ih =>
    rw [List.intercalate_cons_cons, List.count_append, List.count_append, ih, List.flatten_cons (l := first),
      List.count_append, List.length_cons, Nat.succ_mul]
    omega

/-- The part in front of one of several equal elements is known by how many are in it. -/
theorem append_cons_inj_of_count {α : Type} [BEq α] [LawfulBEq α] {a : α} {front back front' back' : List α}
    (same : front ++ a :: back = front' ++ a :: back') (many : front.count a = front'.count a) :
    front = front' ∧ back = back' := by
  induction front generalizing front' with
  | nil =>
    cases front' with
    | nil => exact ⟨rfl, (List.cons.inj same).2⟩
    | cons b front' =>
      obtain ⟨rfl, -⟩ := List.cons.inj same
      rw [List.count_cons_self] at many
      cases many
  | cons b front ih =>
    cases front' with
    | nil =>
      obtain ⟨rfl, -⟩ := List.cons.inj same
      rw [List.count_cons_self] at many
      cases many
    | cons d front' =>
      obtain ⟨rfl, rest⟩ := List.cons.inj same
      rw [List.count_cons, List.count_cons, Nat.add_right_cancel_iff] at many
      obtain ⟨rfl, rfl⟩ := ih rest many
      exact ⟨rfl, rfl⟩

/-- A list starts with another if it has the same parts, up to a last one that may go on. -/
theorem prefix_iff_splitOn {α : Type} [BEq α] [LawfulBEq α] (delim : α) {front whole : List α} :
    front <+: whole ↔ ∃ parts last more rest, front.splitOn delim = parts ++ [last] ∧
      whole.splitOn delim = parts ++ (last ++ more) :: rest := by
  constructor
  · rintro ⟨back, rfl⟩
    cases split : back.splitOn delim with
    | nil => exact absurd split (List.splitOn_ne_nil delim back)
    | cons first rest =>
      obtain ⟨parts, last, atFront, atWhole⟩ := splitOn_append front split
      exact ⟨parts, last, first, rest, atFront, atWhole⟩
  · rintro ⟨parts, last, more, rest, atFront, atWhole⟩
    have joined : ∀ list : List α, [delim].intercalate (list.splitOn delim) = list := fun _ =>
      List.intercalate_splitOn delim
    rw [← joined front, ← joined whole, atFront, atWhole]
    exact intercalate_prefix delim parts last more rest

theorem toAsciiLowercase_append (front back : String) :
    toAsciiLowercase (front ++ back) = toAsciiLowercase front ++ toAsciiLowercase back := by
  simp [toAsciiLowercase]

/-! ### Affixes -/

theorem stripPrefix_eq_some_iff {text front rest : String} :
    stripPrefix text front = some rest ↔ text = front ++ rest := by
  unfold stripPrefix
  constructor
  · intro found
    split at found
    next begins =>
      rw [List.isPrefixOf_iff_prefix] at begins
      rcases begins with ⟨behind, whole⟩
      rw [← whole, List.drop_left, Option.some.injEq] at found
      rw [← found, ← String.toList_inj, String.toList_append, String.toList_ofList, whole]
    next => cases found
  · rintro rfl
    simp

theorem stripSuffix_eq_some_iff {text ending rest : String} :
    stripSuffix text ending = some rest ↔ text = rest ++ ending := by
  unfold stripSuffix
  constructor
  · intro found
    split at found
    next ends =>
      rw [List.isSuffixOf_iff_suffix] at ends
      rcases ends with ⟨front, whole⟩
      rw [← whole, List.length_append, Nat.add_sub_cancel, List.take_left, Option.some.injEq] at found
      rw [← found, ← String.toList_inj, String.toList_append, String.toList_ofList, whole]
    next => cases found
  · rintro rfl
    simp

/-! ### Lengths -/

theorem utf8Len_append (front back : List Char) : utf8Len (front ++ back) = utf8Len front + utf8Len back := by
  rw [utf8Len, List.map_append, List.sum_append, utf8Len, utf8Len]

theorem length_le_utf8Len (chars : List Char) : chars.length ≤ utf8Len chars := by
  induction chars with
  | nil => rfl
  | cons c rest ih =>
    have one := c.utf8Size_pos
    simp only [utf8Len, List.map_cons, List.sum_cons, List.length_cons] at *
    omega

theorem utf8Len_cons (c : Char) (rest : List Char) :
    utf8Len (c :: rest) = c.utf8Size + utf8Len rest := by
  rw [utf8Len, List.map_cons, List.sum_cons, ← utf8Len]

theorem utf8Len_eq_length {text : List Char} (single : ∀ c ∈ text, c.utf8Size = 1) :
    utf8Len text = text.length := by
  induction text with
  | nil => rfl
  | cons c rest ih =>
    have behind := ih fun d member => single d (List.mem_cons_of_mem c member)
    rw [utf8Len_cons, single c List.mem_cons_self, behind, List.length_cons, Nat.add_comm]

theorem utf8Len_le_four_mul (text : List Char) : utf8Len text ≤ 4 * text.length := by
  induction text with
  | nil => exact Nat.le_refl 0
  | cons c rest ih =>
    have wide := c.utf8Size_le_four
    rw [utf8Len_cons, List.length_cons]
    omega

/-! ### Hexadecimal digits -/

theorem mem_lowerHex {n : Nat} {c : Char} (member : c ∈ lowerHex n) :
    ∃ digit < 16, c = Nat.digitChar digit := by
  induction n using Nat.strongRecOn with
  | ind n ih =>
    rw [lowerHex, Nat.toDigits_eq_if (by decide)] at member
    split at member
    next small => exact ⟨n, small, List.mem_singleton.mp member⟩
    next =>
      rcases List.mem_append.mp member with front | last
      · exact ih (n / 16) (by omega) front
      · exact ⟨n % 16, Nat.mod_lt n (by decide), List.mem_singleton.mp last⟩

theorem length_lowerHex_le_iff {n k : Nat} (some_digits : 0 < k) :
    (lowerHex n).length ≤ k ↔ n < 16 ^ k :=
  Nat.length_toDigits_le_iff (by decide) some_digits

/-! ### Numbers -/

theorem isWhitespace_of_isDigit {c : Char} (digit : c.isDigit = true) : isWhitespace c = false := by
  rw [Char.isDigit_iff_toNat] at digit
  simp only [Char.reduceToNat] at digit
  simp only [isWhitespace, Bool.or_eq_false_iff, Bool.and_eq_false_iff, decide_eq_false_iff_not,
    beq_eq_false_iff_ne]
  omega

/-- Decimal digits read back what the formatting wrote. -/
theorem parseUsize_toString {n : Nat} (bounded : n < 2 ^ 64) :
    parseUsize (toString n) = some n := by
  have digits : ∀ c ∈ Nat.toDigits 10 n, c.isDigit = true := fun c member =>
    Nat.isDigit_of_mem_toDigits (by decide) (by decide) member
  have written : (toString n).toList = Nat.toDigits 10 n := by simp
  unfold parseUsize
  rw [written]
  cases shown : Nat.toDigits 10 n with
  | nil => exact absurd shown Nat.toDigits_ne_nil
  | cons c rest =>
    have sign : c ≠ '+' := by
      rintro rfl
      exact absurd (digits '+' (by simp [shown])) (by decide)
    have value : Nat.ofDigitChars 10 (c :: rest) 0 = n := by
      rw [← shown, Nat.ofDigitChars_ten_toDigits]
    have clean : (c :: rest).any (fun c => !c.isDigit) = false := by
      rw [List.any_eq_false]
      intro d member
      simp [digits d (shown ▸ member)]
    split
    next same => exact absurd (List.cons.inj same).1 sign
    next =>
      simp only [reduceCtorEq, decide_false, clean, value, Bool.or_self, Bool.false_eq_true, if_false]
      exact if_pos bounded

theorem trim_padLeft (width n : Nat) : trim (padLeft width (toString n)) = toString n := by
  have digits : ∀ c ∈ Nat.toDigits 10 n, isWhitespace c = false := fun c member =>
    isWhitespace_of_isDigit (Nat.isDigit_of_mem_toDigits (by decide) (by decide) member)
  have written : (toString n).toList = Nat.toDigits 10 n := by simp
  have blank : ∀ c ∈ List.replicate (width - (Nat.toDigits 10 n).length) ' ',
      isWhitespace c = true := by
    intro c member
    rw [List.eq_of_mem_replicate member]
    rfl
  have front : (Nat.toDigits 10 n).dropWhile isWhitespace = Nat.toDigits 10 n := by
    cases shown : Nat.toDigits 10 n with
    | nil => rfl
    | cons c rest => simp [digits c (by simp [shown])]
  have back : (Nat.toDigits 10 n).rdropWhile isWhitespace = Nat.toDigits 10 n := by
    rw [List.rdropWhile_eq_self_iff]
    intro more
    simp [digits _ (List.getLast_mem more)]
  rw [trim, padLeft, written, String.toList_ofList, List.dropWhile_append_of_pos blank, front, back,
    Nat.toString_eq_ofList_toDigits]

/-- `char::escape_debug` inside a string, up to the characters beyond ASCII, which stay. -/
def escapeDebug (c : Char) : List Char :=
  if c = '"' then ['\\', '"']
  else if c = '\\' then ['\\', '\\']
  else if c = '\n' then ['\\', 'n']
  else if c = '\r' then ['\\', 'r']
  else if c = '\t' then ['\\', 't']
  else if c.toNat = 0 then ['\\', '0']
  else if c.toNat < 0x20 || c.toNat = 0x7F then
    "\\u\x7b".toList ++ Nat.toDigits 16 c.toNat ++ "\x7d".toList
  else [c]

/-- `format!("{s:?}")`. -/
def debug (s : String) : String :=
  String.ofList ('"' :: s.toList.flatMap escapeDebug ++ ['"'])

end Library.Text

namespace Library

theorem isUpper_iff (c : Char) : c.isUpper = true ↔ 65 ≤ c.toNat ∧ c.toNat ≤ 90 := by
  unfold Char.isUpper
  simp [UInt32.le_iff_toNat_le]

theorem toNat_toLower {c : Char} (upper : c.isUpper = true) : c.toLower.toNat = c.toNat + 32 := by
  have high : c.val.toNat ≤ 90 := ((isUpper_iff c).mp upper).2
  have shift : ('a'.val - 'A'.val).toNat = 32 := rfl
  unfold Char.toLower
  rw [dif_pos (of_decide_eq_true upper)]
  simp only [Char.toNat, UInt32.toNat_add, shift]
  omega

theorem toLower_of_not_isUpper {c : Char} (other : c.isUpper = false) : c.toLower = c := by
  unfold Char.toLower
  rw [dif_neg (of_decide_eq_false other)]

theorem toLower_cases (c : Char) :
    c.toLower = c ∨ 65 ≤ c.toNat ∧ c.toNat ≤ 90 ∧ c.toLower.toNat = c.toNat + 32 := by
  cases upper : c.isUpper with
  | false => exact .inl (toLower_of_not_isUpper upper)
  | true =>
    rcases (isUpper_iff c).mp upper with ⟨low, high⟩
    exact .inr ⟨low, high, toNat_toLower upper⟩

theorem toLower_eq_self_iff (c : Char) : c.toLower = c ↔ c.isUpper = false := by
  refine ⟨fun same => ?_, toLower_of_not_isUpper⟩
  refine Bool.eq_false_iff.mpr fun upper => ?_
  have moved := toNat_toLower upper
  rw [same] at moved
  omega

theorem toLower_toLower (c : Char) : c.toLower.toLower = c.toLower := by
  rcases toLower_cases c with same | ⟨low, high, moved⟩
  · rw [same, same]
  -- a lowered letter is no upper-case letter
  · refine toLower_of_not_isUpper (Bool.eq_false_iff.mpr fun upper => ?_)
    have bounds := (isUpper_iff _).mp upper
    omega

/-- Lower case moves letters only. -/
theorem toLower_eq_iff {c d : Char} (other : d.toNat < 65) : c.toLower = d ↔ c = d := by
  rcases toLower_cases c with same | ⟨low, high, moved⟩
  · rw [same]
  · constructor
    · rintro rfl
      omega
    · rintro rfl
      omega

theorem map_toLower_eq_self_iff (text : List Char) :
    text.map Char.toLower = text ↔ ∀ c ∈ text, c.isUpper = false := by
  induction text with
  | nil => simp
  | cons c rest ih => rw [List.map_cons, List.cons.injEq, ih, toLower_eq_self_iff, List.forall_mem_cons]

end Library

namespace Library

variable {α : Type} {p q : α → Bool} {text front back : List α} {stop : α}

/-- A list without the elements of a kind at both ends. -/
def trimEnds (p : α → Bool) (text : List α) : List α := (text.dropWhile p).rdropWhile p

/-- Element by element, for a list at hand. -/
theorem forall_of_all {P : α → Prop} [DecidablePred P] (all : (text.all fun c => decide (P c)) = true) :
    ∀ c ∈ text, P c := fun c member => of_decide_eq_true (List.all_eq_true.mp all c member)

theorem dropWhile_congr (same : ∀ c ∈ text, p c = q c) : text.dropWhile p = text.dropWhile q := by
  induction text with
  | nil => rfl
  | cons c rest ih =>
    rw [List.dropWhile_cons, List.dropWhile_cons, same c List.mem_cons_self,
      ih fun d member => same d (List.mem_cons_of_mem _ member)]

/-- What stops at an element is not changed behind it. -/
theorem dropWhile_append_stop (halts : p stop = false) (front back : List α) :
    (front ++ stop :: back).dropWhile p = front.dropWhile p ++ stop :: back := by
  induction front with
  | nil => simp [halts]
  | cons first rest ih =>
    cases dropped : p first with
    | true => simpa [dropped] using ih
    | false => simp [dropped]

theorem rdropWhile_append_stop (halts : p stop = false) (front back : List α) :
    (front ++ stop :: back).rdropWhile p = front ++ stop :: back.rdropWhile p := by
  have mirrored := dropWhile_append_stop halts back.reverse front.reverse
  simp only [List.rdropWhile, List.reverse_append, List.reverse_cons, List.append_assoc,
    List.singleton_append, mirrored, List.reverse_reverse]

/-- It makes no difference at which end trimming starts. -/
theorem dropWhile_rdropWhile (p : α → Bool) (text : List α) :
    (text.rdropWhile p).dropWhile p = (text.dropWhile p).rdropWhile p := by
  have parts := List.takeWhile_append_dropWhile (p := p) (l := text)
  cases kept : text.dropWhile p with
  | nil =>
    have blank : text.rdropWhile p = [] := by
      rw [List.rdropWhile_eq_nil_iff]
      exact List.dropWhile_eq_nil_iff.mp kept
    rw [blank]
    rfl
  | cons stop back =>
    have halts : p stop = false := by
      have head := List.head_dropWhile_not p (l := text) (by simp [kept])
      simpa [kept] using head
    have same : text.dropWhile p = (text.takeWhile p).dropWhile p ++ stop :: back := by
      rw [← dropWhile_append_stop halts, ← kept, parts]
    rw [kept] at parts
    rw [← kept, same, rdropWhile_append_stop halts, ← dropWhile_append_stop halts,
      ← rdropWhile_append_stop halts, parts]

theorem trimEnds_dropWhile (text : List α) : trimEnds p (text.dropWhile p) = trimEnds p text := by
  rw [trimEnds, List.dropWhile_idempotent, trimEnds]

theorem trimEnds_rdropWhile (text : List α) : trimEnds p (text.rdropWhile p) = trimEnds p text := by
  rw [trimEnds, dropWhile_rdropWhile, List.rdropWhile_idempotent, trimEnds]

theorem trimEnds_eq_self_iff (p : α → Bool) (text : List α) :
    trimEnds p text = text ↔
      (∀ c, text.head? = some c → p c = false) ∧ ∀ c, text.getLast? = some c → p c = false := by
  cases text with
  | nil => simp [trimEnds]
  | cons first rest =>
    have last := List.getLast?_eq_some_getLast (List.cons_ne_nil first rest)
    constructor
    · intro same
      have dropped : (first :: rest).dropWhile p = first :: rest := by
        apply (List.dropWhile_suffix p).eq_of_length_le
        rw [← congrArg List.length same]
        exact (List.rdropWhile_prefix p _).length_le
      rw [trimEnds, dropped, List.rdropWhile_eq_self_iff] at same
      refine ⟨fun c head => ?_, fun c ends => ?_⟩
      · cases head
        have kept := List.dropWhile_eq_self_iff.mp dropped (Nat.succ_pos _)
        simpa using kept
      · cases last.symm.trans ends
        simpa using same (List.cons_ne_nil first rest)
    · rintro ⟨opening, closing⟩
      rw [trimEnds, List.dropWhile_cons_of_neg (by simp [opening first rfl]), List.rdropWhile_eq_self_iff]
      intro more
      rw [closing _ last]
      exact Bool.false_ne_true

theorem mem_of_mem_trimEnds {c : α} (member : c ∈ trimEnds p text) : c ∈ text :=
  (List.dropWhile_suffix _).subset ((List.rdropWhile_prefix _ _).subset member)

theorem trimEnds_split (p : α → Bool) (text : List α) :
    ∃ front back, text = front ++ trimEnds p text ++ back ∧ (∀ c ∈ front, p c = true) ∧
      ∀ c ∈ back, p c = true := by
  refine ⟨text.takeWhile p, (text.dropWhile p).rtakeWhile p, ?_, fun c => List.mem_takeWhile_imp,
    fun c => List.mem_rtakeWhile_imp⟩
  rw [trimEnds, List.append_assoc, List.rdropWhile_append_rtakeWhile, List.takeWhile_append_dropWhile]

/-- More of the kind at the ends makes no difference. -/
theorem all_of_trimEnds_eq_nil (none : trimEnds p text = []) : ∀ c ∈ text, p c = true := by
  rcases trimEnds_split p text with ⟨front, back, whole, opening, closing⟩
  rw [none, List.append_nil] at whole
  rw [whole]
  intro c member
  rcases List.mem_append.mp member with before | behind
  · exact opening c before
  · exact closing c behind

theorem trimEnds_append (opening : ∀ c ∈ front, p c = true) (closing : ∀ c ∈ back, p c = true)
    (text : List α) :
    trimEnds p (front ++ text ++ back) = trimEnds p text := by
  have rear : (text ++ back).rdropWhile p = text.rdropWhile p := by
    rw [List.rdropWhile, List.reverse_append, List.dropWhile_append_of_pos (by simpa using closing)]
    rfl
  rw [trimEnds, List.append_assoc, List.dropWhile_append_of_pos opening, ← dropWhile_rdropWhile, rear,
    dropWhile_rdropWhile, trimEnds]

end Library
