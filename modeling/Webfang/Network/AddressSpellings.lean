import Mathlib.Algebra.Order.BigOperators.Group.List
import Mathlib.Data.Nat.Digits.Defs
import Webfang.Network.SsrfGuard

/-!
# Spellings of IPv4 addresses

What `parse_ip_literal` accepts without a colon: one to four numbers in three radixes, the last of
which fills the bytes that are left, as `inet_aton` reads them. The strict parser that comes first
agrees, and nothing is lost in the words of the computation.
-/
namespace Webfang.Network

open Library

/-! ### Numerals -/

/-- The characters are digits of this radix, the most significant first, and stand for the number. -/
structure Digits (radix : Nat) (text : List Char) (n : Nat) : Prop where
  nonempty : text ≠ []
  read : ∃ digits, List.Forall₂ (fun c digit => IpText.toDigit radix c = some digit) text digits ∧
    n = Nat.ofDigits radix digits.reverse

/-- A part of an address: decimal, octal behind a zero, or hexadecimal behind a mark. -/
inductive Numeral : List Char → Nat → Prop
  | decimal {text : List Char} {n : Nat} (digits : Digits 10 text n)
      (unmarked : text.head? = some '0' → text = ['0']) : Numeral text n
  | octal {text : List Char} {n : Nat} (digits : Digits 8 text n) : Numeral ('0' :: text) n
  | hexadecimal {mark : Char} {text : List Char} {n : Nat} (marked : mark = 'x' ∨ mark = 'X')
      (digits : Digits 16 text n) : Numeral ('0' :: mark :: text) n

theorem foldl_digits (radix : Nat) (digits : List Nat) :
    digits.foldl (fun acc digit => acc * radix + digit) 0 = Nat.ofDigits radix digits.reverse := by
  induction digits using List.reverseRecOn with
  | nil => rfl
  | append_singleton front last ih =>
    rw [List.foldl_append, List.foldl_cons, List.foldl_nil, ih, List.reverse_append, List.reverse_singleton,
      List.singleton_append, Nat.ofDigits_cons]
    ring

theorem forall₂_toDigit_iff {radix : Nat} {text : List Char} {digits : List Nat} :
    List.Forall₂ (fun c digit => IpText.toDigit radix c = some digit) text digits ↔
      (∀ c ∈ text, (IpText.toDigit radix c).isSome = true) ∧
        text.filterMap (IpText.toDigit radix) = digits := by
  induction text generalizing digits with
  | nil =>
    rw [List.forall₂_nil_left_iff, List.filterMap_nil]
    exact ⟨fun empty => ⟨nofun, empty.symm⟩, fun both => both.2.symm⟩
  | cons c rest ih =>
    rw [List.forall₂_cons_left_iff, List.forall_mem_cons]
    cases here : IpText.toDigit radix c with
    | none => simp
    | some digit =>
      rw [List.filterMap_cons_some here]
      constructor
      · rintro ⟨_, more, same, rest, rfl⟩
        cases same
        exact ⟨⟨rfl, (ih.mp rest).1⟩, congrArg _ (ih.mp rest).2⟩
      · rintro ⟨⟨-, all⟩, rfl⟩
        exact ⟨digit, _, rfl, ih.mpr ⟨all, rfl⟩, rfl⟩

theorem digits_iff {radix : Nat} {text : List Char} {n : Nat} : Digits radix text n ↔
    text ≠ [] ∧ (∀ c ∈ text, (IpText.toDigit radix c).isSome = true) ∧
      (text.filterMap (IpText.toDigit radix)).foldl (fun acc digit => acc * radix + digit) 0 = n := by
  constructor
  · rintro ⟨nonempty, digits, read, rfl⟩
    obtain ⟨all, rfl⟩ := forall₂_toDigit_iff.mp read
    exact ⟨nonempty, all, foldl_digits ..⟩
  · rintro ⟨nonempty, all, rfl⟩
    exact ⟨nonempty, _, forall₂_toDigit_iff.mpr ⟨all, rfl⟩, foldl_digits ..⟩

theorem digits_zero_cons {text : List Char} {n : Nat} (more : text ≠ []) :
    Digits 8 ('0' :: text) n ↔ Digits 8 text n := by
  have zero : IpText.toDigit 8 '0' = some 0 := by decide
  rw [digits_iff, digits_iff, List.forall_mem_cons, List.filterMap_cons_some zero, zero]
  simp [more]

/-- The number of a part, where it fits into a word. -/
theorem fromDigits_iff {radix : Nat} {digits : List Char} {n : Nat} : (if digits.isEmpty then none
      else if digits.all fun c => (IpText.toDigit radix c).isSome then fromStrRadix radix digits
      else none) = some n ↔ Digits radix digits n ∧ n < 2 ^ 64 := by
  rw [digits_iff]
  unfold fromStrRadix
  cases digits with
  | nil => simp
  | cons c rest =>
    rw [if_neg (by simp)]
    split
    next all =>
      have each := List.all_eq_true.mp all
      dsimp only
      split
      next small =>
        rw [Option.some.injEq]
        constructor
        · rintro rfl
          exact ⟨⟨List.cons_ne_nil _ _, each, rfl⟩, small⟩
        · exact fun both => both.1.2.2
      next large =>
        refine iff_of_false nofun ?_
        rintro ⟨⟨-, -, rfl⟩, small⟩
        exact large small
    next other =>
      refine iff_of_false nofun fun both => other ?_
      exact List.all_eq_true.mpr both.1.2.1

/-- The three kinds of numerals by their first characters. -/
theorem numeral_marked_iff {mark : Char} {text : List Char} {n : Nat} (marked : mark = 'x' ∨ mark = 'X') :
    Numeral ('0' :: mark :: text) n ↔ Digits 16 text n := by
  constructor
  · intro numeral
    cases numeral with
    | decimal digits unmarked => cases unmarked rfl
    | octal digits =>
      have mark_digit := (digits_iff.mp digits).2.1 mark List.mem_cons_self
      rcases marked with rfl | rfl <;> exact absurd mark_digit (by decide)
    | hexadecimal _ digits => exact digits
  · exact .hexadecimal marked

theorem numeral_octal_iff {c : Char} {text : List Char} {n : Nat} (unmarked : c ≠ 'x' ∧ c ≠ 'X') :
    Numeral ('0' :: c :: text) n ↔ Digits 8 (c :: text) n := by
  constructor
  · intro numeral
    cases numeral with
    | decimal digits plain => cases plain rfl
    | octal digits => exact digits
    | hexadecimal marked digits => exact absurd marked (not_or.mpr unmarked)
  · exact .octal

theorem numeral_decimal_iff {text : List Char} {n : Nat} (plain : ∀ c rest, text ≠ '0' :: c :: rest) :
    Numeral text n ↔ Digits 10 text n := by
  constructor
  · intro numeral
    cases numeral with
    | decimal digits _ => exact digits
    | octal digits =>
      obtain ⟨c, rest, rfl⟩ := List.exists_cons_of_ne_nil digits.nonempty
      exact absurd rfl (plain c rest)
    | hexadecimal marked digits => exact absurd rfl (plain _ _)
  · intro digits
    refine .decimal digits fun zero => ?_
    cases text with
    | nil => cases zero
    | cons first rest =>
      cases zero
      cases rest with
      | nil => rfl
      | cons c rest => exact absurd rfl (plain c rest)

theorem parseIpv4Number_eq_some_iff {part : List Char} {n : Nat} :
    parseIpv4Number part = some n ↔ Numeral part n ∧ n < 2 ^ 64 := by
  unfold parseIpv4Number
  split
  next radix digits shape =>
  split at shape
  next hex =>
    cases shape
    rw [numeral_marked_iff (.inl rfl), fromDigits_iff]
  next hex =>
    cases shape
    rw [numeral_marked_iff (.inr rfl), fromDigits_iff]
  next c rest lower upper =>
    cases shape
    rw [numeral_octal_iff ⟨lower, upper⟩, fromDigits_iff,
      digits_zero_cons (List.cons_ne_nil _ _)]
  next lower upper octal =>
    cases shape
    rw [numeral_decimal_iff octal, fromDigits_iff]

/-- A numeral has no dot, colon or bracket in it. -/
theorem numeral_chars {part : List Char} {n : Nat} (numeral : Numeral part n) :
    part ≠ [] ∧ ∀ c ∈ part, c ∉ ['.', ':', '[', ']'] := by
  have digit (radix : Nat) (c : Char) (read : (IpText.toDigit radix c).isSome = true) :
      c ∉ ['.', ':', '[', ']'] := by
    intro listed
    simp only [List.mem_cons, List.not_mem_nil, or_false] at listed
    rcases listed with rfl | rfl | rfl | rfl <;> cases read
  have all {radix : Nat} {text : List Char} (digits : Digits radix text n) :
      ∀ c ∈ text, c ∉ ['.', ':', '[', ']'] := fun c inside =>
    digit radix c ((digits_iff.mp digits).2.1 c inside)
  cases numeral with
  | decimal digits _ => exact ⟨digits.nonempty, all digits⟩
  | octal digits => exact ⟨List.cons_ne_nil _ _, List.forall_mem_cons.mpr ⟨by decide, all digits⟩⟩
  | @hexadecimal mark _ _ marked digits =>
    have mark_chars : mark ∉ ['.', ':', '[', ']'] := by
      rcases marked with rfl | rfl <;> decide
    exact ⟨List.cons_ne_nil _ _, List.forall_mem_cons.mpr ⟨by decide,
      List.forall_mem_cons.mpr ⟨mark_chars, all digits⟩⟩⟩

/-! ### Spellings -/

/-- The address of these numbers: one octet for each but the last, which fills the bytes left. -/
structure Positional (leading : List Nat) (last : Nat) (addr : Ipv4Addr) : Prop where
  few : leading.length ≤ 3
  octets : ∀ n ∈ leading, n < 256
  room : last < 256 ^ (4 - leading.length)
  value : addr.toNat = Nat.ofDigits 256 leading.reverse * 256 ^ (4 - leading.length) + last

/-- The parts and what they stand for, without a dot behind them. -/
def SpellsPlain (body : List Char) (addr : Ipv4Addr) : Prop :=
  ∃ front final leading last, List.Forall₂ Numeral front leading ∧ Numeral final last ∧
    Positional leading last addr ∧ body = ['.'].intercalate (front ++ [final])

/-- A spelling of the address, as `inet_aton` reads it. -/
def Spells (text : List Char) (addr : Ipv4Addr) : Prop :=
  ∃ body, SpellsPlain body addr ∧ (text = body ∨ text = body ++ ['.'])

theorem mapM_eq_some_iff {α β : Type} {f : α → Option β} {items : List α} {results : List β} :
    items.mapM f = some results ↔ List.Forall₂ (fun item result => f item = some result) items results := by
  induction items generalizing results with
  | nil =>
    rw [List.mapM_nil, List.forall₂_nil_left_iff]
    exact ⟨fun same => (Option.some.inj same).symm, fun empty => congrArg some empty.symm⟩
  | cons item rest ih =>
    rw [List.mapM_cons, List.forall₂_cons_left_iff]
    cases here : f item with
    | none => simp
    | some result =>
      cases more : rest.mapM f with
      | none =>
        refine iff_of_false nofun ?_
        rintro ⟨_, more', -, read, -⟩
        cases more.symm.trans (ih.mpr read)
      | some others =>
        constructor
        · intro same
          cases same
          exact ⟨result, others, rfl, ih.mp more, rfl⟩
        · rintro ⟨_, more', same, read, rfl⟩
          cases same
          cases more.symm.trans (ih.mpr read)
          rfl

theorem shifted_sum_from {leading : List Nat} {index : Nat} (few : index + leading.length ≤ 3) :
    ((leading.zipIdx index).map fun (number, index) => number * 2 ^ (8 * (3 - index))).sum =
      Nat.ofDigits 256 leading.reverse * 256 ^ (4 - (index + leading.length)) := by
  induction leading generalizing index with
  | nil => rw [List.reverse_nil, Nat.ofDigits_nil, Nat.zero_mul, List.zipIdx_nil, List.map_nil, List.sum_nil]
  | cons number rest ih =>
    rw [List.length_cons] at few
    have place : 2 ^ (8 * (3 - index)) = 256 ^ rest.length * 256 ^ (4 - (index + (rest.length + 1))) := by
      rw [Nat.pow_mul, ← Nat.pow_add]
      congr 1
      omega
    rw [List.zipIdx_cons, List.map_cons, List.sum_cons, ih (by omega), List.reverse_cons, Nat.ofDigits_append,
      Nat.ofDigits_singleton, List.length_reverse, List.length_cons, Nat.add_assoc index, Nat.add_comm 1]
    dsimp only
    rw [place]
    ring

/-- The sum of the shifted octets is the number they spell, in the places above the last part. -/
theorem shifted_sum {leading : List Nat} (few : leading.length ≤ 3) :
    (leading.zipIdx.map fun (number, index) => number * 2 ^ (8 * (3 - index))).sum =
      Nat.ofDigits 256 leading.reverse * 256 ^ (4 - leading.length) := by
  rw [shifted_sum_from (by rwa [Nat.zero_add]), Nat.zero_add]

theorem positional_lt {leading : List Nat} {last : Nat} (few : leading.length ≤ 3)
    (octets : ∀ n ∈ leading, n < 256) (room : last < 256 ^ (4 - leading.length)) :
    Nat.ofDigits 256 leading.reverse * 256 ^ (4 - leading.length) + last < 2 ^ 32 := by
  have front : Nat.ofDigits 256 leading.reverse < 256 ^ leading.length := by
    have below := Nat.ofDigits_lt_base_pow_length (b := 256) (l := leading.reverse) (by decide)
      (fun n member => octets n (List.mem_reverse.mp member))
    rwa [List.length_reverse] at below
  have whole : 256 ^ leading.length * 256 ^ (4 - leading.length) = 2 ^ 32 := by
    rw [← Nat.pow_add, Nat.add_sub_cancel' (few.trans (by decide))]
    rfl
  rw [← whole]
  calc Nat.ofDigits 256 leading.reverse * 256 ^ (4 - leading.length) + last
      < Nat.ofDigits 256 leading.reverse * 256 ^ (4 - leading.length) + 256 ^ (4 - leading.length) := by omega
    _ = (Nat.ofDigits 256 leading.reverse + 1) * 256 ^ (4 - leading.length) := by ring
    _ ≤ 256 ^ leading.length * 256 ^ (4 - leading.length) := Nat.mul_le_mul_right _ front

/-! ### The lenient parser -/

/-- The address that the code makes of the numbers of the parts. -/
def ofNumbers (numbers : List Nat) : Option Ipv4Addr :=
  let leading := numbers.dropLast
  let last := numbers.getLastD 0
  if leading.any (· ≥ 256) || last ≥ 256 ^ (5 - numbers.length) then none
  else
    let shifted := (leading.zipIdx).map fun (number, index) => number * 2 ^ (8 * (3 - index))
    some (BitVec.ofNat 32 (last + shifted.sum))

theorem ofNumbers_concat_iff {leading : List Nat} {last : Nat} {addr : Ipv4Addr} (few : leading.length ≤ 3) :
    ofNumbers (leading ++ [last]) = some addr ↔ Positional leading last addr := by
  have places : 5 - (leading ++ [last]).length = 4 - leading.length := by
    rw [List.length_append, List.length_singleton]
    omega
  have final : (leading ++ [last]).getLastD 0 = last := by simp [List.getLastD_eq_getLast?]
  unfold ofNumbers
  rw [List.dropLast_concat, final, places]
  dsimp only
  rw [shifted_sum few]
  split
  next outside =>
    refine iff_of_false nofun fun positional => ?_
    rw [Bool.or_eq_true, List.any_eq_true, decide_eq_true_eq] at outside
    rcases outside with ⟨n, member, large⟩ | large
    · exact absurd (positional.octets n member) (Nat.not_lt.mpr (of_decide_eq_true large))
    · exact absurd positional.room (Nat.not_lt.mpr large)
  next within =>
    rw [Bool.or_eq_true, not_or, decide_eq_true_eq, Bool.not_eq_true, List.any_eq_false] at within
    have octets : ∀ n ∈ leading, n < 256 := fun n member => by simpa using within.1 n member
    have room := Nat.lt_of_not_le within.2
    have below := positional_lt few octets room
    rw [Nat.add_comm, Option.some.injEq]
    constructor
    · rintro rfl
      exact ⟨few, octets, room, by rw [BitVec.toNat_ofNat, Nat.mod_eq_of_lt below]⟩
    · intro positional
      rw [← positional.value, BitVec.ofNat_toNat, BitVec.setWidth_eq]

theorem parseIpv4AllForms_body (text : String) : parseIpv4AllForms text =
    let body := ((Text.stripSuffix text ".").getD text)
    if body.isEmpty then none
    else if (body.toList.splitOn '.').length > 4 || (body.toList.splitOn '.').any List.isEmpty then none
    else ((body.toList.splitOn '.').mapM parseIpv4Number).bind ofNumbers := by
  unfold parseIpv4AllForms
  dsimp only
  split
  · rfl
  · split
    · rfl
    · cases ((((Text.stripSuffix text ".").getD text)).toList.splitOn '.').mapM parseIpv4Number with
      | none => rfl
      | some numbers =>
        simp only [Option.bind_eq_bind, Option.bind_some, ofNumbers]
        split <;> rfl

theorem numeral_of_mem {parts : List (List Char)} {numbers : List Nat}
    (all : List.Forall₂ Numeral parts numbers) : ∀ part ∈ parts, ∃ n, Numeral part n := by
  induction all with
  | nil => nofun
  | cons here _ ih => exact List.forall_mem_cons.mpr ⟨⟨_, here⟩, ih⟩

theorem mapM_parseIpv4Number_iff {parts : List (List Char)} {numbers : List Nat} :
    parts.mapM parseIpv4Number = some numbers ↔
      List.Forall₂ Numeral parts numbers ∧ ∀ n ∈ numbers, n < 2 ^ 64 := by
  rw [mapM_eq_some_iff]
  constructor
  · intro read
    induction read with
    | nil => exact ⟨.nil, nofun⟩
    | cons here _ ih =>
      obtain ⟨numeral, small⟩ := parseIpv4Number_eq_some_iff.mp here
      exact ⟨.cons numeral ih.1, List.forall_mem_cons.mpr ⟨small, ih.2⟩⟩
  · rintro ⟨all, small⟩
    induction all with
    | nil => exact .nil
    | cons numeral _ ih =>
      obtain ⟨here, behind⟩ := List.forall_mem_cons.mp small
      exact .cons (parseIpv4Number_eq_some_iff.mpr ⟨numeral, here⟩) (ih behind)

theorem Positional.small {leading : List Nat} {last : Nat} {addr : Ipv4Addr}
    (positional : Positional leading last addr) : ∀ n ∈ leading ++ [last], n < 2 ^ 64 := by
  intro n member
  rcases List.mem_append.mp member with front | final
  · exact (positional.octets n front).trans (by decide)
  · rw [List.mem_singleton.mp final]
    refine positional.room.trans_le ?_
    exact (Nat.pow_le_pow_right (by decide) (Nat.sub_le 4 _)).trans (by decide)

/-- Without a dot behind it: the body is split at the dots, and each part is a numeral. -/
theorem spellsPlain_iff {body : List Char} {addr : Ipv4Addr} : SpellsPlain body addr ↔
    (body.splitOn '.').length ≤ 4 ∧ ((body.splitOn '.').mapM parseIpv4Number).bind ofNumbers = some addr := by
  constructor
  · rintro ⟨front, final, leading, last, numerals, final_numeral, positional, rfl⟩
    have all : List.Forall₂ Numeral (front ++ [final]) (leading ++ [last]) :=
      List.rel_append numerals (.cons final_numeral .nil)
    have parts : (['.'].intercalate (front ++ [final])).splitOn '.' = front ++ [final] := by
      refine List.splitOn_intercalate '.' (fun part member dot => ?_) (by simp)
      obtain ⟨n, numeral⟩ := numeral_of_mem all part member
      exact (numeral_chars numeral).2 '.' dot (by decide)
    rw [parts, mapM_parseIpv4Number_iff.mpr ⟨all, positional.small⟩, Option.bind_some,
      ofNumbers_concat_iff positional.few, List.length_append, numerals.length_eq]
    exact ⟨Nat.succ_le_succ positional.few, positional⟩
  · rintro ⟨few, read⟩
    obtain ⟨numbers, parsed, made⟩ := Option.bind_eq_some_iff.mp read
    have all := (mapM_parseIpv4Number_iff.mp parsed).1
    rcases List.eq_nil_or_concat' numbers with rfl | ⟨leading, last, rfl⟩
    · exact absurd (List.forall₂_nil_right_iff.mp all) (List.splitOn_ne_nil _ _)
    have short : leading.length ≤ 3 := by
      have lengths := all.length_eq
      rw [List.length_append, List.length_singleton] at lengths
      omega
    have front := List.forall₂_take_append _ _ _ all
    have behind := List.forall₂_drop_append _ _ _ all
    obtain ⟨final, _, numeral, empty, whole⟩ := List.forall₂_cons_right_iff.mp behind
    rw [List.forall₂_nil_right_iff] at empty
    subst empty
    refine ⟨_, final, leading, last, front, numeral, (ofNumbers_concat_iff short).mp made, ?_⟩
    rw [← whole, List.take_append_drop, List.intercalate_splitOn]

/-! ### The text around a body -/

theorem intercalate_concat (sep : Char) (front : List (List Char)) (final : List Char) :
    [sep].intercalate (front ++ [final]) = (front.flatMap fun part => part ++ [sep]) ++ final := by
  induction front with
  | nil => exact List.intercalate_singleton
  | cons part rest ih =>
    rw [List.cons_append, List.intercalate_cons_of_ne_nil (by simp), ih, List.flatMap_cons]
    simp

/-- A body ends in a numeral, and has dots between its numerals only. -/
theorem spellsPlain_chars {body : List Char} {addr : Ipv4Addr} (spells : SpellsPlain body addr) :
    body ≠ [] ∧ body.getLast? ≠ some '.' ∧ ∀ c ∈ body, c ∉ [':', '[', ']'] := by
  obtain ⟨front, final, leading, last, numerals, final_numeral, -, rfl⟩ := spells
  obtain ⟨nonempty, final_chars⟩ := numeral_chars final_numeral
  have narrow (c : Char) (other : c ∉ ['.', ':', '[', ']']) : c ∉ [':', '[', ']'] := fun listed =>
    other (List.mem_cons_of_mem _ listed)
  rw [intercalate_concat]
  refine ⟨List.append_ne_nil_of_right_ne_nil _ nonempty, ?_, fun c member => ?_⟩
  · rw [List.getLast?_append_of_ne_nil _ nonempty]
    exact fun dot => final_chars '.' (List.mem_of_getLast? dot) (by decide)
  · rcases List.mem_append.mp member with inside | behind
    · obtain ⟨part, member, inside⟩ := List.mem_flatMap.mp inside
      obtain ⟨n, numeral⟩ := numeral_of_mem numerals part member
      rcases List.mem_append.mp inside with within | dot
      · exact narrow c ((numeral_chars numeral).2 c within)
      · rw [List.mem_singleton.mp dot]
        decide
    · exact narrow c (final_chars c behind)

theorem body_of_spelling {body text : List Char} (ended : body.getLast? ≠ some '.')
    (spelled : text = body ∨ text = body ++ ['.']) :
    ((Text.stripSuffix (String.ofList text) ".").getD (String.ofList text)) = String.ofList body := by
  rcases spelled with rfl | rfl
  · have kept : Text.stripSuffix (String.ofList text) "." = none := by
      rw [Option.eq_none_iff_forall_ne_some]
      intro rest stripped
      have whole := congrArg String.toList (Text.stripSuffix_eq_some_iff.mp stripped)
      rw [String.toList_ofList, String.toList_append] at whole
      apply ended
      rw [whole]
      exact List.getLast?_concat
    rw [kept, Option.getD_none]
  · have stripped : Text.stripSuffix (String.ofList (body ++ ['.'])) "." = some (String.ofList body) :=
      Text.stripSuffix_eq_some_iff.mpr String.ofList_append
    rw [stripped, Option.getD_some]

/-- The lenient parser accepts the spellings of an address, and nothing else. -/
theorem parseIpv4AllForms_eq_some_iff {text : String} {addr : Ipv4Addr} :
    parseIpv4AllForms text = some addr ↔ Spells text.toList addr := by
  rw [parseIpv4AllForms_body]
  dsimp only
  constructor
  · intro parsed
    split at parsed
    next => cases parsed
    next =>
      split at parsed
      next => cases parsed
      next shape =>
        rw [Bool.or_eq_true, not_or, decide_eq_true_eq, Nat.not_lt] at shape
        refine ⟨_, spellsPlain_iff.mpr ⟨shape.1, parsed⟩, ?_⟩
        cases stripped : Text.stripSuffix text "." with
        | none => exact .inl rfl
        | some rest =>
          right
          rw [Option.getD_some, Text.stripSuffix_eq_some_iff.mp stripped, String.toList_append]
          rfl
  · rintro ⟨body, spells, spelled⟩
    obtain ⟨nonempty, ended, -⟩ := spellsPlain_chars spells
    have stripped := body_of_spelling ended spelled
    rw [String.ofList_toList] at stripped
    obtain ⟨few, read⟩ := spellsPlain_iff.mp spells
    obtain ⟨numbers, parsed, -⟩ := Option.bind_eq_some_iff.mp read
    have parts : ((body.splitOn '.').any List.isEmpty) = false := by
      rw [List.any_eq_false]
      intro part member
      obtain ⟨n, numeral⟩ := numeral_of_mem (mapM_parseIpv4Number_iff.mp parsed).1 part member
      simpa using (numeral_chars numeral).1
    have some_body : (String.ofList body).isEmpty = false := by
      rw [String.isEmpty_eq_false_iff]
      exact fun same => nonempty (String.toList_ofList.symm.trans (congrArg String.toList same))
    have within : ¬ (body.splitOn '.').length > 4 := Nat.not_lt.mpr few
    rw [stripped, some_body, String.toList_ofList, parts, read]
    simp [within]

/-! ### The strict parser -/

theorem readNumber_front {radix maxDigits bound n : Nat} {zeros : Bool} {input rest : List Char}
    (read : IpText.readNumber radix maxDigits zeros bound input = some (n, rest)) :
    ∃ part, input = part ++ rest := by
  unfold IpText.readNumber at read
  dsimp only at read
  split at read
  next => cases read
  next =>
    split at read
    next => cases read
    next =>
      split at read
      next =>
        cases read
        exact ⟨_, (List.take_append_drop _ _).symm⟩
      next => cases read

theorem readNumber_spells {maxDigits bound n : Nat} {input rest : List Char}
    (read : IpText.readNumber 10 maxDigits false bound input = some (n, rest)) :
    ∃ part, input = part ++ rest ∧ Numeral part n ∧ n < bound := by
  unfold IpText.readNumber at read
  dsimp only at read
  split at read
  next => cases read
  next size =>
    split at read
    next => cases read
    next zeros =>
      split at read
      next small =>
        cases read
        rw [Bool.or_eq_true, not_or, Bool.not_eq_true, Bool.not_eq_true, List.isEmpty_eq_false_iff] at size
        have front := List.takeWhile_prefix (l := input) fun c => (IpText.toDigit 10 c).isSome
        have digits := digits_iff.mpr ⟨size.2, fun c member =>
          (List.mem_takeWhile_imp (p := fun c => (IpText.toDigit 10 c).isSome) member), rfl⟩
        refine ⟨_, List.prefix_append_drop front, .decimal digits fun zero => ?_, small⟩
        -- a zero in front is the only digit
        obtain ⟨more, first⟩ := List.head?_eq_some_iff.mp zero
        have leading : input.head? = some '0' := by
          obtain ⟨behind, whole⟩ := front
          rw [← whole, first]
          rfl
        have short : ¬ 1 < ('0' :: more).length := by
          simpa [leading, first] using zeros
        have alone : more = [] := by simpa using short
        rw [first, alone]
      next => cases read

theorem readGivenChar_eq_some {c : Char} {input rest : List Char} {u : Unit}
    (read : IpText.readGivenChar c input = some (u, rest)) : input = c :: rest := by
  cases input with
  | nil => cases read
  | cons d input =>
    unfold IpText.readGivenChar at read
    dsimp only at read
    split at read
    next same =>
      cases read
      rw [same]
    next => cases read

theorem readIpv4Octet_spells {first : Bool} {input rest : List Char} {octet : BitVec 8}
    (read : IpText.readIpv4Octet first input = some (octet, rest)) :
    ∃ part, input = (if first then part else '.' :: part) ++ rest ∧ Numeral part octet.toNat := by
  unfold IpText.readIpv4Octet at read
  obtain ⟨⟨n, behind⟩, number, same⟩ := Option.map_eq_some_iff.mp read
  cases same
  have whole (small : n < 256) : (BitVec.ofNat 8 n).toNat = n := by
    rw [BitVec.toNat_ofNat, Nat.mod_eq_of_lt small]
  cases first with
  | true =>
    obtain ⟨part, rfl, numeral, small⟩ := readNumber_spells number
    exact ⟨part, rfl, (whole small).symm ▸ numeral⟩
  | false =>
    obtain ⟨⟨_, after⟩, dot, number⟩ := Option.bind_eq_some_iff.mp number
    obtain ⟨part, rfl, numeral, small⟩ := readNumber_spells number
    refine ⟨part, ?_, (whole small).symm ▸ numeral⟩
    rw [readGivenChar_eq_some dot]
    rfl

theorem toNat_append_eq {m n : Nat} (high : BitVec m) (low : BitVec n) :
    (high ++ low).toNat = high.toNat * 2 ^ n + low.toNat := by
  rw [BitVec.toNat_append, ← Nat.shiftLeft_add_eq_or_of_lt low.isLt, Nat.shiftLeft_eq]

/-- Four octets with dots between them. -/
theorem readIpv4Addr_spells {input rest : List Char} {addr : Ipv4Addr}
    (read : IpText.readIpv4Addr input = some (addr, rest)) :
    ∃ body, input = body ++ rest ∧ SpellsPlain body addr := by
  unfold IpText.readIpv4Addr at read
  obtain ⟨⟨a, input₁⟩, read_a, read⟩ := Option.bind_eq_some_iff.mp read
  obtain ⟨⟨b, input₂⟩, read_b, read⟩ := Option.bind_eq_some_iff.mp read
  obtain ⟨⟨c, input₃⟩, read_c, read⟩ := Option.bind_eq_some_iff.mp read
  obtain ⟨⟨d, input₄⟩, read_d, read⟩ := Option.bind_eq_some_iff.mp read
  cases read
  obtain ⟨text_a, rfl, numeral_a⟩ := readIpv4Octet_spells read_a
  obtain ⟨text_b, rfl, numeral_b⟩ := readIpv4Octet_spells read_b
  obtain ⟨text_c, rfl, numeral_c⟩ := readIpv4Octet_spells read_c
  obtain ⟨text_d, rfl, numeral_d⟩ := readIpv4Octet_spells read_d
  refine ⟨['.'].intercalate ([text_a, text_b, text_c] ++ [text_d]), ?_, [text_a, text_b, text_c], text_d,
    [a.toNat, b.toNat, c.toNat], d.toNat, .cons numeral_a (.cons numeral_b (.cons numeral_c .nil)),
    numeral_d, ?_, rfl⟩
  · rw [intercalate_concat]
    simp
  · refine ⟨le_rfl, ?_, d.isLt, ?_⟩
    · intro n member
      simp only [List.mem_cons, List.not_mem_nil, or_false] at member
      rcases member with rfl | rfl | rfl <;> exact BitVec.isLt _
    · simp only [Ipv4Addr.new, toNat_append_eq, Nat.ofDigits_cons, Nat.ofDigits_nil, List.reverse_cons,
        List.reverse_nil, List.nil_append, List.cons_append, List.length_cons, List.length_nil]
      ring

theorem readSeparator_of_plain {α : Type} {inner : IpText.Parser α} {input : List Char}
    (plain : ':' ∉ input) : IpText.readSeparator ':' false inner input = none := by
  unfold IpText.readSeparator
  rw [if_neg (by decide)]
  cases dot : IpText.readGivenChar ':' input with
  | none => rfl
  | some read => exact absurd (readGivenChar_eq_some dot ▸ List.mem_cons_self) plain

theorem readGroups_behind (limit : Nat) {input : List Char} (plain : ':' ∉ input) :
    IpText.readGroups limit false input = ([], false, input) := by
  cases limit with
  | zero => rfl
  | succ limit =>
    unfold IpText.readGroups
    rw [readSeparator_of_plain plain, readSeparator_of_plain plain, ite_self]

/-- Without a colon there are the groups of an IPv4 address, or one group at most. -/
theorem readGroups_of_plain {limit : Nat} {ipv4 : Bool} {input rest : List Char} {groups : List (BitVec 16)}
    (plain : ':' ∉ input) (read : IpText.readGroups limit true input = (groups, ipv4, rest)) :
    groups.length ≤ 2 ∧ (ipv4 = false → ':' ∉ rest) := by
  cases limit with
  | zero =>
    cases read
    exact ⟨Nat.zero_le _, fun _ => plain⟩
  | succ limit =>
    unfold IpText.readGroups at read
    split at read
    next =>
      cases read
      exact ⟨le_rfl, nofun⟩
    next =>
      split at read
      next =>
        cases read
        exact ⟨Nat.zero_le _, fun _ => plain⟩
      next group behind number =>
        obtain ⟨part, rfl⟩ : ∃ part, input = part ++ behind := readNumber_front number
        have behind_plain : ':' ∉ behind := fun inside => plain (List.mem_append_right _ inside)
        rw [readGroups_behind limit behind_plain] at read
        cases read
        exact ⟨Nat.le_succ 1, fun _ => behind_plain⟩

/-- An IPv6 address has a colon. -/
theorem readIpv6Addr_of_plain {input : List Char} (plain : ':' ∉ input) :
    IpText.readIpv6Addr input = none := by
  unfold IpText.readIpv6Addr
  split
  next head headIpv4 behind groups =>
  obtain ⟨short, kept⟩ := readGroups_of_plain plain groups
  rw [if_neg (by omega)]
  split
  next => rfl
  next alone =>
    cases dot : IpText.readGivenChar ':' behind with
    | none => rfl
    | some read =>
      have colon := readGivenChar_eq_some dot
      exact absurd (colon ▸ List.mem_cons_self) (kept (Bool.eq_false_iff.mpr alone))

/-- Without a colon the strict parser accepts some of the spellings. -/
theorem parse_spells {text : String} {ip : IpAddr} (plain : ':' ∉ text.toList)
    (parsed : IpAddr.parse text = some ip) : ∃ addr, ip = .v4 addr ∧ Spells text.toList addr := by
  unfold IpAddr.parse at parsed
  obtain ⟨⟨_, rest⟩, read, same⟩ := Option.map_eq_some_iff.mp parsed
  cases same
  obtain ⟨read, ended⟩ := Option.filter_eq_some_iff.mp read
  unfold IpText.readIpAddr at read
  rw [readIpv6Addr_of_plain plain] at read
  cases strict : IpText.readIpv4Addr text.toList with
  | none =>
    rw [strict] at read
    cases read
  | some read_addr =>
    obtain ⟨addr, behind⟩ := read_addr
    rw [strict] at read
    cases read
    obtain ⟨body, whole, spells⟩ := readIpv4Addr_spells strict
    rw [List.isEmpty_iff.mp ended, List.append_nil] at whole
    exact ⟨addr, rfl, body, spells, .inl whole⟩

/-! ### The computation in words -/

/-- `256_u64.pow(5 - len)` for the last part, and one octet for the others. -/
def wordCeiling (parts index : Nat) : UInt64 := if index = parts - 1 then 256 ^ (5 - parts) else 256

/-- `number << (8 * (3 - index))`. -/
def wordShift (number : UInt64) (index : Nat) : UInt64 := number <<< UInt64.ofNat (8 * (3 - index))

/-- The value that the loop adds up, from the last part on. -/
def wordSum (leading : List (UInt64 × Nat)) (last : UInt64) : UInt64 :=
  leading.foldl (fun value part => value + wordShift part.1 part.2) last

/-- The address that the code makes of the numbers of the parts, in words that wrap around. -/
def ofWords (numbers : List UInt64) : Option Ipv4Addr :=
  if numbers.zipIdx.any fun part => part.1 ≥ wordCeiling numbers.length part.2 then none
  else some (wordSum numbers.dropLast.zipIdx (numbers.getLastD 0)).toUInt32.toBitVec

/-- The number that a leading part adds. -/
def placed (part : UInt64 × Nat) : Nat := part.1.toNat * 2 ^ (8 * (3 - part.2))

/-- Every shift, every sum on the way and the cast have the value of the natural numbers. -/
structure Exact (leading : List UInt64) (last : UInt64) : Prop where
  shifts : ∀ part ∈ leading.zipIdx, (wordShift part.1 part.2).toNat = placed part
  sums : ∀ k, (wordSum (leading.zipIdx.take k) last).toNat =
    last.toNat + ((leading.zipIdx.take k).map placed).sum
  cast : (wordSum leading.zipIdx last).toUInt32.toNat = (wordSum leading.zipIdx last).toNat

theorem wordCeiling_exact {parts : Nat} (index : Nat) (some_part : 0 < parts) (few : parts ≤ 4) :
    (wordCeiling parts index).toNat = if index = parts - 1 then 256 ^ (5 - parts) else 256 := by
  unfold wordCeiling
  split
  · match parts, some_part, few with
    | 1, _, _ => rfl
    | 2, _, _ => rfl
    | 3, _, _ => rfl
    | 4, _, _ => rfl
  · rfl

theorem wordShift_exact {part : UInt64 × Nat} (small : placed part < 2 ^ 64) :
    (wordShift part.1 part.2).toNat = placed part := by
  have places : (UInt64.ofNat (8 * (3 - part.2))).toNat % 64 = 8 * (3 - part.2) := by
    rw [UInt64.toNat_ofNat']
    omega
  unfold wordShift
  rw [UInt64.toNat_shiftLeft, places, Nat.shiftLeft_eq]
  exact Nat.mod_eq_of_lt small

theorem wordSum_exact {leading : List (UInt64 × Nat)} {last : UInt64}
    (small : last.toNat + (leading.map placed).sum < 2 ^ 64) :
    (wordSum leading last).toNat = last.toNat + (leading.map placed).sum := by
  unfold wordSum
  induction leading generalizing last with
  | nil => rfl
  | cons part rest ih =>
    rw [List.map_cons, List.sum_cons] at small ⊢
    have step : (last + wordShift part.1 part.2).toNat = last.toNat + placed part := by
      rw [UInt64.toNat_add, wordShift_exact (by omega)]
      exact Nat.mod_eq_of_lt (by omega)
    rw [List.foldl_cons, ih (by rw [step]; omega), step, Nat.add_assoc]

theorem placed_sum (leading : List UInt64) (few : leading.length ≤ 3) : (leading.zipIdx.map placed).sum =
    Nat.ofDigits 256 (leading.map UInt64.toNat).reverse * 256 ^ (4 - leading.length) := by
  have short : (leading.map UInt64.toNat).length ≤ 3 := by rwa [List.length_map]
  have sums := shifted_sum short
  rw [List.length_map, List.zipIdx_map, List.map_map] at sums
  exact sums

/-- Below the bounds of the parts nothing is lost. -/
theorem exact_of_positional {leading : List UInt64} {last : UInt64} {addr : Ipv4Addr}
    (positional : Positional (leading.map UInt64.toNat) last.toNat addr) :
    Exact leading last ∧ (wordSum leading.zipIdx last).toUInt32.toBitVec = addr := by
  have few := positional.few
  have room := positional.room
  rw [List.length_map] at few room
  have below := positional_lt positional.few positional.octets positional.room
  have value := positional.value
  rw [List.length_map, ← placed_sum leading few] at below value
  have parts (k : Nat) : ((leading.zipIdx.take k).map placed).sum ≤ (leading.zipIdx.map placed).sum := by
    rw [← List.sum_take_add_sum_drop (leading.zipIdx.map placed) k, ← List.map_take]
    exact Nat.le_add_right _ _
  have whole : (wordSum leading.zipIdx last).toNat = addr.toNat := by
    rw [wordSum_exact (by omega), value, Nat.add_comm]
  have cast : (wordSum leading.zipIdx last).toUInt32.toNat = (wordSum leading.zipIdx last).toNat := by
    rw [UInt64.toNat_toUInt32, whole, Nat.mod_eq_of_lt addr.isLt]
  refine ⟨⟨fun part member => wordShift_exact ?_, fun k => wordSum_exact ?_, cast⟩, ?_⟩
  · have bounded := List.le_sum_of_mem (List.mem_map_of_mem (f := placed) member)
    omega
  · have bounded := parts k
    omega
  · exact BitVec.eq_of_toNat_eq (cast.trans whole)

theorem ofWords_eq {numbers : List UInt64} (some_part : numbers ≠ []) (few : numbers.length ≤ 4) :
    ofWords numbers = ofNumbers (numbers.map UInt64.toNat) := by
  rcases List.eq_nil_or_concat' numbers with rfl | ⟨leading, last, rfl⟩
  · exact absurd rfl some_part
  rw [List.length_append, List.length_singleton] at few
  have short : (leading.map UInt64.toNat).length ≤ 3 := by
    rw [List.length_map]
    omega
  have final : (leading ++ [last]).getLastD 0 = last := by simp [List.getLastD_eq_getLast?]
  have few' : (leading ++ [last]).length ≤ 4 := by
    rw [List.length_append, List.length_singleton]
    omega
  have parts : (leading ++ [last]).length = leading.length + 1 := List.length_append
  -- the words are below their bounds when the numbers are
  have bounds : ((leading ++ [last]).zipIdx.any fun part =>
      decide (part.1 ≥ wordCeiling (leading ++ [last]).length part.2)) = false ↔
      (∀ n ∈ leading.map UInt64.toNat, n < 256) ∧ last.toNat < 256 ^ (4 - leading.length) := by
    have within (part : UInt64 × Nat) :
        ¬ decide (part.1 ≥ wordCeiling (leading ++ [last]).length part.2) = true ↔
        part.1.toNat < if part.2 = leading.length then 256 ^ (4 - leading.length) else 256 := by
      rw [decide_eq_true_eq, ge_iff_le, UInt64.le_iff_toNat_le,
        wordCeiling_exact part.2 (by omega) few', parts, Nat.add_sub_cancel,
        Nat.add_sub_add_right 4 1, Nat.not_le]
    simp only [List.any_eq_false, within, List.zipIdx_append, List.forall_mem_append, Nat.zero_add,
      List.zipIdx_singleton, List.forall_mem_singleton, if_true, List.forall_mem_map]
    refine and_congr_left fun _ => ⟨fun all number member => ?_, fun all part member => ?_⟩
    · obtain ⟨index, small, rfl⟩ := List.mem_iff_getElem.mp member
      have member := List.mk_mem_zipIdx_iff_getElem?.mpr (List.getElem?_eq_getElem small)
      have here := all (leading[index], index) member
      rwa [if_neg (Nat.ne_of_lt small)] at here
    · have small := List.snd_lt_of_mem_zipIdx member
      rw [if_neg (by omega)]
      exact all part.1 (List.fst_mem_of_mem_zipIdx member)
  unfold ofWords
  rw [List.map_append, List.map_singleton, List.dropLast_concat, final]
  split
  next outside =>
    cases made : ofNumbers (leading.map UInt64.toNat ++ [last.toNat]) with
    | none => rfl
    | some addr =>
      have positional := (ofNumbers_concat_iff short).mp made
      have room := positional.room
      rw [List.length_map] at room
      rw [bounds.mpr ⟨positional.octets, room⟩] at outside
      cases outside
  next inside =>
    obtain ⟨octets, room⟩ := bounds.mp (Bool.eq_false_iff.mpr inside)
    rw [← List.length_map UInt64.toNat] at room
    have below := positional_lt short octets room
    have positional : Positional (leading.map UInt64.toNat) last.toNat (BitVec.ofNat 32 _) :=
      ⟨short, octets, room, by rw [BitVec.toNat_ofNat, Nat.mod_eq_of_lt below]⟩
    rw [(ofNumbers_concat_iff short).mpr positional, (exact_of_positional positional).2]

/-- What is accepted in words is computed without a loss. -/
theorem ofWords_exact {leading : List UInt64} {last : UInt64} {addr : Ipv4Addr} (few : leading.length ≤ 3)
    (made : ofWords (leading ++ [last]) = some addr) : Exact leading last := by
  have short : (leading ++ [last]).length ≤ 4 := by
    rw [List.length_append]
    exact Nat.succ_le_succ few
  rw [ofWords_eq (by simp) short, List.map_append, List.map_singleton,
    ofNumbers_concat_iff (by rwa [List.length_map])] at made
  exact (exact_of_positional made).1

/-- The numbers of the parts, in words. -/
def ipv4Words (text : String) : Option (List UInt64) :=
  let body := (Text.stripSuffix text ".").getD text
  if body.isEmpty then none
  else if (body.toList.splitOn '.').length > 4 || (body.toList.splitOn '.').any List.isEmpty then none
  else (body.toList.splitOn '.').mapM fun part => (parseIpv4Number part).map UInt64.ofNat

theorem mapM_word (parts : List (List Char)) :
    (parts.mapM fun part => (parseIpv4Number part).map UInt64.ofNat) =
      (parts.mapM parseIpv4Number).map (List.map UInt64.ofNat) := by
  induction parts with
  | nil => rfl
  | cons part rest ih =>
    rw [List.mapM_cons, List.mapM_cons, ih]
    cases parseIpv4Number part with
    | none => rfl
    | some n =>
      cases rest.mapM parseIpv4Number with
      | none => rfl
      | some others => rfl

theorem toNat_words {numbers : List Nat} (small : ∀ n ∈ numbers, n < 2 ^ 64) :
    (numbers.map UInt64.ofNat).map UInt64.toNat = numbers := by
  rw [List.map_map]
  refine (List.map_congr_left fun n member => ?_).trans numbers.map_id
  exact UInt64.toNat_ofNat_of_lt' (small n member)

/-- What the parts are in words, for a text that is not refused before its numbers. -/
theorem words_of_parts {parts : List (List Char)} {words : List UInt64}
    (read : (parts.mapM fun part => (parseIpv4Number part).map UInt64.ofNat) = some words) :
    parts.mapM parseIpv4Number = some (words.map UInt64.toNat) ∧ words.length = parts.length := by
  rw [mapM_word] at read
  obtain ⟨numbers, parsed, rfl⟩ := Option.map_eq_some_iff.mp read
  obtain ⟨all, small⟩ := mapM_parseIpv4Number_iff.mp parsed
  rw [toNat_words small, List.length_map]
  exact ⟨parsed, all.length_eq.symm⟩

/-- The code computes in words what the model computes in natural numbers. -/
theorem parseIpv4AllForms_words (text : String) : parseIpv4AllForms text = (ipv4Words text).bind ofWords := by
  rw [parseIpv4AllForms_body]
  unfold ipv4Words
  dsimp only
  split
  next => rfl
  next =>
    split
    next => rfl
    next shape =>
      rw [Bool.or_eq_true, not_or, decide_eq_true_eq, Nat.not_lt] at shape
      cases words : ((((Text.stripSuffix text ".").getD text)).toList.splitOn '.').mapM
          fun part => (parseIpv4Number part).map UInt64.ofNat with
      | none =>
        rw [mapM_word, Option.map_eq_none_iff] at words
        rw [words]
        rfl
      | some words' =>
        obtain ⟨numbers, length⟩ := words_of_parts words
        have some_part : words' ≠ [] := by
          rw [← List.length_pos_iff, length, List.length_pos_iff]
          exact List.splitOn_ne_nil _ _
        rw [numbers, Option.bind_some, Option.bind_some, ofWords_eq some_part (length ▸ shape.1)]

theorem ipv4Words_few {text : String} {words : List UInt64} (read : ipv4Words text = some words) :
    words.length ≤ 4 := by
  unfold ipv4Words at read
  dsimp only at read
  split at read
  next => cases read
  next =>
    split at read
    next => cases read
    next shape =>
      rw [Bool.or_eq_true, not_or, decide_eq_true_eq, Nat.not_lt] at shape
      exact (words_of_parts read).2 ▸ shape.1

/-! ### The brackets -/

theorem stripBrackets_of_plain {host : String} (plain : '[' ∉ host.toList) : stripBrackets host = host := by
  unfold stripBrackets
  split
  next rest enclosed =>
    rw [enclosed] at plain
    exact absurd List.mem_cons_self plain
  next => rfl

/-- One pair of brackets is taken off, when it encloses the whole host. -/
theorem stripBrackets_enclosed {host : String} {inner : List Char}
    (enclosed : host.toList = '[' :: inner ++ [']']) : stripBrackets host = String.ofList inner := by
  unfold stripBrackets
  rw [enclosed]
  show (if (inner ++ [']']).getLast? = some ']' then String.ofList (inner ++ [']']).dropLast else host) = _
  rw [List.getLast?_concat, if_pos rfl, List.dropLast_concat]

theorem stripBrackets_cases (host : String) : stripBrackets host = host ∨
    host.toList = '[' :: (stripBrackets host).toList ++ [']'] := by
  unfold stripBrackets
  split
  next rest enclosed =>
    split
    next closed =>
      right
      rw [enclosed, String.toList_ofList, List.cons_append]
      congr 1
      exact (List.dropLast_append_getLast? _ closed).symm
    next => exact .inl rfl
  next => exact .inl rfl

/-! ### Host literals -/

theorem spells_plain {text : List Char} {addr : Ipv4Addr} (spells : Spells text addr) :
    ∀ c ∈ text, c ∉ [':', '[', ']'] := by
  obtain ⟨body, plain, spelled⟩ := spells
  have chars := (spellsPlain_chars plain).2.2
  rcases spelled with rfl | rfl
  · exact chars
  · exact List.forall_mem_append.mpr ⟨chars, List.forall_mem_singleton.mpr (by decide)⟩

theorem Spells.unique {text : List Char} {a b : Ipv4Addr} (left : Spells text a)
    (right : Spells text b) : a = b := by
  rw [← String.toList_ofList (l := text), ← parseIpv4AllForms_eq_some_iff] at left right
  exact Option.some.inj (left.symm.trans right)

/-- The two parsers together, on a literal without a colon. -/
theorem parse_or_lenient {literal : String} {ip : IpAddr} (plain : ':' ∉ literal.toList) :
    (IpAddr.parse literal = some ip ∨
      IpAddr.parse literal = none ∧ (parseIpv4AllForms literal).map IpAddr.v4 = some ip) ↔
      ∃ addr, ip = .v4 addr ∧ Spells literal.toList addr := by
  constructor
  · rintro (strict | ⟨-, lenient⟩)
    · exact parse_spells plain strict
    · obtain ⟨addr, read, rfl⟩ := Option.map_eq_some_iff.mp lenient
      exact ⟨addr, rfl, parseIpv4AllForms_eq_some_iff.mp read⟩
  · rintro ⟨addr, rfl, spells⟩
    cases strict : IpAddr.parse literal with
    | none => exact .inr ⟨rfl, by rw [parseIpv4AllForms_eq_some_iff.mpr spells, Option.map_some]⟩
    | some ip =>
      -- the strict parser reads the same address
      obtain ⟨other, rfl, others⟩ := parse_spells plain strict
      rw [others.unique spells]
      exact .inl rfl

theorem parseIpLiteral_eq_some_iff {host : String} {ip : IpAddr} (plain : ':' ∉ host.toList) :
    parseIpLiteral host = some ip ↔ ∃ addr, ip = .v4 addr ∧ Spells (stripBrackets host).toList addr := by
  have within : ':' ∉ (stripBrackets host).toList := by
    rcases stripBrackets_cases host with same | enclosed
    · rwa [same]
    · rw [enclosed] at plain
      exact fun inside => plain (List.mem_cons_of_mem _ (List.mem_append_left _ inside))
  have colon : Text.contains (stripBrackets host) ":" = false :=
    decide_eq_false fun inside => within ((List.singleton_infix_iff ..).mp inside)
  rw [← parse_or_lenient within]
  unfold parseIpLiteral
  dsimp only
  rw [colon]
  cases IpAddr.parse (stripBrackets host) with
  | none => simp
  | some strict => simp

/-- The spellings of an IPv4 address are read as that address, with or without a pair of brackets, and
without a colon nothing else is; the words of the computation lose nothing. -/
theorem parseIpLiteral_reads (host : String) :
    (∀ addr, Spells host.toList addr → parseIpLiteral host = some (.v4 addr)) ∧
    (':' ∉ host.toList → ∀ ip, parseIpLiteral host = some ip ↔ ∃ addr, ip = .v4 addr ∧
      (Spells host.toList addr ∨ ∃ inner, host.toList = '[' :: inner ++ [']'] ∧ Spells inner addr)) ∧
    parseIpv4AllForms host = (ipv4Words host).bind ofWords ∧
    ∀ leading last, ipv4Words host = some (leading ++ [last]) →
      (∀ index, (wordCeiling (leading.length + 1) index).toNat =
        if index = leading.length then 256 ^ (4 - leading.length) else 256) ∧
      (ofWords (leading ++ [last]) ≠ none → Exact leading last) := by
  refine ⟨fun addr spells => ?_, fun plain ip => ?_, parseIpv4AllForms_words host,
    fun leading last read => ?_⟩
  · have chars := spells_plain spells
    have colon : ':' ∉ host.toList := fun inside => chars ':' inside (by decide)
    have bracket : '[' ∉ host.toList := fun inside => chars '[' inside (by decide)
    rw [parseIpLiteral_eq_some_iff colon, stripBrackets_of_plain bracket]
    exact ⟨addr, rfl, spells⟩
  · rw [parseIpLiteral_eq_some_iff plain]
    refine exists_congr fun addr => and_congr_right fun _ => ⟨fun spells => ?_, ?_⟩
    · rcases stripBrackets_cases host with same | enclosed
      · exact .inl (same ▸ spells)
      · exact .inr ⟨_, enclosed, spells⟩
    · rintro (spells | ⟨inner, enclosed, spells⟩)
      · rwa [stripBrackets_of_plain fun inside => spells_plain spells '[' inside (by decide)]
      · rwa [stripBrackets_enclosed enclosed, String.toList_ofList]
  · have few := ipv4Words_few read
    rw [List.length_append, List.length_singleton] at few
    refine ⟨fun index => ?_, fun accepted => ?_⟩
    · have ceiling := wordCeiling_exact index (Nat.zero_lt_succ leading.length) few
      rwa [Nat.succ_sub_one, Nat.succ_eq_add_one, Nat.add_sub_add_right 4 1] at ceiling
    · obtain ⟨addr, made⟩ := Option.ne_none_iff_exists'.mp accepted
      exact ofWords_exact (Nat.le_of_succ_le_succ few) made

/-- Enclosed in brackets, an address is accepted that no spelling has. -/
theorem bracketed_accepted : ¬ ∀ (host : String) (ip : IpAddr), ':' ∉ host.toList →
    parseIpLiteral host = some ip → ∃ addr, ip = .v4 addr ∧ Spells host.toList addr := by
  intro each
  obtain ⟨addr, -, spells⟩ := each "[127.0.0.1]" (.v4 Ipv4Addr.localhost) (by decide)
    (by decide)
  exact spells_plain spells '[' (by decide) (by decide)

end Webfang.Network
