import Mathlib.Tactic.IntervalCases

/-!
# The Gregorian calendar

A date is a day of a month that has it, and the calendar is the day after a day. Counted from
1 March of the year 0, days have a number in closed form: years and months start at fixed
numbers once the leap day is the last of its year.
-/
namespace Library.Calendar

def isLeap (year : Int) : Bool := year % 4 = 0 && (year % 100 ≠ 0 || year % 400 = 0)

def daysInMonth (year : Int) (month : Nat) : Nat :=
  if month = 2 then if isLeap year then 29 else 28
  else if month = 4 ∨ month = 6 ∨ month = 9 ∨ month = 11 then 30
  else 31

theorem daysInMonth_pos (year : Int) (month : Nat) : 1 ≤ daysInMonth year month := by
  unfold daysInMonth
  split
  · split <;> omega
  · split <;> omega

structure Date where
  year : Int
  month : Nat
  day : Nat
  month_pos : 1 ≤ month
  month_le : month ≤ 12
  day_pos : 1 ≤ day
  day_le : day ≤ daysInMonth year month
  deriving DecidableEq, Repr

namespace Date

/-- The day after. -/
def next (date : Date) : Date :=
  if within : date.day + 1 ≤ daysInMonth date.year date.month then
    { date with day := date.day + 1, day_pos := by omega, day_le := within }
  else if inYear : date.month + 1 ≤ 12 then
    { date with
      month := date.month + 1
      day := 1
      month_pos := by omega
      month_le := inYear
      day_pos := le_rfl
      day_le := daysInMonth_pos _ _ }
  else ⟨date.year + 1, 1, 1, le_rfl, by omega, le_rfl, daysInMonth_pos _ _⟩

/-- 1 January 1970. -/
def epoch : Date := ⟨1970, 1, 1, le_rfl, by omega, le_rfl, by decide⟩

/-! ### Numbered days -/

def marchYear (date : Date) : Int := if date.month ≤ 2 then date.year - 1 else date.year

def marchMonth (date : Date) : Nat := if date.month ≤ 2 then date.month + 9 else date.month - 3

end Date

/-- The number of the first day of a March year. -/
def yearStart (year : Int) : Int := 365 * year + year / 4 - year / 100 + year / 400

/-- The days of a March year before the month that is so many months after March. -/
def monthStart (month : Nat) : Nat := (153 * month + 2) / 5

def Date.dayNumber (date : Date) : Int :=
  yearStart date.marchYear + monthStart date.marchMonth + date.day - 1

theorem isLeap_iff {year : Int} : isLeap year = true ↔ year % 4 = 0 ∧ (year % 100 ≠ 0 ∨ year % 400 = 0) := by
  simp [isLeap]

/-- A March year ends with the February of the next year. -/
theorem yearStart_succ (year : Int) :
    yearStart (year + 1) = yearStart year + 365 + if isLeap (year + 1) then 1 else 0 := by
  unfold yearStart
  split
  next leap =>
    have rule := isLeap_iff.mp leap
    omega
  next common =>
    have rule : ¬ ((year + 1) % 4 = 0 ∧ ((year + 1) % 100 ≠ 0 ∨ (year + 1) % 400 = 0)) :=
      fun rule => common (isLeap_iff.mpr rule)
    omega

/-- The months but February have the days up to the start of the next. -/
theorem monthStart_succ (date : Date) (other : date.month ≠ 2) :
    monthStart (date.marchMonth + 1) = monthStart date.marchMonth + daysInMonth date.year date.month := by
  obtain ⟨year, month, day, month_pos, month_le, day_pos, day_le⟩ := date
  simp only [Date.marchMonth, monthStart, daysInMonth] at *
  interval_cases month <;> simp_all

namespace Date

variable (date : Date)

theorem marchMonth_le : date.marchMonth ≤ 11 := by
  have bound := date.month_le
  unfold marchMonth
  split <;> omega

theorem day_le_31 : date.day ≤ 31 := by
  have bound := date.day_le
  unfold daysInMonth at bound
  split at bound
  · split at bound <;> omega
  · split at bound <;> omega

/-- A day lies within its March month, and so within its March year. -/
theorem day_within :
    monthStart date.marchMonth + date.day ≤ 365 + (if isLeap (date.marchYear + 1) then 1 else 0) ∧
    (date.marchMonth < 11 → monthStart date.marchMonth + date.day ≤ monthStart (date.marchMonth + 1)) := by
  obtain ⟨year, month, day, month_pos, month_le, day_pos, day_le⟩ := date
  simp only [marchMonth, marchYear, monthStart]
  by_cases february : month = 2
  · subst february
    simp only [daysInMonth, if_true, le_refl, sub_add_cancel] at day_le ⊢
    split at day_le <;> simp_all <;> omega
  · constructor
    · interval_cases month <;> simp [daysInMonth] at day_le february ⊢ <;> split <;> omega
    · interval_cases month <;> simp [daysInMonth] at day_le february ⊢ <;> omega

theorem dayNumber_next : date.next.dayNumber = date.dayNumber + 1 := by
  unfold next
  split
  next within =>
    simp only [dayNumber, marchYear, marchMonth]
    push_cast
    omega
  next last =>
    have full : date.day = daysInMonth date.year date.month := by
      have bound := date.day_le
      omega
    split
    next inYear =>
      by_cases february : date.month = 2
      · -- the last day of a March year
        have ends := yearStart_succ (date.year - 1)
        simp only [sub_add_cancel] at ends
        have length : daysInMonth date.year 2 = if isLeap date.year then 29 else 28 := rfl
        simp only [dayNumber, marchYear, marchMonth, february, full, length, monthStart] at ends ⊢
        norm_num at ends ⊢
        split at ends <;> simp_all <;> omega
      · have starts := monthStart_succ date february
        have month := date.month_pos
        simp only [dayNumber, marchYear, marchMonth, full] at starts ⊢
        by_cases january : date.month = 1
        · simp only [january] at starts ⊢
          norm_num at starts ⊢
          omega
        · have following : date.month - 3 + 1 = date.month + 1 - 3 := by omega
          rw [if_neg (by omega), following] at starts
          rw [if_neg (by omega), if_neg (by omega), if_neg (by omega), if_neg (by omega), starts]
          push_cast
          omega
    next december =>
      have month : date.month = 12 := by
        have bound := date.month_le
        omega
      have starts := monthStart_succ date (by omega)
      simp only [dayNumber, marchYear, marchMonth, full, month] at starts ⊢
      norm_num at starts ⊢
      omega

theorem dayNumber_iterate (count : Nat) : (next^[count] date).dayNumber = date.dayNumber + count := by
  induction count with
  | zero => simp
  | succ count ih =>
    rw [Function.iterate_succ_apply', dayNumber_next, ih]
    push_cast
    omega

theorem year_le_iterate (count : Nat) : date.year ≤ (next^[count] date).year := by
  have year_le_next (date : Date) : date.year ≤ date.next.year := by
    unfold next
    split
    · exact le_rfl
    · split <;> simp
  induction count with
  | zero => exact le_rfl
  | succ count ih =>
    rw [Function.iterate_succ_apply']
    exact ih.trans (year_le_next _)

def packed : Int := (date.year * 100 + date.month) * 100 + date.day

theorem packed_next : date.packed < date.next.packed := by
  have day := date.day_le_31
  have month := date.month_le
  unfold next packed
  split
  · push_cast
    omega
  · split <;> push_cast <;> omega

theorem packed_lt_iterate {m n : Nat} (less : m < n) : (next^[m] date).packed < (next^[n] date).packed := by
  have later (count : Nat) : (next^[count] date).packed < (next^[count + 1] date).packed := by
    rw [Function.iterate_succ_apply']
    exact packed_next _
  exact strictMono_nat_of_lt_succ later less

end Date

/-! ### Numbers of a fixed width -/

/-- The last decimal digits of a number, so many of them. -/
def fixedDigits : Nat → Nat → List Char
  | 0, _ => []
  | width + 1, n => fixedDigits width (n / 10) ++ [Nat.digitChar (n % 10)]

@[simp] theorem length_fixedDigits (width n : Nat) : (fixedDigits width n).length = width := by
  induction width generalizing n with
  | zero => rfl
  | succ width ih => simp [fixedDigits, ih]

theorem fixedDigits_zero (width : Nat) : fixedDigits width 0 = List.replicate width '0' := by
  induction width with
  | zero => rfl
  | succ width ih => simp [fixedDigits, ih, List.replicate_succ']

/-- A number with zeros put in front of it. -/
theorem leftpad_toDigits {width n : Nat} (short : n < 10 ^ (width + 1)) :
    List.leftpad (width + 1) '0' (Nat.toDigits 10 n) = fixedDigits (width + 1) n := by
  induction width generalizing n with
  | zero =>
    have digit : n < 10 := by simpa using short
    simp [Nat.toDigits_of_lt_base digit, List.leftpad, fixedDigits, Nat.mod_eq_of_lt digit]
  | succ width ih =>
    rw [fixedDigits]
    by_cases digit : n < 10
    · simp [Nat.toDigits_of_lt_base digit, List.leftpad, Nat.div_eq_of_lt digit, Nat.mod_eq_of_lt digit,
        fixedDigits_zero]
    · have front : n / 10 < 10 ^ (width + 1) := by
        rw [Nat.div_lt_iff_lt_mul (by omega)]
        rw [pow_succ] at short
        exact short
      rw [← ih front, Nat.toDigits_of_base_le (by omega) (by omega)]
      simp [List.leftpad]

theorem digitChar_lt {m n : Nat} (less : m < n) (digit : n < 10) : Nat.digitChar m < Nat.digitChar n := by
  interval_cases n <;> interval_cases m <;> decide

theorem append_lt_append {α : Type} [LT α] {l m : List α} (less : l < m) (same : l.length = m.length)
    (r s : List α) : l ++ r < m ++ s := by
  induction l generalizing m with
  | nil =>
    rw [List.eq_nil_of_length_eq_zero same.symm] at less
    exact absurd less (List.not_lt_nil _)
  | cons a l ih =>
    cases m with
    | nil => simp at same
    | cons b m =>
      rw [List.cons_append, List.cons_append, List.cons_lt_cons_iff]
      rcases List.cons_lt_cons_iff.mp less with first | ⟨first, rest⟩
      · exact .inl first
      · exact .inr ⟨first, ih rest (by simpa using same)⟩

/-- Numbers of one width are ordered as texts. -/
theorem fixedDigits_lt {width m n : Nat} (less : m < n) (short : n < 10 ^ width) :
    fixedDigits width m < fixedDigits width n := by
  induction width generalizing m n with
  | zero => simp_all
  | succ width ih =>
    rw [fixedDigits, fixedDigits]
    rcases Nat.lt_or_ge (m / 10) (n / 10) with front | front
    · have short : n / 10 < 10 ^ width := by
        rw [Nat.div_lt_iff_lt_mul (by omega)]
        rw [pow_succ] at short
        exact short
      exact append_lt_append (ih front short) (by simp) _ _
    · have same : m / 10 = n / 10 := by omega
      rw [same]
      refine List.append_left_lt (List.cons_lt_cons_iff.mpr (.inl ?_))
      exact digitChar_lt (by omega) (by omega)

/-- A number, its width and the character behind it. -/
structure Field where
  width : Nat
  number : Nat
  stop : Char

def Field.text (field : Field) : List Char := fixedDigits field.width field.number ++ [field.stop]

/-- Two texts of fields with the same widths and characters, with room for each number. -/
def SameLayout (fields others : List Field) : Prop :=
  List.Forall₂ (fun field other => field.width = other.width ∧ field.stop = other.stop ∧
    field.number < 10 ^ field.width ∧ other.number < 10 ^ other.width) fields others

/-- The numbers written behind one another. -/
def joined : List Field → Nat
  | [] => 0
  | field :: rest => field.number * 10 ^ (rest.map Field.width).sum + joined rest

theorem mul_add_lt {number room low size : Nat} (within : number < room) (below : low < size) :
    number * size + low < room * size := by
  calc number * size + low < number * size + size := Nat.add_lt_add_left below _
    _ = (number + 1) * size := by rw [Nat.add_mul, Nat.one_mul]
    _ ≤ room * size := Nat.mul_le_mul_right _ within

theorem joined_lt {fields others : List Field} (layout : SameLayout fields others) :
    joined fields < 10 ^ (fields.map Field.width).sum ∧
    joined others < 10 ^ (fields.map Field.width).sum ∧
      (others.map Field.width).sum = (fields.map Field.width).sum := by
  induction layout with
  | nil => simp [joined]
  | cons here _ ih =>
    obtain ⟨width, -, bound, bound'⟩ := here
    obtain ⟨rest, rest', same⟩ := ih
    rw [← width] at bound'
    simp only [joined, List.map_cons, List.sum_cons, same, pow_add, ← width, and_true]
    exact ⟨mul_add_lt bound rest, mul_add_lt bound' rest'⟩

theorem text_lt_of_joined {fields others : List Field} (layout : SameLayout fields others)
    (less : joined fields < joined others) : fields.flatMap Field.text < others.flatMap Field.text := by
  induction layout with
  | nil => simp [joined] at less
  | @cons field other rest rest' here layout ih =>
    obtain ⟨below, below', sums⟩ := joined_lt layout
    obtain ⟨width, stop, bound, bound'⟩ := here
    simp only [joined, sums] at less
    simp only [List.flatMap_cons, Field.text, width, stop, List.append_assoc]
    rcases Nat.lt_trichotomy field.number other.number with first | first | first
    · exact append_lt_append (fixedDigits_lt first bound') (by simp) _ _
    · rw [first] at less ⊢
      exact List.append_left_lt (List.append_left_lt (ih (by omega)))
    · -- a larger number in front outweighs all that follows
      have outweighs : (other.number + 1) * 10 ^ (rest.map Field.width).sum ≤
          field.number * 10 ^ (rest.map Field.width).sum := Nat.mul_le_mul_right _ first
      rw [Nat.add_mul, Nat.one_mul] at outweighs
      omega

/-! ### Timestamps -/

/-- A time of a day in UTC, to the millisecond, as RFC 3339 writes it: the year has four digits
and no minute a leap second. -/
structure Timestamp where
  date : Date
  hour : Nat
  minute : Nat
  second : Nat
  milli : Nat
  year_nonneg : 0 ≤ date.year
  year_le : date.year ≤ 9999
  hour_lt : hour < 24
  minute_lt : minute < 60
  second_lt : second < 60
  milli_lt : milli < 1000

namespace Timestamp

def fields (stamp : Timestamp) : List Field :=
  [⟨4, stamp.date.year.toNat, '-'⟩, ⟨2, stamp.date.month, '-'⟩, ⟨2, stamp.date.day, 'T'⟩,
    ⟨2, stamp.hour, ':'⟩, ⟨2, stamp.minute, ':'⟩, ⟨2, stamp.second, '.'⟩, ⟨3, stamp.milli, 'Z'⟩]

def text (stamp : Timestamp) : String := String.ofList (stamp.fields.flatMap Field.text)

/-- The milliseconds since midnight. -/
def timeOfDay (stamp : Timestamp) : Nat :=
  ((stamp.hour * 60 + stamp.minute) * 60 + stamp.second) * 1000 + stamp.milli

/-- The timestamp of so many milliseconds after the epoch: its date is that many whole days after
the epoch's, its time the rest. -/
def Denotes (stamp : Timestamp) (millis : Nat) : Prop :=
  stamp.date = Date.next^[millis / 86400000] Date.epoch ∧ stamp.timeOfDay = millis % 86400000

/-- Each number has the room of its field. -/
theorem fits (stamp : Timestamp) : stamp.date.year.toNat < 10 ^ 4 ∧ stamp.date.month < 10 ^ 2 ∧
    stamp.date.day < 10 ^ 2 ∧ stamp.hour < 10 ^ 2 ∧ stamp.minute < 10 ^ 2 ∧ stamp.second < 10 ^ 2 ∧
      stamp.milli < 10 ^ 3 := by
  have year := stamp.year_le
  have month := stamp.date.month_le
  have day := stamp.date.day_le_31
  have hour := stamp.hour_lt
  have minute := stamp.minute_lt
  have second := stamp.second_lt
  have milli := stamp.milli_lt
  omega

theorem sameLayout (stamp other : Timestamp) : SameLayout stamp.fields other.fields := by
  obtain ⟨year, month, day, hour, minute, second, milli⟩ := stamp.fits
  obtain ⟨year', month', day', hour', minute', second', milli'⟩ := other.fits
  exact .cons ⟨rfl, rfl, year, year'⟩ (.cons ⟨rfl, rfl, month, month'⟩ (.cons ⟨rfl, rfl, day, day'⟩
    (.cons ⟨rfl, rfl, hour, hour'⟩ (.cons ⟨rfl, rfl, minute, minute'⟩
      (.cons ⟨rfl, rfl, second, second'⟩ (.cons ⟨rfl, rfl, milli, milli'⟩ .nil))))))

theorem joined_fields (stamp : Timestamp) : (joined stamp.fields : Int) = stamp.date.packed * 10 ^ 9 +
    (((stamp.hour * 100 + stamp.minute) * 100 + stamp.second) * 1000 + stamp.milli) := by
  have year := stamp.year_nonneg
  simp only [fields, joined, List.map_cons, List.map_nil, List.sum_cons, List.sum_nil, Date.packed]
  omega

variable {stamp other : Timestamp} {millis millis' : Nat}

/-- Timestamps are ordered as texts as they are in time. -/
theorem Denotes.text_lt (denotes : stamp.Denotes millis) (denotes' : other.Denotes millis')
    (earlier : millis < millis') : stamp.text < other.text := by
  obtain ⟨date, time⟩ := denotes
  obtain ⟨date', time'⟩ := denotes'
  rw [text, text, String.lt_iff, String.toList_ofList, String.toList_ofList]
  apply text_lt_of_joined (stamp.sameLayout other)
  have value := stamp.joined_fields
  have value' := other.joined_fields
  have minute := stamp.minute_lt
  have second := stamp.second_lt
  have milli := stamp.milli_lt
  have hour := stamp.hour_lt
  have minute' := other.minute_lt
  have second' := other.second_lt
  have milli' := other.milli_lt
  unfold timeOfDay at time time'
  rcases Nat.lt_or_ge (millis / 86400000) (millis' / 86400000) with day | day
  · have dates : stamp.date.packed < other.date.packed := by
      rw [date, date']
      exact Date.packed_lt_iterate Date.epoch day
    omega
  · have same : millis / 86400000 = millis' / 86400000 := by omega
    have dates : stamp.date.packed = other.date.packed := by rw [date, date', same]
    omega

theorem Denotes.text_eq (denotes : stamp.Denotes millis) (denotes' : other.Denotes millis) :
    stamp.text = other.text := by
  obtain ⟨date, time⟩ := denotes
  obtain ⟨date', time'⟩ := denotes'
  have minute := stamp.minute_lt
  have second := stamp.second_lt
  have milli := stamp.milli_lt
  have minute' := other.minute_lt
  have second' := other.second_lt
  have milli' := other.milli_lt
  unfold timeOfDay at time time'
  have hours : stamp.hour = other.hour := by omega
  have minutes : stamp.minute = other.minute := by omega
  have seconds : stamp.second = other.second := by omega
  have millis : stamp.milli = other.milli := by omega
  simp only [text, fields, date, date', hours, minutes, seconds, millis]

end Timestamp

end Library.Calendar
