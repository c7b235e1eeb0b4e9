import Mathlib.Data.String.Basic
import Webfang.Library.Calendar

/-!
# Timestamps of the trace file

`system_time_to_rfc3339` of `infrastructure/observability/file_trace_layer.rs`. Its date is
arithmetic with truncating divisions on the days since 1 March of the year 0; it is the date
that the calendar reaches day by day from the epoch, for each day up to the year 9999.
-/
namespace Webfang.Observability

open Library.Calendar

/-- Seconds and nanoseconds since the Unix epoch, as the platform keeps them. -/
structure SystemTime where
  secs : Int
  nanos : Nat
  nanos_lt : nanos < 1000000000

structure Duration where
  secs : Nat
  nanos : Nat
  deriving DecidableEq, Repr

/-- `duration_since(UNIX_EPOCH)`; `none` is the error on a time before it. -/
def SystemTime.durationSinceEpoch (t : SystemTime) : Option Duration :=
  if 0 ≤ t.secs then some ⟨t.secs.toNat, t.nanos⟩ else none

def Duration.subsecMillis (duration : Duration) : Nat := duration.nanos / 1000000

/-- The date of a number of days since the epoch, as year, month and day: the `i64` part of
`system_time_to_rfc3339`, whose numbers stay far below 2^63. -/
def civilFromDays (days : Nat) : Int × Int × Int :=
  let z : Int := days + 719468
  let era := (if z ≥ 0 then z else z - 146096).tdiv 146097
  let doe := z - era * 146097
  let yoe := (doe - doe.tdiv 1460 + doe.tdiv 36524 - doe.tdiv 146096).tdiv 365
  let y := yoe + era * 400
  let doy := doe - (365 * yoe + yoe.tdiv 4 - yoe.tdiv 100)
  let mp := (5 * doy + 2).tdiv 153
  let d := doy - (153 * mp + 2).tdiv 5 + 1
  let m := if mp < 10 then mp + 3 else mp - 9
  let yr := if m ≤ 2 then y + 1 else y
  (yr, m, d)

/-- `{n:0width}`: the sign counts among the characters. -/
def zeroPadded (width : Nat) (n : Int) : String :=
  let digits (width : Nat) := String.ofList (List.leftpad width '0' (Nat.toDigits 10 n.natAbs))
  if n < 0 then "-" ++ digits (width - 1) else digits width

def systemTimeToRfc3339 (t : SystemTime) : String :=
  let duration := t.durationSinceEpoch.getD ⟨0, 0⟩
  let secs := duration.secs
  let millis := duration.subsecMillis
  let days := secs / 86400
  let remaining := secs % 86400
  let hours := remaining / 3600
  let minutes := (remaining % 3600) / 60
  let seconds := remaining % 60
  let (yr, m, d) := civilFromDays days
  zeroPadded 4 yr ++ "-" ++ zeroPadded 2 m ++ "-" ++ zeroPadded 2 d ++ "T" ++ zeroPadded 2 hours ++
    ":" ++ zeroPadded 2 minutes ++ ":" ++ zeroPadded 2 seconds ++ "." ++ zeroPadded 3 millis ++ "Z"

namespace SystemTime

/-- The nanoseconds since the epoch, which order the instants. -/
def sinceEpoch (t : SystemTime) : Int := t.secs * 1000000000 + t.nanos

def millis (t : SystemTime) : Nat := (t.sinceEpoch / 1000000).toNat

/-- From the epoch on, and before the year 10000. -/
def InRange (t : SystemTime) : Prop :=
  0 ≤ t.sinceEpoch ∧ (Date.next^[t.millis / 86400000] Date.epoch).year ≤ 9999

end SystemTime

/-! ### The year of a day -/

/-- The year of its era, from the days before it and a day of it, the leap day being the last. -/
theorem year_of_era {yoe doy : Int} (first : 0 ≤ yoe) (within : yoe < 400) (start : 0 ≤ doy)
    (length : doy ≤ 364 ∨ doy = 365 ∧ isLeap (yoe + 1) = true) :
    let doe := 365 * yoe + yoe / 4 - yoe / 100 + doy
    (doe - doe / 1460 + doe / 36524 - doe / 146096) / 365 = yoe := by
  intro doe
  rw [isLeap_iff] at length
  -- centuries, fours and years of the era
  obtain ⟨c, a, b, split, c_nonneg, c_le, a_nonneg, a_le, b_nonneg, b_le⟩ : ∃ c a b : Int,
      yoe = 100 * c + 4 * a + b ∧ 0 ≤ c ∧ c ≤ 3 ∧ 0 ≤ a ∧ a ≤ 24 ∧ 0 ≤ b ∧ b ≤ 3 :=
    ⟨yoe / 100, yoe % 100 / 4, yoe % 4, by omega, by omega, by omega, by omega, by omega, by omega,
      by omega⟩
  have days : doe = 36524 * c + (1461 * a + 365 * b + doy) := by omega
  have last : doy ≤ 364 ∨ doy = 365 ∧ b = 3 ∧ (a ≤ 23 ∨ c = 3) := by omega
  clear_value doe
  rw [split]
  clear length split first within
  have centuries : doe / 36524 - doe / 146096 = c := by
    have century : 1461 * a + 365 * b + doy ≤ 36523 ∨ 1461 * a + 365 * b + doy = 36524 ∧ c = 3 := by
      omega
    rcases century with century | ⟨full, rfl⟩
    · have before : doe / 36524 = c := by omega
      have era : doe / 146096 = 0 := by omega
      omega
    · -- the last day of the era
      rw [days, full]
      rfl
  have fours : doe / 1460 = 25 * c + a + (24 * c + a + 365 * b + doy) / 1460 := by omega
  have late : (24 * c + a + 365 * b + doy) / 1460 = 0 ∧ doy ≤ 364 ∨
      (24 * c + a + 365 * b + doy) / 1460 = 1 ∧ 1 ≤ doy ∧ doy ≤ 365 := by
    omega
  have corrected : doe - doe / 1460 + doe / 36524 - doe / 146096 =
      365 * (100 * c + 4 * a + b) + (doy - (24 * c + a + 365 * b + doy) / 1460) := by
    omega
  rw [corrected]
  clear corrected fours centuries days last
  rcases late with ⟨early, bound⟩ | ⟨late, bound⟩
  · rw [early]
    omega
  · rw [late]
    omega

theorem month_of_day (date : Date) :
    (5 * ((monthStart date.marchMonth : Int) + date.day - 1) + 2) / 153 = date.marchMonth ∧
    (monthStart date.marchMonth : Int) + date.day - 1 - (153 * date.marchMonth + 2) / 5 + 1 = date.day := by
  obtain ⟨length, inMonth⟩ := date.day_within
  have positive := date.day_pos
  have month := date.marchMonth_le
  have year : monthStart date.marchMonth + date.day ≤ 366 := by
    split at length <;> omega
  unfold monthStart at *
  constructor <;> omega

theorem civilFromDays_eq {days : Nat} {date : Date} (numbered : date.dayNumber = days + 719468) :
    civilFromDays days = (date.year, (date.month : Int), (date.day : Int)) := by
  obtain ⟨length, inMonth⟩ := date.day_within
  have positive := date.day_pos
  have month := date.marchMonth_le
  -- the era, its year, and the day of that year
  obtain ⟨e, yoe, year, first, within⟩ : ∃ e yoe : Int, date.marchYear = 400 * e + yoe ∧ 0 ≤ yoe ∧ yoe < 400 :=
    ⟨date.marchYear / 400, date.marchYear % 400, by omega, by omega, by omega⟩
  let doy : Int := monthStart date.marchMonth + date.day - 1
  have start : 0 ≤ doy := by omega
  have last : doy ≤ 364 ∨ doy = 365 ∧ isLeap (yoe + 1) = true := by
    have leap : isLeap (date.marchYear + 1) = isLeap (yoe + 1) := by
      rw [Bool.eq_iff_iff, isLeap_iff, isLeap_iff]
      omega
    rw [leap] at length
    split at length
    next leap => exact or_iff_not_imp_left.mpr fun late => ⟨by omega, leap⟩
    next => exact .inl (by omega)
  let doe : Int := 365 * yoe + yoe / 4 - yoe / 100 + doy
  have doe_nonneg : 0 ≤ doe := by omega
  have doe_lt : doe < 146097 := by
    rw [isLeap_iff] at last
    omega
  have number : (days : Int) + 719468 = e * 146097 + doe := by
    rw [← numbered, Date.dayNumber, yearStart, year]
    omega
  have z_nonneg : (days : Int) + 719468 ≥ 0 := by omega
  have era : ((days : Int) + 719468).tdiv 146097 = e := by
    rw [Int.tdiv_eq_ediv_of_nonneg z_nonneg]
    omega
  have dayOfEra : (days : Int) + 719468 - e * 146097 = doe := by omega
  have yearOfEra : (doe - doe.tdiv 1460 + doe.tdiv 36524 - doe.tdiv 146096).tdiv 365 = yoe := by
    simp only [Int.tdiv_eq_ediv_of_nonneg doe_nonneg]
    rw [Int.tdiv_eq_ediv_of_nonneg (by omega)]
    exact year_of_era first within start last
  have dayOfYear : doe - (365 * yoe + yoe.tdiv 4 - yoe.tdiv 100) = doy := by
    simp only [Int.tdiv_eq_ediv_of_nonneg first]
    omega
  have monthOfYear : (5 * doy + 2).tdiv 153 = date.marchMonth := by
    rw [Int.tdiv_eq_ediv_of_nonneg (by omega)]
    exact (month_of_day date).1
  have dayOfMonth : doy - (153 * (date.marchMonth : Int) + 2).tdiv 5 + 1 = date.day := by
    rw [Int.tdiv_eq_ediv_of_nonneg (by omega)]
    exact (month_of_day date).2
  have calendar : (if (date.marchMonth : Int) < 10 then (date.marchMonth : Int) + 3 else date.marchMonth - 9) = date.month := by
    have from_one := date.month_pos
    have to_twelve := date.month_le
    unfold Date.marchMonth
    split <;> split <;> omega
  have shifted : (if (date.month : Int) ≤ 2 then yoe + e * 400 + 1 else yoe + e * 400) = date.year := by
    unfold Date.marchYear at year
    split <;> split at year <;> omega
  simp only [civilFromDays, z_nonneg, if_true, era, dayOfEra, yearOfEra, dayOfYear, monthOfYear,
    dayOfMonth, calendar, shifted]

/-! ### The text -/

theorem toList_zeroPadded {width : Nat} {n : Nat} (short : n < 10 ^ (width + 1)) :
    (zeroPadded (width + 1) n).toList = fixedDigits (width + 1) n := by
  simp only [zeroPadded, Int.natAbs_natCast]
  rw [if_neg (by omega), leftpad_toDigits short, String.toList_ofList]

namespace SystemTime

theorem millis_of_secs {t : SystemTime} (range : t.InRange) :
    t.durationSinceEpoch = some ⟨t.secs.toNat, t.nanos⟩ ∧ t.millis = t.secs.toNat * 1000 + t.nanos / 1000000 := by
  have bound := t.nanos_lt
  have start := range.1
  unfold sinceEpoch at start
  have later : 0 ≤ t.secs := by omega
  refine ⟨by simp [durationSinceEpoch, later], ?_⟩
  unfold millis sinceEpoch
  omega

end SystemTime

/-- The code writes the timestamp of the whole milliseconds. -/
theorem systemTimeToRfc3339_denotes {t : SystemTime} (range : t.InRange) :
    ∃ stamp : Timestamp, stamp.Denotes t.millis ∧ systemTimeToRfc3339 t = stamp.text := by
  obtain ⟨since, millis⟩ := SystemTime.millis_of_secs range
  have bound := t.nanos_lt
  have day : t.millis / 86400000 = t.secs.toNat / 86400 := by omega
  have year := range.2
  rw [day] at year
  obtain ⟨date, reached⟩ : ∃ date, date = Date.next^[t.secs.toNat / 86400] Date.epoch := ⟨_, rfl⟩
  have numbered : date.dayNumber = ((t.secs.toNat / 86400 : Nat) : Int) + 719468 := by
    rw [reached, Date.dayNumber_iterate]
    have epoch : Date.epoch.dayNumber = 719468 := by decide
    omega
  have recent : (1970 : Int) ≤ date.year := by
    rw [reached]
    exact Date.year_le_iterate Date.epoch _
  rw [← reached] at year
  let stamp : Timestamp :=
    { date
      hour := t.secs.toNat % 86400 / 3600
      minute := t.secs.toNat % 86400 % 3600 / 60
      second := t.secs.toNat % 86400 % 60
      milli := t.nanos / 1000000
      year_nonneg := by omega
      year_le := year
      hour_lt := by omega
      minute_lt := by omega
      second_lt := by omega
      milli_lt := by omega }
  refine ⟨stamp, ⟨by rw [day]; exact reached, ?_⟩, ?_⟩
  · simp only [stamp, Timestamp.timeOfDay]
    omega
  · obtain ⟨year, month, day, hour, minute, second, milli⟩ := stamp.fits
    have civil : civilFromDays (t.secs.toNat / 86400) =
        ((stamp.date.year.toNat : Int), (stamp.date.month : Int), (stamp.date.day : Int)) := by
      rw [civilFromDays_eq numbered, Int.toNat_of_nonneg stamp.year_nonneg]
    rw [← String.toList_inj, Timestamp.text, String.toList_ofList]
    simp only [systemTimeToRfc3339, since, Option.getD_some, civil, Duration.subsecMillis,
      String.toList_append]
    rw [toList_zeroPadded year, toList_zeroPadded month, toList_zeroPadded day,
      toList_zeroPadded hour, toList_zeroPadded minute, toList_zeroPadded second, toList_zeroPadded milli]
    simp [Timestamp.fields, Field.text]

/-- For every instant from the epoch to the end of the year 9999: the code writes its timestamp,
and timestamps sort as their instants do and tell milliseconds apart. -/
theorem systemTimeToRfc3339_sorts {s t : SystemTime} (first : s.InRange) (second : t.InRange) :
    (∃ stamp : Timestamp, stamp.Denotes s.millis ∧ systemTimeToRfc3339 s = stamp.text) ∧
    (s.sinceEpoch ≤ t.sinceEpoch → systemTimeToRfc3339 s ≤ systemTimeToRfc3339 t) ∧
    (s.millis ≠ t.millis → systemTimeToRfc3339 s ≠ systemTimeToRfc3339 t) := by
  obtain ⟨stamp, denotes, text⟩ := systemTimeToRfc3339_denotes first
  obtain ⟨other, denotes', text'⟩ := systemTimeToRfc3339_denotes second
  rw [text, text']
  refine ⟨⟨stamp, denotes, rfl⟩, fun ordered => ?_, fun distinct => ?_⟩
  · have millis : s.millis ≤ t.millis := by
      unfold SystemTime.millis
      omega
    rcases Nat.lt_or_eq_of_le millis with earlier | same
    · exact le_of_lt (denotes.text_lt denotes' earlier)
    · rw [same] at denotes
      exact le_of_eq (denotes.text_eq denotes')
  · rcases Nat.lt_or_gt_of_ne distinct with earlier | later
    · exact ne_of_lt (denotes.text_lt denotes' earlier)
    · exact (ne_of_lt (denotes'.text_lt denotes later)).symm

/-! The format's own example, and the first two seconds. -/

example : systemTimeToRfc3339 ⟨1752093694, 123456789, by decide⟩ = "2025-07-09T20:41:34.123Z" := by
  decide

namespace FirstSecond

def start : SystemTime := ⟨0, 0, by decide⟩

def later : SystemTime := ⟨1, 999999999, by decide⟩

theorem first_second_sorts :
    (∃ stamp : Timestamp, stamp.Denotes start.millis ∧ systemTimeToRfc3339 start = stamp.text) ∧
    (start.sinceEpoch ≤ later.sinceEpoch → systemTimeToRfc3339 start ≤ systemTimeToRfc3339 later) ∧
    (start.millis ≠ later.millis → systemTimeToRfc3339 start ≠ systemTimeToRfc3339 later) :=
  systemTimeToRfc3339_sorts ⟨by decide, by decide⟩ ⟨by decide, by decide⟩

end FirstSecond

end Webfang.Observability
