import Mathlib.Algebra.Order.Group.Abs
import Simple.Lib.Calendar
import Simple.Lib.Checked

/-! Broken-down times, and the offset of a local time from UTC. -/

namespace Simple.Utils.Time

open Simple.Lib Simple.Lib.Calendar

structure Tm where
  tmSec : ℤ
  tmMin : ℤ
  tmHour : ℤ
  tmMday : ℤ
  tmMon : ℤ
  tmYear : ℤ
  tmWday : ℤ
  tmYday : ℤ
  deriving DecidableEq

structure DateTime where
  date : Date
  hour : ℕ
  minute : ℕ
  second : ℕ
  hour_lt : hour < 24
  minute_lt : minute < 60
  second_le : second ≤ 60

def DateTime.tm (t : DateTime) : Tm where
  tmSec := t.second
  tmMin := t.minute
  tmHour := t.hour
  tmMday := t.date.day
  tmMon := t.date.month - 1
  tmYear := t.date.year - 1900
  tmWday := (t.date.number + 1) % 7
  tmYday := t.date.yearDay

def DateTime.minutes (t : DateTime) : ℕ := (t.date.number * 24 + t.hour) * 60 + t.minute

/-- `std::chrono::system_clock::time_point`: nanoseconds since 1970 in 64 bits. -/
structure TimePoint where
  ns : ℤ
  lower : -2 ^ 63 ≤ ns
  upper : ns < 2 ^ 63

/-- `duration_cast<seconds>(point.time_since_epoch())` and `to_time_t`, which both truncate. -/
def TimePoint.seconds (p : TimePoint) : ℤ := p.ns.tdiv 1000000000

def epochDay : ℕ := 719162

example : yearsLength 1969 = epochDay := by
  have h := yearsLength_eq 1969
  rw [epochDay]
  omega

def utc (seconds : ℤ) : DateTime where
  date := Date.ofNumber (epochDay + seconds / 86400).toNat
  hour := (seconds % 86400 / 3600).toNat
  minute := (seconds % 3600 / 60).toNat
  second := (seconds % 60).toNat
  hour_lt := by omega
  minute_lt := by omega
  second_le := by omega

def gmtime (p : TimePoint) : Tm := (utc p.seconds).tm

def DateTime.seconds (t : DateTime) : ℤ :=
  ((t.date.number - epochDay : ℤ) * 24 + t.hour) * 3600 + t.minute * 60 + t.second

lemma seconds_utc {seconds : ℤ} (h : 0 ≤ epochDay + seconds / 86400) :
    (utc seconds).seconds = seconds := by
  simp only [DateTime.seconds, utc, Date.number_ofNumber, Int.toNat_of_nonneg h]
  omega

lemma TimePoint.seconds_bounds (p : TimePoint) :
    -9223372037 ≤ p.seconds ∧ p.seconds ≤ 9223372036 := by
  constructor
  · exact le_trans (by decide) (Int.tdiv_le_tdiv (by decide) p.lower)
  · exact (Int.tdiv_le_tdiv (by decide) p.upper.le).trans (by decide)

lemma TimePoint.seconds_utc (p : TimePoint) : (utc p.seconds).seconds = p.seconds := by
  have hlow := p.seconds_bounds.1
  apply Time.seconds_utc
  rw [epochDay]
  omega

/-- `int` checks the result of each operation on `int`: `some` lets every value pass. -/
def offsetMinutes (int : ℤ → Option ℤ) (gm lc : Tm) : Option ℤ := do
  let localYear ← int (lc.tmYear + (1900 - 1))
  let gmYear ← int (gm.tmYear + (1900 - 1))
  let days ← int (lc.tmYday - gm.tmYday)
  let fours ← int ((localYear >>> (2 : ℕ)) - (gmYear >>> (2 : ℕ)))
  let hundreds ← int (localYear.tdiv 100 - gmYear.tdiv 100)
  let leaps ← int (fours - hundreds)
  let cycles ← int ((localYear.tdiv 100 >>> (2 : ℕ)) - (gmYear.tdiv 100 >>> (2 : ℕ)))
  let leaps ← int (leaps + cycles)
  let days ← int (days + leaps)
  let years ← int (localYear - gmYear)
  let years ← int (years * 365)
  let days ← int (days + years)
  let dayHours ← int (24 * days)
  let hours ← int (lc.tmHour - gm.tmHour)
  let hours ← int (dayHours + hours)
  let hourMinutes ← int (60 * hours)
  let minutes ← int (lc.tmMin - gm.tmMin)
  int (hourMinutes + minutes)

def utcMinutesOffset (int : ℤ → Option ℤ) (tp : TimePoint) (lc : Tm) : Option ℤ :=
  offsetMinutes int (gmtime tp) lc

namespace DateTime

variable (t : DateTime)

def years : ℕ := t.date.year - 1

lemma tmYear_eq : t.tm.tmYear + (1900 - 1) = t.years := by
  have hpos := t.date.year_pos
  simp only [tm, years]
  omega

lemma yearDay_le : t.date.yearDay ≤ 365 := by
  have hlt := t.date.yearDay_lt
  have hle := (yearLength_bounds t.date.year).2
  omega

lemma number_eq : t.date.number + t.years / 100 =
    365 * t.years + t.years / 4 + t.years / 100 / 4 + t.date.yearDay := by
  have h := yearsLength_eq t.years
  rw [Date.number, ← years, Nat.div_div_eq_div_mul]
  omega

end DateTime

lemma shift_two (n : ℕ) : (n : ℤ) >>> (2 : ℕ) = (n / 4 : ℕ) := by
  rw [Int.shiftRight_eq_div_pow]
  rfl

lemma tdiv_hundred (n : ℕ) : (n : ℤ).tdiv 100 = (n / 100 : ℕ) := rfl

lemma bind_of_eq_some {m : Option ℤ} {n : ℤ} {f : ℤ → Option ℤ} (h : m = some n) :
    (m >>= f) = f n := by
  rw [h]
  rfl

variable (lc gm : DateTime)

/-- What the operations compute, with every division one of naturals. -/
lemma minutes_sub :
    60 * (24 * ((lc.date.yearDay : ℤ) - gm.date.yearDay +
        (((lc.years / 4 : ℕ) : ℤ) - (gm.years / 4 : ℕ) -
          (((lc.years / 100 : ℕ) : ℤ) - (gm.years / 100 : ℕ)) +
          (((lc.years / 100 / 4 : ℕ) : ℤ) - (gm.years / 100 / 4 : ℕ))) +
        ((lc.years : ℤ) - gm.years) * 365) + ((lc.hour : ℤ) - gm.hour)) +
        ((lc.minute : ℤ) - gm.minute) =
      (lc.minutes : ℤ) - gm.minutes := by
  have hlc := lc.number_eq
  have hgm := gm.number_eq
  simp only [DateTime.minutes]
  omega

lemma offsetMinutes_some :
    offsetMinutes some gm.tm lc.tm = some ((lc.minutes : ℤ) - gm.minutes) := by
  rw [offsetMinutes, DateTime.tmYear_eq, DateTime.tmYear_eq, bind_of_eq_some rfl, bind_of_eq_some rfl,
    shift_two, shift_two, tdiv_hundred, tdiv_hundred, shift_two, shift_two]
  exact congrArg some (minutes_sub lc gm)

variable {lc gm}

lemma year_le_of_close (hday : |(lc.minutes : ℤ) - gm.minutes| ≤ 24 * 60) :
    lc.date.year ≤ gm.date.year + 1 := by
  obtain ⟨hlow, hhigh⟩ := abs_le.mp hday
  have hlc := lc.hour_lt
  have hgm := gm.hour_lt
  have hlcMinute := lc.minute_lt
  have hgmMinute := gm.minute_lt
  simp only [DateTime.minutes] at hlow hhigh
  exact Date.year_le_of_number_le (by omega)

/-- No value leaves 32 bits: the two years differ by one at most. -/
lemma offsetMinutes_int32 (hday : |(lc.minutes : ℤ) - gm.minutes| ≤ 24 * 60)
    (hlc : lc.date.year ≤ 2 ^ 31) (hgm : gm.date.year ≤ 2 ^ 31) :
    offsetMinutes int32 gm.tm lc.tm = some ((lc.minutes : ℤ) - gm.minutes) := by
  have hlcYear := year_le_of_close hday
  have hgmYear : gm.date.year ≤ lc.date.year + 1 := by
    rw [abs_sub_comm] at hday
    exact year_le_of_close hday
  obtain ⟨hlow, hhigh⟩ := abs_le.mp hday
  have hlcHour := lc.hour_lt
  have hgmHour := gm.hour_lt
  have hlcMinute := lc.minute_lt
  have hgmMinute := gm.minute_lt
  have hlcYears : lc.years ≤ gm.years + 1 ∧ lc.years < 2 ^ 31 := by
    simp only [DateTime.years]
    omega
  have hgmYears : gm.years ≤ lc.years + 1 ∧ gm.years < 2 ^ 31 := by
    simp only [DateTime.years]
    omega
  have hlcDay := lc.yearDay_le
  have hgmDay := gm.yearDay_le
  have hfours : lc.years / 4 ≤ gm.years / 4 + 1 ∧ gm.years / 4 ≤ lc.years / 4 + 1 := by omega
  have hhundreds : lc.years / 100 ≤ gm.years / 100 + 1 ∧ gm.years / 100 ≤ lc.years / 100 + 1 := by omega
  have hcycles : lc.years / 100 / 4 ≤ gm.years / 100 / 4 + 1 ∧
      gm.years / 100 / 4 ≤ lc.years / 100 / 4 + 1 := by omega
  clear hday hlow hhigh hlcYear hgmYear hlc hgm
  rw [offsetMinutes, DateTime.tmYear_eq, DateTime.tmYear_eq,
    bind_of_eq_some (int32_of_fits (by omega)), bind_of_eq_some (int32_of_fits (by omega)),
    shift_two, shift_two, tdiv_hundred, tdiv_hundred, shift_two, shift_two, ← minutes_sub]
  simp only [DateTime.tm]
  generalize lc.years / 100 / 4 = lcCycles at *
  generalize gm.years / 100 / 4 = gmCycles at *
  generalize lc.years / 100 = lcHundreds at *
  generalize gm.years / 100 = gmHundreds at *
  generalize lc.years / 4 = lcFours at *
  generalize gm.years / 4 = gmFours at *
  repeat rw [bind_of_eq_some (int32_of_fits (by omega))]
  exact int32_of_fits (by omega)

lemma utc_year_le (p : TimePoint) : (utc p.seconds).date.year ≤ 2263 := by
  have hseconds := p.seconds_bounds.2
  have hnumber : (utc p.seconds).date.number ≤ 825914 := by
    rw [utc, Date.number_ofNumber, epochDay]
    omega
  have hyears := yearsLength_eq (utc p.seconds).years
  rw [Date.number, ← DateTime.years] at hnumber
  rw [DateTime.years] at hyears hnumber
  omega

theorem utc_minutes_offset_exact :
    (∀ lc gm : DateTime,
      offsetMinutes some gm.tm lc.tm = some ((lc.minutes : ℤ) - gm.minutes)) ∧
    (∀ lc gm : DateTime, |(lc.minutes : ℤ) - gm.minutes| ≤ 24 * 60 →
      lc.date.year ≤ 2 ^ 31 → gm.date.year ≤ 2 ^ 31 →
      offsetMinutes int32 gm.tm lc.tm = some ((lc.minutes : ℤ) - gm.minutes)) ∧
    ∀ (tp : TimePoint) (lc : DateTime),
      |(lc.minutes : ℤ) - (utc tp.seconds).minutes| ≤ 24 * 60 →
      utcMinutesOffset int32 tp lc.tm = some ((lc.minutes : ℤ) - (utc tp.seconds).minutes) := by
  refine ⟨offsetMinutes_some, fun lc gm => offsetMinutes_int32, fun tp lc hday => ?_⟩
  have hgm := utc_year_le tp
  have hlc := year_le_of_close hday
  exact offsetMinutes_int32 hday (by omega) (by omega)

/-- Half past seven on the first of January 2001, seven hours and three quarters ahead of UTC. -/
theorem utc_minutes_offset_new_year :
    utcMinutesOffset int32 ⟨978306300000000000, by decide, by decide⟩
        (DateTime.tm ⟨⟨2001, 1, 1, by decide, by decide, by decide, by decide⟩, 7, 30, 0, by decide,
          by decide, by decide⟩) = some 465 :=
  (utc_minutes_offset_exact.2.2 ⟨978306300000000000, by decide, by decide⟩
    ⟨⟨2001, 1, 1, by decide, by decide, by decide, by decide⟩, 7, 30, 0, by decide, by decide,
      by decide⟩ (by decide +kernel)).trans (by decide +kernel)

end Simple.Utils.Time
