import Mathlib.Algebra.BigOperators.Group.List.Basic
import Mathlib.Algebra.Order.Ring.Int
import Mathlib.Data.List.GetD

/-! The proleptic Gregorian calendar from its first year on: dates, the days that lie before them,
and the date of the n-th day. -/

namespace Simple.Lib.Calendar

def Leap (year : ℕ) : Prop := 4 ∣ year ∧ (100 ∣ year → 400 ∣ year)

instance (year : ℕ) : Decidable (Leap year) := inferInstanceAs (Decidable (_ ∧ _))

def yearLength (year : ℕ) : ℕ := if Leap year then 366 else 365

/-- The days of the first `years` years. -/
def yearsLength : ℕ → ℕ
  | 0 => 0
  | years + 1 => yearsLength years + yearLength (years + 1)

def monthLengths (year : ℕ) : List ℕ :=
  [31, if Leap year then 29 else 28, 31, 30, 31, 30, 31, 31, 30, 31, 30, 31]

@[simp] lemma monthLengths_length (year : ℕ) : (monthLengths year).length = 12 := rfl

lemma monthLengths_sum (year : ℕ) : (monthLengths year).sum = yearLength year := by
  unfold monthLengths yearLength
  split <;> rfl

lemma yearLength_bounds (year : ℕ) : 365 ≤ yearLength year ∧ yearLength year ≤ 366 := by
  unfold yearLength
  split <;> omega

lemma yearsLength_eq (years : ℕ) :
    yearsLength years + years / 100 = 365 * years + years / 4 + years / 400 := by
  induction years with
  | zero => rfl
  | succ years ih =>
    rw [yearsLength, yearLength]
    split_ifs with h
    · obtain ⟨hfour, hhundred⟩ := h
      by_cases hc : 100 ∣ years + 1
      · have := hhundred hc
        omega
      · omega
    · by_cases hfour : 4 ∣ years + 1
      · have hc : 100 ∣ years + 1 ∧ ¬400 ∣ years + 1 := by
          by_contra hcon
          exact h ⟨hfour, fun hc => by_contra fun hf => hcon ⟨hc, hf⟩⟩
        omega
      · omega

lemma yearsLength_mono {m n : ℕ} (h : m ≤ n) : yearsLength m ≤ yearsLength n := by
  induction n, h using Nat.le_induction with
  | base => exact le_rfl
  | succ n _ ih => exact ih.trans (Nat.le_add_right _ _)

lemma yearsLength_cycles {q c f y : ℕ} (hc : c ≤ 3) (hf : f ≤ 24) (hy : y ≤ 3) :
    yearsLength (400 * q + 100 * c + 4 * f + y) =
      146097 * q + 36524 * c + 1461 * f + 365 * y := by
  have hfour : (400 * q + 100 * c + 4 * f + y) / 4 = 100 * q + 25 * c + f := by omega
  have hhundred : (400 * q + 100 * c + 4 * f + y) / 100 = 4 * q + c := by omega
  have hcycle : (400 * q + 100 * c + 4 * f + y) / 400 = q := by omega
  have hcount := yearsLength_eq (400 * q + 100 * c + 4 * f + y)
  rw [hfour, hhundred, hcycle] at hcount
  omega

lemma leap_cycles {q c f : ℕ} (h : f = 24 → c = 3) (hf : f ≤ 24) :
    Leap (400 * q + 100 * c + 4 * f + 3 + 1) := by
  constructor
  · omega
  · intro hhundred
    have : f = 24 := by omega
    have := h this
    omega

/-- The piece in which the `n`-th unit lies, and its place there. -/
def place : List ℕ → ℕ → ℕ × ℕ
  | [], n => (0, n)
  | l :: ls, n => if n < l then (0, n) else ((place ls (n - l)).1 + 1, (place ls (n - l)).2)

lemma place_spec {ls : List ℕ} {n : ℕ} (h : n < ls.sum) :
    (place ls n).1 < ls.length ∧ (place ls n).2 < ls.getD (place ls n).1 0 ∧
      (ls.take (place ls n).1).sum + (place ls n).2 = n := by
  induction ls generalizing n with
  | nil => cases h
  | cons l ls ih =>
    rw [place]
    split_ifs with hl
    · simpa using hl
    · rw [List.sum_cons] at h
      obtain ⟨hindex, hrest, hsum⟩ := ih (n := n - l) (by omega)
      simp only [List.length_cons, List.getD_cons_succ, List.take_succ_cons, List.sum_cons]
      omega

lemma sum_take_add_lt {ls : List ℕ} {i r : ℕ} (h : r < ls.getD i 0) :
    (ls.take i).sum + r < ls.sum := by
  induction ls generalizing i with
  | nil => simp at h
  | cons l ls ih =>
    cases i with
    | zero =>
      rw [List.getD_cons_zero] at h
      simp only [List.take_zero, List.sum_nil, List.sum_cons]
      omega
    | succ i =>
      rw [List.getD_cons_succ] at h
      have := ih h
      simp only [List.take_succ_cons, List.sum_cons]
      omega

structure Date where
  year : ℕ
  month : ℕ
  day : ℕ
  year_pos : 0 < year
  month_pos : 0 < month
  day_pos : 0 < day
  day_le : day ≤ (monthLengths year).getD (month - 1) 0

namespace Date

def yearDay (d : Date) : ℕ := ((monthLengths d.year).take (d.month - 1)).sum + (d.day - 1)

def number (d : Date) : ℕ := yearsLength (d.year - 1) + d.yearDay

lemma yearDay_lt (d : Date) : d.yearDay < yearLength d.year := by
  have hpos := d.day_pos
  have hle := d.day_le
  rw [← monthLengths_sum]
  exact sum_take_add_lt (by omega)

lemma number_congr {d e : Date} (hyear : d.year = e.year) (hmonth : d.month = e.month)
    (hday : d.day = e.day) : d.number = e.number := by
  rw [number, number, yearDay, yearDay, hyear, hmonth, hday]

lemma day_lt_hundred (d : Date) : d.day < 100 := by
  have hle := d.day_le
  have hlengths (i : ℕ) : (monthLengths d.year).getD i 0 ≤ 31 := by
    by_cases hi : i < 12
    · have hmem : (monthLengths d.year).getD i 0 ∈ monthLengths d.year := by
        rw [List.getD_eq_getElem _ _ hi]
        exact List.getElem_mem _
      have hall : ∀ l ∈ monthLengths d.year, l ≤ 31 := by
        unfold monthLengths
        split <;> decide
      exact hall _ hmem
    · rw [List.getD_eq_default _ _ (by rw [monthLengths_length]; omega)]
      omega
  have := hlengths (d.month - 1)
  omega

lemma month_le (d : Date) : d.month ≤ 12 := by
  have hpos := d.day_pos
  have hle := d.day_le
  by_contra h
  rw [List.getD_eq_default _ _ (by rw [monthLengths_length]; omega)] at hle
  omega

/-- The whole years before the `n`-th day: 400, 100, 4 years and one year are taken out in turn. -/
def yearsBefore (n : ℕ) : ℕ :=
  let r := n % 146097
  let centuries := min 3 (r / 36524)
  let r := r - centuries * 36524
  let rest := r % 1461
  n / 146097 * 400 + centuries * 100 + r / 1461 * 4 + min 3 (rest / 365)

lemma yearsBefore_spec (n : ℕ) :
    yearsLength (yearsBefore n) ≤ n ∧ n < yearsLength (yearsBefore n + 1) := by
  obtain ⟨q, hq⟩ : ∃ q, q = n / 146097 := ⟨_, rfl⟩
  obtain ⟨r, hr⟩ : ∃ r, r = n % 146097 := ⟨_, rfl⟩
  have hcycle : n = 146097 * q + r ∧ r < 146097 := by omega
  obtain ⟨c, hc⟩ : ∃ c, c = min 3 (r / 36524) := ⟨_, rfl⟩
  obtain ⟨s, hs⟩ : ∃ s, s = r - c * 36524 := ⟨_, rfl⟩
  have hcentury : r = 36524 * c + s ∧ c ≤ 3 ∧ s ≤ 36524 ∧ (s = 36524 → c = 3) := by omega
  obtain ⟨f, hf⟩ : ∃ f, f = s / 1461 := ⟨_, rfl⟩
  obtain ⟨t, ht⟩ : ∃ t, t = s % 1461 := ⟨_, rfl⟩
  have hfour : s = 1461 * f + t ∧ t < 1461 := by omega
  obtain ⟨y, hy⟩ : ∃ y, y = min 3 (t / 365) := ⟨_, rfl⟩
  have hyear : y ≤ 3 ∧ 365 * y ≤ t ∧ (y = 3 ∨ t < 365 * y + 365) := by omega
  have hyears : yearsBefore n = 400 * q + 100 * c + 4 * f + y := by
    simp only [yearsBefore, ← hq, ← hr, ← hc, ← hs, ← hf, ← ht, ← hy]
    omega
  clear hq hr hc hs hf ht hy
  have hf24 : f ≤ 24 := by omega
  have hstart := yearsLength_cycles (q := q) hcentury.2.1 hf24 hyear.1
  rw [hyears, yearsLength, hstart]
  refine ⟨by omega, ?_⟩
  have hlength := (yearLength_bounds (400 * q + 100 * c + 4 * f + y + 1)).1
  by_cases hlast : t = 1460
  · -- The last day of four years: the year it ends is a leap year.
    obtain rfl : y = 3 := by omega
    rw [yearLength, if_pos (leap_cycles (by omega) hf24)]
    omega
  · omega

lemma day_lt (n : ℕ) :
    n - yearsLength (yearsBefore n) < (monthLengths (yearsBefore n + 1)).sum := by
  have h := yearsBefore_spec n
  rw [yearsLength] at h
  rw [monthLengths_sum]
  omega

/-- The date before which there are `n` days. -/
def ofNumber (n : ℕ) : Date where
  year := yearsBefore n + 1
  month := (place (monthLengths (yearsBefore n + 1)) (n - yearsLength (yearsBefore n))).1 + 1
  day := (place (monthLengths (yearsBefore n + 1)) (n - yearsLength (yearsBefore n))).2 + 1
  year_pos := Nat.succ_pos _
  month_pos := Nat.succ_pos _
  day_pos := Nat.succ_pos _
  day_le := (place_spec (day_lt n)).2.1

lemma number_ofNumber (n : ℕ) : (ofNumber n).number = n := by
  have hsum := (place_spec (day_lt n)).2.2
  have hle := (yearsBefore_spec n).1
  simp only [number, yearDay, ofNumber, Nat.add_sub_cancel]
  omega

lemma year_le_of_number_le {d e : Date} (h : d.number ≤ e.number + 1) : d.year ≤ e.year + 1 := by
  by_contra hlt
  have hd := d.year_pos
  have he := e.yearDay_lt
  have hpos := e.year_pos
  have hnext := (yearLength_bounds (e.year + 1)).1
  have hmono := yearsLength_mono (show e.year - 1 + 1 + 1 ≤ d.year - 1 by omega)
  rw [yearsLength, yearsLength, Nat.sub_add_cancel hpos] at hmono
  simp only [number] at h
  omega

end Date

end Simple.Lib.Calendar
