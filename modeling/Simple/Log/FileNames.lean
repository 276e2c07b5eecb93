import Mathlib.Data.List.TakeWhile
import Simple.Utils.Time

/-! The names of the log files. -/

namespace Simple.Log

open Simple.Lib.Calendar Simple.Utils.Time

abbrev Text := List Char

inductive LogTimeType
  | localTime
  | utc
  deriving DecidableEq

def nul : Char := Char.ofNat 0

/-- The name of a file holds no zero character, at which `c_str()` would end. -/
structure FileAppenderConfig where
  name : Text
  logDirectory : Text
  maxSize : ℕ := 0
  fileTime : LogTimeType := .localTime
  dailyRoll : Bool := false
  nul_notMem : nul ∉ name

def cStr (t : Text) : Text := t.takeWhile (· ≠ nul)

def twoDigits (n : ℕ) : Text := [(n / 10 % 10).digitChar, (n % 10).digitChar]

def decimalText (n : ℕ) : Text := Nat.toDigits 10 n

def yearText (year : ℕ) : Text :=
  if year < 10000 then twoDigits (year / 100) ++ twoDigits (year % 100) else decimalText year

/-- `%Y-%m-%d_%H-%M-%S` -/
def timeText (tm : Tm) : Text :=
  yearText (1900 + tm.tmYear).toNat ++ '-' :: (twoDigits (tm.tmMon + 1).toNat ++
    '-' :: (twoDigits tm.tmMday.toNat ++ '_' :: (twoDigits tm.tmHour.toNat ++
      '-' :: (twoDigits tm.tmMin.toNat ++ '-' :: twoDigits tm.tmSec.toNat))))

/-- `operator/=` of `std::filesystem::path`. -/
def appendPath (dir file : Text) : Text :=
  if file.head? = some '/' then file
  else if dir = [] ∨ dir.getLast? = some '/' then dir ++ file
  else dir ++ '/' :: file

def extension : Text := ".log".toList

def idText (id : ℕ) : Text := if id = 0 then [] else '_' :: decimalText id

def fileName (config : FileAppenderConfig) (pid : ℕ) (tm : Tm) (id : ℕ) : Text :=
  config.name ++ '_' :: (timeText tm ++ '_' :: (decimalText pid ++ (idText id ++ extension)))

def fullName (config : FileAppenderConfig) (pid : ℕ) (tm : Tm) (id : ℕ) : Text :=
  appendPath (cStr config.logDirectory) (cStr (fileName config pid tm id))

lemma decimalText_injective {m n : ℕ} (h : decimalText m = decimalText n) : m = n := by
  have hvalue := congrArg (fun t => Nat.ofDigitChars 10 t 0) h
  simpa only [decimalText, Nat.ofDigitChars_ten_toDigits] using hvalue

lemma twoDigits_injective {m n : ℕ} (hm : m < 100) (hn : n < 100) (h : twoDigits m = twoDigits n) :
    m = n := by
  have hvalue (k : ℕ) (hk : k < 100) : Nat.ofDigitChars 10 (twoDigits k) 0 = k := by
    rw [twoDigits, Nat.ofDigitChars_cons_digitChar_of_lt_ten (by omega),
      Nat.ofDigitChars_cons_digitChar_of_lt_ten (by omega), Nat.ofDigitChars_nil]
    omega
  rw [← hvalue m hm, h, hvalue n hn]

lemma idText_injective {i j : ℕ} (h : idText i ++ extension = idText j ++ extension) : i = j := by
  have h := List.append_cancel_right h
  unfold idText at h
  split_ifs at h with hi hj
  · rw [hi, hj]
  · exact decimalText_injective (List.cons.inj h).2

lemma yearText_eq {year : ℕ} (h : year < 10000) :
    yearText year = twoDigits (year / 100) ++ twoDigits (year % 100) := if_pos h

lemma timeText_tm {t : DateTime} (h : t.date.year < 10000) :
    timeText t.tm = twoDigits (t.date.year / 100) ++ (twoDigits (t.date.year % 100) ++
      '-' :: (twoDigits t.date.month ++ '-' :: (twoDigits t.date.day ++ '_' :: (twoDigits t.hour ++
        '-' :: (twoDigits t.minute ++ '-' :: twoDigits t.second))))) := by
  have hyear : (1900 + t.tm.tmYear).toNat = t.date.year := by
    simp only [DateTime.tm]
    omega
  have hmonth : (t.tm.tmMon + 1).toNat = t.date.month := by
    simp only [DateTime.tm]
    omega
  rw [timeText, hyear, hmonth, yearText_eq h, List.append_assoc]
  rfl

lemma timeText_length {t : DateTime} (h : t.date.year < 10000) : (timeText t.tm).length = 19 := by
  rw [timeText_tm h]
  rfl

lemma timeText_injective {t u : DateTime} (ht : t.date.year < 10000) (hu : u.date.year < 10000)
    (h : timeText t.tm = timeText u.tm) : t.seconds = u.seconds := by
  rw [timeText_tm ht, timeText_tm hu] at h
  obtain ⟨hcentury, h⟩ := List.append_inj h rfl
  obtain ⟨hyear, h⟩ := List.append_inj h rfl
  obtain ⟨hmonth, h⟩ := List.append_inj (List.cons.inj h).2 rfl
  obtain ⟨hday, h⟩ := List.append_inj (List.cons.inj h).2 rfl
  obtain ⟨hhour, h⟩ := List.append_inj (List.cons.inj h).2 rfl
  obtain ⟨hminute, h⟩ := List.append_inj (List.cons.inj h).2 rfl
  have htmonth := t.date.month_le
  have humonth := u.date.month_le
  have hthour := t.hour_lt
  have huhour := u.hour_lt
  have htminute := t.minute_lt
  have huminute := u.minute_lt
  have htsecond := t.second_le
  have husecond := u.second_le
  have hcentury := twoDigits_injective (by omega) (by omega) hcentury
  have hyear := twoDigits_injective (by omega) (by omega) hyear
  have hdate : t.date.number = u.date.number :=
    Date.number_congr (by omega) (twoDigits_injective (by omega) (by omega) hmonth)
      (twoDigits_injective t.date.day_lt_hundred u.date.day_lt_hundred hday)
  rw [DateTime.seconds, DateTime.seconds, hdate,
    twoDigits_injective (by omega) (by omega) hhour,
    twoDigits_injective (by omega) (by omega) hminute,
    twoDigits_injective (by omega) (by omega) (List.cons.inj h).2]

section Names

variable {config : FileAppenderConfig} {pid : ℕ}

lemma nul_notMem_digits {n : ℕ} : nul ∉ Nat.toDigits 10 n := by
  intro h
  exact absurd (Nat.isDigit_of_mem_toDigits (by decide) (by decide) h) (by decide)

lemma nul_notMem_twoDigits (n : ℕ) : nul ∉ twoDigits n := by
  have hdigit : ∀ d < 10, nul ≠ d.digitChar := by decide
  simp only [twoDigits, List.mem_cons, List.not_mem_nil, or_false, not_or]
  exact ⟨hdigit _ (Nat.mod_lt _ (by decide)), hdigit _ (Nat.mod_lt _ (by decide))⟩

lemma cStr_eq {t : Text} (h : nul ∉ t) : cStr t = t := by
  rw [cStr, List.takeWhile_eq_self_iff]
  intro c hc
  exact decide_eq_true fun heq => h (heq ▸ hc)

lemma nul_notMem_yearText (year : ℕ) : nul ∉ yearText year := by
  unfold yearText
  split
  · simp [nul_notMem_twoDigits]
  · exact nul_notMem_digits

lemma nul_notMem_fileName (tm : Tm) (id : ℕ) : nul ∉ fileName config pid tm id := by
  have hchars : nul ≠ '_' ∧ nul ≠ '-' ∧ nul ∉ extension := by decide
  have hid : nul ∉ idText id := by
    unfold idText
    split
    · exact List.not_mem_nil
    · simp [hchars.1, decimalText, nul_notMem_digits]
  simp [fileName, timeText, config.nul_notMem, hchars, hid, decimalText, nul_notMem_digits,
    nul_notMem_twoDigits, nul_notMem_yearText]

lemma appendPath_injective {dir a b : Text} (hhead : a.head? = b.head?)
    (h : appendPath dir a = appendPath dir b) : a = b := by
  unfold appendPath at h
  rw [hhead] at h
  split_ifs at h
  · exact h
  · exact List.append_cancel_left h
  · exact (List.cons.inj (List.append_cancel_left h)).2

lemma fullName_injective {t u : DateTime} {i j : ℕ} (ht : t.date.year < 10000)
    (hu : u.date.year < 10000) (h : fullName config pid t.tm i = fullName config pid u.tm j) :
    t.seconds = u.seconds ∧ i = j := by
  rw [fullName, fullName, cStr_eq (nul_notMem_fileName _ _), cStr_eq (nul_notMem_fileName _ _)] at h
  have hhead : (fileName config pid t.tm i).head? = (fileName config pid u.tm j).head? := by
    simp only [fileName, List.head?_append, List.head?_cons]
  have hname := (List.cons.inj (List.append_cancel_left (appendPath_injective hhead h))).2
  obtain ⟨htime, hrest⟩ := List.append_inj hname (by rw [timeText_length ht, timeText_length hu])
  exact ⟨timeText_injective ht hu htime,
    idText_injective (List.append_cancel_left (List.cons.inj hrest).2)⟩

end Names

end Simple.Log
