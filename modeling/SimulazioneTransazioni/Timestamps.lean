import SimulazioneTransazioni.Common
import SimulazioneTransazioni.Library.Spans
import SimulazioneTransazioni.Library.Texts

/-!
formatted_timestamp, with the gmtime_r and strftime that it calls. The calendar is the
Gregorian one in both directions, counted in periods of 400 years. The text of a time
that does not fit the buffers is undefined.
-/
namespace SimulazioneTransazioni.Timestamps

open Spans Texts Finset

structure Tm where
  tmSec : ℕ
  tmMin : ℕ
  tmHour : ℕ
  tmMday : ℕ
  tmMon : ℕ
  tmYear : ℤ
deriving DecidableEq

section Calendar

def Leap (year : ℤ) : Prop := 4 ∣ year ∧ (¬ 100 ∣ year ∨ 400 ∣ year)

instance (year : ℤ) : Decidable (Leap year) := inferInstanceAs (Decidable (_ ∧ _))

def yearLength (year : ℤ) : ℕ := if Leap year then 366 else 365

def monthLength (year : ℤ) (mon : ℕ) : ℕ :=
  [31, if Leap year then 29 else 28, 31, 30, 31, 30, 31, 31, 30, 31, 30, 31].getD mon 0

/-- The year of a day and the days of that year before it. Day 0 is the first of the year 1. -/
def yearOf (day : ℤ) : ℤ × ℕ :=
  let (passed, yday) := peel (fun i => yearLength (i + 1)) 400 0 (day % 146097).toNat
  (400 * (day / 146097) + passed + 1, yday)

def gmtimeR (seconds : ℤ) : Option Tm :=
  let rem := (seconds % 86400).toNat
  let (year, yday) := yearOf (seconds / 86400 + 719162)
  let (mon, mday) := peel (monthLength year) 12 0 yday
  if -2 ^ 31 ≤ year - 1900 ∧ year - 1900 < 2 ^ 31 then
    some { tmSec := rem % 60, tmMin := rem / 60 % 60, tmHour := rem / 3600,
           tmMday := mday + 1, tmMon := mon, tmYear := year - 1900 }
  else none

def firstDay (year : ℤ) : ℤ :=
  365 * (year - 1) + (year - 1) / 4 - (year - 1) / 100 + (year - 1) / 400

/-- The formula of POSIX for the seconds since the epoch. -/
def secondsSinceEpoch (time : Tm) : ℤ :=
  let yday : ℤ := ∑ i ∈ range time.tmMon, monthLength (time.tmYear + 1900) i + time.tmMday - 1
  time.tmSec + time.tmMin * 60 + time.tmHour * 3600 + yday * 86400 +
    (time.tmYear - 70) * 31536000 + (time.tmYear - 69) / 4 * 86400 -
    (time.tmYear - 1) / 100 * 86400 + (time.tmYear + 299) / 400 * 86400

theorem sum_yearLength (n : ℕ) :
    ∑ i ∈ range n, yearLength (i + 1) + n / 100 = 365 * n + n / 4 + n / 400 := by
  induction n with
  | zero => rfl
  | succ n ih =>
    have hlength : yearLength (n + 1) =
        if 4 ∣ n + 1 ∧ (¬ 100 ∣ n + 1 ∨ 400 ∣ n + 1) then 366 else 365 := by
      have hleap : Leap (n + 1) ↔ 4 ∣ n + 1 ∧ (¬ 100 ∣ n + 1 ∨ 400 ∣ n + 1) := by
        unfold Leap
        omega
      rw [yearLength]
      simp only [hleap]
    have hfour : 100 ∣ n + 1 → 4 ∣ n + 1 := fun h => Nat.dvd_trans (by decide) h
    have hcentury : 400 ∣ n + 1 → 100 ∣ n + 1 := fun h => Nat.dvd_trans (by decide) h
    rw [sum_range_succ, hlength, Nat.succ_div, Nat.succ_div, Nat.succ_div]
    by_cases h100 : 100 ∣ n + 1
    · by_cases h400 : 400 ∣ n + 1
      · simp only [hfour h100, h100, h400, if_true, not_true, false_or, and_self]
        omega
      · simp only [hfour h100, h100, h400, if_true, if_false, not_true, false_or, and_false]
        omega
    · have h400 : ¬ 400 ∣ n + 1 := fun h => h100 (hcentury h)
      by_cases h4 : 4 ∣ n + 1
      · simp only [h4, h100, h400, if_true, if_false, not_false_eq_true, true_or, and_self]
        omega
      · simp only [h4, h100, h400, if_false, false_and]
        omega

theorem sum_monthLength (year : ℤ) : ∑ i ∈ range 12, monthLength year i = yearLength year := by
  unfold yearLength monthLength
  split <;> rfl

theorem yearLength_period (era year : ℤ) : yearLength (400 * era + year) = yearLength year := by
  have hleap : Leap (400 * era + year) ↔ Leap year := by
    unfold Leap
    omega
  unfold yearLength
  simp only [hleap]

structure Tm.Proper (time : Tm) : Prop where
  sec : time.tmSec < 60
  min : time.tmMin < 60
  hour : time.tmHour < 24
  mon : time.tmMon < 12
  mday : 0 < time.tmMday ∧ time.tmMday ≤ monthLength (time.tmYear + 1900) time.tmMon

/-- The year that yearOf finds contains the day. -/
theorem yearOf_spec (day : ℤ) :
    (yearOf day).2 < yearLength (yearOf day).1 ∧
      day = firstDay (yearOf day).1 + (yearOf day).2 := by
  have hsum := peel_sum (fun i => yearLength (i + 1)) 400 0 (day % 146097).toNat
  have hcycle := sum_yearLength 400
  obtain ⟨-, hplace⟩ := peel_lt (fun i => yearLength (i + 1)) 400 (i := 0)
    (n := (day % 146097).toNat) (by simp only [sum_range_zero, Nat.zero_add]; omega)
  simp only [yearOf, firstDay]
  generalize peel (fun i => yearLength (i + 1)) 400 0 (day % 146097).toNat = place at *
  have hyears := sum_yearLength place.1
  rw [sum_range_zero, Nat.zero_add] at hsum
  constructor
  · rw [add_assoc, yearLength_period]
    exact hplace
  · -- The leap years of whole periods are the same in each of them.
    rw [add_sub_cancel_right]
    have hfour : (400 * (day / 146097) + (place.1 : ℤ)) / 4 =
        100 * (day / 146097) + (place.1 : ℤ) / 4 := by omega
    have hcentury : (400 * (day / 146097) + (place.1 : ℤ)) / 100 =
        4 * (day / 146097) + (place.1 : ℤ) / 100 := by omega
    have hperiod : (400 * (day / 146097) + (place.1 : ℤ)) / 400 =
        day / 146097 + (place.1 : ℤ) / 400 := by omega
    rw [hfour, hcentury, hperiod]
    omega

/-- The broken-down time is proper, and it is that of the seconds it was made from. -/
theorem gmtimeR_spec {seconds : ℤ} {time : Tm} (h : gmtimeR seconds = some time) :
    time.Proper ∧ secondsSinceEpoch time = seconds := by
  simp only [gmtimeR] at h
  obtain ⟨hyday, hday⟩ := yearOf_spec (seconds / 86400 + 719162)
  generalize yearOf (seconds / 86400 + 719162) = place at *
  have hsum := peel_sum (monthLength place.1) 12 0 place.2
  obtain ⟨hmon, hmday⟩ := peel_lt (monthLength place.1) 12 (i := 0) (n := place.2)
    (by rw [sum_range_zero, Nat.zero_add, Nat.zero_add, sum_monthLength]; exact hyday)
  generalize peel (monthLength place.1) 12 0 place.2 = months at *
  rw [sum_range_zero, Nat.zero_add] at hsum
  obtain ⟨-, h⟩ := Option.ite_none_right_eq_some.mp h
  obtain rfl := Option.some.inj h
  refine ⟨⟨?_, ?_, ?_, ?_, ?_⟩, ?_⟩
  · show (seconds % 86400).toNat % 60 < 60
    omega
  · show (seconds % 86400).toNat / 60 % 60 < 60
    omega
  · show (seconds % 86400).toNat / 3600 < 24
    omega
  · show months.1 < 12
    omega
  · show 0 < months.2 + 1 ∧ months.2 + 1 ≤ monthLength (place.1 - 1900 + 1900) months.1
    rw [sub_add_cancel]
    omega
  · simp only [secondsSinceEpoch, firstDay] at hday ⊢
    rw [sub_add_cancel]
    omega

theorem monthLength_le (year : ℤ) {mon : ℕ} (h : mon < 12) : monthLength year mon ≤ 31 := by
  unfold monthLength
  revert mon
  split <;> decide

theorem firstDay_mono {year year' : ℤ} (h : year ≤ year') : firstDay year ≤ firstDay year' := by
  have hcentury : (year' - 1) / 100 ≤ (year - 1) / 100 + (year' - year) := by omega
  unfold firstDay
  omega

theorem firstDay_succ (year : ℤ) : firstDay (year + 1) = firstDay year + yearLength year := by
  unfold firstDay yearLength
  split
  · rename_i hleap
    unfold Leap at hleap
    omega
  · rename_i hleap
    unfold Leap at hleap
    omega

/-- The days before the first of a year are those of the years before it. -/
theorem yearOf_lt_iff (day year : ℤ) : (yearOf day).1 < year ↔ day < firstDay year := by
  obtain ⟨hyday, hday⟩ := yearOf_spec day
  constructor
  · intro hlt
    have hnext := firstDay_succ (yearOf day).1
    have hmono := firstDay_mono (Int.add_one_le_of_lt hlt)
    omega
  · intro hlt
    by_contra hge
    have hmono := firstDay_mono (Int.not_lt.mp hge)
    omega

theorem gmtimeR_tmYear {seconds : ℤ} {time : Tm} (h : gmtimeR seconds = some time) :
    time.tmYear + 1900 = (yearOf (seconds / 86400 + 719162)).1 := by
  simp only [gmtimeR] at h
  obtain ⟨-, h⟩ := Option.ite_none_right_eq_some.mp h
  obtain rfl := Option.some.inj h
  exact sub_add_cancel _ _

theorem gmtimeR_isSome (seconds : ℤ)
    (h : -2 ^ 31 ≤ (yearOf (seconds / 86400 + 719162)).1 - 1900 ∧
      (yearOf (seconds / 86400 + 719162)).1 - 1900 < 2 ^ 31) :
    ∃ time, gmtimeR seconds = some time := by
  simp only [gmtimeR, if_pos h]
  exact ⟨_, rfl⟩

end Calendar

section Text

def twoDigits (n : ℕ) : List Char := List.leftpad 2 '0' (Nat.toDigits 10 n)

/-- The time in the format %Y-%m-%d %H:%M:%S and a point. -/
def dateTime (time : Tm) : List Char :=
  decimal (time.tmYear + 1900) ++ "-".toList ++ twoDigits (time.tmMon + 1) ++
    "-".toList ++ twoDigits time.tmMday ++ " ".toList ++ twoDigits time.tmHour ++
    ":".toList ++ twoDigits time.tmMin ++ ":".toList ++ twoDigits time.tmSec ++ ".".toList

/-- With the byte that ends the string, the text has to fit max bytes. -/
def strftime (max : ℕ) (time : Tm) : Option (List Char) :=
  if (dateTime time).length < max then some (dateTime time) else none

/-- The text, unless it is left undefined or runs over the 31 bytes of its buffer. -/
def formattedTimestamp (timestamp : Timespec) : Option (List Char) := do
  let time ← gmtimeR timestamp.tvSec.toInt
  let tsString ← strftime (31 - 10) time
  let ts := tsString ++
    List.leftpad 9 '0' (Nat.toDigits 10 timestamp.tvNsec.toUInt64.toNat)
  if ts.length < 31 then some ts else none

example : formattedTimestamp ⟨1709210096, 5000⟩ =
    some "2024-02-29 12:34:56.000005000".toList := by decide

theorem readBefore_twoDigits : ReadBefore Stops fun n => some (twoDigits n) :=
  readBefore_zeros 2

theorem readBefore_strftime (max : ℕ) : ReadBefore (fun _ => True) (strftime max) := by
  rintro ⟨sec, min, hour, mday, mon, year⟩ ⟨sec', min', hour', mday', mon', year'⟩ s t x y
    hs ht - - heq
  obtain ⟨-, hs⟩ := Option.ite_none_right_eq_some.mp hs
  obtain ⟨-, ht⟩ := Option.ite_none_right_eq_some.mp ht
  cases hs
  cases ht
  simp only [dateTime, List.append_assoc] at heq
  obtain ⟨hyear, hrest⟩ := readBefore_decimal.before rfl rfl heq fun _ => rfl
  obtain ⟨hmon, hrest⟩ := readBefore_twoDigits.before rfl rfl hrest fun _ => rfl
  obtain ⟨hmday, hrest⟩ := readBefore_twoDigits.before rfl rfl hrest fun _ => rfl
  obtain ⟨hhour, hrest⟩ := readBefore_twoDigits.before rfl rfl hrest fun _ => rfl
  obtain ⟨hmin, hrest⟩ := readBefore_twoDigits.before rfl rfl hrest fun _ => rfl
  obtain ⟨hsec, hrest⟩ := readBefore_twoDigits.before rfl rfl hrest fun _ => rfl
  refine ⟨?_, hrest⟩
  rw [Tm.mk.injEq]
  exact ⟨hsec, hmin, hhour, hmday, Nat.succ.inj hmon, add_right_cancel hyear⟩

/-- The text of a time is the text of no other time. -/
theorem readBefore_formattedTimestamp : ReadBefore Stops formattedTimestamp := by
  rintro ⟨sec, nsec⟩ ⟨sec', nsec'⟩ s t x y hs ht hx hy heq
  obtain ⟨time, htime, hs⟩ := Option.bind_eq_some_iff.mp hs
  obtain ⟨date, hdate, hs⟩ := Option.bind_eq_some_iff.mp hs
  obtain ⟨-, hs⟩ := Option.ite_none_right_eq_some.mp hs
  obtain ⟨time', htime', ht⟩ := Option.bind_eq_some_iff.mp ht
  obtain ⟨date', hdate', ht⟩ := Option.bind_eq_some_iff.mp ht
  obtain ⟨-, ht⟩ := Option.ite_none_right_eq_some.mp ht
  cases hs
  cases ht
  rw [List.append_assoc, List.append_assoc] at heq
  obtain ⟨rfl, hrest⟩ := readBefore_strftime _ hdate hdate' trivial trivial heq
  obtain ⟨hdigits, hrest⟩ := readBefore_zeros 9 rfl rfl hx hy hrest
  have hsec : sec = sec' := by
    rw [← Int64.toInt_inj]
    show (Timespec.mk sec nsec).tvSec.toInt = (Timespec.mk sec' nsec').tvSec.toInt
    rw [← (gmtimeR_spec htime).2, (gmtimeR_spec htime').2]
  have hnsec : nsec = nsec' := by
    rw [← nsec.toInt64_toUInt64, UInt64.toNat_inj.mp hdigits, Int64.toInt64_toUInt64]
  exact ⟨by rw [hsec, hnsec], hrest⟩

theorem length_twoDigits {n : ℕ} (hn : n < 100) : (twoDigits n).length = 2 := by
  have hlength := (Nat.length_toDigits_le_iff (b := 10) (k := 2) (by omega) (by omega)).mpr hn
  rw [twoDigits, List.length_leftpad]
  omega

theorem length_decimal {k : ℤ} : (decimal k).length ≤ 4 ↔ -999 ≤ k ∧ k < 10000 := by
  cases k with
  | ofNat n =>
    have hlength := Nat.length_toDigits_le_iff (b := 10) (n := n) (k := 4) (by omega) (by omega)
    rw [decimal, hlength, Int.ofNat_eq_natCast]
    omega
  | negSucc n =>
    have hlength := Nat.length_toDigits_le_iff (b := 10) (n := n + 1) (k := 3) (by omega) (by omega)
    rw [decimal, List.length_cons, Nat.add_le_add_iff_right, hlength, Int.negSucc_eq]
    omega

theorem Tm.Proper.length_dateTime {time : Tm} (h : time.Proper) :
    (dateTime time).length = (decimal (time.tmYear + 1900)).length + 16 := by
  have hmonth := monthLength_le (time.tmYear + 1900) h.mon
  obtain ⟨hsec, hmin, hhour, hmon, -, hmday⟩ := h
  have hpoint : ∀ s ∈ ["-".toList, " ".toList, ":".toList, ".".toList], s.length = 1 := by decide
  simp only [List.forall_mem_cons] at hpoint
  obtain ⟨hdash, hblank, hcolon, hdot, -⟩ := hpoint
  simp only [dateTime, List.length_append, hdash, hblank, hcolon, hdot,
    length_twoDigits (show time.tmMon + 1 < 100 by omega),
    length_twoDigits (show time.tmMday < 100 by omega),
    length_twoDigits (show time.tmHour < 100 by omega),
    length_twoDigits (show time.tmMin < 100 by omega),
    length_twoDigits (show time.tmSec < 100 by omega)]

/-- A time with its nanoseconds below a second is printed from the year -999 to the year 9999. -/
theorem formattedTimestamp_isSome {t : Timespec}
    (hnsec : 0 ≤ t.tvNsec.toInt ∧ t.tvNsec.toInt < 10 ^ 9) :
    (formattedTimestamp t).isSome ↔
      -93692592000 ≤ t.tvSec.toInt ∧ t.tvSec.toInt < 253402300800 := by
  have hfirst : firstDay (-999) = -365243 := by decide
  have hlast : firstDay 10000 = 3652059 := by decide
  have hlow : t.tvSec.toInt < -93692592000 ↔
      (yearOf (t.tvSec.toInt / 86400 + 719162)).1 < -999 := by
    rw [yearOf_lt_iff, hfirst]
    omega
  have hhigh : t.tvSec.toInt < 253402300800 ↔
      (yearOf (t.tvSec.toInt / 86400 + 719162)).1 < 10000 := by
    rw [yearOf_lt_iff, hlast]
    omega
  rw [← not_lt, hlow, hhigh, not_lt]
  constructor
  · intro hsome
    obtain ⟨text, htext⟩ := Option.isSome_iff_exists.mp hsome
    obtain ⟨time, htime, htext⟩ := Option.bind_eq_some_iff.mp htext
    obtain ⟨date, hdate, -⟩ := Option.bind_eq_some_iff.mp htext
    obtain ⟨hfits, -⟩ := Option.ite_none_right_eq_some.mp hdate
    rw [← gmtimeR_tmYear htime, ← length_decimal]
    have hlength := (gmtimeR_spec htime).1.length_dateTime
    omega
  · intro hyear
    obtain ⟨time, htime⟩ := gmtimeR_isSome t.tvSec.toInt ⟨by omega, by omega⟩
    have hlength := (gmtimeR_spec htime).1.length_dateTime
    rw [← gmtimeR_tmYear htime, ← length_decimal] at hyear
    have hdate : strftime (31 - 10) time = some (dateTime time) := if_pos (by omega)
    have hnat : t.tvNsec.toUInt64.toNat < 10 ^ 9 := by
      rw [Int64.toNat_toUInt64_of_le (Int64.le_iff_toInt_le.mpr hnsec.1), ← Int64.toNat_toInt]
      omega
    have hdigits := (Nat.length_toDigits_le_iff (b := 10) (k := 9) (by omega) (by omega)).mpr hnat
    have hts : (dateTime time ++
        List.leftpad 9 '0' (Nat.toDigits 10 t.tvNsec.toUInt64.toNat)).length < 31 := by
      rw [List.length_append, List.length_leftpad]
      omega
    simp only [formattedTimestamp, htime, hdate, Option.bind_eq_bind, Option.bind_some, if_pos hts,
      Option.isSome_some]

end Text

end SimulazioneTransazioni.Timestamps
