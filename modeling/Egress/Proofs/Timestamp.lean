import Egress.Proofs.Json.Reading
import Egress.Timestamp
import Mathlib.Tactic.NormNum

/-!
# Points in time are read as they were written

`Timestamp.parse_format`: a point whose year has four digits (`Timestamp.Plain`) is read back from its text.

* `dateOfDays_spec`: every day has one date in the calendar, from which `daysOfDate` leads back to it. Within
  an era of 400 years, centuries (`exists_century`), cycles of four years and their years
  (`exists_yearOfCycle`), and months (`exists_month`) are split off one after the other.
* `readNumber_padded`: a number filled up with zeros is read whatever follows it.
* `toList_format` lists the parts of the text, `ofParts_dateOfDays` puts the point together again.
-/

set_option autoImplicit false

namespace Egress.Timestamp

/-! ## Days and dates -/

/-- The last day of an era would be the first one of a fifth century. -/
theorem exists_century {doe : Int} (h0 : 0 ≤ doe) (h1 : doe < 146097) :
    ∃ c r : Int, (0 ≤ c ∧ c ≤ 3) ∧ (0 ≤ r ∧ r ≤ 36524) ∧ (r = 36524 → c = 3) ∧
      doe = 36524 * c + r ∧ doe / 36524 - doe / 146096 = c := by
  by_cases h : doe = 146096
  · subst h
    exact ⟨3, 36524, by decide⟩
  · have hera : doe / 146096 = 0 := by omega
    refine ⟨doe / 36524, doe % 36524, ?_, ?_, ?_, ?_, ?_⟩ <;> omega

/-- A cycle ends with the day that its last year has more. -/
theorem exists_yearOfCycle {r : Int} (h0 : 0 ≤ r) (h1 : r ≤ 36524) :
    ∃ k j n : Int, (0 ≤ k ∧ k ≤ 24) ∧ (0 ≤ j ∧ j ≤ 3) ∧ (0 ≤ n ∧ n ≤ 365) ∧ (n = 365 → j = 3) ∧
      r = 1461 * k + 365 * j + n := by
  by_cases h : r % 1461 = 1460
  · refine ⟨r / 1461, 3, 365, ?_, ?_, ?_, ?_, ?_⟩ <;> omega
  · refine ⟨r / 1461, r % 1461 / 365, r % 1461 % 365, ?_, ?_, ?_, ?_, ?_⟩ <;> omega

theorem yearOfEra_eq {doe c k j n : Int} (hc : 0 ≤ c ∧ c ≤ 3) (hk : 0 ≤ k ∧ k ≤ 24)
    (hj : 0 ≤ j ∧ j ≤ 3) (hn : 0 ≤ n ∧ n ≤ 365) (hleap : n = 365 → j = 3)
    (hdoe : doe = 36524 * c + (1461 * k + 365 * j + n)) (hcentury : doe / 36524 - doe / 146096 = c) :
    (doe - doe / 1460 + doe / 36524 - doe / 146096) / 365 = 100 * c + 4 * k + j := by
  have hcycle : doe / 1460 = 25 * c + k + (24 * c + k + 365 * j + n) / 1460 := by omega
  have hcarry : (24 * c + k + 365 * j + n) / 1460 ≤ 1 := by omega
  have hcarry' : 0 ≤ (24 * c + k + 365 * j + n) / 1460 := by omega
  have hyear : doe - doe / 1460 + doe / 36524 - doe / 146096 =
      365 * (100 * c + 4 * k + j) + (n - (24 * c + k + 365 * j + n) / 1460) := by omega
  rw [hyear]
  generalize hδ : (24 * c + k + 365 * j + n) / 1460 = δ at *
  clear hyear hcycle hcentury hdoe
  -- the carry takes a last day back into its year
  have hday : 0 ≤ n - δ ∧ n - δ < 365 := by omega
  omega

/-- Months counted from March begin at fixed days, whatever the length of the last one. -/
theorem exists_month {n : Int} (h0 : 0 ≤ n) (h1 : n ≤ 365) :
    ∃ m day : Int, (0 ≤ m ∧ m ≤ 11) ∧ m = (5 * n + 2) / 153 ∧ n = (153 * m + 2) / 5 + day - 1 ∧ 1 ≤ day ∧
      (m < 11 → day ≤ (153 * (m + 1) + 2) / 5 - (153 * m + 2) / 5) := by
  refine ⟨(5 * n + 2) / 153, n - (153 * ((5 * n + 2) / 153) + 2) / 5 + 1, ?_, rfl, ?_, ?_, ?_⟩ <;>
    omega

/-- Every month but the last one of the year, counted from March, has the same length each year. -/
theorem daysInMonth_eq (year : Int) {m : Int} (h0 : 0 ≤ m) (h1 : m < 11) :
    (daysInMonth year (if m < 10 then m + 3 else m - 9).toNat : Int) =
      (153 * (m + 1) + 2) / 5 - (153 * m + 2) / 5 := by
  have hcases : m = 0 ∨ m = 1 ∨ m = 2 ∨ m = 3 ∨ m = 4 ∨ m = 5 ∨ m = 6 ∨ m = 7 ∨ m = 8 ∨ m = 9 ∨
      m = 10 := by omega
  clear h0 h1
  rcases hcases with rfl | rfl | rfl | rfl | rfl | rfl | rfl | rfl | rfl | rfl | rfl <;> rfl

theorem le_daysInFebruary (year : Int) {day : Int} (h : day ≤ 28 ∨ day = 29 ∧ isLeapYear year = true) :
    day ≤ (daysInMonth year 2 : Int) := by
  rcases h with h | ⟨rfl, hleap⟩
  · simp only [daysInMonth, if_true]
    split <;> simp <;> omega
  · simp [daysInMonth, hleap]

/-- The day `n` of the year `y` of an era, both counted from March, in the calendar. -/
theorem daysOfDate_eq (era : Int) {y n m day : Int} (hy : 0 ≤ y ∧ y < 400) (hm : 0 ≤ m ∧ m ≤ 11)
    (hday : 1 ≤ day) (hn : n = (153 * m + 2) / 5 + day - 1) :
    daysOfDate (y + era * 400 + if (if m < 10 then m + 3 else m - 9) ≤ 2 then 1 else 0)
        (if m < 10 then m + 3 else m - 9).toNat day.toNat =
      era * 146097 + (365 * y + y / 4 - y / 100 + n) - 719468 := by
  have hera : (y + era * 400) / 400 = era := by omega
  have hyear : (y + era * 400) % 400 = y := by omega
  have hday' : (day.toNat : Int) = day := by omega
  by_cases hm10 : m < 10
  · have h2 : ¬m + 3 ≤ 2 := by omega
    have h2' : 2 < (m + 3).toNat := by omega
    have hmonth : ((m + 3).toNat : Int) + -3 = m := by omega
    simp only [daysOfDate, hm10, h2, h2', Nat.not_le.2 h2', if_true, if_false, Int.add_zero, hera, hyear,
      hmonth, hday']
    omega
  · have h2 : m - 9 ≤ 2 := by omega
    have h2' : (m - 9).toNat ≤ 2 := by omega
    have hmonth : ((m - 9).toNat : Int) + 9 = m := by omega
    simp only [daysOfDate, hm10, h2, h2', Nat.not_lt.2 h2', if_true, if_false, Int.add_sub_cancel, hera,
      hyear, hmonth, hday']
    omega

theorem isLeapYear_of_last {year c k : Int} (hyear : year % 400 = (100 * c + 4 * k + 4) % 400)
    (hk : 0 ≤ k ∧ k ≤ 24) (hlast : k = 24 → c = 3) : isLeapYear year = true := by
  have h4 : year % 4 = 0 := by omega
  have hcentury : year % 100 ≠ 0 ∨ year % 400 = 0 := by
    by_cases h : k = 24
    · right
      rw [hyear, h, hlast h]
      rfl
    · left
      omega
  simp only [isLeapYear, Bool.and_eq_true, Bool.or_eq_true, decide_eq_true_eq]
  exact ⟨h4, hcentury⟩

theorem day_le_daysInMonth {year m n day : Int} (hm : 0 ≤ m ∧ m ≤ 11) (hn : n ≤ 365)
    (hday : n = (153 * m + 2) / 5 + day - 1)
    (hlength : m < 11 → day ≤ (153 * (m + 1) + 2) / 5 - (153 * m + 2) / 5)
    (hleap : n = 365 → isLeapYear (year + 1) = true) :
    day ≤ daysInMonth (year + if (if m < 10 then m + 3 else m - 9) ≤ 2 then 1 else 0)
      (if m < 10 then m + 3 else m - 9).toNat := by
  by_cases hm11 : m < 11
  · rw [daysInMonth_eq _ hm.1 hm11]
    exact hlength hm11
  · obtain rfl : m = 11 := by omega
    refine le_daysInFebruary (year + 1) ?_
    by_cases h : n = 365
    · right
      exact ⟨by omega, hleap h⟩
    · left
      omega

theorem dateOfDays_spec (days : Int) :
    let date := dateOfDays days
    daysOfDate date.1 date.2.1 date.2.2 = days ∧ (1 ≤ date.2.1 ∧ date.2.1 ≤ 12) ∧
      1 ≤ date.2.2 ∧ date.2.2 ≤ daysInMonth date.1 date.2.1 := by
  have hera := Int.emod_nonneg (days + 719468) (show (146097 : Int) ≠ 0 by decide)
  have hera' := Int.emod_lt_of_pos (days + 719468) (show (0 : Int) < 146097 by decide)
  obtain ⟨c, r, hc, hr, hlast, hdoe, hcentury⟩ := exists_century hera hera'
  obtain ⟨k, j, n, hk, hj, hn, hleap, hr'⟩ := exists_yearOfCycle hr.1 hr.2
  have hyear := yearOfEra_eq hc hk hj hn hleap (hr' ▸ hdoe) hcentury
  obtain ⟨m, day, hm, hmonth, hday, hday1, hlength⟩ := exists_month hn.1 hn.2
  clear hcentury
  have hstart : (days + 719468) % 146097 - (365 * (100 * c + 4 * k + j) + (100 * c + 4 * k + j) / 4 -
      (100 * c + 4 * k + j) / 100) = n := by
    have h4 : (100 * c + 4 * k + j) / 4 = 25 * c + k := by omega
    have h100 : (100 * c + 4 * k + j) / 100 = c := by omega
    rw [h4, h100]
    omega
  have hn' : n - (153 * m + 2) / 5 + 1 = day := by omega
  have hy : 0 ≤ 100 * c + 4 * k + j ∧ 100 * c + 4 * k + j < 400 := by omega
  have hleapYear : n = 365 → isLeapYear (100 * c + 4 * k + j + (days + 719468) / 146097 * 400 + 1) = true :=
    fun h => isLeapYear_of_last (by rw [hleap h]; omega) hk fun hk24 => hlast (by omega)
  have hdate := daysOfDate_eq ((days + 719468) / 146097) hy hm hday1 hday
  have hin := day_le_daysInMonth hm hn.2 hday hlength hleapYear
  simp only [dateOfDays, hyear, hstart, ← hmonth, hn']
  refine ⟨?_, ?_, ?_, ?_⟩
  · rw [hdate]
    omega
  · clear hdate hin
    split <;> omega
  · clear hdate hin
    omega
  · exact Int.toNat_le.2 hin

/-! ## Padded numbers -/

theorem isBlank_of_isDigit {c : Char} (h : Json.isDigit c = true) : Text.isBlank c = false := by
  have hcode : 48 ≤ c.toNat ∧ c.toNat ≤ 57 := by
    simp only [Json.isDigit, Bool.and_eq_true, decide_eq_true_eq, Char.le_def] at h
    exact h
  simp only [Text.isBlank, Bool.or_eq_false_iff, Bool.and_eq_false_iff, decide_eq_false_iff_not,
    beq_eq_false_iff_ne]
  omega

/-- Digits that fill the width -/
theorem toList_padded {width n : Nat} (hwidth : 0 < width) (h : n < 10 ^ width) :
    (padded width n).toList.length = width ∧ (∀ c ∈ (padded width n).toList, Json.isDigit c = true) ∧
      Json.digitsValue (padded width n).toList = n := by
  have hlen := (Nat.length_toDigits_le_iff (b := 10) (by decide) hwidth).2 h
  simp only [padded, String.toList_ofList]
  refine ⟨?_, ?_, ?_⟩
  · simp only [List.length_append, List.length_replicate]
    omega
  · intro c hc
    rcases List.mem_append.1 hc with hc | hc
    · rw [List.eq_of_mem_replicate hc]
      rfl
    · exact Json.isDigit_of_mem_toDigits hc
  · rw [Json.digitsValue_eq, Nat.ofDigitChars_append, Nat.ofDigitChars_replicate_zero, Nat.mul_zero,
      Nat.ofDigitChars_ten_toDigits]

theorem readNumber_digits {width : Nat} {digits rest : List Char} (hne : digits ≠ [])
    (hdigits : ∀ c ∈ digits, Json.isDigit c = true) (hlen : digits.length ≤ width)
    (hstop : (rest.take (width - digits.length)).takeWhile Json.isDigit = [])
    (hvalue : Json.digitsValue digits < 9223372036854775808) :
    readNumber (some width) (digits ++ rest) = .ok (Json.digitsValue digits, rest) := by
  have hread : ((digits ++ rest).take width).takeWhile Json.isDigit = digits := by
    rw [List.take_append, List.take_of_length_le hlen, List.takeWhile_append_of_pos hdigits, hstop,
      List.append_nil]
  unfold readNumber
  simp [Option.elim, hread, hne, Nat.not_le.2 hvalue]

section Padded

variable {width n : Nat} (hwidth : 0 < width) (h : n < 10 ^ width) (rest : List Char)

include hwidth h

theorem exists_padded : ∃ c cs, (padded width n).toList = c :: cs ∧ Json.isDigit c = true := by
  obtain ⟨hlen, hdigits, -⟩ := toList_padded hwidth h
  obtain ⟨c, cs, hcs⟩ := List.exists_cons_of_length_pos (hlen ▸ hwidth)
  exact ⟨c, cs, hcs, hdigits c (by simp [hcs])⟩

theorem skipBlank_padded :
    skipBlank ((padded width n).toList ++ rest) = (padded width n).toList ++ rest := by
  obtain ⟨c, cs, hcs, hc⟩ := exists_padded hwidth h
  simp [skipBlank, hcs, isBlank_of_isDigit hc]

theorem readNumber_padded {most : Nat} (hmost : width ≤ most) (hsize : most ≤ 9)
    (hstop : (rest.take (most - width)).takeWhile Json.isDigit = []) :
    readNumber (some most) ((padded width n).toList ++ rest) = .ok (n, rest) := by
  obtain ⟨hlen, hdigits, hvalue⟩ := toList_padded hwidth h
  have hne : (padded width n).toList ≠ [] := by
    rintro heq
    rw [heq] at hlen
    exact absurd hlen hwidth.ne
  have hpow : 10 ^ width ≤ 10 ^ 9 := Nat.pow_le_pow_right (by decide) (Nat.le_trans hmost hsize)
  have hnine : 10 ^ 9 = 1000000000 := by norm_num
  rw [readNumber_digits hne hdigits (by omega) (by rw [hlen, hstop]) (by omega), hvalue]

end Padded

/-! ## The parts of a text -/

/-- The next reader goes on with what the one before it has left. -/
theorem ok_bind {α β : Type} (a : α) (f : α → Except TimestampError β) :
    (Except.ok a >>= f) = f a := rfl

theorem readField_padded {low high n : Nat} (hlow : low ≤ n) (hhigh : n ≤ high) (h : n < 10 ^ 2)
    (rest : List Char) : readField low high ((padded 2 n).toList ++ rest) = .ok (n, rest) := by
  rw [readField, skipBlank_padded (by decide) h,
    readNumber_padded Nat.two_pos h rest (Nat.le_refl 2) (by decide) (by simp), ok_bind]
  simp [hlow, hhigh]
  rfl

theorem readYear_padded {n : Nat} (h : n < 10 ^ 4) (rest : List Char) :
    readYear ((padded 4 n).toList ++ rest) = .ok ((n : Int), rest) := by
  have hwidth : 0 < 4 := by decide
  obtain ⟨c, cs, hcs, hc⟩ := exists_padded hwidth h
  have hread := readNumber_padded hwidth h rest (Nat.le_refl 4) (by decide) (by simp)
  have hsign : c ≠ '-' ∧ c ≠ '+' := by
    constructor <;>
    · rintro rfl
      exact absurd hc (by decide)
  have hrange : (-2147483648 ≤ (n : Int) && (n : Int) < 2147483648) = true := by
    simp
    omega
  rw [readYear, skipBlank_padded hwidth h]
  rw [hcs, List.cons_append] at hread ⊢
  split
  · next heq => exact absurd (List.cons.inj heq).1 hsign.1
  · next heq => exact absurd (List.cons.inj heq).1 hsign.2
  · rw [hread, ok_bind]
    simp only [pure_bind, hrange, if_true]
    rfl

/-- The fraction of a second as `format` writes it. -/
def fractionText (nanos : Nat) : String :=
  if nanos = 0 then ""
  else if nanos % 1000000 = 0 then "." ++ padded 3 (nanos / 1000000)
  else if nanos % 1000 = 0 then "." ++ padded 6 (nanos / 1000)
  else "." ++ padded 9 nanos

theorem readFraction_padded {width n : Nat} (hwidth : 0 < width) (hmost : width ≤ 9) (h : n < 10 ^ width) :
    readFraction ('.' :: ((padded width n).toList ++ ['Z'])) = .ok (n * 10 ^ (9 - width), ['Z']) := by
  obtain ⟨hlen, -, -⟩ := toList_padded hwidth h
  have hstop : (['Z'].take (9 - width)).takeWhile Json.isDigit = [] := by
    cases 9 - width <;> rfl
  simp only [readFraction, readNumber_padded hwidth h ['Z'] hmost (Nat.le_refl 9) hstop, bind,
    Except.bind, List.length_append, hlen]
  simp [Json.isDigit]
  rfl

theorem readFraction_fractionText {nanos : Nat} (h : nanos < 1000000000) :
    readFraction ((fractionText nanos).toList ++ ['Z']) = .ok (nanos, ['Z']) := by
  have read : ∀ width n, 0 < width → width ≤ 9 → n < 10 ^ width → n * 10 ^ (9 - width) = nanos →
      readFraction (("." ++ padded width n).toList ++ ['Z']) = .ok (nanos, ['Z']) := by
    intro width n hwidth hmost hn hvalue
    rw [String.toList_append, ← hvalue]
    exact readFraction_padded hwidth hmost hn
  unfold fractionText
  split
  · next h0 => subst h0; rfl
  · split
    · exact read 3 _ (by decide) (by decide) (by omega) (by omega)
    · split
      · exact read 6 _ (by decide) (by decide) (by omega) (by omega)
      · exact read 9 _ (by decide) (by decide) (by omega) (by omega)

/-! ## The whole text -/

theorem toList_format {t : Timestamp} {year : Int} {month day : Nat}
    (hdate : dateOfDays (t.seconds / 86400) = (year, month, day)) (hyear : 0 ≤ year ∧ year ≤ 9999)
    (hnanos : t.nanos < 1000000000) :
    t.format.toList = (padded 4 year.toNat).toList ++ '-' :: ((padded 2 month).toList ++ '-' ::
      ((padded 2 day).toList ++ 'T' :: ((padded 2 ((t.seconds % 86400).toNat / 3600)).toList ++ ':' ::
        ((padded 2 ((t.seconds % 86400).toNat / 60 % 60)).toList ++ ':' ::
          ((padded 2 ((t.seconds % 86400).toNat % 60)).toList ++
            ((fractionText t.nanos).toList ++ ['Z'])))))) := by
  have hleap : ¬1000000000 ≤ t.nanos := by omega
  have hmod : t.nanos % 1000000000 = t.nanos := Nat.mod_eq_of_lt hnanos
  have hwhole : (0 ≤ year && year ≤ 9999) = true := by simp [hyear]
  simp only [format, hdate, hleap, if_false, hmod, hwhole, if_true, Nat.add_zero, fractionText,
    String.toList_append]
  simp

theorem readMark_cons {mark : Char} (h : Text.isBlank mark = false) (rest : List Char) :
    readMark mark (mark :: rest) = .ok ((), rest) := by
  simp [readMark, skipBlank, h]

/-- The parts of a point in UTC make the point. -/
theorem ofParts_dateOfDays {seconds year : Int} {month day hour minute second nanos : Nat}
    (hdate : dateOfDays (seconds / 86400) = (year, month, day))
    (hyear : leastYear ≤ year ∧ year ≤ greatestYear)
    (htime : ((3600 * hour + 60 * minute + second : Nat) : Int) = seconds % 86400) (hsecond : second < 60) :
    ofParts year month day hour minute second nanos 0 = .ok ⟨seconds, nanos⟩ := by
  obtain ⟨hdays, -, -, hday⟩ := dateOfDays_spec (seconds / 86400)
  simp only [hdate] at hdays hday
  have hpoint : seconds / 86400 * 86400 + ((3600 * hour + 60 * minute + second : Nat) : Int) - 0 =
      seconds := by omega
  have hinside : ¬(year < leastYear ∨ greatestYear < year) := by omega
  have hne : second ≠ 60 := by omega
  simp only [ofParts, Bool.or_eq_true, decide_eq_true_eq, hinside, Nat.not_lt.2 hday, or_self, hne,
    if_false, hdays, hpoint, hdate]
  rfl

theorem daysInMonth_le (year : Int) (month : Nat) : daysInMonth year month ≤ 31 := by
  unfold daysInMonth
  repeat' split
  all_goals decide

/-- A point in a year of four digits that lies in no inserted second. -/
structure Plain (t : Timestamp) : Prop where
  year : 0 ≤ (dateOfDays (t.seconds / 86400)).1 ∧ (dateOfDays (t.seconds / 86400)).1 ≤ 9999
  nanos : t.nanos < 1000000000

/-- The text of a point stands for it. -/
theorem parse_format {t : Timestamp} (h : t.Plain) : parse t.format = .ok t := by
  obtain ⟨hyear, hnanos⟩ := h
  obtain ⟨-, hmonth, hday1, hday⟩ := dateOfDays_spec (t.seconds / 86400)
  obtain ⟨⟨year, month, day⟩, hdate⟩ : ∃ date, dateOfDays (t.seconds / 86400) = date := ⟨_, rfl⟩
  simp only [hdate] at hyear hmonth hday1 hday
  have hmonthDays := daysInMonth_le year month
  obtain ⟨time, htime⟩ : ∃ time, (t.seconds % 86400).toNat = time := ⟨_, rfl⟩
  have hlt : time < 86400 := by omega
  have hmark : Text.isBlank '-' = false ∧ Text.isBlank ':' = false := by decide
  have hhour := readField_padded (Nat.zero_le _) (show time / 3600 ≤ 23 by omega) (by omega)
  have hminute := readField_padded (Nat.zero_le _) (show time / 60 % 60 ≤ 59 by omega) (by omega)
  have hsecond := readField_padded (Nat.zero_le _) (show time % 60 ≤ 60 by omega) (by omega)
  have hoffset : readOffset (skipBlank ['Z']) = .ok (0, []) := rfl
  have hend : (skipBlank []).isEmpty = true := rfl
  have hparts : ofParts year month day (time / 3600) (time / 60 % 60) (time % 60) t.nanos 0 =
      .ok ⟨t.seconds, t.nanos⟩ :=
    ofParts_dateOfDays hdate (by simp only [leastYear, greatestYear]; omega) (by omega) (by omega)
  have hwhole : (year.toNat : Int) = year := by omega
  rw [parse, toList_format hdate hyear hnanos, htime]
  simp only [readYear_padded (show year.toNat < 10 ^ 4 by omega), readMark_cons hmark.1,
    readMark_cons hmark.2, readField_padded hmonth.1 hmonth.2 (show month < 10 ^ 2 by omega),
    readField_padded hday1 (show day ≤ 31 by omega) (show day < 10 ^ 2 by omega), hhour, hminute,
    hsecond, readFraction_fractionText hnanos, hoffset, ok_bind, pure_bind, decide_true, Bool.true_or,
    if_true, hend, hwhole, hparts]

end Egress.Timestamp
