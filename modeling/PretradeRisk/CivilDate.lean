import Mathlib.Data.Nat.Digits.Defs
import Mathlib.Data.String.Basic
import Mathlib.Tactic

namespace PretradeRisk.CivilDate

structure Date where
  year : ℤ
  month : ℤ
  day : ℤ
  deriving DecidableEq, Repr

/-- A day of the 400-year cycle that starts on 1 March, by century, leap
period, year and day of the year. -/
structure CycleDay where
  era : ℤ
  century : ℤ
  period : ℤ
  year : ℤ
  day : ℤ

structure CycleDay.InRange (c : CycleDay) : Prop where
  century : 0 ≤ c.century ∧ c.century ≤ 3
  period : 0 ≤ c.period ∧ c.period ≤ 24
  year : 0 ≤ c.year ∧ c.year ≤ 3
  day : 0 ≤ c.day ∧ c.day ≤ 365

def cycleDay (z : ℤ) : CycleDay :=
  let ofEra := z % 146097
  let century := min (ofEra / 36524) 3
  let ofCentury := ofEra - 36524 * century
  let period := ofCentury / 1461
  let ofPeriod := ofCentury - 1461 * period
  let year := min (ofPeriod / 365) 3
  ⟨z / 146097, century, period, year, ofPeriod - 365 * year⟩

def CycleDay.days (c : CycleDay) : ℤ :=
  146097 * c.era + 36524 * c.century + 1461 * c.period + 365 * c.year + c.day

theorem cycleDay_inRange (z : ℤ) : (cycleDay z).InRange := by
  constructor <;> simp only [cycleDay] <;> omega

theorem days_cycleDay (z : ℤ) : (cycleDay z).days = z := by
  simp only [cycleDay, CycleDay.days]; omega

def CycleDay.marchMonth (c : CycleDay) : ℤ := (5 * c.day + 2) / 153

def CycleDay.marchYear (c : CycleDay) : ℤ := 400 * c.era + 100 * c.century + 4 * c.period + c.year

def CycleDay.date (c : CycleDay) : Date :=
  let m := c.marchMonth
  ⟨400 * c.era + 100 * c.century + 4 * c.period + c.year + (if m < 10 then 0 else 1),
    if m < 10 then m + 3 else m - 9, c.day - (153 * m + 2) / 5 + 1⟩

theorem CycleDay.InRange.marchMonth {c : CycleDay} (h : c.InRange) :
    0 ≤ c.marchMonth ∧ c.marchMonth ≤ 11 := by
  have := h.day
  rw [CycleDay.marchMonth]; omega

theorem CycleDay.InRange.month_day {c : CycleDay} (h : c.InRange) :
    0 ≤ c.date.month ∧ c.date.month < 100 ∧ 0 ≤ c.date.day ∧ c.date.day < 100 := by
  have := h.day
  have := h.marchMonth
  simp only [CycleDay.date, CycleDay.marchMonth] at *
  split_ifs <;> omega

theorem CycleDay.InRange.lt_cases {c d : CycleDay} (hc : c.InRange) (hd : d.InRange) (h : c.days < d.days) :
    c.marchYear < d.marchYear ∨ c.marchYear = d.marchYear ∧ c.day < d.day := by
  obtain ⟨⟨_, _⟩, ⟨_, _⟩, ⟨_, _⟩, _, _⟩ := hc
  obtain ⟨⟨_, _⟩, ⟨_, _⟩, ⟨_, _⟩, _, _⟩ := hd
  simp only [CycleDay.days] at h
  simp only [CycleDay.marchYear]
  omega

def Date.Before (d e : Date) : Prop :=
  d.year < e.year ∨ d.year = e.year ∧ (d.month < e.month ∨ d.month = e.month ∧ d.day < e.day)

theorem date_before {c d : CycleDay} (hc : c.InRange) (hd : d.InRange) (h : c.days < d.days) :
    c.date.Before d.date := by
  have hmc := hc.marchMonth
  have hmd := hd.marchMonth
  have hlt := hc.lt_cases hd h
  simp only [CycleDay.marchYear] at hlt
  simp only [Date.Before, CycleDay.date]
  rcases hlt with hyear | ⟨hyear, hday⟩
  · split_ifs <;> omega
  · have hmonth : c.marchMonth ≤ d.marchMonth := by rw [CycleDay.marchMonth, CycleDay.marchMonth]; omega
    rcases hmonth.eq_or_lt with heq | hmonth
    · rw [heq]
      split_ifs <;> omega
    · split_ifs <;> omega

def ofDays (days : ℤ) : Date := (cycleDay (days + 719468)).date

example : ofDays 0 = ⟨1970, 1, 1⟩ ∧ ofDays 11016 = ⟨2000, 2, 29⟩ := by decide

theorem ofDays_before {a b : ℤ} (h : a < b) : (ofDays a).Before (ofDays b) := by
  refine date_before (cycleDay_inRange _) (cycleDay_inRange _) ?_
  rw [days_cycleDay, days_cycleDay]
  omega

theorem ofDays_month_day (k : ℤ) :
    0 ≤ (ofDays k).month ∧ (ofDays k).month < 100 ∧ 0 ≤ (ofDays k).day ∧ (ofDays k).day < 100 :=
  (cycleDay_inRange _).month_day

/-- The last `k` decimal digits of a number, padded with zeros. -/
def digits : ℕ → ℤ → List Char
  | 0, _ => []
  | k + 1, n => digits k (n / 10) ++ [Nat.digitChar (n % 10).toNat]

@[simp] theorem length_digits (k : ℕ) (n : ℤ) : (digits k n).length = k := by
  induction k generalizing n with
  | zero => rfl
  | succ k ih => simp [digits, ih]

theorem append_lt_append {α : Type} [LT α] {xs ys : List α} (hlen : xs.length = ys.length) (h : xs < ys)
    (us vs : List α) : xs ++ us < ys ++ vs := by
  induction h with
  | nil => cases hlen
  | rel h => exact .rel h
  | cons h ih => exact .cons (ih (Nat.succ.inj hlen))

theorem digitChar_lt {a b : ℕ} (hb : b < 10) (h : a < b) : Nat.digitChar a < Nat.digitChar b := by
  interval_cases b <;> interval_cases a <;> decide

theorem digits_lt (k : ℕ) {m n : ℤ} (hm : 0 ≤ m) (hn : n < 10 ^ k) (h : m < n) : digits k m < digits k n := by
  induction k generalizing m n with
  | zero => rw [pow_zero] at hn; omega
  | succ k ih =>
      rw [pow_succ] at hn
      rcases lt_trichotomy (m / 10) (n / 10) with hlt | heq | hgt
      · exact append_lt_append (by simp) (ih (by omega) (by omega) hlt) _ _
      · rw [digits, digits, heq]
        exact List.append_left_lt (List.Lex.rel (digitChar_lt (by omega) (by omega)))
      · omega

def Date.isoformat (d : Date) : String :=
  String.ofList (digits 4 d.year ++ '-' :: digits 2 d.month ++ '-' :: digits 2 d.day)

example : (ofDays 20654).isoformat = "2026-07-20" := by decide

def Date.Representable (d : Date) : Prop := 1 ≤ d.year ∧ d.year ≤ 9999

instance (d : Date) : Decidable d.Representable := inferInstanceAs (Decidable (_ ∧ _))

theorem Date.Representable.days_bounds {k : ℤ} (h : (ofDays k).Representable) :
    -1000000 ≤ k ∧ k ≤ 3000000 := by
  have hc := cycleDay_inRange (k + 719468)
  have hdays := days_cycleDay (k + 719468)
  obtain ⟨⟨_, _⟩, ⟨_, _⟩, ⟨_, _⟩, _, _⟩ := hc
  simp only [Representable, ofDays, CycleDay.date] at h
  simp only [CycleDay.days] at hdays
  split at h <;> omega

theorem isoformat_ofDays_lt {a b : ℤ} (ha : (ofDays a).Representable) (hb : (ofDays b).Representable)
    (h : a < b) : (ofDays a).isoformat < (ofDays b).isoformat := by
  have hma := ofDays_month_day a
  have hmb := ofDays_month_day b
  have hbefore := ofDays_before h
  rw [Date.Representable] at ha hb
  rw [String.lt_iff_toList_lt, Date.isoformat, Date.isoformat, String.toList_ofList, String.toList_ofList]
  rcases hbefore with hyear | ⟨hyear, hmonth | ⟨hmonth, hday⟩⟩
  · have hlt := digits_lt 4 (by omega) (by omega) hyear
    exact append_lt_append (by simp) (append_lt_append (by simp) hlt _ _) _ _
  · have hlt := digits_lt 2 (by omega) (by omega) hmonth
    rw [hyear]
    exact append_lt_append (by simp) (List.append_left_lt (List.Lex.cons hlt)) _ _
  · have hlt := digits_lt 2 (by omega) (by omega) hday
    rw [hyear, hmonth]
    exact List.append_left_lt (List.Lex.cons hlt)

theorem isoformat_ofDays_injective {a b : ℤ} (ha : (ofDays a).Representable)
    (hb : (ofDays b).Representable) (h : (ofDays a).isoformat = (ofDays b).isoformat) : a = b := by
  rcases lt_trichotomy a b with hlt | heq | hgt
  · exact absurd h (isoformat_ofDays_lt ha hb hlt).ne
  · exact heq
  · exact absurd h (isoformat_ofDays_lt hb ha hgt).ne'

end PretradeRisk.CivilDate
