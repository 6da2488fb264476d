import PretradeRisk.Binary64
import PretradeRisk.CivilDate
import PretradeRisk.Host

namespace PretradeRisk.Clock

open CivilDate Host

def millisPerSecond : ℤ := 1000
def millisPerDay : ℤ := 86400000

/-- The UTC day of `datetime.fromtimestamp(t, UTC)`: the timestamp is rounded
to whole microseconds first. -/
def timestampDay (t : ℚ) : ℤ :=
  ⌊(Binary64.roundHalfEven (t * 1000000) : ℚ) / (86400 * 1000000)⌋

/-- `datetime.fromtimestamp(t, UTC).date()`, which raises outside the years
1 to 9999. -/
def fromtimestampDate (t : ℚ) : Except PyError Date :=
  let date := ofDays (timestampDay t)
  if date.Representable then .ok date else .error (.valueError "year is out of range")

/-- The ISO trading date a timestamp belongs to. The instant is divided by
1000 in binary64, as Python divides two integers. -/
def tradingDay (nowMillis sessionRollMillis : ℤ) : Except PyError String := do
  refuse (¬ (0 ≤ sessionRollMillis ∧ sessionRollMillis < millisPerDay))
    "session_roll_millis must be within [0, 86_400_000)"
  let shift := (millisPerDay - sessionRollMillis) % millisPerDay
  let date ← fromtimestampDate (Binary64.round ((nowMillis + shift : ℤ) / millisPerSecond))
  return date.isoformat

def dayNumber (nowMillis sessionRollMillis : ℤ) : ℤ :=
  (nowMillis + (millisPerDay - sessionRollMillis) % millisPerDay) / millisPerDay

theorem dayNumber_mono {m n : ℤ} (h : m ≤ n) (roll : ℤ) : dayNumber m roll ≤ dayNumber n roll :=
  Int.ediv_le_ediv (by decide) (by omega)

/-- The rounded division never moves a millisecond instant across midnight:
a whole second is exact, and any other instant is a millisecond away from
midnight, far more than the rounding error. -/
theorem timestampDay_millis {n : ℤ} (h : |(n : ℚ) / 1000| < 2 ^ 40) :
    timestampDay (Binary64.round ((n : ℚ) / 1000)) = n / 86400000 := by
  set q : ℚ := (n : ℚ) / 1000 with hq
  set k : ℤ := n / 86400000 with hk
  have hlo : 86400000 * k ≤ n := by omega
  have hhi : n + 1 ≤ 86400000 * (k + 1) := by omega
  have herr := abs_le.mp (Binary64.abs_round_sub_le_of_lt (by norm_num) h)
  norm_num at herr
  have hmicro := abs_le.mp (Binary64.abs_roundHalfEven_sub_le (Binary64.round q * 1000000))
  have hhiQ : (n : ℚ) + 1 ≤ 86400000 * (k + 1) := by exact_mod_cast hhi
  rw [timestampDay]
  rw [Int.floor_eq_iff]
  constructor
  · rw [le_div_iff₀ (by norm_num)]
    have hle : 86400000000 * k ≤ Binary64.roundHalfEven (Binary64.round q * 1000000) := by
      rcases hlo.eq_or_lt with he | hlt
      · have hwhole : q = ((86400 * k : ℤ) : ℚ) := by
          rw [hq, ← he]; push_cast; ring
        have hexact : Binary64.round q = ((86400 * k : ℤ) : ℚ) := by
          rw [hwhole] at h ⊢
          exact Binary64.round_intCast (h.trans (by norm_num))
        apply Binary64.le_roundHalfEven
        rw [hexact]; push_cast; linarith
      · have hltQ : (86400000 * k : ℚ) + 1 ≤ n := by exact_mod_cast hlt
        apply Binary64.le_roundHalfEven
        push_cast
        linarith [herr.1]
    have : ((86400000000 * k : ℤ) : ℚ) ≤ Binary64.roundHalfEven (Binary64.round q * 1000000) := by
      exact_mod_cast hle
    push_cast at this
    linarith
  · rw [div_lt_iff₀ (by norm_num)]
    linarith [herr.2, hmicro.2]

theorem timestampDay_far {q : ℚ} (h : 2 ^ 40 ≤ |q|) :
    ¬ (ofDays (timestampDay (Binary64.round q))).Representable := by
  intro hrep
  obtain ⟨hlo, hhi⟩ := hrep.days_bounds
  have hmicro := abs_le.mp (Binary64.abs_roundHalfEven_sub_le (Binary64.round q * 1000000))
  have hfar := Binary64.abs_le_two_mul_abs_round q
  rw [timestampDay] at hlo hhi
  have hloQ := Int.le_floor.mp hlo
  have hhiQ := Int.floor_lt.mp (Int.lt_add_one_iff.mpr hhi)
  rw [le_div_iff₀ (by norm_num)] at hloQ
  rw [div_lt_iff₀ (by norm_num)] at hhiQ
  push_cast at hloQ hhiQ
  rcases abs_cases (Binary64.round q) with ⟨he, -⟩ | ⟨he, -⟩ <;> linarith [hmicro.1, hmicro.2]

theorem dayNumber_far {n : ℤ} (h : 2 ^ 40 ≤ |(n : ℚ) / 1000|) :
    ¬ (ofDays (n / 86400000)).Representable := by
  intro hrep
  have hb := hrep.days_bounds
  rw [abs_div, le_div_iff₀ (by norm_num)] at h
  norm_num at h
  have hn : (1099511627776000 : ℤ) ≤ |n| := by exact_mod_cast h
  rcases abs_cases n with ⟨he, -⟩ | ⟨he, -⟩ <;> omega

theorem timestampDay_exact (n : ℤ) : timestampDay ((n : ℚ) / 1000) = n / 86400000 := by
  have hmicro : (n : ℚ) / 1000 * 1000000 = ((n * 1000 : ℤ) : ℚ) := by push_cast; ring
  rw [timestampDay, hmicro, Binary64.roundHalfEven_intCast, Int.floor_eq_iff, le_div_iff₀ (by norm_num),
    div_lt_iff₀ (by norm_num)]
  have hlo : n / 86400000 * 86400000 ≤ n := by omega
  have hhi : n < (n / 86400000 + 1) * 86400000 := by omega
  have hloQ : ((n / 86400000 : ℤ) : ℚ) * 86400000 ≤ n := by exact_mod_cast hlo
  have hhiQ : (n : ℚ) < ((n / 86400000 : ℤ) + 1) * 86400000 := by exact_mod_cast hhi
  constructor
  · push_cast at hloQ ⊢
    linarith
  · push_cast at hhiQ ⊢
    linarith

theorem fromtimestampDate_eq_ok {t : ℚ} {date : Date} :
    fromtimestampDate t = .ok date ↔ (ofDays (timestampDay t)).Representable ∧ date = ofDays (timestampDay t) := by
  rw [fromtimestampDate]
  split
  · next h => simp [h, eq_comm (a := date)]
  · next h => simp [h]

theorem fromtimestampDate_round {n : ℤ} {date : Date} :
    fromtimestampDate (Binary64.round ((n : ℚ) / 1000)) = .ok date ↔
      (ofDays (n / 86400000)).Representable ∧ date = ofDays (n / 86400000) := by
  rw [fromtimestampDate_eq_ok]
  by_cases hnear : |(n : ℚ) / 1000| < 2 ^ 40
  · rw [timestampDay_millis hnear]
  · rw [not_lt] at hnear
    exact iff_of_false (fun h => timestampDay_far hnear h.1) (fun h => dayNumber_far hnear h.1)

theorem tradingDay_eq_ok_iff {n roll : ℤ} {s : String} :
    tradingDay n roll = .ok s ↔ (0 ≤ roll ∧ roll < millisPerDay) ∧
      (ofDays (dayNumber n roll)).Representable ∧ s = (ofDays (dayNumber n roll)).isoformat := by
  have hseconds : (millisPerSecond : ℚ) = 1000 := by norm_num [millisPerSecond]
  simp only [tradingDay, bind_eq_ok, refuse_eq_ok, pure_eq_ok, Except.ok.injEq, not_not, exists_and_left, hseconds,
    fromtimestampDate_round]
  constructor
  · rintro ⟨hroll, -, date, ⟨hrep, rfl⟩, rfl⟩
    exact ⟨hroll, hrep, rfl⟩
  · rintro ⟨hroll, hrep, rfl⟩
    exact ⟨hroll, (), _, ⟨hrep, rfl⟩, rfl⟩

example : tradingDay 1784586600000 79200000 = .ok "2026-07-21" ∧
    tradingDay 1784586600000 0 = .ok "2026-07-20" := by
  simp only [tradingDay_eq_ok_iff]; decide

theorem tradingDay_eq_iff {m n roll : ℤ} {s t : String} (hm : tradingDay m roll = .ok s)
    (hn : tradingDay n roll = .ok t) : s = t ↔ dayNumber m roll = dayNumber n roll := by
  obtain ⟨-, hms, rfl⟩ := tradingDay_eq_ok_iff.mp hm
  obtain ⟨-, hns, rfl⟩ := tradingDay_eq_ok_iff.mp hn
  exact ⟨isoformat_ofDays_injective hms hns, fun h => by rw [h]⟩

section Roll

variable {m n roll day : ℤ} {s t : String}

theorem dayNumber_eq (h : 0 ≤ roll ∧ roll < millisPerDay) : dayNumber n roll =
    n / millisPerDay + if 0 < roll ∧ roll ≤ n % millisPerDay then 1 else 0 := by
  rw [dayNumber, millisPerDay] at *
  split <;> omega

def rollNumber (day roll : ℤ) : ℤ := if 0 < roll then day - 1 else day

theorem dayNumber_eq_iff (h : 0 ≤ roll ∧ roll < millisPerDay) : dayNumber n roll = day ↔
    rollNumber day roll * millisPerDay + roll ≤ n ∧ n < (rollNumber day roll + 1) * millisPerDay + roll := by
  rw [dayNumber, rollNumber, millisPerDay] at *
  split <;> omega

theorem dayNumber_lt_iff (h : 0 ≤ roll ∧ roll < millisPerDay) :
    dayNumber m roll < dayNumber n roll ↔ ∃ k, m < k * millisPerDay + roll ∧ k * millisPerDay + roll ≤ n := by
  have hm := (dayNumber_eq_iff (n := m) h).mp rfl
  have hn := (dayNumber_eq_iff (n := n) h).mp rfl
  constructor
  · intro hlt
    refine ⟨rollNumber (dayNumber n roll) roll, ?_, hn.1⟩
    rw [rollNumber, millisPerDay] at *
    split at * <;> omega
  · rintro ⟨k, hmk, hkn⟩
    rw [rollNumber, millisPerDay] at *
    split at * <;> omega

theorem tradingDay_mono (hm : tradingDay m roll = .ok s) (hn : tradingDay n roll = .ok t) (hmn : m ≤ n) : s ≤ t := by
  obtain ⟨-, hms, rfl⟩ := tradingDay_eq_ok_iff.mp hm
  obtain ⟨-, hns, rfl⟩ := tradingDay_eq_ok_iff.mp hn
  rcases (dayNumber_mono hmn roll).eq_or_lt with heq | hlt
  · rw [heq]
  · exact (isoformat_ofDays_lt hms hns hlt).le

theorem tradingDay_between {k : ℤ} (hk : tradingDay k roll = .ok s) (hm : tradingDay m roll = .ok t)
    (hn : tradingDay n roll = .ok s) (hkm : k ≤ m) (hmn : m ≤ n) : t = s :=
  (tradingDay_mono hm hn hmn).antisymm (tradingDay_mono hk hm hkm)

theorem tradingDay_eq_iff_not_roll (hm : tradingDay m roll = .ok s) (hn : tradingDay n roll = .ok t) (hmn : m ≤ n) :
    s = t ↔ ¬ ∃ k, m < k * millisPerDay + roll ∧ k * millisPerDay + roll ≤ n := by
  obtain ⟨hroll, -⟩ := tradingDay_eq_ok_iff.mp hm
  rw [tradingDay_eq_iff hm hn, ← dayNumber_lt_iff hroll, not_lt]
  exact ⟨fun h => h.ge, (dayNumber_mono hmn roll).antisymm⟩

theorem tradingDay_eq_isoformat_iff (hday : (ofDays day).Representable) :
    tradingDay n roll = .ok (ofDays day).isoformat ↔ (0 ≤ roll ∧ roll < millisPerDay) ∧ dayNumber n roll = day := by
  rw [tradingDay_eq_ok_iff]
  refine and_congr_right fun _ => ⟨?_, ?_⟩
  · rintro ⟨hrep, heq⟩
    exact isoformat_ofDays_injective hrep hday heq.symm
  · rintro rfl
    exact ⟨hday, rfl⟩

end Roll

/-- The trading day rolls at `roll` milliseconds after UTC midnight, once per
day. -/
structure RollsAt (roll : ℤ) : Prop where
  date : ∀ n s, tradingDay n roll = .ok s ↔
    let day := n / millisPerDay + if 0 < roll ∧ roll ≤ n % millisPerDay then 1 else 0
    (ofDays day).Representable ∧ s = (ofDays day).isoformat
  mono : ∀ m n s t, tradingDay m roll = .ok s → tradingDay n roll = .ok t → m ≤ n → s ≤ t
  same_iff : ∀ m n s t, tradingDay m roll = .ok s → tradingDay n roll = .ok t →
    (s = t ↔ ¬ ∃ k, min m n < k * millisPerDay + roll ∧ k * millisPerDay + roll ≤ max m n)
  /-- A date of the calendar covers one day from a roll instant on. -/
  covers : ∀ day, (ofDays day).Representable → ∃ k, ∀ n,
    tradingDay n roll = .ok (ofDays day).isoformat ↔
      k * millisPerDay + roll ≤ n ∧ n < k * millisPerDay + roll + millisPerDay
  /-- The division that is rounded has the date of the exact one. -/
  division : ∀ (n : ℤ) date, fromtimestampDate (Binary64.round (n / millisPerSecond)) = .ok date ↔
    fromtimestampDate (n / millisPerSecond) = .ok date

theorem trading_day_rolls (roll : ℤ) (h : 0 ≤ roll ∧ roll < millisPerDay) : RollsAt roll where
  date n s := by
    rw [tradingDay_eq_ok_iff, dayNumber_eq h]
    exact and_iff_right h
  mono m n s t hm hn hmn := tradingDay_mono hm hn hmn
  same_iff m n s t hm hn := by
    rcases le_total m n with hmn | hnm
    · rw [min_eq_left hmn, max_eq_right hmn]
      exact tradingDay_eq_iff_not_roll hm hn hmn
    · rw [min_eq_right hnm, max_eq_left hnm, eq_comm]
      exact tradingDay_eq_iff_not_roll hn hm hnm
  covers day hday := by
    refine ⟨rollNumber day roll, fun n => ?_⟩
    rw [tradingDay_eq_isoformat_iff hday, and_iff_right h, dayNumber_eq_iff h, add_one_mul, add_right_comm]
  division n date := by
    have hseconds : (millisPerSecond : ℚ) = 1000 := by norm_num [millisPerSecond]
    rw [hseconds, fromtimestampDate_round, fromtimestampDate_eq_ok, timestampDay_exact]

theorem trading_day_rolls_evening : RollsAt 79200000 := trading_day_rolls 79200000 (by decide)

end PretradeRisk.Clock
