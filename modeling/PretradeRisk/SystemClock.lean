import PretradeRisk.Clock
import PretradeRisk.Doubles

namespace PretradeRisk.SystemClock

open Clock Encoding Host Ieee

/-- `timestamp()` of the instant so many microseconds after the epoch: a true
division of integers. -/
def timestamp (micros : ℤ) : Float64 := .ofRat (micros / 10 ^ 6)

def nowMillis (micros : ℤ) : ℤ := PyFloat.int (timestamp micros * ((millisPerSecond : ℤ) : Float64))

def seconds (micros : ℤ) : ℚ := Binary64.round (micros / 10 ^ 6)

def millis (micros : ℤ) : ℚ := Binary64.round (seconds micros * 1000)

variable {micros : ℤ}

theorem ofRat_of_lt {q : ℚ} (h₀ : 0 ≤ q) (h : q < 2 ^ 43) :
    ∃ hq, Float64.ofRat q = .finite (Binary64.round q) hq := by
  have hle : Binary64.round q ≤ 2 ^ (43 : ℤ) := by
    refine Binary64.round_le_zpow ?_ (by exact_mod_cast h.le)
    exact (Binary64.lastPlace_le (k := 43) (by norm_num) (by rwa [abs_of_nonneg h₀])).trans (by norm_num)
  have hsmall : |Binary64.round q| < 2 ^ 1024 := by
    rw [abs_of_nonneg (Binary64.round_nonneg h₀)]
    exact hle.trans_lt (by exact_mod_cast pow_lt_pow_right₀ (by norm_num : (1 : ℚ) < 2) (by norm_num : 43 < 1024))
  exact ⟨representable_round hsmall, by rw [Float64.ofRat, dif_pos hsmall]⟩

theorem exact_nonneg (h₀ : 0 ≤ micros) : (0 : ℚ) ≤ micros / 10 ^ 6 := by
  have : (0 : ℚ) ≤ micros := by exact_mod_cast h₀
  positivity

theorem exact_lt {k : ℕ} (h : micros < 2 ^ k * 10 ^ 6) : (micros : ℚ) / 10 ^ 6 < 2 ^ k := by
  rw [div_lt_iff₀ (by norm_num)]
  exact_mod_cast h

theorem abs_seconds_sub_le {k : ℕ} (hk : 0 < k) (h₀ : 0 ≤ micros) (h : micros < 2 ^ k * 10 ^ 6) :
    |seconds micros - micros / 10 ^ 6| ≤ 2 ^ (k - 53 : ℤ) / 2 :=
  Binary64.abs_round_sub_le_of_lt hk (by rw [abs_of_nonneg (exact_nonneg h₀)]; exact exact_lt h)

theorem product_nonneg (h₀ : 0 ≤ micros) : 0 ≤ seconds micros * 1000 :=
  mul_nonneg (Binary64.round_nonneg (exact_nonneg h₀)) (by norm_num)

theorem product_lt (h₀ : 0 ≤ micros) (h : micros < 2 ^ 33 * 10 ^ 6) : seconds micros * 1000 < 2 ^ 43 := by
  have hclose := (abs_le.mp (abs_seconds_sub_le (by norm_num) h₀ h)).2
  have hlt := exact_lt h
  norm_num at hclose hlt ⊢
  linarith

theorem nowMillis_eq (h₀ : 0 ≤ micros) (h : micros < 2 ^ 33 * 10 ^ 6) : nowMillis micros = ⌊millis micros⌋ := by
  obtain ⟨hr, hseconds⟩ := ofRat_of_lt (exact_nonneg h₀) ((exact_lt h).trans (by norm_num))
  obtain ⟨hs, hmillis⟩ := ofRat_of_lt (product_nonneg h₀) (product_lt h₀ h)
  have hthousand : ((millisPerSecond : ℤ) : Float64) = .finite (millisPerSecond : ℤ) (representable_intCast (by decide)) :=
    Float64.ofRat_of_representable (representable_intCast (by decide))
  have hmul : timestamp micros * ((millisPerSecond : ℤ) : Float64) = .finite (millis micros) hs := by
    rw [timestamp, hseconds, hthousand]
    exact hmillis
  rw [nowMillis, hmul]
  change (millis micros).num.tdiv (millis micros).den = _
  rw [Int.tdiv_eq_ediv_of_nonneg, Rat.floor_def']
  exact Rat.num_nonneg.mpr (Binary64.round_nonneg (product_nonneg h₀))

/-- Together they move an instant before the year 2242 by less than a
microsecond. -/
theorem abs_millis_sub_lt (h₀ : 0 ≤ micros) (h : micros < 2 ^ 33 * 10 ^ 6) :
    |millis micros - micros / 1000| < 1 / 1000 := by
  have hseconds := abs_le.mp (abs_seconds_sub_le (by norm_num) h₀ h)
  have hmillis := abs_le.mp (Binary64.abs_round_sub_le_of_lt (k := 43) (by norm_num)
    (by rw [abs_of_nonneg (product_nonneg h₀)]; exact product_lt h₀ h))
  rw [← millis] at hmillis
  norm_num at hseconds hmillis
  rw [abs_lt]
  constructor <;> linarith [hseconds.1, hseconds.2, hmillis.1, hmillis.2]

theorem millis_exact {j : ℕ} (hj : j ≤ 2) {m : ℤ} (hlo : 2 ^ (40 + j) < m) (hhi : 1000 * m < 2 ^ (31 + j) * 10 ^ 6) :
    millis (1000 * m) = m := by
  have hm : (0 : ℤ) < m := lt_trans (by positivity) hlo
  have hclose := abs_le.mp (abs_seconds_sub_le (by omega) (by omega : 0 ≤ 1000 * m) hhi)
  have hlo' : (2 ^ (40 + j) + 1 : ℚ) ≤ m := by exact_mod_cast hlo
  have hhi' : (1000 * m : ℚ) < 2 ^ (31 + j) * 10 ^ 6 := by exact_mod_cast hhi
  have hexact : ((1000 * m : ℤ) : ℚ) / 10 ^ 6 * 1000 = m := by
    push_cast
    ring
  have hnear : |seconds (1000 * m) * 1000 - m| < 2 ^ (j - 12 : ℤ) / 2 := by
    rw [abs_lt, ← hexact]
    interval_cases j <;> norm_num at hclose ⊢ <;> constructor <;> linarith [hclose.1, hclose.2]
  have hplace : Binary64.lastPlace (seconds (1000 * m) * 1000) = j - 12 := by
    obtain ⟨hbelow, habove⟩ := abs_lt.mp hnear
    have hpos : 0 < |seconds (1000 * m) * 1000| := by
      rw [abs_pos]
      interval_cases j <;> norm_num at hbelow hlo' ⊢ <;> linarith
    have hge : (40 + j : ℤ) ≤ Int.log 2 |seconds (1000 * m) * 1000| := by
      refine (Int.zpow_le_iff_le_log (by norm_num) hpos).mp (le_trans ?_ (le_abs_self _))
      interval_cases j <;> norm_num at hbelow hlo' ⊢ <;> linarith
    have hlt : Int.log 2 |seconds (1000 * m) * 1000| < 41 + j := by
      refine (Int.lt_zpow_iff_log_lt (by norm_num) hpos).mp ?_
      rw [abs_of_nonneg (product_nonneg (by omega))]
      interval_cases j <;> norm_num at habove hhi' ⊢ <;> linarith
    rw [Binary64.lastPlace]
    omega
  refine round_eq_of_lt_half (k := m * 2 ^ (12 - j)) ?_ (by rw [hplace]; exact hnear)
  rw [hplace]
  interval_cases j <;> norm_num <;> ring

theorem nowMillis_mono {micros' : ℤ} (h₀ : 0 ≤ micros) (hle : micros ≤ micros') (h : micros' < 2 ^ 33 * 10 ^ 6) :
    nowMillis micros ≤ nowMillis micros' := by
  rw [nowMillis_eq h₀ (lt_of_le_of_lt hle h), nowMillis_eq (h₀.trans hle) h]
  have hseconds : seconds micros ≤ seconds micros' := by
    refine Binary64.round_mono (div_le_div_of_nonneg_right ?_ (by norm_num))
    exact_mod_cast hle
  exact Int.floor_le_floor (Binary64.round_mono (mul_le_mul_of_nonneg_right hseconds (by norm_num)))

theorem nowMillis_close (h₀ : 0 ≤ micros) (h : micros < 2 ^ 33 * 10 ^ 6) :
    nowMillis micros = micros / 1000 ∨ 1000 ∣ micros ∧ nowMillis micros = micros / 1000 - 1 := by
  obtain ⟨hlo, hhi⟩ := abs_lt.mp (abs_millis_sub_lt h₀ h)
  rw [nowMillis_eq h₀ h]
  have hsplit : (micros : ℚ) = 1000 * (micros / 1000 : ℤ) + (micros % 1000 : ℤ) := by
    exact_mod_cast (Int.mul_ediv_add_emod micros 1000).symm
  have hmod : micros % 1000 < 1000 := Int.emod_lt_of_pos _ (by norm_num)
  have hlast : ((micros % 1000 : ℤ) : ℚ) ≤ 999 := by exact_mod_cast Int.le_sub_one_of_lt hmod
  by_cases hzero : micros % 1000 = 0
  · have hzero' : ((micros % 1000 : ℤ) : ℚ) = 0 := by exact_mod_cast hzero
    by_cases hbelow : millis micros < (micros / 1000 : ℤ)
    · right
      refine ⟨Int.dvd_of_emod_eq_zero hzero, Int.floor_eq_iff.mpr ?_⟩
      push_cast
      constructor <;> linarith
    · left
      rw [Int.floor_eq_iff]
      constructor <;> linarith
  · have hfirst : (1 : ℚ) ≤ (micros % 1000 : ℤ) := by
      exact_mod_cast lt_of_le_of_ne (Int.emod_nonneg _ (by norm_num)) (Ne.symm hzero)
    left
    rw [Int.floor_eq_iff]
    constructor <;> linarith

theorem nowMillis_exact {j : ℕ} (hj : j ≤ 2) (hlo : (2 ^ (40 + j) + 1) * 1000 ≤ micros)
    (hhi : micros < 2 ^ (31 + j) * 10 ^ 6) : nowMillis micros = micros / 1000 := by
  have hpow : (0 : ℤ) < 2 ^ (40 + j) := by positivity
  have h₀ : 0 ≤ micros := by omega
  have hspan : micros < 2 ^ 33 * 10 ^ 6 := by interval_cases j <;> omega
  rcases nowMillis_close h₀ hspan with heq | ⟨⟨m, rfl⟩, -⟩
  · exact heq
  · have hfloor : (1000 * m) / 1000 = m := Int.mul_ediv_cancel_left m (by norm_num)
    rw [nowMillis_eq h₀ hspan, millis_exact hj (by omega) hhi, Int.floor_intCast, hfloor]

/-- A day is told apart from the true one at the instant of a roll only. -/
theorem dayNumber_nowMillis {roll : ℤ} (hroll : 0 ≤ roll ∧ roll < millisPerDay) (h₀ : 0 ≤ micros)
    (h : micros < 2 ^ 33 * 10 ^ 6) : dayNumber (nowMillis micros) roll = dayNumber (micros / 1000) roll ∨
      ∃ day, micros = 1000 * (day * millisPerDay + roll) := by
  rcases nowMillis_close h₀ h with heq | ⟨hdvd, heq⟩
  · exact .inl (by rw [heq])
  · have hle : dayNumber (nowMillis micros) roll ≤ dayNumber (micros / 1000) roll := dayNumber_mono (by omega) roll
    rcases hle.lt_or_eq with hlt | hday
    · obtain ⟨day, hbelow, habove⟩ := (dayNumber_lt_iff hroll).mp hlt
      exact .inr ⟨day, by omega⟩
    · exact .inl hday

/-- `SystemClock` never reads ahead of the wall clock nor steps back of its
own accord. It comes to a millisecond a microsecond late at most, and in time
in the years 2005 to 2037, 2040 to 2105 and 2110 to 2241: only an order at the
very instant of a roll may be put on the trading day before. -/
theorem system_clock_reads (roll : ℤ) (h₀ : 0 ≤ micros) (h : micros < 2 ^ 33 * 10 ^ 6) :
    (∀ micros', micros ≤ micros' → micros' < 2 ^ 33 * 10 ^ 6 → nowMillis micros ≤ nowMillis micros') ∧
      (nowMillis micros = micros / 1000 ∨ 1000 ∣ micros ∧ nowMillis micros = micros / 1000 - 1) ∧
      (∀ j ≤ 2, (2 ^ (40 + j) + 1) * 1000 ≤ micros → micros < 2 ^ (31 + j) * 10 ^ 6 → nowMillis micros = micros / 1000) ∧
      ((∀ day, tradingDay (nowMillis micros) roll = .ok day ↔ tradingDay (micros / 1000) roll = .ok day) ∨
        ∃ day, micros = 1000 * (day * millisPerDay + roll)) := by
  refine ⟨fun _ hle h' => nowMillis_mono h₀ hle h', nowMillis_close h₀ h,
    fun _ hj hlo hhi => nowMillis_exact hj hlo hhi, ?_⟩
  by_cases hroll : 0 ≤ roll ∧ roll < millisPerDay
  · rcases dayNumber_nowMillis hroll h₀ h with hday | hinstant
    · exact .inl fun day => by rw [tradingDay_eq_ok_iff, tradingDay_eq_ok_iff, hday]
    · exact .inr hinstant
  · refine .inl fun day => ?_
    rw [tradingDay_eq_ok_iff, tradingDay_eq_ok_iff]
    exact iff_of_false (fun hd => hroll hd.1) fun hd => hroll hd.1

theorem system_clock_reads_noon : nowMillis 1784548800000001 = 1784548800000 :=
  (system_clock_reads 0 (by decide : (0 : ℤ) ≤ 1784548800000001) (by decide)).2.2.1 0 (by decide) (by decide) (by decide)

end PretradeRisk.SystemClock
