import Mathlib.Algebra.Order.Round
import Mathlib.Data.Int.Log
import Mathlib.Data.Rat.Floor
import Mathlib.Tactic

namespace PretradeRisk.Binary64

/-- The nearest integer, a tie going to the even one. -/
def roundHalfEven (q : ℚ) : ℤ :=
  let n := ⌊q⌋
  if q - n < 1 / 2 then n
  else if 1 / 2 < q - n then n + 1
  else if n % 2 = 0 then n else n + 1

theorem roundHalfEven_intCast (n : ℤ) : roundHalfEven n = n := by
  simp [roundHalfEven]

theorem abs_roundHalfEven_sub_le (q : ℚ) : |(roundHalfEven q : ℚ) - q| ≤ 1 / 2 := by
  have hl := Int.floor_le q
  have hu := Int.lt_floor_add_one q
  rw [abs_le]
  unfold roundHalfEven
  dsimp only
  split_ifs <;> push_cast <;> constructor <;> linarith

theorem le_roundHalfEven {n : ℤ} {q : ℚ} (h : (n : ℚ) ≤ q) : n ≤ roundHalfEven q := by
  have hn : n ≤ ⌊q⌋ := Int.le_floor.mpr h
  unfold roundHalfEven
  dsimp only
  split_ifs <;> omega

/-- The exponent of the last place of a binary64 significand at the size of
`q`: 53 digits, and never below the subnormal spacing. -/
def lastPlace (q : ℚ) : ℤ := max (Int.log 2 |q| - 52) (-1074)

/-- The binary64 value nearest to `q`, a tie going to the even significand.
Overflow is not part of it: every caller bounds `q`. -/
def round (q : ℚ) : ℚ := roundHalfEven (q / 2 ^ lastPlace q) * 2 ^ lastPlace q

theorem abs_round_sub_le (q : ℚ) : |round q - q| ≤ 2 ^ lastPlace q / 2 := by
  have hp : (0 : ℚ) < 2 ^ lastPlace q := by positivity
  have h := abs_roundHalfEven_sub_le (q / 2 ^ lastPlace q)
  have he : round q - q =
      ((roundHalfEven (q / 2 ^ lastPlace q) : ℚ) - q / 2 ^ lastPlace q) * 2 ^ lastPlace q := by
    rw [sub_mul, div_mul_cancel₀ _ hp.ne', round]
  rw [he, abs_mul, abs_of_pos hp]
  calc _ ≤ 1 / 2 * (2 : ℚ) ^ lastPlace q := mul_le_mul_of_nonneg_right h hp.le
    _ = 2 ^ lastPlace q / 2 := by ring

theorem lastPlace_le {q : ℚ} {k : ℕ} (hk : 0 < k) (h : |q| < 2 ^ k) :
    lastPlace q ≤ max (k - 53 : ℤ) (-1074) := by
  refine max_le_max ?_ le_rfl
  rcases eq_or_ne q 0 with rfl | hq
  · rw [abs_zero, Int.log_zero_right]; omega
  · have hl : Int.log 2 |q| < k :=
      (Int.lt_zpow_iff_log_lt (by norm_num) (abs_pos.mpr hq)).mp (by exact_mod_cast h)
    omega

theorem abs_round_sub_le_of_lt {q : ℚ} {k : ℕ} (hk : 0 < k) (h : |q| < 2 ^ k) :
    |round q - q| ≤ 2 ^ (k - 53 : ℤ) / 2 := by
  refine (abs_round_sub_le q).trans ?_
  have hle : lastPlace q ≤ (k - 53 : ℤ) := (lastPlace_le hk h).trans (max_le le_rfl (by omega))
  have := zpow_le_zpow_right₀ (by norm_num : (1 : ℚ) ≤ 2) hle
  linarith

theorem round_intCast {n : ℤ} (h : |(n : ℚ)| < 2 ^ 53) : round n = n := by
  have hle : lastPlace n ≤ 0 := (lastPlace_le (by norm_num) h).trans (by norm_num)
  obtain ⟨k, hk⟩ := Int.eq_ofNat_of_zero_le (neg_nonneg.mpr hle)
  have hz : lastPlace n = -(k : ℤ) := by omega
  have hd : (n : ℚ) / 2 ^ lastPlace n = ((n * 2 ^ k : ℤ) : ℚ) := by
    rw [hz, zpow_neg, div_inv_eq_mul, zpow_natCast]; push_cast; ring
  have hp : (2 : ℚ) ^ lastPlace n ≠ 0 := by positivity
  rw [round, hd, roundHalfEven_intCast, ← hd, div_mul_cancel₀ _ hp]

theorem abs_le_two_mul_abs_round (q : ℚ) : |q| ≤ 2 * |round q| + 1 := by
  rcases eq_or_ne q 0 with rfl | hq
  · simp; positivity
  have hr := abs_round_sub_le q
  have hlog : (2 : ℚ) ^ Int.log 2 |q| ≤ |q| := Int.zpow_log_le_self (by norm_num) (abs_pos.mpr hq)
  have hplace : (2 : ℚ) ^ lastPlace q ≤ |q| + 1 := by
    rcases max_cases (Int.log 2 |q| - 52) (-1074) with ⟨he, -⟩ | ⟨he, -⟩
    · rw [lastPlace, he]
      have h := zpow_le_zpow_right₀ (by norm_num : (1 : ℚ) ≤ 2)
        (show Int.log 2 |q| - 52 ≤ Int.log 2 |q| by omega)
      linarith
    · rw [lastPlace, he]
      have h := zpow_le_zpow_right₀ (by norm_num : (1 : ℚ) ≤ 2) (show (-1074 : ℤ) ≤ 0 by omega)
      rw [zpow_zero] at h
      have := abs_nonneg q
      linarith
  have ht : |q| ≤ |round q| + |round q - q| := by
    have h := abs_sub_abs_le_abs_sub q (round q)
    rw [abs_sub_comm] at h
    linarith
  linarith

theorem roundHalfEven_neg (q : ℚ) : roundHalfEven (-q) = -roundHalfEven q := by
  by_cases hint : q = ⌊q⌋
  · rw [hint, ← Int.cast_neg, roundHalfEven_intCast, roundHalfEven_intCast]
  · have hl : (⌊q⌋ : ℚ) < q := lt_of_le_of_ne (Int.floor_le q) (Ne.symm hint)
    have hu := Int.lt_floor_add_one q
    have hfloor : ⌊-q⌋ = -⌊q⌋ - 1 := by
      rw [Int.floor_eq_iff]
      push_cast
      constructor <;> linarith
    unfold roundHalfEven
    dsimp only
    rw [hfloor]
    push_cast
    split_ifs <;> first | omega | (exfalso; linarith)

theorem roundHalfEven_mono {a b : ℚ} (h : a ≤ b) : roundHalfEven a ≤ roundHalfEven b := by
  rcases (Int.floor_le_floor h).lt_or_eq with hlt | heq
  · have hb := le_roundHalfEven (Int.floor_le b)
    have ha : roundHalfEven a ≤ ⌊a⌋ + 1 := by
      unfold roundHalfEven
      dsimp only
      split_ifs <;> omega
    omega
  · unfold roundHalfEven
    dsimp only
    rw [heq]
    split_ifs <;> first | omega | (exfalso; linarith)

theorem roundHalfEven_le {n : ℤ} {q : ℚ} (h : q ≤ n) : roundHalfEven q ≤ n := by
  have hmono := roundHalfEven_mono h
  rwa [roundHalfEven_intCast] at hmono

theorem round_neg (q : ℚ) : round (-q) = -round q := by
  rw [round, round, lastPlace, lastPlace, abs_neg, neg_div, roundHalfEven_neg]
  push_cast
  ring

theorem round_nonneg {q : ℚ} (h : 0 ≤ q) : 0 ≤ round q := by
  have hround : 0 ≤ roundHalfEven (q / 2 ^ lastPlace q) := le_roundHalfEven (by push_cast; positivity)
  rw [round]
  have hcast : (0 : ℚ) ≤ roundHalfEven (q / 2 ^ lastPlace q) := by exact_mod_cast hround
  positivity

theorem lastPlace_mono {a b : ℚ} (ha : a ≠ 0) (h : |a| ≤ |b|) : lastPlace a ≤ lastPlace b := by
  have hlog := Int.log_mono_right (b := 2) (abs_pos.mpr ha) h
  exact max_le_max (by omega) le_rfl

theorem zpow_div_lastPlace {q : ℚ} {l : ℤ} (h : lastPlace q ≤ l) :
    (2 : ℚ) ^ l / 2 ^ lastPlace q = ((2 ^ (l - lastPlace q).toNat : ℤ) : ℚ) := by
  rw [← zpow_sub₀ two_ne_zero]
  push_cast
  rw [← zpow_natCast, Int.toNat_of_nonneg (by omega)]

theorem round_le_zpow {q : ℚ} {l : ℤ} (hl : lastPlace q ≤ l) (h : q ≤ 2 ^ l) : round q ≤ 2 ^ l := by
  have hp : (0 : ℚ) < 2 ^ lastPlace q := by positivity
  have hle : roundHalfEven (q / 2 ^ lastPlace q) ≤ (2 ^ (l - lastPlace q).toNat : ℤ) := by
    refine roundHalfEven_le ?_
    rw [← zpow_div_lastPlace hl]
    gcongr
  have hle' : (roundHalfEven (q / 2 ^ lastPlace q) : ℚ) ≤ (2 : ℚ) ^ l / 2 ^ lastPlace q := by
    rw [zpow_div_lastPlace hl]
    exact_mod_cast hle
  exact (le_div_iff₀ hp).mp hle'

theorem zpow_le_round {q : ℚ} {l : ℤ} (hl : lastPlace q ≤ l) (h : 2 ^ l ≤ q) : 2 ^ l ≤ round q := by
  have hp : (0 : ℚ) < 2 ^ lastPlace q := by positivity
  have hle : (2 ^ (l - lastPlace q).toNat : ℤ) ≤ roundHalfEven (q / 2 ^ lastPlace q) := by
    refine le_roundHalfEven ?_
    rw [← zpow_div_lastPlace hl]
    gcongr
  have hle' : (2 : ℚ) ^ l / 2 ^ lastPlace q ≤ (roundHalfEven (q / 2 ^ lastPlace q) : ℚ) := by
    rw [zpow_div_lastPlace hl]
    exact_mod_cast hle
  exact (div_le_iff₀ hp).mp hle'

theorem round_mono_of_nonneg {a b : ℚ} (ha : 0 ≤ a) (h : a ≤ b) : round a ≤ round b := by
  rcases eq_or_ne a 0 with rfl | hne
  · have hzero : round 0 = 0 := by exact_mod_cast round_intCast (n := 0) (by norm_num)
    rw [hzero]
    exact round_nonneg h
  have hpos : 0 < a := lt_of_le_of_ne ha (Ne.symm hne)
  have hb : 0 < b := hpos.trans_le h
  have hplaces : lastPlace a ≤ lastPlace b := lastPlace_mono hne (by rwa [abs_of_pos hpos, abs_of_pos hb])
  rcases hplaces.lt_or_eq with hlt | heq
  · -- A power of two stands between them, and neither is rounded past it.
    have hplace : lastPlace b = Int.log 2 b - 52 := by
      rcases max_choice (Int.log 2 |b| - 52) (-1074) with hmax | hmax
      · rw [lastPlace, hmax, abs_of_pos hb]
      · have hlow : -1074 ≤ lastPlace a := le_max_right _ _
        have heq : lastPlace b = -1074 := hmax
        omega
    have hlog : Int.log 2 |a| - 52 < lastPlace b := (le_max_left _ _).trans_lt hlt
    rw [abs_of_pos hpos] at hlog
    have hbelow : a < ((2 : ℕ) : ℚ) ^ Int.log 2 b := (Int.lt_zpow_iff_log_lt (by norm_num) hpos).mpr (by omega)
    have habove : (2 : ℚ) ^ Int.log 2 b ≤ b := Int.zpow_log_le_self (by norm_num) hb
    have hb' : lastPlace b ≤ Int.log 2 b := by omega
    exact (round_le_zpow (hplaces.trans hb') (by exact_mod_cast hbelow.le)).trans (zpow_le_round hb' habove)
  · have hle : roundHalfEven (a / 2 ^ lastPlace b) ≤ roundHalfEven (b / 2 ^ lastPlace b) :=
      roundHalfEven_mono (by gcongr)
    rw [round, round, heq]
    exact mul_le_mul_of_nonneg_right (by exact_mod_cast hle) (by positivity)

theorem round_mono {a b : ℚ} (h : a ≤ b) : round a ≤ round b := by
  rcases le_total 0 a with ha | ha
  · exact round_mono_of_nonneg ha h
  · rcases le_total 0 b with hb | hb
    · have hneg := round_nonneg (neg_nonneg.mpr ha)
      rw [round_neg] at hneg
      have hpos := round_nonneg hb
      linarith
    · have hneg := round_mono_of_nonneg (neg_nonneg.mpr hb) (neg_le_neg h)
      rw [round_neg, round_neg] at hneg
      linarith

end PretradeRisk.Binary64
