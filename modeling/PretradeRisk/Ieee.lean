import PretradeRisk.Binary64

namespace PretradeRisk.Ieee

open Binary64

def Representable (x : ℚ) : Prop :=
  ∃ m e : ℤ, |m| < 2 ^ 53 ∧ -1074 ≤ e ∧ e ≤ 971 ∧ x = m * 2 ^ e

inductive Float64
  | nan
  | infinite (negative : Bool)
  | finite (x : ℚ) (h : Representable x)
  deriving DecidableEq

theorem representable_zero : Representable 0 := ⟨0, 0, by norm_num, by norm_num, by norm_num, by simp⟩

theorem representable_intCast {n : ℤ} (h : |n| < 2 ^ 53) : Representable n :=
  ⟨n, 0, h, by norm_num, by norm_num, by simp⟩

theorem representable_one : Representable 1 := by
  have h := representable_intCast (n := 1) (by norm_num)
  exact_mod_cast h

theorem Representable.neg {x : ℚ} (h : Representable x) : Representable (-x) := by
  obtain ⟨m, e, hm, hlo, hhi, rfl⟩ := h
  exact ⟨-m, e, by rwa [abs_neg], hlo, hhi, by push_cast; ring⟩

theorem round_eq_of_lt_half {x q : ℚ} {k : ℤ} (hk : x = k * 2 ^ lastPlace q)
    (h : |q - x| < 2 ^ lastPlace q / 2) : Binary64.round q = x := by
  have hp : (0 : ℚ) < 2 ^ lastPlace q := by positivity
  have hnear : |(roundHalfEven (q / 2 ^ lastPlace q) : ℚ) - k| < 1 := by
    have hround := abs_roundHalfEven_sub_le (q / 2 ^ lastPlace q)
    have hclose : |q / 2 ^ lastPlace q - k| < 1 / 2 := by
      have heq : q / 2 ^ lastPlace q - k = (q - x) / 2 ^ lastPlace q := by
        rw [hk]
        field_simp
      rw [heq, abs_div, abs_of_pos hp, div_lt_iff₀ hp]
      linarith
    have htri := abs_sub_le (roundHalfEven (q / 2 ^ lastPlace q) : ℚ) (q / 2 ^ lastPlace q) k
    linarith
  have heq : roundHalfEven (q / 2 ^ lastPlace q) = k := by
    have hint : |roundHalfEven (q / 2 ^ lastPlace q) - k| < 1 := by exact_mod_cast hnear
    exact sub_eq_zero.mp (Int.abs_lt_one_iff.mp hint)
  rw [Binary64.round, heq, hk]

theorem exists_multiple_of_near {x q : ℚ} (hx : Representable x) (hq : q ≠ 0)
    (h : |q - x| * (2 * 10 ^ 16) ≤ |x|) : ∃ k : ℤ, x = k * 2 ^ lastPlace q := by
  obtain ⟨m, e, hm, hlo, -, rfl⟩ := hx
  by_cases he : lastPlace q ≤ e
  · refine ⟨m * 2 ^ (e - lastPlace q).toNat, ?_⟩
    have hsplit : (2 : ℚ) ^ e = 2 ^ (e - lastPlace q).toNat * 2 ^ lastPlace q := by
      rw [← zpow_natCast, Int.toNat_of_nonneg (by omega), ← zpow_add₀ two_ne_zero, sub_add_cancel]
    rw [hsplit]
    push_cast
    ring
  · -- A finer number lies below the binade of `q`, too far below to be near it.
    exfalso
    have hplace : lastPlace q = Int.log 2 |q| - 52 := by
      rcases max_choice (Int.log 2 |q| - 52) (-1074) with hmax | hmax
      · exact hmax
      · exact absurd (hmax.trans_le hlo) he
    have hbinade : (2 : ℚ) ^ Int.log 2 |q| ≤ |q| := Int.zpow_log_le_self (by norm_num) (abs_pos.mpr hq)
    set l := Int.log 2 |q| with hl
    have hulp : (0 : ℚ) < 2 ^ (l - 53) := by positivity
    have hpow : (2 : ℚ) ^ l = 2 ^ 53 * 2 ^ (l - 53) := by
      rw [← zpow_natCast, ← zpow_add₀ two_ne_zero]
      congr 1
      push_cast
      ring
    have hx : |(m : ℚ) * 2 ^ e| ≤ (2 ^ 53 - 1) * 2 ^ (l - 53) := by
      have hm' : |(m : ℚ)| ≤ 2 ^ 53 - 1 := by
        have hint : |m| ≤ 2 ^ 53 - 1 := by omega
        exact_mod_cast hint
      rw [abs_mul, abs_of_pos (show (0 : ℚ) < 2 ^ e by positivity)]
      exact mul_le_mul hm' (zpow_le_zpow_right₀ (by norm_num) (by omega)) (by positivity) (by norm_num)
    have htri := abs_sub_abs_le_abs_sub q ((m : ℚ) * 2 ^ e)
    nlinarith

theorem near_lt_half_place {x q : ℚ} (h : |q - x| * (2 * 10 ^ 16) ≤ |x|) :
    |q - x| < 2 ^ lastPlace q / 2 := by
  have hbinade : |q| < 2 ^ (Int.log 2 |q| + 1) := by
    exact_mod_cast Int.lt_zpow_succ_log_self (b := 2) (by norm_num) |q|
  have hplace : (2 : ℚ) ^ (Int.log 2 |q| - 52) ≤ 2 ^ lastPlace q :=
    zpow_le_zpow_right₀ (by norm_num) (le_max_left _ _)
  have hpow : (2 : ℚ) ^ (Int.log 2 |q| + 1) = 2 ^ 53 * 2 ^ (Int.log 2 |q| - 52) := by
    rw [← zpow_natCast, ← zpow_add₀ two_ne_zero]
    congr 1
    push_cast
    ring
  have htri := abs_sub_abs_le_abs_sub x q
  rw [abs_sub_comm] at htri
  nlinarith [abs_nonneg (q - x)]

theorem round_eq_of_near {x q : ℚ} (hx : Representable x) (h : |q - x| * (2 * 10 ^ 16) ≤ |x|) :
    Binary64.round q = x := by
  rcases eq_or_ne q 0 with rfl | hq
  · have hzero : x = 0 := by
      rw [zero_sub, abs_neg] at h
      by_contra hne
      nlinarith [abs_pos.mpr hne]
    rw [hzero]
    exact_mod_cast round_intCast (n := 0) (by norm_num)
  · obtain ⟨k, hk⟩ := exists_multiple_of_near hx hq h
    exact round_eq_of_lt_half hk (near_lt_half_place h)

theorem round_of_representable {x : ℚ} (hx : Representable x) : Binary64.round x = x :=
  round_eq_of_near hx (by simp)

theorem Representable.abs_lt {x : ℚ} (hx : Representable x) : |x| < 2 ^ 1024 := by
  obtain ⟨m, e, hm, -, hhi, rfl⟩ := hx
  have hm' : |(m : ℚ)| < 2 ^ 53 := by exact_mod_cast hm
  have he : (2 : ℚ) ^ e ≤ 2 ^ 971 := by
    have hpow := zpow_le_zpow_right₀ (by norm_num : (1 : ℚ) ≤ 2) hhi
    exact_mod_cast hpow
  rw [abs_mul, abs_of_pos (show (0 : ℚ) < 2 ^ e by positivity)]
  calc |(m : ℚ)| * 2 ^ e < 2 ^ 53 * 2 ^ e := mul_lt_mul_of_pos_right hm' (by positivity)
    _ ≤ 2 ^ 53 * 2 ^ 971 := mul_le_mul_of_nonneg_left he (by positivity)
    _ = 2 ^ 1024 := by rw [← pow_add]

theorem abs_roundHalfEven_le {q : ℚ} {n : ℕ} (h : |q| ≤ n) : |roundHalfEven q| ≤ n := by
  obtain ⟨hlo, hhi⟩ := abs_le.mp h
  refine abs_le.mpr ⟨le_roundHalfEven (by exact_mod_cast hlo), ?_⟩
  by_contra hlt
  have hround := abs_roundHalfEven_sub_le q
  have hge : ((n : ℤ) : ℚ) + 1 ≤ roundHalfEven q := by exact_mod_cast not_le.mp hlt
  have hup := (abs_le.mp hround).2
  push_cast at hge
  linarith

theorem abs_significand_le (q : ℚ) : |roundHalfEven (q / 2 ^ lastPlace q)| ≤ 2 ^ 53 := by
  have hp : (0 : ℚ) < 2 ^ lastPlace q := by positivity
  have hbinade : |q| < 2 ^ (Int.log 2 |q| + 1) := by
    exact_mod_cast Int.lt_zpow_succ_log_self (b := 2) (by norm_num) |q|
  have hplace : (2 : ℚ) ^ (Int.log 2 |q| + 1) ≤ 2 ^ 53 * 2 ^ lastPlace q := by
    rw [← zpow_natCast, ← zpow_add₀ two_ne_zero]
    have hle : Int.log 2 |q| - 52 ≤ lastPlace q := le_max_left _ _
    exact zpow_le_zpow_right₀ (by norm_num) (by push_cast; omega)
  have hq : |q / 2 ^ lastPlace q| ≤ (2 ^ 53 : ℕ) := by
    rw [abs_div, abs_of_pos hp, div_le_iff₀ hp]
    push_cast
    exact hbinade.le.trans hplace
  exact_mod_cast abs_roundHalfEven_le hq

theorem le_abs_significand {q : ℚ} (hq : q ≠ 0) (hnormal : lastPlace q ≠ -1074) :
    2 ^ 52 ≤ |roundHalfEven (q / 2 ^ lastPlace q)| := by
  have hp : (0 : ℚ) < 2 ^ lastPlace q := by positivity
  have hplace : lastPlace q = Int.log 2 |q| - 52 := by
    rcases max_choice (Int.log 2 |q| - 52) (-1074) with hmax | hmax
    · exact hmax
    · exact absurd hmax hnormal
  have hbinade : (2 : ℚ) ^ Int.log 2 |q| ≤ |q| := Int.zpow_log_le_self (by norm_num) (abs_pos.mpr hq)
  have hsplit : (2 : ℚ) ^ Int.log 2 |q| = 2 ^ 52 * 2 ^ lastPlace q := by
    rw [hplace, ← zpow_natCast, ← zpow_add₀ two_ne_zero]
    congr 1
    push_cast
    ring
  have hlo : (2 : ℚ) ^ 52 ≤ |q / 2 ^ lastPlace q| := by
    rw [abs_div, abs_of_pos hp, le_div_iff₀ hp, ← hsplit]
    exact hbinade
  have hround := abs_roundHalfEven_sub_le (q / 2 ^ lastPlace q)
  rw [abs_sub_comm] at hround
  have htri := abs_sub_abs_le_abs_sub (q / 2 ^ lastPlace q) (roundHalfEven (q / 2 ^ lastPlace q) : ℚ)
  have hlt : (2 : ℚ) ^ 52 - 1 < |(roundHalfEven (q / 2 ^ lastPlace q) : ℚ)| := by linarith
  have hint : (2 : ℤ) ^ 52 - 1 < |roundHalfEven (q / 2 ^ lastPlace q)| := by exact_mod_cast hlt
  omega

theorem representable_round {q : ℚ} (h : |Binary64.round q| < 2 ^ 1024) : Representable (Binary64.round q) := by
  rcases eq_or_ne q 0 with rfl | hq
  · rw [round_of_representable representable_zero]
    exact representable_zero
  have hhi := abs_significand_le q
  have hlow : -1074 ≤ lastPlace q := le_max_right _ _
  have hsize : |(roundHalfEven (q / 2 ^ lastPlace q) : ℚ)| * 2 ^ lastPlace q < 2 ^ 1024 := by
    rw [Binary64.round, abs_mul, abs_of_pos (show (0 : ℚ) < 2 ^ lastPlace q by positivity)] at h
    exact h
  have hbound {k : ℕ} (hk : (2 : ℤ) ^ k ≤ |roundHalfEven (q / 2 ^ lastPlace q)|) : lastPlace q + k < 1024 := by
    have hk' : (2 : ℚ) ^ k ≤ |(roundHalfEven (q / 2 ^ lastPlace q) : ℚ)| := by exact_mod_cast hk
    have hlt : (2 : ℚ) ^ (lastPlace q + k) < 2 ^ (1024 : ℤ) := by
      rw [zpow_add₀ two_ne_zero, zpow_natCast, mul_comm]
      exact (mul_le_mul_of_nonneg_right hk' (by positivity)).trans_lt (by exact_mod_cast hsize)
    exact (zpow_lt_zpow_iff_right₀ (by norm_num)).mp hlt
  rcases hhi.lt_or_eq with hlt | heq
  · refine ⟨_, lastPlace q, hlt, hlow, ?_, rfl⟩
    by_cases hnormal : lastPlace q = -1074
    · omega
    · have := hbound (le_abs_significand hq hnormal)
      push_cast at this
      omega
  · -- The significand has carried into the next binade.
    have hplace := hbound (k := 53) heq.ge
    push_cast at hplace
    have hcarry (s : ℤ) (hs : |s| = 1) (hn : roundHalfEven (q / 2 ^ lastPlace q) = s * 2 ^ 53) :
        Representable (Binary64.round q) := by
      refine ⟨s * 2 ^ 52, lastPlace q + 1, ?_, by omega, by omega, ?_⟩
      · rw [abs_mul, hs]
        norm_num
      · rw [Binary64.round, hn, zpow_add_one₀ two_ne_zero]
        push_cast
        ring
    rcases abs_eq (by norm_num : (0 : ℤ) ≤ 2 ^ 53) |>.mp heq with hn | hn
    · exact hcarry 1 (by norm_num) (by rw [hn]; norm_num)
    · exact hcarry (-1) (by norm_num) (by rw [hn]; norm_num)

theorem abs_roundHalfEven_sub_le_abs (q : ℚ) (k : ℤ) : |(roundHalfEven q : ℚ) - q| ≤ |k - q| := by
  have hround := abs_roundHalfEven_sub_le q
  by_cases hk : k = roundHalfEven q
  · rw [hk]
  · have hone : (1 : ℚ) ≤ |(k : ℚ) - roundHalfEven q| := by exact_mod_cast Int.one_le_abs (sub_ne_zero.mpr hk)
    have htri := abs_sub_le (k : ℚ) q (roundHalfEven q)
    rw [abs_sub_comm q] at htri
    linarith

theorem abs_round_sub_le_multiple (q : ℚ) (k : ℤ) : |Binary64.round q - q| ≤ |k * 2 ^ lastPlace q - q| := by
  have hp : (0 : ℚ) < 2 ^ lastPlace q := by positivity
  have hscaled (n : ℤ) : |n * 2 ^ lastPlace q - q| = |n - q / 2 ^ lastPlace q| * 2 ^ lastPlace q := by
    rw [← abs_of_pos hp, ← abs_mul, abs_of_pos hp, sub_mul, div_mul_cancel₀ _ hp.ne']
  rw [Binary64.round, hscaled, hscaled]
  exact mul_le_mul_of_nonneg_right (abs_roundHalfEven_sub_le_abs _ k) hp.le

theorem exists_multiple_as_near {y : ℚ} (hy : Representable y) {q : ℚ} (hq : q ≠ 0) :
    ∃ k : ℤ, |k * 2 ^ lastPlace q - q| ≤ |y - q| := by
  obtain ⟨m, e, hm, hlo, -, rfl⟩ := hy
  by_cases he : lastPlace q ≤ e
  · refine ⟨m * 2 ^ (e - lastPlace q).toNat, le_of_eq ?_⟩
    have hsplit : (2 : ℚ) ^ e = 2 ^ (e - lastPlace q).toNat * 2 ^ lastPlace q := by
      rw [← zpow_natCast, Int.toNat_of_nonneg (by omega), ← zpow_add₀ two_ne_zero, sub_add_cancel]
    rw [hsplit]
    push_cast
    rw [mul_assoc]
  · -- A finer number lies below the binade of `q`, whose foot is nearer.
    have hplace : lastPlace q = Int.log 2 |q| - 52 := by
      rcases max_choice (Int.log 2 |q| - 52) (-1074) with hmax | hmax
      · exact hmax
      · exact absurd (hmax.trans_le hlo) he
    have hbinade : (2 : ℚ) ^ Int.log 2 |q| ≤ |q| := Int.zpow_log_le_self (by norm_num) (abs_pos.mpr hq)
    have hfoot : (2 : ℚ) ^ Int.log 2 |q| = 2 ^ 52 * 2 ^ lastPlace q := by
      rw [hplace, ← zpow_natCast, ← zpow_add₀ two_ne_zero]
      congr 1
      push_cast
      ring
    have hy : |(m : ℚ) * 2 ^ e| ≤ 2 ^ Int.log 2 |q| := by
      have hm' : |(m : ℚ)| ≤ 2 ^ 53 := by exact_mod_cast hm.le
      rw [abs_mul, abs_of_pos (show (0 : ℚ) < 2 ^ e by positivity)]
      calc |(m : ℚ)| * 2 ^ e ≤ 2 ^ 53 * 2 ^ e := mul_le_mul_of_nonneg_right hm' (by positivity)
        _ = 2 ^ (e + 53) := by rw [zpow_add₀ two_ne_zero, mul_comm]; norm_cast
        _ ≤ 2 ^ Int.log 2 |q| := zpow_le_zpow_right₀ (by norm_num) (by omega)
    have hgap : |q| - 2 ^ Int.log 2 |q| ≤ |(m : ℚ) * 2 ^ e - q| := by
      have htri := abs_sub_abs_le_abs_sub q ((m : ℚ) * 2 ^ e)
      rw [abs_sub_comm] at htri
      linarith
    rcases lt_or_gt_of_ne hq with hneg | hpos
    · refine ⟨-2 ^ 52, ?_⟩
      rw [Int.cast_neg, Int.cast_pow, Int.cast_ofNat, neg_mul, ← hfoot]
      rw [abs_of_neg hneg] at hgap hbinade ⊢
      rw [abs_of_nonneg (by linarith)]
      linarith
    · refine ⟨2 ^ 52, ?_⟩
      rw [Int.cast_pow, Int.cast_ofNat, ← hfoot]
      rw [abs_of_pos hpos] at hgap hbinade ⊢
      rw [abs_of_nonpos (by linarith)]
      linarith

theorem abs_round_sub_le_abs {y : ℚ} (hy : Representable y) (q : ℚ) : |Binary64.round q - q| ≤ |y - q| := by
  rcases eq_or_ne q 0 with rfl | hq
  · rw [round_of_representable representable_zero, sub_zero, abs_zero]
    exact abs_nonneg _
  · obtain ⟨k, hk⟩ := exists_multiple_as_near hy hq
    exact (abs_round_sub_le_multiple q k).trans hk

theorem two_pow_add (k : ℕ) : (2 : ℚ) ^ (970 + k) = 2 ^ k * 2 ^ 970 := by rw [pow_add, mul_comm]

/-- A tie at the end of the range goes to the power of two out of it. -/
theorem round_overflow : Binary64.round (2 ^ 1024 - 2 ^ 970) = 2 ^ 1024 := by
  have htop : (2 : ℚ) ^ 1024 = 2 ^ 54 * 2 ^ 970 := two_pow_add 54
  have hbinade : (2 : ℚ) ^ (1023 : ℤ) = 2 ^ 53 * 2 ^ 970 := (zpow_natCast 2 1023).trans (two_pow_add 53)
  have hplace : (2 : ℚ) ^ (971 : ℤ) = 2 ^ 1 * 2 ^ 970 := (zpow_natCast 2 971).trans (two_pow_add 1)
  have hunit : (0 : ℚ) < 2 ^ 970 := by positivity
  rw [htop]
  generalize (2 : ℚ) ^ 970 = unit at *
  have hpos : 0 < 2 ^ 54 * unit - unit := by linarith only [hunit]
  have hlog : Int.log 2 |2 ^ 54 * unit - unit| = 1023 := by
    rw [abs_of_pos hpos]
    refine le_antisymm (Int.lt_add_one_iff.mp ?_) ?_
    · refine (Int.lt_zpow_iff_log_lt (by norm_num) hpos).mp ?_
      rw [Nat.cast_ofNat, zpow_add_one₀ two_ne_zero, hbinade]
      linarith only [hunit]
    · refine (Int.zpow_le_iff_le_log (by norm_num) hpos).mp ?_
      rw [Nat.cast_ofNat, hbinade]
      linarith only [hunit]
  have hlast : lastPlace (2 ^ 54 * unit - unit) = 971 := by rw [lastPlace, hlog]; norm_num
  have hhalf : roundHalfEven ((2 ^ 54 * unit - unit) / 2 ^ (971 : ℤ)) = 2 ^ 53 := by
    have hquotient : (2 ^ 54 * unit - unit) / 2 ^ (971 : ℤ) = 2 ^ 53 - 1 / 2 := by
      rw [hplace]
      field_simp
    have hfloor : ⌊(2 ^ 53 - 1 / 2 : ℚ)⌋ = 2 ^ 53 - 1 := by rw [Int.floor_eq_iff]; norm_num
    rw [hquotient, roundHalfEven, hfloor]
    norm_num
  rw [Binary64.round, hlast, hhalf, hplace]
  push_cast
  ring

theorem abs_round (q : ℚ) : |Binary64.round q| = Binary64.round |q| := by
  rcases le_total 0 q with hq | hq
  · rw [abs_of_nonneg hq, abs_of_nonneg (round_nonneg hq)]
  · have hneg := round_nonneg (neg_nonneg.mpr hq)
    rw [abs_of_nonpos hq, round_neg, abs_of_nonpos (by rwa [round_neg, neg_nonneg] at hneg)]

theorem abs_round_lt_iff (q : ℚ) : |Binary64.round q| < 2 ^ 1024 ↔ |q| < 2 ^ 1024 - 2 ^ 970 := by
  rw [abs_round]
  constructor
  · intro h
    by_contra hle
    have hmono := round_mono (not_lt.mp hle)
    rw [round_overflow] at hmono
    exact absurd h hmono.not_gt
  · intro h
    have hlt : |(|q|)| < 2 ^ 1024 := by
      rw [abs_abs]
      exact h.trans (sub_lt_self _ (by positivity))
    have hround := (abs_le.mp (abs_round_sub_le_of_lt (by norm_num) hlt)).2
    have hplace : (2 : ℚ) ^ ((1024 : ℕ) - 53 : ℤ) = 2 ^ 1 * 2 ^ 970 := (zpow_natCast 2 971).trans (two_pow_add 1)
    rw [hplace] at hround
    generalize (2 : ℚ) ^ 970 = unit at h hround
    generalize (2 : ℚ) ^ 1024 = top at h ⊢
    linarith

namespace Float64

def ofRat (q : ℚ) : Float64 :=
  if h : |Binary64.round q| < 2 ^ 1024 then .finite (Binary64.round q) (representable_round h)
  else .infinite (decide (q < 0))

def neg : Float64 → Float64
  | nan => nan
  | infinite s => infinite !s
  | finite x h => finite (-x) h.neg

def add : Float64 → Float64 → Float64
  | nan, _ | _, nan => nan
  | infinite s, infinite t => if s = t then infinite s else nan
  | infinite s, finite _ _ => infinite s
  | finite _ _, infinite t => infinite t
  | finite x _, finite y _ => ofRat (x + y)

def mul : Float64 → Float64 → Float64
  | nan, _ | _, nan => nan
  | infinite s, infinite t => infinite (s != t)
  | infinite s, finite y _ => if y = 0 then nan else infinite (s != decide (y < 0))
  | finite x _, infinite t => if x = 0 then nan else infinite (t != decide (x < 0))
  | finite x _, finite y _ => ofRat (x * y)

/-- A zero divisor is left to the caller, who raises. -/
def div : Float64 → Float64 → Float64
  | nan, _ | _, nan => nan
  | infinite _, infinite _ => nan
  | infinite s, finite y _ => infinite (s != decide (y < 0))
  | finite _ _, infinite _ => finite 0 representable_zero
  | finite x _, finite y _ => if y = 0 then nan else ofRat (x / y)

def le : Float64 → Float64 → Prop
  | nan, _ | _, nan => False
  | infinite s, infinite t => s = true ∨ t = false
  | infinite s, finite _ _ => s = true
  | finite _ _, infinite t => t = false
  | finite x _, finite y _ => x ≤ y

def lt : Float64 → Float64 → Prop
  | nan, _ | _, nan => False
  | infinite s, infinite t => s = true ∧ t = false
  | infinite s, finite _ _ => s = true
  | finite _ _, infinite t => t = false
  | finite x _, finite y _ => x < y

instance : Zero Float64 := ⟨finite 0 representable_zero⟩

instance : One Float64 := ⟨finite 1 representable_one⟩

instance : Neg Float64 := ⟨neg⟩

instance : Add Float64 := ⟨add⟩

instance : Sub Float64 := ⟨fun x y => x + -y⟩

instance : Mul Float64 := ⟨mul⟩

instance : Div Float64 := ⟨div⟩

instance : LE Float64 := ⟨le⟩

instance : LT Float64 := ⟨lt⟩

instance : DecidableLE Float64
  | nan, _ => .isFalse (by rintro ⟨⟩)
  | infinite _, nan => .isFalse (by rintro ⟨⟩)
  | finite _ _, nan => .isFalse (by rintro ⟨⟩)
  | infinite s, infinite t => inferInstanceAs (Decidable (s = true ∨ t = false))
  | infinite s, finite _ _ => inferInstanceAs (Decidable (s = true))
  | finite _ _, infinite t => inferInstanceAs (Decidable (t = false))
  | finite x _, finite y _ => inferInstanceAs (Decidable (x ≤ y))

instance : DecidableLT Float64
  | nan, _ => .isFalse (by rintro ⟨⟩)
  | infinite _, nan => .isFalse (by rintro ⟨⟩)
  | finite _ _, nan => .isFalse (by rintro ⟨⟩)
  | infinite s, infinite t => inferInstanceAs (Decidable (s = true ∧ t = false))
  | infinite s, finite _ _ => inferInstanceAs (Decidable (s = true))
  | finite _ _, infinite t => inferInstanceAs (Decidable (t = false))
  | finite x _, finite y _ => inferInstanceAs (Decidable (x < y))

instance : IntCast Float64 := ⟨fun n => ofRat n⟩

variable (x : Float64)

@[simp] theorem not_nan_le : ¬ nan ≤ x := not_false

@[simp] theorem not_le_nan : ¬ x ≤ nan := by cases x <;> exact not_false

@[simp] theorem not_nan_lt : ¬ nan < x := not_false

@[simp] theorem not_lt_nan : ¬ x < nan := by cases x <;> exact not_false

@[simp] theorem neg_nan : -nan = nan := rfl

@[simp] theorem nan_add : nan + x = nan := rfl

@[simp] theorem add_nan : x + nan = nan := by cases x <;> rfl

@[simp] theorem nan_sub : nan - x = nan := rfl

@[simp] theorem sub_nan : x - nan = nan := add_nan x

@[simp] theorem nan_mul : nan * x = nan := rfl

@[simp] theorem mul_nan : x * nan = nan := by cases x <;> rfl

@[simp] theorem nan_div : nan / x = nan := rfl

@[simp] theorem div_nan : x / nan = nan := by cases x <;> rfl

variable {x} {y z : Float64} {p q : ℚ} {hp : Representable p} {hq : Representable q} {s t : Bool}

@[simp] theorem finite_le_finite : finite p hp ≤ finite q hq ↔ p ≤ q := Iff.rfl

@[simp] theorem infinite_le_finite : infinite s ≤ finite q hq ↔ s = true := Iff.rfl

@[simp] theorem finite_le_infinite : finite p hp ≤ infinite t ↔ t = false := Iff.rfl

@[simp] theorem infinite_le_infinite : infinite s ≤ infinite t ↔ s = true ∨ t = false := Iff.rfl

@[simp] theorem finite_lt_finite : finite p hp < finite q hq ↔ p < q := Iff.rfl

@[simp] theorem infinite_lt_finite : infinite s < finite q hq ↔ s = true := Iff.rfl

@[simp] theorem finite_lt_infinite : finite p hp < infinite t ↔ t = false := Iff.rfl

@[simp] theorem infinite_lt_infinite : infinite s < infinite t ↔ s = true ∧ t = false := Iff.rfl

theorem zero_eq : (0 : Float64) = finite 0 representable_zero := rfl

theorem le_refl (h : x ≠ nan) : x ≤ x := by
  cases x with
  | nan => exact absurd rfl h
  | infinite s => cases s <;> simp
  | finite p hp => simp

theorem le_of_not_lt (hx : x ≠ nan) (hy : y ≠ nan) (h : ¬ x < y) : y ≤ x := by
  cases x with
  | nan => exact absurd rfl hx
  | infinite s => cases y with
    | nan => exact absurd rfl hy
    | infinite t => cases s <;> cases t <;> simp_all
    | finite q hq => cases s <;> simp_all
  | finite p hp => cases y with
    | nan => exact absurd rfl hy
    | infinite t => cases t <;> simp_all
    | finite q hq => simpa using h

theorem le_of_le_of_lt (hxy : x ≤ y) (hyz : y < z) : x ≤ z := by
  cases x with
  | nan => exact absurd hxy (not_nan_le _)
  | infinite s => cases y with
    | nan => exact absurd hxy (not_le_nan _)
    | infinite t => cases z <;> simp_all
    | finite q hq => cases z <;> simp_all
  | finite p hp => cases y with
    | nan => exact absurd hxy (not_le_nan _)
    | infinite t => cases z <;> simp_all
    | finite q hq => cases z with
      | nan => exact absurd hyz (not_lt_nan _)
      | infinite t => simpa using hyz
      | finite r hr => exact (show p ≤ q from hxy).trans (show q < r from hyz).le

theorem ofRat_of_near (hp : Representable p) (h : |q - p| * (2 * 10 ^ 16) ≤ |p|) : ofRat q = finite p hp := by
  have hround := round_eq_of_near hp h
  have hlt : |Binary64.round q| < 2 ^ 1024 := hround ▸ hp.abs_lt
  rw [ofRat, dif_pos hlt]
  congr 1

theorem ofRat_of_representable (hp : Representable p) : ofRat p = finite p hp := ofRat_of_near hp (by simp)

theorem zero_add (x : Float64) : 0 + x = x := by
  cases x with
  | nan => rfl
  | infinite s => rfl
  | finite p hp =>
      change ofRat (0 + p) = _
      rw [show (0 : ℚ) + p = p by ring, ofRat_of_representable hp]

theorem zero_eq_ofRat : (0 : Float64) = ofRat 0 := (ofRat_of_representable representable_zero).symm

theorem ofRat_neg (hp : Representable p) : -ofRat p = ofRat (-p) := by
  rw [ofRat_of_representable hp, ofRat_of_representable hp.neg]
  rfl

theorem ofRat_add (hp : Representable p) (hq : Representable q) : ofRat p + ofRat q = ofRat (p + q) := by
  rw [ofRat_of_representable hp, ofRat_of_representable hq]
  rfl

theorem ofRat_sub (hp : Representable p) (hq : Representable q) : ofRat p - ofRat q = ofRat (p - q) := by
  rw [ofRat_of_representable hp, ofRat_of_representable hq, sub_eq_add_neg]
  rfl

theorem ofRat_mul (hp : Representable p) (hq : Representable q) : ofRat p * ofRat q = ofRat (p * q) := by
  rw [ofRat_of_representable hp, ofRat_of_representable hq]
  rfl

theorem ofRat_div (hp : Representable p) (hq : Representable q) (hne : q ≠ 0) : ofRat p / ofRat q = ofRat (p / q) := by
  rw [ofRat_of_representable hp, ofRat_of_representable hq]
  exact if_neg hne

theorem ofRat_le_iff (hp : Representable p) (hq : Representable q) : ofRat p ≤ ofRat q ↔ p ≤ q := by
  rw [ofRat_of_representable hp, ofRat_of_representable hq, finite_le_finite]

theorem ofRat_lt_iff (hp : Representable p) (hq : Representable q) : ofRat p < ofRat q ↔ p < q := by
  rw [ofRat_of_representable hp, ofRat_of_representable hq, finite_lt_finite]

theorem ofRat_le_zero_iff (hp : Representable p) : ofRat p ≤ 0 ↔ p ≤ 0 := by
  rw [zero_eq_ofRat, ofRat_le_iff hp representable_zero]

theorem ofRat_lt_zero_iff (hp : Representable p) : ofRat p < 0 ↔ p < 0 := by
  rw [zero_eq_ofRat, ofRat_lt_iff hp representable_zero]

theorem zero_lt_ofRat_iff (hp : Representable p) : 0 < ofRat p ↔ 0 < p := by
  rw [zero_eq_ofRat, ofRat_lt_iff representable_zero hp]

theorem zero_sub_finite (hp : Representable p) : 0 - finite p hp = finite (-p) hp.neg := by
  change ofRat (0 + -p) = _
  rw [show (0 : ℚ) + -p = -p by ring, ofRat_of_representable hp.neg]

theorem ofRat_mono {p q : ℚ} (h : p ≤ q) : ofRat p ≤ ofRat q := by
  have hround := Binary64.round_mono h
  by_cases hp : |Binary64.round p| < 2 ^ 1024 <;> by_cases hq : |Binary64.round q| < 2 ^ 1024
  · rw [ofRat, ofRat, dif_pos hp, dif_pos hq]
    exact hround
  · rw [ofRat, ofRat, dif_pos hp, dif_neg hq, finite_le_infinite, decide_eq_false_iff_not, not_lt]
    by_contra hneg
    have hzero := Binary64.round_mono (not_le.mp hneg).le
    rw [round_of_representable representable_zero] at hzero
    rw [abs_of_nonpos hzero] at hq
    rw [abs_of_nonpos (hround.trans hzero)] at hp
    exact hq ((neg_le_neg hround).trans_lt hp)
  · rw [ofRat, ofRat, dif_neg hp, dif_pos hq, infinite_le_finite, decide_eq_true_eq]
    by_contra hpos
    have hzero := Binary64.round_mono (not_lt.mp hpos)
    rw [round_of_representable representable_zero] at hzero
    rw [abs_of_nonneg hzero] at hp
    rw [abs_of_nonneg (hzero.trans hround)] at hq
    exact hp (hround.trans_lt hq)
  · rw [ofRat, ofRat, dif_neg hp, dif_neg hq, infinite_le_infinite, decide_eq_true_eq, decide_eq_false_iff_not, not_lt]
    exact (lt_or_ge p 0).imp_right fun hp => hp.trans h

theorem finite_le_trans (hpq : p ≤ q) (h : finite q hq ≤ x) : finite p hp ≤ x := by
  cases x with
  | nan => exact absurd h (not_le_nan _)
  | infinite s => exact h
  | finite r hr => exact hpq.trans (show q ≤ r from h)

theorem le_trans (hxy : x ≤ y) (hyz : y ≤ z) : x ≤ z := by
  cases y with
  | nan => exact absurd hxy (not_le_nan _)
  | infinite s => cases x with
    | nan => exact absurd hxy (not_nan_le _)
    | infinite t => cases s <;> cases z <;> simp_all
    | finite p hp => cases z <;> simp_all
  | finite q hq => cases x with
    | nan => exact absurd hxy (not_nan_le _)
    | infinite t => cases z <;> simp_all
    | finite p hp => exact finite_le_trans hxy hyz

theorem add_le_of_le (hpq : p ≤ q) (h : finite q hq + x ≤ y) : finite p hp + x ≤ y := by
  cases x with
  | nan => exact absurd h (not_nan_le y)
  | infinite s => exact h
  | finite r hr => exact le_trans (ofRat_mono (add_le_add_left hpq r)) h

theorem infinite_le_ofRat (q : ℚ) : infinite true ≤ ofRat q := by
  rw [ofRat]
  split <;> simp

theorem le_sub_of_le {w : Float64} (hx : ¬ x ≤ 0) (hxy : x ≤ y) (h : z ≤ w - y) : z ≤ w - x := by
  cases x with
  | nan => exact absurd hxy (not_nan_le _)
  | infinite s =>
      cases s with
      | true => exact absurd (infinite_le_finite.mpr rfl) hx
      | false =>
          obtain rfl : y = infinite false := by cases y <;> simp_all
          exact h
  | finite p hp =>
      cases y with
      | nan => exact absurd hxy (not_le_nan _)
      | infinite t =>
          obtain rfl : t = false := hxy
          cases w with
          | nan => exact h
          | infinite s =>
              cases s with
              | true => exact h
              | false => exact absurd h (not_le_nan _)
          | finite r hr => exact le_trans h (infinite_le_ofRat (r + -p))
      | finite q hq =>
          cases w with
          | nan => exact h
          | infinite s => exact h
          | finite r hr =>
              have hpq : p ≤ q := hxy
              exact le_trans h (ofRat_mono (by linarith))

end Float64

end PretradeRisk.Ieee
