import PretradeRisk.Crashes

namespace PretradeRisk.Margins

open Clock Crashes Decision Engine Evaluate Host Ieee Journal Limits Orders Refusals Rulings Run Store Verdicts
open DayHistory (AmountsTo amountsTo_dayStart tally tally_snoc)

/-- A finite float within `ε` of a number. -/
def Near (ε : ℚ) (x : Float64) (q : ℚ) : Prop := ∃ p hp, x = .finite p hp ∧ |p - q| ≤ ε

/-- Half a last place of the numbers up to `2 ^ (k + 1)`. -/
def halfPlace (k : ℕ) : ℚ := 2 ^ (k - 53 : ℤ)

variable {k : ℕ} {ε δ q v : ℚ} {x y : Float64}

theorem halfPlace_pos (k : ℕ) : 0 < halfPlace k := zpow_pos two_pos _

theorem halfPlace_mul (k : ℕ) : 2 ^ 53 * halfPlace k = 2 ^ k := by
  rw [halfPlace, zpow_sub₀ two_ne_zero]
  norm_num
  ring

theorem near_zero (h : 0 ≤ ε) : Near ε 0 0 := ⟨0, representable_zero, rfl, by simpa using h⟩

theorem Near.mono (h : Near ε x q) (hle : ε ≤ δ) : Near δ x q := by
  obtain ⟨p, hp, rfl, hnear⟩ := h
  exact ⟨p, hp, rfl, hnear.trans hle⟩

theorem Near.neg (h : Near ε x q) : Near ε (-x) (-q) := by
  obtain ⟨p, hp, rfl, hnear⟩ := h
  refine ⟨-p, hp.neg, rfl, ?_⟩
  rwa [neg_sub_neg, abs_sub_comm]

/-- An addition adds half a last place to the errors it is given. -/
theorem Near.add (hk : k < 1000) (hx : Near ε x q) (hy : Near δ y v) (h : |q + v| + (ε + δ) < 2 ^ (k + 1)) :
    Near (ε + δ + halfPlace k) (x + y) (q + v) := by
  obtain ⟨p, hp, rfl, hpq⟩ := hx
  obtain ⟨w, hw, rfl, hwv⟩ := hy
  have hclose : |p + w - (q + v)| ≤ ε + δ := by
    calc |p + w - (q + v)| = |(p - q) + (w - v)| := by ring_nf
      _ ≤ |p - q| + |w - v| := abs_add_le _ _
      _ ≤ ε + δ := add_le_add hpq hwv
  have hsum : |p + w| < 2 ^ (k + 1) := by
    have htri := abs_sub_abs_le_abs_sub (p + w) (q + v)
    linarith
  have hround : |Binary64.round (p + w) - (p + w)| ≤ halfPlace k := by
    have hle := Binary64.abs_round_sub_le_of_lt (Nat.succ_pos k) hsum
    have heq : (2 : ℚ) ^ ((k + 1 : ℕ) - 53 : ℤ) / 2 = halfPlace k := by
      rw [halfPlace, Nat.cast_succ, add_sub_right_comm, zpow_add_one₀ two_ne_zero, mul_div_cancel_right₀ _ two_ne_zero]
    rwa [heq] at hle
  have hsmall : |Binary64.round (p + w)| < 2 ^ 1024 := by
    have htri := abs_sub_abs_le_abs_sub (Binary64.round (p + w)) (p + w)
    have hhalf : halfPlace k ≤ 2 ^ k := by
      rw [← halfPlace_mul]
      linarith [halfPlace_pos k]
    have hlt : |Binary64.round (p + w)| < 2 ^ (k + 2) := by
      have hone : (2 : ℚ) ^ (k + 1) = 2 * 2 ^ k := by ring
      have htwo : (2 : ℚ) ^ (k + 2) = 4 * 2 ^ k := by ring
      linarith [pow_pos (two_pos : (0 : ℚ) < 2) k]
    exact hlt.trans_le (pow_le_pow_right₀ one_le_two (by omega))
  refine ⟨Binary64.round (p + w), representable_round hsmall, ?_, ?_⟩
  · exact dif_pos hsmall
  · calc |Binary64.round (p + w) - (q + v)| = |(Binary64.round (p + w) - (p + w)) + (p + w - (q + v))| := by ring_nf
      _ ≤ |Binary64.round (p + w) - (p + w)| + |p + w - (q + v)| := abs_add_le _ _
      _ ≤ ε + δ + halfPlace k := by linarith

theorem Near.max (hx : Near ε x q) (hy : Near ε y v) : Near ε (pyMax x y) (pyMax q v) := by
  obtain ⟨p, hp, rfl, hpq⟩ := hx
  obtain ⟨w, hw, rfl, hwv⟩ := hy
  have hmax : pyMax (Float64.finite p hp) (Float64.finite w hw) = if p < w then .finite w hw else .finite p hp := rfl
  have hexact : pyMax q v = if q < v then v else q := rfl
  rw [hmax, hexact]
  obtain ⟨hp₁, hp₂⟩ := abs_le.mp hpq
  obtain ⟨hw₁, hw₂⟩ := abs_le.mp hwv
  split <;> split
  · exact ⟨w, hw, rfl, hwv⟩
  · exact ⟨w, hw, rfl, abs_le.mpr ⟨by linarith, by linarith⟩⟩
  · exact ⟨p, hp, rfl, abs_le.mpr ⟨by linarith, by linarith⟩⟩
  · exact ⟨p, hp, rfl, hpq⟩

theorem Near.le_of_le (hx : Near ε x q) (hy : Near δ y v) (h : q + (ε + δ) ≤ v) : x ≤ y := by
  obtain ⟨p, hp, rfl, hpq⟩ := hx
  obtain ⟨w, hw, rfl, hwv⟩ := hy
  have hle : p ≤ w := by linarith [(abs_le.mp hpq).2, (abs_le.mp hwv).1]
  exact hle

theorem Near.le_of_float_le (hx : Near ε x q) (hy : Near δ y v) (h : x ≤ y) : q ≤ v + (ε + δ) := by
  obtain ⟨p, hp, rfl, hpq⟩ := hx
  obtain ⟨w, hw, rfl, hwv⟩ := hy
  have hle : p ≤ w := h
  linarith [(abs_le.mp hpq).1, (abs_le.mp hwv).2]

inductive Account
  | leg (isLive : Bool)
  | notional

section Accounts

variable {F : Type}

def posted : Account → CounterEvent F → Option F
  | .leg isLive, .realizedPnl pnlUsd leg => if leg = isLive then some pnlUsd else none
  | .notional, .notional notionalUsd => some notionalUsd
  | _, _ => none

def balance (c : Counters F) : Account → F
  | .leg isLive => c.legPnl isLive
  | .notional => c.dailyNotional

variable [Add F] [LT F] [DecidableLT F]

theorem balance_apply (c : Counters F) (event : CounterEvent F) (account : Account) :
    balance (event.apply c) account = (posted account event).elim (balance c account) (balance c account + ·) := by
  cases event with
  | realizedPnl pnlUsd leg =>
      cases account with
      | notional => cases leg <;> rfl
      | leg isLive => cases leg <;> cases isLive <;> rfl
  | _ => cases account <;> rfl

theorem legPeak_apply (c : Counters F) (event : CounterEvent F) (leg : Bool) : (event.apply c).legPeak leg =
    (posted (.leg leg) event).elim (c.legPeak leg) fun x => pyMax (c.legPeak leg) (c.legPnl leg + x) := by
  cases event with
  | realizedPnl pnlUsd isLive => cases isLive <;> cases leg <;> rfl
  | _ => rfl

end Accounts

def value : Float64 → ℚ
  | .finite p _ => p
  | _ => 0

def exactly : CounterEvent Float64 → CounterEvent ℚ
  | .realizedPnl pnlUsd leg => .realizedPnl (value pnlUsd) leg
  | .notional notionalUsd => .notional (value notionalUsd)
  | .orderRejected => .orderRejected
  | .orderAccepted => .orderAccepted
  | .execution => .execution
  | .rearm => .rearm

theorem posted_exactly (account : Account) (event : CounterEvent Float64) :
    posted account (exactly event) = (posted account event).map value := by
  cases event with
  | realizedPnl pnlUsd leg =>
      cases account with
      | notional => rfl
      | leg isLive => cases leg <;> cases isLive <;> rfl
  | _ => cases account <;> rfl

def postings (account : Account) (events : List (CounterEvent Float64)) : List Float64 := events.filterMap (posted account)

def turnover (amounts : List Float64) : ℚ := (amounts.map fun x => |value x|).sum

/-- Amounts that add up to at most `2 ^ k`, whatever their signs, and are not
too many. -/
structure Bounded (k : ℕ) (events : List (CounterEvent Float64)) : Prop where
  finite : ∀ account, ∀ x ∈ postings account events, PyFloat.isfinite x = true
  turnover_le : ∀ account, turnover (postings account events) ≤ 2 ^ k
  few : ∀ account, (postings account events).length ≤ 2 ^ 51

/-- The counters of the day, in binary64 and in exact arithmetic: each amount
posted has cost at most half a last place. -/
structure Tracks (k : ℕ) (events : List (CounterEvent Float64)) (c : Counters Float64) (d : Counters ℚ) : Prop where
  near : ∀ account, Near ((postings account events).length * halfPlace k) (balance c account) (balance d account)
  peak : ∀ leg, Near ((postings (.leg leg) events).length * halfPlace k) (c.legPeak leg) (d.legPeak leg)
  abs_le : ∀ account, |balance d account| ≤ turnover (postings account events)
  peak_nonneg : ∀ leg, 0 ≤ d.legPeak leg
  peak_le : ∀ leg, d.legPeak leg ≤ turnover (postings (.leg leg) events)

variable {events : List (CounterEvent Float64)} {event : CounterEvent Float64} {c : Counters Float64} {d : Counters ℚ}
  {account : Account}

theorem turnover_snoc (amounts : List Float64) (x : Float64) :
    turnover (amounts ++ [x]) = turnover amounts + |value x| := by
  simp [turnover]

theorem postings_snoc_none (h : posted account event = none) :
    postings account (events ++ [event]) = postings account events := by
  simp [postings, h]

theorem postings_snoc_some (h : posted account event = some x) :
    postings account (events ++ [event]) = postings account events ++ [x] := by
  simp [postings, h]

theorem tracks_start (k : ℕ) (today : String) (executions executions' : ℕ) :
    Tracks k [] (Counters.dayStart today executions) (Counters.dayStart today executions') where
  near account := by cases account with
    | leg isLive => cases isLive <;> exact near_zero (by simp [postings])
    | notional => exact near_zero (by simp [postings])
  peak leg := by cases leg <;> exact near_zero (by simp [postings])
  abs_le account := by cases account with
    | leg isLive => cases isLive <;> exact (abs_zero (α := ℚ)).le
    | notional => exact (abs_zero (α := ℚ)).le
  peak_nonneg leg := by cases leg <;> exact le_refl (0 : ℚ)
  peak_le leg := by cases leg <;> exact le_refl (0 : ℚ)

theorem few_halfPlaces {n : ℕ} (h : n ≤ 2 ^ 51) (k : ℕ) : n * halfPlace k ≤ 2 ^ k / 4 := by
  have hn : (n : ℚ) ≤ 2 ^ 51 := by exact_mod_cast h
  calc n * halfPlace k ≤ 2 ^ 51 * halfPlace k := mul_le_mul_of_nonneg_right hn (halfPlace_pos k).le
    _ = 2 ^ 53 * halfPlace k / 4 := by ring
    _ = 2 ^ k / 4 := by rw [halfPlace_mul]

theorem near_value (h : PyFloat.isfinite x = true) : Near 0 x (value x) := by
  cases x with
  | finite p hp => exact ⟨p, hp, rfl, by simp [value]⟩
  | nan => cases h
  | infinite s => cases h

theorem tracks_snoc (hk : k < 1000) (h : Tracks k events c d) (hbounded : Bounded k (events ++ [event])) :
    Tracks k (events ++ [event]) (event.apply c) ((exactly event).apply d) := by
  have hposted (account : Account) (x : Float64) (hx : posted account event = some x) :
      Near ((postings account (events ++ [event])).length * halfPlace k) (balance c account + x)
          (balance d account + value x) ∧
        |balance d account + value x| ≤ turnover (postings account (events ++ [event])) := by
    have hfinite := hbounded.finite account
    have hturnover := hbounded.turnover_le account
    have hfew := few_halfPlaces (hbounded.few account) k
    rw [postings_snoc_some hx] at hfinite hturnover hfew ⊢
    rw [turnover_snoc] at hturnover ⊢
    have habs : |balance d account + value x| ≤ turnover (postings account events) + |value x| :=
      (abs_add_le _ _).trans (add_le_add (h.abs_le account) le_rfl)
    rw [List.length_append, List.length_singleton, Nat.cast_add, Nat.cast_one, add_mul, one_mul] at hfew ⊢
    refine ⟨((h.near account).add hk (near_value (hfinite x (by simp))) ?_).mono (by linarith), habs⟩
    have hpow : (2 : ℚ) ^ (k + 1) = 2 * 2 ^ k := by ring
    linarith [halfPlace_pos k, pow_pos (two_pos : (0 : ℚ) < 2) k]
  refine ⟨fun account => ?_, fun leg => ?_, fun account => ?_, fun leg => ?_, fun leg => ?_⟩
  · rw [balance_apply, balance_apply, posted_exactly]
    cases hx : posted account event with
    | none => rw [postings_snoc_none hx]; exact h.near account
    | some x => exact (hposted account x hx).1
  · rw [legPeak_apply, legPeak_apply, posted_exactly]
    cases hx : posted (.leg leg) event with
    | none => rw [postings_snoc_none hx]; exact h.peak leg
    | some x =>
        refine Near.max ((h.peak leg).mono ?_) (hposted (.leg leg) x hx).1
        rw [postings_snoc_some hx, List.length_append, List.length_singleton, Nat.cast_add, Nat.cast_one, add_mul, one_mul]
        linarith [halfPlace_pos k]
  · rw [balance_apply, posted_exactly]
    cases hx : posted account event with
    | none => rw [postings_snoc_none hx]; exact h.abs_le account
    | some x => exact (hposted account x hx).2
  · rw [legPeak_apply, posted_exactly]
    cases posted (.leg leg) event with
    | none => exact h.peak_nonneg leg
    | some x =>
        rw [Option.map_some, Option.elim_some, pyMax_eq_max]
        exact (h.peak_nonneg leg).trans (le_max_left _ _)
  · rw [legPeak_apply, posted_exactly]
    cases hx : posted (.leg leg) event with
    | none => rw [postings_snoc_none hx]; exact h.peak_le leg
    | some x =>
        rw [Option.map_some, Option.elim_some, pyMax_eq_max]
        refine max_le ((h.peak_le leg).trans ?_) ((le_abs_self _).trans (hposted (.leg leg) x hx).2)
        rw [postings_snoc_some hx, turnover_snoc]
        linarith [abs_nonneg (value x)]

theorem turnover_le_of_sublist {amounts amounts' : List Float64} (h : amounts.Sublist amounts') :
    turnover amounts ≤ turnover amounts' := by
  refine (h.map _).sum_le_sum fun a ha => ?_
  obtain ⟨x, -, rfl⟩ := List.mem_map.mp ha
  exact abs_nonneg (value x)

theorem Bounded.sublist {events' : List (CounterEvent Float64)} (h : Bounded k events') (hsub : events.Sublist events') :
    Bounded k events := by
  have hpostings (account : Account) : (postings account events).Sublist (postings account events') := hsub.filterMap _
  exact ⟨fun account x hx => h.finite account x ((hpostings account).subset hx),
    fun account => (turnover_le_of_sublist (hpostings account)).trans (h.turnover_le account),
    fun account => (hpostings account).length_le.trans (h.few account)⟩

theorem tracks_tally (hk : k < 1000) (h : Bounded k events) (today : String) (executions executions' : ℕ) :
    Tracks k events (tally (.dayStart today executions) events)
      (tally (.dayStart today executions') (events.map exactly)) := by
  induction events using List.reverseRecOn with
  | nil => exact tracks_start k today executions executions'
  | append_singleton events event ih =>
      rw [List.map_append, List.map_singleton, tally_snoc, tally_snoc]
      exact tracks_snoc hk (ih (h.sublist (List.sublist_append_left _ _))) h

variable {reports : List Report} {day today₀ : String}

theorem day_le_tradingDay (hsorted : reports.Pairwise fun r r' => r.day ≤ r'.day) :
    ∀ r ∈ reports, r.day ≤ (replay (.fresh today₀) reports).tradingDay := by
  rcases List.eq_nil_or_concat reports with rfl | ⟨before, report, rfl⟩
  · exact fun r hr => absurd hr List.not_mem_nil
  · rw [List.concat_eq_append] at hsorted ⊢
    intro r hr
    rw [replay_snoc, CounterEvent.apply_tradingDay, Counters.roll_tradingDay]
    rcases List.mem_append.mp hr with hr | hr
    · exact (List.pairwise_append.mp hsorted).2.2 r hr report (by simp)
    · rw [List.mem_singleton.mp hr]

theorem counts_le (today₀ : String) (reports : List Report) :
    (replay (.fresh today₀) reports).consecutiveRejects ≤ reports.length ∧
      (replay (.fresh today₀) reports).executionsSinceRearm ≤ reports.length := by
  induction reports using List.reverseRecOn with
  | nil => exact ⟨le_rfl, le_rfl⟩
  | append_singleton reports report ih =>
      obtain ⟨hrejects, hexecutions⟩ := ih
      have hroll : ((replay (.fresh today₀) reports).roll report.day).consecutiveRejects ≤ reports.length := by
        by_cases h : report.day = (replay (.fresh today₀) reports).tradingDay
        · rwa [Counters.roll_of_eq h]
        · rw [Counters.roll_of_ne h]
          exact Nat.zero_le _
      have hkept := (replay (.fresh today₀) reports).roll_executionsSinceRearm report.day
      rw [replay_snoc, List.length_append, List.length_singleton]
      generalize (replay (.fresh today₀) reports).roll report.day = c at hroll hkept
      cases report.event with
      | realizedPnl pnlUsd isLive => cases isLive <;> constructor <;> simp only [CounterEvent.apply] <;> omega
      | _ => constructor <;> simp only [CounterEvent.apply] <;> omega

theorem isfinite_of_near (h : Near ε x q) : PyFloat.isfinite x = true := by
  obtain ⟨p, hp, rfl, -⟩ := h
  rfl

theorem storable_replay (hk : k < 1000) (hsorted : reports.Pairwise fun r r' => r.day ≤ r'.day)
    (hbounded : ∀ today, Bounded k (todays today reports)) (hfew : reports.length < 2 ^ 53) :
    Storable (replay (.fresh today₀) reports) := by
  obtain ⟨executions, hday⟩ := replay_day today₀ hsorted (day_le_tradingDay hsorted)
  rw [Counters.roll_of_eq rfl] at hday
  obtain ⟨hrejects, hexecutions⟩ := counts_le today₀ reports
  have htracks := tracks_tally hk (hbounded (replay (.fresh today₀) reports).tradingDay)
    (replay (.fresh today₀) reports).tradingDay executions 0
  rw [← hday] at htracks
  exact ⟨fun leg => isfinite_of_near (htracks.near (.leg leg)), fun leg => isfinite_of_near (htracks.peak leg),
    isfinite_of_near (htracks.near .notional), lt_of_le_of_lt hrejects hfew, lt_of_le_of_lt hexecutions hfew⟩

variable {rollMillis start n : ℤ} {turns : List Turn}

variable {e : PreTradeRiskEngine Float64} {files : Files} {r : OrderRequest Float64} {l : ℚ}

theorem near_floor {hl : Representable l} (hk : k < 1000) (h : Tracks k events c d) (hbounded : Bounded k events)
    (hl₀ : 0 ≤ l) (hle : l ≤ 2 ^ k) (leg : Bool) :
    Near (((postings (.leg leg) events).length + 1) * halfPlace k) (c.legPeak leg - .finite l hl) (d.legPeak leg - l) := by
  have hfew := few_halfPlaces (hbounded.few (.leg leg)) k
  have hpeak := (h.peak_le leg).trans (hbounded.turnover_le (.leg leg))
  have hlimit : Near 0 (-Float64.finite l hl) (-l) := ⟨-l, hl.neg, rfl, by simp⟩
  have habs : |d.legPeak leg + -l| ≤ 2 ^ k := abs_le.mpr ⟨by linarith [h.peak_nonneg leg], by linarith⟩
  have hadd := (h.peak leg).add hk hlimit (by
    have hpow : (2 : ℚ) ^ (k + 1) = 2 * 2 ^ k := by ring
    linarith [pow_pos (two_pos : (0 : ℚ) < 2) k])
  rw [← sub_eq_add_neg] at hadd
  exact hadd.mono (by linarith)

/-- A drawdown past the limit by the margin is a breach, and a breach is a
drawdown up to the margin of the limit. -/
theorem breached_of_margin {hl : Representable l} (hk : k < 1000) (h : Tracks k events e.counters d)
    (hbounded : Bounded k events) (hl₀ : 0 ≤ l) (hle : l ≤ 2 ^ k)
    (hlimit : e.limits.dailyLossLimitUsd = some (.finite l hl))
    (hbypass : e.bypassActive n = false)
    (hmargin : l + (2 * (postings (.leg e.isLive) events).length + 1) * halfPlace k ≤
      d.legPeak e.isLive - d.legPnl e.isLive) : e.breached n = true := by
  rw [PreTradeRiskEngine.breached_iff]
  refine ⟨_, hlimit, hbypass, ?_⟩
  exact (h.near (.leg e.isLive)).le_of_le (near_floor hk h hbounded hl₀ hle e.isLive) (by
    change d.legPnl e.isLive + _ ≤ _
    linarith)

theorem margin_of_breached {hl : Representable l} (hk : k < 1000) (h : Tracks k events e.counters d)
    (hbounded : Bounded k events) (hl₀ : 0 ≤ l) (hle : l ≤ 2 ^ k)
    (hlimit : e.limits.dailyLossLimitUsd = some (.finite l hl))
    (hbreached : e.breached n = true) :
    l - (2 * (postings (.leg e.isLive) events).length + 1) * halfPlace k ≤ d.legPeak e.isLive - d.legPnl e.isLive := by
  obtain ⟨limit, hlimit', -, hfloor⟩ := PreTradeRiskEngine.breached_iff.mp hbreached
  obtain rfl := Option.some.inj (hlimit'.symm.trans hlimit)
  have hle' := (h.near (.leg e.isLive)).le_of_float_le (near_floor hk h hbounded hl₀ hle e.isLive) hfloor
  change d.legPnl e.isLive ≤ _ at hle'
  linarith

theorem near_pyAbs (hl : Representable l) : Near 0 (pyAbs (Float64.finite l hl)) |l| := by
  have habs : pyAbs (Float64.finite l hl) = if l < 0 then Float64.finite (-l) hl.neg else .finite l hl := rfl
  rw [habs]
  split
  · next h => exact ⟨-l, hl.neg, rfl, by rw [abs_of_neg h]; simp⟩
  · next h => exact ⟨l, hl, rfl, by rw [abs_of_nonneg (not_lt.mp h)]; simp⟩

theorem near_projected (hl : Representable l) (hk : k < 1000) (h : Tracks k events c d) (hbounded : Bounded k events)
    (hle : |l| ≤ 2 ^ k / 2) : Near (((postings .notional events).length + 1) * halfPlace k)
      (c.dailyNotional + pyAbs (.finite l hl)) (d.dailyNotional + |l|) := by
  have hfew := few_halfPlaces (hbounded.few .notional) k
  have hnotional : |d.dailyNotional| ≤ 2 ^ k := (h.abs_le .notional).trans (hbounded.turnover_le .notional)
  have habs := abs_add_le d.dailyNotional |l|
  rw [abs_abs] at habs
  have hadd := (h.near .notional).add hk (near_pyAbs hl) (by
    have hpow : (2 : ℚ) ^ (k + 1) = 2 * 2 ^ k := by ring
    change abs (d.dailyNotional + abs l) + _ < _
    linarith [pow_pos (two_pos : (0 : ℚ) < 2) k])
  exact hadd.mono (by linarith)

theorem drawdown_lt_of_accepted {hl : Representable l} (hk : k < 1000) (h : Tracks k events (e.rollTo day).counters d)
    (hbounded : Bounded k events) (hle : l ≤ 2 ^ k) (hlimit : e.limits.dailyLossLimitUsd = some (.finite l hl))
    (hrunning : e.limits.isDisabled .dailyLossLimit = false) (hbypass : e.bypassActive n = false)
    (hday : e.today n = .ok day) {decision : RiskDecision Float64} {f : PreTradeRiskEngine Float64}
    (hd : evaluate files e n r = .ok (decision, f)) (haccepted : decision.accepted = true) :
    d.legPeak e.isLive - d.legPnl e.isLive < l + (2 * (postings (.leg e.isLive) events).length + 1) * halfPlace k := by
  have hl₀ : 0 ≤ l := by
    have hnot := e.limits.admissible.amounts "daily_loss_limit_usd" (.finite l hl) (by simp [LimitFields.amounts, hlimit])
    exact (not_le.mp hnot).le
  by_contra hmargin
  have hbreached := breached_of_margin (e := e.rollTo day) hk h hbounded hl₀ hle hlimit hbypass (not_lt.mp hmargin)
  have hpasses : Passes files (e.rollTo day) n r .dailyLossLimit := by
    by_contra hnot
    rw [rejected_of_not_passes .dailyLossLimit hday hnot hd] at haccepted
    cases haccepted
  rw [passes_loss_iff, hbreached] at hpasses
  exact Bool.noConfusion (hpasses hrunning)

variable {limits : RiskLimits Float64} {isLive : Bool} {e₀ : PreTradeRiskEngine Float64} {s₀ : StateStore} {p : Process}

def keptToday (day : String) (rollMillis : ℤ) (turns : List Turn) : List (CounterEvent Float64) :=
  todays day (written (logged rollMillis turns ++ [.flush]))

def exactCounters (day : String) (rollMillis : ℤ) (turns : List Turn) : Counters ℚ :=
  tally (.dayStart day 0) ((keptToday day rollMillis turns).map exactly)

theorem amountsTo_exactCounters (day : String) (rollMillis : ℤ) (turns : List Turn) :
    AmountsTo ((keptToday day rollMillis turns).map exactly) (exactCounters day rollMillis turns) :=
  (amountsTo_dayStart day 0).tally _

theorem tracks_of_run (hk : k < 1000) (hnew : PreTradeRiskEngine.new limits isLive start = .ok e₀)
    (hblank : ∀ key ∈ counterKeys, s₀ key = none) (hrun : Survives ⟨e₀, s₀⟩ turns p)
    (horder : Nondecreasing Turn.now start turns)
    (hbounded : ∀ today, Bounded k (todays today (Crashes.reports limits.sessionRollMillis turns)))
    (hfew : (Crashes.reports limits.sessionRollMillis turns).length < 2 ^ 53)
    (hn : Upto Turn.now start turns n) (hday : tradingDay n limits.sessionRollMillis = .ok day) :
    Bounded k (keptToday day limits.sessionRollMillis turns) ∧
      Tracks k (keptToday day limits.sessionRollMillis turns) (p.engine.rollTo day).counters
        (exactCounters day limits.sessionRollMillis turns) := by
  obtain ⟨today, -, hnew'⟩ := new_eq_ok.mp hnew
  have hfresh : e₀.counters = .fresh today := by rw [hnew']; rfl
  have hstorable (before after : List Turn) (heq : turns = before ++ after) :
      Storable (replay e₀.counters (written (logged limits.sessionRollMillis before ++ [.flush]))) := by
    have hkept := kept_sublist limits.sessionRollMillis before
    have hbefore : (Crashes.reports limits.sessionRollMillis before).Sublist
        (Crashes.reports limits.sessionRollMillis turns) := by
      rw [heq, reports_append]
      exact List.sublist_append_left _ _
    have hsorted := (reports_sorted limits.sessionRollMillis horder).sublist (hkept.trans hbefore)
    rw [hfresh]
    exact storable_replay hk hsorted (fun today => (hbounded today).sublist (todays_sublist (hkept.trans hbefore) today))
      (lt_of_le_of_lt (hkept.trans hbefore).length_le hfew)
  obtain ⟨-, hmemory, -⟩ := survives_recovers hnew hblank hrun horder hstorable hn hday day
  have hkept := kept_sublist limits.sessionRollMillis turns
  have htoday := (hbounded day).sublist (todays_sublist hkept day)
  refine ⟨htoday, ?_⟩
  obtain ⟨executions, hreplay⟩ := replay_day today ((reports_sorted limits.sessionRollMillis horder).sublist hkept)
    fun r hr => day_le_of_mem hn hday r (hkept.subset hr)
  rw [hmemory, hfresh, hreplay]
  exact tracks_tally hk htoday day executions 0

/-- The loss limit decides as exact arithmetic would, but within a margin that
each amount of the day adds to: a drawdown past it is refused, and what is
refused is a drawdown up to it. -/
theorem loss_within_margin (hk : k < 1000) (hnew : PreTradeRiskEngine.new limits isLive start = .ok e₀)
    (hblank : ∀ key ∈ counterKeys, s₀ key = none) (hrun : Survives ⟨e₀, s₀⟩ turns p)
    (horder : Nondecreasing Turn.now start turns)
    (hbounded : ∀ today, Bounded k (todays today (Crashes.reports limits.sessionRollMillis turns)))
    (hfew : (Crashes.reports limits.sessionRollMillis turns).length < 2 ^ 53)
    (hn : Upto Turn.now start turns n) (hday : tradingDay n limits.sessionRollMillis = .ok day) {hl : Representable l}
    (hlimit : limits.dailyLossLimitUsd = some (.finite l hl)) (hle : l ≤ 2 ^ k) :
    let exact := exactCounters day limits.sessionRollMillis turns
    let margin := (2 * (postings (.leg isLive) (keptToday day limits.sessionRollMillis turns)).length + 1) * halfPlace k
    AmountsTo ((keptToday day limits.sessionRollMillis turns).map exactly) exact ∧
    (limits.isDisabled .dailyLossLimit = false → p.engine.bypassActive n = false →
      l + margin ≤ exact.legPeak isLive - exact.legPnl isLive →
      ∀ files r d f, evaluate files p.engine n r = .ok (d, f) → d.accepted = false) ∧
    ∀ files r, RefusesWith files p.engine n r .lossLimitBreached →
      l - margin ≤ exact.legPeak isLive - exact.legPnl isLive := by
  obtain ⟨htoday, htracks⟩ := tracks_of_run hk hnew hblank hrun horder hbounded hfew hn hday
  obtain ⟨hlimits, hleg⟩ : p.engine.limits = limits ∧ p.engine.isLive = isLive := by
    obtain ⟨today, -, rfl⟩ := new_eq_ok.mp hnew
    exact ⟨survives_limits hrun, survives_isLive hrun⟩
  have hl₀ : 0 ≤ l := by
    have hnot := limits.admissible.amounts "daily_loss_limit_usd" (.finite l hl) (by simp [LimitFields.amounts, hlimit])
    exact (not_le.mp hnot).le
  have htoday' : p.engine.today n = .ok day := by rw [PreTradeRiskEngine.today, hlimits, hday]
  have hlimit' : (p.engine.rollTo day).limits.dailyLossLimitUsd = some (.finite l hl) := by rw [← hlimit, ← hlimits]; rfl
  have hleg' : (p.engine.rollTo day).isLive = isLive := hleg
  refine ⟨amountsTo_exactCounters day _ turns, fun henabled hbypass hmargin files r d f hd => ?_,
    fun files r hrefused => ?_⟩
  · by_contra haccepted
    have hlt := drawdown_lt_of_accepted hk htracks htoday hle hlimit' (hlimits ▸ henabled) hbypass htoday' hd
      (Bool.eq_true_of_not_eq_false haccepted)
    rw [hleg] at hlt
    exact absurd hmargin (not_le.mpr hlt)
  · obtain ⟨c, hc, hid⟩ := firstFailing_of_refusesWith .dailyLossLimit htoday' hrefused
    have hnot := hc.not_satisfied
    rw [hid, Satisfied, Bool.not_eq_false] at hnot
    have hmargin := margin_of_breached hk htracks htoday hl₀ hle hlimit' hnot
    rwa [hleg'] at hmargin

theorem reports_lossKept : Crashes.reports 0 lossKept =
    [⟨"2026-07-20", .realizedPnl (.ofRat (-15)) false⟩, ⟨"2026-07-20", .notional (.ofRat 5)⟩] := by
  rw [Crashes.reports, logged_lossKept]
  rfl

theorem bounded_lossKept (today : String) : Bounded 4 (todays today (Crashes.reports 0 lossKept)) := by
  have hall : Bounded 4 [.realizedPnl (.ofRat (-15)) false, .notional (.ofRat 5)] := by
    refine ⟨fun account => ?_, fun account => ?_, fun account => ?_⟩ <;>
      (cases account with
        | leg isLive => cases isLive <;> decide +kernel
        | notional => decide +kernel)
  rw [reports_lossKept]
  exact hall.sublist (List.filter_sublist.map Report.event)

theorem few_lossKept : (Crashes.reports 0 lossKept).length < 2 ^ 53 := by
  rw [reports_lossKept]
  norm_num

theorem keptToday_lossKept : keptToday "2026-07-20" 0 lossKept = [.realizedPnl (.ofRat (-15)) false] := by
  rw [keptToday, logged_lossKept]
  rfl

/-- The loss of 15 is refused for, over a limit of 10. -/
theorem loss_within_margin_kept : ∃ p, Survives ⟨FailOpen.lossEngine, empty⟩ lossKept p ∧
    ∀ files r d f, evaluate files p.engine Session.noon r = .ok (d, f) → d.accepted = false := by
  obtain ⟨p, hp, hoverrides⟩ := survives_lossKept
  have hten : FailOpen.lossLimits.dailyLossLimitUsd = some (.finite (10 : ℤ) (representable_intCast (by norm_num))) :=
    congrArg some (Float64.ofRat_of_representable (representable_intCast (by norm_num)))
  obtain ⟨-, hrefused, -⟩ := loss_within_margin (k := 4) (by norm_num) FailOpen.new_lossEngine (fun _ _ => rfl) hp
    (by simp [Nondecreasing, lossKept]) bounded_lossKept few_lossKept ⟨le_rfl, by simp [lossKept]⟩
    Session.tradingDay_noon hten (by norm_num)
  refine ⟨p, hp, hrefused rfl ?_ ?_⟩
  · rw [PreTradeRiskEngine.bypassActive, hoverrides]
    rfl
  · change _ + (2 * ((postings (.leg false) (keptToday "2026-07-20" 0 lossKept)).length : ℚ) + 1) * halfPlace 4 ≤
      (exactCounters "2026-07-20" 0 lossKept).legPeak false - (exactCounters "2026-07-20" 0 lossKept).legPnl false
    rw [exactCounters, keptToday_lossKept]
    decide +kernel

/-- So does the daily notional limit, for orders of up to half the bound. -/
theorem notional_within_margin (hk : k < 1000) (hnew : PreTradeRiskEngine.new limits isLive start = .ok e₀)
    (hblank : ∀ key ∈ counterKeys, s₀ key = none) (hrun : Survives ⟨e₀, s₀⟩ turns p)
    (horder : Nondecreasing Turn.now start turns)
    (hbounded : ∀ today, Bounded k (todays today (Crashes.reports limits.sessionRollMillis turns)))
    (hfew : (Crashes.reports limits.sessionRollMillis turns).length < 2 ^ 53)
    (hn : Upto Turn.now start turns n) (hday : tradingDay n limits.sessionRollMillis = .ok day) {cap : ℚ}
    {hcap : Representable cap} (hlimit : limits.dailyNotionalLimitUsd = some (.finite cap hcap)) {hl : Representable l}
    (hnotional : r.notionalUsd = some (.finite l hl)) (hle : |l| ≤ 2 ^ k / 2) :
    let exact := exactCounters day limits.sessionRollMillis turns
    let margin := ((postings .notional (keptToday day limits.sessionRollMillis turns)).length + 1) * halfPlace k
    AmountsTo ((keptToday day limits.sessionRollMillis turns).map exactly) exact ∧
    (limits.isDisabled .dailyNotionalLimit = false → ∀ d f, evaluate files p.engine n r = .ok (d, f) →
      d.accepted = true → exact.dailyNotional + |l| ≤ cap + margin) ∧
    (RefusesWith files p.engine n r .dailyNotionalLimitExceeded → cap - margin ≤ exact.dailyNotional + |l|) := by
  obtain ⟨htoday, htracks⟩ := tracks_of_run hk hnew hblank hrun horder hbounded hfew hn hday
  have hlimits : p.engine.limits = limits := by
    obtain ⟨today, -, rfl⟩ := new_eq_ok.mp hnew
    exact survives_limits hrun
  have htoday' : p.engine.today n = .ok day := by rw [PreTradeRiskEngine.today, hlimits, hday]
  have hlimit' : (p.engine.rollTo day).limits.dailyNotionalLimitUsd = some (.finite cap hcap) := by
    rw [← hlimit, ← hlimits]
    rfl
  have hprojected := near_projected hl hk htracks htoday hle
  have hcapped : Near 0 (.finite cap hcap) cap := ⟨cap, hcap, rfl, by simp⟩
  refine ⟨amountsTo_exactCounters day _ turns, fun henabled d f hd haccepted => ?_, fun hrefused => ?_⟩
  · have hpasses : Passes files (p.engine.rollTo day) n r .dailyNotionalLimit := by
      by_contra hnot
      rw [rejected_of_not_passes .dailyNotionalLimit htoday' hnot hd] at haccepted
      cases haccepted
    obtain ⟨notional, hmem, hfloat⟩ := NonFinite.passes_notional_iff.mp hpasses (hlimits ▸ henabled) _ hlimit'
    obtain rfl := Option.some.inj (hnotional.symm.trans hmem)
    have hsum := hprojected.le_of_float_le hcapped hfloat
    linarith
  · obtain ⟨c, hc, hid⟩ := firstFailing_of_refusesWith .dailyNotionalLimit htoday' hrefused
    have hnot := hc.not_satisfied
    rw [hid] at hnot
    by_contra hfar
    refine hnot fun cap' hcap' => ⟨_, hnotional, ?_⟩
    obtain rfl := Option.some.inj (hlimit'.symm.trans hcap')
    exact hprojected.le_of_le hcapped (by linarith)

def hundred : RiskLimits Float64 := ⟨{ dailyNotionalLimitUsd := some (100 : ℤ) }, by decide +kernel⟩

def sixtySent : List Turn := [⟨Session.noon, .report (.notional (.ofRat 60)) true⟩]

theorem reports_sixtySent : Crashes.reports 0 sixtySent = [⟨"2026-07-20", .notional (.ofRat 60)⟩] := by
  simp [Crashes.reports, logged, sixtySent, Turn.logged, Session.tradingDay_noon, Except.toOption, Event.entry]

theorem few_sixtySent : (Crashes.reports 0 sixtySent).length < 2 ^ 53 := by
  rw [reports_sixtySent]
  norm_num

theorem bounded_sixtySent (today : String) : Bounded 6 (todays today (Crashes.reports 0 sixtySent)) := by
  have hall : Bounded 6 [.notional (.ofRat 60)] := by
    refine ⟨fun account => ?_, fun account => ?_, fun account => ?_⟩ <;>
      (cases account with
        | leg isLive => cases isLive <;> decide +kernel
        | notional => decide +kernel)
  rw [reports_sixtySent]
  exact hall.sublist (List.filter_sublist.map Report.event)

theorem notional_within_margin_hundred : ∃ p, Survives ⟨.onDay hundred false "2026-07-20", empty⟩ sixtySent p ∧
    ∀ d f, evaluate (fun _ => false) p.engine Session.noon FailOpen.plainOrder = .ok (d, f) → d.accepted = true →
      (exactCounters "2026-07-20" 0 sixtySent).dailyNotional + |1| ≤
        100 + ((postings .notional (keptToday "2026-07-20" 0 sixtySent)).length + 1) * halfPlace 6 := by
  have hperform : ∃ p, Process.perform ⟨.onDay hundred false "2026-07-20", empty⟩
      ⟨Session.noon, .report (.notional (.ofRat 60)) true⟩ = .ok p := perform_report Session.tradingDay_noon
  obtain ⟨p, hp⟩ := hperform
  have hrun : Survives ⟨.onDay hundred false "2026-07-20", empty⟩ sixtySent p := Steps.single hp
  have hcap : hundred.dailyNotionalLimitUsd = some (.finite (100 : ℤ) (representable_intCast (by norm_num))) :=
    congrArg some (Float64.ofRat_of_representable (representable_intCast (by norm_num)))
  have hprice : FailOpen.plainOrder.notionalUsd = some (.finite 1 representable_one) := by decide +kernel
  refine ⟨p, hrun, fun d f hd haccepted => ?_⟩
  have hmargin := (notional_within_margin (k := 6) (by norm_num)
    (new_eq_ok.mpr ⟨_, Session.tradingDay_noon, rfl⟩) (fun _ _ => rfl) hrun
    (by simp [Nondecreasing, sixtySent]) bounded_sixtySent few_sixtySent
    ⟨le_rfl, by simp [sixtySent]⟩ Session.tradingDay_noon hcap hprice (by norm_num)).2.1 rfl d f hd haccepted
  exact_mod_cast hmargin

end PretradeRisk.Margins
