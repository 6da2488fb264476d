import PretradeRisk.DayHistory
import PretradeRisk.FailOpen

namespace PretradeRisk.Rearming

open Clock Controls DayHistory Encoding Engine Host Ieee Ledger Limits Run Session Store

section Loads

variable {F : Type} [Zero F] [PyFloat F] {s : StateStore} {key : Key}

def resetKeys : List Key := [.liveRealizedPnl, .simulatedRealizedPnl, .livePeakPnl, .simulatedPeakPnl]

theorem reset_of_notMem (s : StateStore) (key : Key) (h : key ∉ resetKeys) :
    setMany s (resetDailyLossLimit F) key = s key :=
  setMany_of_notMem s _ h

variable [LT F] [DecidableLT F] [IntCast F]

omit [Zero F] [LT F] [DecidableLT F] in
theorem setMany_snapshot {t : StateStore} {c c' : Counters F} (hst : ∀ key ∉ resetKeys, t key = s key)
    (hday : c'.tradingDay = c.tradingDay) (hnotional : c'.dailyNotional = c.dailyNotional)
    (hrejects : c'.consecutiveRejects = c.consecutiveRejects)
    (hexecutions : c'.executionsSinceRearm = c.executionsSinceRearm) (hkey : key ∉ resetKeys) :
    setMany t c'.snapshot key = setMany s c.snapshot key := by
  have hkept := hst key hkey
  cases key <;>
    simp_all [resetKeys, Counters.snapshot, Store.set]

variable [Sub F] [LE F] [DecidableLE F]

/-- A load after a reset against the load without it: no P&L and no peak are
left on either leg, and all else is the same. -/
structure Rearmed (limits : RiskLimits F) (n : ℤ) (e e' : PreTradeRiskEngine F) (s s' : StateStore) : Prop where
  pnl : ∀ leg, e'.counters.legPnl leg = 0
  peak : ∀ leg, e'.counters.legPeak leg = 0
  headroom : (e'.lossLimitHeadroom n).map Prod.fst = .ok limits.dailyLossLimitUsd
  not_breached : (e'.lossLimitBreached n).map Prod.fst = .ok false
  tradingDay : e'.counters.tradingDay = e.counters.tradingDay
  dailyNotional : e'.counters.dailyNotional = e.counters.dailyNotional
  consecutiveRejects : e'.counters.consecutiveRejects = e.counters.consecutiveRejects
  executionsSinceRearm : e'.counters.executionsSinceRearm = e.counters.executionsSinceRearm
  engine : e' = e.withCounters e'.counters
  keys : ∀ key ∉ resetKeys, s' key = s key

variable {limits : RiskLimits F} {isLive : Bool} {built n : ℤ} {e e₀ : PreTradeRiskEngine F} {day : String}

theorem readings_of_zero
    (hlimit : ∀ limit ∈ e.limits.dailyLossLimitUsd, (0 : F) - (0 - limit) = limit ∧ ¬ (0 : F) ≤ 0 - limit)
    (hday : e.today n = .ok day) (hdate : e.counters.tradingDay = day) (hpnl : e.legPnl = 0) (hpeak : e.legPeak = 0) :
    (e.lossLimitHeadroom n).map Prod.fst = .ok e.limits.dailyLossLimitUsd ∧
      (e.lossLimitBreached n).map Prod.fst = .ok false := by
  rw [PreTradeRiskEngine.lossLimitHeadroom, PreTradeRiskEngine.property_of_today hday,
    PreTradeRiskEngine.lossLimitBreached_of_today hday, PreTradeRiskEngine.rollTo_of_eq hdate,
    PreTradeRiskEngine.breached, PreTradeRiskEngine.floor, hpnl, hpeak]
  cases hsome : e.limits.dailyLossLimitUsd with
  | none => exact ⟨rfl, rfl⟩
  | some limit =>
      obtain ⟨hback, hbelow⟩ := hlimit limit hsome
      refine ⟨congrArg (fun x => Except.ok (some x)) hback, ?_⟩
      simp [Except.map, hbelow]

theorem rearmed_of_load (hzero : RoundTrips (0 : F))
    (hlimit : ∀ limit ∈ limits.dailyLossLimitUsd, (0 : F) - (0 - limit) = limit ∧ ¬ (0 : F) ≤ 0 - limit)
    (hnew : PreTradeRiskEngine.new limits isLive built = .ok e₀)
    (hday : Clock.tradingDay n limits.sessionRollMillis = .ok day) (s : StateStore) :
    ∃ e t e' t', e₀.load s n = .ok (e, t) ∧ e₀.load (setMany s (resetDailyLossLimit F)) n = .ok (e', t') ∧
      Rearmed limits n e e' t t' := by
  obtain ⟨day₀, -, rfl⟩ := new_eq_ok.mp hnew
  refine ⟨_, _, _, _, PreTradeRiskEngine.load_of_today hday, PreTradeRiskEngine.load_of_today hday, ?_⟩
  have hlegs (leg : Bool) := adopt_reset_legs hzero s day₀ day leg
  obtain ⟨hnotional, hrejects, hexecutions⟩ := adopt_reset_rest (F := F) s day₀ day
  obtain ⟨hheadroom, hbreached⟩ := readings_of_zero (e := (PreTradeRiskEngine.onDay limits isLive day₀).withCounters
    ((Counters.fresh day₀).adopt (getMany (setMany s (resetDailyLossLimit F)) counterKeys) day)) hlimit hday rfl
    (hlegs isLive).1 (hlegs isLive).2
  exact {
    pnl := fun leg => (hlegs leg).1
    peak := fun leg => (hlegs leg).2
    headroom := hheadroom
    not_breached := hbreached
    tradingDay := rfl
    dailyNotional := hnotional
    consecutiveRejects := hrejects
    executionsSinceRearm := hexecutions
    engine := rfl
    keys := fun _ hkey =>
      setMany_snapshot (reset_of_notMem s) rfl hnotional hrejects hexecutions hkey }

end Loads

/-- How far some amounts have come down from their high water mark. -/
def IsDrawdown (amounts : List ℚ) (x : ℚ) : Prop := ∃ peak, IsHighWater amounts peak ∧ x = peak - amounts.sum

section Later

variable [PyFloat ℚ] {d d' : Desk ℚ} {calls : List (Call ℚ)} {call : Call ℚ} {day : String} {n : ℤ}

/-- The counters are on the day, and hold what its reports have made of the
two legs. -/
structure Since (day : String) (calls : List (Call ℚ)) (d : Desk ℚ) : Prop where
  tradingDay : d.engine.counters.tradingDay = day
  legs : HoldsLegs (reportsOn d.engine.limits.sessionRollMillis day calls) d.engine.counters

theorem since_of_zero (hday : d.engine.counters.tradingDay = day) (hpnl : ∀ leg, d.engine.counters.legPnl leg = 0)
    (hpeak : ∀ leg, d.engine.counters.legPeak leg = 0) : Since day [] d :=
  ⟨hday, hpnl, fun leg => (hpeak leg).symm ▸ isHighWater_nil⟩

theorem since_step (h : Since day calls d) (hstep : d.perform call = .ok d') (hload : call.op ≠ .load)
    (hday : Clock.tradingDay call.now d.engine.limits.sessionRollMillis = .ok day) :
    Since day (calls ++ [call]) d' := by
  obtain ⟨n, op⟩ := call
  obtain ⟨hlimits, -, hmoves⟩ := perform_moves hstep
  have hroll : d.engine.counters.roll day = d.engine.counters := Counters.roll_of_eq h.tradingDay.symm
  have hkept (hc : d'.engine.counters = d.engine.counters) (hop : ∀ event, op ≠ .report event) :
      Since day (calls ++ [⟨n, op⟩]) d' := by
    refine ⟨hc ▸ h.tradingDay, ?_⟩
    rw [hlimits, hc, reportsOn_snoc_of_ne hop]
    exact h.legs
  have htoday {today : String} (hn : d.engine.today n = .ok today) : today = day := Except.ok.inj (hn.symm.trans hday)
  cases hmoves with
  | report hn hc _ =>
      obtain rfl := htoday hn
      rw [hroll] at hc
      refine ⟨by rw [hc, CounterEvent.apply_tradingDay]; exact h.tradingDay, ?_⟩
      rw [hlimits, hc, reportsOn_snoc_report hday]
      exact h.legs.snoc _
  | roll hop hn hc _ =>
      obtain rfl := htoday hn
      refine hkept (hc.trans hroll) ?_
      rcases hop with rfl | ⟨_, _, rfl⟩ <;> exact nofun
  | keep hop hc _ => exact hkept hc (by rcases hop with rfl | ⟨_, rfl⟩ <;> exact nofun)
  | load => exact absurd rfl hload
  | persist hc _ => exact hkept hc nofun
  | control _ hc _ => exact hkept hc nofun
  | outside hc _ => exact hkept hc nofun

theorem runs_since (h : Since day [] d) (hrun : Runs d calls d')
    (hcalls : ∀ call ∈ calls, call.op ≠ .load ∧
      Clock.tradingDay call.now d.engine.limits.sessionRollMillis = .ok day) : Since day calls d' := by
  induction hrun with
  | nil => exact h
  | snoc hrun hstep ih =>
      have hlast := hcalls _ List.mem_concat_self
      refine since_step (ih fun call hcall => hcalls call (List.mem_append_left _ hcall)) hstep hlast.1 ?_
      rw [runs_limits hrun]
      exact hlast.2

theorem Since.breached_iff {limit : ℚ} (h : Since day calls d)
    (hlimit : d.engine.limits.dailyLossLimitUsd = some limit) (hday : d.engine.today n = .ok day)
    (hbypass : d.engine.bypassActive n = false) :
    (d.engine.lossLimitBreached n).map Prod.fst = .ok true ↔ ∃ x,
      IsDrawdown (amounts d.engine.isLive (reportsOn d.engine.limits.sessionRollMillis day calls)) x ∧ limit ≤ x := by
  have hpeak := h.legs.peak d.engine.isLive
  have hpnl := h.legs.pnl d.engine.isLive
  rw [PreTradeRiskEngine.lossLimitBreached_of_today hday, PreTradeRiskEngine.rollTo_of_eq h.tradingDay, Except.map,
    Except.ok.injEq, PreTradeRiskEngine.breached_iff]
  constructor
  · rintro ⟨limit', hlimit', -, hle⟩
    obtain rfl : limit' = limit := Option.some.inj (hlimit'.symm.trans hlimit)
    refine ⟨_, ⟨_, hpeak, rfl⟩, ?_⟩
    rw [← hpnl]
    exact le_sub_comm.mp hle
  · rintro ⟨x, ⟨peak, hwater, rfl⟩, hle⟩
    obtain rfl : peak = d.engine.counters.legPeak d.engine.isLive := hwater.unique hpeak
    rw [← hpnl] at hle
    exact ⟨limit, hlimit, hbypass, le_sub_comm.mp hle⟩

end Later

theorem float64_limit (limits : RiskLimits Float64) : ∀ limit ∈ limits.dailyLossLimitUsd,
    (0 : Float64) - (0 - limit) = limit ∧ ¬ (0 : Float64) ≤ 0 - limit := by
  intro limit hlimit
  have hpos : ¬ limit ≤ 0 :=
    limits.admissible.amounts "daily_loss_limit_usd" limit (by simp [LimitFields.amounts, Option.mem_def.mp hlimit])
  cases limit with
  | nan => exact ⟨rfl, not_false⟩
  | infinite negative =>
      cases negative with
      | true => exact absurd rfl hpos
      | false => exact ⟨rfl, nofun⟩
  | finite x hx =>
      have hx₀ : 0 < x := not_le.mp hpos
      rw [Float64.zero_sub_finite, Float64.zero_sub_finite]
      refine ⟨by simp, ?_⟩
      rw [Float64.zero_eq, Float64.finite_le_finite]
      linarith

theorem rational_limit [PyFloat ℚ] (limits : RiskLimits ℚ) : ∀ limit ∈ limits.dailyLossLimitUsd,
    (0 : ℚ) - (0 - limit) = limit ∧ ¬ (0 : ℚ) ≤ 0 - limit := by
  intro limit hlimit
  have hpos : 0 < limit :=
    limits.amount_pos "daily_loss_limit_usd" (by simp [LimitFields.amounts, Option.mem_def.mp hlimit])
  exact ⟨by ring, by linarith⟩

/-- A fresh engine that loads the store after a reset has its whole limit left
on either leg, and nothing else of what it loads or leaves has moved. In exact
arithmetic it halts again exactly when its leg has come down by the limit. -/
theorem reset_rearms :
    (∀ (limits : RiskLimits Float64) (isLive : Bool) (built n : ℤ) (e₀ : PreTradeRiskEngine Float64) (day : String)
        (s : StateStore), PreTradeRiskEngine.new limits isLive built = .ok e₀ →
      Clock.tradingDay n limits.sessionRollMillis = .ok day →
      ∃ e t e' t', e₀.load s n = .ok (e, t) ∧ e₀.load (setMany s (resetDailyLossLimit Float64)) n = .ok (e', t') ∧
        Rearmed limits n e e' t t') ∧
    ∀ [PyFloat ℚ], RoundTrips (0 : ℚ) → ∀ (limits : RiskLimits ℚ) (isLive : Bool) (built n : ℤ)
        (e₀ : PreTradeRiskEngine ℚ) (day : String) (s : StateStore), PreTradeRiskEngine.new limits isLive built = .ok e₀ →
      Clock.tradingDay n limits.sessionRollMillis = .ok day →
      ∃ e t e' t', e₀.load s n = .ok (e, t) ∧ e₀.load (setMany s (resetDailyLossLimit ℚ)) n = .ok (e', t') ∧
        Rearmed limits n e e' t t' ∧
        ∀ (calls : List (Call ℚ)) (d : Desk ℚ), Runs ⟨e', t'⟩ calls d →
          (∀ call ∈ calls, call.op ≠ .load ∧ Clock.tradingDay call.now limits.sessionRollMillis = .ok day) →
          ∀ (m : ℤ) (limit : ℚ), Clock.tradingDay m limits.sessionRollMillis = .ok day →
            limits.dailyLossLimitUsd = some limit → d.engine.bypassActive m = false →
            ((d.engine.lossLimitBreached m).map Prod.fst = .ok true ↔
              ∃ x, IsDrawdown (amounts isLive (reportsOn limits.sessionRollMillis day calls)) x ∧ limit ≤ x) := by
  constructor
  · intro limits isLive built n e₀ day s hnew hday
    exact rearmed_of_load (Doubles.decodeFloat_encodeFloat representable_zero) (float64_limit limits) hnew hday s
  · intro _ hzero limits isLive built n e₀ day s hnew hday
    obtain ⟨e, t, e', t', hload, hreset, hrearmed⟩ := rearmed_of_load hzero (rational_limit limits) hnew hday s
    refine ⟨e, t, e', t', hload, hreset, hrearmed, fun calls d hrun hcalls m limit hm hlimit hbypass => ?_⟩
    obtain ⟨day₀, -, rfl⟩ := new_eq_ok.mp hnew
    have htoday : (PreTradeRiskEngine.onDay limits isLive day₀).today n = .ok day := hday
    rw [PreTradeRiskEngine.load_of_today htoday] at hreset
    cases hreset
    have hsince : Since day calls d := runs_since (since_of_zero rfl hrearmed.pnl hrearmed.peak) hrun hcalls
    have hlimits : d.engine.limits = limits := runs_limits hrun
    have hleg : d.engine.isLive = isLive := runs_isLive hrun
    rw [hsince.breached_iff (by rw [hlimits]; exact hlimit) (by rw [PreTradeRiskEngine.today, hlimits]; exact hm) hbypass,
      hlimits, hleg]

def bankedStore : StateStore :=
  setMany empty [(.tradingDay, "2026-07-20"), (.simulatedRealizedPnl, "20"), (.simulatedPeakPnl, "30")]

theorem isDrawdown_drawdown (xs : List ℚ) : IsDrawdown xs (drawdown xs) := by
  obtain ⟨peak, hpeak, heq⟩ := exists_isHighWater xs
  exact ⟨peak, hpeak, heq⟩

/-- The tenth dollar is all but lost, and then goes in amounts too small for
the P&L to take in. -/
def slivers : List ℚ :=
  [-(10 - 2 ^ (-49 : ℤ)), -2 ^ (-51 : ℤ), -2 ^ (-51 : ℤ), -2 ^ (-51 : ℤ), -2 ^ (-51 : ℤ), -2 ^ (-51 : ℤ)]

/-- So large a gain that the floor under it rounds to the gain itself. -/
def windfall : List ℚ := [10 ^ 18]

def haltsAfter (e : PreTradeRiskEngine Float64) (amounts : List ℚ) (n : ℤ) : Except PyError Bool := do
  let e ← amounts.foldlM (fun e x => e.recordRealizedPnl (Float64.ofRat x) false n) e
  let (breached, _) ← e.lossLimitBreached n
  return breached

/-- Rounded, the halt comes too late after some amounts and too early after
others: each of them is a double, and the limit is 10. -/
theorem reset_rearms_rounded :
    PreTradeRiskEngine.new FailOpen.lossLimits false noon = .ok FailOpen.lossEngine ∧
    (∀ x ∈ slivers ++ windfall, Representable x) ∧
    (∃ x, IsDrawdown slivers x ∧ 10 < x) ∧ IsDrawdown windfall 0 ∧
    ∃ e t, FailOpen.lossEngine.load (setMany bankedStore (resetDailyLossLimit Float64)) noon = .ok (e, t) ∧
      haltsAfter e slivers noon = .ok false ∧ haltsAfter e windfall noon = .ok true := by
  have hday : FailOpen.lossEngine.today noon = .ok "2026-07-20" := tradingDay_noon
  refine ⟨FailOpen.new_lossEngine, ?_, ⟨_, isDrawdown_drawdown _, ?_⟩, ?_, _, _, PreTradeRiskEngine.load_of_today hday,
    ?_, ?_⟩
  · have hmost : Representable (-(10 - 2 ^ (-49 : ℤ))) := ⟨-(10 * 2 ^ 49 - 1), -49, by norm_num, by norm_num⟩
    have hsliver : Representable (-2 ^ (-51 : ℤ)) := ⟨-1, -51, by norm_num, by norm_num⟩
    have hgain : Representable (10 ^ 18) := ⟨5 ^ 18, 18, by norm_num, by norm_num⟩
    simp only [slivers, windfall, List.cons_append, List.nil_append, List.forall_mem_cons]
    exact ⟨hmost, hsliver, hsliver, hsliver, hsliver, hsliver, hgain, List.forall_mem_nil _⟩
  · decide +kernel
  · have h := isDrawdown_drawdown windfall
    rwa [show drawdown windfall = 0 by decide +kernel] at h
  · exact eq_ok_of_any (by decide +kernel)
  · exact eq_ok_of_any (by decide +kernel)

open scoped Decimal

theorem reset_rearms_banked : ∃ e t, freshDesk.engine.load (setMany bankedStore (resetDailyLossLimit ℚ)) noon = .ok (e, t) ∧
    (e.lossLimitBreached noon).map Prod.fst = .ok false ∧
    ∀ d, Runs ⟨e, t⟩ [⟨noon, .report (.realizedPnl (-10) false)⟩] d →
      (d.engine.lossLimitBreached noon).map Prod.fst = .ok true := by
  obtain ⟨_, _, e, t, -, hreset, hrearmed, hlater⟩ := reset_rearms.2 (by decide +kernel) deskLimits false noon noon
    freshDesk.engine "2026-07-20" bankedStore new_freshDesk tradingDay_noon
  refine ⟨e, t, hreset, hrearmed.not_breached, fun d hrun => ?_⟩
  have htoday : freshDesk.engine.today noon = .ok "2026-07-20" := tradingDay_noon
  rw [PreTradeRiskEngine.load_of_today htoday] at hreset
  cases hreset
  have hbypass : d.engine.bypassActive noon = false := by
    obtain ⟨d', hstep, hrest⟩ := steps_cons_iff.mp hrun
    obtain rfl := steps_nil_iff.mp hrest
    rw [PreTradeRiskEngine.bypassActive, perform_overrides (by simp) hstep]
    rfl
  have hamounts : amounts false (reportsOn deskLimits.sessionRollMillis "2026-07-20"
      [⟨noon, .report (.realizedPnl (-10) false)⟩]) = [(-10 : ℚ)] := by
    have hday : tradingDay noon deskLimits.sessionRollMillis = .ok "2026-07-20" := tradingDay_noon
    rw [← List.nil_append [_], reportsOn_snoc_report hday]
    rfl
  refine (hlater _ d hrun (fun call hcall => ?_) noon 10 tradingDay_noon rfl hbypass).mpr ?_
  · obtain rfl := List.mem_singleton.mp hcall
    exact ⟨by simp, tradingDay_noon⟩
  · rw [hamounts]
    have hpeak : IsHighWater [-10] (max (0 : ℚ) (List.sum [] + -10)) := isHighWater_nil.snoc (-10)
    exact ⟨10, ⟨_, hpeak, by norm_num⟩, le_rfl⟩

end PretradeRisk.Rearming
