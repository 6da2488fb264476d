import PretradeRisk.Damage

namespace PretradeRisk.Room

open Admission Clock Decision Encoding Engine Evaluate Host Limits Orders Restart Run Session Snapshot Store
  Tightness
open Damage (NoLooser accepted_imp_iff restarted stateless_congr)

theorem le_of_forall_pos {a b : WithTop ℚ} (ha : 0 < a) (h : ∀ x : ℚ, 0 < x → (x : WithTop ℚ) ≤ a → (x : WithTop ℚ) ≤ b) :
    a ≤ b := by
  cases a with
  | coe x => exact h x (WithTop.coe_pos.mp ha) le_rfl
  | top =>
      cases b with
      | top => exact le_rfl
      | coe y =>
          have hy := WithTop.coe_le_coe.mp (h (max 1 (y + 1)) (by simp) le_top)
          exact absurd hy (not_le.mpr (lt_max_of_lt_right (lt_add_one y)))

theorem exists_pos_le {a : WithTop ℚ} (ha : 0 < a) : ∃ x : ℚ, 0 < x ∧ (x : WithTop ℚ) ≤ a := by
  cases a with
  | coe x => exact ⟨x, WithTop.coe_pos.mp ha, le_rfl⟩
  | top => exact ⟨1, one_pos, le_top⟩

section Openings

variable [PyFloat ℚ] {limits : RiskLimits ℚ} {isLive : Bool} {c c' : Counters ℚ} {o o' : Overrides ℚ} {now : ℤ}
  {files : Files} {r : OrderRequest ℚ}

structure TradingOpen (files : Files) (limits : RiskLimits ℚ) (symbol : String) (state : SessionState) : Prop where
  killSwitch : limits.isDisabled .killSwitch = false → ∀ path, limits.killSwitchPath = some path →
    files path = false
  permitted : limits.isDisabled .instrumentUniverse = false →
    ∀ permitted, limits.permittedInstruments = some permitted → symbol ∈ permitted
  restricted : limits.isDisabled .restrictedList = false → symbol ∉ limits.restrictedInstruments
  session : limits.isDisabled .sessionState = false →
    ∀ tradeable, limits.tradeableSessionStates = some tradeable → state ∈ tradeable

/-- Some order can pass: trading is open somewhere, no throttle is tripped,
and there is room. -/
structure Opens (files : Files) (e : PreTradeRiskEngine ℚ) (now : ℤ) : Prop where
  trading : ∃ symbol state, TradingOpen files e.limits symbol state
  untripped : Untripped e now
  room : 0 < notionalRoom e

omit [PyFloat ℚ] in
def probe (symbol : String) (state : SessionState) (quantity notional : ℚ) : OrderRequest ℚ :=
  { OrderRequest.bare symbol .buy quantity with
    limitPrice := some (notional / quantity)
    decisionPrice := some (notional / quantity)
    bestBid := some (notional / quantity)
    bestAsk := some (notional / quantity)
    referencePrice := some (notional / quantity)
    quoteAgeMillis := some 0
    sessionState := state
    positionQuantity := -quantity
    grossExposureUsd := -notional }

variable {symbol : String} {state : SessionState} {q v : ℚ} {id : ControlId}

omit [PyFloat ℚ] in
theorem probe_notionalUsd (hq : 0 < q) : (probe symbol state q v).notionalUsd = some v := by
  exact congrArg some (mul_div_cancel₀ v hq.ne')

theorem permits_probe (hopen : TradingOpen files limits symbol state) (hq : 0 < q) (hv : 0 < v)
    (hid : id ∉ stateful) (hrun : limits.isDisabled id = false) :
    Permits files (restarted limits isLive c o) now (probe symbol state q v) id := by
  have hprice : 0 < v / q := div_pos hv hq
  cases id with
  | killSwitch => exact hopen.killSwitch hrun
  | instrumentUniverse => exact hopen.permitted hrun
  | restrictedList => exact hopen.restricted hrun
  | sessionState => exact hopen.session hrun
  | shortSaleLocate => exact fun _ h => absurd h.1 (by simp [probe, OrderRequest.bare])
  | orderQuantity => exact hq
  | orderPrice => exact fun price h => Option.some.inj h ▸ hprice
  | orderNotional =>
      intro notional h
      rw [probe_notionalUsd hq] at h
      exact Option.some.inj h ▸ hv
  | quoteAge =>
      intro maxAge h
      have hpos := limits.count_pos "max_quote_age_millis" (n := maxAge) (by simp [LimitFields.counts, ← h]; rfl)
      exact ⟨0, rfl, hpos.le⟩
  | priceBand =>
      intro band price hband hlimit
      have hpos := limits.amount_pos "price_band_fraction" (x := band) (by simp [LimitFields.amounts, ← hband]; rfl)
      obtain rfl := Option.some.inj hlimit
      exact ⟨v / q, rfl, hprice, by rw [sub_self, abs_zero, zero_div]; exact hpos.le⟩
  | executionSlippage =>
      intro maxSlippage h
      have hpos := limits.amount_pos "max_execution_slippage" (x := maxSlippage) (by simp [LimitFields.amounts, ← h]; rfl)
      exact ⟨v / q, v / q, rfl, rfl, (sub_self (v / q)).trans_le hpos.le⟩
  | duplicateOrder =>
      intro window hwindow seenAt hseen
      rw [configuredDuplicateWindow_seen limits window hwindow] at hseen
      cases hseen
  | orderRate =>
      intro cap h
      exact limits.count_pos "max_orders_per_window" (by simp [LimitFields.counts, ← h]; rfl)
  | workingOrders =>
      intro cap h
      exact limits.count_pos "max_working_orders" (by simp [LimitFields.counts, ← h]; rfl)
  | openPositions =>
      intro cap h
      exact limits.count_pos "max_open_positions" (by simp [LimitFields.counts, ← h]; rfl)
  | positionLimit =>
      intro cap h
      have hpos := limits.amount_pos "max_position_quantity" (x := cap) (by simp [LimitFields.amounts, ← h]; rfl)
      have hflat : (probe symbol state q v).projectedPosition = 0 := by
        simp [probe, OrderRequest.projectedPosition, OrderRequest.bare, Side.signedMultiplier, Side.isSell]
      exact .inl (by rw [hflat, abs_zero]; exact hpos.le)
  | selfMatchPrevention => exact fun _ => le_rfl
  | grossExposure =>
      intro cap h
      have hpos := limits.amount_pos "max_gross_exposure_usd" (x := cap) (by simp [LimitFields.amounts, ← h]; rfl)
      refine ⟨v, probe_notionalUsd hq, ?_⟩
      rw [abs_of_pos hv]
      exact (neg_add_cancel v).trans_le hpos.le
  | dailyLossLimit | maxOrderQuantity | maxOrderNotional | consecutiveRejects | repeatedExecution
    | dailyNotionalLimit => exact absurd (by decide) hid

theorem passes_probe (hopen : TradingOpen files limits symbol state)
    (hu : Untripped (restarted limits isLive c o) now) (hq : 0 < q) (hv : 0 < v)
    (hquantity : (q : WithTop ℚ) ≤ quantityCap (restarted limits isLive c o))
    (hnotional : (v : WithTop ℚ) ≤ notionalRoom (restarted limits isLive c o)) :
    Passes files (restarted limits isLive c o) now (probe symbol state q v) where
  stateless _ hid hrun := permits_probe hopen hq hv hid hrun
  untripped := hu
  quantity := hquantity
  notional := by rwa [notional, probe_notionalUsd hq]

theorem opens_of_passes {e : PreTradeRiskEngine ℚ} (h : Passes files e now r) : Opens files e now := by
  have hsign : e.limits.isDisabled .orderNotional = false := isDisabled_of_alwaysOn (by decide)
  refine ⟨⟨r.symbol, r.sessionState, ?_⟩, h.untripped, lt_of_lt_of_le ?_ h.notional⟩
  · exact ⟨h.stateless .killSwitch (by decide), h.stateless .instrumentUniverse (by decide),
      h.stateless .restrictedList (by decide), h.stateless .sessionState (by decide)⟩
  · have hpos := h.stateless .orderNotional (by decide) hsign
    rw [notional]
    cases hr : r.notionalUsd with
    | none => exact WithTop.coe_lt_top 0
    | some x => exact WithTop.coe_pos.mpr (hpos x hr)

theorem quantityCap_pos (ho : ∀ x, o.runtimeMaxOrderQuantity = some x → 0 < x) :
    0 < quantityCap (restarted limits isLive c o) := by
  rw [quantityCap, inForce]
  split
  · exact WithTop.coe_lt_top 0
  · cases hcap : (restarted limits isLive c o).effectiveMaxOrderQuantity with
    | none => exact WithTop.coe_lt_top 0
    | some x =>
        refine WithTop.coe_pos.mpr ?_
        rw [PreTradeRiskEngine.effectiveMaxOrderQuantity] at hcap
        split at hcap
        · next cap hoverride => exact Option.some.inj hcap ▸ ho cap hoverride
        · exact limits.amount_pos "max_order_quantity" (by simp [LimitFields.amounts, ← hcap]; rfl)

theorem passes_imp_passes_iff (ho' : ∀ x, o'.runtimeMaxOrderQuantity = some x → 0 < x) :
    (∀ r, Passes files (restarted limits isLive c' o') now r → Passes files (restarted limits isLive c o) now r) ↔
      (Opens files (restarted limits isLive c' o') now →
        Untripped (restarted limits isLive c o) now ∧
        quantityCap (restarted limits isLive c' o') ≤ quantityCap (restarted limits isLive c o) ∧
        notionalRoom (restarted limits isLive c' o') ≤ notionalRoom (restarted limits isLive c o)) := by
  constructor
  · rintro h ⟨⟨symbol, state, hopen⟩, hu, hroom⟩
    have hcap : 0 < quantityCap (restarted limits isLive c' o') := quantityCap_pos ho'
    obtain ⟨q₀, hq₀, hqle⟩ := exists_pos_le hcap
    obtain ⟨v₀, hv₀, hvle⟩ := exists_pos_le hroom
    refine ⟨(h _ (passes_probe hopen hu hq₀ hv₀ hqle hvle)).untripped, ?_, ?_⟩
    · exact le_of_forall_pos hcap fun q hq hle => (h _ (passes_probe hopen hu hq hv₀ hle hvle)).quantity
    · refine le_of_forall_pos hroom fun v hv hle => ?_
      have hnotional := (h _ (passes_probe hopen hu hq₀ hv hqle hle)).notional
      rwa [notional, probe_notionalUsd hq₀] at hnotional
  · intro h r hr
    obtain ⟨hu, hquantity, hnotional⟩ := h (opens_of_passes hr)
    refine ⟨fun id hid hrun => ?_, hu, hr.quantity.trans hquantity, hr.notional.trans hnotional⟩
    exact (permits_congr (f := restarted limits isLive c' o') (e := restarted limits isLive c o) hid rfl rfl rfl).mp
      (hr.stateless id hid hrun)

theorem accepts_iff_decision {e : PreTradeRiskEngine ℚ} :
    Accepts files e now r ↔ Verdicts.decision files e now r = .ok accepted := by
  constructor
  · rintro ⟨f, h⟩
    rw [Verdicts.decision, h]
    rfl
  · intro h
    obtain ⟨⟨d, f⟩, hev, rfl⟩ := map_eq_ok.mp h
    exact ⟨f, hev⟩

/-- In exact arithmetic nothing is let through just when no throttle is lost
and neither the cap on the quantity nor the room for the notional grows. -/
theorem noLooser_iff_room [ExactFloat] (ho' : ∀ x, o'.runtimeMaxOrderQuantity = some x → 0 < x)
    (hnow : tradingDay now limits.sessionRollMillis = .ok c.tradingDay)
    (hnow' : tradingDay now limits.sessionRollMillis = .ok c'.tradingDay) :
    NoLooser files (restarted limits isLive c o) (restarted limits isLive c' o') now ↔
      (Opens files (restarted limits isLive c' o') now →
        Untripped (restarted limits isLive c o) now ∧
        quantityCap (restarted limits isLive c' o') ≤ quantityCap (restarted limits isLive c o) ∧
        notionalRoom (restarted limits isLive c' o') ≤ notionalRoom (restarted limits isLive c o)) := by
  have hbefore : (restarted limits isLive c o).today now = .ok (restarted limits isLive c o).counters.tradingDay := hnow
  have hafter : (restarted limits isLive c' o').today now =
      .ok (restarted limits isLive c' o').counters.tradingDay := hnow'
  have hfits (n : ℤ) : PyFloat.fits ℚ n = true := ExactFloat.fits n
  rw [← passes_imp_passes_iff ho', ← accepted_imp_iff hbefore hafter fun r => stateless_congr rfl rfl rfl]
  refine forall_congr' fun r => ?_
  rw [← accepts_iff_passes_today hbefore, ← accepts_iff_passes_today hafter, accepts_iff_decision, accepts_iff_decision]
  exact imp_iff_right ⟨fun age _ => hfits age, hfits _, hfits _⟩

end Openings

end PretradeRisk.Room
