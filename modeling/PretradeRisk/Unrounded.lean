import PretradeRisk.Doubles
import PretradeRisk.Rulings

namespace PretradeRisk.Unrounded

open Decision Encoding Engine Evaluate Host Ieee Limits Orders Pruning Rulings Verdicts Walk
open Float64 (ofRat ofRat_of_representable)

/-- Exact arithmetic that reads and spells numbers as binary64 does. -/
scoped instance doubled : PyFloat ℚ where
  isfinite x := PyFloat.isfinite (ofRat x)
  format spec x := PyFloat.format spec (ofRat x)
  repr x := PyFloat.repr (ofRat x)
  float s := Binary64.round (Numerals.read s.toList)
  int x := x.num.tdiv x.den
  fits n := PyFloat.fits Float64 n

def doubleRequest (r : OrderRequest ℚ) : OrderRequest Float64 :=
  { r with
    quantity := ofRat r.quantity
    limitPrice := r.limitPrice.map ofRat
    decisionPrice := r.decisionPrice.map ofRat
    bestBid := r.bestBid.map ofRat
    bestAsk := r.bestAsk.map ofRat
    referencePrice := r.referencePrice.map ofRat
    positionQuantity := ofRat r.positionQuantity
    grossExposureUsd := ofRat r.grossExposureUsd
    opposingRestingQuantity := ofRat r.opposingRestingQuantity }

def doubleLimits (l : LimitFields ℚ) : LimitFields Float64 :=
  { l with
    dailyLossLimitUsd := l.dailyLossLimitUsd.map ofRat
    dailyNotionalLimitUsd := l.dailyNotionalLimitUsd.map ofRat
    maxOrderQuantity := l.maxOrderQuantity.map ofRat
    maxOrderNotionalUsd := l.maxOrderNotionalUsd.map ofRat
    priceBandFraction := l.priceBandFraction.map ofRat
    maxExecutionSlippage := l.maxExecutionSlippage.map ofRat
    maxPositionQuantity := l.maxPositionQuantity.map ofRat
    maxGrossExposureUsd := l.maxGrossExposureUsd.map ofRat }

def doubleCounters (c : Counters ℚ) : Counters Float64 :=
  { c with
    livePnl := ofRat c.livePnl
    simulatedPnl := ofRat c.simulatedPnl
    livePeak := ofRat c.livePeak
    simulatedPeak := ofRat c.simulatedPeak
    dailyNotional := ofRat c.dailyNotional }

def doubleOverrides (o : Overrides ℚ) : Overrides Float64 :=
  { o with
    bypassExpiresAt := o.bypassExpiresAt.map ofRat
    runtimeMaxOrderNotional := o.runtimeMaxOrderNotional.map ofRat
    runtimeMaxOrderQuantity := o.runtimeMaxOrderQuantity.map ofRat }

def doubleDecision (d : RiskDecision ℚ) : RiskDecision Float64 :=
  { d with limit := d.limit.map ofRat, observed := d.observed.map ofRat }

structure Doubled (e : PreTradeRiskEngine ℚ) (x : PreTradeRiskEngine Float64) : Prop where
  limits : x.limits.toLimitFields = doubleLimits e.limits.toLimitFields
  isLive : x.isLive = e.isLive
  counters : x.counters = doubleCounters e.counters
  rateWindow : x.rateWindow = e.rateWindow
  duplicateWindow : x.duplicateWindow = e.duplicateWindow
  overrides : x.overrides = doubleOverrides e.overrides

def ExactLimits (l : LimitFields ℚ) : Prop := ∀ name x, (name, some x) ∈ l.amounts → Representable x

structure ExactCounters (c : Counters ℚ) : Prop where
  pnl : ∀ leg, Representable (c.legPnl leg)
  peak : ∀ leg, Representable (c.legPeak leg)
  dailyNotional : Representable c.dailyNotional

structure ExactOverrides (o : Overrides ℚ) : Prop where
  bypassExpiresAt : ∀ x ∈ o.bypassExpiresAt, Representable x
  runtimeMaxOrderNotional : ∀ x ∈ o.runtimeMaxOrderNotional, Representable x
  runtimeMaxOrderQuantity : ∀ x ∈ o.runtimeMaxOrderQuantity, Representable x

structure ExactRequest (r : OrderRequest ℚ) : Prop where
  quantity : Representable r.quantity
  limitPrice : ∀ x ∈ r.limitPrice, Representable x
  decisionPrice : ∀ x ∈ r.decisionPrice, Representable x
  bestBid : ∀ x ∈ r.bestBid, Representable x
  bestAsk : ∀ x ∈ r.bestAsk, Representable x
  referencePrice : ∀ x ∈ r.referencePrice, Representable x
  positionQuantity : Representable r.positionQuantity
  grossExposureUsd : Representable r.grossExposureUsd
  opposingRestingQuantity : Representable r.opposingRestingQuantity

/-- What the controls that are configured compute of an order are doubles
too. -/
structure ExactResults (l : LimitFields ℚ) (isLive : Bool) (c : Counters ℚ) (r : OrderRequest ℚ) : Prop where
  floor : ∀ limit ∈ l.dailyLossLimitUsd, Representable (c.legPeak isLive - limit)
  notional : ∀ notional ∈ r.notionalUsd, Representable notional
  midpoint : ∀ _band ∈ l.priceBandFraction, r.referencePrice = none →
    ∀ bid ∈ r.bestBid, ∀ ask ∈ r.bestAsk, Representable (bid + ask)
  reference : ∀ _band ∈ l.priceBandFraction, ∀ reference ∈ r.bandReferencePrice, Representable reference
  deviation : ∀ _band ∈ l.priceBandFraction, ∀ price ∈ r.limitPrice, ∀ reference ∈ r.bandReferencePrice,
    Representable (price - reference) ∧ Representable (deviation price reference)
  slippage : ∀ _cap ∈ l.maxExecutionSlippage, ∀ decisionPrice ∈ r.decisionPrice, ∀ touch ∈ r.touch,
    Representable (slippage r decisionPrice touch)
  position : ∀ _cap ∈ l.maxPositionQuantity, Representable r.projectedPosition ∧
    Representable (r.positionQuantity * r.projectedPosition)
  grossExposure : ∀ _cap ∈ l.maxGrossExposureUsd, ∀ notional ∈ r.notionalUsd,
    Representable (r.grossExposureUsd + pyAbs notional)
  dailyNotional : ∀ _cap ∈ l.dailyNotionalLimitUsd, ∀ notional ∈ r.notionalUsd,
    Representable (c.dailyNotional + pyAbs notional)

/-- No number in an evaluation has to be rounded. -/
structure Exact (l : LimitFields ℚ) (isLive : Bool) (c : Counters ℚ) (o : Overrides ℚ) (now : ℤ)
    (r : OrderRequest ℚ) : Prop where
  limits : ExactLimits l
  counters : ExactCounters c
  overrides : ExactOverrides o
  now : Representable now
  request : ExactRequest r
  results : ExactResults l isLive c r

variable {e : PreTradeRiskEngine ℚ} {x : PreTradeRiskEngine Float64} {now : ℤ} {r : OrderRequest ℚ} {p q : ℚ}

theorem ofRat_pyAbs (hp : Representable p) : pyAbs (ofRat p) = ofRat (pyAbs p) := by
  have hneg := Float64.ofRat_lt_zero_iff hp
  rw [pyAbs, pyAbs]
  by_cases h : p < 0
  · rw [if_pos h, if_pos (hneg.mpr h), Float64.ofRat_neg hp]
  · rw [if_neg h, if_neg (mt hneg.mp h)]

theorem ofRat_pyMax (hp : Representable p) (hq : Representable q) : pyMax (ofRat p) (ofRat q) = ofRat (pyMax p q) := by
  have hlt := Float64.ofRat_lt_iff hp hq
  rw [pyMax, pyMax]
  by_cases h : p < q
  · rw [if_pos h, if_pos (hlt.mpr h)]
  · rw [if_neg h, if_neg (mt hlt.mp h)]

theorem representable_pyAbs (hp : Representable p) : Representable (pyAbs p) := by
  rw [pyAbs]
  split
  · exact hp.neg
  · exact hp

theorem representable_pyMax (hp : Representable p) (hq : Representable q) : Representable (pyMax p q) := by
  rw [pyMax]
  split
  · exact hq
  · exact hp

theorem touch_doubled (r : OrderRequest ℚ) : (doubleRequest r).touch = r.touch.map ofRat :=
  (apply_ite (Option.map ofRat) _ _ _).symm

theorem valuationPrice_doubled (r : OrderRequest ℚ) : (doubleRequest r).valuationPrice = r.valuationPrice.map ofRat := by
  simp only [OrderRequest.valuationPrice, touch_doubled]
  cases hp : r.limitPrice <;> cases hd : r.decisionPrice <;> simp [doubleRequest, hp, hd]

theorem fingerprint_doubled (r : OrderRequest ℚ) : (doubleRequest r).fingerprint = r.fingerprint := by
  rw [OrderRequest.fingerprint, OrderRequest.fingerprint]
  cases hp : r.limitPrice <;> simp only [doubleRequest, hp, Option.map_some, Option.map_none] <;> rfl

theorem ExactRequest.touch (h : ExactRequest r) : ∀ touch ∈ r.touch, Representable touch := by
  intro touch htouch
  rw [OrderRequest.touch] at htouch
  split at htouch
  · exact h.bestBid touch htouch
  · exact h.bestAsk touch htouch

theorem ExactRequest.valuationPrice (h : ExactRequest r) : ∀ price ∈ r.valuationPrice, Representable price := by
  intro price hprice
  rw [OrderRequest.valuationPrice] at hprice
  split at hprice
  · next hlimit => exact h.limitPrice price (hlimit.trans hprice)
  · next _ hdecision => exact h.decisionPrice price (hdecision.trans hprice)
  · exact h.touch price hprice

theorem notionalUsd_doubled (h : ExactRequest r) : (doubleRequest r).notionalUsd = r.notionalUsd.map ofRat := by
  rw [OrderRequest.notionalUsd, OrderRequest.notionalUsd, valuationPrice_doubled]
  cases hprice : r.valuationPrice with
  | none => rfl
  | some price => exact congrArg some (Float64.ofRat_mul h.quantity (h.valuationPrice price hprice))

theorem bandReferencePrice_doubled (h : ExactRequest r) (hmidpoint : r.referencePrice = none →
    ∀ bid ∈ r.bestBid, ∀ ask ∈ r.bestAsk, Representable (bid + ask)) :
    (doubleRequest r).bandReferencePrice = r.bandReferencePrice.map ofRat := by
  have htwo : Representable ((2 : ℤ) : ℚ) := representable_intCast (by norm_num)
  rw [OrderRequest.bandReferencePrice, OrderRequest.bandReferencePrice]
  simp only [doubleRequest]
  cases hreference : r.referencePrice with
  | some price => rfl
  | none => cases hbid : r.bestBid with
    | none => rfl
    | some bid => cases hask : r.bestAsk with
      | none => rfl
      | some ask =>
          have hsum := hmidpoint hreference bid hbid ask hask
          change some ((ofRat bid + ofRat ask) / ofRat ((2 : ℤ) : ℚ)) = _
          rw [Float64.ofRat_add (h.bestBid bid hbid) (h.bestAsk ask hask), Float64.ofRat_div hsum htwo (by norm_num)]
          rfl

theorem signedMultiplier_doubled (side : Side) : (side.signedMultiplier : Float64) = ofRat side.signedMultiplier := by
  have hone : (1 : Float64) = ofRat 1 := (ofRat_of_representable representable_one).symm
  rw [Side.signedMultiplier, Side.signedMultiplier]
  split
  · rw [hone, Float64.ofRat_neg representable_one]
  · exact hone

theorem projectedPosition_doubled (h : ExactRequest r) :
    (doubleRequest r).projectedPosition = ofRat r.projectedPosition := by
  have hmultiplier : Representable r.side.signedMultiplier := by
    rw [Side.signedMultiplier]
    split
    · exact representable_one.neg
    · exact representable_one
  have hproduct : Representable (r.side.signedMultiplier * r.quantity) := by
    rw [Side.signedMultiplier]
    split
    · rw [neg_one_mul]
      exact h.quantity.neg
    · rw [one_mul]
      exact h.quantity
  change ofRat r.positionQuantity + (r.side.signedMultiplier : Float64) * ofRat r.quantity = _
  rw [signedMultiplier_doubled, Float64.ofRat_mul hmultiplier h.quantity, Float64.ofRat_add h.positionQuantity hproduct]
  rfl

theorem Doubled.legPnl (h : Doubled e x) : x.legPnl = ofRat e.legPnl := by
  rw [PreTradeRiskEngine.legPnl, PreTradeRiskEngine.legPnl, h.counters, h.isLive]
  exact (apply_ite ofRat _ _ _).symm

theorem Doubled.legPeak (h : Doubled e x) : x.legPeak = ofRat e.legPeak := by
  rw [PreTradeRiskEngine.legPeak, PreTradeRiskEngine.legPeak, h.counters, h.isLive]
  exact (apply_ite ofRat _ _ _).symm

theorem Doubled.effectiveMaxOrderNotional (h : Doubled e x) :
    x.effectiveMaxOrderNotional = e.effectiveMaxOrderNotional.map ofRat := by
  rw [PreTradeRiskEngine.effectiveMaxOrderNotional, PreTradeRiskEngine.effectiveMaxOrderNotional, h.overrides, h.limits]
  cases hcap : e.overrides.runtimeMaxOrderNotional <;> simp [doubleOverrides, doubleLimits, hcap]

theorem Doubled.effectiveMaxOrderQuantity (h : Doubled e x) :
    x.effectiveMaxOrderQuantity = e.effectiveMaxOrderQuantity.map ofRat := by
  rw [PreTradeRiskEngine.effectiveMaxOrderQuantity, PreTradeRiskEngine.effectiveMaxOrderQuantity, h.overrides, h.limits]
  cases hcap : e.overrides.runtimeMaxOrderQuantity <;> simp [doubleOverrides, doubleLimits, hcap]

/-- Doubled, and nothing to round for an order at a reading. -/
structure Paired (now : ℤ) (r : OrderRequest ℚ) (e : PreTradeRiskEngine ℚ) (x : PreTradeRiskEngine Float64) : Prop
    extends Doubled e x where
  exact : Exact e.limits.toLimitFields e.isLive e.counters e.overrides now r

theorem Paired.effectiveMaxOrderNotional_exact (h : Paired now r e x) :
    ∀ cap ∈ e.effectiveMaxOrderNotional, Representable cap := by
  intro cap hcap
  rw [PreTradeRiskEngine.effectiveMaxOrderNotional] at hcap
  split at hcap
  · next hruntime => exact h.exact.overrides.runtimeMaxOrderNotional cap (hruntime.trans hcap)
  · exact h.exact.limits "max_order_notional_usd" cap (by simp [LimitFields.amounts, Option.mem_def.mp hcap])

theorem Paired.effectiveMaxOrderQuantity_exact (h : Paired now r e x) :
    ∀ cap ∈ e.effectiveMaxOrderQuantity, Representable cap := by
  intro cap hcap
  rw [PreTradeRiskEngine.effectiveMaxOrderQuantity] at hcap
  split at hcap
  · next hruntime => exact h.exact.overrides.runtimeMaxOrderQuantity cap (hruntime.trans hcap)
  · exact h.exact.limits "max_order_quantity" cap (by simp [LimitFields.amounts, Option.mem_def.mp hcap])

theorem bypassActive_doubled (ho : ExactOverrides e.overrides) (hnow : Representable now) (h : Doubled e x) :
    x.bypassActive now = e.bypassActive now := by
  rw [PreTradeRiskEngine.bypassActive, PreTradeRiskEngine.bypassActive, h.overrides, Overrides.bypassActive,
    Overrides.bypassActive]
  simp only [doubleOverrides]
  cases hexpires : e.overrides.bypassExpiresAt with
  | none => cases e.overrides.bypassLossLimit <;> rfl
  | some expiresAt => cases e.overrides.bypassLossLimit with
    | false => rfl
    | true => exact decide_eq_decide.mpr (Float64.ofRat_lt_iff hnow (ho.bypassExpiresAt expiresAt hexpires))

theorem Paired.floor (h : Paired now r e x) : x.floor = e.floor.map ofRat := by
  rw [PreTradeRiskEngine.floor, PreTradeRiskEngine.floor, h.limits, h.legPeak]
  simp only [doubleLimits]
  cases hlimit : e.limits.dailyLossLimitUsd with
  | none => rfl
  | some limit =>
      have hl := h.exact.limits "daily_loss_limit_usd" limit (by simp [LimitFields.amounts, hlimit])
      exact congrArg some (Float64.ofRat_sub (h.exact.counters.peak e.isLive) hl)

theorem Paired.breached (h : Paired now r e x) : x.breached now = e.breached now := by
  rw [PreTradeRiskEngine.breached, PreTradeRiskEngine.breached, h.floor,
    bypassActive_doubled h.exact.overrides h.exact.now h.toDoubled, h.legPnl, PreTradeRiskEngine.floor]
  cases hlimit : e.limits.dailyLossLimitUsd with
  | none => rfl
  | some limit =>
      have hiff : ofRat e.legPnl ≤ ofRat (e.legPeak - limit) ↔ e.legPnl ≤ e.legPeak - limit :=
        Float64.ofRat_le_iff (h.exact.counters.pnl e.isLive) (h.exact.results.floor limit hlimit)
      simp only [Option.map_some, hiff]

def double (answer : Except PyError (Verdict ℚ)) : Except PyError (Verdict Float64) :=
  answer.map (Option.map doubleDecision)

theorem double_compare {P Q : Prop} [Decidable P] [Decidable Q] {d : RiskDecision ℚ} {d' : RiskDecision Float64}
    (h : Q ↔ P) (hd : d' = doubleDecision d) :
    (if Q then .ok none else .ok (some d')) = double (if P then .ok none else .ok (some d)) := by
  by_cases hp : P
  · rw [if_pos hp, if_pos (h.mpr hp)]
    rfl
  · rw [if_neg hp, if_neg (mt h.mp hp), hd]
    rfl

theorem toFloat_doubled (n : ℤ) : toFloat Float64 n = (toFloat ℚ n).map ofRat := by
  have hfits : PyFloat.fits ℚ n = PyFloat.fits Float64 n := rfl
  rw [toFloat, toFloat, hfits]
  cases PyFloat.fits Float64 n <;> rfl

theorem checkKillSwitch_doubled (files : Files) (h : Doubled e x) :
    checkKillSwitch files x = double (checkKillSwitch files e) := by
  have hpath : x.limits.killSwitchPath = e.limits.killSwitchPath := by rw [h.limits]; rfl
  have hengaged : killSwitchEngaged files x = killSwitchEngaged files e := by
    rw [killSwitchEngaged, killSwitchEngaged, hpath]
  rw [checkKillSwitch, checkKillSwitch, hengaged, hpath]
  exact double_compare Iff.rfl rfl

theorem checkLossLimit_doubled (h : Paired now r e x) : checkLossLimit x now = double (checkLossLimit e now) := by
  have hlimit : x.limits.dailyLossLimitUsd = e.limits.dailyLossLimitUsd.map ofRat := by rw [h.limits]; rfl
  simp only [checkLossLimit, h.breached, h.legPnl, h.legPeak, h.floor, h.isLive, hlimit]
  by_cases hbreached : e.breached now = true
  · simp only [hbreached, not_true_eq_false, if_false]
    cases e.floor with
    | none => rfl
    | some floor => cases e.limits.dailyLossLimitUsd with
      | none => rfl
      | some limit => rfl
  · simp only [hbreached]
    rfl

theorem checkInstrumentPermitted_doubled (h : Doubled e x) :
    checkInstrumentPermitted x (doubleRequest r) = double (checkInstrumentPermitted e r) := by
  have hpermitted : x.limits.permittedInstruments = e.limits.permittedInstruments := by rw [h.limits]; rfl
  rw [checkInstrumentPermitted, checkInstrumentPermitted, hpermitted]
  cases e.limits.permittedInstruments with
  | none => rfl
  | some permitted => exact double_compare Iff.rfl rfl

theorem checkInstrumentRestricted_doubled (h : Doubled e x) :
    checkInstrumentRestricted x (doubleRequest r) = double (checkInstrumentRestricted e r) := by
  have hrestricted : x.limits.restrictedInstruments = e.limits.restrictedInstruments := by rw [h.limits]; rfl
  rw [checkInstrumentRestricted, checkInstrumentRestricted, hrestricted]
  exact double_compare Iff.rfl rfl

theorem checkSessionState_doubled (h : Doubled e x) :
    checkSessionState x (doubleRequest r) = double (checkSessionState e r) := by
  have htradeable : x.limits.tradeableSessionStates = e.limits.tradeableSessionStates := by rw [h.limits]; rfl
  rw [checkSessionState, checkSessionState, htradeable]
  cases e.limits.tradeableSessionStates with
  | none => rfl
  | some tradeable => exact double_compare Iff.rfl rfl

theorem checkShortSaleLocate_doubled (r : OrderRequest ℚ) :
    checkShortSaleLocate (doubleRequest r) = double (checkShortSaleLocate r) := double_compare Iff.rfl rfl

theorem checkQuantitySign_doubled (h : ExactRequest r) :
    checkQuantitySign (doubleRequest r) = double (checkQuantitySign r) :=
  double_compare (Float64.zero_lt_ofRat_iff h.quantity) rfl

theorem checkPriceSign_doubled (h : ExactRequest r) : checkPriceSign (doubleRequest r) = double (checkPriceSign r) := by
  rw [checkPriceSign, checkPriceSign]
  simp only [doubleRequest]
  cases hprice : r.limitPrice with
  | none => rfl
  | some price => exact double_compare (Float64.zero_lt_ofRat_iff (h.limitPrice price hprice)) rfl

theorem checkNotionalSign_doubled (h : Paired now r e x) :
    checkNotionalSign (doubleRequest r) = double (checkNotionalSign r) := by
  rw [checkNotionalSign, checkNotionalSign, notionalUsd_doubled h.exact.request]
  cases hnotional : r.notionalUsd with
  | none => rfl
  | some notional => exact double_compare (Float64.zero_lt_ofRat_iff (h.exact.results.notional notional hnotional)) rfl

theorem checkMaxQuantity_doubled (h : Paired now r e x) :
    checkMaxQuantity x (doubleRequest r) = double (checkMaxQuantity e r) := by
  rw [checkMaxQuantity, checkMaxQuantity, h.effectiveMaxOrderQuantity]
  cases hcap : e.effectiveMaxOrderQuantity with
  | none => rfl
  | some cap =>
      have hiff : ofRat r.quantity ≤ ofRat cap ↔ r.quantity ≤ cap :=
        Float64.ofRat_le_iff h.exact.request.quantity (h.effectiveMaxOrderQuantity_exact cap hcap)
      exact double_compare hiff rfl

theorem checkMaxNotional_doubled (h : Paired now r e x) :
    checkMaxNotional x (doubleRequest r) = double (checkMaxNotional e r) := by
  rw [checkMaxNotional, checkMaxNotional, notionalUsd_doubled h.exact.request, h.effectiveMaxOrderNotional]
  cases hnotional : r.notionalUsd with
  | none => rfl
  | some notional => cases hcap : e.effectiveMaxOrderNotional with
    | none => rfl
    | some cap =>
        have hn := h.exact.results.notional notional hnotional
        exact double_compare (Float64.ofRat_le_iff hn (h.effectiveMaxOrderNotional_exact cap hcap)) rfl

theorem checkQuoteAge_doubled (h : Doubled e x) : checkQuoteAge x (doubleRequest r) = double (checkQuoteAge e r) := by
  have hmax : x.limits.maxQuoteAgeMillis = e.limits.maxQuoteAgeMillis := by rw [h.limits]; rfl
  rw [checkQuoteAge, checkQuoteAge, hmax]
  simp only [doubleRequest]
  cases r.quoteAgeMillis with
  | none => rfl
  | some age => cases e.limits.maxQuoteAgeMillis with
    | none => rfl
    | some maxAge =>
        simp only [operand_some, ok_bind, toFloat_doubled, pure_eq_ok]
        by_cases hage : age ≤ maxAge
        · simp only [hage, if_true]
          rfl
        · simp only [hage, if_false]
          cases toFloat ℚ maxAge with
          | error y => rfl
          | ok limit => cases toFloat ℚ age with
            | error y => rfl
            | ok observed => rfl

theorem checkPriceBand_doubled (h : Paired now r e x) (harmed : e.limits.priceBandFraction.isSome = true) :
    checkPriceBand x (doubleRequest r) = double (checkPriceBand e r) := by
  obtain ⟨band, hband⟩ := Option.isSome_iff_exists.mp harmed
  have hband' : x.limits.priceBandFraction = some (ofRat band) := by
    rw [h.limits]
    exact congrArg (Option.map ofRat) hband
  have hb := h.exact.limits "price_band_fraction" band (by simp [LimitFields.amounts, hband])
  rw [checkPriceBand, checkPriceBand, bandReferencePrice_doubled h.exact.request (h.exact.results.midpoint band hband)]
  cases hprice : r.limitPrice with
  | none =>
      simp only [doubleRequest, hprice, Option.map_none]
      rfl
  | some price => cases hreference : r.bandReferencePrice with
    | none =>
        simp only [doubleRequest, hprice, Option.map_some, Option.map_none]
        rfl
    | some reference =>
        have hp := h.exact.request.limitPrice price hprice
        have hr := h.exact.results.reference band hband reference hreference
        obtain ⟨hdifference, hdeviation⟩ := h.exact.results.deviation band hband price hprice reference hreference
        simp only [doubleRequest, hprice, Option.map_some, Float64.ofRat_le_zero_iff hr]
        by_cases hpos : reference ≤ 0
        · rw [if_pos hpos, if_pos hpos]
          rfl
        · have hpos' : ¬ ofRat reference ≤ 0 := mt (Float64.ofRat_le_zero_iff hr).mp hpos
          have hne : reference ≠ 0 := fun h => hpos h.le
          rw [if_neg hpos, if_neg hpos, pyDiv_of_not_le hpos, pyDiv_of_not_le hpos', hband, hband',
            Float64.ofRat_sub hp hr, ofRat_pyAbs hdifference, Float64.ofRat_div (representable_pyAbs hdifference) hr hne]
          have hiff : ofRat (deviation price reference) ≤ ofRat band ↔ deviation price reference ≤ band :=
            Float64.ofRat_le_iff hdeviation hb
          exact double_compare hiff rfl

theorem checkExecutionSlippage_doubled (h : Paired now r e x) (harmed : e.limits.maxExecutionSlippage.isSome = true) :
    checkExecutionSlippage x (doubleRequest r) = double (checkExecutionSlippage e r) := by
  obtain ⟨cap, hcap⟩ := Option.isSome_iff_exists.mp harmed
  have hcap' : x.limits.maxExecutionSlippage = some (ofRat cap) := by
    rw [h.limits]
    exact congrArg (Option.map ofRat) hcap
  have hc := h.exact.limits "max_execution_slippage" cap (by simp [LimitFields.amounts, hcap])
  rw [checkExecutionSlippage, checkExecutionSlippage, touch_doubled, hcap, hcap']
  cases hdecision : r.decisionPrice with
  | none =>
      simp only [doubleRequest, hdecision, Option.map_none]
      rfl
  | some decisionPrice => cases htouch : r.touch with
    | none =>
        simp only [doubleRequest, hdecision, Option.map_some, Option.map_none]
        rfl
    | some touch =>
        have hd := h.exact.request.decisionPrice decisionPrice hdecision
        have ht := h.exact.request.touch touch htouch
        have hslippage := h.exact.results.slippage cap hcap decisionPrice hdecision touch htouch
        have heq : (if r.side.isSell then ofRat decisionPrice - ofRat touch else ofRat touch - ofRat decisionPrice) =
            ofRat (slippage r decisionPrice touch) := by
          rw [Float64.ofRat_sub hd ht, Float64.ofRat_sub ht hd]
          exact (apply_ite ofRat _ _ _).symm
        simp only [doubleRequest, hdecision, Option.map_some, heq]
        have hiff : ofRat (slippage r decisionPrice touch) ≤ ofRat cap ↔ slippage r decisionPrice touch ≤ cap :=
          Float64.ofRat_le_iff hslippage hc
        exact double_compare hiff rfl

theorem duplicateVerdict_doubled (window : Option Windows.DuplicateWindow) (span : Option ℤ) (r : OrderRequest ℚ) :
    duplicateVerdict window span (doubleRequest r) = double (duplicateVerdict window span r) := by
  rw [duplicateVerdict, duplicateVerdict, fingerprint_doubled]
  cases window with
  | none => rfl
  | some window => cases span with
    | none =>
        simp only [operand_some, ok_bind]
        split <;> rfl
    | some span =>
        simp only [operand_some, ok_bind, toFloat_doubled]
        split
        · rfl
        · cases toFloat ℚ span <;> rfl

theorem rateVerdict_doubled (window : Windows.RateWindow) (cap : Option ℤ) (span : ℤ) :
    rateVerdict window cap span = double (rateVerdict window cap span) := by
  rw [rateVerdict, rateVerdict]
  cases cap with
  | none => rfl
  | some cap =>
      simp only [operand_some, ok_bind, toFloat_doubled]
      split
      · rfl
      · cases toFloat ℚ cap with
        | error y => rfl
        | ok limit => cases toFloat ℚ window.events.length <;> rfl

theorem checkBelow_doubled (code : RejectCode) (control : String) (count : ℤ) (cap : Option ℤ)
    (message : String → String → String) :
    checkBelow code control count cap message = double (checkBelow code control count cap message) := by
  rw [checkBelow, checkBelow]
  cases cap with
  | none => rfl
  | some cap =>
      simp only [operand_some, ok_bind, toFloat_doubled]
      split
      · rfl
      · cases toFloat ℚ cap with
        | error y => rfl
        | ok limit => cases toFloat ℚ count <;> rfl

theorem checkPositionLimit_doubled (h : Paired now r e x) (harmed : e.limits.maxPositionQuantity.isSome = true) :
    checkPositionLimit x (doubleRequest r) = double (checkPositionLimit e r) := by
  obtain ⟨cap, hcap⟩ := Option.isSome_iff_exists.mp harmed
  have hcap' : x.limits.maxPositionQuantity = some (ofRat cap) := by
    rw [h.limits]
    exact congrArg (Option.map ofRat) hcap
  have hc := h.exact.limits "max_position_quantity" cap (by simp [LimitFields.amounts, hcap])
  obtain ⟨hposition, hproduct⟩ := h.exact.results.position cap hcap
  have hquantity := h.exact.request.positionQuantity
  have hwithin : pyAbs (ofRat r.projectedPosition) ≤ ofRat cap ↔ pyAbs r.projectedPosition ≤ cap := by
    rw [ofRat_pyAbs hposition]
    exact Float64.ofRat_le_iff (representable_pyAbs hposition) hc
  have hreduces : pyAbs (ofRat r.projectedPosition) < pyAbs (ofRat r.positionQuantity) ↔
      pyAbs r.projectedPosition < pyAbs r.positionQuantity := by
    rw [ofRat_pyAbs hposition, ofRat_pyAbs hquantity]
    exact Float64.ofRat_lt_iff (representable_pyAbs hposition) (representable_pyAbs hquantity)
  have hflips : ofRat r.positionQuantity * ofRat r.projectedPosition < 0 ↔
      r.positionQuantity * r.projectedPosition < 0 := by
    rw [Float64.ofRat_mul hquantity hposition]
    exact Float64.ofRat_lt_zero_iff hproduct
  have hcurrent : (doubleRequest r).positionQuantity = ofRat r.positionQuantity := rfl
  simp only [checkPositionLimit, projectedPosition_doubled h.exact.request, hcap, hcap', hcurrent, operand_some, ok_bind,
    pure_eq_ok, hwithin, hreduces, hflips]
  by_cases hle : pyAbs r.projectedPosition ≤ cap
  · rw [if_pos hle, if_pos hle]
    rfl
  · rw [if_neg hle, if_neg hle]
    exact double_compare Iff.rfl (by rw [ofRat_pyAbs hposition]; rfl)

theorem checkSelfMatch_doubled (h : ExactRequest r) : checkSelfMatch (doubleRequest r) = double (checkSelfMatch r) :=
  double_compare (Float64.ofRat_le_zero_iff h.opposingRestingQuantity) rfl

theorem checkProjected_doubled (code : RejectCode) (control : String) (message : String → String) {used : ℚ}
    {cap : Option ℚ} (hr : ExactRequest r) (hnotional : ∀ notional ∈ r.notionalUsd, Representable notional)
    (hused : Representable used) (hcap : ∀ limit ∈ cap, Representable limit)
    (hprojected : ∀ _limit ∈ cap, ∀ notional ∈ r.notionalUsd, Representable (used + pyAbs notional)) :
    checkProjected code control (doubleRequest r) (ofRat used) (cap.map ofRat) message =
      double (checkProjected code control r used cap message) := by
  rw [checkProjected, checkProjected, notionalUsd_doubled hr]
  cases horder : r.notionalUsd with
  | none => rfl
  | some notional => cases hlimit : cap with
    | none => rfl
    | some limit =>
        have hn := hnotional notional horder
        have hsum := hprojected limit hlimit notional horder
        have hiff : ofRat (used + pyAbs notional) ≤ ofRat limit ↔ used + pyAbs notional ≤ limit :=
          Float64.ofRat_le_iff hsum (hcap limit hlimit)
        simp only [Option.map_some, ofRat_pyAbs hn, Float64.ofRat_add hused (representable_pyAbs hn)]
        exact double_compare hiff rfl

theorem checkGrossExposure_doubled (h : Paired now r e x) :
    checkGrossExposure x (doubleRequest r) = double (checkGrossExposure e r) := by
  have hcap : x.limits.maxGrossExposureUsd = e.limits.maxGrossExposureUsd.map ofRat := by rw [h.limits]; rfl
  rw [checkGrossExposure, checkGrossExposure, hcap]
  exact checkProjected_doubled _ _ _ h.exact.request h.exact.results.notional h.exact.request.grossExposureUsd
    (fun limit hlimit => h.exact.limits "max_gross_exposure_usd" limit
      (by simp [LimitFields.amounts, Option.mem_def.mp hlimit]))
    h.exact.results.grossExposure

theorem checkDailyNotional_doubled (h : Paired now r e x) :
    checkDailyNotional x (doubleRequest r) = double (checkDailyNotional e r) := by
  have hcap : x.limits.dailyNotionalLimitUsd = e.limits.dailyNotionalLimitUsd.map ofRat := by rw [h.limits]; rfl
  have hused : x.counters.dailyNotional = ofRat e.counters.dailyNotional := by rw [h.counters]; rfl
  rw [checkDailyNotional, checkDailyNotional, hcap, hused]
  exact checkProjected_doubled _ _ _ h.exact.request h.exact.results.notional h.exact.counters.dailyNotional
    (fun limit hlimit => h.exact.limits "daily_notional_limit_usd" limit
      (by simp [LimitFields.amounts, Option.mem_def.mp hlimit]))
    h.exact.results.dailyNotional

def pairedSequence : List (Control ℚ × Control Float64) := controlSequence.zip controlSequence

theorem pairedSequence_fst : pairedSequence.map Prod.fst = controlSequence := List.map_fst_zip le_rfl

theorem pairedSequence_snd : pairedSequence.map Prod.snd = controlSequence := List.map_snd_zip le_rfl

theorem Paired.pruneWindows (h : Paired now r e x) (rate duplicates : Bool) :
    Paired now r (e.pruneWindows rate duplicates now) (x.pruneWindows rate duplicates now) where
  limits := h.limits
  isLive := h.isLive
  counters := h.counters
  rateWindow := by simp only [PreTradeRiskEngine.pruneWindows, h.rateWindow]
  duplicateWindow := by simp only [PreTradeRiskEngine.pruneWindows, h.duplicateWindow]
  overrides := h.overrides
  exact := h.exact

abbrev Alike (now : ℤ) (r : OrderRequest ℚ) (answer : Except PyError (Verdict ℚ × PreTradeRiskEngine ℚ))
    (answer' : Except PyError (Verdict Float64 × PreTradeRiskEngine Float64)) : Prop :=
  Lockstep (fun d d' => d' = doubleDecision d) (Paired now r) answer answer'

theorem alike_of_double {answer : Except PyError (Verdict ℚ)} {answer' : Except PyError (Verdict Float64)}
    (h : answer' = double answer) (hp : Paired now r e x) : Alike now r (answer.map (·, e)) (answer'.map (·, x)) := by
  subst h
  rcases answer with y | _ | d
  · exact .raise y
  · exact .pass hp
  · exact .object rfl hp

theorem checkDuplicate_alike (h : Paired now r e x) :
    Alike now r (checkDuplicate e r now) (checkDuplicate x (doubleRequest r) now) := by
  have hspan : x.limits.duplicateWindowMillis = e.limits.duplicateWindowMillis := by rw [h.limits]; rfl
  rw [checkDuplicate_eq, checkDuplicate_eq, h.duplicateWindow, hspan, duplicateVerdict_doubled]
  exact alike_of_double rfl (h.pruneWindows false true)

theorem checkOrderRate_alike (h : Paired now r e x) : Alike now r (checkOrderRate e now) (checkOrderRate x now) := by
  have hcap : x.limits.maxOrdersPerWindow = e.limits.maxOrdersPerWindow := by rw [h.limits]; rfl
  have hspan : x.limits.orderRateWindowMillis = e.limits.orderRateWindowMillis := by rw [h.limits]; rfl
  rw [checkOrderRate_eq, checkOrderRate_eq, h.rateWindow, hcap, hspan, rateVerdict_doubled]
  exact alike_of_double rfl (h.pruneWindows true false)

theorem isArmed_doubled (h : Doubled e x) : ∀ g ∈ pairedSequence, g.2.isArmed x = g.1.isArmed e := by
  simp [pairedSequence, controlSequence, Control.reading, h.limits, doubleLimits, h.duplicateWindow,
    h.effectiveMaxOrderNotional, h.effectiveMaxOrderQuantity]

theorem id_doubled : ∀ g ∈ pairedSequence, g.2.id = g.1.id := by
  simp [pairedSequence, controlSequence, Control.reading]

theorem runs_doubled (h : Doubled e x) : ∀ g ∈ pairedSequence, runs x g.2 = runs e g.1 := by
  intro g hg
  have hdisabled : x.limits.disabledControls = e.limits.disabledControls := by rw [h.limits]; rfl
  rw [runs, runs, isArmed_doubled h g hg, RiskLimits.isDisabled, RiskLimits.isDisabled, hdisabled, id_doubled g hg]

theorem controlSequence_alike (files : Files) (h : Paired now r e x) : ∀ g ∈ pairedSequence, g.1.isArmed e = true →
    Alike now r (g.1.check files e r now) (g.2.check files x (doubleRequest r) now) := by
  have hcounts : x.counters.consecutiveRejects = e.counters.consecutiveRejects ∧
      x.counters.executionsSinceRearm = e.counters.executionsSinceRearm := by rw [h.counters]; exact ⟨rfl, rfl⟩
  have hlimits : x.limits.toLimitFields = doubleLimits e.limits.toLimitFields := h.limits
  simp only [pairedSequence, controlSequence, List.zip_cons_cons, List.zip_nil_right, List.forall_mem_cons,
    List.not_mem_nil, false_implies, implies_true, and_true, Control.reading]
  refine ⟨fun _ => alike_of_double (checkKillSwitch_doubled files h.toDoubled) h,
    fun _ => alike_of_double (checkLossLimit_doubled h) h,
    fun _ => alike_of_double (checkInstrumentPermitted_doubled h.toDoubled) h,
    fun _ => alike_of_double (checkInstrumentRestricted_doubled h.toDoubled) h,
    fun _ => alike_of_double (checkSessionState_doubled h.toDoubled) h,
    fun _ => alike_of_double (checkShortSaleLocate_doubled r) h,
    fun _ => alike_of_double (checkQuantitySign_doubled h.exact.request) h,
    fun _ => alike_of_double (checkPriceSign_doubled h.exact.request) h,
    fun _ => alike_of_double (checkNotionalSign_doubled h) h,
    fun _ => alike_of_double (checkMaxQuantity_doubled h) h,
    fun _ => alike_of_double (checkMaxNotional_doubled h) h,
    fun _ => alike_of_double (checkQuoteAge_doubled h.toDoubled) h,
    fun harmed => alike_of_double (checkPriceBand_doubled h harmed) h,
    fun harmed => alike_of_double (checkExecutionSlippage_doubled h harmed) h,
    fun _ => checkDuplicate_alike h, fun _ => checkOrderRate_alike h,
    fun _ => alike_of_double ?_ h, fun _ => alike_of_double ?_ h, fun _ => alike_of_double ?_ h,
    fun _ => alike_of_double ?_ h,
    fun harmed => alike_of_double (checkPositionLimit_doubled h harmed) h,
    fun _ => alike_of_double (checkSelfMatch_doubled h.exact.request) h,
    fun _ => alike_of_double (checkGrossExposure_doubled h) h,
    fun _ => alike_of_double (checkDailyNotional_doubled h) h⟩
  · rw [checkConsecutiveRejects, checkConsecutiveRejects, hlimits, hcounts.1]
    exact checkBelow_doubled _ _ _ _ _
  · rw [checkRepeatedExecution, checkRepeatedExecution, hlimits, hcounts.2]
    exact checkBelow_doubled _ _ _ _ _
  · rw [checkWorkingOrders, checkWorkingOrders, hlimits]
    exact checkBelow_doubled _ _ _ _ _
  · rw [checkOpenPositions, checkOpenPositions, hlimits]
    exact checkBelow_doubled _ _ _ _ _

theorem firstObjection_alike (files : Files) (h : Paired now r e x) :
    Alike now r (firstObjection runs (fun c e => c.check files e r now) controlSequence e)
      (firstObjection runs (fun c x => c.check files x (doubleRequest r) now) controlSequence x) := by
  rw [← pairedSequence_fst, ← pairedSequence_snd, firstObjection_map, firstObjection_map]
  exact firstObjection_lockstep (fun g hg _ _ h => runs_doubled h.toDoubled g hg)
    (fun g hg _ _ h hruns => controlSequence_alike files h g hg (isArmed_of_runs hruns)) h

theorem roll_doubled (c : Counters ℚ) (day : String) : (doubleCounters c).roll day = doubleCounters (c.roll day) := by
  by_cases hday : day = c.tradingDay
  · rw [Counters.roll_of_eq hday]
    exact Counters.roll_of_eq hday
  · have hroll : (doubleCounters c).roll day = .dayStart day c.executionsSinceRearm := Counters.roll_of_ne hday
    rw [Counters.roll_of_ne hday, hroll]
    simp only [doubleCounters, Counters.dayStart, Float64.zero_eq_ofRat]

theorem Doubled.today (h : Doubled e x) (now : ℤ) : x.today now = e.today now := by
  have hroll : x.limits.sessionRollMillis = e.limits.sessionRollMillis := by rw [h.limits]; rfl
  rw [PreTradeRiskEngine.today, PreTradeRiskEngine.today, hroll]

theorem Doubled.withCounters (h : Doubled e x) (c : Counters ℚ) :
    Doubled (e.withCounters c) (x.withCounters (doubleCounters c)) where
  limits := h.limits
  isLive := h.isLive
  counters := rfl
  rateWindow := h.rateWindow
  duplicateWindow := h.duplicateWindow
  overrides := h.overrides

theorem Doubled.rollTo (h : Doubled e x) (day : String) : Doubled (e.rollTo day) (x.rollTo day) := by
  rw [PreTradeRiskEngine.rollTo, PreTradeRiskEngine.rollTo, h.counters, roll_doubled]
  exact h.withCounters _

/-- The decision as doubles, with the same message, or the same error; and the
engines stay a pair. -/
theorem evaluate_doubled {day : String} (files : Files) (h : Doubled e x) (hday : e.today now = .ok day)
    (hexact : Exact e.limits.toLimitFields e.isLive (e.counters.roll day) e.overrides now r) :
    (∃ d f g, evaluate files e now r = .ok (d, f) ∧
        evaluate files x now (doubleRequest r) = .ok (doubleDecision d, g) ∧ Doubled f g) ∨
      ∃ y, evaluate files e now r = .error y ∧ evaluate files x now (doubleRequest r) = .error y := by
  have hpaired : Paired now r (e.rollTo day) (x.rollTo day) := { h.rollTo day with exact := hexact }
  have hwalk := firstObjection_alike files hpaired
  have hday' : x.today now = .ok day := (h.today now).trans hday
  rw [evaluate, evaluate, PreTradeRiskEngine.rollTradingDay, PreTradeRiskEngine.rollTradingDay, hday, hday']
  simp only [ok_bind, pure_eq_ok]
  generalize firstObjection runs (fun c e => c.check files e r now) controlSequence (e.rollTo day) = walk,
    firstObjection runs (fun c x => c.check files x (doubleRequest r) now) controlSequence (x.rollTo day) = walk' at hwalk
  cases hwalk with
  | pass hfg => exact .inl ⟨_, _, _, rfl, rfl, hfg.toDoubled⟩
  | object hd hfg =>
      subst hd
      exact .inl ⟨_, _, _, rfl, rfl, hfg.toDoubled⟩
  | raise y => exact .inr ⟨y, rfl, rfl⟩

theorem decision_doubled {day : String} (files : Files) (h : Doubled e x) (hday : e.today now = .ok day)
    (hexact : Exact e.limits.toLimitFields e.isLive (e.counters.roll day) e.overrides now r) :
    decision files x now (doubleRequest r) = (decision files e now r).map doubleDecision := by
  rcases evaluate_doubled files h hday hexact with ⟨d, f, g, he, hx, -⟩ | ⟨y, he, hx⟩
  · rw [decision, decision, he, hx]
    rfl
  · rw [decision, decision, he, hx]
    rfl

end PretradeRisk.Unrounded
