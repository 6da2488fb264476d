import PretradeRisk.Doubles
import PretradeRisk.Refusals
import PretradeRisk.Session

namespace PretradeRisk.FailOpen

open Decision Engine Evaluate Host Ieee Limits Orders Rulings Session Verdicts Walk
open Refusals (reject_of_firstFailing)

/-- Closer to flat, on the same side. -/
def Reduces (r : OrderRequest Float64) : Prop :=
  pyAbs r.projectedPosition < pyAbs r.positionQuantity ∧ ¬ r.positionQuantity * r.projectedPosition < 0

/-- NaN is an operand of a comparison that a control needs in order to let the
order pass, or goes into one. A position limit needs its cap where the order
does not reduce the position. -/
def ComparesNan (e : PreTradeRiskEngine Float64) (r : OrderRequest Float64) : ControlId → Prop
  | .dailyLossLimit => ∃ floor ∈ e.floor, e.legPnl = .nan ∨ floor = .nan
  | .orderQuantity => r.quantity = .nan
  | .orderPrice => r.limitPrice = some .nan
  | .orderNotional => r.notionalUsd = some .nan
  | .maxOrderQuantity => ∃ cap ∈ e.effectiveMaxOrderQuantity, r.quantity = .nan ∨ cap = .nan
  | .maxOrderNotional => ∃ cap ∈ e.effectiveMaxOrderNotional,
      r.quantity = .nan ∨ r.valuationPrice = some .nan ∨ r.notionalUsd = some .nan ∨ cap = .nan
  | .priceBand => ∃ band ∈ e.limits.priceBandFraction, ∃ price ∈ r.limitPrice,
      price = .nan ∨ r.bandReferencePrice = some .nan ∨
        (∃ reference ∈ r.bandReferencePrice, deviation price reference = .nan) ∨ band = .nan
  | .executionSlippage => ∃ maxSlippage ∈ e.limits.maxExecutionSlippage,
      r.decisionPrice = some .nan ∨ r.touch = some .nan ∨
        (∃ decisionPrice ∈ r.decisionPrice, ∃ touch ∈ r.touch, slippage r decisionPrice touch = .nan) ∨
        maxSlippage = .nan
  | .positionLimit => ∃ cap ∈ e.limits.maxPositionQuantity,
      r.quantity = .nan ∨ r.positionQuantity = .nan ∨ r.projectedPosition = .nan ∨ cap = .nan ∧ ¬ Reduces r
  | .selfMatchPrevention => r.opposingRestingQuantity = .nan
  | .grossExposure => ∃ cap ∈ e.limits.maxGrossExposureUsd,
      r.quantity = .nan ∨ r.valuationPrice = some .nan ∨ r.grossExposureUsd = .nan ∨
        (∃ notional ∈ r.notionalUsd, r.grossExposureUsd + pyAbs notional = .nan) ∨ cap = .nan
  | .dailyNotionalLimit => ∃ cap ∈ e.limits.dailyNotionalLimitUsd,
      r.quantity = .nan ∨ r.valuationPrice = some .nan ∨ e.counters.dailyNotional = .nan ∨
        (∃ notional ∈ r.notionalUsd, e.counters.dailyNotional + pyAbs notional = .nan) ∨ cap = .nan
  | _ => False

variable {files : Files} {e : PreTradeRiskEngine Float64} {now : ℤ} {r : OrderRequest Float64} {id : ControlId}

@[simp] theorem pyAbs_nan : pyAbs Float64.nan = .nan := rfl

theorem projectedPosition_of_nan (h : r.quantity = .nan ∨ r.positionQuantity = .nan) :
    r.projectedPosition = .nan := by
  rcases h with h | h <;> simp [OrderRequest.projectedPosition, h]

theorem notionalUsd_of_nan (h : r.quantity = .nan ∨ r.valuationPrice = some .nan) :
    ∀ notional ∈ r.notionalUsd, notional = .nan := by
  intro notional hnotional
  rw [OrderRequest.notionalUsd] at hnotional
  rcases h with h | h
  · cases hprice : r.valuationPrice <;> simp_all
  · simp_all

theorem not_under_of_nan {cap : Float64}
    (h : r.quantity = .nan ∨ r.valuationPrice = some .nan ∨ r.notionalUsd = some .nan ∨ cap = .nan) :
    ¬ ∃ notional ∈ r.notionalUsd, notional ≤ cap := by
  rintro ⟨notional, hnotional, hle⟩
  have hnan (hpriced : r.quantity = .nan ∨ r.valuationPrice = some .nan) : False := by
    simp [notionalUsd_of_nan hpriced notional hnotional] at hle
  rcases h with h | h | h | h
  · exact hnan (.inl h)
  · exact hnan (.inr h)
  · cases h.symm.trans hnotional
    simp at hle
  · simp [h] at hle

theorem not_fits_of_nan {used cap : Float64} (h : r.quantity = .nan ∨ r.valuationPrice = some .nan ∨ used = .nan ∨
    (∃ notional ∈ r.notionalUsd, used + pyAbs notional = .nan) ∨ cap = .nan) :
    ¬ ∃ notional ∈ r.notionalUsd, used + pyAbs notional ≤ cap := by
  rintro ⟨notional, hnotional, hle⟩
  have hnan (hpriced : r.quantity = .nan ∨ r.valuationPrice = some .nan) : False := by
    rw [notionalUsd_of_nan hpriced notional hnotional] at hle
    simp at hle
  rcases h with h | h | h | ⟨other, hother, h⟩ | h
  · exact hnan (.inl h)
  · exact hnan (.inr h)
  · simp [h] at hle
  · cases hnotional.symm.trans hother
    simp [h] at hle
  · simp [h] at hle

theorem not_in_band_of_nan {price band : Float64} (h : price = .nan ∨ r.bandReferencePrice = some .nan ∨
    (∃ reference ∈ r.bandReferencePrice, deviation price reference = .nan) ∨ band = .nan) :
    ¬ ∃ reference ∈ r.bandReferencePrice, ¬ reference ≤ 0 ∧ deviation price reference ≤ band := by
  rintro ⟨reference, hreference, -, hle⟩
  rcases h with h | h | ⟨other, hother, h⟩ | h
  · simp [h, deviation] at hle
  · cases h.symm.trans hreference
    simp [deviation] at hle
  · cases hother.symm.trans hreference
    simp [h] at hle
  · simp [h] at hle

theorem not_slipping_of_nan {maxSlippage : Float64} (h : r.decisionPrice = some .nan ∨ r.touch = some .nan ∨
    (∃ decisionPrice ∈ r.decisionPrice, ∃ touch ∈ r.touch, slippage r decisionPrice touch = .nan) ∨
    maxSlippage = .nan) :
    ¬ ∃ decisionPrice ∈ r.decisionPrice, ∃ touch ∈ r.touch, slippage r decisionPrice touch ≤ maxSlippage := by
  rintro ⟨decisionPrice, hdecision, touch, htouch, hle⟩
  have hnan (hpriced : decisionPrice = .nan ∨ touch = .nan) : slippage r decisionPrice touch = .nan := by
    rw [slippage]
    rcases hpriced with rfl | rfl <;> simp
  rcases h with h | h | ⟨decisionPrice', hdecision', touch', htouch', h⟩ | h
  · simp [hnan (.inl (Option.some.inj (hdecision.symm.trans h)))] at hle
  · simp [hnan (.inr (Option.some.inj (htouch.symm.trans h)))] at hle
  · cases hdecision.symm.trans hdecision'
    cases htouch.symm.trans htouch'
    simp [h] at hle
  · simp [h] at hle

theorem not_within_of_nan {cap : Float64}
    (h : r.quantity = .nan ∨ r.positionQuantity = .nan ∨ r.projectedPosition = .nan ∨ cap = .nan ∧ ¬ Reduces r) :
    ¬ (pyAbs r.projectedPosition ≤ cap ∨ Reduces r) := by
  intro hfits
  have hnan (hprojected : r.projectedPosition = .nan) : False := by
    simp [Reduces, hprojected] at hfits
  rcases h with h | h | h | ⟨h, hreduces⟩
  · exact hnan (projectedPosition_of_nan (.inl h))
  · exact hnan (projectedPosition_of_nan (.inr h))
  · exact hnan h
  · rcases hfits with hfits | hfits
    · simp [h] at hfits
    · exact hreduces hfits

theorem not_satisfied_of_comparesNan (hid : id ≠ .dailyLossLimit) (h : ComparesNan e r id) :
    ¬ Satisfied files e now r id := by
  cases id with
  | dailyLossLimit => exact absurd rfl hid
  | orderQuantity => simp_all [ComparesNan, Satisfied]
  | orderPrice => simp_all [ComparesNan, Satisfied]
  | orderNotional => simp_all [ComparesNan, Satisfied]
  | maxOrderQuantity =>
      obtain ⟨cap, hcap, h⟩ := h
      intro hs
      have hle := hs cap hcap
      rcases h with h | h <;> simp [h] at hle
  | maxOrderNotional =>
      obtain ⟨cap, hcap, h⟩ := h
      exact fun hs => not_under_of_nan h (hs cap hcap)
  | priceBand =>
      obtain ⟨band, hband, price, hprice, h⟩ := h
      exact fun hs => not_in_band_of_nan h (hs band hband price hprice)
  | executionSlippage =>
      obtain ⟨maxSlippage, hmax, h⟩ := h
      exact fun hs => not_slipping_of_nan h (hs maxSlippage hmax)
  | positionLimit =>
      obtain ⟨cap, hcap, h⟩ := h
      exact fun hs => not_within_of_nan h (hs cap hcap)
  | selfMatchPrevention => simp_all [ComparesNan, Satisfied]
  | grossExposure =>
      obtain ⟨cap, hcap, h⟩ := h
      exact fun hs => not_fits_of_nan h (hs cap hcap)
  | dailyNotionalLimit =>
      obtain ⟨cap, hcap, h⟩ := h
      exact fun hs => not_fits_of_nan h (hs cap hcap)
  | _ => exact h.elim

theorem satisfied_of_comparesNan (h : ComparesNan e r .dailyLossLimit) : Satisfied files e now r .dailyLossLimit := by
  obtain ⟨floor, hfloor, h⟩ := h
  rw [Satisfied, PreTradeRiskEngine.breached, hfloor]
  split
  · rfl
  · next floor' hsome =>
      cases hsome
      rcases h with h | h <;> simp [h]

def Accepts (files : Files) (e : PreTradeRiskEngine Float64) (now : ℤ) (r : OrderRequest Float64) : Prop :=
  ∃ d f, evaluate files e now r = .ok (d, f) ∧ d.accepted = true

variable {day : String}

theorem accepts_iff (hday : e.today now = .ok day) : Accepts files e now r ↔
    ∀ c ∈ controlSequence, runs e c = true → Satisfied files (e.rollTo day) now r c.id := by
  rw [← decision_eq_accepted_iff hday, Accepts, exists_decision_iff]
  constructor
  · rintro ⟨d, hd, haccepted⟩
    rcases decision_cases files r hday with ⟨hacc, -⟩ | ⟨c, hc⟩
    · exact hacc
    · obtain ⟨-, control, message, rfl⟩ := reject_of_firstFailing hc hday hd
      cases haccepted
  · exact fun h => ⟨accepted, h, rfl⟩

/-- A running control compares NaN where it must pass the order. -/
def RunsOnNan (e : PreTradeRiskEngine Float64) (r : OrderRequest Float64) (day : String)
    (ids : ControlId → Prop) : Prop :=
  ∃ c ∈ controlSequence, runs e c = true ∧ ids c.id ∧ ComparesNan (e.rollTo day) r c.id

theorem refuses_nan_iff (hday : e.today now = .ok day) :
    (RunsOnNan e r day (fun _ => True) → ¬ Accepts files e now r) ↔
      (RunsOnNan e r day (· = .dailyLossLimit) →
        ∃ c ∈ controlSequence, runs e c = true ∧ c.id ≠ .dailyLossLimit ∧
          ¬ Satisfied files (e.rollTo day) now r c.id) := by
  rw [accepts_iff hday]
  constructor
  · rintro h ⟨c, hc, hruns, hid, hnan⟩
    have hrefused := h ⟨c, hc, hruns, trivial, hnan⟩
    push Not at hrefused
    obtain ⟨b, hb, hbruns, hnot⟩ := hrefused
    refine ⟨b, hb, hbruns, fun hloss => hnot ?_, hnot⟩
    rw [hloss]
    exact satisfied_of_comparesNan (hid ▸ hnan)
  · rintro h ⟨c, hc, hruns, -, hnan⟩ hall
    by_cases hid : c.id = .dailyLossLimit
    · obtain ⟨b, hb, hbruns, -, hnot⟩ := h ⟨c, hc, hruns, hid, hnan⟩
      exact hnot (hall b hb hbruns)
    · exact not_satisfied_of_comparesNan hid hnan (hall c hc hruns)

/-- An order on which a running control compares NaN is refused exactly where
the loss limit is not that control, or another running control objects. -/
theorem nan_refused_iff (files : Files) (e : PreTradeRiskEngine Float64) (now : ℤ) (r : OrderRequest Float64) :
    (∀ day, e.today now = .ok day → RunsOnNan e r day (fun _ => True) → ¬ Accepts files e now r) ↔
      ∀ day, e.today now = .ok day → RunsOnNan e r day (· = .dailyLossLimit) →
        ∃ c ∈ controlSequence, runs e c = true ∧ c.id ≠ .dailyLossLimit ∧
          ¬ Satisfied files (e.rollTo day) now r c.id :=
  forall₂_congr fun _ hday => refuses_nan_iff hday

def lossLimits : RiskLimits Float64 := ⟨{ dailyLossLimitUsd := some (10 : ℤ) }, by decide +kernel⟩

def lossEngine : PreTradeRiskEngine Float64 := .onDay lossLimits false "2026-07-20"

theorem new_lossEngine : PreTradeRiskEngine.new lossLimits false noon = .ok lossEngine :=
  new_eq_ok.mpr ⟨_, tradingDay_noon, rfl⟩

def recorded (amounts : List Float64) : PreTradeRiskEngine Float64 :=
  lossEngine.withCounters (amounts.foldl (fun c x => CounterEvent.apply (.realizedPnl x false) c) lossEngine.counters)

def plainOrder : OrderRequest Float64 := { OrderRequest.bare "ES" .buy 1 with limitPrice := some 1 }

theorem record_amount (x : Float64) : lossEngine.recordRealizedPnl x false noon = .ok (recorded [x]) := by
  have hday : lossEngine.today noon = .ok "2026-07-20" := tradingDay_noon
  rw [PreTradeRiskEngine.recordRealizedPnl, PreTradeRiskEngine.record, PreTradeRiskEngine.rollTradingDay, hday]
  rfl

/-- A result that is NaN, and the loss limit never halts again. -/
theorem nan_accepted :
    PreTradeRiskEngine.new lossLimits false noon = .ok lossEngine ∧
      lossEngine.recordRealizedPnl .nan false noon = .ok (recorded [.nan]) ∧
      (recorded [.nan]).today noon = .ok "2026-07-20" ∧ (recorded [.nan]).bypassActive noon = false ∧
      RunsOnNan (recorded [.nan]) plainOrder "2026-07-20" (fun _ => True) ∧
      Accepts (fun _ => false) (recorded [.nan]) noon plainOrder := by
  refine ⟨new_lossEngine, record_amount .nan, tradingDay_noon, rfl, ?_, ?_⟩
  · refine ⟨controlSequence.get ⟨1, by decide⟩, List.get_mem _ _, rfl, trivial, ?_⟩
    exact ⟨_, rfl, .inl rfl⟩
  · exact exists_decision_of_any (by decide +kernel)

end PretradeRisk.FailOpen
