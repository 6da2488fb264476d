import PretradeRisk.Ieee
import PretradeRisk.Refusals
import PretradeRisk.Sending

namespace PretradeRisk.Loosening

open Admission Decision Engine Evaluate Host Ieee Limits Orders Refusals Rulings Session Verdicts Windows

/-- What is within a cap is within a larger one, and what is down by a limit is
down by a smaller one: rounding keeps both. -/
class CapsMonotone (F : Type) [Zero F] [Sub F] [LE F] : Prop where
  le_trans {x y z : F} : x ≤ y → y ≤ z → x ≤ z
  le_sub {x y z a : F} : ¬ x ≤ 0 → x ≤ y → z ≤ a - y → z ≤ a - x

instance : CapsMonotone ℚ where
  le_trans hxy hyz := hxy.trans hyz
  le_sub _ hxy h := h.trans (sub_le_sub_left hxy _)

instance : CapsMonotone Float64 where
  le_trans := Float64.le_trans
  le_sub := Float64.le_sub_of_le

/-- Each bound that is set is one that was, or above it. -/
def Raises {α : Type} [LE α] (bound bound' : Option α) : Prop := ∀ y ∈ bound', ∃ x ∈ bound, x = y ∨ x ≤ y

theorem Raises.forall {α : Type} [LE α] {bound bound' : Option α} (h : Raises bound bound') {P Q : α → Prop}
    (hmono : ∀ x y, x = y ∨ x ≤ y → P x → Q y) (hall : ∀ x ∈ bound, P x) : ∀ y ∈ bound', Q y := by
  intro y hy
  obtain ⟨x, hx, hle⟩ := h y hy
  exact hmono x y hle (hall x hx)

/-- The second limit set comes of the first by raising and unsetting limits,
and by switching controls off. -/
structure Loosens {F : Type} [LE F] (l l' : LimitFields F) : Prop where
  killSwitchPath : ∀ path ∈ l'.killSwitchPath, path ∈ l.killSwitchPath
  dailyLossLimitUsd : Raises l.dailyLossLimitUsd l'.dailyLossLimitUsd
  dailyNotionalLimitUsd : Raises l.dailyNotionalLimitUsd l'.dailyNotionalLimitUsd
  maxOrderQuantity : Raises l.maxOrderQuantity l'.maxOrderQuantity
  maxOrderNotionalUsd : Raises l.maxOrderNotionalUsd l'.maxOrderNotionalUsd
  priceBandFraction : Raises l.priceBandFraction l'.priceBandFraction
  maxExecutionSlippage : Raises l.maxExecutionSlippage l'.maxExecutionSlippage
  maxQuoteAgeMillis : Raises l.maxQuoteAgeMillis l'.maxQuoteAgeMillis
  duplicateWindowMillis : ∀ millis ∈ l'.duplicateWindowMillis, millis ∈ l.duplicateWindowMillis
  maxOrdersPerWindow : Raises l.maxOrdersPerWindow l'.maxOrdersPerWindow
  orderRateWindowMillis : l'.orderRateWindowMillis = l.orderRateWindowMillis
  maxConsecutiveRejects : Raises l.maxConsecutiveRejects l'.maxConsecutiveRejects
  maxExecutionsWithoutReview : Raises l.maxExecutionsWithoutReview l'.maxExecutionsWithoutReview
  maxWorkingOrders : Raises l.maxWorkingOrders l'.maxWorkingOrders
  maxOpenPositions : Raises l.maxOpenPositions l'.maxOpenPositions
  maxPositionQuantity : Raises l.maxPositionQuantity l'.maxPositionQuantity
  maxGrossExposureUsd : Raises l.maxGrossExposureUsd l'.maxGrossExposureUsd
  preventSelfMatch : l'.preventSelfMatch = true → l.preventSelfMatch = true
  requireShortSaleLocate : l'.requireShortSaleLocate = true → l.requireShortSaleLocate = true
  permittedInstruments : Raises l.permittedInstruments l'.permittedInstruments
  restrictedInstruments : l'.restrictedInstruments ⊆ l.restrictedInstruments
  tradeableSessionStates : Raises l.tradeableSessionStates l'.tradeableSessionStates
  sessionRollMillis : l'.sessionRollMillis = l.sessionRollMillis
  disabledControls : l.disabledControls ⊆ l'.disabledControls

section Engines

variable {F : Type} [Zero F] [LE F] [DecidableLE F] [PyFloat F]

structure SameState (e e' : PreTradeRiskEngine F) : Prop where
  isLive : e'.isLive = e.isLive
  counters : e'.counters = e.counters
  rateWindow : e'.rateWindow = e.rateWindow
  duplicateWindow : ∀ w ∈ e'.duplicateWindow, w ∈ e.duplicateWindow
  overrides : e'.overrides = e.overrides

variable {e e' : PreTradeRiskEngine F} {files : Files} {now : ℤ} {r : OrderRequest F} {id : ControlId}

theorem isDisabled_of_loosens (h : Loosens e.limits.toLimitFields e'.limits.toLimitFields)
    (hid : e'.limits.isDisabled id = false) : e.limits.isDisabled id = false := by
  rw [RiskLimits.isDisabled] at hid ⊢
  split at hid
  · rw [if_pos ‹_›]
  · rw [if_neg ‹_›]
    rw [decide_eq_false_iff_not] at hid ⊢
    exact fun hmem => hid (h.disabledControls hmem)

theorem raises_effectiveMaxOrderQuantity (h : Loosens e.limits.toLimitFields e'.limits.toLimitFields)
    (hs : SameState e e') : Raises e.effectiveMaxOrderQuantity e'.effectiveMaxOrderQuantity := by
  rw [PreTradeRiskEngine.effectiveMaxOrderQuantity, PreTradeRiskEngine.effectiveMaxOrderQuantity, hs.overrides]
  cases e.overrides.runtimeMaxOrderQuantity with
  | none => exact h.maxOrderQuantity
  | some cap => exact fun y hy => ⟨y, hy, .inl rfl⟩

theorem raises_effectiveMaxOrderNotional (h : Loosens e.limits.toLimitFields e'.limits.toLimitFields)
    (hs : SameState e e') : Raises e.effectiveMaxOrderNotional e'.effectiveMaxOrderNotional := by
  rw [PreTradeRiskEngine.effectiveMaxOrderNotional, PreTradeRiskEngine.effectiveMaxOrderNotional, hs.overrides]
  cases e.overrides.runtimeMaxOrderNotional with
  | none => exact h.maxOrderNotionalUsd
  | some cap => exact fun y hy => ⟨y, hy, .inl rfl⟩

theorem SameState.rollTo (h : SameState e e') (day : String) : SameState (e.rollTo day) (e'.rollTo day) where
  isLive := h.isLive
  counters := congrArg (Counters.roll · day) h.counters
  rateWindow := h.rateWindow
  duplicateWindow := h.duplicateWindow
  overrides := h.overrides

variable [Sub F] [CapsMonotone F]

omit [DecidableLE F] [PyFloat F] in
theorem le_of_raised {x y z : F} (hxy : x = y ∨ x ≤ y) (h : z ≤ x) : z ≤ y := by
  rcases hxy with rfl | hxy
  · exact h
  · exact CapsMonotone.le_trans h hxy

theorem lt_of_raised {x y n : ℤ} (hxy : x = y ∨ x ≤ y) (h : n < x) : n < y := h.trans_le (hxy.elim le_of_eq id)

theorem mem_of_raised {α : Type} {x y : Finset α} {a : α} (hxy : x = y ∨ x ≤ y) (h : a ∈ x) : a ∈ y :=
  hxy.elim le_of_eq id h

variable [IntCast F] [LT F] [DecidableLT F]

theorem not_breached_of_loosens (h : Loosens e.limits.toLimitFields e'.limits.toLimitFields) (hs : SameState e e')
    (hbreached : e.breached now = false) : e'.breached now = false := by
  rw [← Bool.not_eq_true, PreTradeRiskEngine.breached_iff] at hbreached ⊢
  rintro ⟨y, hy, hbypass, hle⟩
  obtain ⟨x, hx, hxy⟩ := h.dailyLossLimitUsd y hy
  refine hbreached ⟨x, hx, ?_, ?_⟩
  · rwa [PreTradeRiskEngine.bypassActive, hs.overrides] at hbypass
  · have hpnl : e'.legPnl = e.legPnl := by
      rw [PreTradeRiskEngine.legPnl, PreTradeRiskEngine.legPnl, hs.counters, hs.isLive]
    have hpeak : e'.legPeak = e.legPeak := by
      rw [PreTradeRiskEngine.legPeak, PreTradeRiskEngine.legPeak, hs.counters, hs.isLive]
    rw [hpnl, hpeak] at hle
    rcases hxy with rfl | hxy
    · exact hle
    · have hpos := e.limits.admissible.amounts "daily_loss_limit_usd" x
        (by simp [LimitFields.amounts, Option.mem_def.mp hx])
      exact CapsMonotone.le_sub hpos hxy hle

variable [One F] [Neg F] [Add F] [Mul F] [Div F]

theorem satisfied_of_loosens (h : Loosens e.limits.toLimitFields e'.limits.toLimitFields) (hs : SameState e e')
    (hp : Satisfied files e now r id) : Satisfied files e' now r id := by
  cases id with
  | killSwitch =>
      simp only [Satisfied, killSwitchEngaged] at hp ⊢
      cases hpath : e'.limits.killSwitchPath with
      | none => rfl
      | some path => rwa [Option.mem_def.mp (h.killSwitchPath path hpath)] at hp
  | dailyLossLimit => exact not_breached_of_loosens h hs hp
  | instrumentUniverse => exact h.permittedInstruments.forall (fun _ _ => mem_of_raised) hp
  | restrictedList => exact fun hmem => hp (h.restrictedInstruments hmem)
  | sessionState => exact h.tradeableSessionStates.forall (fun _ _ => mem_of_raised) hp
  | shortSaleLocate => exact hp
  | orderQuantity => exact hp
  | orderPrice => exact hp
  | orderNotional => exact hp
  | maxOrderQuantity => exact (raises_effectiveMaxOrderQuantity h hs).forall (fun _ _ => le_of_raised) hp
  | maxOrderNotional =>
      refine (raises_effectiveMaxOrderNotional h hs).forall ?_ hp
      rintro x y hxy ⟨notional, hnotional, hx⟩
      exact ⟨notional, hnotional, le_of_raised hxy hx⟩
  | quoteAge =>
      refine h.maxQuoteAgeMillis.forall ?_ hp
      rintro x y hxy ⟨age, hage, hx⟩
      exact ⟨age, hage, hx.trans (hxy.elim le_of_eq id)⟩
  | priceBand =>
      refine h.priceBandFraction.forall (fun x y hxy hx price hprice => ?_) hp
      obtain ⟨reference, href, hpos, hdeviation⟩ := hx price hprice
      exact ⟨reference, href, hpos, le_of_raised hxy hdeviation⟩
  | executionSlippage =>
      refine h.maxExecutionSlippage.forall ?_ hp
      rintro x y hxy ⟨decisionPrice, hdecision, touch, htouch, hx⟩
      exact ⟨decisionPrice, hdecision, touch, htouch, le_of_raised hxy hx⟩
  | duplicateOrder => exact fun window hwindow => hp window (hs.duplicateWindow window hwindow)
  | orderRate =>
      refine h.maxOrdersPerWindow.forall (fun x y hxy hx => ?_) hp
      rw [hs.rateWindow]
      exact lt_of_raised hxy hx
  | consecutiveRejects =>
      refine h.maxConsecutiveRejects.forall (fun x y hxy hx => ?_) hp
      rw [hs.counters]
      exact lt_of_raised hxy hx
  | repeatedExecution =>
      refine h.maxExecutionsWithoutReview.forall (fun x y hxy hx => ?_) hp
      rw [hs.counters]
      exact lt_of_raised hxy hx
  | workingOrders => exact h.maxWorkingOrders.forall (fun _ _ => lt_of_raised) hp
  | openPositions => exact h.maxOpenPositions.forall (fun _ _ => lt_of_raised) hp
  | positionLimit => exact h.maxPositionQuantity.forall (fun _ _ hxy hx => hx.imp_left (le_of_raised hxy)) hp
  | selfMatchPrevention => exact hp
  | grossExposure =>
      refine h.maxGrossExposureUsd.forall ?_ hp
      rintro x y hxy ⟨notional, hnotional, hx⟩
      exact ⟨notional, hnotional, le_of_raised hxy hx⟩
  | dailyNotionalLimit =>
      refine h.dailyNotionalLimitUsd.forall ?_ hp
      rintro x y hxy ⟨notional, hnotional, hx⟩
      rw [hs.counters]
      exact ⟨notional, hnotional, le_of_raised hxy hx⟩

omit [CapsMonotone F] in
theorem isArmed_flags (e : PreTradeRiskEngine F) : ∀ c ∈ controlSequence (F := F),
    (c.id = .shortSaleLocate → c.isArmed e = e.limits.requireShortSaleLocate) ∧
      (c.id = .selfMatchPrevention → c.isArmed e = e.limits.preventSelfMatch) := by
  simp [controlSequence, Control.reading]

theorem passes_of_loosens (h : Loosens e.limits.toLimitFields e'.limits.toLimitFields) (hs : SameState e e')
    (hp : Passes files e now r id) : Passes files e' now r id := by
  -- the two a flag arms compare with no limit
  by_cases hflag : id = .shortSaleLocate ∨ id = .selfMatchPrevention
  · intro c hc hid hruns
    refine satisfied_of_loosens h hs (hp c hc hid ?_)
    rw [runs, Bool.and_eq_true, Bool.not_eq_true'] at hruns ⊢
    refine ⟨isDisabled_of_loosens h hruns.1, ?_⟩
    rcases hflag with rfl | rfl
    · rw [(isArmed_flags _ c hc).1 hid] at hruns ⊢
      exact h.requireShortSaleLocate hruns.2
    · rw [(isArmed_flags _ c hc).2 hid] at hruns ⊢
      exact h.preventSelfMatch hruns.2
  · rw [not_or] at hflag
    refine (passes_iff hflag.1 hflag.2).mpr fun henabled => satisfied_of_loosens h hs ?_
    exact (passes_iff hflag.1 hflag.2).mp hp (isDisabled_of_loosens h henabled)

/-- An order accepted under a limit set is accepted under a looser one. -/
theorem accepts_of_loosens (h : Loosens e.limits.toLimitFields e'.limits.toLimitFields) (hs : SameState e e')
    (ha : Accepts files e now r) : Accepts files e' now r := by
  obtain ⟨f, hf⟩ := ha
  obtain ⟨day, hday, -⟩ := Pruning.evaluate_pruned hf
  have hday' : e'.today now = .ok day := by
    rw [PreTradeRiskEngine.today, h.sessionRollMillis]
    exact hday
  have hpasses (id : ControlId) : Passes files (e'.rollTo day) now r id :=
    passes_of_loosens (e := e.rollTo day) h (hs.rollTo day) (passes_of_accepted id hday hf rfl)
  obtain ⟨⟨d, g⟩, hg, rfl⟩ := map_eq_ok.mp ((decision_eq_accepted_iff_passes hday').mpr hpasses)
  exact ⟨g, hg⟩

end Engines

open scoped Decimal

def looserLimits : RiskLimits ℚ := ⟨{ maxOrdersPerWindow := some 2 }, by decide +kernel⟩

theorem accepts_of_loosens_paced :
    Accepts (fun _ => false) (.onDay looserLimits false "2026-07-20") Session.noon Sending.one := by
  refine accepts_of_loosens (e := Sending.pacedDesk.engine) ?_ ?_ Sending.one_accepted
  · constructor <;>
      simp [Sending.pacedDesk, PreTradeRiskEngine.onDay, Sending.pacedLimits, looserLimits, Raises]
  · refine ⟨rfl, rfl, rfl, fun w hw => ?_, rfl⟩
    have hnone := configuredDuplicateWindow_windowMillis looserLimits
    rw [show configuredDuplicateWindow looserLimits = some w from hw] at hnone
    cases hnone

end PretradeRisk.Loosening
