import PretradeRisk.Refusals
import PretradeRisk.Session

namespace PretradeRisk.Thresholds

open Decision Engine Evaluate Host Limits Orders Rulings Session Verdicts Walk Windows
open Admission (rejectCode rejectCode_injective rejectCode_ne_unavailable)
open Refusals (Reportable evidence_code reject_of_firstFailing)

section Rejections

variable [PyFloat ℚ]

def inForce (e : PreTradeRiskEngine ℚ) : ControlId → Option ℚ
  | .dailyLossLimit => e.limits.dailyLossLimitUsd
  | .maxOrderQuantity => e.effectiveMaxOrderQuantity
  | .maxOrderNotional => e.effectiveMaxOrderNotional
  | .quoteAge => e.limits.maxQuoteAgeMillis.map (↑)
  | .priceBand => e.limits.priceBandFraction
  | .executionSlippage => e.limits.maxExecutionSlippage
  | .orderRate => e.limits.maxOrdersPerWindow.map (↑)
  | .consecutiveRejects => e.limits.maxConsecutiveRejects.map (↑)
  | .repeatedExecution => e.limits.maxExecutionsWithoutReview.map (↑)
  | .workingOrders => e.limits.maxWorkingOrders.map (↑)
  | .openPositions => e.limits.maxOpenPositions.map (↑)
  | .positionLimit => e.limits.maxPositionQuantity
  | .grossExposure => e.limits.maxGrossExposureUsd
  | .dailyNotionalLimit => e.limits.dailyNotionalLimitUsd
  | _ => none

def exceeding : List ControlId :=
  [.maxOrderQuantity, .maxOrderNotional, .quoteAge, .priceBand, .executionSlippage, .positionLimit, .grossExposure,
    .dailyNotionalLimit]

def reaching : List ControlId :=
  [.orderRate, .consecutiveRejects, .repeatedExecution, .workingOrders, .openPositions]

def bare (l : LimitFields ℚ) : LimitFields ℚ :=
  { l with
    dailyLossLimitUsd := none, dailyNotionalLimitUsd := none, maxOrderQuantity := none
    maxOrderNotionalUsd := none, priceBandFraction := none, maxExecutionSlippage := none
    maxQuoteAgeMillis := none, maxOrdersPerWindow := none, maxConsecutiveRejects := none
    maxExecutionsWithoutReview := none, maxWorkingOrders := none, maxOpenPositions := none
    maxPositionQuantity := none, maxGrossExposureUsd := none }

/-- Engines in one state, with the same limits in force but for one control. -/
structure Revalued (id : ControlId) (e e' : PreTradeRiskEngine ℚ) : Prop where
  isLive : e'.isLive = e.isLive
  counters : e'.counters = e.counters
  rateWindow : e'.rateWindow = e.rateWindow
  duplicateWindow : e'.duplicateWindow = e.duplicateWindow
  bypassLossLimit : e'.overrides.bypassLossLimit = e.overrides.bypassLossLimit
  bypassExpiresAt : e'.overrides.bypassExpiresAt = e.overrides.bypassExpiresAt
  bare : bare e'.limits.toLimitFields = bare e.limits.toLimitFields
  inForce : ∀ other, other ≠ id → inForce e' other = inForce e other

variable {files : Files} {e e' : PreTradeRiskEngine ℚ} {now : ℤ} {r : OrderRequest ℚ} {id other : ControlId}
  {day : String} {c x : ℚ}

theorem Revalued.refl (id : ControlId) (e : PreTradeRiskEngine ℚ) : Revalued id e e :=
  ⟨rfl, rfl, rfl, rfl, rfl, rfl, rfl, fun _ _ => rfl⟩

def wholeNumbered : List ControlId := .quoteAge :: reaching

def revaluedFields (l : LimitFields ℚ) (x : ℚ) (k : ℤ) : ControlId → LimitFields ℚ
  | .dailyLossLimit => { l with dailyLossLimitUsd := some x }
  | .quoteAge => { l with maxQuoteAgeMillis := some k }
  | .priceBand => { l with priceBandFraction := some x }
  | .executionSlippage => { l with maxExecutionSlippage := some x }
  | .orderRate => { l with maxOrdersPerWindow := some k }
  | .consecutiveRejects => { l with maxConsecutiveRejects := some k }
  | .repeatedExecution => { l with maxExecutionsWithoutReview := some k }
  | .workingOrders => { l with maxWorkingOrders := some k }
  | .openPositions => { l with maxOpenPositions := some k }
  | .positionLimit => { l with maxPositionQuantity := some x }
  | .grossExposure => { l with maxGrossExposureUsd := some x }
  | .dailyNotionalLimit => { l with dailyNotionalLimitUsd := some x }
  | _ => l

def revaluedOverrides (o : Overrides ℚ) (x : ℚ) : ControlId → Overrides ℚ
  | .maxOrderQuantity => { o with runtimeMaxOrderQuantity := some x }
  | .maxOrderNotional => { o with runtimeMaxOrderNotional := some x }
  | _ => o

omit [PyFloat ℚ] in
theorem amounts_revaluedFields (l : LimitFields ℚ) (x : ℚ) (k : ℤ) (id : ControlId) :
    (revaluedFields l x k id).amounts = l.amounts ∨
      ∃ i name, (revaluedFields l x k id).amounts = l.amounts.set i (name, some x) := by
  cases id with
  | dailyLossLimit => exact .inr ⟨0, "daily_loss_limit_usd", rfl⟩
  | dailyNotionalLimit => exact .inr ⟨1, "daily_notional_limit_usd", rfl⟩
  | priceBand => exact .inr ⟨4, "price_band_fraction", rfl⟩
  | executionSlippage => exact .inr ⟨5, "max_execution_slippage", rfl⟩
  | positionLimit => exact .inr ⟨6, "max_position_quantity", rfl⟩
  | grossExposure => exact .inr ⟨7, "max_gross_exposure_usd", rfl⟩
  | _ => exact .inl rfl

omit [PyFloat ℚ] in
theorem counts_revaluedFields (l : LimitFields ℚ) (x : ℚ) (k : ℤ) (id : ControlId) :
    (revaluedFields l x k id).counts = l.counts ∨
      ∃ i name, (revaluedFields l x k id).counts = l.counts.set i (name, some k) := by
  cases id with
  | quoteAge => exact .inr ⟨0, "max_quote_age_millis", rfl⟩
  | orderRate => exact .inr ⟨2, "max_orders_per_window", rfl⟩
  | consecutiveRejects => exact .inr ⟨3, "max_consecutive_rejects", rfl⟩
  | repeatedExecution => exact .inr ⟨4, "max_executions_without_review", rfl⟩
  | workingOrders => exact .inr ⟨5, "max_working_orders", rfl⟩
  | openPositions => exact .inr ⟨6, "max_open_positions", rfl⟩
  | _ => exact .inl rfl

omit [PyFloat ℚ] in
theorem mem_of_set {α : Type} {fields fields' : List (String × Option α)} {name : String} {value y : α}
    (h : fields' = fields ∨ ∃ i name, fields' = fields.set i (name, some y)) (hmem : (name, some value) ∈ fields') :
    (name, some value) ∈ fields ∨ value = y := by
  rcases h with rfl | ⟨i, other, rfl⟩
  · exact .inl hmem
  · refine (List.mem_or_eq_of_mem_set hmem).imp_right fun heq => ?_
    exact Option.some.inj (congrArg Prod.snd heq)

omit [PyFloat ℚ] in
theorem revaluedFields_admissible {l : LimitFields ℚ} (h : l.Admissible) (hx : 0 < x) {k : ℤ} (hk : 0 < k)
    (id : ControlId) : (revaluedFields l x k id).Admissible := by
  refine ⟨fun name value hmem => ?_, fun name value hmem => ?_, ?_, ?_, ?_⟩
  · rcases mem_of_set (amounts_revaluedFields l x k id) hmem with hmem | rfl
    · exact h.amounts name value hmem
    · exact not_le.mpr hx
  · rcases mem_of_set (counts_revaluedFields l x k id) hmem with hmem | rfl
    · exact h.counts name value hmem
    · exact hk
  · cases id <;> exact h.orderRateWindow
  · cases id <;> exact h.sessionRoll
  · cases id <;> exact h.disabled

def revalued (e : PreTradeRiskEngine ℚ) (hx : 0 < x) {k : ℤ} (hk : 0 < k) (id : ControlId) : PreTradeRiskEngine ℚ :=
  { e with
    limits := ⟨_, postInit_eq_ok.mpr (revaluedFields_admissible e.limits.admissible hx hk id)⟩
    overrides := revaluedOverrides e.overrides x id
    rateWindow_configured := by cases id <;> exact e.rateWindow_configured
    duplicateWindow_configured := by cases id <;> exact e.duplicateWindow_configured }

theorem revalued_revalued (e : PreTradeRiskEngine ℚ) (hx : 0 < x) {k : ℤ} (hk : 0 < k) (id : ControlId) :
    Revalued id e (revalued e hx hk id) := by
  refine ⟨rfl, rfl, rfl, rfl, ?_, ?_, ?_, fun other hne => ?_⟩
  · cases id <;> rfl
  · cases id <;> rfl
  · cases id <;> rfl
  · cases other <;> cases id <;> first | rfl | exact absurd rfl hne

theorem exists_revalued (e : PreTradeRiskEngine ℚ) (hid : id ∈ exceeding ++ reaching ++ [.dailyLossLimit])
    (hx : 0 < x) (hwhole : id ∈ wholeNumbered → ∃ k : ℤ, x = k) :
    ∃ e', Revalued id e e' ∧ inForce e' id = some x := by
  by_cases hnumber : id ∈ wholeNumbered
  · obtain ⟨k, rfl⟩ := hwhole hnumber
    have hk : 0 < k := by exact_mod_cast hx
    refine ⟨_, revalued_revalued e hx hk id, ?_⟩
    cases id <;> first | rfl | exact absurd hnumber (by decide)
  · refine ⟨_, revalued_revalued e hx one_pos id, ?_⟩
    cases id <;> first | rfl | exact absurd (by decide) hnumber | exact absurd hid (by decide)

theorem Revalued.rollTo (h : Revalued id e e') : Revalued id (e.rollTo day) (e'.rollTo day) :=
  ⟨h.isLive, congrArg (Counters.roll · day) h.counters, h.rateWindow, h.duplicateWindow, h.bypassLossLimit,
    h.bypassExpiresAt, h.bare, fun other hne => by cases other <;> exact h.inForce _ hne⟩

theorem Revalued.field {α : Type} (h : Revalued id e e') (f : LimitFields ℚ → α) (hf : ∀ l, f (Thresholds.bare l) = f l) :
    f e'.limits.toLimitFields = f e.limits.toLimitFields := by
  rw [← hf e'.limits.toLimitFields, h.bare, hf]

theorem Revalued.today (h : Revalued id e e') : e'.today now = e.today now := by
  rw [PreTradeRiskEngine.today, PreTradeRiskEngine.today, h.field LimitFields.sessionRollMillis fun _ => rfl]

theorem Revalued.count (h : Revalued id e e') (hne : other ≠ id) {cap cap' : Option ℤ}
    (hcap : Thresholds.inForce e other = cap.map (↑)) (hcap' : Thresholds.inForce e' other = cap'.map (↑)) :
    cap' = cap :=
  Option.map_injective Int.cast_injective (hcap'.symm.trans ((h.inForce other hne).trans hcap))

theorem Revalued.bypassActive (h : Revalued id e e') : e'.bypassActive now = e.bypassActive now := by
  rw [PreTradeRiskEngine.bypassActive, PreTradeRiskEngine.bypassActive, Overrides.bypassActive,
    Overrides.bypassActive, h.bypassLossLimit, h.bypassExpiresAt]

theorem Revalued.legPnl (h : Revalued id e e') : e'.legPnl = e.legPnl := by
  rw [PreTradeRiskEngine.legPnl, PreTradeRiskEngine.legPnl, h.counters, h.isLive]

theorem Revalued.legPeak (h : Revalued id e e') : e'.legPeak = e.legPeak := by
  rw [PreTradeRiskEngine.legPeak, PreTradeRiskEngine.legPeak, h.counters, h.isLive]

theorem satisfied_dailyLossLimit_iff : Satisfied files e now r .dailyLossLimit ↔
    ∀ limit, Thresholds.inForce e .dailyLossLimit = some limit →
      e.bypassActive now = true ∨ e.legPeak - limit < e.legPnl := by
  rw [Satisfied, ← Bool.not_eq_true, PreTradeRiskEngine.breached_iff, not_exists]
  refine forall_congr' fun limit => ?_
  rw [not_and, not_and, not_le, ← Bool.not_eq_true, or_iff_not_imp_left]
  rfl

theorem satisfied_other (h : Revalued id e e') (hne : other ≠ id) :
    Satisfied files e' now r other ↔ Satisfied files e now r other := by
  have hin := h.inForce other hne
  cases other with
  | killSwitch => rw [Satisfied, Satisfied, killSwitchEngaged, killSwitchEngaged,
      h.field LimitFields.killSwitchPath fun _ => rfl]
  | dailyLossLimit =>
      rw [satisfied_dailyLossLimit_iff, satisfied_dailyLossLimit_iff, hin, h.bypassActive, h.legPnl, h.legPeak]
  | instrumentUniverse => rw [Satisfied, Satisfied, h.field LimitFields.permittedInstruments fun _ => rfl]
  | restrictedList => rw [Satisfied, Satisfied, h.field LimitFields.restrictedInstruments fun _ => rfl]
  | sessionState => rw [Satisfied, Satisfied, h.field LimitFields.tradeableSessionStates fun _ => rfl]
  | shortSaleLocate => rfl
  | orderQuantity => rfl
  | orderPrice => rfl
  | orderNotional => rfl
  | maxOrderQuantity => rw [Satisfied, Satisfied, show e'.effectiveMaxOrderQuantity = _ from hin]; rfl
  | maxOrderNotional => rw [Satisfied, Satisfied, show e'.effectiveMaxOrderNotional = _ from hin]; rfl
  | quoteAge => rw [Satisfied, Satisfied, h.count hne rfl rfl]
  | priceBand => rw [Satisfied, Satisfied, show e'.limits.priceBandFraction = _ from hin]; rfl
  | executionSlippage => rw [Satisfied, Satisfied, show e'.limits.maxExecutionSlippage = _ from hin]; rfl
  | duplicateOrder => rw [Satisfied, Satisfied, h.duplicateWindow]
  | orderRate => rw [Satisfied, Satisfied, h.count hne rfl rfl, h.rateWindow]
  | consecutiveRejects => rw [Satisfied, Satisfied, h.count hne rfl rfl, h.counters]
  | repeatedExecution => rw [Satisfied, Satisfied, h.count hne rfl rfl, h.counters]
  | workingOrders => rw [Satisfied, Satisfied, h.count hne rfl rfl]
  | openPositions => rw [Satisfied, Satisfied, h.count hne rfl rfl]
  | positionLimit => rw [Satisfied, Satisfied, show e'.limits.maxPositionQuantity = _ from hin]; rfl
  | selfMatchPrevention => rfl
  | grossExposure => rw [Satisfied, Satisfied, show e'.limits.maxGrossExposureUsd = _ from hin]; rfl
  | dailyNotionalLimit =>
      rw [Satisfied, Satisfied, show e'.limits.dailyNotionalLimitUsd = _ from hin, h.counters]; rfl

theorem isArmed_other (h : Revalued id e e') : ∀ c ∈ controlSequence (F := ℚ), c.id ≠ id →
    c.isArmed e' = c.isArmed e := by
  have hin {other : ControlId} (hne : other ≠ id) :
      (Thresholds.inForce e' other).isSome = (Thresholds.inForce e other).isSome :=
    congrArg Option.isSome (h.inForce other hne)
  have hcount {other : ControlId} (hne : other ≠ id) {cap cap' : Option ℤ}
      (hcap : Thresholds.inForce e other = cap.map (↑)) (hcap' : Thresholds.inForce e' other = cap'.map (↑)) :
      cap'.isSome = cap.isSome :=
    congrArg Option.isSome (h.count hne hcap hcap')
  simp only [controlSequence, List.forall_mem_cons, List.not_mem_nil, false_implies, implies_true,
    and_true, true_and, Control.reading]
  exact ⟨fun _ => congrArg Option.isSome (h.field LimitFields.killSwitchPath fun _ => rfl), hin,
    fun _ => congrArg Option.isSome (h.field LimitFields.permittedInstruments fun _ => rfl),
    fun _ => congrArg (fun s => decide (s ≠ ∅)) (h.field LimitFields.restrictedInstruments fun _ => rfl),
    fun _ => congrArg Option.isSome (h.field LimitFields.tradeableSessionStates fun _ => rfl),
    fun _ => h.field LimitFields.requireShortSaleLocate fun _ => rfl, hin, hin,
    fun hne => hcount hne rfl rfl, hin, hin, fun _ => congrArg Option.isSome h.duplicateWindow,
    fun hne => hcount hne rfl rfl, fun hne => hcount hne rfl rfl, fun hne => hcount hne rfl rfl,
    fun hne => hcount hne rfl rfl, fun hne => hcount hne rfl rfl, hin,
    fun _ => h.field LimitFields.preventSelfMatch fun _ => rfl, hin, hin⟩

theorem Revalued.isDisabled (h : Revalued id e e') (other : ControlId) :
    e'.limits.isDisabled other = e.limits.isDisabled other := by
  rw [RiskLimits.isDisabled, RiskLimits.isDisabled, h.field LimitFields.disabledControls fun _ => rfl]

theorem isArmed_eq_inForce : ∀ c ∈ controlSequence (F := ℚ),
    c.id ∈ exceeding ∨ c.id ∈ reaching ∨ c.id = .dailyLossLimit →
      c.isArmed e = (Thresholds.inForce e c.id).isSome := by
  simp [controlSequence, Control.reading, Thresholds.inForce, exceeding, reaching]

theorem evidence_code_congr (e e' : PreTradeRiskEngine ℚ) (now : ℤ) (r : OrderRequest ℚ)
    (id : ControlId) : (evidence e' now r id).1 = (evidence e now r id).1 := by
  cases id with
  | maxOrderNotional => simp only [evidence]; cases r.notionalUsd <;> rfl
  | quoteAge => simp only [evidence]; cases r.quoteAgeMillis <;> rfl
  | priceBand =>
      simp only [evidence]
      cases r.limitPrice with
      | none => rfl
      | some price => cases r.bandReferencePrice with
        | none => rfl
        | some reference => by_cases hle : reference ≤ 0 <;> simp [hle]
  | executionSlippage => simp only [evidence]; cases r.decisionPrice <;> cases r.touch <;> rfl
  | grossExposure => simp only [evidence]; cases r.notionalUsd <;> rfl
  | dailyNotionalLimit => simp only [evidence]; cases r.notionalUsd <;> rfl
  | _ => rfl

omit [PyFloat ℚ] in
theorem forall_count_lt_iff {cap : Option ℤ} {count : ℤ} (h : cap.map (↑) = some c) :
    (∀ n ∈ cap, count < n) ↔ (count : ℚ) < c := by
  obtain ⟨n, rfl, rfl⟩ := Option.map_eq_some_iff.mp h
  simp

omit [PyFloat ℚ] in
theorem forall_projected_le_iff {used : ℚ} {notional : ℚ} (h : r.notionalUsd = some notional) :
    (∀ cap ∈ some c, ∃ notional ∈ r.notionalUsd, used + pyAbs notional ≤ cap) ↔ used + pyAbs notional ≤ c := by
  simp [h]

theorem priced_of_code (hid : id = .maxOrderNotional ∨ id = .grossExposure ∨ id = .dailyNotionalLimit)
    (hcode : (evidence e now r id).1 = rejectCode id) : ∃ notional, r.notionalUsd = some notional := by
  refine Option.ne_none_iff_exists'.mp fun hn => ?_
  rcases hid with rfl | rfl | rfl <;> simp [evidence, hn, noData, rejectCode] at hcode

theorem aged_of_code (hcode : (evidence e now r .quoteAge).1 = rejectCode .quoteAge) :
    ∃ age, r.quoteAgeMillis = some age := by
  refine Option.ne_none_iff_exists'.mp fun hage => ?_
  simp [evidence, hage, noData, rejectCode] at hcode

theorem banded_of_code (hcode : (evidence e now r .priceBand).1 = rejectCode .priceBand) :
    ∃ price reference, r.limitPrice = some price ∧ r.bandReferencePrice = some reference ∧ ¬ reference ≤ 0 := by
  cases hp : r.limitPrice with
  | none => simp [evidence, hp, noData, rejectCode] at hcode
  | some price => cases hr : r.bandReferencePrice with
    | none => simp [evidence, hp, hr, noData, rejectCode] at hcode
    | some reference =>
        refine ⟨price, reference, rfl, rfl, fun hle => ?_⟩
        simp [evidence, hp, hr, hle, noData, rejectCode] at hcode

theorem touched_of_code (hcode : (evidence e now r .executionSlippage).1 = rejectCode .executionSlippage) :
    ∃ decisionPrice touch, r.decisionPrice = some decisionPrice ∧ r.touch = some touch := by
  cases hd : r.decisionPrice with
  | none => simp [evidence, hd, noData, rejectCode] at hcode
  | some decisionPrice => cases ht : r.touch with
    | none => simp [evidence, hd, ht, noData, rejectCode] at hcode
    | some touch => exact ⟨decisionPrice, touch, rfl, rfl⟩

theorem satisfied_iff_le (hid : id ∈ exceeding) (h : Revalued id e e') (hc : Thresholds.inForce e' id = some c)
    (hcode : (evidence e now r id).1 = rejectCode id) (hx : (evidence e now r id).2.2 = some x)
    (hnot : ¬ Satisfied files e now r id) : Satisfied files e' now r id ↔ x ≤ c := by
  simp only [exceeding, List.mem_cons, List.not_mem_nil, or_false] at hid
  rcases hid with rfl | rfl | rfl | rfl | rfl | rfl | rfl | rfl
  · have hcap : e'.effectiveMaxOrderQuantity = some c := hc
    cases hx
    simp [Satisfied, hcap]
  · have hcap : e'.effectiveMaxOrderNotional = some c := hc
    obtain ⟨notional, hn⟩ := priced_of_code (.inl rfl) hcode
    simp only [evidence, hn, Option.some.injEq] at hx
    simp [Satisfied, hcap, hn, hx]
  · obtain ⟨age, hage⟩ := aged_of_code hcode
    obtain ⟨maxAge, hmax, rfl⟩ := Option.map_eq_some_iff.mp hc
    simp only [evidence, hage, Option.some.injEq] at hx
    simp [Satisfied, hmax, hage, ← hx]
  · have hband : e'.limits.priceBandFraction = some c := hc
    obtain ⟨price, reference, hp, hr, hle⟩ := banded_of_code hcode
    simp only [evidence, hp, hr, if_neg hle, Option.some.injEq] at hx
    simp [Satisfied, hband, hp, hr, hx, not_le.mp hle]
  · have hmax : e'.limits.maxExecutionSlippage = some c := hc
    obtain ⟨decisionPrice, touch, hd, ht⟩ := touched_of_code hcode
    simp only [evidence, hd, ht, Option.some.injEq] at hx
    simp [Satisfied, hmax, hd, ht, hx]
  · have hcap : e'.limits.maxPositionQuantity = some c := hc
    cases hx
    -- The order does not reduce the position, or the first engine would have let it through.
    have hgrows : ¬ (pyAbs r.projectedPosition < pyAbs r.positionQuantity ∧
        ¬ r.positionQuantity * r.projectedPosition < 0) := fun hreduces => hnot fun cap _ => .inr hreduces
    rw [Satisfied, hcap]
    simp only [Option.mem_some_iff, forall_eq', or_iff_left hgrows]
  · have hcap : e'.limits.maxGrossExposureUsd = some c := hc
    obtain ⟨notional, hn⟩ := priced_of_code (.inr (.inl rfl)) hcode
    simp only [evidence, hn, Option.some.injEq] at hx
    rw [Satisfied, hcap, forall_projected_le_iff hn, hx]
  · have hcap : e'.limits.dailyNotionalLimitUsd = some c := hc
    obtain ⟨notional, hn⟩ := priced_of_code (.inr (.inr rfl)) hcode
    simp only [evidence, hn, Option.some.injEq] at hx
    rw [Satisfied, hcap, forall_projected_le_iff hn, h.counters, hx]

theorem satisfied_iff_lt (hid : id ∈ reaching) (h : Revalued id e e') (hc : Thresholds.inForce e' id = some c)
    (hx : (evidence e now r id).2.2 = some x) : Satisfied files e' now r id ↔ x < c := by
  simp only [reaching, List.mem_cons, List.not_mem_nil, or_false] at hid
  rcases hid with rfl | rfl | rfl | rfl | rfl <;> cases hx
  · rw [Satisfied, h.rateWindow]
    exact forall_count_lt_iff hc
  · rw [Satisfied, h.counters]
    exact forall_count_lt_iff hc
  · rw [Satisfied, h.counters]
    exact forall_count_lt_iff hc
  · exact forall_count_lt_iff hc
  · exact forall_count_lt_iff hc

theorem satisfied_dailyLossLimit_revalued (h : Revalued .dailyLossLimit e e')
    (hc : Thresholds.inForce e' .dailyLossLimit = some c) (hnot : ¬ Satisfied files e now r .dailyLossLimit) :
    Satisfied files e' now r .dailyLossLimit ↔ e.legPeak - e.legPnl < c := by
  have hbypass : ¬ e.bypassActive now = true :=
    fun hactive => hnot (satisfied_dailyLossLimit_iff.mpr fun _ _ => .inl hactive)
  rw [satisfied_dailyLossLimit_iff, hc, h.bypassActive, h.legPnl, h.legPeak]
  simp only [Option.some.injEq, forall_eq', or_iff_right hbypass]
  exact sub_lt_comm

theorem evidence_of_code (hid : id ∈ exceeding ∨ id ∈ reaching) (hcode : (evidence e now r id).1 = rejectCode id) :
    ∃ x, evidence e now r id = (rejectCode id, Thresholds.inForce e id, some x) := by
  simp only [exceeding, reaching, List.mem_cons, List.not_mem_nil, or_false] at hid
  rcases hid with (rfl | rfl | rfl | rfl | rfl | rfl | rfl | rfl) | rfl | rfl | rfl | rfl | rfl
  · exact ⟨_, rfl⟩
  · obtain ⟨notional, hn⟩ := priced_of_code (.inl rfl) hcode
    exact ⟨notional, by simp only [evidence, hn]; rfl⟩
  · obtain ⟨age, hage⟩ := aged_of_code hcode
    exact ⟨age, by simp only [evidence, hage]; rfl⟩
  · obtain ⟨price, reference, hp, hr, hle⟩ := banded_of_code hcode
    exact ⟨deviation price reference, by simp only [evidence, hp, hr, if_neg hle]; rfl⟩
  · obtain ⟨decisionPrice, touch, hd, ht⟩ := touched_of_code hcode
    exact ⟨slippage r decisionPrice touch, by simp only [evidence, hd, ht]; rfl⟩
  · exact ⟨_, rfl⟩
  · obtain ⟨notional, hn⟩ := priced_of_code (.inr (.inl rfl)) hcode
    exact ⟨r.grossExposureUsd + pyAbs notional, by simp only [evidence, hn]; rfl⟩
  · obtain ⟨notional, hn⟩ := priced_of_code (.inr (.inr rfl)) hcode
    exact ⟨e.counters.dailyNotional + pyAbs notional, by simp only [evidence, hn]; rfl⟩
  · exact ⟨_, rfl⟩
  · exact ⟨_, rfl⟩
  · exact ⟨_, rfl⟩
  · exact ⟨_, rfl⟩
  · exact ⟨_, rfl⟩

def ObjectsBy (files : Files) (e : PreTradeRiskEngine ℚ) (now : ℤ) (r : OrderRequest ℚ) (id : ControlId) : Prop :=
  ∃ d, decision files e now r = .ok d ∧ d.code = some (rejectCode id)

theorem rejects_of_firstFailing [ExactFloat] {control : Control ℚ}
    (h : FirstFailing files e now r day control) (hday : e.today now = .ok day) :
    ∃ name message, decision files e now r = .ok (.reject (evidence (e.rollTo day) now r control.id).1 name message
      (evidence (e.rollTo day) now r control.id).2.1 (evidence (e.rollTo day) now r control.id).2.2) := by
  have hreportable : Reportable files e now r day control := ⟨h, fun n _ => ExactFloat.fits n⟩
  obtain ⟨d, hd⟩ := hreportable.returns hday
  obtain ⟨-, name, message, rfl⟩ := reject_of_firstFailing h hday hd
  exact ⟨name, message, hd⟩

theorem firstFailing_of_code [ExactFloat] (id : ControlId) {d : RiskDecision ℚ} (hday : e.today now = .ok day)
    (h : decision files e now r = .ok d) (hcode : d.code = some (rejectCode id)) :
    ∃ control, FirstFailing files e now r day control ∧ control.id = id ∧
      (evidence (e.rollTo day) now r id).1 = rejectCode id ∧
      d.limit = (evidence (e.rollTo day) now r id).2.1 ∧ d.observed = (evidence (e.rollTo day) now r id).2.2 := by
  rcases decision_cases files r hday with ⟨hd, -⟩ | ⟨control, hc⟩
  · rw [h] at hd
    cases hd
    cases hcode
  · obtain ⟨name, message, hd⟩ := rejects_of_firstFailing hc hday
    rw [h] at hd
    cases hd
    have hown : (evidence (e.rollTo day) now r control.id).1 = rejectCode id := Option.some.inj hcode
    rcases evidence_code (e.rollTo day) now r control.id with hev | hev
    · obtain rfl : control.id = id := rejectCode_injective (hev.symm.trans hown)
      exact ⟨control, hc, rfl, hev, rfl, rfl⟩
    · exact absurd (hown.symm.trans hev) (rejectCode_ne_unavailable id)

theorem inForce_rollTo (e : PreTradeRiskEngine ℚ) (day : String) (id : ControlId) :
    Thresholds.inForce (e.rollTo day) id = Thresholds.inForce e id := by cases id <;> rfl

/-- At another value of its limit the same control decides, or none up to it
objects. -/
theorem objectsBy_revalued_iff [ExactFloat] {control : Control ℚ} (hday : e.today now = .ok day)
    (hc : FirstFailing files e now r day control) (hid : control.id = id)
    (hcode : (evidence (e.rollTo day) now r id).1 = rejectCode id)
    (hkind : id ∈ exceeding ∨ id ∈ reaching ∨ id = .dailyLossLimit)
    (h : Revalued id e e') (hsome : Thresholds.inForce e' id = some c) :
    ObjectsBy files e' now r id ↔ ¬ Satisfied files (e'.rollTo day) now r id := by
  have hday' : e'.today now = .ok day := h.today.trans hday
  constructor
  · rintro ⟨d, hd, hdcode⟩
    obtain ⟨other, hother, rfl, -⟩ := firstFailing_of_code _ hday' hd hdcode
    exact hother.not_satisfied
  · subst hid
    intro hnot
    have hfailing := hc
    obtain ⟨before, after, hseq, hruns, -, hbefore⟩ := hfailing
    have hmem {b : Control ℚ} (hb : b ∈ before) : b ∈ controlSequence := hseq ▸ List.mem_append_left _ hb
    have hne {b : Control ℚ} (hb : b ∈ before) : b.id ≠ control.id := by
      have hnodup := controlSequence_nodup (F := ℚ)
      rw [hseq, List.map_append] at hnodup
      exact (List.nodup_append.mp hnodup).2.2 _ (List.mem_map_of_mem hb) _ (List.mem_map_of_mem List.mem_cons_self)
    have hfirst : FirstFailing files e' now r day control := by
      refine ⟨before, after, hseq, ?_, hnot, fun b hb hr => ?_⟩
      · rw [runs_rollTo e' day hc.mem, runs, h.isDisabled, isArmed_eq_inForce control hc.mem hkind, hsome]
        have hrunning := hc.running
        simp_all [runs]
      · refine (satisfied_other h.rollTo (hne hb)).mpr (hbefore b hb ?_)
        rw [runs_rollTo e' day (hmem hb), runs, h.isDisabled, isArmed_other h b (hmem hb) (hne hb)] at hr
        rw [runs_rollTo e day (hmem hb)]
        exact hr
    obtain ⟨name, message, hd⟩ := rejects_of_firstFailing hfirst hday'
    refine ⟨_, hd, congrArg some ?_⟩
    rw [evidence_code_congr (e.rollTo day)]
    exact hcode

variable {d : RiskDecision ℚ}

theorem exceeding_evidence [ExactFloat] (hday : e.today now = .ok day) (h : decision files e now r = .ok d)
    (hid : id ∈ exceeding) (hcode : d.code = some (rejectCode id)) :
    ∃ limit observed, d.limit = some limit ∧ d.observed = some observed ∧ Thresholds.inForce e id = some limit ∧
      limit < observed ∧ ∀ e' c, Revalued id e e' → Thresholds.inForce e' id = some c →
        (ObjectsBy files e' now r id ↔ c < observed) := by
  obtain ⟨control, hc, rfl, hev, hlimit, hobserved⟩ := firstFailing_of_code _ hday h hcode
  obtain ⟨observed, hfound⟩ := evidence_of_code (.inl hid) hev
  rw [hfound, inForce_rollTo] at hlimit
  rw [hfound] at hobserved
  have hsome := isArmed_eq_inForce control hc.mem (.inl hid) ▸ isArmed_of_runs hc.running
  obtain ⟨limit, hlim⟩ := Option.isSome_iff_exists.mp hsome
  have hiff (e' : PreTradeRiskEngine ℚ) (c : ℚ) (hr : Revalued control.id e e')
      (hforce : Thresholds.inForce e' control.id = some c) : ObjectsBy files e' now r control.id ↔ c < observed := by
    rw [objectsBy_revalued_iff hday hc rfl hev (.inl hid) hr hforce, ← not_le]
    refine not_congr (satisfied_iff_le hid hr.rollTo ?_ hev (by rw [hfound]) hc.not_satisfied)
    rw [inForce_rollTo, hforce]
  exact ⟨limit, observed, hlimit.trans hlim, hobserved, hlim, (hiff e limit (.refl _ e) hlim).mp ⟨d, h, hcode⟩, hiff⟩

theorem reaching_evidence [ExactFloat] (hday : e.today now = .ok day) (h : decision files e now r = .ok d)
    (hid : id ∈ reaching) (hcode : d.code = some (rejectCode id)) :
    ∃ limit observed, d.limit = some limit ∧ d.observed = some observed ∧ Thresholds.inForce e id = some limit ∧
      limit ≤ observed ∧ ∀ e' c, Revalued id e e' → Thresholds.inForce e' id = some c →
        (ObjectsBy files e' now r id ↔ c ≤ observed) := by
  obtain ⟨control, hc, rfl, hev, hlimit, hobserved⟩ := firstFailing_of_code _ hday h hcode
  obtain ⟨observed, hfound⟩ := evidence_of_code (.inr hid) hev
  rw [hfound, inForce_rollTo] at hlimit
  rw [hfound] at hobserved
  have hsome := isArmed_eq_inForce control hc.mem (.inr (.inl hid)) ▸ isArmed_of_runs hc.running
  obtain ⟨limit, hlim⟩ := Option.isSome_iff_exists.mp hsome
  have hiff (e' : PreTradeRiskEngine ℚ) (c : ℚ) (hr : Revalued control.id e e')
      (hforce : Thresholds.inForce e' control.id = some c) : ObjectsBy files e' now r control.id ↔ c ≤ observed := by
    rw [objectsBy_revalued_iff hday hc rfl hev (.inr (.inl hid)) hr hforce, ← not_lt]
    refine not_congr (satisfied_iff_lt hid hr.rollTo ?_ (by rw [hfound]))
    rw [inForce_rollTo, hforce]
  exact ⟨limit, observed, hlimit.trans hlim, hobserved, hlim, (hiff e limit (.refl _ e) hlim).mp ⟨d, h, hcode⟩, hiff⟩

theorem loss_evidence [ExactFloat] (hday : e.today now = .ok day) (h : decision files e now r = .ok d)
    (hcode : d.code = some .lossLimitBreached) :
    ∃ floor pnl, d.limit = some floor ∧ d.observed = some pnl ∧ (e.rollTo day).floor = some floor ∧
      (e.rollTo day).legPnl = pnl ∧ pnl ≤ floor ∧ ∀ e' c, Revalued .dailyLossLimit e e' →
        Thresholds.inForce e' .dailyLossLimit = some c →
        (ObjectsBy files e' now r .dailyLossLimit ↔ c ≤ (e.rollTo day).legPeak - pnl) := by
  obtain ⟨control, hc, hid, hev, hlimit, hobserved⟩ := firstFailing_of_code .dailyLossLimit hday h hcode
  have hsome := isArmed_eq_inForce control hc.mem (.inr (.inr hid)) ▸ isArmed_of_runs hc.running
  obtain ⟨limit, hlim⟩ := Option.isSome_iff_exists.mp hsome
  rw [hid] at hlim
  have hfloor : (e.rollTo day).floor = some ((e.rollTo day).legPeak - limit) := by
    rw [PreTradeRiskEngine.floor, show (e.rollTo day).limits.dailyLossLimitUsd = some limit from hlim]
  have hiff (e' : PreTradeRiskEngine ℚ) (c : ℚ) (hr : Revalued .dailyLossLimit e e')
      (hforce : Thresholds.inForce e' .dailyLossLimit = some c) :
      ObjectsBy files e' now r .dailyLossLimit ↔ c ≤ (e.rollTo day).legPeak - (e.rollTo day).legPnl := by
    have hnot := hc.not_satisfied
    rw [hid] at hnot
    rw [objectsBy_revalued_iff hday hc hid hev (.inr (.inr rfl)) hr hforce, ← not_lt]
    refine not_congr (satisfied_dailyLossLimit_revalued hr.rollTo ?_ hnot)
    rw [inForce_rollTo, hforce]
  have hle := (hiff e limit (.refl _ e) hlim).mp ⟨d, h, hcode⟩
  exact ⟨_, _, hlimit.trans hfloor, hobserved, hfloor, rfl, le_sub_comm.mp hle, hiff⟩

/-- The limit and the observed value of a rejection are the threshold of the
control that objected: every positive value can stand in for its limit, and
none but the threshold separates those it objects with. -/
theorem rejection_carries_threshold [ExactFloat] (h : decision files e now r = .ok d) :
    (∀ id ∈ exceeding ++ reaching ++ [.dailyLossLimit], ∀ c : ℚ, 0 < c →
      (id ∈ wholeNumbered → ∃ k : ℤ, c = k) → ∃ e', Revalued id e e' ∧ inForce e' id = some c) ∧
    (∀ id ∈ exceeding, d.code = some (rejectCode id) →
      ∃ limit observed, d.limit = some limit ∧ d.observed = some observed ∧ inForce e id = some limit ∧
        limit < observed ∧ ∀ e' c, Revalued id e e' → inForce e' id = some c →
          (ObjectsBy files e' now r id ↔ c < observed)) ∧
    (∀ id ∈ reaching, d.code = some (rejectCode id) →
      ∃ limit observed, d.limit = some limit ∧ d.observed = some observed ∧ inForce e id = some limit ∧
        limit ≤ observed ∧ ∀ e' c, Revalued id e e' → inForce e' id = some c →
          (ObjectsBy files e' now r id ↔ c ≤ observed)) ∧
    (d.code = some .lossLimitBreached →
      ∃ day floor pnl, e.today now = .ok day ∧ d.limit = some floor ∧ d.observed = some pnl ∧
        (e.rollTo day).floor = some floor ∧ (e.rollTo day).legPnl = pnl ∧ pnl ≤ floor ∧
        ∀ e' c, Revalued .dailyLossLimit e e' → inForce e' .dailyLossLimit = some c →
          (ObjectsBy files e' now r .dailyLossLimit ↔ c ≤ (e.rollTo day).legPeak - pnl)) := by
  cases hday : e.today now with
  | error x =>
      rw [decision_of_not_today hday] at h
      cases h
  | ok day =>
      refine ⟨fun id hid c hc hwhole => exists_revalued e hid hc hwhole,
        fun id => exceeding_evidence hday h, fun id => reaching_evidence hday h,
        fun hcode => ?_⟩
      obtain ⟨floor, pnl, hrest⟩ := loss_evidence hday h hcode
      exact ⟨day, floor, pnl, rfl, hrest⟩

end Rejections

open scoped Decimal

def overNotional : OrderRequest ℚ := { OrderRequest.bare "ES" .buy 150 with limitPrice := some 1 }

theorem overNotional_rejected : ∃ d, decision (fun _ => false) freshDesk.engine noon overNotional = .ok d ∧
    d.code = some .dailyNotionalLimitExceeded := by
  have h : (decision (fun _ => false) freshDesk.engine noon overNotional).toOption.map (·.code) =
      some (some .dailyNotionalLimitExceeded) := by decide +kernel
  cases hd : decision (fun _ => false) freshDesk.engine noon overNotional with
  | error x => rw [hd] at h; cases h
  | ok d =>
      rw [hd] at h
      exact ⟨d, rfl, Option.some.inj h⟩

theorem rejection_carries_threshold_notional :
    ∃ d limit observed, decision (fun _ => false) freshDesk.engine noon overNotional = .ok d ∧
      d.limit = some limit ∧ d.observed = some observed ∧ limit < observed ∧
      ∀ e' c, Revalued .dailyNotionalLimit freshDesk.engine e' → inForce e' .dailyNotionalLimit = some c →
        (ObjectsBy (fun _ => false) e' noon overNotional .dailyNotionalLimit ↔ c < observed) := by
  obtain ⟨d, hd, hcode⟩ := overNotional_rejected
  obtain ⟨limit, observed, hlimit, hobserved, -, hlt, hiff⟩ :=
    (rejection_carries_threshold hd).2.1 .dailyNotionalLimit (by decide) hcode
  exact ⟨d, limit, observed, hd, hlimit, hobserved, hlt, hiff⟩

end PretradeRisk.Thresholds
