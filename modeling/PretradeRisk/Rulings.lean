import PretradeRisk.Verdicts

namespace PretradeRisk.Rulings

open Decision Engine Evaluate Host Limits Orders Verdicts Walk Windows

variable {F : Type} [Zero F] [One F] [Neg F] [Add F] [Sub F] [Mul F] [Div F] [IntCast F] [LE F] [LT F]
  [DecidableLE F] [DecidableLT F]

def slippage (r : OrderRequest F) (decisionPrice touch : F) : F :=
  if r.side.isSell then decisionPrice - touch else touch - decisionPrice

def deviation (price reference : F) : F := pyAbs (price - reference) / reference

abbrev Evidence (F : Type) := RejectCode × Option F × Option F

def noData : Evidence F := (.marketDataUnavailable, none, none)

variable [PyFloat F]

/-- The comparison a control makes, which an order it lets through meets. -/
def Satisfied (files : Files) (e : PreTradeRiskEngine F) (now : ℤ) (r : OrderRequest F) : ControlId → Prop
  | .killSwitch => killSwitchEngaged files e = false
  | .dailyLossLimit => e.breached now = false
  | .instrumentUniverse => ∀ permitted ∈ e.limits.permittedInstruments, r.symbol ∈ permitted
  | .restrictedList => r.symbol ∉ e.limits.restrictedInstruments
  | .sessionState => ∀ tradeable ∈ e.limits.tradeableSessionStates, r.sessionState ∈ tradeable
  | .shortSaleLocate => r.side ≠ .sellShort ∨ r.locateSecured = true
  | .orderQuantity => 0 < r.quantity
  | .orderPrice => ∀ price ∈ r.limitPrice, 0 < price
  | .orderNotional => ∀ notional ∈ r.notionalUsd, 0 < notional
  | .maxOrderQuantity => ∀ cap ∈ e.effectiveMaxOrderQuantity, r.quantity ≤ cap
  | .maxOrderNotional => ∀ cap ∈ e.effectiveMaxOrderNotional, ∃ notional ∈ r.notionalUsd, notional ≤ cap
  | .quoteAge => ∀ maxAge ∈ e.limits.maxQuoteAgeMillis, ∃ age ∈ r.quoteAgeMillis, age ≤ maxAge
  | .priceBand => ∀ band ∈ e.limits.priceBandFraction, ∀ price ∈ r.limitPrice,
      ∃ reference ∈ r.bandReferencePrice, ¬ reference ≤ 0 ∧ deviation price reference ≤ band
  | .executionSlippage => ∀ maxSlippage ∈ e.limits.maxExecutionSlippage,
      ∃ decisionPrice ∈ r.decisionPrice, ∃ touch ∈ r.touch, slippage r decisionPrice touch ≤ maxSlippage
  | .duplicateOrder => ∀ window ∈ e.duplicateWindow, (window.prune now).seen r.fingerprint = none
  | .orderRate => ∀ cap ∈ e.limits.maxOrdersPerWindow, ((e.rateWindow.prune now).events.length : ℤ) < cap
  | .consecutiveRejects => ∀ cap ∈ e.limits.maxConsecutiveRejects, (e.counters.consecutiveRejects : ℤ) < cap
  | .repeatedExecution => ∀ cap ∈ e.limits.maxExecutionsWithoutReview,
      (e.counters.executionsSinceRearm : ℤ) < cap
  | .workingOrders => ∀ cap ∈ e.limits.maxWorkingOrders, r.workingOrders < cap
  | .openPositions => ∀ cap ∈ e.limits.maxOpenPositions, r.openPositions < cap
  | .positionLimit => ∀ cap ∈ e.limits.maxPositionQuantity, pyAbs r.projectedPosition ≤ cap ∨
      pyAbs r.projectedPosition < pyAbs r.positionQuantity ∧ ¬ r.positionQuantity * r.projectedPosition < 0
  | .selfMatchPrevention => r.opposingRestingQuantity ≤ 0
  | .grossExposure => ∀ cap ∈ e.limits.maxGrossExposureUsd,
      ∃ notional ∈ r.notionalUsd, r.grossExposureUsd + pyAbs notional ≤ cap
  | .dailyNotionalLimit => ∀ cap ∈ e.limits.dailyNotionalLimitUsd,
      ∃ notional ∈ r.notionalUsd, e.counters.dailyNotional + pyAbs notional ≤ cap

/-- What a control reports of an order it objects to. -/
def evidence (e : PreTradeRiskEngine F) (now : ℤ) (r : OrderRequest F) : ControlId → Evidence F
  | .killSwitch => (.killSwitchEngaged, none, none)
  | .dailyLossLimit => (.lossLimitBreached, e.floor, some e.legPnl)
  | .instrumentUniverse => (.instrumentNotPermitted, none, none)
  | .restrictedList => (.instrumentRestricted, none, none)
  | .sessionState => (.marketSessionNotOpen, none, none)
  | .shortSaleLocate => (.shortSaleLocateMissing, none, none)
  | .orderQuantity => (.orderQuantityNotPositive, none, some r.quantity)
  | .orderPrice => (.orderPriceNotPositive, none, r.limitPrice)
  | .orderNotional => (.orderNotionalNotPositive, none, r.notionalUsd)
  | .maxOrderQuantity => (.maxOrderQuantityExceeded, e.effectiveMaxOrderQuantity, some r.quantity)
  | .maxOrderNotional => match r.notionalUsd with
      | none => noData
      | some notional => (.maxOrderNotionalExceeded, e.effectiveMaxOrderNotional, some notional)
  | .quoteAge => match r.quoteAgeMillis with
      | none => noData
      | some age => (.marketDataStale, e.limits.maxQuoteAgeMillis.map (↑), some age)
  | .priceBand => match r.limitPrice, r.bandReferencePrice with
      | some price, some reference =>
          if reference ≤ 0 then noData
          else (.priceBandExceeded, e.limits.priceBandFraction, some (deviation price reference))
      | _, _ => noData
  | .executionSlippage => match r.decisionPrice, r.touch with
      | some decisionPrice, some touch =>
          (.executionSlippageExceeded, e.limits.maxExecutionSlippage, some (slippage r decisionPrice touch))
      | _, _ => noData
  | .duplicateOrder => (.duplicateOrder, e.limits.duplicateWindowMillis.map (↑), none)
  | .orderRate => (.orderRateExceeded, e.limits.maxOrdersPerWindow.map (↑),
      some (((e.rateWindow.prune now).events.length : ℤ) : F))
  | .consecutiveRejects => (.consecutiveRejectLimitExceeded, e.limits.maxConsecutiveRejects.map (↑),
      some ((e.counters.consecutiveRejects : ℤ) : F))
  | .repeatedExecution => (.repeatedExecutionThrottle, e.limits.maxExecutionsWithoutReview.map (↑),
      some ((e.counters.executionsSinceRearm : ℤ) : F))
  | .workingOrders => (.maxWorkingOrdersExceeded, e.limits.maxWorkingOrders.map (↑), some r.workingOrders)
  | .openPositions => (.maxOpenPositionsExceeded, e.limits.maxOpenPositions.map (↑), some r.openPositions)
  | .positionLimit => (.maxPositionExceeded, e.limits.maxPositionQuantity, some (pyAbs r.projectedPosition))
  | .selfMatchPrevention => (.selfMatchPrevented, none, some r.opposingRestingQuantity)
  | .grossExposure => match r.notionalUsd with
      | none => noData
      | some notional => (.grossExposureLimitExceeded, e.limits.maxGrossExposureUsd,
          some (r.grossExposureUsd + pyAbs notional))
  | .dailyNotionalLimit => match r.notionalUsd with
      | none => noData
      | some notional => (.dailyNotionalLimitExceeded, e.limits.dailyNotionalLimitUsd,
          some (e.counters.dailyNotional + pyAbs notional))

def reported (e : PreTradeRiskEngine F) (now : ℤ) (r : OrderRequest F) : ControlId → List ℤ
  | .quoteAge => match r.quoteAgeMillis with
      | none => []
      | some age => e.limits.maxQuoteAgeMillis.toList ++ [age]
  | .duplicateOrder => e.limits.duplicateWindowMillis.toList
  | .orderRate => e.limits.maxOrdersPerWindow.toList ++ [((e.rateWindow.prune now).events.length : ℤ)]
  | .consecutiveRejects => e.limits.maxConsecutiveRejects.toList ++ [(e.counters.consecutiveRejects : ℤ)]
  | .repeatedExecution => e.limits.maxExecutionsWithoutReview.toList ++ [(e.counters.executionsSinceRearm : ℤ)]
  | .workingOrders => e.limits.maxWorkingOrders.toList ++ [r.workingOrders]
  | .openPositions => e.limits.maxOpenPositions.toList ++ [r.openPositions]
  | _ => []

/-- The ways a check ends. -/
inductive Ruling (satisfied : Prop) (numbers : List ℤ) (found : Evidence F) : Except PyError (Verdict F) → Prop
  | pass (hp : satisfied) : Ruling satisfied numbers found (.ok none)
  | reject (control message : String) (hp : ¬ satisfied) (hfits : ∀ n ∈ numbers, PyFloat.fits F n = true) :
      Ruling satisfied numbers found (.ok (some (.reject found.1 control message found.2.1 found.2.2)))
  | overflow (hp : ¬ satisfied) (hfits : ∃ n ∈ numbers, PyFloat.fits F n = false) :
      Ruling satisfied numbers found (.error .overflowError)

variable {files : Files} {e : PreTradeRiskEngine F} {now : ℤ} {r : OrderRequest F} {satisfied : Prop}
  {numbers : List ℤ} {found : Evidence F} {code : RejectCode} {control message : String} {limit observed : Option F}

omit [Zero F] [One F] [Neg F] [Add F] [Sub F] [Mul F] [Div F] [IntCast F] [LE F] [LT F]
  [DecidableLE F] [DecidableLT F] in
theorem ruling_reject (hp : ¬ satisfied) (h : found = (code, limit, observed)) :
    Ruling satisfied [] found (.ok (some (.reject code control message limit observed))) := by
  subst h
  exact .reject control message hp (by simp)

omit [Zero F] [One F] [Neg F] [Add F] [Sub F] [Mul F] [Div F] [IntCast F] [LE F] [LT F]
  [DecidableLE F] [DecidableLT F] in
theorem ruling_ite {P : Prop} [Decidable P] (hp : satisfied ↔ P) (h : found = (code, limit, observed)) :
    Ruling satisfied [] found
      (if P then .ok none else .ok (some (.reject code control message limit observed))) := by
  split
  · exact .pass (hp.mpr ‹P›)
  · exact ruling_reject (mt hp.mp ‹¬ P›) h

omit [Zero F] [One F] [Neg F] [Add F] [Sub F] [Mul F] [Div F] [LE F] [LT F]
  [DecidableLE F] [DecidableLT F] in
theorem ruling_toFloat {n : ℤ} {k : F → Except PyError (Verdict F)} (hp : ¬ satisfied)
    (h : Ruling satisfied numbers found (k n)) : Ruling satisfied (n :: numbers) found (toFloat F n >>= k) := by
  rw [toFloat]
  split
  · next hn =>
      rw [ok_bind]
      generalize k n = x at h
      cases h with
      | pass hsat => exact absurd hsat hp
      | reject control message _ hfits => exact .reject control message hp (List.forall_mem_cons.mpr ⟨hn, hfits⟩)
      | overflow _ hfits =>
          obtain ⟨m, hm, hfits⟩ := hfits
          exact .overflow hp ⟨m, List.mem_cons_of_mem _ hm, hfits⟩
  · next hn => exact .overflow hp ⟨n, List.mem_cons_self, by simpa using hn⟩

theorem checkKillSwitch_ruling (h : e.limits.killSwitchPath.isSome = true) :
    Ruling (Satisfied files e now r .killSwitch) [] (evidence e now r .killSwitch) (checkKillSwitch files e) := by
  obtain ⟨path, hpath⟩ := Option.isSome_iff_exists.mp h
  refine ruling_ite ?_ rfl
  rw [Satisfied, Bool.not_eq_true]

theorem checkLossLimit_ruling (h : e.limits.dailyLossLimitUsd.isSome = true) :
    Ruling (Satisfied files e now r .dailyLossLimit) [] (evidence e now r .dailyLossLimit) (checkLossLimit e now) := by
  obtain ⟨limit, hlimit⟩ := Option.isSome_iff_exists.mp h
  have hfloor : e.floor = some (e.legPeak - limit) := by simp [PreTradeRiskEngine.floor, hlimit]
  simp only [checkLossLimit, hfloor, hlimit, operand_some, ok_bind, pure_eq_ok]
  refine ruling_ite ?_ (by rw [evidence, hfloor])
  rw [Satisfied, Bool.not_eq_true]

theorem checkInstrumentPermitted_ruling (h : e.limits.permittedInstruments.isSome = true) :
    Ruling (Satisfied files e now r .instrumentUniverse) [] (evidence e now r .instrumentUniverse)
      (checkInstrumentPermitted e r) := by
  obtain ⟨permitted, hpermitted⟩ := Option.isSome_iff_exists.mp h
  simp only [checkInstrumentPermitted, hpermitted, operand_some, ok_bind, pure_eq_ok]
  exact ruling_ite (by simp [Satisfied, hpermitted]) rfl

theorem checkInstrumentRestricted_ruling :
    Ruling (Satisfied files e now r .restrictedList) [] (evidence e now r .restrictedList)
      (checkInstrumentRestricted e r) :=
  ruling_ite Iff.rfl rfl

theorem checkSessionState_ruling (h : e.limits.tradeableSessionStates.isSome = true) :
    Ruling (Satisfied files e now r .sessionState) [] (evidence e now r .sessionState) (checkSessionState e r) := by
  obtain ⟨tradeable, htradeable⟩ := Option.isSome_iff_exists.mp h
  simp only [checkSessionState, htradeable, operand_some, ok_bind, pure_eq_ok]
  exact ruling_ite (by simp [Satisfied, htradeable]) rfl

theorem checkPriceSign_ruling :
    Ruling (Satisfied files e now r .orderPrice) [] (evidence e now r .orderPrice) (checkPriceSign r) := by
  rw [checkPriceSign]
  split
  · exact .pass (by simp_all [Satisfied])
  · exact ruling_ite (by simp_all [Satisfied]) (by simp_all [evidence])

theorem checkNotionalSign_ruling :
    Ruling (Satisfied files e now r .orderNotional) [] (evidence e now r .orderNotional) (checkNotionalSign r) := by
  rw [checkNotionalSign]
  split
  · exact .pass (by simp_all [Satisfied])
  · exact ruling_ite (by simp_all [Satisfied]) (by simp_all [evidence])

theorem checkMaxQuantity_ruling (h : e.effectiveMaxOrderQuantity.isSome = true) :
    Ruling (Satisfied files e now r .maxOrderQuantity) [] (evidence e now r .maxOrderQuantity)
      (checkMaxQuantity e r) := by
  obtain ⟨cap, hcap⟩ := Option.isSome_iff_exists.mp h
  simp only [checkMaxQuantity, hcap, operand_some, ok_bind, pure_eq_ok]
  exact ruling_ite (by simp [Satisfied, hcap]) (by rw [evidence, hcap])

theorem checkMaxNotional_ruling (h : e.effectiveMaxOrderNotional.isSome = true) :
    Ruling (Satisfied files e now r .maxOrderNotional) [] (evidence e now r .maxOrderNotional)
      (checkMaxNotional e r) := by
  obtain ⟨cap, hcap⟩ := Option.isSome_iff_exists.mp h
  rw [checkMaxNotional]
  split
  · exact ruling_reject (by simp_all [Satisfied]) (by simp_all [evidence, noData])
  · simp only [hcap, operand_some, ok_bind, pure_eq_ok]
    exact ruling_ite (by simp_all [Satisfied]) (by simp_all [evidence])

theorem checkQuoteAge_ruling (h : e.limits.maxQuoteAgeMillis.isSome = true) :
    Ruling (Satisfied files e now r .quoteAge) (reported e now r .quoteAge) (evidence e now r .quoteAge)
      (checkQuoteAge e r) := by
  obtain ⟨maxAge, hmax⟩ := Option.isSome_iff_exists.mp h
  rw [checkQuoteAge]
  cases hage : r.quoteAgeMillis with
  | none =>
      rw [reported, hage]
      exact ruling_reject (by simp [Satisfied, hmax, hage]) (by rw [evidence, hage]; rfl)
  | some age =>
      rw [reported, hage, hmax]
      simp only [operand_some, ok_bind, pure_eq_ok]
      have hiff : Satisfied files e now r .quoteAge ↔ age ≤ maxAge := by simp [Satisfied, hmax, hage]
      split
      · exact .pass (hiff.mpr ‹_›)
      · have hnot := mt hiff.mp ‹_›
        exact ruling_toFloat hnot (ruling_toFloat hnot
          (ruling_reject hnot (by rw [evidence, hage, hmax]; rfl)))

theorem checkPriceBand_ruling (h : e.limits.priceBandFraction.isSome = true) :
    Ruling (Satisfied files e now r .priceBand) [] (evidence e now r .priceBand) (checkPriceBand e r) := by
  obtain ⟨band, hband⟩ := Option.isSome_iff_exists.mp h
  rw [checkPriceBand]
  split
  · exact .pass (by simp_all [Satisfied])
  · exact ruling_reject (by simp_all [Satisfied]) (by simp_all [evidence, noData])
  · next price reference hprice hreference =>
      split
      · next hle =>
          refine ruling_reject ?_ (by rw [evidence, hprice, hreference]; exact if_pos hle)
          simp [Satisfied, hband, hprice, hreference, hle]
      · next hpos =>
          simp only [pyDiv_of_not_le hpos, hband, operand_some, ok_bind, pure_eq_ok]
          refine ruling_ite ?_ (by rw [evidence, hprice, hreference, hband]; exact if_neg hpos)
          simp [Satisfied, hband, hprice, hreference, hpos, deviation]

theorem checkExecutionSlippage_ruling (h : e.limits.maxExecutionSlippage.isSome = true) :
    Ruling (Satisfied files e now r .executionSlippage) [] (evidence e now r .executionSlippage)
      (checkExecutionSlippage e r) := by
  obtain ⟨maxSlippage, hmax⟩ := Option.isSome_iff_exists.mp h
  rw [checkExecutionSlippage]
  split
  · next decisionPrice touch hdecision htouch =>
      simp only [hmax, operand_some, ok_bind, pure_eq_ok]
      refine ruling_ite ?_ (by rw [evidence, hdecision, htouch, hmax]; rfl)
      simp [Satisfied, hmax, hdecision, htouch, slippage]
  · next hmissing =>
      refine ruling_reject ?_ ?_
      · intro hsat
        obtain ⟨decisionPrice, hdecision, touch, htouch, -⟩ := hsat maxSlippage hmax
        exact hmissing _ _ hdecision htouch
      · cases hdecision : r.decisionPrice with
        | none => simp [evidence, hdecision, noData]
        | some decisionPrice => cases htouch : r.touch with
          | none => simp [evidence, hdecision, htouch, noData]
          | some touch => exact absurd htouch (hmissing _ _ hdecision)

theorem checkDuplicate_ruling (h : e.duplicateWindow.isSome = true) :
    Ruling (Satisfied files e now r .duplicateOrder) (reported e now r .duplicateOrder)
      (evidence e now r .duplicateOrder)
      (duplicateVerdict (e.duplicateWindow.map (·.prune now)) e.limits.duplicateWindowMillis r) := by
  obtain ⟨window, hwindow⟩ := Option.isSome_iff_exists.mp h
  have hspan : e.limits.duplicateWindowMillis = some window.windowMillis := by
    rw [← e.duplicateWindow_configured, hwindow]; rfl
  have hiff : Satisfied files e now r .duplicateOrder ↔ ¬ ((window.prune now).seen r.fingerprint).isSome = true := by
    simp [Satisfied, hwindow]
  simp only [duplicateVerdict, reported, hwindow, hspan, Option.map_some, operand_some, ok_bind, pure_eq_ok]
  split
  · exact .pass (hiff.mpr ‹_›)
  · next hseen =>
      have hnot : ¬ Satisfied files e now r .duplicateOrder := fun hsat => hseen (hiff.mp hsat)
      exact ruling_toFloat hnot (ruling_reject hnot (by rw [evidence, hspan]; rfl))

theorem checkOrderRate_ruling (h : e.limits.maxOrdersPerWindow.isSome = true) :
    Ruling (Satisfied files e now r .orderRate) (reported e now r .orderRate) (evidence e now r .orderRate)
      (rateVerdict (e.rateWindow.prune now) e.limits.maxOrdersPerWindow e.limits.orderRateWindowMillis) := by
  obtain ⟨cap, hcap⟩ := Option.isSome_iff_exists.mp h
  have hiff : Satisfied files e now r .orderRate ↔ ((e.rateWindow.prune now).events.length : ℤ) < cap := by
    simp [Satisfied, hcap]
  simp only [rateVerdict, reported, hcap, operand_some, ok_bind, pure_eq_ok]
  split
  · exact .pass (hiff.mpr ‹_›)
  · have hnot := mt hiff.mp ‹_›
    exact ruling_toFloat hnot (ruling_toFloat hnot (ruling_reject hnot (by rw [evidence, hcap]; rfl)))

omit [Zero F] [One F] [Neg F] [Add F] [Sub F] [Mul F] [Div F] [LE F] [LT F]
  [DecidableLE F] [DecidableLT F] in
theorem checkBelow_ruling {count : ℤ} {cap : Option ℤ} {message : String → String → String}
    (h : cap.isSome = true) (hp : satisfied ↔ ∀ c ∈ cap, count < c) :
    Ruling satisfied (cap.toList ++ [count]) (code, cap.map (↑), some (count : F))
      (checkBelow code control count cap message) := by
  obtain ⟨cap, rfl⟩ := Option.isSome_iff_exists.mp h
  simp only [checkBelow, operand_some, ok_bind, pure_eq_ok]
  have hiff : satisfied ↔ count < cap := hp.trans (by simp)
  split
  · exact .pass (hiff.mpr ‹_›)
  · have hnot := mt hiff.mp ‹_›
    exact ruling_toFloat hnot (ruling_toFloat hnot (ruling_reject hnot rfl))

theorem checkPositionLimit_ruling (h : e.limits.maxPositionQuantity.isSome = true) :
    Ruling (Satisfied files e now r .positionLimit) [] (evidence e now r .positionLimit)
      (checkPositionLimit e r) := by
  obtain ⟨cap, hcap⟩ := Option.isSome_iff_exists.mp h
  simp only [checkPositionLimit, hcap, operand_some, ok_bind, pure_eq_ok]
  split
  · exact .pass (by simp_all [Satisfied])
  · exact ruling_ite (by simp_all [Satisfied]) (by rw [evidence, hcap])

omit [One F] [Sub F] [Div F] [IntCast F] in
theorem checkProjected_ruling {used : F} {cap : Option F} {message : String → String}
    (h : cap.isSome = true) (hp : satisfied ↔ ∀ c ∈ cap, ∃ notional ∈ r.notionalUsd, used + pyAbs notional ≤ c)
    (hfound : found = match r.notionalUsd with
      | none => noData
      | some notional => (code, cap, some (used + pyAbs notional))) :
    Ruling satisfied [] found (checkProjected code control r used cap message) := by
  obtain ⟨cap, rfl⟩ := Option.isSome_iff_exists.mp h
  rw [checkProjected]
  split
  · exact ruling_reject (by simp_all) (by simp_all [noData])
  · simp only [operand_some, ok_bind, pure_eq_ok]
    exact ruling_ite (by simp_all) (by simp_all)

theorem controlSequence_ruling : ∀ c ∈ controlSequence (F := F), c.isArmed e = true →
    Ruling (Satisfied files e now r c.id) (reported e now r c.id) (evidence e now r c.id)
      (verdict files e now r c) := by
  simp only [controlSequence, List.forall_mem_cons, List.not_mem_nil, false_implies, implies_true,
    and_true, Control.reading, verdict, map_pair_fst, checkDuplicate_verdict, checkOrderRate_verdict]
  exact ⟨checkKillSwitch_ruling, checkLossLimit_ruling, checkInstrumentPermitted_ruling,
    fun _ => checkInstrumentRestricted_ruling, checkSessionState_ruling, fun _ => ruling_ite Iff.rfl rfl,
    fun _ => ruling_ite Iff.rfl rfl, fun _ => checkPriceSign_ruling, fun _ => checkNotionalSign_ruling,
    checkMaxQuantity_ruling, checkMaxNotional_ruling, checkQuoteAge_ruling, checkPriceBand_ruling,
    checkExecutionSlippage_ruling, checkDuplicate_ruling, checkOrderRate_ruling,
    fun h => checkBelow_ruling h Iff.rfl, fun h => checkBelow_ruling h Iff.rfl,
    fun h => checkBelow_ruling h Iff.rfl, fun h => checkBelow_ruling h Iff.rfl, checkPositionLimit_ruling,
    fun _ => ruling_ite Iff.rfl rfl, fun h => checkProjected_ruling h Iff.rfl rfl,
    fun h => checkProjected_ruling h Iff.rfl rfl⟩

variable {c : Control F} {day : String}

theorem verdict_eq_pass_iff (hc : c ∈ controlSequence) (harmed : c.isArmed e = true) :
    verdict files e now r c = .ok none ↔ Satisfied files e now r c.id := by
  have hruling : Ruling (Satisfied files e now r c.id) (reported e now r c.id) (evidence e now r c.id)
      (verdict files e now r c) := controlSequence_ruling c hc harmed
  generalize verdict files e now r c = x at hruling ⊢
  cases hruling with
  | pass hp => exact iff_of_true rfl hp
  | reject control message hp _ => exact iff_of_false (fun h => by cases h) hp
  | overflow hp _ => exact iff_of_false (fun h => by cases h) hp

omit [One F] [Neg F] [Add F] [Sub F] [Mul F] [Div F] [IntCast F] [LT F] [DecidableLT F] in
theorem isArmed_of_runs (h : runs e c = true) : c.isArmed e = true := by simp_all [runs]

/-- The first running control that the order does not satisfy, on the counters
of the day. -/
def FirstFailing (files : Files) (e : PreTradeRiskEngine F) (now : ℤ) (r : OrderRequest F) (day : String)
    (c : Control F) : Prop :=
  Earliest runs (fun e c => Satisfied files e now r c.id) controlSequence (e.rollTo day) c

theorem FirstFailing.mem (h : FirstFailing files e now r day c) : c ∈ controlSequence := Earliest.mem h

theorem FirstFailing.ruling (h : FirstFailing files e now r day c) :
    Ruling (Satisfied files (e.rollTo day) now r c.id) (reported (e.rollTo day) now r c.id)
      (evidence (e.rollTo day) now r c.id) (verdict files (e.rollTo day) now r c) :=
  controlSequence_ruling c h.mem (isArmed_of_runs (Earliest.running h))

theorem FirstFailing.not_satisfied (h : FirstFailing files e now r day c) :
    ¬ Satisfied files (e.rollTo day) now r c.id := by
  rw [FirstFailing] at h
  exact h.not_permits

theorem FirstFailing.running (h : FirstFailing files e now r day c) : runs e c = true :=
  (runs_rollTo e day h.mem).symm.trans (Earliest.running h)

theorem FirstFailing.decision (h : FirstFailing files e now r day c) (hday : e.today now = .ok day) :
    decision files e now r = (verdict files (e.rollTo day) now r c).map (·.getD accepted) := by
  have hruling := h.ruling
  have hends : ends (verdict files (e.rollTo day) now r c) = true := by
    have hnot := h.not_satisfied
    generalize verdict files (e.rollTo day) now r c = x at hruling ⊢
    cases hruling with
    | pass hp => exact absurd hp hnot
    | reject control message _ _ => rfl
    | overflow _ _ => rfl
  obtain ⟨before, after, hseq, hruns, -, hbefore⟩ := h
  rw [decision_of_today hday, runningSequence, hseq, firstVerdict_of_ends hruns hends]
  intro b hb hr
  have hb' : b ∈ controlSequence (F := F) := hseq ▸ List.mem_append_left _ hb
  exact (verdict_eq_pass_iff hb' (isArmed_of_runs hr)).mpr (hbefore b hb hr)

theorem decision_cases (files : Files) (r : OrderRequest F) (hday : e.today now = .ok day) :
    (decision files e now r = .ok accepted ∧
        ∀ c ∈ controlSequence, runs e c = true → Satisfied files (e.rollTo day) now r c.id) ∨
      ∃ c, FirstFailing files e now r day c := by
  have hpass {b : Control F} (hb : b ∈ controlSequence) (hruns : runs (e.rollTo day) b = true) :
      verdict files (e.rollTo day) now r b = .ok none ↔ Satisfied files (e.rollTo day) now r b.id :=
    verdict_eq_pass_iff hb (isArmed_of_runs hruns)
  rcases firstVerdict_cases (runs (e.rollTo day)) (verdict files (e.rollTo day) now r) controlSequence with
    hall | ⟨before, c, after, hseq, hruns, hends, hbefore⟩
  · refine .inl ⟨by rw [decision_of_today hday, runningSequence, firstVerdict_of_pass hall]; rfl, fun c hc hr => ?_⟩
    rw [← runs_rollTo e day hc] at hr
    exact (hpass hc hr).mp (hall c hc hr)
  · have hc : c ∈ controlSequence (F := F) := by rw [hseq]; simp
    refine .inr ⟨c, before, after, hseq, hruns, fun hsatisfied => ?_, fun b hb hr => ?_⟩
    · rw [(hpass hc hruns).mpr hsatisfied] at hends
      cases hends
    · exact (hpass (hseq ▸ List.mem_append_left _ hb) hr).mp (hbefore b hb hr)

theorem decision_eq_accepted_iff (hday : e.today now = .ok day) :
    decision files e now r = .ok accepted ↔
      ∀ c ∈ controlSequence, runs e c = true → Satisfied files (e.rollTo day) now r c.id := by
  rcases decision_cases files r hday with ⟨hd, hall⟩ | ⟨c, hc⟩
  · exact iff_of_true hd hall
  · have hruling := hc.ruling
    have hnot := hc.not_satisfied
    refine iff_of_false (fun h => ?_) fun hall => hnot (hall c hc.mem hc.running)
    rw [hc.decision hday] at h
    generalize verdict files (e.rollTo day) now r c = x at hruling h
    cases hruling with
    | pass hp => exact hnot hp
    | reject control message _ _ => cases h
    | overflow _ _ => cases h

end PretradeRisk.Rulings
