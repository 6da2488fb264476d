import PretradeRisk.Rulings

namespace PretradeRisk.Admission

open Decision Engine Evaluate Host Limits Orders Pruning Rulings Verdicts Walk Windows

section Outcomes

variable {F : Type} [Zero F] [One F] [Neg F] [Add F] [Sub F] [Mul F] [Div F] [IntCast F] [LE F] [LT F]
  [DecidableLE F] [DecidableLT F] [PyFloat F]

def Accepts (files : Files) (e : PreTradeRiskEngine F) (now : ℤ) (r : OrderRequest F) : Prop :=
  ∃ f, evaluate files e now r = .ok (accepted, f)

def Rejects (files : Files) (e : PreTradeRiskEngine F) (now : ℤ) (r : OrderRequest F) : Prop :=
  ∃ d f, evaluate files e now r = .ok (d, f) ∧ d.accepted = false

end Outcomes

variable [PyFloat ℚ]

/-- The condition a control puts on an order, where its limit is configured. -/
def Permits (files : Files) (e : PreTradeRiskEngine ℚ) (now : ℤ) (r : OrderRequest ℚ) : ControlId → Prop
  | .killSwitch => ∀ path, e.limits.killSwitchPath = some path → files path = false
  | .dailyLossLimit => ∀ limit, e.limits.dailyLossLimitUsd = some limit →
      e.legPeak - limit < e.legPnl ∨ e.overrides.bypassLossLimit = true ∧
        ∃ expiresAt, e.overrides.bypassExpiresAt = some expiresAt ∧ (now : ℚ) < expiresAt
  | .instrumentUniverse => ∀ permitted, e.limits.permittedInstruments = some permitted →
      r.symbol ∈ permitted
  | .restrictedList => r.symbol ∉ e.limits.restrictedInstruments
  | .sessionState => ∀ tradeable, e.limits.tradeableSessionStates = some tradeable →
      r.sessionState ∈ tradeable
  | .shortSaleLocate => e.limits.requireShortSaleLocate = true →
      ¬ (r.side = .sellShort ∧ r.locateSecured = false)
  | .orderQuantity => 0 < r.quantity
  | .orderPrice => ∀ price, r.limitPrice = some price → 0 < price
  | .orderNotional => ∀ notional, r.notionalUsd = some notional → 0 < notional
  | .maxOrderQuantity => ∀ cap, e.effectiveMaxOrderQuantity = some cap → r.quantity ≤ cap
  | .maxOrderNotional => ∀ cap, e.effectiveMaxOrderNotional = some cap →
      ∃ notional, r.notionalUsd = some notional ∧ notional ≤ cap
  | .quoteAge => ∀ maxAge, e.limits.maxQuoteAgeMillis = some maxAge →
      ∃ age, r.quoteAgeMillis = some age ∧ age ≤ maxAge
  | .priceBand => ∀ band price, e.limits.priceBandFraction = some band → r.limitPrice = some price →
      ∃ reference, r.bandReferencePrice = some reference ∧ 0 < reference ∧
        |price - reference| / reference ≤ band
  | .executionSlippage => ∀ maxSlippage, e.limits.maxExecutionSlippage = some maxSlippage →
      ∃ decisionPrice touch, r.decisionPrice = some decisionPrice ∧ r.touch = some touch ∧
        slippage r decisionPrice touch ≤ maxSlippage
  | .duplicateOrder => ∀ window, e.duplicateWindow = some window →
      ∀ seenAt, window.seen r.fingerprint = some seenAt →
        ¬ (now - window.windowMillis < seenAt ∧ seenAt ≤ now)
  | .orderRate => ∀ cap, e.limits.maxOrdersPerWindow = some cap → ((e.rateWindow.count now).1 : ℤ) < cap
  | .consecutiveRejects => ∀ cap, e.limits.maxConsecutiveRejects = some cap →
      (e.counters.consecutiveRejects : ℤ) < cap
  | .repeatedExecution => ∀ cap, e.limits.maxExecutionsWithoutReview = some cap →
      (e.counters.executionsSinceRearm : ℤ) < cap
  | .workingOrders => ∀ cap, e.limits.maxWorkingOrders = some cap → r.workingOrders < cap
  | .openPositions => ∀ cap, e.limits.maxOpenPositions = some cap → r.openPositions < cap
  | .positionLimit => ∀ cap, e.limits.maxPositionQuantity = some cap →
      |r.projectedPosition| ≤ cap ∨
        |r.projectedPosition| < |r.positionQuantity| ∧ 0 ≤ r.positionQuantity * r.projectedPosition
  | .selfMatchPrevention => e.limits.preventSelfMatch = true → r.opposingRestingQuantity ≤ 0
  | .grossExposure => ∀ cap, e.limits.maxGrossExposureUsd = some cap →
      ∃ notional, r.notionalUsd = some notional ∧ r.grossExposureUsd + |notional| ≤ cap
  | .dailyNotionalLimit => ∀ cap, e.limits.dailyNotionalLimitUsd = some cap →
      ∃ notional, r.notionalUsd = some notional ∧ e.counters.dailyNotional + |notional| ≤ cap

def rejectCode : ControlId → RejectCode
  | .killSwitch => .killSwitchEngaged
  | .dailyLossLimit => .lossLimitBreached
  | .instrumentUniverse => .instrumentNotPermitted
  | .restrictedList => .instrumentRestricted
  | .sessionState => .marketSessionNotOpen
  | .shortSaleLocate => .shortSaleLocateMissing
  | .orderQuantity => .orderQuantityNotPositive
  | .orderPrice => .orderPriceNotPositive
  | .orderNotional => .orderNotionalNotPositive
  | .maxOrderQuantity => .maxOrderQuantityExceeded
  | .maxOrderNotional => .maxOrderNotionalExceeded
  | .quoteAge => .marketDataStale
  | .priceBand => .priceBandExceeded
  | .executionSlippage => .executionSlippageExceeded
  | .duplicateOrder => .duplicateOrder
  | .orderRate => .orderRateExceeded
  | .consecutiveRejects => .consecutiveRejectLimitExceeded
  | .repeatedExecution => .repeatedExecutionThrottle
  | .workingOrders => .maxWorkingOrdersExceeded
  | .openPositions => .maxOpenPositionsExceeded
  | .positionLimit => .maxPositionExceeded
  | .selfMatchPrevention => .selfMatchPrevented
  | .grossExposure => .grossExposureLimitExceeded
  | .dailyNotionalLimit => .dailyNotionalLimitExceeded

omit [PyFloat ℚ] in
theorem rejectCode_injective : Function.Injective rejectCode := by
  intro a b h
  cases a <;> cases b <;> first | rfl | cases h

omit [PyFloat ℚ] in
theorem rejectCode_ne_unavailable (id : ControlId) : rejectCode id ≠ .marketDataUnavailable := by
  cases id <;> simp [rejectCode]

/-- The market data a control needs and the order does not carry. -/
def MissingInput (r : OrderRequest ℚ) : ControlId → Prop
  | .maxOrderNotional | .grossExposure | .dailyNotionalLimit => r.notionalUsd = none
  | .quoteAge => r.quoteAgeMillis = none
  | .priceBand => ∀ reference, r.bandReferencePrice = some reference → reference ≤ 0
  | .executionSlippage => r.decisionPrice = none ∨ r.touch = none
  | _ => False

/-- A rejection under a control's name: by its own code, or for want of the
market data it needs. -/
structure Objects (r : OrderRequest ℚ) (id : ControlId) (name : String) (d : RiskDecision ℚ) : Prop where
  rejected : d.accepted = false
  control : d.control = name
  code : MissingInput r id ∧ d.code = some .marketDataUnavailable ∨
    ¬ MissingInput r id ∧ d.code = some (rejectCode id)

/-- Engines a check at `now` cannot tell apart: they differ at most in window
entries that pruning drops. -/
structure Settled (now : ℤ) (e f : PreTradeRiskEngine ℚ) : Prop where
  limits : f.limits = e.limits
  isLive : f.isLive = e.isLive
  counters : f.counters = e.counters
  overrides : f.overrides = e.overrides
  rate : f.rateWindow.prune now = e.rateWindow.prune now
  duplicates : f.duplicateWindow.map (·.prune now) = e.duplicateWindow.map (·.prune now)

theorem Settled.refl (now : ℤ) (e : PreTradeRiskEngine ℚ) : Settled now e e :=
  ⟨rfl, rfl, rfl, rfl, rfl, rfl⟩

theorem Settled.trans {now : ℤ} {e f g : PreTradeRiskEngine ℚ} (h : Settled now e f)
    (k : Settled now f g) : Settled now e g :=
  ⟨k.limits.trans h.limits, k.isLive.trans h.isLive, k.counters.trans h.counters,
    k.overrides.trans h.overrides, k.rate.trans h.rate, k.duplicates.trans h.duplicates⟩

theorem settled_of_pruned {now : ℤ} {e f : PreTradeRiskEngine ℚ} (h : Pruned now e f) : Settled now e f where
  limits := h.limits
  isLive := h.isLive
  counters := h.counters
  overrides := h.overrides
  rate := prune_rateWindow_of_pruned h
  duplicates := prune_duplicateWindow_of_pruned h

/-- The one exception a check can raise: an integer too large for the
`float(n)` of an objection. -/
def Overflows (x : PyError) : Prop := x = .overflowError ∧ ∃ n, PyFloat.fits ℚ n = false

/-- What a check may do: pass an order the control permits, object to one it
does not, or overflow on the numbers of its objection. -/
abbrev Answers (files : Files) (e : PreTradeRiskEngine ℚ) (now : ℤ) (r : OrderRequest ℚ) (id : ControlId)
    (name : String) : Except PyError (Verdict ℚ × PreTradeRiskEngine ℚ) → Prop :=
  Answer (Permits files e now r id) (Objects r id name) Overflows (Settled now e)

def Rejecting (r : OrderRequest ℚ) (id : ControlId) (name : String) (x : Except PyError (Verdict ℚ)) : Prop :=
  (∃ d, x = .ok (some d) ∧ Objects r id name d) ∨ ∃ y, x = .error y ∧ Overflows y

variable {files : Files} {e : PreTradeRiskEngine ℚ} {now : ℤ} {r : OrderRequest ℚ} {id : ControlId}
  {name : String}

theorem permits_dailyLossLimit_iff :
    Permits files e now r .dailyLossLimit ↔ e.breached now = false := by
  rw [← Bool.not_eq_true, PreTradeRiskEngine.breached_iff]
  rw [not_exists]
  refine forall_congr' fun limit => ?_
  rw [not_and, not_and, not_le, Bool.eq_false_iff, PreTradeRiskEngine.bypassActive, ne_eq,
    Overrides.bypassActive_iff, or_comm, or_iff_not_imp_left]

omit [PyFloat ℚ] in
theorem seen_prune_eq_none {w : DuplicateWindow} {key : String} :
    (w.prune now).seen key = none ↔
      ∀ seenAt, w.seen key = some seenAt → ¬ (now - w.windowMillis < seenAt ∧ seenAt ≤ now) := by
  cases hs : w.seen key <;> simp [DuplicateWindow.prune, hs]

theorem permits_iff_satisfied : ∀ c ∈ controlSequence (F := ℚ), c.isArmed e = true →
    (Permits files e now r c.id ↔ Satisfied files e now r c.id) := by
  simp only [controlSequence, List.forall_mem_cons, List.not_mem_nil, false_implies, implies_true,
    and_true, Control.reading]
  -- the comparison is the condition, but for absolute values, pruned windows and the flags that arm a control
  refine ⟨fun h => ?killSwitch, fun _ => permits_dailyLossLimit_iff, fun _ => Iff.rfl, fun _ => Iff.rfl,
    fun _ => Iff.rfl, fun h => ?locate, fun _ => Iff.rfl, fun _ => Iff.rfl, fun _ => Iff.rfl, fun _ => Iff.rfl,
    fun _ => Iff.rfl, fun _ => Iff.rfl, fun _ => ?priceBand, fun _ => ?slippage, fun _ => ?duplicate,
    fun _ => Iff.rfl, fun _ => Iff.rfl, fun _ => Iff.rfl, fun _ => Iff.rfl, fun _ => Iff.rfl,
    fun _ => ?position, fun h => ?selfMatch, fun _ => ?exposure, fun _ => ?daily⟩
  case killSwitch =>
    obtain ⟨path, hpath⟩ := Option.isSome_iff_exists.mp h
    simp [Permits, Satisfied, killSwitchEngaged, hpath]
  case locate =>
    rw [Permits, Satisfied, imp_iff_right h]
    cases r.locateSecured <;> simp
  case selfMatch => rw [Permits, Satisfied, imp_iff_right h]
  case duplicate => simp [Permits, Satisfied, seen_prune_eq_none]
  case priceBand =>
    simp only [Permits, Satisfied, deviation, pyAbs_eq_abs, not_le]
    exact forall_congr' fun band => forall_comm
  case slippage => simp [Permits, Satisfied, slippage]
  case position | exposure | daily => simp [Permits, Satisfied, pyAbs_eq_abs]

theorem objection_code (h : ¬ Satisfied files e now r id) :
    MissingInput r id ∧ (evidence e now r id).1 = .marketDataUnavailable ∨
      ¬ MissingInput r id ∧ (evidence e now r id).1 = rejectCode id := by
  cases id with
  | maxOrderNotional | grossExposure | dailyNotionalLimit =>
      cases hnotional : r.notionalUsd <;> simp [MissingInput, evidence, noData, rejectCode, hnotional]
  | quoteAge => cases hage : r.quoteAgeMillis <;> simp [MissingInput, evidence, noData, rejectCode, hage]
  | executionSlippage =>
      cases hdecision : r.decisionPrice <;> cases htouch : r.touch <;>
        simp [MissingInput, evidence, noData, rejectCode, hdecision, htouch]
  | priceBand =>
      cases hprice : r.limitPrice with
      | none => exact absurd (fun _ _ _ hp => by simp [hprice] at hp) h
      | some price => cases hreference : r.bandReferencePrice with
        | none => simp [MissingInput, evidence, noData, hprice, hreference]
        | some reference =>
            by_cases hle : reference ≤ 0 <;>
              simp [MissingInput, evidence, noData, rejectCode, hprice, hreference, hle]
  | _ => exact .inr ⟨not_false, rfl⟩

theorem verdict_rejecting {c : Control ℚ} (hc : c ∈ controlSequence) (harmed : c.isArmed e = true)
    (hp : ¬ Satisfied files e now r c.id) : Rejecting r c.id c.name (verdict files e now r c) := by
  have hruling : Ruling (Satisfied files e now r c.id) (reported e now r c.id) (evidence e now r c.id)
      (verdict files e now r c) := controlSequence_ruling c hc harmed
  have hnames : Names c.name (verdict files e now r c) := controlSequence_names c hc
  generalize verdict files e now r c = x at hruling hnames ⊢
  cases hruling with
  | pass hsatisfied => exact absurd hsatisfied hp
  | reject control message _ _ =>
      refine .inl ⟨_, rfl, rfl, hnames _ rfl, ?_⟩
      simpa only [RiskDecision.reject, Option.some.injEq] using objection_code hp
  | overflow _ hfits =>
      obtain ⟨n, -, hn⟩ := hfits
      exact .inr ⟨_, rfl, rfl, n, hn⟩

theorem controlSequence_answers {c : Control ℚ} (hc : c ∈ controlSequence) (harmed : c.isArmed e = true) :
    Answers files e now r c.id c.name (c.check files e r now) := by
  have hpermits : Permits files e now r c.id ↔ Satisfied files e now r c.id := permits_iff_satisfied c hc harmed
  have hsettled {o : Verdict ℚ} {f : PreTradeRiskEngine ℚ} (h : c.check files e r now = .ok (o, f)) :
      Settled now e f := settled_of_pruned (controlSequence_pruned c hc e o f h)
  by_cases hp : Satisfied files e now r c.id
  · obtain ⟨⟨o, f⟩, hcheck, rfl⟩ := map_eq_ok.mp ((verdict_eq_pass_iff hc harmed).mpr hp)
    rw [hcheck]
    exact .pass f (hpermits.mpr hp) (hsettled hcheck)
  · have hnot : ¬ Permits files e now r c.id := mt hpermits.mp hp
    rcases verdict_rejecting hc harmed hp with ⟨d, hd, hobjects⟩ | ⟨y, hy, hoverflows⟩
    · obtain ⟨⟨o, f⟩, hcheck, rfl⟩ := map_eq_ok.mp hd
      rw [hcheck]
      exact .object d f hnot hobjects (hsettled hcheck)
    · rw [map_eq_error.mp hy]
      exact .raise y hnot hoverflows

theorem permits_of_unarmed : ∀ c ∈ controlSequence (F := ℚ), c.isArmed e = false →
    Permits files e now r c.id := by
  simp only [controlSequence, List.forall_mem_cons, List.not_mem_nil, false_implies, implies_true,
    and_true, Control.reading]
  simp +contextual [Permits]

theorem isArmed_settled {f : PreTradeRiskEngine ℚ} (h : Settled now e f) :
    ∀ c ∈ controlSequence (F := ℚ), c.isArmed f = c.isArmed e :=
  isArmed_congr ⟨e.limits.disabledControls, by rw [h.limits]⟩ h.overrides
    (by simpa using congrArg Option.isSome h.duplicates)

theorem permits_duplicateOrder_iff : Permits files e now r .duplicateOrder ↔
    ∀ window, e.duplicateWindow.map (·.prune now) = some window → window.seen r.fingerprint = none := by
  cases hw : e.duplicateWindow <;> simp [Permits, hw, seen_prune_eq_none]

theorem permits_orderRate_iff : Permits files e now r .orderRate ↔
    ∀ cap, e.limits.maxOrdersPerWindow = some cap → ((e.rateWindow.prune now).events.length : ℤ) < cap :=
  Iff.rfl

theorem permits_settled {f : PreTradeRiskEngine ℚ} (h : Settled now e f) :
    Permits files f now r id ↔ Permits files e now r id := by
  cases id with
  | duplicateOrder => rw [permits_duplicateOrder_iff, permits_duplicateOrder_iff, h.duplicates]
  | orderRate => rw [permits_orderRate_iff, permits_orderRate_iff, h.rate, h.limits]
  | _ =>
      obtain ⟨hlimits, hleg, hcounters, hoverrides, -, -⟩ := h
      obtain ⟨limits, isLive, counters, rate, duplicates, overrides, _, _⟩ := e
      obtain ⟨limits', isLive', counters', rate', duplicates', overrides', _, _⟩ := f
      obtain rfl : limits' = limits := hlimits
      obtain rfl : isLive' = isLive := hleg
      obtain rfl : counters' = counters := hcounters
      obtain rfl : overrides' = overrides := hoverrides
      exact Iff.rfl

theorem controlSequence_sound (files : Files) (now : ℤ) (r : OrderRequest ℚ) :
    Sound runs (fun c e => c.check files e r now) (fun e c => Permits files e now r c.id)
      (fun c => Objects r c.id c.name) Overflows (Settled now) (controlSequence (F := ℚ)) where
  refl := Settled.refl now
  trans := Settled.trans
  runs_eq hc h := by rw [runs, runs, isArmed_settled h _ hc, h.limits]
  permits_iff := permits_settled
  answer hc hr := controlSequence_answers hc (isArmed_of_runs hr)

theorem forall_runs_permits_iff :
    (∀ c ∈ controlSequence (F := ℚ), runs e c = true → Permits files e now r c.id) ↔
      ∀ id, e.limits.isDisabled id = false → Permits files e now r id := by
  constructor
  · intro h id hid
    obtain ⟨c, hc, rfl⟩ := exists_control (F := ℚ) id
    cases harmed : c.isArmed e with
    | false => exact permits_of_unarmed c hc harmed
    | true => exact h c hc (by simp [runs, hid, harmed])
  · intro h c _ hr
    exact h c.id (by simp_all [runs])

/-- An order is admitted at a reading: the reading has a trading date, and
every control that is not disabled permits the order on that day's counters. -/
def Admits (files : Files) (e : PreTradeRiskEngine ℚ) (now : ℤ) (r : OrderRequest ℚ) : Prop :=
  ∃ day, e.today now = .ok day ∧
    ∀ id, e.limits.isDisabled id = false → Permits files (e.rollTo day) now r id

def EarliestObjector (files : Files) (e : PreTradeRiskEngine ℚ) (now : ℤ) (r : OrderRequest ℚ)
    (c : Control ℚ) : Prop :=
  ∃ day, e.today now = .ok day ∧
    Earliest runs (fun e c => Permits files e now r c.id) controlSequence (e.rollTo day) c

theorem evaluate_answer (files : Files) (r : OrderRequest ℚ) {day : String} (hday : e.today now = .ok day) :
    ∃ x, evaluate files e now r = (do let (d, f) ← x; return (d.getD accepted, f)) ∧
      Answer (∀ id, e.limits.isDisabled id = false → Permits files (e.rollTo day) now r id)
        (fun d => ∃ c, EarliestObjector files e now r c ∧ Objects r c.id c.name d) Overflows
        (Settled now (e.rollTo day)) x := by
  refine ⟨_, by rw [evaluate, PreTradeRiskEngine.rollTradingDay, hday]; rfl, ?_⟩
  have h := firstObjection_answer (controlSequence_sound files now r) (e.rollTo day)
  rw [forall_runs_permits_iff] at h
  generalize firstObjection _ _ _ _ = x at h ⊢
  cases h with
  | pass f hp hs => exact .pass f hp hs
  | object d f hp hd hs =>
      obtain ⟨c, hc, hd⟩ := hd
      exact .object d f hp ⟨c, ⟨day, hday, hc⟩, hd⟩ hs
  | raise x hp hx => exact .raise x hp hx

omit [PyFloat ℚ] in
theorem Objects.ne_accepted {d : RiskDecision ℚ} (h : Objects r id name d) : d ≠ accepted := by
  rintro rfl
  exact Bool.noConfusion h.rejected

theorem evaluate_of_not_today {x : PyError} (h : e.today now = .error x) :
    evaluate files e now r = .error x := by
  rw [evaluate, PreTradeRiskEngine.rollTradingDay, h]; rfl

theorem accepts_iff_admits : Accepts files e now r ↔ Admits files e now r := by
  rw [Accepts, Admits]
  cases hday : e.today now with
  | error x => simp [evaluate_of_not_today hday]
  | ok day =>
      obtain ⟨x, hx, ha⟩ := evaluate_answer files r hday
      rw [hx]
      cases ha with
      | pass f hp _ => simpa using hp
      | object d f hp hd _ =>
          obtain ⟨c, -, hd⟩ := hd
          simpa [hd.ne_accepted] using hp
      | raise x hp _ => simpa using hp

theorem earliestObjector_of_rejection {d : RiskDecision ℚ} {f : PreTradeRiskEngine ℚ}
    (h : evaluate files e now r = .ok (d, f)) (hd : d ≠ accepted) :
    ∃ c, EarliestObjector files e now r c ∧ Objects r c.id c.name d := by
  cases hday : e.today now with
  | error x => rw [evaluate_of_not_today hday] at h; cases h
  | ok day =>
      obtain ⟨x, hx, ha⟩ := evaluate_answer files r hday
      rw [hx] at h
      cases ha with
      | pass f _ _ => cases h; exact absurd rfl hd
      | object d f _ hobj _ => cases h; exact hobj
      | raise x _ _ => cases h

theorem accepted_of_accepted {d : RiskDecision ℚ} {f : PreTradeRiskEngine ℚ}
    (h : evaluate files e now r = .ok (d, f)) (hd : d.accepted = true) : d = accepted := by
  by_contra hne
  obtain ⟨c, -, hobjects⟩ := earliestObjector_of_rejection h hne
  exact Bool.noConfusion (hd.symm.trans hobjects.rejected)

theorem not_permits_of_code {d : RiskDecision ℚ} {f : PreTradeRiskEngine ℚ}
    (h : evaluate files e now r = .ok (d, f)) (hcode : d.code = some (rejectCode id)) :
    ∃ day, e.today now = .ok day ∧ ¬ Permits files (e.rollTo day) now r id := by
  have hd : d ≠ accepted := by rintro rfl; cases hcode
  obtain ⟨c, ⟨day, hday, _, _, _, _, hnot, _⟩, hobjects⟩ := earliestObjector_of_rejection h hd
  rcases hobjects.code with ⟨-, hmissing⟩ | ⟨-, hown⟩
  · exact absurd (Option.some.inj (hcode.symm.trans hmissing)) (rejectCode_ne_unavailable id)
  · have hid : id = c.id := rejectCode_injective (Option.some.inj (hcode.symm.trans hown))
    exact ⟨day, hday, hid ▸ hnot⟩

theorem evaluate_exact [ExactFloat] {day : String} (hday : e.today now = .ok day) :
    ∃ d f, evaluate files e now r = .ok (d, f) := by
  obtain ⟨x, hx, ha⟩ := evaluate_answer files r hday
  rw [hx]
  cases ha with
  | pass f _ _ => exact ⟨_, f, rfl⟩
  | object d f _ _ _ => exact ⟨_, f, rfl⟩
  | raise y _ hy =>
      obtain ⟨-, n, hn⟩ := hy
      exact absurd (ExactFloat.fits n) (by simp [hn])

theorem accepts_of_decision (h : (decision files e now r).toOption.any (·.accepted) = true) :
    Accepts files e now r := by
  obtain ⟨d, f, hf, hd⟩ := exists_decision_of_any h
  exact ⟨f, accepted_of_accepted hf hd ▸ hf⟩

theorem rejects_iff_not_accepts [ExactFloat] {day : String} (hday : e.today now = .ok day) :
    Rejects files e now r ↔ ¬ Accepts files e now r := by
  have hexact : ∃ d f, evaluate files e now r = .ok (d, f) := evaluate_exact hday
  obtain ⟨d, f, h⟩ := hexact
  constructor
  · rintro ⟨d', f', h', hd'⟩ ⟨g, hg⟩
    rw [h'] at hg
    cases hg
    exact Bool.noConfusion hd'
  · intro hnot
    refine ⟨d, f, h, ?_⟩
    obtain ⟨c, -, hc⟩ := earliestObjector_of_rejection h fun hd => hnot ⟨f, hd ▸ h⟩
    exact hc.rejected

theorem rejects_or_overflows {day : String} (hday : e.today now = .ok day) (hnot : ¬ Admits files e now r) :
    Rejects files e now r ∨ ∃ x, evaluate files e now r = .error x ∧ Overflows x := by
  rw [← accepts_iff_admits] at hnot
  obtain ⟨x, hx, ha⟩ := evaluate_answer files r hday
  cases ha with
  | pass f _ _ => exact absurd ⟨f, hx⟩ hnot
  | object d f _ hobj _ =>
      obtain ⟨c, -, hd⟩ := hobj
      exact .inl ⟨d, f, hx, hd.rejected⟩
  | raise y _ hy => exact .inr ⟨y, hx, hy⟩

/-- Acceptance is the conjunction of the limits in force, and a rejection
carries the name and the code of the earliest control that is violated. An
order that is not admitted is rejected, unless the number to be reported is out
of the range of a float. -/
theorem evaluate_decides (files : Files) (e : PreTradeRiskEngine ℚ) (now : ℤ) (r : OrderRequest ℚ) :
    ((∃ f, evaluate files e now r = .ok (accepted, f)) ↔
      ∃ day, e.today now = .ok day ∧
        ∀ id, e.limits.isDisabled id = false → Permits files (e.rollTo day) now r id) ∧
    (∀ d f, evaluate files e now r = .ok (d, f) → d ≠ accepted →
      ∃ c, EarliestObjector files e now r c ∧ Objects r c.id c.name d) ∧
    ∀ day, e.today now = .ok day → ¬ Admits files e now r →
      (∃ d f, evaluate files e now r = .ok (d, f) ∧ d.accepted = false) ∨
        ∃ x, evaluate files e now r = .error x ∧ Overflows x :=
  ⟨accepts_iff_admits, fun _ _ h hd => earliestObjector_of_rejection h hd, fun _ hday hnot =>
    rejects_or_overflows hday hnot⟩

end PretradeRisk.Admission
