import PretradeRisk.Verdicts

namespace PretradeRisk.Twins

open Decision Engine Evaluate Host Orders Verdicts Walk Windows

variable {F : Type}

/-- Decisions that differ at most in their message, which names the leg. -/
structure SameVerdict (d d' : RiskDecision F) : Prop where
  accepted : d'.accepted = d.accepted
  code : d'.code = d.code
  control : d'.control = d.control
  limit : d'.limit = d.limit
  observed : d'.observed = d.observed

theorem SameVerdict.refl (d : RiskDecision F) : SameVerdict d d := ⟨rfl, rfl, rfl, rfl, rfl⟩

/-- Decisions of engines of the two legs, the same throughout where the legs
are. -/
def Agree (leg leg' : Bool) (d d' : RiskDecision F) : Prop := SameVerdict d d' ∧ (leg' = leg → d' = d)

theorem agree_refl {leg leg' : Bool} (d : RiskDecision F) : Agree leg leg' d d := ⟨.refl d, fun _ => rfl⟩

theorem agree_reject {leg leg' : Bool} {code : RejectCode} {control message message' : String}
    {limit observed : Option F} (h : leg' = leg → message' = message) :
    Agree leg leg' (.reject code control message limit observed) (.reject code control message' limit observed) :=
  ⟨⟨rfl, rfl, rfl, rfl, rfl⟩, fun hleg => by rw [h hleg]⟩

variable [Zero F] [LE F] [DecidableLE F] [PyFloat F]

/-- Engines that agree at `now` on all the controls read, each on the leg it
measures. -/
structure Alike (now : ℤ) (e f : PreTradeRiskEngine F) : Prop where
  limits : f.limits = e.limits
  overrides : f.overrides = e.overrides
  legPnl : f.legPnl = e.legPnl
  legPeak : f.legPeak = e.legPeak
  dailyNotional : f.counters.dailyNotional = e.counters.dailyNotional
  consecutiveRejects : f.counters.consecutiveRejects = e.counters.consecutiveRejects
  executionsSinceRearm : f.counters.executionsSinceRearm = e.counters.executionsSinceRearm
  rateWindow : f.rateWindow.prune now = e.rateWindow.prune now
  duplicateWindow : f.duplicateWindow.map (·.prune now) = e.duplicateWindow.map (·.prune now)

/-- A relation between engines that a walk at `now` keeps. -/
structure Walks (now : ℤ) (leg leg' : Bool) (related : PreTradeRiskEngine F → PreTradeRiskEngine F → Prop) : Prop where
  alike : ∀ {e f}, related e f → Alike now e f
  isLive : ∀ {e f}, related e f → e.isLive = leg ∧ f.isLive = leg'
  prune : ∀ {e f} rate duplicates, related e f →
    related (e.pruneWindows rate duplicates now) (f.pruneWindows rate duplicates now)

variable {files : Files} {now : ℤ} {r : OrderRequest F} {leg leg' : Bool} {e f : PreTradeRiskEngine F}
  {related : PreTradeRiskEngine F → PreTradeRiskEngine F → Prop}

theorem lockstep_of_eq {x x' : Except PyError (Verdict F)} (h : related e f) (hx : x' = x) :
    Lockstep (Agree leg leg') related (x.map (·, e)) (x'.map (·, f)) := by
  subst hx
  rcases x' with y | _ | d
  · exact .raise y
  · exact .pass h
  · exact .object (agree_refl d) h

theorem isSome_duplicateWindow_congr (h : f.limits = e.limits) :
    f.duplicateWindow.isSome = e.duplicateWindow.isSome := by
  rw [← Option.isSome_map (f := DuplicateWindow.windowMillis), f.duplicateWindow_configured, h,
    ← e.duplicateWindow_configured, Option.isSome_map]

theorem Alike.pruneWindows (h : Alike now e f) (rate duplicates : Bool) :
    Alike now (e.pruneWindows rate duplicates now) (f.pruneWindows rate duplicates now) :=
  { h with
    rateWindow := by cases rate <;> simp [PreTradeRiskEngine.pruneWindows, h.rateWindow]
    duplicateWindow := by
      have hduplicates := h.duplicateWindow
      cases duplicates <;> simpa [PreTradeRiskEngine.pruneWindows, Function.comp_def] using hduplicates }

theorem walks_alike (now : ℤ) (leg leg' : Bool) :
    Walks now leg leg' fun (e f : PreTradeRiskEngine F) => Alike now e f ∧ e.isLive = leg ∧ f.isLive = leg' where
  alike h := h.1
  isLive h := h.2
  prune rate duplicates h := ⟨h.1.pruneWindows rate duplicates, h.2⟩

/-- Two evaluations that raise the same, or answer with decisions that agree
and leave related engines. -/
inductive Answers (leg leg' : Bool) (related : PreTradeRiskEngine F → PreTradeRiskEngine F → Prop) :
    Except PyError (RiskDecision F × PreTradeRiskEngine F) → Except PyError (RiskDecision F × PreTradeRiskEngine F) →
      Prop
  | answer {d d' : RiskDecision F} {e f : PreTradeRiskEngine F} (hd : Agree leg leg' d d') (h : related e f) :
      Answers leg leg' related (.ok (d, e)) (.ok (d', f))
  | raise (x : PyError) : Answers leg leg' related (.error x) (.error x)

theorem Alike.floor [Sub F] (h : Alike now e f) : f.floor = e.floor := by
  rw [PreTradeRiskEngine.floor, PreTradeRiskEngine.floor, h.limits, h.legPeak]

variable [IntCast F]

theorem checkDuplicate_lockstep (hw : Walks now leg leg' related) (h : related e f) :
    Lockstep (Agree leg leg') related (checkDuplicate e r now) (checkDuplicate f r now) := by
  have ha := hw.alike h
  rw [checkDuplicate_eq, checkDuplicate_eq, ha.limits, ha.duplicateWindow]
  exact lockstep_of_eq (hw.prune false true h) rfl

theorem checkOrderRate_lockstep (hw : Walks now leg leg' related) (h : related e f) :
    Lockstep (Agree leg leg') related (checkOrderRate e now) (checkOrderRate f now) := by
  have ha := hw.alike h
  rw [checkOrderRate_eq, checkOrderRate_eq, ha.limits, ha.rateWindow]
  exact lockstep_of_eq (hw.prune true false h) rfl

variable [Sub F] [LT F] [DecidableLT F]

theorem Alike.breached (h : Alike now e f) : f.breached now = e.breached now := by
  rw [PreTradeRiskEngine.breached, PreTradeRiskEngine.breached, PreTradeRiskEngine.bypassActive,
    PreTradeRiskEngine.bypassActive, h.floor, h.overrides, h.legPnl]

theorem checkLossLimit_lockstep (hw : Walks now leg leg' related) (h : related e f) :
    Lockstep (Agree leg leg') related ((checkLossLimit e now).map (·, e)) ((checkLossLimit f now).map (·, f)) := by
  have ha := hw.alike h
  obtain ⟨he, hf⟩ := hw.isLive h
  simp only [checkLossLimit, ha.breached, ha.floor, ha.limits, ha.legPnl, ha.legPeak, he, hf]
  by_cases hbreached : e.breached now = true
  · simp only [hbreached, not_true_eq_false, if_false]
    cases e.floor with
    | none => exact .raise _
    | some floor =>
        cases e.limits.dailyLossLimitUsd with
        | none => exact .raise _
        | some limit =>
            simp only [operand_some, ok_bind, pure_eq_ok]
            exact .object (agree_reject fun hleg => by rw [hleg]) h
  · simp only [hbreached]
    exact .pass h

variable [One F] [Neg F] [Add F] [Mul F] [Div F]

theorem controlSequence_lockstep (hw : Walks now leg leg' related) : ∀ c ∈ controlSequence (F := F), ∀ e f,
    related e f → Lockstep (Agree leg leg') related (c.check files e r now) (c.check files f r now) := by
  simp only [controlSequence, List.forall_mem_cons, List.not_mem_nil, false_implies, implies_true, and_true,
    Control.reading]
  refine ⟨?_, fun e f h => checkLossLimit_lockstep hw h, ?_, ?_, ?_, ?_, ?_, ?_, ?_, ?_, ?_, ?_, ?_, ?_,
    fun e f h => checkDuplicate_lockstep hw h, fun e f h => checkOrderRate_lockstep hw h, ?_, ?_, ?_, ?_, ?_, ?_, ?_,
    ?_⟩ <;> intro e f h <;> refine lockstep_of_eq h ?_ <;> have ha := hw.alike h
  · rw [checkKillSwitch, checkKillSwitch, killSwitchEngaged, killSwitchEngaged, ha.limits]
  · simp only [checkInstrumentPermitted, ha.limits]
  · simp only [checkInstrumentRestricted, ha.limits]
  · simp only [checkSessionState, ha.limits]
  · rfl
  · rfl
  · rfl
  · rfl
  · simp only [checkMaxQuantity, PreTradeRiskEngine.effectiveMaxOrderQuantity, ha.limits, ha.overrides]
  · simp only [checkMaxNotional, PreTradeRiskEngine.effectiveMaxOrderNotional, ha.limits, ha.overrides]
  · simp only [checkQuoteAge, ha.limits]
  · simp only [checkPriceBand, ha.limits]
  · simp only [checkExecutionSlippage, ha.limits]
  · simp only [checkConsecutiveRejects, ha.limits, ha.consecutiveRejects]
  · simp only [checkRepeatedExecution, ha.limits, ha.executionsSinceRearm]
  · simp only [checkWorkingOrders, ha.limits]
  · simp only [checkOpenPositions, ha.limits]
  · simp only [checkPositionLimit, ha.limits]
  · rfl
  · simp only [checkGrossExposure, ha.limits]
  · simp only [checkDailyNotional, ha.limits, ha.dailyNotional]

theorem isArmed_of_limits (hlimits : f.limits = e.limits) (hoverrides : f.overrides = e.overrides) :
    ∀ c ∈ controlSequence (F := F), c.isArmed f = c.isArmed e :=
  isArmed_congr ⟨e.limits.disabledControls, by rw [hlimits]⟩ hoverrides (isSome_duplicateWindow_congr hlimits)

theorem isArmed_alike (h : Alike now e f) : ∀ c ∈ controlSequence (F := F), c.isArmed f = c.isArmed e :=
  isArmed_of_limits h.limits h.overrides

theorem runs_alike (h : Alike now e f) {c : Control F} (hc : c ∈ controlSequence (F := F)) : runs f c = runs e c := by
  rw [runs, runs, isArmed_alike h c hc, h.limits]

theorem evaluate_alike (hw : Walks now leg leg' related) (hday : f.today now = e.today now)
    (hroll : ∀ day, e.today now = .ok day → related (e.rollTo day) (f.rollTo day)) :
    Answers leg leg' related (evaluate files e now r) (evaluate files f now r) := by
  rw [evaluate, evaluate, PreTradeRiskEngine.rollTradingDay, PreTradeRiskEngine.rollTradingDay, hday]
  cases htoday : e.today now with
  | error x => exact .raise x
  | ok day =>
      have hwalk : Lockstep (Agree leg leg') related
          (firstObjection runs (fun c e => c.check files e r now) controlSequence (e.rollTo day))
          (firstObjection runs (fun c e => c.check files e r now) controlSequence (f.rollTo day)) :=
        firstObjection_lockstep (fun c hc s t h => runs_alike (hw.alike h) hc)
          (fun c hc s t h _ => controlSequence_lockstep hw c hc s t h) (hroll day htoday)
      simp only [ok_bind, pure_eq_ok]
      generalize firstObjection runs (fun c e => c.check files e r now) controlSequence (e.rollTo day) = x,
        firstObjection runs (fun c e => c.check files e r now) controlSequence (f.rollTo day) = y at hwalk
      cases hwalk with
      | pass h => exact .answer (agree_refl accepted) h
      | object hd h => exact .answer hd h
      | raise x => exact .raise x

end PretradeRisk.Twins
