import PretradeRisk.DayHistory

namespace PretradeRisk.ClockSteps

open Clock DayHistory Engine Host Ledger Limits Run Session Store

variable {F : Type}

/-- What an engine had been told, on the day its counters belong to, before
the run. -/
structure Past (F : Type) where
  day : String
  events : List (CounterEvent F)

def dayReports (p : Past F) (roll : ℤ) (day : String) (calls : List (Call F)) : List (CounterEvent F) :=
  (if day = p.day then p.events else []) ++ reportsOn roll day calls

def rolls : Op F → Bool
  | .report _ | .evaluate _ _ | .read => true
  | _ => false

theorem dayReports_snoc_of_ne {p : Past F} {calls : List (Call F)} {roll : ℤ} {day : String} {call : Call F}
    (h : ∀ event, call.op ≠ .report event) :
    dayReports p roll day (calls ++ [call]) = dayReports p roll day calls := by
  rw [dayReports, reportsOn_snoc_of_ne h, dayReports]

theorem dayReports_snoc_report {p : Past F} {calls : List (Call F)} {roll n : ℤ} {day : String} {event : CounterEvent F}
    (h : tradingDay n roll = .ok day) :
    dayReports p roll day (calls ++ [⟨n, .report event⟩]) = dayReports p roll day calls ++ [event] := by
  rw [dayReports, reportsOn_snoc_report h, ← List.append_assoc, dayReports]

theorem dayReports_append (p : Past F) (roll : ℤ) (day : String) (calls more : List (Call F)) :
    dayReports p roll day (calls ++ more) = dayReports p roll day calls ++ reportsOn roll day more := by
  rw [dayReports, reportsOn, List.filterMap_append, ← List.append_assoc]; rfl

theorem amounts_reportsOn_eq_nil {calls : List (Call F)} {isLive : Bool} {roll : ℤ} {day : String}
    (h : ∀ call ∈ calls, ∀ pnlUsd, call.op ≠ .report (.realizedPnl pnlUsd isLive)) :
    amounts isLive (reportsOn roll day calls) = [] := by
  rw [amounts, List.filterMap_eq_nil_iff]
  intro event hevent
  obtain ⟨⟨n, op⟩, hcall, heq⟩ := List.mem_filterMap.mp hevent
  cases op with
  | report report =>
      obtain rfl : report = event := by
        simp only at heq
        split at heq <;> simp_all
      cases report with
      | realizedPnl pnlUsd leg => exact if_neg (by rintro rfl; exact h _ hcall pnlUsd rfl)
      | _ => rfl
  | _ => cases heq

theorem holdsMoney_congr [Zero F] [Add F] [LT F] [DecidableLT F]
    {events : List (CounterEvent F)} {c c' : Counters F} (h : HoldsMoney events c)
    (hpnl : ∀ isLive, c'.legPnl isLive = c.legPnl isLive) (hpeak : ∀ isLive, c'.legPeak isLive = c.legPeak isLive)
    (hn : c'.dailyNotional = c.dailyNotional) : HoldsMoney events c' :=
  ⟨fun isLive => (hpnl isLive).trans (h.pnl isLive), fun isLive => (hpeak isLive).trans (h.peak isLive),
    hn.trans h.notional⟩

theorem holdsMoney_roll_iff [Zero F] [Add F] [LT F] [DecidableLT F] {events : List (CounterEvent F)}
    {c : Counters F} {day : String}
    (h : day ≠ c.tradingDay) : HoldsMoney events (c.roll day) ↔ HoldsMoney events (Counters.fresh day) := by
  rw [Counters.roll_of_ne h]
  constructor <;> intro h <;> refine holdsMoney_congr h ?_ ?_ rfl <;> intro isLive <;> cases isLive <;> rfl

section Runs

variable [Zero F] [Add F] [LE F] [LT F] [DecidableLE F] [DecidableLT F] [PyFloat F]

def HoldsOwnDay (p : Past F) (calls : List (Call F)) (d : Desk F) : Prop :=
  HoldsMoney (dayReports p d.engine.limits.sessionRollMillis d.engine.counters.tradingDay calls) d.engine.counters

theorem HoldsOwnDay.roll {p : Past F} {calls : List (Call F)} {d : Desk F} {day : String} (h : HoldsOwnDay p calls d)
    (hclean : day ≠ d.engine.counters.tradingDay →
      HoldsMoney (dayReports p d.engine.limits.sessionRollMillis day calls) (Counters.fresh day)) :
    HoldsMoney (dayReports p d.engine.limits.sessionRollMillis day calls) (d.engine.counters.roll day) := by
  by_cases hday : day = d.engine.counters.tradingDay
  · rw [Counters.roll_of_eq hday, hday]
    exact h
  · exact (holdsMoney_roll_iff hday).mpr (hclean hday)

variable [One F] [Neg F] [Sub F] [Mul F] [Div F] [IntCast F]

/-- At every call of the run that rolls to a day, the P&L, the peaks and the
notional in use are those of the day's reports so far. -/
def Remembers (p : Past F) (d₀ : Desk F) (calls : List (Call F)) : Prop :=
  ∀ before call after d day, calls = before ++ call :: after → Runs d₀ before d → rolls call.op = true →
    d.engine.today call.now = .ok day →
    HoldsMoney (dayReports p d₀.engine.limits.sessionRollMillis day before) (d.engine.counters.roll day)

/-- Whenever the run rolls to a day other than the one its counters are on,
the reports of that day so far amount to nothing. -/
def NeverReturns (p : Past F) (d₀ : Desk F) (calls : List (Call F)) : Prop :=
  ∀ before call after d day, calls = before ++ call :: after → Runs d₀ before d → rolls call.op = true →
    d.engine.today call.now = .ok day → day ≠ d.engine.counters.tradingDay →
    HoldsMoney (dayReports p d₀.engine.limits.sessionRollMillis day before) (Counters.fresh day)

/-- A breach stays while nothing is reported on the engine's own leg, short of
an active bypass. -/
def BreachStays (d₀ : Desk F) (calls : List (Call F)) : Prop :=
  ∀ before first middle second after d₁ d₂ day,
    calls = before ++ first :: (middle ++ second :: after) →
    Runs d₀ before d₁ → Runs d₀ (before ++ first :: middle) d₂ →
    rolls first.op = true → rolls second.op = true →
    d₁.engine.today first.now = .ok day → d₂.engine.today second.now = .ok day →
    (∀ call ∈ first :: middle, ∀ pnlUsd, call.op ≠ .report (.realizedPnl pnlUsd d₀.engine.isLive)) →
    (d₁.engine.rollTo day).breached first.now = true →
    d₂.engine.bypassActive second.now = true ∨ (d₂.engine.rollTo day).breached second.now = true

variable {p : Past F} {d₀ d d' : Desk F} {calls before after : List (Call F)}

theorem NeverReturns.of_append (h : NeverReturns p d₀ (before ++ after)) : NeverReturns p d₀ before := by
  intro front call back d day heq
  exact h front call (back ++ after) d day (by rw [heq]; simp)

theorem holdsOwnDay_step {call : Call F} (h : HoldsOwnDay p calls d) (hcall : d.perform call = .ok d')
    (hload : call.op ≠ .load)
    (hclean : ∀ day, rolls call.op = true → d.engine.today call.now = .ok day →
      day ≠ d.engine.counters.tradingDay →
      HoldsMoney (dayReports p d.engine.limits.sessionRollMillis day calls) (Counters.fresh day)) :
    HoldsOwnDay p (calls ++ [call]) d' := by
  obtain ⟨n, op⟩ := call
  obtain ⟨hlimits, -, hmoves⟩ := perform_moves hcall
  have hkeep (hc : d'.engine.counters = d.engine.counters) (hop : ∀ event, op ≠ .report event) :
      HoldsOwnDay p (calls ++ [⟨n, op⟩]) d' := by
    rw [HoldsOwnDay, hlimits, hc, dayReports_snoc_of_ne hop]
    exact h
  cases hmoves with
  | @report event day _ hday hc _ =>
      rw [HoldsOwnDay, hlimits, hc, CounterEvent.apply_tradingDay, Counters.roll_tradingDay,
        dayReports_snoc_report hday]
      exact (h.roll (hclean day rfl hday)).snoc event
  | @roll _ day _ hop hday hc _ =>
      have hnot : ∀ event, op ≠ .report event := by rcases hop with rfl | ⟨_, _, rfl⟩ <;> simp
      rw [HoldsOwnDay, hlimits, hc, Counters.roll_tradingDay, dayReports_snoc_of_ne hnot]
      exact h.roll (hclean day (by rcases hop with rfl | ⟨_, _, rfl⟩ <;> rfl) hday)
  | keep hop hc _ => exact hkeep hc (by rcases hop with rfl | ⟨_, rfl⟩ <;> simp)
  | load => exact absurd rfl hload
  | persist hc _ => exact hkeep hc (by simp)
  | control _ hc _ => exact hkeep hc (by simp)
  | outside hc _ => exact hkeep hc (by simp)

theorem runs_holdsOwnDay (h₀ : HoldsOwnDay p [] d₀) (hrun : Runs d₀ calls d)
    (hload : ∀ call ∈ calls, call.op ≠ .load) (hclean : NeverReturns p d₀ calls) : HoldsOwnDay p calls d := by
  induction hrun with
  | nil => exact h₀
  | @snoc calls d₁ call d₂ hrun hstep ih =>
      have h := ih (fun call hcall => hload call (List.mem_append_left _ hcall)) hclean.of_append
      refine holdsOwnDay_step h hstep (hload _ (by simp)) fun day hrolls hday hne => ?_
      rw [runs_limits hrun]
      exact hclean calls call [] d₁ day rfl hrun hrolls hday hne

theorem remembers_of_neverReturns (h₀ : HoldsOwnDay p [] d₀) (hload : ∀ call ∈ calls, call.op ≠ .load)
    (h : NeverReturns p d₀ calls) : Remembers p d₀ calls := by
  intro before call after d day heq hbefore hrolls hday
  subst heq
  have hown := runs_holdsOwnDay h₀ hbefore (fun c hc => hload c (List.mem_append_left _ hc)) h.of_append
  have hlimits := runs_limits hbefore
  rw [← hlimits]
  refine hown.roll fun hne => ?_
  rw [hlimits]
  exact h before call after d day rfl hbefore hrolls hday hne

theorem neverReturns_of_remembers (h : Remembers p d₀ calls) : NeverReturns p d₀ calls :=
  fun before call after d day heq hbefore hrolls hday hne =>
    (holdsMoney_roll_iff hne).mp (h before call after d day heq hbefore hrolls hday)

theorem breachStays_of_remembers (h : Remembers p d₀ calls) : BreachStays d₀ calls := by
  intro before first middle second after d₁ d₂ day heq hrun₁ hrun₂ hfirst hsecond hday₁ hday₂ hquiet hbreached
  have h₁ := h before first _ d₁ day heq hrun₁ hfirst hday₁
  have h₂ := h (before ++ first :: middle) second after d₂ day (by rw [heq]; simp) hrun₂ hsecond hday₂
  have hamounts : amounts d₀.engine.isLive
      (dayReports p d₀.engine.limits.sessionRollMillis day (before ++ first :: middle)) =
      amounts d₀.engine.isLive (dayReports p d₀.engine.limits.sessionRollMillis day before) := by
    rw [dayReports_append, amounts, List.filterMap_append, ← amounts, ← amounts,
      amounts_reportsOn_eq_nil hquiet, List.append_nil]
  have hpnl := (h₂.pnl d₀.engine.isLive).trans ((congrArg runningSum hamounts).trans (h₁.pnl _).symm)
  have hpeak := (h₂.peak d₀.engine.isLive).trans ((congrArg runningPeak hamounts).trans (h₁.peak _).symm)
  obtain ⟨limit, hlimit, -, hle⟩ := PreTradeRiskEngine.breached_iff.mp hbreached
  rw [or_iff_not_imp_left, Bool.not_eq_true]
  intro hbypass
  refine PreTradeRiskEngine.breached_iff.mpr ⟨limit, ?_, hbypass, ?_⟩
  · exact (congrArg (·.dailyLossLimitUsd) ((runs_limits hrun₂).trans (runs_limits hrun₁).symm)).trans hlimit
  · change (d₂.engine.counters.roll day).legPnl d₂.engine.isLive ≤
      (d₂.engine.counters.roll day).legPeak d₂.engine.isLive - limit
    rw [runs_isLive hrun₂, hpnl, hpeak, ← runs_isLive hrun₁]
    exact hle

/-- A run remembers every day exactly when it never comes back to a day it has
something to remember of, and what it remembers keeps a breach standing. -/
theorem remembers_iff_neverReturns (h₀ : HoldsOwnDay p [] d₀) (hload : ∀ call ∈ calls, call.op ≠ .load) :
    (Remembers p d₀ calls ↔ NeverReturns p d₀ calls) ∧ (NeverReturns p d₀ calls → BreachStays d₀ calls) :=
  ⟨⟨neverReturns_of_remembers, remembers_of_neverReturns h₀ hload⟩,
    fun h => breachStays_of_remembers (remembers_of_neverReturns h₀ hload h)⟩

theorem neverReturns_of_nondecreasing {limits : RiskLimits F} {isLive : Bool} {start : ℤ}
    {e : PreTradeRiskEngine F} {s : StateStore} (hnew : PreTradeRiskEngine.new limits isLive start = .ok e)
    (hload : ∀ call ∈ calls, call.op ≠ .load) (horder : Nondecreasing Call.now start calls) :
    NeverReturns ⟨e.counters.tradingDay, []⟩ ⟨e, s⟩ calls := by
  refine neverReturns_of_remembers fun before call after d day heq hrun _ hday => ?_
  subst heq
  rw [List.append_cons] at horder
  have horder := nondecreasing_snoc.mp horder.of_append
  have h := runs_tracks (tracks_new hnew s) hrun (fun c hc => hload c (List.mem_append_left _ hc)) horder.1
  rw [dayReports, ite_self, List.nil_append, ← runs_limits hrun]
  exact (h call.now horder.2 day hday).toHoldsMoney

end Runs

open scoped Decimal

def correctedClock : List (Call ℚ) :=
  [⟨noon, .report (.realizedPnl (-15) false)⟩, ⟨nextNoon, .read⟩, ⟨noon, .read⟩]

theorem correctedClock_forgets :
    ¬ Remembers ⟨"2026-07-20", []⟩ freshDesk correctedClock ∧
    ∃ d₁ d₂, Runs freshDesk (correctedClock.take 1) d₁ ∧ Runs freshDesk (correctedClock.take 2) d₂ ∧
      (d₁.engine.lossLimitBreached noon).map Prod.fst = .ok true ∧
      (d₂.engine.lossLimitBreached noon).map Prod.fst = .ok false := by
  have hrun₁ : Runs freshDesk (correctedClock.take 1) _ := Steps.single (perform_report tradingDay_noon)
  have hrun₂ : Runs freshDesk (correctedClock.take 2) _ := hrun₁.snoc (perform_read tradingDay_nextNoon)
  refine ⟨fun h => ?_, _, _, hrun₁, hrun₂, ?_, ?_⟩
  · have hlost := (h _ ⟨noon, .read⟩ [] _ "2026-07-20" rfl hrun₂ rfl tradingDay_noon).pnl false
    have hreports : dayReports ⟨"2026-07-20", []⟩ 0 "2026-07-20" (correctedClock.take 2) =
        [.realizedPnl (-15) false] := by
      simp [dayReports, reportsOn, correctedClock, tradingDay_noon, Except.toOption]
    rw [show freshDesk.engine.limits.sessionRollMillis = 0 from rfl, hreports] at hlost
    exact absurd hlost (by decide +kernel)
  · exact (congrArg _ (PreTradeRiskEngine.lossLimitBreached_of_today (by exact tradingDay_noon))).trans
      (by decide +kernel)
  · exact (congrArg _ (PreTradeRiskEngine.lossLimitBreached_of_today (by exact tradingDay_noon))).trans
      (by decide +kernel)

theorem remembers_iff_neverReturns_correctedClock :
    Remembers ⟨"2026-07-20", []⟩ freshDesk correctedClock ↔
      NeverReturns ⟨"2026-07-20", []⟩ freshDesk correctedClock := by
  have h₀ : HoldsOwnDay ⟨"2026-07-20", []⟩ [] freshDesk := (sumsTo_dayStart _ 0).toHoldsMoney
  exact (remembers_iff_neverReturns h₀ (by simp [correctedClock])).1

end PretradeRisk.ClockSteps
