import PretradeRisk.Session
import PretradeRisk.Twins
import PretradeRisk.Verdicts

namespace PretradeRisk.Hypothetical

open Engine Evaluate Host Orders Session Twins Verdicts

section Queries

variable {F : Type} [Zero F] [LE F] [DecidableLE F] [PyFloat F]

/-- The counters show nothing of the day on the engine's own leg. -/
structure Untouched (e : PreTradeRiskEngine F) : Prop where
  pnl : e.legPnl = 0
  peak : e.legPeak = 0
  dailyNotional : e.counters.dailyNotional = 0
  consecutiveRejects : e.counters.consecutiveRejects = 0

variable {e f : PreTradeRiskEngine F} {n : ℤ} {day : String}

omit [LE F] [DecidableLE F] [PyFloat F] in
/-- Rolls away from a day and back leave nothing of it. -/
theorem foldl_roll (days : List String) (c : Counters F) (day : String) :
    (days.foldl Counters.roll c).roll day =
      if ∀ d ∈ days, d = c.tradingDay then c.roll day else .dayStart day c.executionsSinceRearm := by
  induction days generalizing c with
  | nil => simp
  | cons d days ih =>
      rw [List.foldl_cons, ih]
      by_cases hd : d = c.tradingDay
      · rw [Counters.roll_of_eq hd]
        simp [hd]
      · have hnot : ¬ ∀ b ∈ d :: days, b = c.tradingDay := fun hall => hd (hall d List.mem_cons_self)
        rw [Counters.roll_of_ne hd, Counters.roll_dayStart, if_neg hnot]
        exact ite_self _

theorem property_of_today {α : Type} (read : PreTradeRiskEngine F → α) (h : e.today n = .ok day) :
    (e.property read n).map Prod.fst = .ok (read (e.rollTo day)) := by
  rw [PreTradeRiskEngine.property_of_today h]
  rfl

theorem property_of_not_today {α : Type} {x : PyError} (read : PreTradeRiskEngine F → α) (h : e.today n = .error x) :
    (e.property read n).map Prod.fst = .error x := by
  rw [PreTradeRiskEngine.property, PreTradeRiskEngine.rollTradingDay, h]
  rfl

theorem alike_refl (e : PreTradeRiskEngine F) (n : ℤ) : Alike n e e := ⟨rfl, rfl, rfl, rfl, rfl, rfl, rfl, rfl, rfl⟩

theorem untouched_dayStart (e : PreTradeRiskEngine F) (day : String) (k : ℕ) :
    Untouched (e.withCounters (.dayStart day k)) :=
  ⟨ite_self _, ite_self _, rfl, rfl⟩

theorem alike_dayStart (h : Untouched e) (n : ℤ) :
    Alike n e (e.withCounters (.dayStart e.counters.tradingDay e.counters.executionsSinceRearm)) where
  limits := rfl
  overrides := rfl
  legPnl := (untouched_dayStart e _ _).pnl.trans h.pnl.symm
  legPeak := (untouched_dayStart e _ _).peak.trans h.peak.symm
  dailyNotional := h.dailyNotional.symm
  consecutiveRejects := h.consecutiveRejects.symm
  executionsSinceRearm := rfl
  rateWindow := rfl
  duplicateWindow := rfl

variable [Sub F] [IntCast F] [LT F] [DecidableLT F]

inductive Query
  | lossLimitBreached (q : ℤ)
  | lossLimitBypassActive (q : ℤ)

/-- The engine once the question is answered, or has raised. -/
def Query.leaves (e : PreTradeRiskEngine F) : Query → PreTradeRiskEngine F
  | .lossLimitBreached q => match e.lossLimitBreached q with
      | .ok (_, f) => f
      | .error _ => e
  | .lossLimitBypassActive _ => e

def queried (e : PreTradeRiskEngine F) (queries : List Query) : PreTradeRiskEngine F :=
  queries.foldl Query.leaves e

/-- The trading dates asked about: an instant without one raises. -/
def dates (rollMillis : ℤ) (queries : List Query) : List String :=
  queries.filterMap fun query => match query with
    | .lossLimitBreached q => (Clock.tradingDay q rollMillis).toOption
    | .lossLimitBypassActive _ => none

theorem leaves_breached (e : PreTradeRiskEngine F) (q : ℤ) :
    Query.leaves e (.lossLimitBreached q) = match e.today q with
      | .ok day => e.rollTo day
      | .error _ => e := by
  rw [Query.leaves]
  cases hday : e.today q with
  | ok day => rw [PreTradeRiskEngine.lossLimitBreached_of_today hday]
  | error x =>
      rw [PreTradeRiskEngine.lossLimitBreached, PreTradeRiskEngine.property, PreTradeRiskEngine.rollTradingDay, hday]
      rfl

theorem queried_eq (e : PreTradeRiskEngine F) (queries : List Query) : queried e queries =
    e.withCounters ((dates e.limits.sessionRollMillis queries).foldl Counters.roll e.counters) := by
  induction queries generalizing e with
  | nil => rfl
  | cons query queries ih =>
      rw [queried, List.foldl_cons, ← queried, ih]
      cases query with
      | lossLimitBypassActive q => rfl
      | lossLimitBreached q =>
          rw [leaves_breached, PreTradeRiskEngine.today]
          cases hday : Clock.tradingDay q e.limits.sessionRollMillis with
          | ok day =>
              have hdates : dates e.limits.sessionRollMillis (.lossLimitBreached q :: queries) =
                  day :: dates e.limits.sessionRollMillis queries := by simp [dates, hday, Except.toOption]
              rw [hdates]
              rfl
          | error x =>
              have hdates : dates e.limits.sessionRollMillis (.lossLimitBreached q :: queries) =
                  dates e.limits.sessionRollMillis queries := by simp [dates, hday, Except.toOption]
              rw [hdates]

theorem today_queried (e : PreTradeRiskEngine F) (queries : List Query) (n : ℤ) :
    (queried e queries).today n = e.today n := by rw [queried_eq]; rfl

theorem queried_rollTo (e : PreTradeRiskEngine F) (queries : List Query) (day : String) :
    (queried e queries).rollTo day =
      if ∀ d ∈ dates e.limits.sessionRollMillis queries, d = e.counters.tradingDay then e.rollTo day
      else e.withCounters (.dayStart day e.counters.executionsSinceRearm) := by
  have hroll : (queried e queries).rollTo day = e.withCounters
      (((dates e.limits.sessionRollMillis queries).foldl Counters.roll e.counters).roll day) := by
    rw [queried_eq]
    rfl
  rw [hroll, foldl_roll]
  split <;> rfl

variable [One F] [Neg F] [Add F] [Mul F] [Div F]

/-- The next evaluation at `n`, and the four readings, come out as they would
have without the questions. -/
structure Undisturbed (e : PreTradeRiskEngine F) (queries : List Query) (n : ℤ) : Prop where
  decision : ∀ files r, decision files (queried e queries) n r = decision files e n r
  pnl : ((queried e queries).lossLimitPnl n).map Prod.fst = (e.lossLimitPnl n).map Prod.fst
  peak : ((queried e queries).lossLimitPeak n).map Prod.fst = (e.lossLimitPeak n).map Prod.fst
  dailyNotional : ((queried e queries).dailyNotional n).map Prod.fst = (e.dailyNotional n).map Prod.fst
  consecutiveRejects :
    ((queried e queries).consecutiveRejects n).map Prod.fst = (e.consecutiveRejects n).map Prod.fst

variable {queries : List Query}

theorem undisturbed_of_alike
    (h : ∀ day, e.today n = .ok day → Alike n (e.rollTo day) ((queried e queries).rollTo day)) :
    Undisturbed e queries n := by
  have htoday := today_queried e queries n
  have hread {α : Type} (read : PreTradeRiskEngine F → α)
      (hsame : ∀ day, e.today n = .ok day → read ((queried e queries).rollTo day) = read (e.rollTo day)) :
      ((queried e queries).property read n).map Prod.fst = (e.property read n).map Prod.fst := by
    cases hday : e.today n with
    | error x => rw [property_of_not_today read hday, property_of_not_today read (htoday.trans hday)]
    | ok day => rw [property_of_today read hday, property_of_today read (htoday.trans hday), hsame day hday]
  have hlive : (queried e queries).isLive = e.isLive := by rw [queried_eq]; rfl
  constructor
  · intro files r
    have hanswers : Answers e.isLive e.isLive (fun e' f => Alike n e' f ∧ e'.isLive = e.isLive ∧ f.isLive = e.isLive)
        (evaluate files e n r) (evaluate files (queried e queries) n r) :=
      evaluate_alike (walks_alike n e.isLive e.isLive) htoday fun day hday => ⟨h day hday, rfl, hlive⟩
    rw [decision, decision]
    generalize evaluate files e n r = x, evaluate files (queried e queries) n r = y at hanswers
    cases hanswers with
    | answer hd _ => exact congrArg Except.ok (hd.2 rfl)
    | raise x => rfl
  · exact hread _ fun day hday => (h day hday).legPnl
  · exact hread _ fun day hday => (h day hday).legPeak
  · exact hread _ fun day hday => (h day hday).dailyNotional
  · exact hread _ fun day hday => (h day hday).consecutiveRejects

theorem untouched_of_undisturbed (h : Undisturbed e queries n) (hday : e.today n = .ok e.counters.tradingDay)
    (haway : ¬ ∀ d ∈ dates e.limits.sessionRollMillis queries, d = e.counters.tradingDay) : Untouched e := by
  have hlost := queried_rollTo e queries e.counters.tradingDay
  rw [if_neg haway] at hlost
  have hday' := (today_queried e queries n).trans hday
  have hread {α : Type} (read : PreTradeRiskEngine F → α)
      (hsame : ((queried e queries).property read n).map Prod.fst = (e.property read n).map Prod.fst) :
      read e = read (e.withCounters (.dayStart e.counters.tradingDay e.counters.executionsSinceRearm)) := by
    rw [property_of_today read hday, property_of_today read hday', PreTradeRiskEngine.rollTo_of_eq rfl, hlost] at hsame
    exact (Except.ok.inj hsame).symm
  have hnew := untouched_dayStart e e.counters.tradingDay e.counters.executionsSinceRearm
  exact ⟨(hread _ h.pnl).trans hnew.pnl, (hread _ h.peak).trans hnew.peak, hread _ h.dailyNotional,
    hread _ h.consecutiveRejects⟩

/-- Questions about other instants disturb what comes next exactly where it
is on the day of the counters, one of them was about another day, and the day
had left anything on the engine's own leg. -/
theorem undisturbed_iff (e : PreTradeRiskEngine F) (queries : List Query) (n : ℤ) :
    Undisturbed e queries n ↔
      (e.today n = .ok e.counters.tradingDay →
        (∀ d ∈ dates e.limits.sessionRollMillis queries, d = e.counters.tradingDay) ∨ Untouched e) := by
  constructor
  · intro h hday
    rw [or_iff_not_imp_left]
    exact untouched_of_undisturbed h hday
  · refine fun h => undisturbed_of_alike fun day hday => ?_
    rw [queried_rollTo]
    split
    · exact alike_refl _ n
    · next haway =>
        by_cases hown : day = e.counters.tradingDay
        · subst hown
          have huntouched := (h hday).resolve_left haway
          rw [PreTradeRiskEngine.rollTo_of_eq rfl]
          exact alike_dayStart huntouched n
        · have heq : e.rollTo day = e.withCounters (.dayStart day e.counters.executionsSinceRearm) := by
            rw [PreTradeRiskEngine.rollTo, Counters.roll_of_ne hown]
          rw [heq]
          exact alike_refl _ n

end Queries

open scoped Decimal

def lossReported : PreTradeRiskEngine ℚ := (freshDesk.reported (.realizedPnl (-15) false) "2026-07-20").engine

theorem runs_lossReported :
    Runs freshDesk [⟨noon, .report (.realizedPnl (-15) false)⟩]
      (freshDesk.reported (.realizedPnl (-15) false) "2026-07-20") :=
  Run.Steps.single (perform_report tradingDay_noon)

/-- Asked about the next day, the engine forgets the loss that halts it. -/
theorem tomorrow_disturbs :
    PreTradeRiskEngine.new deskLimits false noon = .ok freshDesk.engine ∧
      Runs freshDesk [⟨noon, .report (.realizedPnl (-15) false)⟩]
        (freshDesk.reported (.realizedPnl (-15) false) "2026-07-20") ∧
      ¬ Undisturbed lossReported [.lossLimitBreached nextNoon] noon := by
  refine ⟨new_freshDesk, runs_lossReported, fun h => ?_⟩
  have hpnl := h.pnl
  exact absurd hpnl (by decide +kernel)

end PretradeRisk.Hypothetical
