import PretradeRisk.Ledger
import PretradeRisk.Session

namespace PretradeRisk.DayHistory

open Clock Engine Host Ledger Limits Run Session Store

section Amounts

variable {F : Type}

def amounts (isLive : Bool) (events : List (CounterEvent F)) : List F :=
  events.filterMap fun
    | .realizedPnl pnlUsd leg => if leg = isLive then some pnlUsd else none
    | _ => none

def notionals (events : List (CounterEvent F)) : List F :=
  events.filterMap fun
    | .notional notionalUsd => some notionalUsd
    | _ => none

def isRejection : CounterEvent F → Bool
  | .orderRejected => true
  | _ => false

def endsStreak : CounterEvent F → Bool
  | .orderAccepted | .rearm => true
  | _ => false

def rejectStreak (events : List (CounterEvent F)) : ℕ :=
  (events.rtakeWhile (!endsStreak ·)).countP isRejection

theorem rejectStreak_snoc (events : List (CounterEvent F)) (event : CounterEvent F) :
    rejectStreak (events ++ [event]) =
      if endsStreak event then 0 else rejectStreak events + (if isRejection event then 1 else 0) := by
  unfold rejectStreak
  rw [List.rtakeWhile_concat]
  cases endsStreak event <;> simp [List.countP_cons]

theorem amounts_snoc_realizedPnl (events : List (CounterEvent F)) (pnlUsd : F) (leg isLive : Bool) :
    amounts isLive (events ++ [.realizedPnl pnlUsd leg]) =
      if leg = isLive then amounts isLive events ++ [pnlUsd] else amounts isLive events := by
  unfold amounts
  split <;> simp_all

theorem amounts_snoc_of_ne {events : List (CounterEvent F)} {event : CounterEvent F} (isLive : Bool)
    (h : ∀ pnlUsd leg, event ≠ .realizedPnl pnlUsd leg) :
    amounts isLive (events ++ [event]) = amounts isLive events := by
  cases event <;> simp_all [amounts]

theorem notionals_snoc_of_ne {events : List (CounterEvent F)} {event : CounterEvent F}
    (h : ∀ notionalUsd, event ≠ .notional notionalUsd) : notionals (events ++ [event]) = notionals events := by
  cases event <;> simp_all [notionals]

end Amounts

section Sums

variable {F : Type} [Zero F] [Add F] [LT F] [DecidableLT F]

/-- Some amounts added one after another, as floats are. -/
def runningSum (amounts : List F) : F := amounts.foldl (· + ·) 0

def runningPeak (amounts : List F) : F := (amounts.inits.map runningSum).foldl pyMax 0

/-- The P&L, the peaks and the notional are those of some reports, in any
arithmetic. -/
structure HoldsMoney (events : List (CounterEvent F)) (c : Counters F) : Prop where
  pnl : ∀ isLive, c.legPnl isLive = runningSum (amounts isLive events)
  peak : ∀ isLive, c.legPeak isLive = runningPeak (amounts isLive events)
  notional : c.dailyNotional = runningSum (notionals events)

structure SumsTo (events : List (CounterEvent F)) (c : Counters F) : Prop extends HoldsMoney events c where
  rejects : c.consecutiveRejects = rejectStreak events

def tally (c : Counters F) (events : List (CounterEvent F)) : Counters F := events.foldl (fun c event => event.apply c) c

omit [Zero F] in
theorem tally_snoc (c : Counters F) (events : List (CounterEvent F)) (event : CounterEvent F) :
    tally c (events ++ [event]) = event.apply (tally c events) := by
  rw [tally, List.foldl_append]
  rfl

omit [LT F] [DecidableLT F] in
theorem runningSum_snoc (xs : List F) (x : F) : runningSum (xs ++ [x]) = runningSum xs + x := by
  rw [runningSum, List.foldl_append]
  rfl

theorem runningPeak_snoc (xs : List F) (x : F) : runningPeak (xs ++ [x]) = pyMax (runningPeak xs) (runningSum xs + x) := by
  have hinits : (xs ++ [x]).inits = xs.inits ++ [xs ++ [x]] := by simp [List.inits_append]
  rw [runningPeak, hinits, List.map_append, List.foldl_append, List.map_singleton, runningSum_snoc]
  rfl

theorem sumsTo_dayStart (today : String) (n : ℕ) : SumsTo ([] : List (CounterEvent F)) (Counters.dayStart today n) where
  pnl isLive := by cases isLive <;> rfl
  peak isLive := by
    have hpeak : runningPeak ([] : List F) = 0 := ite_self 0
    cases isLive <;> exact hpeak.symm
  notional := rfl
  rejects := rfl

theorem sumsTo_roll_of_ne {c : Counters F} {day : String} (h : day ≠ c.tradingDay) :
    SumsTo [] (c.roll day) := by
  rw [Counters.roll_of_ne h]
  exact sumsTo_dayStart day _

theorem HoldsMoney.snoc {events : List (CounterEvent F)} {c : Counters F} (h : HoldsMoney events c)
    (event : CounterEvent F) : HoldsMoney (events ++ [event]) (event.apply c) := by
  obtain ⟨hpnl, hpeak, hnotional⟩ := h
  cases event with
  | realizedPnl pnlUsd leg =>
      refine ⟨fun isLive => ?_, fun isLive => ?_, ?_⟩
      · have hl := hpnl isLive
        rw [amounts_snoc_realizedPnl]
        cases leg <;> cases isLive <;> simp_all [CounterEvent.apply, Counters.legPnl, runningSum_snoc]
      · have hl := hpnl isLive
        have hp := hpeak isLive
        rw [amounts_snoc_realizedPnl]
        cases leg <;> cases isLive <;>
          simp_all [CounterEvent.apply, Counters.legPnl, Counters.legPeak, runningPeak_snoc]
      · rw [notionals_snoc_of_ne (by simp), ← hnotional]
        cases leg <;> rfl
  | notional notionalUsd =>
      refine ⟨fun isLive => ?_, fun isLive => ?_, ?_⟩
      · rw [amounts_snoc_of_ne isLive (by simp)]; exact hpnl isLive
      · rw [amounts_snoc_of_ne isLive (by simp)]; exact hpeak isLive
      · have hlast : notionals (events ++ [.notional notionalUsd]) = notionals events ++ [notionalUsd] := by
          simp [notionals]
        rw [hlast, runningSum_snoc, ← hnotional]
        rfl
  | _ =>
      refine ⟨fun isLive => ?_, fun isLive => ?_, ?_⟩
      · rw [amounts_snoc_of_ne isLive (by simp)]; exact hpnl isLive
      · rw [amounts_snoc_of_ne isLive (by simp)]; exact hpeak isLive
      · rw [notionals_snoc_of_ne (by simp)]; exact hnotional

theorem SumsTo.snoc {events : List (CounterEvent F)} {c : Counters F} (h : SumsTo events c) (event : CounterEvent F) :
    SumsTo (events ++ [event]) (event.apply c) := by
  refine ⟨h.toHoldsMoney.snoc event, ?_⟩
  rw [rejectStreak_snoc, ← h.rejects]
  cases event with
  | realizedPnl _ leg => cases leg <;> rfl
  | _ => rfl

theorem SumsTo.tally {earlier : List (CounterEvent F)} {c : Counters F} (h : SumsTo earlier c)
    (events : List (CounterEvent F)) : SumsTo (earlier ++ events) (tally c events) := by
  induction events using List.reverseRecOn with
  | nil => rwa [List.append_nil]
  | append_singleton events event ih =>
      rw [← List.append_assoc, tally_snoc]
      exact ih.snoc event

end Sums

section Reports

variable {F : Type}

def reportsOn (roll : ℤ) (day : String) (calls : List (Call F)) : List (CounterEvent F) :=
  calls.filterMap fun call =>
    match call.op with
    | .report event => if (tradingDay call.now roll).toOption = some day then some event else none
    | _ => none

theorem reportsOn_snoc_of_ne {roll : ℤ} {day : String} {calls : List (Call F)} {call : Call F}
    (h : ∀ event, call.op ≠ .report event) : reportsOn roll day (calls ++ [call]) = reportsOn roll day calls := by
  obtain ⟨n, op⟩ := call
  cases op <;> simp_all [reportsOn]

theorem reportsOn_snoc_report {roll n : ℤ} {day : String} {calls : List (Call F)} {event : CounterEvent F}
    (h : tradingDay n roll = .ok day) :
    reportsOn roll day (calls ++ [⟨n, .report event⟩]) = reportsOn roll day calls ++ [event] := by
  simp [reportsOn, h, Except.toOption]

theorem reportsOn_eq_nil {roll m n : ℤ} {s t : String} {calls : List (Call F)} (hm : tradingDay m roll = .ok s)
    (hn : tradingDay n roll = .ok t) (hst : s ≠ t) (hmn : m ≤ n) (hcalls : ∀ call ∈ calls, call.now ≤ m) :
    reportsOn roll t calls = [] := by
  rw [reportsOn, List.filterMap_eq_nil_iff]
  intro call hcall
  split
  · rw [if_neg]
    intro hday
    cases hk : tradingDay call.now roll with
    | error x => simp [hk, Except.toOption] at hday
    | ok day =>
        obtain rfl : day = t := by simpa [hk, Except.toOption] using hday
        exact hst (tradingDay_between hk hm hn (hcalls call hcall) hmn)
  · rfl

variable [Zero F] [Add F] [LE F] [LT F] [DecidableLE F] [DecidableLT F] [PyFloat F]

/-- On every trading day the run can go on to, the rolled counters are what
that day's reports amount to. -/
def Tracks (start : ℤ) (calls : List (Call F)) (d : Desk F) : Prop :=
  ∀ n, Upto Call.now start calls n → ∀ day, d.engine.today n = .ok day →
    SumsTo (reportsOn d.engine.limits.sessionRollMillis day calls) (d.engine.counters.roll day)

theorem tracks_new {limits : RiskLimits F} {isLive : Bool} {start : ℤ} {e : PreTradeRiskEngine F}
    (h : PreTradeRiskEngine.new limits isLive start = .ok e) (s : StateStore) : Tracks start [] ⟨e, s⟩ := by
  obtain ⟨today, -, rfl⟩ := new_eq_ok.mp h
  intro n _ day _
  have hroll : (Counters.fresh today : Counters F).roll day = .dayStart day 0 := Counters.roll_dayStart today day 0
  exact hroll ▸ sumsTo_dayStart day 0

theorem Tracks.of_current {start n : ℤ} {calls : List (Call F)} {op : Op F} {d d' : Desk F} {day : String}
    (hlimits : d'.engine.limits = d.engine.limits) (hday : d.engine.today n = .ok day)
    (hc : d'.engine.counters.tradingDay = day) (hupto : Upto Call.now start calls n)
    (h : SumsTo (reportsOn d.engine.limits.sessionRollMillis day (calls ++ [⟨n, op⟩])) d'.engine.counters) :
    Tracks start (calls ++ [⟨n, op⟩]) d' := by
  intro m hm t ht
  obtain ⟨-, hnm⟩ := upto_snoc.mp hm
  rw [PreTradeRiskEngine.today, hlimits] at ht
  rw [hlimits]
  by_cases he : t = day
  · rw [Counters.roll_of_eq (he.trans hc.symm), he]
    exact h
  · rw [reportsOn_eq_nil hday ht (Ne.symm he) hnm]
    · exact sumsTo_roll_of_ne fun k => he (k.trans hc)
    · intro call hcall
      rcases List.mem_append.mp hcall with hcall | hcall
      · exact hupto.le call hcall
      · rw [List.mem_singleton.mp hcall]

theorem Tracks.of_unchanged {start : ℤ} {calls : List (Call F)} {call : Call F} {d d' : Desk F}
    (h : Tracks start calls d) (hlimits : d'.engine.limits = d.engine.limits)
    (hc : d'.engine.counters = d.engine.counters) (hop : ∀ event, call.op ≠ .report event) :
    Tracks start (calls ++ [call]) d' := by
  intro n hn day hday
  rw [PreTradeRiskEngine.today, hlimits] at hday
  rw [hlimits, hc, reportsOn_snoc_of_ne hop]
  exact h n (upto_snoc.mp hn).1 day hday

variable [One F] [Neg F] [Sub F] [Mul F] [Div F] [IntCast F]

theorem tracks_step {start : ℤ} {calls : List (Call F)} {call : Call F} {d d' : Desk F}
    (h : Tracks start calls d) (hcall : d.perform call = .ok d') (hload : call.op ≠ .load)
    (hupto : Upto Call.now start calls call.now) : Tracks start (calls ++ [call]) d' := by
  obtain ⟨n, op⟩ := call
  obtain ⟨hlimits, -, hmoves⟩ := perform_moves hcall
  cases hmoves with
  | report hday hc _ =>
      refine .of_current hlimits hday (by rw [hc]; simp) hupto ?_
      rw [reportsOn_snoc_report hday, hc]
      exact (h n hupto _ hday).snoc _
  | roll hop hday hc _ =>
      refine .of_current hlimits hday (by rw [hc]; simp) hupto ?_
      rw [reportsOn_snoc_of_ne (by rcases hop with rfl | ⟨_, _, rfl⟩ <;> simp), hc]
      exact h n hupto _ hday
  | keep hop hc _ => exact h.of_unchanged hlimits hc (by rcases hop with rfl | ⟨_, rfl⟩ <;> simp)
  | load => exact absurd rfl hload
  | persist hc _ => exact h.of_unchanged hlimits hc (by simp)
  | control _ hc _ => exact h.of_unchanged hlimits hc (by simp)
  | outside hc _ => exact h.of_unchanged hlimits hc (by simp)

theorem runs_tracks {start : ℤ} {calls : List (Call F)} {d₀ d : Desk F} (h₀ : Tracks start [] d₀)
    (hrun : Runs d₀ calls d) (hload : ∀ call ∈ calls, call.op ≠ .load)
    (horder : Nondecreasing Call.now start calls) : Tracks start calls d := by
  induction hrun with
  | nil => exact h₀
  | snoc _ hstep ih =>
      obtain ⟨horder, hupto⟩ := nondecreasing_snoc.mp horder
      have h := ih (fun call hcall => hload call (List.mem_append_left _ hcall)) horder
      exact tracks_step h hstep (hload _ (by simp)) hupto

end Reports

/-- Both legs, their P&L and its high water mark, as some reports leave
them. -/
structure HoldsLegs (events : List (CounterEvent ℚ)) (c : Counters ℚ) : Prop where
  pnl : ∀ isLive, c.legPnl isLive = (amounts isLive events).sum
  peak : ∀ isLive, IsHighWater (amounts isLive events) (c.legPeak isLive)

theorem HoldsLegs.snoc {events : List (CounterEvent ℚ)} {c : Counters ℚ} (h : HoldsLegs events c)
    (event : CounterEvent ℚ) : HoldsLegs (events ++ [event]) (event.apply c) := by
  cases event with
  | realizedPnl pnlUsd leg =>
      refine ⟨fun isLive => ?_, fun isLive => ?_⟩
      · have hl := h.pnl isLive
        rw [amounts_snoc_realizedPnl]
        cases leg <;> cases isLive <;> simpa [CounterEvent.apply, Counters.legPnl] using hl
      · have hl := h.pnl isLive
        have hp := h.peak isLive
        rw [amounts_snoc_realizedPnl]
        cases leg <;> cases isLive <;>
          simp_all [CounterEvent.apply, Counters.legPnl, Counters.legPeak, IsHighWater.snoc]
  | _ =>
      refine ⟨fun isLive => ?_, fun isLive => ?_⟩
      · rw [amounts_snoc_of_ne isLive (by simp)]; exact h.pnl isLive
      · rw [amounts_snoc_of_ne isLive (by simp)]; exact h.peak isLive

theorem runningSum_eq_sum (xs : List ℚ) : runningSum xs = xs.sum := List.sum_eq_foldl.symm

theorem isHighWater_runningPeak (xs : List ℚ) : IsHighWater xs (runningPeak xs) := by
  induction xs using List.reverseRecOn with
  | nil => exact isHighWater_nil
  | append_singleton xs x ih =>
      rw [runningPeak_snoc, pyMax_eq_max, runningSum_eq_sum]
      exact ih.snoc x

structure AmountsTo (events : List (CounterEvent ℚ)) (c : Counters ℚ) : Prop extends HoldsLegs events c where
  notional : c.dailyNotional = (notionals events).sum
  rejects : c.consecutiveRejects = rejectStreak events

theorem amountsTo_iff_sumsTo {events : List (CounterEvent ℚ)} {c : Counters ℚ} :
    AmountsTo events c ↔ SumsTo events c := by
  constructor
  · rintro ⟨⟨hpnl, hpeak⟩, hnotional, hrejects⟩
    exact ⟨⟨fun isLive => (hpnl isLive).trans (runningSum_eq_sum _).symm,
      fun isLive => (hpeak isLive).unique (isHighWater_runningPeak _),
      hnotional.trans (runningSum_eq_sum _).symm⟩, hrejects⟩
  · rintro ⟨⟨hpnl, hpeak, hnotional⟩, hrejects⟩
    exact ⟨⟨fun isLive => (hpnl isLive).trans (runningSum_eq_sum _),
      fun isLive => hpeak isLive ▸ isHighWater_runningPeak _⟩, hnotional.trans (runningSum_eq_sum _), hrejects⟩

theorem amountsTo_dayStart (today : String) (n : ℕ) : AmountsTo [] (Counters.dayStart today n) :=
  amountsTo_iff_sumsTo.mpr (sumsTo_dayStart today n)

theorem AmountsTo.tally {earlier : List (CounterEvent ℚ)} {c : Counters ℚ} (h : AmountsTo earlier c)
    (events : List (CounterEvent ℚ)) : AmountsTo (earlier ++ events) (tally c events) :=
  amountsTo_iff_sumsTo.mpr ((amountsTo_iff_sumsTo.mp h).tally events)

section Runs

variable [PyFloat ℚ]

/-- The counters are exactly the day's history, and the loss limit is
breached exactly when that history is drawn down by the limit. -/
theorem counters_eq_history {limits : RiskLimits ℚ} {isLive : Bool} {start n : ℤ} {e₀ : PreTradeRiskEngine ℚ}
    {s₀ : StateStore} {calls : List (Call ℚ)} {d : Desk ℚ} {day : String}
    (hnew : PreTradeRiskEngine.new limits isLive start = .ok e₀) (hrun : Runs ⟨e₀, s₀⟩ calls d)
    (hload : ∀ call ∈ calls, call.op ≠ .load) (horder : Nondecreasing Call.now start calls)
    (hn : Upto Call.now start calls n) (hday : tradingDay n limits.sessionRollMillis = .ok day) :
    d.engine.rollTradingDay n = .ok (d.engine.rollTo day) ∧
    (let events := reportsOn limits.sessionRollMillis day calls
     let counters := (d.engine.rollTo day).counters
     (∀ leg, counters.legPnl leg = (amounts leg events).sum ∧
        IsHighWater (amounts leg events) (counters.legPeak leg) ∧
        0 ≤ counters.legPeak leg ∧ counters.legPnl leg ≤ counters.legPeak leg) ∧
      counters.dailyNotional = (notionals events).sum ∧
      counters.consecutiveRejects = rejectStreak events ∧
      ∃ b, d.engine.lossLimitBreached n = .ok (b, d.engine.rollTo day) ∧
        (b = true ↔ ∃ limit, limits.dailyLossLimitUsd = some limit ∧
          ¬ (d.engine.overrides.bypassLossLimit = true ∧
            ∃ expiresAt, d.engine.overrides.bypassExpiresAt = some expiresAt ∧ (n : ℚ) < expiresAt) ∧
          limit ≤ counters.legPeak isLive - counters.legPnl isLive)) := by
  obtain ⟨hlimits, hleg⟩ := runs_configured hnew hrun
  have htoday : d.engine.today n = .ok day := by rw [PreTradeRiskEngine.today, hlimits, hday]
  have hroll : d.engine.rollTradingDay n = .ok (d.engine.rollTo day) := by
    rw [PreTradeRiskEngine.rollTradingDay, htoday]; rfl
  have h := amountsTo_iff_sumsTo.mpr (runs_tracks (tracks_new hnew s₀) hrun hload horder n hn day htoday)
  rw [hlimits] at h
  refine ⟨hroll, fun leg => ⟨h.pnl leg, h.peak leg, (h.peak leg).nonneg, ?_⟩, h.notional, h.rejects,
    (d.engine.rollTo day).breached n, ?_, ?_⟩
  · exact (h.pnl leg).trans_le (h.peak leg).sum_le
  · exact PreTradeRiskEngine.lossLimitBreached_of_today htoday
  · rw [PreTradeRiskEngine.breached_iff, ← Overrides.bypassActive_iff, ← hlimits, ← hleg, Bool.not_eq_true]
    simp only [le_sub_comm]
    rfl

end Runs

open scoped Decimal

def twoDays : List (Call ℚ) :=
  [⟨noon, .report (.realizedPnl (-20) false)⟩, ⟨nextNoon, .report (.realizedPnl 6 false)⟩,
    ⟨nextNoon, .report (.realizedPnl (-12) false)⟩]

def yesterday : Desk ℚ := freshDesk.reported (.realizedPnl (-20) false) "2026-07-20"

def gained : Desk ℚ := yesterday.reported (.realizedPnl 6 false) "2026-07-21"

theorem noon_le_nextNoon : noon ≤ nextNoon := by decide

theorem reportsOn_twoDays : reportsOn 0 "2026-07-21" twoDays = [.realizedPnl 6 false, .realizedPnl (-12) false] := by
  simp [reportsOn, twoDays, tradingDay_noon, tradingDay_nextNoon, Except.toOption]

/-- The loss of 20 is of the day before: it is 12 down from a gain of 6. -/
theorem counters_eq_history_loss : ∃ d, Runs freshDesk twoDays d ∧
    (d.engine.rollTo "2026-07-21").counters.legPnl false = -6 ∧
    d.engine.lossLimitBreached nextNoon = .ok (true, d.engine.rollTo "2026-07-21") := by
  have hfirst : freshDesk.perform twoDays[0] = .ok yesterday := perform_report tradingDay_noon
  have hgain : yesterday.perform twoDays[1] = .ok gained := perform_report tradingDay_nextNoon
  have hloss : gained.perform twoDays[2] = .ok (gained.reported (.realizedPnl (-12) false) "2026-07-21") :=
    perform_report tradingDay_nextNoon
  have hlast : Runs freshDesk twoDays (gained.reported (.realizedPnl (-12) false) "2026-07-21") :=
    ((Steps.single hfirst).snoc hgain).snoc hloss
  obtain ⟨-, hlegs, -, -, b, hb, hiff⟩ := counters_eq_history new_freshDesk hlast (by simp [twoDays])
    (by simp [Nondecreasing, twoDays, noon_le_nextNoon]) ⟨noon_le_nextNoon, by simp [twoDays, noon_le_nextNoon]⟩
    tradingDay_nextNoon
  refine ⟨_, hlast, ?_, ?_⟩
  · have hsum := (hlegs false).1
    rw [hsum]
    change (amounts false (reportsOn 0 "2026-07-21" twoDays)).sum = -6
    rw [reportsOn_twoDays]
    decide +kernel
  · rw [hb, hiff.mpr ⟨10, rfl, fun h => Bool.noConfusion h.1, by decide +kernel⟩]

end PretradeRisk.DayHistory
