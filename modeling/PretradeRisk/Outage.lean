import PretradeRisk.DayHistory
import PretradeRisk.Executions
import PretradeRisk.Restart

namespace PretradeRisk.Outage

open Clock DayHistory Engine Executions Host Limits Restart Run Session Snapshot Store

structure Attempt (F : Type) where
  now : ℤ
  event : CounterEvent F
  /-- whether `set_many` writes the batch; it raises and writes nothing where
  it does not -/
  lands : Bool

section Counts

variable {F : Type}

def Attempt.call (attempt : Attempt F) : Call F := ⟨attempt.now, .report attempt.event⟩

/-- The executions since the last re-arm, which may be before the events. -/
def executionsFrom (executions : ℕ) (events : List (CounterEvent F)) : ℕ :=
  if events.any isRearm then executionsIn events else executions + executionsIn events

theorem executionsFrom_snoc (executions : ℕ) (events : List (CounterEvent F)) (event : CounterEvent F) :
    executionsFrom executions (events ++ [event]) =
      if isRearm event then 0 else executionsFrom executions events + (if isExecution event then 1 else 0) := by
  rw [executionsFrom, executionsFrom, executionsIn_snoc, List.any_append]
  by_cases hrearm : isRearm event = true
  · simp [hrearm]
  · cases hany : events.any isRearm <;> simp [hrearm, add_assoc]

variable [Add F] [LT F] [DecidableLT F]

theorem executionsSinceRearm_apply (event : CounterEvent F) (c : Counters F) :
    (event.apply c).executionsSinceRearm =
      if isRearm event then 0 else c.executionsSinceRearm + (if isExecution event then 1 else 0) := by
  cases event with
  | realizedPnl _ leg => cases leg <;> rfl
  | _ => rfl

theorem apply_withExecutions (event : CounterEvent F) (c : Counters F) (executions : ℕ) :
    event.apply { c with executionsSinceRearm := executions } =
      { event.apply c with
        executionsSinceRearm := if isRearm event then 0 else executions + (if isExecution event then 1 else 0) } := by
  cases event with
  | realizedPnl _ leg => cases leg <;> rfl
  | _ => rfl

variable [Zero F] {attempt : Attempt F} {attempts : List (Attempt F)} {rollMillis : ℤ} {day : String} {c : Counters F}

/-- The counters of a day that started from `c`: each event of the day once,
in order, and of all events the executions since the last re-arm. -/
def accounted (rollMillis : ℤ) (day : String) (c : Counters F) (attempts : List (Attempt F)) : Counters F :=
  { tally (c.roll day) (reportsOn rollMillis day (attempts.map Attempt.call)) with
    executionsSinceRearm := executionsFrom c.executionsSinceRearm (attempts.map Attempt.event) }

theorem sumsTo_accounted {earlier : List (CounterEvent F)} (h : SumsTo earlier (c.roll day)) :
    SumsTo (earlier ++ reportsOn rollMillis day (attempts.map Attempt.call)) (accounted rollMillis day c attempts) := by
  obtain ⟨⟨hpnl, hpeak, hnotional⟩, hrejects⟩ := h.tally (reportsOn rollMillis day (attempts.map Attempt.call))
  exact ⟨⟨hpnl, hpeak, hnotional⟩, hrejects⟩

theorem accounted_nil (rollMillis : ℤ) (day : String) (c : Counters F) : accounted rollMillis day c [] = c.roll day :=
  Counters.ext rfl rfl rfl rfl rfl rfl rfl (Counters.roll_executionsSinceRearm c day).symm

theorem accounted_snoc_of_day (hday : tradingDay attempt.now rollMillis = .ok day) :
    accounted rollMillis day c (attempts ++ [attempt]) = attempt.event.apply (accounted rollMillis day c attempts) := by
  have hreports : reportsOn rollMillis day ((attempts ++ [attempt]).map Attempt.call) =
      reportsOn rollMillis day (attempts.map Attempt.call) ++ [attempt.event] := by
    rw [List.map_append]
    exact reportsOn_snoc_report hday
  rw [accounted, accounted, apply_withExecutions, hreports, tally_snoc, List.map_append]
  simp only [List.map_cons, List.map_nil, executionsFrom_snoc]

end Counts

section Attempts

variable {F : Type} [Zero F] [Add F] [IntCast F] [LE F] [LT F] [DecidableLE F] [DecidableLT F] [PyFloat F]

def Desk.attempt (d : Desk F) (attempt : Attempt F) : Except PyError (Desk F) := do
  let e ← d.engine.record attempt.event attempt.now
  return ⟨e, if attempt.lands then e.persist d.store else d.store⟩

abbrev Attempts (d : Desk F) (attempts : List (Attempt F)) (d' : Desk F) : Prop :=
  Steps (fun d attempt d' => Desk.attempt d attempt = .ok d') d attempts d'

variable {d₀ d d' u : Desk F} {attempt : Attempt F} {attempts : List (Attempt F)} {n n₀ rollMillis : ℤ} {day : String}
  {c : Counters F} {events : List (CounterEvent F)} {event : CounterEvent F}

theorem attempt_eq_ok : Desk.attempt d attempt = .ok d' ↔ ∃ day, d.engine.today attempt.now = .ok day ∧
    d'.engine = (d.reported attempt.event day).engine ∧
    d'.store = if attempt.lands then (d.reported attempt.event day).store else d.store := by
  simp only [Desk.attempt, PreTradeRiskEngine.record, PreTradeRiskEngine.rollTradingDay, bind_eq_ok, pure_eq_ok,
    Except.ok.injEq]
  constructor
  · rintro ⟨_, ⟨_, ⟨day, hday, rfl⟩, rfl⟩, rfl⟩
    exact ⟨day, hday, rfl, rfl⟩
  · rintro ⟨day, hday, hengine, hstore⟩
    refine ⟨_, ⟨_, ⟨day, hday, rfl⟩, rfl⟩, ?_⟩
    cases d'
    exact congrArg₂ Desk.mk hengine.symm hstore.symm

theorem store_of_failing (h : Attempts d attempts d') (hfailing : ∀ a ∈ attempts, a.lands = false) :
    d'.store = d.store := by
  induction h with
  | nil => rfl
  | @snoc attempts d₁ attempt d₂ _ hstep ih =>
      obtain ⟨day, -, -, hstore⟩ := attempt_eq_ok.mp hstep
      rw [hstore, hfailing attempt (by simp)]
      exact ih fun a ha => hfailing a (List.mem_append_left _ ha)

theorem mirrors_of_lands (h : Desk.attempt d attempt = .ok d') (hlands : attempt.lands = true) :
    Mirrors d'.store d'.engine.counters := by
  obtain ⟨day, -, hengine, hstore⟩ := attempt_eq_ok.mp h
  rw [hstore, if_pos hlands, hengine]
  exact mirrors_setMany _ _

theorem tradingDay_of_attempt (h : Desk.attempt d attempt = .ok d') (hday : d'.engine.today attempt.now = .ok day) :
    d'.engine.counters.tradingDay = day := by
  obtain ⟨today, htoday, hengine, -⟩ := attempt_eq_ok.mp h
  have hlimits : d'.engine.limits = d.engine.limits := by rw [hengine]; rfl
  rw [PreTradeRiskEngine.today, hlimits] at hday
  rw [hengine, ← Except.ok.inj (htoday.symm.trans hday)]
  simp [Desk.reported, PreTradeRiskEngine.withCounters]

/-- On every trading day the run can go on to, the memory accounts for it. -/
def Accounts (n₀ : ℤ) (c₀ : Counters F) (attempts : List (Attempt F)) (d : Desk F) : Prop :=
  ∀ n, Upto Attempt.now n₀ attempts n → ∀ day, d.engine.today n = .ok day →
    d.engine.counters.roll day = accounted d.engine.limits.sessionRollMillis day c₀ attempts

theorem accounts_step {c₀ : Counters F} {m : ℤ} (hm : d.engine.today m = .ok c₀.tradingDay) (hmn : m ≤ n₀)
    (h : Accounts n₀ c₀ attempts d) (hstep : Desk.attempt d attempt = .ok d')
    (hupto : Upto Attempt.now n₀ attempts attempt.now) : Accounts n₀ c₀ (attempts ++ [attempt]) d' := by
  obtain ⟨today, htoday, hengine, -⟩ := attempt_eq_ok.mp hstep
  have hlimits : d'.engine.limits = d.engine.limits := by rw [hengine]; rfl
  have hc : d'.engine.counters = attempt.event.apply (d.engine.counters.roll today) := by rw [hengine]; rfl
  have hnow := h attempt.now hupto today htoday
  intro n hn day hday
  rw [PreTradeRiskEngine.today, hlimits] at hday
  rw [hlimits, hc]
  by_cases heq : day = today
  · subst heq
    rw [Counters.roll_of_eq (by simp), hnow, accounted_snoc_of_day htoday]
  · have hlater : attempt.now ≤ n := (upto_snoc.mp hn).2
    have hnone : reportsOn d.engine.limits.sessionRollMillis day ((attempts ++ [attempt]).map Attempt.call) = [] := by
      refine reportsOn_eq_nil htoday hday (Ne.symm heq) hlater fun call hcall => ?_
      obtain ⟨a, ha, rfl⟩ := List.mem_map.mp hcall
      rcases List.mem_append.mp ha with ha | ha
      · exact hupto.le a ha
      · rw [List.mem_singleton.mp ha]; rfl
    have hstart : day ≠ c₀.tradingDay := fun hstart =>
      heq (hstart.trans (tradingDay_between hm htoday (hstart ▸ hday) (hmn.trans hupto.start_le) hlater).symm)
    have hexecutions := congrArg Counters.executionsSinceRearm hnow
    rw [Counters.roll_executionsSinceRearm] at hexecutions
    rw [Counters.roll_of_ne (by simpa using heq), accounted, hnone, executionsSinceRearm_apply,
      Counters.roll_executionsSinceRearm, hexecutions, List.map_append]
    simp only [List.map_cons, List.map_nil, executionsFrom_snoc, tally, List.foldl_nil, Counters.roll_of_ne hstart]
    rfl

variable [One F] [Neg F] [Sub F] [Mul F] [Div F]

theorem attempts_runs (h : Attempts d₀ attempts d) :
    ∃ u, Runs d₀ (attempts.map Attempt.call) u ∧ u.engine = d.engine := by
  induction h with
  | nil => exact ⟨d₀, .nil, rfl⟩
  | @snoc attempts d attempt d' _ hstep ih =>
      obtain ⟨u, hu, hengine⟩ := ih
      obtain ⟨day, hday, hd', -⟩ := attempt_eq_ok.mp hstep
      have hreport : u.perform attempt.call = .ok (u.reported attempt.event day) :=
        perform_report (by rw [hengine]; exact hday)
      refine ⟨u.reported attempt.event day, ?_, ?_⟩
      · rw [List.map_append]
        exact hu.snoc hreport
      · rw [hd']
        simp only [Desk.reported, hengine]

theorem attempts_limits (h : Attempts d₀ attempts d) : d.engine.limits = d₀.engine.limits := by
  obtain ⟨u, hu, hengine⟩ := attempts_runs h
  rw [← hengine]
  exact runs_limits hu

theorem attempts_account {m : ℤ} (hm : d₀.engine.today m = .ok d₀.engine.counters.tradingDay) (hmn : m ≤ n₀)
    (hrun : Attempts d₀ attempts d) (horder : Nondecreasing Attempt.now n₀ attempts) :
    Accounts n₀ d₀.engine.counters attempts d := by
  induction hrun with
  | nil => exact fun n _ day _ => (accounted_nil _ day _).symm
  | @snoc attempts d attempt d' hbefore hstep ih =>
      obtain ⟨hinitial, hupto⟩ := nondecreasing_snoc.mp horder
      have htoday : d.engine.today m = .ok d₀.engine.counters.tradingDay := by
        rw [PreTradeRiskEngine.today, attempts_limits hbefore]; exact hm
      exact accounts_step htoday hmn (ih hinitial) hstep hupto

/-- What a failing store does, and does not do, to an engine that goes on
reporting to it. -/
structure Heals (d₀ : Desk F) (attempts : List (Attempt F)) (d : Desk F) : Prop where
  /-- the memory is that of the same reports on a store that never fails -/
  memory : (∃ u, Runs d₀ (attempts.map Attempt.call) u) ∧
    ∀ u, Runs d₀ (attempts.map Attempt.call) u → u.engine = d.engine
  unwritten : (∀ a ∈ attempts, a.lands = false) → d.store = d₀.store
  /-- while writes fail the store holds the snapshot of the last that landed -/
  held : ∀ before a after d₁, attempts = before ++ a :: after → a.lands = true → (∀ b ∈ after, b.lands = false) →
    Attempts d₀ (before ++ [a]) d₁ → d.store = d₁.store ∧ Mirrors d.store d₁.engine.counters
  /-- after a write that lands the store holds the memory, and that accounts
  for every report, and amounts to those of the day -/
  healed : ∀ before a day, attempts = before ++ [a] → a.lands = true → d.engine.today a.now = .ok day →
    d.engine.counters = accounted d.engine.limits.sessionRollMillis day d₀.engine.counters attempts ∧
      (∀ earlier, SumsTo earlier (d₀.engine.counters.roll day) → SumsTo
        (earlier ++ reportsOn d.engine.limits.sessionRollMillis day (attempts.map Attempt.call)) d.engine.counters) ∧
      (Survives d.engine.counters → DecodesTo d.store d.engine.counters)

/-- A failing store loses and duplicates nothing, whatever the past of the
engine that reports to it. -/
theorem outage_heals {limits : RiskLimits F} {isLive : Bool} {start : ℤ} {e : PreTradeRiskEngine F} {s : StateStore}
    {past : List (Call F)} (hnew : PreTradeRiskEngine.new limits isLive start = .ok e) (hpast : Runs ⟨e, s⟩ past d₀)
    (hn₀ : Upto Call.now start past n₀) (horder : Nondecreasing Attempt.now n₀ attempts)
    (hrun : Attempts d₀ attempts d) : Heals d₀ attempts d where
  memory := by
    obtain ⟨u, hu, hengine⟩ := attempts_runs hrun
    refine ⟨⟨u, hu⟩, fun v hv => ?_⟩
    rw [hv.unique_of_ok hu, hengine]
  unwritten := store_of_failing hrun
  held := by
    rintro before a after d₁ rfl hlands hfailing hd₁
    rw [show before ++ a :: after = (before ++ [a]) ++ after by simp] at hrun
    obtain ⟨t, ht, hafter⟩ := steps_append_iff.mp hrun
    obtain rfl : t = d₁ := ht.unique_of_ok hd₁
    have hstore := store_of_failing hafter hfailing
    obtain ⟨v, -, hlast⟩ := steps_snoc_iff.mp ht
    exact ⟨hstore, hstore ▸ mirrors_of_lands hlast hlands⟩
  healed := by
    rintro before a day rfl hlands hday
    obtain ⟨today, htoday, rfl⟩ := new_eq_ok.mp hnew
    obtain ⟨m, hm, hmn⟩ := runs_dated (dated_new htoday isLive s) hpast
    have haccounts := attempts_account hm (hmn n₀ (by simpa using hn₀)) hrun horder
    obtain ⟨v, -, hlast⟩ := steps_snoc_iff.mp hrun
    have hupto : Upto Attempt.now n₀ (before ++ [a]) a.now :=
      upto_snoc.mpr ⟨(nondecreasing_snoc.mp horder).2, le_rfl⟩
    have hdate : d.engine.counters.tradingDay = day := tradingDay_of_attempt hlast hday
    have haccounted : d.engine.counters =
        accounted d.engine.limits.sessionRollMillis day d₀.engine.counters (before ++ [a]) := by
      rw [← haccounts a.now hupto day hday, Counters.roll_of_eq hdate.symm]
    exact ⟨haccounted, fun earlier hearlier => haccounted ▸ sumsTo_accounted hearlier,
      fun hsurvives => (mirrors_of_lands hlast hlands).decodesTo hsurvives⟩

end Attempts

open scoped Decimal

def lossUnwritten : List (Attempt ℚ) := [⟨noon, .realizedPnl (-15) false, false⟩, ⟨noon, .notional 5, true⟩]

theorem outage_heals_loss : ∃ d, Attempts freshDesk lossUnwritten d ∧ d.engine.counters.simulatedPnl = -15 ∧
    d.engine.counters.dailyNotional = 5 ∧ DecodesTo d.store d.engine.counters := by
  have hloss : Desk.attempt freshDesk ⟨noon, .realizedPnl (-15) false, false⟩ =
      .ok ⟨(freshDesk.reported (.realizedPnl (-15) false) "2026-07-20").engine, empty⟩ :=
    attempt_eq_ok.mpr ⟨_, tradingDay_noon, rfl, rfl⟩
  have hfill : Desk.attempt ⟨(freshDesk.reported (.realizedPnl (-15) false) "2026-07-20").engine, empty⟩
      ⟨noon, .notional 5, true⟩ =
      .ok (Desk.reported ⟨(freshDesk.reported (.realizedPnl (-15) false) "2026-07-20").engine, empty⟩
        (.notional 5) "2026-07-20") :=
    attempt_eq_ok.mpr ⟨_, tradingDay_noon, rfl, rfl⟩
  have hrun : Attempts freshDesk lossUnwritten _ := (Steps.single hloss).snoc hfill
  have h := outage_heals new_freshDesk .nil ⟨le_rfl, by simp⟩ (by simp [Nondecreasing, lossUnwritten]) hrun
  have hsurvives : Survives (Desk.reported ⟨(freshDesk.reported (.realizedPnl (-15) false) "2026-07-20").engine, empty⟩
      (.notional 5) "2026-07-20").engine.counters := by
    constructor <;> decide +kernel
  have hhealed := h.healed [⟨noon, .realizedPnl (-15) false, false⟩] ⟨noon, .notional 5, true⟩ _ rfl rfl tradingDay_noon
  have hamounts := amountsTo_iff_sumsTo.mpr (hhealed.2.1 [] (sumsTo_dayStart "2026-07-20" 0))
  change AmountsTo (reportsOn 0 "2026-07-20" (lossUnwritten.map Attempt.call)) _ at hamounts
  have hreports : reportsOn 0 "2026-07-20" (lossUnwritten.map Attempt.call) = [.realizedPnl (-15) false, .notional 5] := by
    simp [reportsOn, lossUnwritten, Attempt.call, tradingDay_noon, Except.toOption]
  rw [hreports] at hamounts
  refine ⟨_, hrun, ?_, ?_, hhealed.2.2 hsurvives⟩
  · have hpnl := hamounts.pnl false
    simpa [amounts, Counters.legPnl] using hpnl
  · have hnotional := hamounts.notional
    simpa [notionals] using hnotional

end PretradeRisk.Outage
