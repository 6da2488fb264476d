import PretradeRisk.Controls
import PretradeRisk.Decimal
import PretradeRisk.Pruning
import PretradeRisk.Run

namespace PretradeRisk.Session

open Clock Controls Engine Evaluate Host Limits Orders Pruning Run Store

section Calls

variable {F : Type} [Zero F] [One F] [Neg F] [Add F] [Sub F] [Mul F] [Div F] [IntCast F] [LE F] [LT F]
  [DecidableLE F] [DecidableLT F] [PyFloat F]

inductive Op (F : Type)
  /-- a `record_*` call, or `rearm` -/
  | report (event : CounterEvent F)
  | recordOrderSent (request : OrderRequest F)
  | evaluate (files : Files) (request : OrderRequest F)
  /-- a property, or `loss_limit_breached` -/
  | read
  | persist
  | load
  | refreshOverrides
  | control (call : OverrideCall F)
  /-- another process leaves the store like this -/
  | outside (store : StateStore)

structure Call (F : Type) where
  now : ℤ
  op : Op F

structure Desk (F : Type) [Zero F] [LE F] [DecidableLE F] [PyFloat F] where
  engine : PreTradeRiskEngine F
  store : StateStore

/-- The desk after a call. A call that raises leaves the desk as it was, and
a run lists the calls that return. -/
def Desk.perform (d : Desk F) (call : Call F) : Except PyError (Desk F) :=
  match call.op with
  | .report event => do
      let e ← d.engine.record event call.now
      return ⟨e, e.persist d.store⟩
  | .recordOrderSent request => .ok { d with engine := d.engine.recordOrderSent request call.now }
  | .evaluate files request => do
      let (_, e) ← Evaluate.evaluate files d.engine call.now request
      return { d with engine := e }
  | .read => do
      let e ← d.engine.rollTradingDay call.now
      return { d with engine := e }
  | .persist => .ok { d with store := d.engine.persist d.store }
  | .load => do
      let (e, s) ← d.engine.load d.store call.now
      return ⟨e, s⟩
  | .refreshOverrides => .ok { d with engine := d.engine.refreshOverrides d.store }
  | .control command => do
      let entries ← command.entries call.now
      return { d with store := setMany d.store entries }
  | .outside store => .ok { d with store }

def Desk.reported (d : Desk F) (event : CounterEvent F) (day : String) : Desk F :=
  let e := d.engine.withCounters (event.apply (d.engine.counters.roll day))
  ⟨e, e.persist d.store⟩

def Desk.loaded (d : Desk F) (day : String) : Desk F :=
  let e := d.engine.withCounters (d.engine.counters.adopt (getMany d.store counterKeys) day)
  ⟨e, e.persist d.store⟩

theorem perform_report_eq_ok {d d' : Desk F} {n : ℤ} {event : CounterEvent F} :
    d.perform ⟨n, .report event⟩ = .ok d' ↔ ∃ day, d.engine.today n = .ok day ∧ d' = d.reported event day := by
  simp only [Desk.perform, PreTradeRiskEngine.record, PreTradeRiskEngine.rollTradingDay, bind_eq_ok, pure_eq_ok,
    Except.ok.injEq]
  constructor
  · rintro ⟨_, ⟨_, ⟨day, hday, rfl⟩, rfl⟩, rfl⟩
    exact ⟨day, hday, rfl⟩
  · rintro ⟨day, hday, rfl⟩
    exact ⟨_, ⟨_, ⟨day, hday, rfl⟩, rfl⟩, rfl⟩

theorem perform_evaluate_eq_ok {d d' : Desk F} {n : ℤ} {files : Files} {request : OrderRequest F} :
    d.perform ⟨n, .evaluate files request⟩ = .ok d' ↔
      ∃ decision e, Evaluate.evaluate files d.engine n request = .ok (decision, e) ∧ d' = { d with engine := e } := by
  simp only [Desk.perform, bind_eq_ok, pure_eq_ok, Except.ok.injEq, Prod.exists, eq_comm (a := d')]

theorem perform_read_eq_ok {d d' : Desk F} {n : ℤ} :
    d.perform ⟨n, .read⟩ = .ok d' ↔
      ∃ day, d.engine.today n = .ok day ∧ d' = { d with engine := d.engine.rollTo day } := by
  simp only [Desk.perform, PreTradeRiskEngine.rollTradingDay, bind_eq_ok, pure_eq_ok, Except.ok.injEq]
  constructor
  · rintro ⟨_, ⟨day, hday, rfl⟩, rfl⟩
    exact ⟨day, hday, rfl⟩
  · rintro ⟨day, hday, rfl⟩
    exact ⟨_, ⟨day, hday, rfl⟩, rfl⟩

theorem perform_load_eq_ok {d d' : Desk F} {n : ℤ} :
    d.perform ⟨n, .load⟩ = .ok d' ↔ ∃ day, d.engine.today n = .ok day ∧ d' = d.loaded day := by
  simp only [Desk.perform, PreTradeRiskEngine.load, PreTradeRiskEngine.loadCounters, bind_eq_ok, pure_eq_ok,
    Except.ok.injEq]
  constructor
  · rintro ⟨_, ⟨_, ⟨day, hday, rfl⟩, rfl⟩, rfl⟩
    exact ⟨day, hday, rfl⟩
  · rintro ⟨day, hday, rfl⟩
    exact ⟨_, ⟨_, ⟨day, hday, rfl⟩, rfl⟩, rfl⟩

theorem perform_control_eq_ok {d d' : Desk F} {n : ℤ} {command : OverrideCall F} :
    d.perform ⟨n, .control command⟩ = .ok d' ↔
      ∃ entries, command.entries n = .ok entries ∧ d' = { d with store := setMany d.store entries } := by
  simp only [Desk.perform, bind_eq_ok, pure_eq_ok, Except.ok.injEq, eq_comm (a := d')]

theorem perform_report {d : Desk F} {n : ℤ} {event : CounterEvent F} {day : String}
    (h : d.engine.today n = .ok day) : d.perform ⟨n, .report event⟩ = .ok (d.reported event day) :=
  perform_report_eq_ok.mpr ⟨day, h, rfl⟩

theorem perform_read {d : Desk F} {n : ℤ} {day : String} (h : d.engine.today n = .ok day) :
    d.perform ⟨n, .read⟩ = .ok { d with engine := d.engine.rollTo day } := perform_read_eq_ok.mpr ⟨day, h, rfl⟩

theorem perform_load {d : Desk F} {n : ℤ} {day : String} (h : d.engine.today n = .ok day) :
    d.perform ⟨n, .load⟩ = .ok (d.loaded day) := perform_load_eq_ok.mpr ⟨day, h, rfl⟩

abbrev Runs (d : Desk F) (calls : List (Call F)) (d' : Desk F) : Prop :=
  Steps (fun d call d' => d.perform call = .ok d') d calls d'

theorem exists_runs {d : Desk F} {calls : List (Call F)} {p : Desk F → Bool}
    (h : (calls.foldlM (fun d call => (Desk.perform d call).toOption) d).any p = true) :
    ∃ d', Runs d calls d' ∧ p d' = true :=
  Steps.exists_of_any toOption_eq_some h

inductive Moves (d : Desk F) (n : ℤ) : Op F → Desk F → Prop
  | report {event : CounterEvent F} {day : String} {d' : Desk F} (hday : d.engine.today n = .ok day)
      (hc : d'.engine.counters = event.apply (d.engine.counters.roll day))
      (hs : d'.store = setMany d.store d'.engine.snapshot) : Moves d n (.report event) d'
  | roll {op : Op F} {day : String} {d' : Desk F} (hop : op = .read ∨ ∃ files request, op = .evaluate files request)
      (hday : d.engine.today n = .ok day) (hc : d'.engine.counters = d.engine.counters.roll day)
      (hs : d'.store = d.store) : Moves d n op d'
  | keep {op : Op F} {d' : Desk F} (hop : op = .refreshOverrides ∨ ∃ request, op = .recordOrderSent request)
      (hc : d'.engine.counters = d.engine.counters) (hs : d'.store = d.store) : Moves d n op d'
  | persist {d' : Desk F} (hc : d'.engine.counters = d.engine.counters)
      (hs : d'.store = setMany d.store d'.engine.snapshot) : Moves d n .persist d'
  | load {day : String} {d' : Desk F} (hday : d.engine.today n = .ok day)
      (hc : d'.engine.counters = d.engine.counters.adopt (getMany d.store counterKeys) day)
      (hs : d'.store = setMany d.store d'.engine.snapshot) : Moves d n .load d'
  | control {command : OverrideCall F} {entries : Entries} {d' : Desk F}
      (hentries : command.entries n = .ok entries) (hc : d'.engine.counters = d.engine.counters)
      (hs : d'.store = setMany d.store entries) : Moves d n (.control command) d'
  | outside {store : StateStore} {d' : Desk F} (hc : d'.engine.counters = d.engine.counters)
      (hs : d'.store = store) : Moves d n (.outside store) d'

/-- A call never touches the limits or the leg, and moves the counters and
the store in one of seven ways. -/
theorem perform_moves {d d' : Desk F} {call : Call F} (h : d.perform call = .ok d') :
    d'.engine.limits = d.engine.limits ∧ d'.engine.isLive = d.engine.isLive ∧
      Moves d call.now call.op d' := by
  obtain ⟨n, op⟩ := call
  cases op with
  | report event =>
      obtain ⟨day, hday, rfl⟩ := perform_report_eq_ok.mp h
      exact ⟨rfl, rfl, .report hday rfl rfl⟩
  | recordOrderSent request => cases h; exact ⟨rfl, rfl, .keep (.inr ⟨_, rfl⟩) rfl rfl⟩
  | evaluate files request =>
      obtain ⟨_, f, hf, rfl⟩ := perform_evaluate_eq_ok.mp h
      obtain ⟨day, hday, hs⟩ := evaluate_pruned hf
      exact ⟨hs.limits, hs.isLive, .roll (.inr ⟨_, _, rfl⟩) hday hs.counters rfl⟩
  | read =>
      obtain ⟨day, hday, rfl⟩ := perform_read_eq_ok.mp h
      exact ⟨rfl, rfl, .roll (.inl rfl) hday rfl rfl⟩
  | persist => cases h; exact ⟨rfl, rfl, .persist rfl rfl⟩
  | load =>
      obtain ⟨day, hday, rfl⟩ := perform_load_eq_ok.mp h
      exact ⟨rfl, rfl, .load hday rfl rfl⟩
  | refreshOverrides => cases h; exact ⟨rfl, rfl, .keep (.inl rfl) rfl rfl⟩
  | control command =>
      obtain ⟨entries, he, rfl⟩ := perform_control_eq_ok.mp h
      exact ⟨rfl, rfl, .control he rfl rfl⟩
  | outside store => cases h; exact ⟨rfl, rfl, .outside rfl rfl⟩

theorem perform_overrides {d d' : Desk F} {call : Call F} (hop : call.op ≠ .refreshOverrides)
    (h : d.perform call = .ok d') : d'.engine.overrides = d.engine.overrides := by
  obtain ⟨n, op⟩ := call
  cases op with
  | report event =>
      obtain ⟨day, hday, rfl⟩ := perform_report_eq_ok.mp h
      rfl
  | evaluate files request =>
      obtain ⟨_, f, hf, rfl⟩ := perform_evaluate_eq_ok.mp h
      obtain ⟨day, hday, hs⟩ := evaluate_pruned hf
      exact hs.overrides
  | read =>
      obtain ⟨day, hday, rfl⟩ := perform_read_eq_ok.mp h
      rfl
  | load =>
      obtain ⟨day, hday, rfl⟩ := perform_load_eq_ok.mp h
      rfl
  | refreshOverrides => exact absurd rfl hop
  | control command =>
      obtain ⟨entries, he, rfl⟩ := perform_control_eq_ok.mp h
      rfl
  | recordOrderSent request => cases h; rfl
  | persist => cases h; rfl
  | outside store => cases h; rfl

/-- The counters date from a reading already made. -/
def Dated (start : ℤ) (calls : List (Call F)) (d : Desk F) : Prop :=
  ∃ m, d.engine.today m = .ok d.engine.counters.tradingDay ∧ ∀ n, Upto Call.now start calls n → m ≤ n

omit [One F] [Neg F] [Add F] [Sub F] [Mul F] [Div F] [IntCast F] [LT F] [DecidableLT F] in
theorem Dated.of_now {start : ℤ} {calls : List (Call F)} {call : Call F} {d d' : Desk F}
    (hlimits : d'.engine.limits = d.engine.limits)
    (hday : d.engine.today call.now = .ok d'.engine.counters.tradingDay) : Dated start (calls ++ [call]) d' := by
  refine ⟨call.now, ?_, fun n hn => (upto_snoc.mp hn).2⟩
  rw [PreTradeRiskEngine.today, hlimits]
  exact hday

omit [One F] [Neg F] [Add F] [Sub F] [Mul F] [Div F] [IntCast F] [LT F] [DecidableLT F] in
theorem Dated.of_unchanged {start : ℤ} {calls : List (Call F)} {call : Call F} {d d' : Desk F}
    (h : Dated start calls d) (hlimits : d'.engine.limits = d.engine.limits)
    (hc : d'.engine.counters = d.engine.counters) : Dated start (calls ++ [call]) d' := by
  obtain ⟨m, hm, hupto⟩ := h
  refine ⟨m, ?_, fun n hn => hupto n (upto_snoc.mp hn).1⟩
  rw [PreTradeRiskEngine.today, hlimits, hc]
  exact hm

theorem dated_step {start : ℤ} {calls : List (Call F)} {call : Call F} {d d' : Desk F} (h : Dated start calls d)
    (hstep : d.perform call = .ok d') : Dated start (calls ++ [call]) d' := by
  obtain ⟨n, op⟩ := call
  obtain ⟨hlimits, -, hmoves⟩ := perform_moves hstep
  cases hmoves with
  | report hday hc => exact .of_now hlimits (by rw [hday, hc]; simp)
  | roll _ hday hc => exact .of_now hlimits (by rw [hday, hc]; simp)
  | load hday hc => exact .of_now hlimits (by rw [hday, hc]; rfl)
  | keep _ hc => exact h.of_unchanged hlimits hc
  | persist hc => exact h.of_unchanged hlimits hc
  | control _ hc => exact h.of_unchanged hlimits hc
  | outside hc => exact h.of_unchanged hlimits hc

omit [One F] [Neg F] [Add F] [Sub F] [Mul F] [Div F] [IntCast F] [LT F] [DecidableLT F] in
theorem dated_new {limits : RiskLimits F} {start : ℤ} {day : String}
    (htoday : tradingDay start limits.sessionRollMillis = .ok day) (isLive : Bool) (s : StateStore) :
    Dated start [] ⟨.onDay limits isLive day, s⟩ := ⟨start, htoday, fun _ hn => hn.start_le⟩

theorem runs_dated {start : ℤ} {before calls : List (Call F)} {d d' : Desk F} (h : Dated start before d)
    (hrun : Runs d calls d') : Dated start (before ++ calls) d' := by
  induction hrun with
  | nil => simpa using h
  | snoc _ hstep ih => rw [← List.append_assoc]; exact dated_step ih hstep

theorem runs_limits {d d' : Desk F} {calls : List (Call F)} (h : Runs d calls d') :
    d'.engine.limits = d.engine.limits :=
  Steps.invariant (P := fun t => t.engine.limits = d.engine.limits) rfl
    (fun ht hstep => (perform_moves hstep).1.trans ht) h

theorem runs_isLive {d d' : Desk F} {calls : List (Call F)} (h : Runs d calls d') :
    d'.engine.isLive = d.engine.isLive :=
  Steps.invariant (P := fun t => t.engine.isLive = d.engine.isLive) rfl
    (fun ht hstep => (perform_moves hstep).2.1.trans ht) h

theorem runs_configured {limits : RiskLimits F} {isLive : Bool} {built : ℤ} {e : PreTradeRiskEngine F} {s : StateStore}
    {d : Desk F} {calls : List (Call F)} (hnew : PreTradeRiskEngine.new limits isLive built = .ok e)
    (h : Runs ⟨e, s⟩ calls d) : d.engine.limits = limits ∧ d.engine.isLive = isLive := by
  obtain ⟨_, _, rfl⟩ := new_eq_ok.mp hnew
  exact ⟨runs_limits h, runs_isLive h⟩

end Calls

open scoped Decimal

def deskLimits : RiskLimits ℚ :=
  ⟨{ dailyLossLimitUsd := some 10, dailyNotionalLimitUsd := some 100 }, by decide +kernel⟩

def noon : ℤ := 1784548800000

def nextNoon : ℤ := noon + millisPerDay

theorem tradingDay_noon : tradingDay noon 0 = .ok "2026-07-20" := by
  rw [tradingDay_eq_ok_iff]; decide

theorem tradingDay_nextNoon : tradingDay nextNoon 0 = .ok "2026-07-21" := by
  rw [tradingDay_eq_ok_iff]; decide

def freshDesk : Desk ℚ := ⟨.onDay deskLimits false "2026-07-20", empty⟩

theorem new_freshDesk : PreTradeRiskEngine.new deskLimits false noon = .ok freshDesk.engine :=
  new_eq_ok.mpr ⟨_, tradingDay_noon, rfl⟩

/-- A loss of 15 is in the store. -/
def lossStore : StateStore := (freshDesk.reported (.realizedPnl (-15) false) "2026-07-20").store

end PretradeRisk.Session
