import PretradeRisk.OrderRate
import PretradeRisk.Tickets

namespace PretradeRisk.InFlight

open Admission Clock Decision Engine Evaluate Host Limits OrderRate Orders Pruning Run Sending Session Store
open Tickets Trailing

section Floors

variable [PyFloat ℚ]

inductive Act
  /-- an order is evaluated and accepted -/
  | accept (files : Files) (request : OrderRequest ℚ)
  /-- it has been sent: `record_order_sent`, and `record_notional` where it has one -/
  | tell (request : OrderRequest ℚ)
  /-- it is not sent after all -/
  | drop (request : OrderRequest ℚ)
  | call (op : Op ℚ)

structure Turn where
  now : ℤ
  act : Act

/-- A desk, and the orders that are accepted and not yet told. -/
structure Floor where
  desk : Desk ℚ
  inFlight : List (OrderRequest ℚ)

def toldCalls (now : ℤ) (request : OrderRequest ℚ) : List (Call ℚ) :=
  ⟨now, .recordOrderSent request⟩ ::
    match request.notionalUsd with
    | none => []
    | some notional => [⟨now, .report (.notional notional)⟩]

def Turn.calls (turn : Turn) : List (Call ℚ) :=
  match turn.act with
  | .accept files request => [⟨turn.now, .evaluate files request⟩]
  | .tell request => toldCalls turn.now request
  | .drop _ => []
  | .call op => [⟨turn.now, op⟩]

def calls (turns : List Turn) : List (Call ℚ) := turns.flatMap Turn.calls

/-- So many tasks share the desk, each with one order in flight at most. -/
inductive FloorStep (slots : ℕ) (f : Floor) : Turn → Floor → Prop
  | accept {n : ℤ} {files : Files} {request : OrderRequest ℚ} {e : PreTradeRiskEngine ℚ}
      (haccept : evaluate files f.desk.engine n request = .ok (accepted, e)) (hslot : f.inFlight.length < slots) :
      FloorStep slots f ⟨n, .accept files request⟩ ⟨⟨e, f.desk.store⟩, request :: f.inFlight⟩
  | tell {n : ℤ} {request : OrderRequest ℚ} {before after : List (OrderRequest ℚ)} {d : Desk ℚ}
      (hinFlight : f.inFlight = before ++ request :: after) (hcalls : Runs f.desk (toldCalls n request) d) :
      FloorStep slots f ⟨n, .tell request⟩ ⟨d, before ++ after⟩
  | drop {n : ℤ} {request : OrderRequest ℚ} {before after : List (OrderRequest ℚ)}
      (hinFlight : f.inFlight = before ++ request :: after) :
      FloorStep slots f ⟨n, .drop request⟩ ⟨f.desk, before ++ after⟩
  | call {n : ℤ} {op : Op ℚ} {d : Desk ℚ} (hop : ∀ request, op ≠ .recordOrderSent request)
      (hcall : f.desk.perform ⟨n, op⟩ = .ok d) : FloorStep slots f ⟨n, .call op⟩ ⟨d, f.inFlight⟩

variable {slots : ℕ} {start n m : ℤ} {turns : List Turn} {turn : Turn} {f g : Floor} {e₀ : PreTradeRiskEngine ℚ}
  {s₀ : StateStore} {limits : RiskLimits ℚ} {isLive : Bool}

omit [PyFloat ℚ] in
theorem calls_snoc (turns : List Turn) (turn : Turn) : calls (turns ++ [turn]) = calls turns ++ turn.calls := by
  rw [calls, List.flatMap_append, List.flatMap_singleton]
  rfl

theorem floorStep_runs (h : FloorStep slots f turn g) : Runs f.desk turn.calls g.desk := by
  cases h with
  | accept haccept _ => exact Steps.single (perform_evaluate_eq_ok.mpr ⟨_, _, haccept, rfl⟩)
  | tell _ hcalls => exact hcalls
  | drop _ => exact .nil
  | call _ hcall => exact Steps.single hcall

theorem floor_runs (h : Steps (FloorStep slots) f turns g) : Runs f.desk (calls turns) g.desk :=
  h.flatMap Floor.desk Turn.calls floorStep_runs

omit [PyFloat ℚ] in
theorem now_of_mem_calls (turn : Turn) : ∀ call ∈ turn.calls, call.now = turn.now := by
  intro call h
  obtain ⟨n, act⟩ := turn
  cases act with
  | accept files request => rw [List.mem_singleton.mp h]
  | tell request =>
      rcases List.mem_cons.mp h with rfl | h
      · rfl
      · cases hnotional : request.notionalUsd with
        | none => rw [hnotional] at h; cases h
        | some notional => rw [hnotional] at h; rw [List.mem_singleton.mp h]
  | drop request => cases h
  | call op => rw [List.mem_singleton.mp h]

omit [PyFloat ℚ] in
theorem upto_calls (h : Upto Turn.now start turns n) : Upto Call.now start (calls turns) n :=
  h.flatMap now_of_mem_calls

omit [PyFloat ℚ] in
theorem nondecreasing_calls (h : Nondecreasing Turn.now start turns) : Nondecreasing Call.now start (calls turns) :=
  h.flatMap now_of_mem_calls

omit [PyFloat ℚ] in
theorem sendTimes_toldCalls (before : List (Call ℚ)) (n : ℤ) (request : OrderRequest ℚ) :
    sendTimes (before ++ toldCalls n request) = sendTimes before ++ [n] := by
  rw [toldCalls, List.append_cons]
  cases request.notionalUsd with
  | none => rw [List.append_nil, sendTimes_snoc_sent]
  | some notional => rw [sendTimes_snoc_of_ne (by simp), sendTimes_snoc_sent]

/-- What a window holds leaves room for all the orders in flight but one. -/
structure Paced (width cap : ℤ) (slots : ℕ) (start : ℤ) (turns : List Turn) (f : Floor) : Prop where
  within : ∀ n, Upto Turn.now start turns n →
    Within cap 1 slots ((trailing width n (sendTimes (calls turns))).length : ℤ) (f.inFlight.map fun _ => 1)
  windows : ∀ n, ((trailing width n (sendTimes (calls turns))).length : ℤ) < cap + slots

variable {width cap : ℤ}

theorem Paced.of_sends_eq (h : Paced width cap slots start turns f)
    (hsends : sendTimes (calls (turns ++ [turn])) = sendTimes (calls turns))
    (hwithin : ∀ n, Upto Turn.now start (turns ++ [turn]) n →
      Within cap 1 slots ((trailing width n (sendTimes (calls turns))).length : ℤ) (f.inFlight.map fun _ => 1) →
      Within cap 1 slots ((trailing width n (sendTimes (calls turns))).length : ℤ) (g.inFlight.map fun _ => 1)) :
    Paced width cap slots start (turns ++ [turn]) g := by
  refine ⟨fun n hn => ?_, fun n => ?_⟩
  · rw [hsends]
    exact hwithin n hn (h.within n (upto_snoc.mp hn).1)
  · rw [hsends]
    exact h.windows n

theorem paced_tell {request : OrderRequest ℚ} {before after : List (OrderRequest ℚ)} {d : Desk ℚ}
    (h : Paced width cap slots start turns f) (hupto : Upto Turn.now start turns n)
    (hinFlight : f.inFlight = before ++ request :: after) :
    Paced width cap slots start (turns ++ [⟨n, .tell request⟩]) ⟨d, before ++ after⟩ := by
  have hsends : sendTimes (calls (turns ++ [⟨n, .tell request⟩])) = sendTimes (calls turns) ++ [n] := by
    rw [calls_snoc]
    exact sendTimes_toldCalls (calls turns) n request
  have hle : ∀ t ∈ sendTimes (calls turns), t ≤ n := sendTimes_le (upto_calls hupto)
  have hspent (m : ℤ) (hm : Upto Turn.now start turns m) :
      Within cap 1 slots ((trailing width m (sendTimes (calls turns))).length + 1 : ℤ)
        ((before ++ after).map fun _ => 1) := by
    have hwithin := h.within m hm
    rw [hinFlight, List.map_append, List.map_cons] at hwithin
    rw [List.map_append]
    exact hwithin.spend
  refine ⟨fun m hm => ?_, fun m => ?_⟩
  · refine (hspent m (upto_snoc.mp hm).1).ease ?_
    have hlen : (trailing width m [n]).length ≤ 1 := List.length_filter_le _ _
    rw [hsends, trailing, List.filter_append, List.length_append]
    change (((trailing width m (sendTimes (calls turns))).length + (trailing width m [n]).length : ℕ) : ℤ) ≤ _
    omega
  · have hsnoc := length_trailing_snoc_le width hle m
    have hused := (hspent n hupto).used_le
    have hbefore := h.windows m
    rw [hsends]
    simp only [nsmul_eq_mul, mul_one] at hused
    omega

theorem paced_step (h : Paced width cap slots start turns f) (htracks : Tracks start (calls turns) f.desk)
    (hwidth : f.desk.engine.rateWindow.windowMillis = width) (hcap : f.desk.engine.limits.maxOrdersPerWindow = some cap)
    (hrunning : f.desk.engine.limits.isDisabled .orderRate = false) (hupto : Upto Turn.now start turns turn.now)
    (hstep : FloorStep slots f turn g) : Paced width cap slots start (turns ++ [turn]) g := by
  cases hstep with
  | @accept n files request e haccept hslot =>
      refine h.of_sends_eq (by rw [calls_snoc]; exact sendTimes_snoc_of_ne (by simp)) fun m hm hwithin => ?_
      obtain ⟨hm, hnm⟩ := upto_snoc.mp hm
      have hlt := count_lt_of_accepts ⟨e, haccept⟩ hcap hrunning
      rw [htracks.window n (upto_calls hupto), hwidth] at hlt
      have hlen := length_trailing_le_of_le width (sendTimes_le (upto_calls hupto)) hnm
      have hroom : ((trailing width m (sendTimes (calls turns))).length : ℤ) + 1 ≤ cap :=
        (add_le_add_left (by exact_mod_cast hlen) 1).trans hlt
      exact hwithin.issue ⟨zero_le_one, le_rfl⟩ hroom (by rwa [List.length_map])
  | tell hinFlight _ => exact paced_tell h hupto hinFlight
  | drop hinFlight =>
      refine h.of_sends_eq (by rw [calls_snoc]; exact congrArg sendTimes (List.append_nil _)) fun m _ hwithin => ?_
      rw [hinFlight, List.map_append, List.map_cons] at hwithin
      rw [List.map_append]
      exact hwithin.void
  | call hop _ => exact h.of_sends_eq (by rw [calls_snoc]; exact sendTimes_snoc_of_ne hop) fun _ _ hwithin => hwithin

/-- Between a look at the rate and the order it lets through, as many others
can pass as there are tasks. -/
theorem rate_in_flight (hnew : PreTradeRiskEngine.new limits isLive start = .ok e₀)
    (hrun : Steps (FloorStep slots) ⟨⟨e₀, s₀⟩, []⟩ turns f) (horder : Nondecreasing Turn.now start turns)
    (hcap : limits.maxOrdersPerWindow = some cap) (hrunning : limits.isDisabled .orderRate = false) :
    ∀ t : ℝ, ((trailing (limits.orderRateWindowMillis : ℝ) t ((sendTimes (calls turns)).map Int.cast)).length : ℤ) <
      cap + slots := by
  have hpos : 0 < cap := limits.count_pos "max_orders_per_window" (by simp [LimitFields.counts, hcap])
  have h₀ := tracks_new hnew s₀
  obtain ⟨today, -, rfl⟩ := new_eq_ok.mp hnew
  have hpaced : Paced limits.orderRateWindowMillis cap slots start turns f := by
    induction hrun with
    | nil =>
        refine ⟨fun n _ => within_start zero_le_one hpos, fun n => ?_⟩
        change (0 : ℤ) < cap + slots
        omega
    | @snoc turns f turn g hrun hstep ih =>
        obtain ⟨hturns, hupto⟩ := nondecreasing_snoc.mp horder
        have hruns := floor_runs hrun
        have hlimits : f.desk.engine.limits = limits := runs_limits hruns
        refine paced_step (ih hturns) (runs_tracks h₀ hruns (nondecreasing_calls hturns)) ?_ (hlimits ▸ hcap)
          (hlimits ▸ hrunning) hupto hstep
        rw [f.desk.engine.rateWindow_configured, hlimits]
  intro t
  rw [length_trailing_floor]
  exact hpaced.windows ⌊t⌋

def amount (request : OrderRequest ℚ) : ℚ := request.notionalUsd.getD 0

def Turn.toldOn (rollMillis : ℤ) (day : String) (turn : Turn) : ℚ :=
  match turn.act with
  | .tell request => if tradingDay turn.now rollMillis = .ok day then amount request else 0
  | _ => 0

def toldOn (rollMillis : ℤ) (day : String) (turns : List Turn) : ℚ := (turns.map (Turn.toldOn rollMillis day)).sum

variable {roll : ℤ} {day : String} {most limit : ℚ}

omit [PyFloat ℚ] in
theorem toldOn_snoc : toldOn roll day (turns ++ [turn]) = toldOn roll day turns + turn.toldOn roll day := by
  rw [toldOn, List.map_append, List.sum_append, List.map_singleton, List.sum_singleton]
  rfl

omit [PyFloat ℚ] in
theorem toldOn_of_later {later : String} (hupto : Upto Turn.now start turns n) (hn : tradingDay n roll = .ok day)
    (hm : tradingDay m roll = .ok later) (hnm : n ≤ m) (hne : later ≠ day) : toldOn roll later turns = 0 := by
  refine List.sum_eq_zero fun x hx => ?_
  obtain ⟨turn, hturn, rfl⟩ := List.mem_map.mp hx
  rw [Turn.toldOn]
  split
  · rw [if_neg]
    intro hlater
    exact hne (tradingDay_between hlater hn hm (hupto.le turn hturn) hnm).symm
  · rfl

/-- On every day the run can go on to, the counter covers what has been told,
and that leaves room for all the orders in flight but one. -/
structure Reserved (most limit : ℚ) (slots : ℕ) (start : ℤ) (turns : List Turn) (f : Floor) : Prop where
  within : ∀ n, Upto Turn.now start turns n → ∀ day, f.desk.engine.today n = .ok day →
    Within limit most slots (toldOn f.desk.engine.limits.sessionRollMillis day turns) (f.inFlight.map amount)
  counter : ∀ n, Upto Turn.now start turns n → ∀ day, f.desk.engine.today n = .ok day →
    toldOn f.desk.engine.limits.sessionRollMillis day turns ≤ (f.desk.engine.counters.roll day).dailyNotional
  days : ∀ day, toldOn f.desk.engine.limits.sessionRollMillis day turns + most ≤ limit + slots • most

theorem Reserved.of_current (day : String) (hpos : 0 ≤ most) (hmost : most ≤ limit)
    (hupto : Upto Turn.now start turns turn.now)
    (hday : g.desk.engine.today turn.now = .ok day) (hc : g.desk.engine.counters.tradingDay = day)
    (hwithin : Within limit most slots (toldOn g.desk.engine.limits.sessionRollMillis day (turns ++ [turn]))
      (g.inFlight.map amount))
    (hcounter : toldOn g.desk.engine.limits.sessionRollMillis day (turns ++ [turn]) ≤ g.desk.engine.counters.dailyNotional)
    (hdays : ∀ day, toldOn g.desk.engine.limits.sessionRollMillis day turns + most ≤ limit + slots • most) :
    Reserved most limit slots start (turns ++ [turn]) g := by
  have hnow : Upto Turn.now start (turns ++ [turn]) turn.now := upto_snoc.mpr ⟨hupto, le_rfl⟩
  refine ⟨fun m hm later hlater => ?_, fun m hm later hlater => ?_, fun later => ?_⟩
  · by_cases he : later = day
    · rw [he]
      exact hwithin
    · rw [toldOn_of_later hnow hday hlater (upto_snoc.mp hm).2 he]
      exact within_fresh hwithin.length hwithin.amounts hpos hmost
  · by_cases he : later = day
    · rw [Counters.roll_of_eq (he.trans hc.symm), he]
      exact hcounter
    · rw [toldOn_of_later hnow hday hlater (upto_snoc.mp hm).2 he, Counters.roll_of_ne fun h => he (h.trans hc)]
      exact le_rfl
  · by_cases he : later = day
    · rw [he]
      exact hwithin.used_le
    · have hturn : turn.toldOn g.desk.engine.limits.sessionRollMillis later = 0 := by
        rw [Turn.toldOn]
        split
        · exact if_neg fun hlater => he (Except.ok.inj (hlater.symm.trans hday))
        · rfl
      rw [toldOn_snoc, hturn, add_zero]
      exact hdays later

theorem Reserved.of_unchanged (h : Reserved most limit slots start turns f)
    (hlimits : g.desk.engine.limits = f.desk.engine.limits) (hc : g.desk.engine.counters = f.desk.engine.counters)
    (htold : ∀ roll day, turn.toldOn roll day = 0)
    (hwithin : ∀ used, Within limit most slots used (f.inFlight.map amount) →
      Within limit most slots used (g.inFlight.map amount)) :
    Reserved most limit slots start (turns ++ [turn]) g := by
  have hkept (day : String) : toldOn g.desk.engine.limits.sessionRollMillis day (turns ++ [turn]) =
      toldOn f.desk.engine.limits.sessionRollMillis day turns := by
    rw [toldOn_snoc, htold, add_zero, hlimits]
  refine ⟨fun m hm later hlater => ?_, fun m hm later hlater => ?_, fun later => ?_⟩
  · rw [PreTradeRiskEngine.today, hlimits] at hlater
    rw [hkept]
    exact hwithin _ (h.within m (upto_snoc.mp hm).1 later hlater)
  · rw [PreTradeRiskEngine.today, hlimits] at hlater
    rw [hkept, hc]
    exact h.counter m (upto_snoc.mp hm).1 later hlater
  · rw [hkept]
    exact h.days later

theorem room_of_accepted {files : Files} {request : OrderRequest ℚ} {e : PreTradeRiskEngine ℚ}
    (haccept : evaluate files f.desk.engine n request = .ok (accepted, e)) (hday : f.desk.engine.today n = .ok day)
    (hlimit : f.desk.engine.limits.dailyNotionalLimitUsd = some limit)
    (hrunning : f.desk.engine.limits.isDisabled .dailyNotionalLimit = false) :
    0 ≤ amount request ∧ (f.desk.engine.counters.roll day).dailyNotional + amount request ≤ limit := by
  obtain ⟨today, htoday, hpermits⟩ := accepts_iff_admits.mp ⟨e, haccept⟩
  obtain ⟨notional, hnotional, hle⟩ := hpermits .dailyNotionalLimit hrunning limit hlimit
  have hpos : 0 < notional := hpermits .orderNotional (if_pos (by decide)) notional hnotional
  have hamount : amount request = notional := by rw [amount, hnotional, Option.getD_some]
  rw [hamount]
  obtain rfl : today = day := Except.ok.inj (htoday.symm.trans hday)
  change (f.desk.engine.counters.roll today).dailyNotional + |notional| ≤ limit at hle
  exact ⟨hpos.le, by rwa [abs_of_pos hpos] at hle⟩

theorem reserved_accept {files : Files} {request : OrderRequest ℚ} {e : PreTradeRiskEngine ℚ} (hpos : 0 ≤ most)
    (hmost : most ≤ limit) (h : Reserved most limit slots start turns f) (hupto : Upto Turn.now start turns n)
    (hlimit : f.desk.engine.limits.dailyNotionalLimitUsd = some limit)
    (hrunning : f.desk.engine.limits.isDisabled .dailyNotionalLimit = false) (hsize : amount request ≤ most)
    (haccept : evaluate files f.desk.engine n request = .ok (accepted, e)) (hslot : f.inFlight.length < slots) :
    Reserved most limit slots start (turns ++ [⟨n, .accept files request⟩]) ⟨⟨e, f.desk.store⟩, request :: f.inFlight⟩ := by
  obtain ⟨day, hday, hpruned⟩ := evaluate_pruned haccept
  have hlimits : e.limits = f.desk.engine.limits := hpruned.limits
  have hcounters : e.counters = f.desk.engine.counters.roll day := hpruned.counters
  have htold (roll : ℤ) (day : String) : toldOn roll day (turns ++ [⟨n, .accept files request⟩]) =
      toldOn roll day turns := by
    rw [toldOn_snoc]
    exact add_zero _
  obtain ⟨hamount, hroom⟩ := room_of_accepted haccept hday hlimit hrunning
  have hcounter := h.counter n hupto day hday
  refine Reserved.of_current day hpos hmost hupto ?_ ?_ ?_ ?_ ?_
  · change Clock.tradingDay n e.limits.sessionRollMillis = .ok day
    rw [hlimits]
    exact hday
  · change e.counters.tradingDay = day
    rw [hcounters, Counters.roll_tradingDay]
  · change Within limit most slots (toldOn e.limits.sessionRollMillis day _) ((request :: f.inFlight).map amount)
    rw [htold, hlimits, List.map_cons]
    exact (h.within n hupto day hday).issue ⟨hamount, hsize⟩ (by linarith) (by rwa [List.length_map])
  · change toldOn e.limits.sessionRollMillis day _ ≤ e.counters.dailyNotional
    rw [htold, hlimits, hcounters]
    exact hcounter
  · change ∀ day, toldOn e.limits.sessionRollMillis day turns + most ≤ limit + slots • most
    rw [hlimits]
    exact h.days

theorem runs_toldCalls {request : OrderRequest ℚ} {d d' : Desk ℚ} (h : Runs d (toldCalls n request) d') :
    (request.notionalUsd = none ∧ d' = { d with engine := d.engine.recordOrderSent request n }) ∨
      ∃ notional day, request.notionalUsd = some notional ∧ d.engine.today n = .ok day ∧
        d' = Desk.reported { d with engine := d.engine.recordOrderSent request n } (.notional notional) day := by
  rw [toldCalls] at h
  cases hnotional : request.notionalUsd with
  | none =>
      rw [hnotional] at h
      obtain ⟨d₁, hsent, hnil⟩ := steps_cons_iff.mp h
      obtain rfl := steps_nil_iff.mp hnil
      cases hsent
      exact .inl ⟨rfl, rfl⟩
  | some notional =>
      rw [hnotional] at h
      obtain ⟨d₁, hsent, hrest⟩ := steps_cons_iff.mp h
      obtain ⟨d₂, hreport, hnil⟩ := steps_cons_iff.mp hrest
      obtain rfl := steps_nil_iff.mp hnil
      cases hsent
      obtain ⟨day, hday, hd⟩ := perform_report_eq_ok.mp hreport
      exact .inr ⟨notional, day, rfl, hday, hd⟩

theorem reserved_tell {request : OrderRequest ℚ} {before after : List (OrderRequest ℚ)} {d : Desk ℚ} (hpos : 0 ≤ most)
    (hmost : most ≤ limit) (h : Reserved most limit slots start turns f) (hupto : Upto Turn.now start turns n)
    (hinFlight : f.inFlight = before ++ request :: after) (hcalls : Runs f.desk (toldCalls n request) d) :
    Reserved most limit slots start (turns ++ [⟨n, .tell request⟩]) ⟨d, before ++ after⟩ := by
  rcases runs_toldCalls hcalls with ⟨hnone, rfl⟩ | ⟨notional, day, hnotional, hday, rfl⟩
  · refine h.of_unchanged rfl rfl (fun roll day => ?_) fun used hwithin => ?_
    · rw [Turn.toldOn]
      simp [amount, hnone]
    · rw [hinFlight, List.map_append, List.map_cons] at hwithin
      rw [List.map_append]
      exact hwithin.void
  · have hamount : amount request = notional := by rw [amount, hnotional, Option.getD_some]
    have htold : toldOn f.desk.engine.limits.sessionRollMillis day (turns ++ [⟨n, .tell request⟩]) =
        toldOn f.desk.engine.limits.sessionRollMillis day turns + notional := by
      have hturn : Turn.toldOn f.desk.engine.limits.sessionRollMillis day ⟨n, .tell request⟩ = notional :=
        (if_pos hday).trans hamount
      rw [toldOn_snoc, hturn]
    have hcounter := h.counter n hupto day hday
    have hwithin := h.within n hupto day hday
    rw [hinFlight, List.map_append, List.map_cons, hamount] at hwithin
    refine Reserved.of_current day hpos hmost hupto hday (by simp [Desk.reported, PreTradeRiskEngine.withCounters])
      ?_ ?_ h.days
    · change Within limit most slots (toldOn f.desk.engine.limits.sessionRollMillis day _) ((before ++ after).map amount)
      rw [htold, List.map_append]
      exact hwithin.spend
    · change toldOn f.desk.engine.limits.sessionRollMillis day _ ≤
        (f.desk.engine.counters.roll day).dailyNotional + notional
      rw [htold]
      linarith

omit [PyFloat ℚ] in
theorem le_apply_dailyNotional {event : CounterEvent ℚ} (c : Counters ℚ)
    (h : ∀ notional, event = .notional notional → 0 ≤ notional) : c.dailyNotional ≤ (event.apply c).dailyNotional := by
  by_cases hevent : ∃ notional, event = .notional notional
  · obtain ⟨notional, rfl⟩ := hevent
    exact le_add_of_nonneg_right (h notional rfl)
  · exact (CounterEvent.apply_dailyNotional c (not_exists.mp hevent)).ge

theorem reserved_call {op : Op ℚ} {d : Desk ℚ} (hpos : 0 ≤ most) (hmost : most ≤ limit)
    (h : Reserved most limit slots start turns f) (hupto : Upto Turn.now start turns n) (hload : op ≠ .load)
    (hgive : ∀ notional, op = .report (.notional notional) → 0 ≤ notional) (hcall : f.desk.perform ⟨n, op⟩ = .ok d) :
    Reserved most limit slots start (turns ++ [⟨n, .call op⟩]) ⟨d, f.inFlight⟩ := by
  obtain ⟨hlimits, -, hmoves⟩ := perform_moves hcall
  have htold (roll : ℤ) (day : String) : toldOn roll day (turns ++ [⟨n, .call op⟩]) = toldOn roll day turns := by
    rw [toldOn_snoc]
    exact add_zero _
  have hrolled {day : String} (hday : f.desk.engine.today n = .ok day) (hc : d.engine.counters.tradingDay = day)
      (hle : (f.desk.engine.counters.roll day).dailyNotional ≤ d.engine.counters.dailyNotional) :
      Reserved most limit slots start (turns ++ [⟨n, .call op⟩]) ⟨d, f.inFlight⟩ := by
    refine Reserved.of_current day hpos hmost hupto ?_ hc ?_ ?_ ?_
    · change Clock.tradingDay n d.engine.limits.sessionRollMillis = .ok day
      rw [hlimits]
      exact hday
    · change Within limit most slots (toldOn d.engine.limits.sessionRollMillis day _) (f.inFlight.map amount)
      rw [htold, hlimits]
      exact h.within n hupto day hday
    · change toldOn d.engine.limits.sessionRollMillis day _ ≤ d.engine.counters.dailyNotional
      rw [htold, hlimits]
      exact (h.counter n hupto day hday).trans hle
    · change ∀ day, toldOn d.engine.limits.sessionRollMillis day turns + most ≤ limit + slots • most
      rw [hlimits]
      exact h.days
  have hkept (hc : d.engine.counters = f.desk.engine.counters) :
      Reserved most limit slots start (turns ++ [⟨n, .call op⟩]) ⟨d, f.inFlight⟩ :=
    h.of_unchanged hlimits hc (fun _ _ => rfl) fun _ hwithin => hwithin
  cases hmoves with
  | report hday hc _ =>
      refine hrolled hday (by simp [hc]) ?_
      rw [hc]
      exact le_apply_dailyNotional _ fun notional heq => hgive notional (heq ▸ rfl)
  | roll _ hday hc _ => exact hrolled hday (by simp [hc]) (by rw [hc])
  | load => exact absurd rfl hload
  | keep _ hc _ => exact hkept hc
  | persist hc _ => exact hkept hc
  | control _ hc _ => exact hkept hc
  | outside hc _ => exact hkept hc

/-- What the other calls may do: no notional is given back, and nothing is
loaded over the counters. -/
def Quiet (op : Op ℚ) : Prop := op ≠ .load ∧ ∀ notional, op = .report (.notional notional) → 0 ≤ notional

theorem reserved_step (hpos : 0 ≤ most) (hmost : most ≤ limit) (h : Reserved most limit slots start turns f)
    (hupto : Upto Turn.now start turns turn.now) (hlimit : f.desk.engine.limits.dailyNotionalLimitUsd = some limit)
    (hrunning : f.desk.engine.limits.isDisabled .dailyNotionalLimit = false)
    (hsize : ∀ files request, turn.act = .accept files request → amount request ≤ most)
    (hquiet : ∀ op, turn.act = .call op → Quiet op) (hstep : FloorStep slots f turn g) :
    Reserved most limit slots start (turns ++ [turn]) g := by
  cases hstep with
  | accept haccept hslot =>
      exact reserved_accept hpos hmost h hupto hlimit hrunning (hsize _ _ rfl) haccept hslot
  | tell hinFlight hcalls => exact reserved_tell hpos hmost h hupto hinFlight hcalls
  | drop hinFlight =>
      refine h.of_unchanged rfl rfl (fun _ _ => rfl) fun used hwithin => ?_
      rw [hinFlight, List.map_append, List.map_cons] at hwithin
      rw [List.map_append]
      exact hwithin.void
  | call _ hcall => exact reserved_call hpos hmost h hupto (hquiet _ rfl).1 (hquiet _ rfl).2 hcall

/-- A look at the daily notional is no reservation: with orders in flight the
day's orders may pass the limit, by all that can be in flight at once but one. -/
theorem notional_in_flight (hnew : PreTradeRiskEngine.new limits isLive start = .ok e₀)
    (hrun : Steps (FloorStep slots) ⟨⟨e₀, s₀⟩, []⟩ turns f) (horder : Nondecreasing Turn.now start turns)
    (hlimit : limits.dailyNotionalLimitUsd = some limit) (hrunning : limits.isDisabled .dailyNotionalLimit = false)
    (hpos : 0 ≤ most) (hmost : most ≤ limit)
    (hsize : ∀ turn ∈ turns, ∀ files request, turn.act = .accept files request → amount request ≤ most)
    (hquiet : ∀ turn ∈ turns, ∀ op, turn.act = .call op → Quiet op) (day : String) :
    toldOn limits.sessionRollMillis day turns + most ≤ limit + slots • most := by
  obtain ⟨today, -, rfl⟩ := new_eq_ok.mp hnew
  have hreserved : Reserved most limit slots start turns f := by
    induction hrun with
    | nil =>
        refine ⟨fun n _ day _ => within_start hpos hmost, fun n _ day _ => ?_, fun day => (within_start hpos hmost).used_le⟩
        by_cases h : day = (Counters.fresh today : Counters ℚ).tradingDay
        · exact (congrArg Counters.dailyNotional (Counters.roll_of_eq h)).ge
        · exact (congrArg Counters.dailyNotional (Counters.roll_of_ne h)).ge
    | @snoc turns f turn g hrun hstep ih =>
        obtain ⟨hturns, hupto⟩ := nondecreasing_snoc.mp horder
        have hlimits : f.desk.engine.limits = limits := runs_limits (floor_runs hrun)
        have h := ih hturns (fun t ht => hsize t (List.mem_append_left _ ht))
          fun t ht => hquiet t (List.mem_append_left _ ht)
        exact reserved_step hpos hmost h hupto (hlimits ▸ hlimit) (hlimits ▸ hrunning) (hsize turn (by simp))
          (hquiet turn (by simp)) hstep
  have hlimits : f.desk.engine.limits = limits := runs_limits (floor_runs hrun)
  have hdays := hreserved.days day
  rwa [hlimits] at hdays

theorem accepts_again {files : Files} {request : OrderRequest ℚ} {e e' : PreTradeRiskEngine ℚ}
    (h : evaluate files e n request = .ok (accepted, e')) : Accepts files e' n request := by
  obtain ⟨day, hday, hall⟩ := accepts_iff_admits.mp ⟨e', h⟩
  obtain ⟨today, htoday, hpruned⟩ := evaluate_pruned h
  obtain rfl := Except.ok.inj (htoday.symm.trans hday)
  have hrolled : e'.rollTo today = e' := by
    have hcounters : e'.counters.roll today = e'.counters :=
      Counters.roll_of_eq (by rw [hpruned.counters]; exact (Counters.roll_tradingDay _ _).symm)
    rw [PreTradeRiskEngine.rollTo, hcounters]
    rfl
  refine accepts_iff_admits.mpr ⟨today, ?_, fun id hid => ?_⟩
  · rw [PreTradeRiskEngine.today, hpruned.limits]
    exact hday
  · rw [hrolled]
    exact (permits_settled (settled_of_pruned hpruned)).mpr (hall id (by rwa [hpruned.limits] at hid))

def twoInFlight (request : OrderRequest ℚ) : List Turn :=
  [⟨noon, .accept (fun _ => false) request⟩, ⟨noon, .accept (fun _ => false) request⟩, ⟨noon, .tell request⟩,
    ⟨noon, .tell request⟩]

theorem exists_toldCalls (request : OrderRequest ℚ) {d : Desk ℚ} (hday : d.engine.today n = .ok day) :
    ∃ d', Runs d (toldCalls n request) d' ∧ d'.engine.today n = .ok day := by
  rw [toldCalls]
  cases request.notionalUsd with
  | none => exact ⟨_, Steps.single rfl, hday⟩
  | some notional =>
      exact ⟨_, (Steps.single rfl).snoc (perform_report (d := { d with engine := d.engine.recordOrderSent request n }) hday),
        hday⟩

theorem steps_twoInFlight {request : OrderRequest ℚ} {d : Desk ℚ} (hday : d.engine.today noon = .ok day)
    (h : Accepts (fun _ => false) d.engine noon request) :
    ∃ f, Steps (FloorStep 2) ⟨d, []⟩ (twoInFlight request) f := by
  obtain ⟨e, he⟩ := h
  obtain ⟨e', he'⟩ := accepts_again he
  have htoday : e'.today noon = .ok day := by
    obtain ⟨_, -, hs⟩ := evaluate_pruned he
    obtain ⟨_, -, hs'⟩ := evaluate_pruned he'
    rw [PreTradeRiskEngine.today, hs'.limits]
    change Clock.tradingDay noon e.limits.sessionRollMillis = .ok day
    rw [hs.limits]
    exact hday
  obtain ⟨d₁, hd₁, hday₁⟩ := exists_toldCalls request (d := ⟨e', d.store⟩) htoday
  obtain ⟨d₂, hd₂, -⟩ := exists_toldCalls request hday₁
  have hfirst : FloorStep 2 ⟨d, []⟩ ⟨noon, .accept (fun _ => false) request⟩ ⟨⟨e, d.store⟩, [request]⟩ :=
    .accept he two_pos
  have hsecond : FloorStep 2 ⟨⟨e, d.store⟩, [request]⟩ ⟨noon, .accept (fun _ => false) request⟩
      ⟨⟨e', d.store⟩, [request, request]⟩ := .accept he' one_lt_two
  have hthird : FloorStep 2 ⟨⟨e', d.store⟩, [request, request]⟩ ⟨noon, .tell request⟩ ⟨d₁, [] ++ [request]⟩ := .tell rfl hd₁
  have hlast : FloorStep 2 ⟨d₁, [] ++ [request]⟩ ⟨noon, .tell request⟩ ⟨d₂, [] ++ []⟩ := .tell rfl hd₂
  exact ⟨_, (((Steps.single hfirst).snoc hsecond).snoc hthird).snoc hlast⟩

omit [PyFloat ℚ] in
theorem nondecreasing_twoInFlight (request : OrderRequest ℚ) : Nondecreasing Turn.now noon (twoInFlight request) := by
  simp [Nondecreasing, twoInFlight]

end Floors

open scoped Decimal

/-- A cap of one lets two orders through. -/
theorem rate_in_flight_two : sendTimes (calls (twoInFlight one)) = [noon, noon] ∧
    ∃ f, Steps (FloorStep 2) ⟨pacedDesk, []⟩ (twoInFlight one) f ∧
      ∀ t : ℝ, ((trailing ((1000 : ℤ) : ℝ) t ((sendTimes (calls (twoInFlight one))).map Int.cast)).length : ℤ) <
        1 + (2 : ℕ) := by
  obtain ⟨f, hf⟩ := steps_twoInFlight (d := pacedDesk) tradingDay_noon one_accepted
  have hrate := rate_in_flight new_pacedDesk hf (nondecreasing_twoInFlight one) rfl rfl
  exact ⟨rfl, f, hf, hrate⟩

def hundred : OrderRequest ℚ := { OrderRequest.bare "ES" .buy 100 with limitPrice := some 1 }

/-- And a limit of a hundred lets two hundred through. -/
theorem notional_in_flight_hundred : toldOn 0 "2026-07-20" (twoInFlight hundred) = 200 ∧
    ∃ f, Steps (FloorStep 2) ⟨freshDesk, []⟩ (twoInFlight hundred) f ∧
      toldOn 0 "2026-07-20" (twoInFlight hundred) + 100 ≤ 100 + 2 • (100 : ℚ) := by
  have haccepts : Accepts (fun _ => false) freshDesk.engine noon hundred := accepts_of_decision (by decide +kernel)
  have hamount : amount hundred = 100 := by decide +kernel
  obtain ⟨f, hf⟩ := steps_twoInFlight (d := freshDesk) tradingDay_noon haccepts
  have hnotional := notional_in_flight new_freshDesk hf (nondecreasing_twoInFlight hundred) rfl rfl
    (by norm_num : (0 : ℚ) ≤ 100)
    le_rfl (by simp [twoInFlight, hamount]) (by simp [twoInFlight]) "2026-07-20"
  refine ⟨?_, f, hf, hnotional⟩
  decide +kernel

end PretradeRisk.InFlight
