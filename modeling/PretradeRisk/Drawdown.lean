import PretradeRisk.Ledger
import PretradeRisk.Margins
import PretradeRisk.Tickets
import PretradeRisk.Uninterrupted

namespace PretradeRisk.Drawdown

open Clock Crashes Decision Engine Evaluate Host Ieee Journal Ledger Limits Margins Orders Run Store Tickets
open DayHistory (tally tally_snoc)
open Uninterrupted (Taken lands_of_taken)

inductive Deed
  /-- an order is accepted, no bypass being in force, and opens a position that
  may lose so much -/
  | enter (files : Files) (request : OrderRequest Float64) (risk : ℚ)
  /-- a call, whose loss an open position bears -/
  | bear (act : Act)
  /-- a call without a loss -/
  | call (act : Act)
  /-- a position is closed -/
  | close

structure Move where
  now : ℤ
  deed : Deed

structure Book where
  process : Process
  positions : List ℚ

def Move.turns (move : Move) : List Turn :=
  match move.deed with
  | .enter files request _ => [⟨move.now, .evaluate files request⟩]
  | .bear act | .call act => [⟨move.now, act⟩]
  | .close => []

def turns (moves : List Move) : List Turn := moves.flatMap Move.turns

def loss (leg : Bool) : Act → ℚ
  | .report event _ => (posted (.leg leg) event).elim 0 fun pnlUsd => max (-value pnlUsd) 0
  | _ => 0

inductive BookStep (slots : ℕ) (most : ℚ) (b : Book) : Move → Book → Prop
  | enter {n : ℤ} {files : Files} {request : OrderRequest Float64} {risk : ℚ} {decision : RiskDecision Float64}
      {e : PreTradeRiskEngine Float64} (heval : evaluate files b.process.engine n request = .ok (decision, e))
      (haccepted : decision.accepted = true) (hbypass : b.process.engine.bypassActive n = false)
      (hslot : b.positions.length < slots) (hrisk : 0 ≤ risk ∧ risk ≤ most) :
      BookStep slots most b ⟨n, .enter files request risk⟩ ⟨⟨e, b.process.store⟩, risk :: b.positions⟩
  | bear {n : ℤ} {act : Act} {risk : ℚ} {before after : List ℚ} {p : Process}
      (hpositions : b.positions = before ++ risk :: after) (hloss : loss b.process.engine.isLive act ≤ risk)
      (hperform : b.process.perform ⟨n, act⟩ = .ok p) :
      BookStep slots most b ⟨n, .bear act⟩ ⟨p, before ++ (risk - loss b.process.engine.isLive act) :: after⟩
  | call {n : ℤ} {act : Act} {p : Process} (hloss : loss b.process.engine.isLive act = 0)
      (hperform : b.process.perform ⟨n, act⟩ = .ok p) : BookStep slots most b ⟨n, .call act⟩ ⟨p, b.positions⟩
  | close {n : ℤ} {risk : ℚ} {before after : List ℚ} (hpositions : b.positions = before ++ risk :: after) :
      BookStep slots most b ⟨n, .close⟩ ⟨b.process, before ++ after⟩

/-- The amounts that are reported for a leg on a trading day. -/
def realized (leg : Bool) (rollMillis : ℤ) (day : String) (turns : List Turn) : List ℚ :=
  (postings (.leg leg) (todays day (reports rollMillis turns))).map value

variable {slots k : ℕ} {most l : ℚ} {start n m roll : ℤ} {moves : List Move} {move : Move} {b b' : Book} {leg : Bool}
  {day : String} {before after : List Turn} {limits : RiskLimits Float64} {e₀ : PreTradeRiskEngine Float64}
  {s₀ : StateStore}

theorem bookStep_survives (h : BookStep slots most b move b') : Survives b.process move.turns b'.process := by
  cases h with
  | enter heval =>
      refine Steps.single ?_
      simp only [Process.perform, heval, ok_bind]
      rfl
  | bear _ _ hperform => exact Steps.single hperform
  | call _ hperform => exact Steps.single hperform
  | close _ => exact .nil

theorem book_survives (h : Steps (BookStep slots most) b moves b') : Survives b.process (turns moves) b'.process :=
  h.flatMap Book.process Move.turns bookStep_survives

theorem now_of_mem_turns (move : Move) : ∀ turn ∈ move.turns, turn.now = move.now := by
  obtain ⟨n, deed⟩ := move
  cases deed <;> simp [Move.turns]

theorem upto_turns (h : Upto Move.now start moves n) : Upto Turn.now start (turns moves) n := h.flatMap now_of_mem_turns

theorem nondecreasing_turns (h : Nondecreasing Move.now start moves) : Nondecreasing Turn.now start (turns moves) :=
  h.flatMap now_of_mem_turns

theorem turns_snoc (moves : List Move) (move : Move) : turns (moves ++ [move]) = turns moves ++ move.turns := by
  rw [turns, List.flatMap_append, List.flatMap_singleton]
  rfl

theorem todays_append (day : String) (before after : List Report) :
    todays day (before ++ after) = todays day before ++ todays day after := by
  simp [todays]

theorem realized_append (leg : Bool) (roll : ℤ) (day : String) (before after : List Turn) :
    realized leg roll day (before ++ after) = realized leg roll day before ++ realized leg roll day after := by
  rw [realized, reports_append, todays_append, postings, List.filterMap_append, List.map_append]
  rfl

theorem realized_single (leg : Bool) (roll : ℤ) (day : String) (turn : Turn) : realized leg roll day [turn] = [] ∨
    tradingDay turn.now roll = .ok day ∧ ∃ x, realized leg roll day [turn] = [x] ∧ loss leg turn.act = max (-x) 0 := by
  obtain ⟨n, act⟩ := turn
  cases act with
  | report event lands =>
      cases hday : tradingDay n roll with
      | error x =>
          left
          simp [realized, reports, logged, Turn.logged, hday, Except.toOption, todays, postings]
      | ok today =>
          by_cases htoday : today = day
          · cases hposted : posted (.leg leg) event with
            | none =>
                left
                simp [realized, reports, logged, Turn.logged, hday, Except.toOption, Event.entry, todays, postings, htoday,
                  hposted]
            | some x =>
                right
                refine ⟨congrArg Except.ok htoday, value x, ?_, by rw [loss, hposted, Option.elim_some]⟩
                simp [realized, reports, logged, Turn.logged, hday, Except.toOption, Event.entry, todays, postings, htoday,
                  hposted]
          · left
            simp [realized, reports, logged, Turn.logged, hday, Except.toOption, Event.entry, todays, postings, htoday]
  | persist lands =>
      left
      cases lands <;> rfl
  | _ =>
      left
      rfl

theorem loss_nonneg (leg : Bool) (act : Act) : 0 ≤ loss leg act := by
  cases act with
  | report event lands =>
      rw [loss]
      cases posted (.leg leg) event with
      | none => exact le_rfl
      | some x => exact le_max_right _ _
  | _ => exact le_rfl

theorem drawdown_turn_le (leg : Bool) (roll : ℤ) (day : String) (before : List Turn) (turn : Turn) :
    drawdown (realized leg roll day (before ++ [turn])) ≤ drawdown (realized leg roll day before) + loss leg turn.act := by
  rw [realized_append]
  rcases realized_single leg roll day turn with hnone | ⟨-, x, hx, hloss⟩
  · rw [hnone, List.append_nil]
    exact le_add_of_nonneg_right (loss_nonneg leg turn.act)
  · rw [hx, hloss]
    exact drawdown_snoc_le _ x

theorem realized_later {today : String} (hn : Upto Turn.now start before n) (htoday : tradingDay n roll = .ok today)
    (hday : tradingDay m roll = .ok day) (hnm : n ≤ m) (hne : day ≠ today) : realized leg roll day before = [] := by
  have hlt : today < day := lt_of_le_of_ne (tradingDay_mono htoday hday hnm) (Ne.symm hne)
  have hnone : todays day (reports roll before) = [] := by
    rw [todays, List.map_eq_nil_iff, List.filter_eq_nil_iff]
    intro r hr
    simpa using ((day_le_of_mem hn htoday r hr).trans_lt hlt).ne
  rw [realized, hnone]
  rfl

theorem legPeak_sub_legPnl (leg : Bool) (today : String) (executions : ℕ) (events : List (CounterEvent Float64)) :
    (tally (.dayStart today executions) (events.map exactly)).legPeak leg -
      (tally (.dayStart today executions) (events.map exactly)).legPnl leg =
      drawdown ((postings (.leg leg) events).map value) := by
  induction events using List.reverseRecOn with
  | nil => cases leg <;> exact sub_self (0 : ℚ)
  | append_singleton events event ih =>
      have hpnl := balance_apply (tally (.dayStart today executions) (events.map exactly)) (exactly event) (.leg leg)
      rw [posted_exactly] at hpnl
      change Counters.legPnl _ leg = _ at hpnl
      rw [List.map_append, List.map_singleton, tally_snoc, legPeak_apply, hpnl, posted_exactly]
      cases hx : posted (.leg leg) event with
      | none =>
          rw [postings_snoc_none hx]
          exact ih
      | some x =>
          rw [postings_snoc_some hx, List.map_append, List.map_singleton, drawdown_snoc, ← ih]
          change pyMax _ _ - (Counters.legPnl _ leg + value x) = _
          rw [pyMax_eq_max, ← max_sub_sub_right, sub_self, sub_sub]

/-- They are bounded, and no crash has caught one unwritten. -/
structure Recorded (k : ℕ) (roll : ℤ) (turns : List Turn) : Prop where
  bounded : ∀ today, Bounded k (todays today (reports roll turns))
  few : (reports roll turns).length < 2 ^ 53
  kept : (logOf (logged roll turns)).all = reports roll turns

theorem Recorded.of_append (h : Recorded k roll (before ++ after)) : Recorded k roll before := by
  have hsub : (reports roll before).Sublist (reports roll (before ++ after)) := by
    rw [reports_append]
    exact List.sublist_append_left _ _
  refine ⟨fun today => (h.bounded today).sublist (todays_sublist hsub today), lt_of_le_of_lt hsub.length_le h.few, ?_⟩
  have hkept := h.kept
  rw [reports, logged, List.filterMap_append] at hkept
  exact all_eq_of_append hkept

/-- How far an accepted order's drawdown may be past the limit. -/
def margin (k : ℕ) (amounts : List ℚ) : ℚ := (2 * amounts.length + 1) * halfPlace k

theorem margin_nonneg (amounts : List ℚ) : 0 ≤ margin k amounts := by
  have hlength : (0 : ℚ) ≤ amounts.length := Nat.cast_nonneg _
  exact mul_nonneg (by linarith) (halfPlace_pos k).le

theorem margin_le {amounts amounts' : List ℚ} (h : amounts.length ≤ amounts'.length) :
    margin k amounts ≤ margin k amounts' := by
  have hcast : (amounts.length : ℚ) ≤ amounts'.length := by exact_mod_cast h
  exact mul_le_mul_of_nonneg_right (by linarith) (halfPlace_pos k).le

theorem drawdown_lt {hl : Representable l} {p : Process} {files : Files} {request : OrderRequest Float64}
    {decision : RiskDecision Float64} {e : PreTradeRiskEngine Float64} (hk : k < 1000)
    (hnew : PreTradeRiskEngine.new limits leg start = .ok e₀) (hblank : ∀ key ∈ counterKeys, s₀ key = none)
    (hrun : Survives ⟨e₀, s₀⟩ before p) (horder : Nondecreasing Turn.now start before) (h : Recorded k roll before)
    (hroll : limits.sessionRollMillis = roll) (hn : Upto Turn.now start before n) (hday : tradingDay n roll = .ok day)
    (hlimit : limits.dailyLossLimitUsd = some (.finite l hl)) (hle : l ≤ 2 ^ k)
    (hrunning : limits.isDisabled .dailyLossLimit = false) (hbypass : p.engine.bypassActive n = false)
    (heval : evaluate files p.engine n request = .ok (decision, e)) (haccepted : decision.accepted = true) :
    drawdown (realized leg roll day before) < l + margin k (realized leg roll day before) := by
  subst hroll
  obtain ⟨hbounded, htracks⟩ := tracks_of_run hk hnew hblank hrun horder h.bounded h.few hn hday
  obtain ⟨hlimits, hleg⟩ : p.engine.limits = limits ∧ p.engine.isLive = leg := by
    obtain ⟨today, -, rfl⟩ := new_eq_ok.mp hnew
    exact ⟨survives_limits hrun, survives_isLive hrun⟩
  have htoday : p.engine.today n = .ok day := by rw [PreTradeRiskEngine.today, hlimits, hday]
  have hkept : keptToday day limits.sessionRollMillis before = todays day (reports limits.sessionRollMillis before) := by
    rw [keptToday, ← all_logOf, h.kept]
  have hlt := drawdown_lt_of_accepted hk htracks hbounded hle (hlimits ▸ hlimit) (hlimits ▸ hrunning) hbypass htoday
    heval haccepted
  rw [hleg, exactCounters, legPeak_sub_legPnl, hkept] at hlt
  rw [margin, realized, List.length_map]
  exact hlt

/-- On any day the run may go on to, what the positions may still lose and
what is lost already are covered. -/
structure Covered (cap : String → ℚ) (most : ℚ) (slots : ℕ) (leg : Bool) (roll start : ℤ) (moves : List Move) (b : Book) :
    Prop where
  within : ∀ n, Upto Move.now start moves n → ∀ day, tradingDay n roll = .ok day →
    Within (cap day) most slots (drawdown (realized leg roll day (turns moves))) b.positions
  days : ∀ day, drawdown (realized leg roll day (turns moves)) + most ≤ cap day + slots • most

variable {cap : String → ℚ}

theorem Covered.of_turn {act : Act} {p : Process} {positions : List ℚ}
    (h : Covered cap most slots leg roll start moves b) (hupto : Upto Move.now start moves n)
    (hturns : move.turns = [⟨n, act⟩])
    (hwithin : ∀ cap used, Within cap most slots used b.positions → Within cap most slots (used + loss leg act) positions) :
    Covered cap most slots leg roll start (moves ++ [move]) ⟨p, positions⟩ := by
  have hle (day : String) : drawdown (realized leg roll day (turns (moves ++ [move]))) ≤
      drawdown (realized leg roll day (turns moves)) + loss leg act := by
    rw [turns_snoc, hturns]
    exact drawdown_turn_le leg roll day (turns moves) ⟨n, act⟩
  refine ⟨fun m hm day hday => ?_, fun day => ?_⟩
  · exact (hwithin _ _ (h.within m (upto_snoc.mp hm).1 day hday)).ease (hle day)
  · rcases realized_single leg roll day ⟨n, act⟩ with hnone | ⟨htoday, -⟩
    · rw [turns_snoc, hturns, realized_append, hnone, List.append_nil]
      exact h.days day
    · exact ((hwithin _ _ (h.within n hupto day htoday)).ease (hle day)).used_le

theorem Covered.enter {files : Files} {request : OrderRequest Float64} {risk : ℚ} {today : String} {p : Process}
    (h : Covered cap most slots leg roll start moves b) (hupto : Upto Move.now start moves n)
    (htoday : tradingDay n roll = .ok today) (hroom : drawdown (realized leg roll today (turns moves)) + most ≤ cap today)
    (hcap : ∀ day, most ≤ cap day) (hslot : b.positions.length < slots) (hrisk : 0 ≤ risk ∧ risk ≤ most) :
    Covered cap most slots leg roll start (moves ++ [⟨n, .enter files request risk⟩]) ⟨p, risk :: b.positions⟩ := by
  have hkept (day : String) : realized leg roll day (turns (moves ++ [⟨n, .enter files request risk⟩])) =
      realized leg roll day (turns moves) := by
    rw [turns_snoc, realized_append]
    exact List.append_nil _
  have hissued : Within (cap today) most slots (drawdown (realized leg roll today (turns moves))) (risk :: b.positions) :=
    (h.within n hupto today htoday).issue hrisk (by linarith) hslot
  refine ⟨fun m hm day hday => ?_, fun day => by rw [hkept]; exact h.days day⟩
  rw [hkept]
  by_cases hsame : day = today
  · rw [hsame]
    exact hissued
  · rw [realized_later (upto_turns hupto) htoday hday (upto_snoc.mp hm).2 hsame]
    exact within_fresh hissued.length hissued.amounts (hrisk.1.trans hrisk.2) (hcap day)

theorem covered_step (h : Covered cap most slots leg roll start moves b) (hupto : Upto Move.now start moves move.now)
    (hleg : b.process.engine.isLive = leg) (hroll : b.process.engine.limits.sessionRollMillis = roll)
    (hcap : ∀ day, most ≤ cap day)
    (hroom : ∀ n files request risk decision e, move = ⟨n, .enter files request risk⟩ →
      b.process.engine.bypassActive n = false → evaluate files b.process.engine n request = .ok (decision, e) →
      decision.accepted = true → ∀ day, tradingDay n roll = .ok day →
      drawdown (realized leg roll day (turns moves)) + most ≤ cap day)
    (hstep : BookStep slots most b move b') : Covered cap most slots leg roll start (moves ++ [move]) b' := by
  subst hleg
  cases hstep with
  | @enter n files request risk decision e heval haccepted hbypass hslot hrisk =>
      obtain ⟨today, htoday, -⟩ := Pruning.evaluate_pruned heval
      rw [PreTradeRiskEngine.today, hroll] at htoday
      exact h.enter hupto htoday (hroom _ _ _ _ _ _ rfl hbypass heval haccepted today htoday) hcap hslot hrisk
  | @bear n act risk before after p hpositions hloss _ =>
      refine h.of_turn hupto rfl fun cap used hwithin => ?_
      rw [hpositions] at hwithin
      exact hwithin.draw ⟨loss_nonneg _ act, hloss⟩
  | call hloss _ =>
      refine h.of_turn hupto rfl fun cap used hwithin => ?_
      rwa [hloss, add_zero]
  | @close n risk before after hpositions =>
      have hnone : turns (moves ++ [⟨n, .close⟩]) = turns moves := (turns_snoc _ _).trans (List.append_nil _)
      refine ⟨fun m hm day hday => ?_, fun day => by rw [hnone]; exact h.days day⟩
      have hwithin := h.within m (upto_snoc.mp hm).1 day hday
      rw [hpositions] at hwithin
      rw [hnone]
      exact hwithin.void

theorem book_covered {hl : Representable l} (strays : String → ℚ) (hk : k < 1000)
    (hnew : PreTradeRiskEngine.new limits leg start = .ok e₀) (hblank : ∀ key ∈ counterKeys, s₀ key = none)
    (hrun : Steps (BookStep slots most) ⟨⟨e₀, s₀⟩, []⟩ moves b) (horder : Nondecreasing Move.now start moves)
    (hrecorded : Recorded k limits.sessionRollMillis (turns moves))
    (hlimit : limits.dailyLossLimitUsd = some (.finite l hl)) (hl₀ : 0 ≤ l) (hle : l ≤ 2 ^ k)
    (hrunning : limits.isDisabled .dailyLossLimit = false) (hmost : 0 ≤ most) (hstrays : ∀ day, 0 ≤ strays day)
    (hmargin : ∀ day before, before <+: turns moves →
      margin k (realized leg limits.sessionRollMillis day before) ≤ strays day) :
    Covered (fun day => l + strays day + most) most slots leg limits.sessionRollMillis start moves b := by
  have hcap (day : String) : most ≤ l + strays day + most := by linarith [hstrays day]
  induction hrun with
  | nil => exact ⟨fun n _ day _ => within_start hmost (hcap day), fun day => (within_start hmost (hcap day)).used_le⟩
  | @snoc moves b move b' hrun hstep ih =>
      obtain ⟨hmoves, hupto⟩ := nondecreasing_snoc.mp horder
      rw [turns_snoc] at hrecorded hmargin
      have h := ih hmoves hrecorded.of_append fun day before hbefore =>
        hmargin day before (hbefore.trans (List.prefix_append _ _))
      have hsurvives := book_survives hrun
      obtain ⟨hlimits, hleg⟩ : b.process.engine.limits = limits ∧ b.process.engine.isLive = leg := by
        obtain ⟨today, -, rfl⟩ := new_eq_ok.mp hnew
        exact ⟨survives_limits hsurvives, survives_isLive hsurvives⟩
      refine covered_step h hupto hleg (by rw [hlimits]) hcap ?_ hstep
      rintro n files request risk decision e rfl hbypass heval haccepted day hday
      have hlt := drawdown_lt hk hnew hblank hsurvives (nondecreasing_turns hmoves) hrecorded.of_append rfl
        (upto_turns hupto) hday hlimit hle hrunning hbypass heval haccepted
      linarith [hmargin day (turns moves) (List.prefix_append _ _)]

/-- On no day is a leg further below its high water mark than the loss limit,
what all the positions open at once may lose, and the margin of the
arithmetic. -/
theorem day_loss_bounded {hl : Representable l} (hk : k < 1000) (hnew : PreTradeRiskEngine.new limits leg start = .ok e₀)
    (hblank : ∀ key ∈ counterKeys, s₀ key = none) (hrun : Steps (BookStep slots most) ⟨⟨e₀, s₀⟩, []⟩ moves b)
    (horder : Nondecreasing Move.now start moves) (hrecorded : Recorded k limits.sessionRollMillis (turns moves))
    (hlimit : limits.dailyLossLimitUsd = some (.finite l hl)) (hle : l ≤ 2 ^ k)
    (hrunning : limits.isDisabled .dailyLossLimit = false) (hmost : 0 ≤ most) {day : String} {peak : ℚ}
    (hpeak : IsHighWater (realized leg limits.sessionRollMillis day (turns moves)) peak) :
    peak - (realized leg limits.sessionRollMillis day (turns moves)).sum ≤
      l + margin k (realized leg limits.sessionRollMillis day (turns moves)) + slots * most := by
  have hl₀ : 0 ≤ l := by
    have hnot := limits.admissible.amounts "daily_loss_limit_usd" (.finite l hl) (by simp [LimitFields.amounts, hlimit])
    exact (not_le.mp hnot).le
  -- what the margin of a day comes to in the end covers the run at any point
  have hcovered := book_covered (fun day => margin k (realized leg limits.sessionRollMillis day (turns moves)))
    hk hnew hblank
    hrun horder hrecorded hlimit hl₀ hle hrunning hmost (fun day => margin_nonneg _) fun day before hbefore => by
      obtain ⟨later, hlater⟩ := hbefore
      refine margin_le ?_
      rw [← hlater, realized_append, List.length_append]
      exact Nat.le_add_right _ _
  have hdays := hcovered.days day
  rw [hpeak.drawdown_eq, nsmul_eq_mul] at hdays
  linarith

def oneLoss : List Move :=
  [⟨Session.noon, .enter (fun _ => false) FailOpen.plainOrder 16⟩,
    ⟨Session.noon, .bear (.report (.realizedPnl (.ofRat (-16)) false) true)⟩]

theorem reports_oneLoss : reports 0 (turns oneLoss) = [⟨"2026-07-20", .realizedPnl (.ofRat (-16)) false⟩] := by
  simp [reports, logged, turns, oneLoss, Move.turns, List.filterMap_cons, Turn.logged, Session.tradingDay_noon,
    Except.toOption, Event.entry]

theorem realized_oneLoss : realized false 0 "2026-07-20" (turns oneLoss) = [-16] := by
  rw [realized, reports_oneLoss]
  decide +kernel

theorem recorded_oneLoss : Recorded 4 0 (turns oneLoss) := by
  refine ⟨fun today => ?_, by rw [reports_oneLoss]; norm_num, all_of_lands (lands_of_taken ?_)⟩
  · have hall : Bounded 4 [.realizedPnl (.ofRat (-16)) false] := by
      refine ⟨fun account => ?_, fun account => ?_, fun account => ?_⟩ <;>
        (cases account with
          | leg isLive => cases isLive <;> decide +kernel
          | notional => decide +kernel)
    rw [reports_oneLoss]
    exact hall.sublist (List.filter_sublist.map Report.event)
  · simp [Taken, turns, oneLoss, Move.turns]

theorem steps_oneLoss : ∃ b, Steps (BookStep 1 16) ⟨⟨FailOpen.lossEngine, empty⟩, []⟩ oneLoss b := by
  have haccepts : FailOpen.Accepts (fun _ => false) FailOpen.lossEngine Session.noon FailOpen.plainOrder :=
    Verdicts.exists_decision_of_any (by decide +kernel)
  obtain ⟨decision, e, heval, haccepted⟩ := haccepts
  obtain ⟨_, -, hpruned⟩ := Pruning.evaluate_pruned heval
  have htoday : e.today Session.noon = .ok "2026-07-20" := by
    rw [PreTradeRiskEngine.today, hpruned.limits]
    exact Session.tradingDay_noon
  have hleg : e.isLive = false := hpruned.isLive
  obtain ⟨p, hp⟩ : ∃ p, Process.perform ⟨e, empty⟩ ⟨Session.noon, .report (.realizedPnl (.ofRat (-16)) false) true⟩ =
      .ok p :=
    perform_report htoday
  have hloss : loss e.isLive (.report (.realizedPnl (.ofRat (-16)) false) true) ≤ 16 := by
    rw [hleg]
    decide +kernel
  have hentered : BookStep 1 16 ⟨⟨FailOpen.lossEngine, empty⟩, []⟩ oneLoss[0] ⟨⟨e, empty⟩, [16]⟩ :=
    .enter heval haccepted rfl one_pos ⟨by norm_num, le_rfl⟩
  have hborne : BookStep 1 16 ⟨⟨e, empty⟩, [16]⟩ oneLoss[1] ⟨p, [] ++ (16 - loss e.isLive _) :: []⟩ := .bear rfl hloss hp
  exact ⟨_, (Steps.single hentered).snoc hborne⟩

theorem isHighWater_oneLoss : IsHighWater (realized false 0 "2026-07-20" (turns oneLoss)) 0 := by
  have hpeak : IsHighWater ([] ++ [-16]) (max 0 (([] : List ℚ).sum + -16)) := isHighWater_nil.snoc (-16)
  rw [realized_oneLoss]
  simpa using hpeak

/-- What one position may lose is lost on top of the limit. -/
theorem day_loss_bounded_sixteen : (realized false 0 "2026-07-20" (turns oneLoss)).sum = -16 ∧
    ∃ b, Steps (BookStep 1 16) ⟨⟨FailOpen.lossEngine, empty⟩, []⟩ oneLoss b ∧
      0 - (realized false 0 "2026-07-20" (turns oneLoss)).sum ≤
        10 + margin 4 (realized false 0 "2026-07-20" (turns oneLoss)) + (1 : ℕ) * 16 := by
  obtain ⟨b, hb⟩ := steps_oneLoss
  have hten : FailOpen.lossLimits.dailyLossLimitUsd = some (.finite (10 : ℤ) (representable_intCast (by norm_num))) :=
    congrArg some (Float64.ofRat_of_representable (representable_intCast (by norm_num)))
  have hbounded := day_loss_bounded (k := 4) (by norm_num) FailOpen.new_lossEngine (fun _ _ => rfl) hb
    (by simp [Nondecreasing, oneLoss]) recorded_oneLoss hten (by norm_num) rfl (by norm_num) isHighWater_oneLoss
  refine ⟨by simp [realized_oneLoss], b, hb, ?_⟩
  exact_mod_cast hbounded

end PretradeRisk.Drawdown
