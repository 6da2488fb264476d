import PretradeRisk.Admission
import PretradeRisk.Lifecycle
import PretradeRisk.Snapshot

namespace PretradeRisk.Executions

open Admission Engine Encoding Host Lifecycle Limits Run Session Snapshot Store

section Counts

variable {F : Type}

def isExecution : CounterEvent F → Bool
  | .execution => true
  | _ => false

def isRearm : CounterEvent F → Bool
  | .rearm => true
  | _ => false

def executionsIn (events : List (CounterEvent F)) : ℕ := (events.rtakeWhile (!isRearm ·)).countP isExecution

theorem executionsIn_snoc (events : List (CounterEvent F)) (event : CounterEvent F) :
    executionsIn (events ++ [event]) =
      if isRearm event then 0 else executionsIn events + (if isExecution event then 1 else 0) := by
  rw [executionsIn, executionsIn, List.rtakeWhile_concat]
  cases isRearm event <;> simp [List.countP_cons]

theorem apply_executionsSinceRearm [Add F] [LT F] [DecidableLT F] {events : List (CounterEvent F)} {c : Counters F}
    (h : c.executionsSinceRearm = executionsIn events) (event : CounterEvent F) :
    (event.apply c).executionsSinceRearm = executionsIn (events ++ [event]) := by
  rw [executionsIn_snoc, ← h]
  cases event with
  | realizedPnl _ isLive => cases isLive <;> rfl
  | _ => rfl

end Counts

def reports (turns : List (Turn ℚ)) : List (CounterEvent ℚ) :=
  turns.filterMap fun turn =>
    match turn.act with
    | .call (.report event) => some event
    | _ => none

/-- The executions reported since the last re-arm of a life, or its start. -/
def executionsSince (turns : List (Turn ℚ)) : ℕ := executionsIn (reports turns)

variable {turn : Turn ℚ} {turns : List (Turn ℚ)} {n : ℤ}

theorem executionsSince_snoc_report {event : CounterEvent ℚ} :
    executionsSince (turns ++ [⟨n, .call (.report event)⟩]) = executionsIn (reports turns ++ [event]) := by
  simp [executionsSince, reports]

theorem executionsSince_snoc_of_ne (h : ∀ event, turn.act ≠ .call (.report event)) :
    executionsSince (turns ++ [turn]) = executionsSince turns := by
  obtain ⟨m, act⟩ := turn
  rcases act with op | _ | _
  · cases op <;> simp_all [executionsSince, reports]
  · simp [executionsSince, reports]
  · simp [executionsSince, reports]

section Lives

variable [PyFloat ℚ]

/-- The memory holds the count, and so does the store, for a load to find. -/
structure Counted (turns : List (Turn ℚ)) (d : Desk ℚ) : Prop where
  memory : d.engine.counters.executionsSinceRearm = executionsSince turns
  store : asCount ℚ (d.store .executionsSinceRearm) = executionsSince turns

variable {d d' d₀ : Desk ℚ}

theorem Counted.of_kept (h : Counted turns d) (hact : ∀ event, turn.act ≠ .call (.report event))
    (hc : d'.engine.counters.executionsSinceRearm = d.engine.counters.executionsSinceRearm)
    (hs : d'.store .executionsSinceRearm = d.store .executionsSinceRearm) : Counted (turns ++ [turn]) d' := by
  have hsince : executionsSince (turns ++ [turn]) = executionsSince turns := executionsSince_snoc_of_ne hact
  exact ⟨by rw [hc, hsince, h.memory], by rw [hs, hsince, h.store]⟩

theorem counted_of_written [ExactFloat] (hc : d'.engine.counters.executionsSinceRearm = executionsSince turns)
    (hs : d'.store = setMany d.store d'.engine.snapshot) (hround : RoundTrips ((executionsSince turns : ℤ) : ℚ)) :
    Counted turns d' := by
  refine ⟨hc, ?_⟩
  have hmirrors : Mirrors d'.store d'.engine.counters := hs ▸ mirrors_setMany _ _
  rw [(mirrors_iff.mp hmirrors).2.2.2.2.2.2.2, hc]
  exact asCount_of_roundTrips hround

@[simp] theorem adopt_executionsSinceRearm (c : Counters ℚ) (raw : StateStore) (day : String) :
    (c.adopt raw day).executionsSinceRearm = asCount ℚ (raw .executionsSinceRearm) := by
  rw [Counters.adopt]
  dsimp only
  split <;> rfl

theorem counted_call [ExactFloat] {op : Op ℚ} (h : Counted turns d) (hstep : d.perform ⟨n, op⟩ = .ok d')
    (houtside : ∀ s, op ≠ .outside s)
    (hround : RoundTrips ((executionsSince (turns ++ [⟨n, .call op⟩]) : ℤ) : ℚ)) :
    Counted (turns ++ [⟨n, .call op⟩]) d' := by
  obtain ⟨-, -, hmoves⟩ := perform_moves hstep
  cases hmoves with
  | report _ hc hs =>
      refine counted_of_written ?_ hs hround
      rw [hc, executionsSince_snoc_report]
      exact apply_executionsSinceRearm ((Counters.roll_executionsSinceRearm _ _).trans h.memory) _
  | persist hc hs =>
      have hsince : executionsSince (turns ++ [⟨n, .call .persist⟩]) = executionsSince turns :=
        executionsSince_snoc_of_ne (by simp)
      exact counted_of_written (by rw [hc, h.memory, hsince]) hs hround
  | load _ hc hs =>
      have hsince : executionsSince (turns ++ [⟨n, .call .load⟩]) = executionsSince turns :=
        executionsSince_snoc_of_ne (by simp)
      refine counted_of_written ?_ hs hround
      rw [hc, adopt_executionsSinceRearm, hsince]
      exact h.store
  | roll hop _ hc hs =>
      refine h.of_kept (by rcases hop with rfl | ⟨_, _, rfl⟩ <;> simp) (by rw [hc]; simp) (by rw [hs])
  | keep hop hc hs => exact h.of_kept (by rcases hop with rfl | ⟨_, rfl⟩ <;> simp) (by rw [hc]) (by rw [hs])
  | control hentries hc hs =>
      refine h.of_kept (by simp) (by rw [hc]) ?_
      rw [hs]
      exact Controls.OverrideCall.setMany_of_counterKeys hentries _ (by decide)
  | outside => exact absurd rfl (houtside _)

theorem counted_turn [ExactFloat] (h : Counted turns d) (hstep : Desk.turn d turn = .ok d')
    (houtside : ∀ s, turn.act ≠ .call (.outside s))
    (hround : RoundTrips ((executionsSince (turns ++ [turn]) : ℤ) : ℚ)) : Counted (turns ++ [turn]) d' := by
  obtain ⟨n, act⟩ := turn
  cases act with
  | call op => exact counted_call h hstep (fun s hs => houtside s (by rw [hs])) hround
  | resetDailyLossLimit =>
      cases hstep
      exact h.of_kept (by simp) rfl (setMany_of_notMem _ _ (by simp [Controls.resetDailyLossLimit]))
  | restart built =>
      obtain ⟨day, -, rfl⟩ := turn_restart hstep
      refine counted_of_written ?_ rfl hround
      rw [executionsSince_snoc_of_ne (by simp), ← h.store]
      exact adopt_executionsSinceRearm _ _ _

theorem lives_counted [ExactFloat] (h₀ : Counted [] d₀) (hrun : Lives d₀ turns d)
    (houtside : ∀ turn ∈ turns, ∀ s, turn.act ≠ .call (.outside s))
    (hround : ∀ before after, turns = before ++ after → RoundTrips ((executionsSince before : ℤ) : ℚ)) :
    Counted turns d := by
  induction hrun with
  | nil => exact h₀
  | @snoc turns d turn d' _ hstep ih =>
      refine counted_turn (ih (fun t ht => houtside t (List.mem_append_left _ ht)) fun before after heq => ?_) hstep
        (houtside turn (by simp)) (hround _ [] (by simp))
      exact hround before (after ++ [turn]) (by rw [heq]; simp)

/-- The count in force is that of the executions since the last re-arm, and
while it is at the limit no order is accepted. -/
theorem executions_since_rearm [ExactFloat] {limits : RiskLimits ℚ} {isLive : Bool} {start : ℤ}
    {e₀ : PreTradeRiskEngine ℚ} (hnew : PreTradeRiskEngine.new limits isLive start = .ok e₀)
    (hrun : Lives ⟨e₀, empty⟩ turns d) (houtside : ∀ turn ∈ turns, ∀ s, turn.act ≠ .call (.outside s))
    (hround : ∀ k : ℕ, k < 2 ^ 53 → RoundTrips ((k : ℤ) : ℚ))
    (hcounts : ∀ before after, turns = before ++ after → executionsSince before < 2 ^ 53) :
    d.engine.executionsSinceRearm = executionsSince turns ∧
    ∀ cap, limits.maxExecutionsWithoutReview = some cap → limits.isDisabled .repeatedExecution = false →
      cap ≤ executionsSince turns → ∀ files n r, ¬ Accepts files d.engine n r := by
  obtain ⟨today, -, rfl⟩ := new_eq_ok.mp hnew
  have h := lives_counted ⟨rfl, rfl⟩ hrun houtside fun before after heq => hround _ (hcounts before after heq)
  refine ⟨h.memory, fun cap hcap hrunning hle files n r ha => ?_⟩
  have hlimits : d.engine.limits = limits := (lives_limits hrun).1
  obtain ⟨day, -, hall⟩ := accepts_iff_admits.mp ha
  have hlt : (((d.engine.rollTo day).counters.executionsSinceRearm : ℕ) : ℤ) < cap :=
    hall .repeatedExecution (hlimits ▸ hrunning) cap (hlimits ▸ hcap)
  have hroll : (d.engine.rollTo day).counters.executionsSinceRearm = d.engine.counters.executionsSinceRearm :=
    Counters.roll_executionsSinceRearm _ _
  rw [hroll, h.memory] at hlt
  exact absurd hlt (not_lt.mpr hle)

end Lives

open scoped Decimal

def reviewedLimits : RiskLimits ℚ := ⟨{ maxExecutionsWithoutReview := some 1 }, by decide +kernel⟩

def reviewedDesk : Desk ℚ := ⟨.onDay reviewedLimits false "2026-07-20", empty⟩

def reviewedTurns : List (Turn ℚ) := [⟨noon, .call (.report .execution)⟩, ⟨nextNoon, .restart noon⟩]

theorem executions_since_rearm_restart :
    ∃ d, Lives reviewedDesk reviewedTurns d ∧
      d.engine.executionsSinceRearm = 1 ∧ ∀ files n r, ¬ Accepts files d.engine n r := by
  have hnew : PreTradeRiskEngine.new reviewedLimits false noon = .ok reviewedDesk.engine :=
    new_eq_ok.mpr ⟨_, tradingDay_noon, rfl⟩
  have hexecution : Desk.turn reviewedDesk ⟨noon, .call (.report .execution)⟩ =
      .ok (reviewedDesk.reported .execution "2026-07-20") := perform_report tradingDay_noon
  have hrestart : Desk.turn (reviewedDesk.reported .execution "2026-07-20") ⟨nextNoon, .restart noon⟩ =
      .ok (Desk.restarted (reviewedDesk.reported .execution "2026-07-20") "2026-07-21") :=
    turn_restart_of_today tradingDay_noon tradingDay_nextNoon
  have hrun : Lives reviewedDesk reviewedTurns _ := (Steps.single hexecution).snoc hrestart
  have hcounts : ∀ before after, reviewedTurns = before ++ after → executionsSince before < 2 ^ 53 := by
    intro before after heq
    have hle : executionsSince before ≤ before.length :=
      (List.countP_le_length.trans (List.rtakeWhile_suffix _ _).length_le).trans (List.length_filterMap_le _ _)
    have hlength : 2 = before.length + after.length := by
      simpa [reviewedTurns] using congrArg List.length heq
    omega
  have h := executions_since_rearm hnew hrun (by simp [reviewedTurns]) (fun k _ => Decimal.roundTrips_intCast k) hcounts
  exact ⟨_, hrun, h.1, h.2 1 rfl rfl le_rfl⟩

end PretradeRisk.Executions
