import PretradeRisk.Snapshot

namespace PretradeRisk.Reload

open Clock Engine Host Limits Run Session Snapshot Store

/-- Nothing has been counted on the day: what is left is the executions since
re-arm, which no day scopes. -/
structure DayClear (c : Counters ℚ) : Prop where
  livePnl : c.livePnl = 0
  simulatedPnl : c.simulatedPnl = 0
  livePeak : c.livePeak = 0
  simulatedPeak : c.simulatedPeak = 0
  dailyNotional : c.dailyNotional = 0
  consecutiveRejects : c.consecutiveRejects = 0

theorem dayClear_dayStart (today : String) (n : ℕ) : DayClear (Counters.dayStart today n) :=
  ⟨rfl, rfl, rfl, rfl, rfl, rfl⟩

section Runs

variable [PyFloat ℚ]

/-- A load that finds no snapshot of its day leaves the day's counters zero,
in memory and in the store, under the date of its reading. -/
def LoadsFresh (d d' : Desk ℚ) (n : ℤ) : Prop :=
  ∀ day, d.engine.today n = .ok day → d.store .tradingDay ≠ some day →
    DayClear d'.engine.counters ∧ d'.engine.counters.tradingDay = day ∧ Mirrors d'.store d'.engine.counters

/-- Where a call changes the date of the counters, they start from zero, or
from the store's snapshot of that date. -/
def KeepsDays (d : Desk ℚ) (call : Call ℚ) (d' : Desk ℚ) : Prop :=
  d'.engine.counters.tradingDay ≠ d.engine.counters.tradingDay →
    (∃ c, DayClear c ∧ c.tradingDay = d'.engine.counters.tradingDay ∧
      (d'.engine.counters = c ∨ ∃ event, call.op = .report event ∧ d'.engine.counters = event.apply c)) ∨
    (d.store .tradingDay = some d'.engine.counters.tradingDay ∧
      d'.engine.counters = (Counters.fresh d'.engine.counters.tradingDay).adopt d.store d'.engine.counters.tradingDay)

/-- What the engine writes is its memory, under the date the memory has. -/
def PersistsMemory (d : Desk ℚ) (call : Call ℚ) (d' : Desk ℚ) : Prop :=
  (∀ s, call.op ≠ .outside s) →
    (∀ key ∈ counterKeys, d'.store key = d.store key) ∨ Mirrors d'.store d'.engine.counters

/-- No counter is carried, or persisted, under a date it was not earned on. -/
structure FreshDays (d : Desk ℚ) (call : Call ℚ) (d' : Desk ℚ) : Prop where
  load : call.op = .load → LoadsFresh d d' call.now
  keeps : KeepsDays d call d'
  persists : PersistsMemory d call d'

variable {d d' d₀ : Desk ℚ} {call : Call ℚ} {n : ℤ} {day : String}

theorem adopt_of_date_eq (c : Counters ℚ) {s : StateStore} (h : s .tradingDay = some day) (today : String) :
    c.adopt s day = (Counters.fresh today).adopt s day := by
  simp [Counters.adopt, h]

theorem dayClear_adopt_iff {c : Counters ℚ} {s : StateStore} (h : s .tradingDay ≠ some day) :
    DayClear (c.adopt s day) ↔ DayClear c := by
  rw [adopt_of_date_ne c h]
  exact ⟨fun ⟨h₁, h₂, h₃, h₄, h₅, h₆⟩ => ⟨h₁, h₂, h₃, h₄, h₅, h₆⟩,
    fun ⟨h₁, h₂, h₃, h₄, h₅, h₆⟩ => ⟨h₁, h₂, h₃, h₄, h₅, h₆⟩⟩

theorem keepsDays_roll (h : d'.engine.counters = d.engine.counters.roll day) : KeepsDays d call d' := by
  intro hne
  rw [h, Counters.roll_tradingDay] at hne
  exact .inl ⟨_, dayClear_dayStart day d.engine.counters.executionsSinceRearm,
    by rw [h, Counters.roll_tradingDay]; rfl, .inl (by rw [h, Counters.roll_of_ne hne])⟩

theorem keepsDays_report {event : CounterEvent ℚ} (hop : call.op = .report event)
    (h : d'.engine.counters = event.apply (d.engine.counters.roll day)) : KeepsDays d call d' := by
  intro hne
  rw [h, CounterEvent.apply_tradingDay, Counters.roll_tradingDay] at hne
  exact .inl ⟨_, dayClear_dayStart day d.engine.counters.executionsSinceRearm,
    by rw [h, CounterEvent.apply_tradingDay, Counters.roll_tradingDay]; rfl,
    .inr ⟨event, hop, by rw [h, Counters.roll_of_ne hne]⟩⟩

theorem keepsDays_unchanged (h : d'.engine.counters = d.engine.counters) : KeepsDays d call d' :=
  fun hne => absurd (by rw [h]) hne

theorem keepsDays_load (h : d'.engine.counters = d.engine.counters.adopt d.store day)
    (hclear : d.store .tradingDay ≠ some day → DayClear d.engine.counters) : KeepsDays d call d' := by
  intro _
  by_cases hdate : d.store .tradingDay = some day
  · refine .inr ⟨by rw [h]; exact hdate, ?_⟩
    rw [h]
    exact adopt_of_date_eq _ hdate _
  · exact .inl ⟨d'.engine.counters, by rw [h]; exact (dayClear_adopt_iff hdate).mpr (hclear hdate), rfl, .inl rfl⟩

theorem freshDays_step (hstep : d.perform call = .ok d')
    (hclear : call.op = .load → ∀ day, d.engine.today call.now = .ok day → d.store .tradingDay ≠ some day →
      DayClear d.engine.counters) : FreshDays d call d' := by
  obtain ⟨n, op⟩ := call
  obtain ⟨-, -, hmoves⟩ := perform_moves hstep
  cases hmoves with
  | report hday hc hs =>
      exact ⟨fun h => (by cases h), keepsDays_report rfl hc, fun _ => .inr (hs ▸ mirrors_setMany _ _)⟩
  | roll hop hday hc hs =>
      refine ⟨fun h => ?_, keepsDays_roll hc, fun _ => .inl fun _ _ => by rw [hs]⟩
      rcases hop with rfl | ⟨_, _, rfl⟩ <;> cases h
  | keep hop hc hs =>
      refine ⟨fun h => ?_, keepsDays_unchanged hc, fun _ => .inl fun _ _ => by rw [hs]⟩
      rcases hop with rfl | ⟨_, rfl⟩ <;> cases h
  | persist hc hs =>
      exact ⟨fun h => (by cases h), keepsDays_unchanged hc, fun _ => .inr (hs ▸ mirrors_setMany _ _)⟩
  | @load today _ hday hc hs =>
      have hmirrors : Mirrors d'.store d'.engine.counters := hs ▸ mirrors_setMany _ _
      refine ⟨fun _ day hday' hdate => ?_, keepsDays_load hc fun hdate => hclear rfl _ hday hdate, fun _ => .inr hmirrors⟩
      obtain rfl : today = day := Except.ok.inj (hday.symm.trans hday')
      refine ⟨?_, by rw [hc]; rfl, hmirrors⟩
      rw [hc]
      exact (dayClear_adopt_iff hdate).mpr (hclear rfl _ hday hdate)
  | control hentries hc hs =>
      refine ⟨fun h => (by cases h), keepsDays_unchanged hc, fun _ => .inl fun key hkey => ?_⟩
      rw [hs]
      exact Controls.OverrideCall.setMany_of_counterKeys hentries _ hkey
  | outside hc hs =>
      exact ⟨fun h => (by cases h), keepsDays_unchanged hc, fun h => absurd rfl (h _)⟩

/-- Along a run every day starts fresh exactly when each load that finds no
snapshot of its day finds nothing counted in memory. -/
theorem freshDays_iff (d₀ : Desk ℚ) (calls : List (Call ℚ)) :
    (∀ before call after d d', calls = before ++ call :: after → Runs d₀ before d → d.perform call = .ok d' →
      FreshDays d call d') ↔
    ∀ before n after d day, calls = before ++ ⟨n, .load⟩ :: after → Runs d₀ before d →
      d.engine.today n = .ok day → d.store .tradingDay ≠ some day → DayClear d.engine.counters := by
  constructor
  · intro h before n after d day heq hrun hday hdate
    obtain ⟨hclear, -, -⟩ := (h before _ after d _ heq hrun (perform_load hday)).load rfl day hday hdate
    exact (dayClear_adopt_iff hdate).mp hclear
  · intro h before call after d d' heq hrun hstep
    refine freshDays_step hstep fun hload day hday hdate => ?_
    obtain ⟨n, op⟩ := call
    obtain rfl : op = .load := hload
    exact h before n after d day heq hrun hday hdate

end Runs

open scoped Decimal

/-- Yesterday's loss, loaded over on the same engine, is today's. -/
theorem stale_load_redates_loss :
    ∃ d d', Runs freshDesk [⟨noon, .report (.realizedPnl (-15) false)⟩] d ∧
      d.store .tradingDay ≠ some "2026-07-21" ∧ d.engine.today nextNoon = .ok "2026-07-21" ∧
      d.perform ⟨nextNoon, .load⟩ = .ok d' ∧ d'.engine.counters.tradingDay = "2026-07-21" ∧
      d'.engine.counters.simulatedPnl = -15 ∧ d'.store .tradingDay = some "2026-07-21" ∧
      d'.store .simulatedRealizedPnl = some "-15" := by
  have hrun : Runs freshDesk [⟨noon, .report (.realizedPnl (-15) false)⟩] _ :=
    Steps.single (perform_report tradingDay_noon)
  refine ⟨_, _, hrun, by decide +kernel, tradingDay_nextNoon, perform_load tradingDay_nextNoon, rfl, ?_, rfl, ?_⟩ <;>
    decide +kernel

end PretradeRisk.Reload
