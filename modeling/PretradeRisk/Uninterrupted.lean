import PretradeRisk.Crashes

namespace PretradeRisk.Uninterrupted

open Clock Controls Crashes Engine Evaluate Host Ieee Journal Limits Run Store
open Session (noon tradingDay_noon)
open Snapshot (setMany_snapshot_of_notMem)

/-- What neither reports nor changes an override: a restart, an evaluation, a
sent order, a property, a refresh or an extra persist. -/
def Hidden (turn : Turn) : Prop :=
  match turn.act with
  | .report _ _ | .control _ => False
  | _ => True

instance : DecidablePred Hidden
  | ⟨_, .report _ _⟩ | ⟨_, .control _⟩ => .isFalse id
  | ⟨_, .recordOrderSent _⟩ | ⟨_, .evaluate _ _⟩ | ⟨_, .read⟩ | ⟨_, .persist _⟩ | ⟨_, .refreshOverrides⟩
  | ⟨_, .restart _ _⟩ => .isTrue trivial

/-- The batch of every report takes effect. -/
def Taken (turns : List Turn) : Prop := ∀ turn ∈ turns, ∀ event lands, turn.act = .report event lands → lands = true

/-- What a turn does to the overrides in the store. -/
def Turn.overrides (s : StateStore) (turn : Turn) : StateStore :=
  match turn.act with
  | .control call =>
      match call.entries turn.now with
      | .ok entries => setMany s entries
      | .error _ => s
  | _ => s

variable {rollMillis start n : ℤ} {turns turns' : List Turn} {turn : Turn} {p p' q : Process}
  {limits : RiskLimits Float64} {day : String} {s₀ : StateStore}

theorem logged_of_hidden (h : Hidden turn) : (turn.logged rollMillis).bind Event.entry = none := by
  obtain ⟨m, act⟩ := turn
  cases act with
  | report event lands => exact h.elim
  | persist lands => cases lands <;> rfl
  | _ => rfl

theorem reports_filter (rollMillis : ℤ) (turns : List Turn) :
    reports rollMillis (turns.filter fun turn => ¬ Hidden turn) = reports rollMillis turns := by
  rw [reports, reports, logged, logged, List.filterMap_filterMap, List.filterMap_filterMap, List.filterMap_filter]
  refine List.filterMap_congr fun turn _ => ?_
  by_cases h : Hidden turn
  · simp [h, logged_of_hidden h]
  · simp [h]

theorem overrides_filter (s : StateStore) (turns : List Turn) :
    (turns.filter fun turn => ¬ Hidden turn).foldl Turn.overrides s = turns.foldl Turn.overrides s := by
  induction turns generalizing s with
  | nil => rfl
  | cons turn turns ih =>
      by_cases h : Hidden turn
      · have hkept : Turn.overrides s turn = s := by
          obtain ⟨m, act⟩ := turn
          cases act with
          | control call => exact h.elim
          | _ => rfl
        rw [List.filter_cons_of_neg (by simpa using h), ih, List.foldl_cons, hkept]
      · rw [List.filter_cons_of_pos (by simpa using h), List.foldl_cons, List.foldl_cons, ih]

theorem lands_of_taken (h : Taken turns) : ∀ event ∈ logged rollMillis turns, event.Lands := by
  intro event hevent
  obtain ⟨turn, hturn, hlogged⟩ := List.mem_filterMap.mp hevent
  obtain ⟨m, act⟩ := turn
  cases act with
  | report event lands =>
      obtain ⟨day, -, rfl⟩ := Option.map_eq_some_iff.mp hlogged
      exact h _ hturn event lands rfl
  | persist lands => cases lands <;> cases hlogged; trivial
  | restart built lands => cases hlogged; trivial
  | _ => cases hlogged

theorem written_of_taken (h : Taken turns) : written (logged rollMillis turns) = reports rollMillis turns :=
  written_of_lands (lands_of_taken h)

theorem written_flush_of_taken (h : Taken turns) :
    written (logged rollMillis turns ++ [.flush]) = reports rollMillis turns := by
  rw [← all_logOf]
  exact all_of_lands (lands_of_taken h)

theorem storable_written {c₀ : Counters Float64} (htaken : Taken turns)
    (hstorable : ∀ before, before <+: reports rollMillis turns → Storable (replay c₀ before)) (before after : List Turn)
    (h : turns = before ++ after) : Storable (replay c₀ (written (logged rollMillis before ++ [.flush]))) := by
  rw [written_flush_of_taken fun turn hturn => htaken turn (h ▸ List.mem_append_left _ hturn)]
  exact hstorable _ (by rw [h, reports_append]; exact List.prefix_append _ _)

theorem perform_overrides (h : p.perform turn = .ok p') {key : Key} (hkey : key ∉ counterKeys) :
    p'.store key = Turn.overrides p.store turn key := by
  obtain ⟨m, act⟩ := turn
  obtain ⟨-, -, hmoves⟩ := perform_moves h
  have hwrite {lands : Bool} (hs : p'.store = if lands then setMany p.store p'.engine.snapshot else p.store) :
      p'.store key = p.store key := by
    rw [hs]
    cases lands
    · rfl
    · exact setMany_snapshot_of_notMem _ _ hkey
  cases hmoves with
  | report _ _ hs => exact hwrite hs
  | persist _ hs => exact hwrite hs
  | restart _ _ hs => exact hwrite hs
  | roll hact _ _ hs => rcases hact with rfl | ⟨_, _, rfl⟩ <;> rw [hs] <;> rfl
  | keep hact =>
      rcases hact with rfl | ⟨_, rfl⟩ | ⟨call, rfl⟩
      · cases h; rfl
      · cases h; rfl
      · simp only [Process.perform, bind_eq_ok, pure_eq_ok, Except.ok.injEq] at h
        obtain ⟨entries, hentries, rfl⟩ := h
        simp only [Turn.overrides, hentries]

theorem overrides_congr {s t : StateStore} {key : Key} (h : t key = s key) (turn : Turn) :
    Turn.overrides t turn key = Turn.overrides s turn key := by
  obtain ⟨m, act⟩ := turn
  cases act with
  | control call =>
      simp only [Turn.overrides]
      cases call.entries m with
      | error x => exact h
      | ok entries => exact setMany_congr h
  | _ => exact h

theorem survives_overrides {p₀ : Process} (h : Survives p₀ turns p) {key : Key} (hkey : key ∉ counterKeys) :
    p.store key = turns.foldl Turn.overrides p₀.store key := by
  induction h with
  | nil => rfl
  | snoc _ hstep ih =>
      rw [List.foldl_append, List.foldl_cons, List.foldl_nil, perform_overrides hstep hkey]
      exact overrides_congr ih _

theorem load_refresh_eq {isLive : Bool} {s s' t t' : StateStore} {f g : PreTradeRiskEngine Float64} {today₀ : String}
    (hday : tradingDay n limits.sessionRollMillis = .ok day)
    (hf : (PreTradeRiskEngine.onDay limits isLive today₀).load s n = .ok (f, s'))
    (hg : (PreTradeRiskEngine.onDay limits isLive today₀).load t n = .ok (g, t'))
    (hcounters : f.counters = g.counters) (hst : ∀ key, key ∉ counterKeys → s key = t key) :
    f.refreshOverrides s' = g.refreshOverrides t' := by
  have htoday : (PreTradeRiskEngine.onDay limits isLive today₀).today n = .ok day := hday
  rw [PreTradeRiskEngine.load_of_today htoday] at hf hg
  cases hf
  cases hg
  refine PreTradeRiskEngine.ext rfl rfl hcounters rfl rfl (congrArg Overrides.decode (getMany_congr fun key hkey => ?_))
  have hnot : key ∉ counterKeys := by
    revert hkey
    cases key <;> decide
  exact (setMany_snapshot_of_notMem _ _ hnot).trans ((hst key hnot).trans (setMany_snapshot_of_notMem _ _ hnot).symm)

/-- Restarts, evaluations and looks leave no trace: with the same reports and
override calls, the memory counts the same, and a fresh engine that loads and
refreshes is the same engine. -/
theorem restarts_invisible {isLive : Bool} {e₀ : PreTradeRiskEngine Float64}
    (hnew : PreTradeRiskEngine.new limits isLive start = .ok e₀) (hblank : ∀ key ∈ counterKeys, s₀ key = none)
    (hp : Survives ⟨e₀, s₀⟩ turns p) (hq : Survives ⟨e₀, s₀⟩ turns' q)
    (hsame : turns.filter (fun turn => ¬ Hidden turn) = turns'.filter fun turn => ¬ Hidden turn)
    (htaken : Taken turns) (horder : Nondecreasing Turn.now start turns) (horder' : Nondecreasing Turn.now start turns')
    (hstorable : ∀ before, before <+: reports limits.sessionRollMillis turns → Storable (replay e₀.counters before))
    (hn : Upto Turn.now start turns n) (hn' : Upto Turn.now start turns' n)
    (hday : tradingDay n limits.sessionRollMillis = .ok day) (today₀ : String) :
    (p.engine.rollTo day).counters = (q.engine.rollTo day).counters ∧
      ∃ f s g t, (PreTradeRiskEngine.onDay limits isLive today₀).load p.store n = .ok (f, s) ∧
        (PreTradeRiskEngine.onDay limits isLive today₀).load q.store n = .ok (g, t) ∧
        f.counters = (p.engine.rollTo day).counters ∧ f.refreshOverrides s = g.refreshOverrides t := by
  have htaken' : Taken turns' := by
    intro turn hturn event lands hact
    refine htaken turn ?_ event lands hact
    have hmem : turn ∈ turns.filter fun turn => ¬ Hidden turn := by
      rw [hsame]
      exact List.mem_filter.mpr ⟨hturn, by simp [Hidden, hact]⟩
    exact (List.mem_filter.mp hmem).1
  have hreports : reports limits.sessionRollMillis turns' = reports limits.sessionRollMillis turns := by
    rw [← reports_filter, ← hsame, reports_filter]
  obtain ⟨-, hmemory, f, s, hf, hfc⟩ := survives_recovers hnew hblank hp horder
    (storable_written htaken hstorable) hn hday today₀
  obtain ⟨-, hmemory', g, t, hg, hgc⟩ := survives_recovers hnew hblank hq horder'
    (storable_written htaken' (hreports ▸ hstorable)) hn' hday today₀
  rw [written_flush_of_taken htaken] at hmemory
  rw [written_flush_of_taken htaken', hreports] at hmemory'
  rw [written_of_taken htaken] at hfc
  rw [written_of_taken htaken', hreports] at hgc
  refine ⟨hmemory.trans hmemory'.symm, f, s, g, t, hf, hg, hfc.trans hmemory.symm, ?_⟩
  refine load_refresh_eq hday hf hg (hfc.trans hgc.symm) fun key hkey => ?_
  rw [survives_overrides hp hkey, survives_overrides hq hkey, ← overrides_filter, hsame, overrides_filter]

theorem restarts_invisible_loss : ∃ p q f s g t,
    Survives ⟨FailOpen.lossEngine, empty⟩ [⟨noon, .report (.realizedPnl (.ofRat (-15)) false) true⟩,
      ⟨noon, .restart noon false⟩] p ∧
    Survives ⟨FailOpen.lossEngine, empty⟩ [⟨noon, .report (.realizedPnl (.ofRat (-15)) false) true⟩] q ∧
    (p.engine.rollTo "2026-07-20").counters = (q.engine.rollTo "2026-07-20").counters ∧
    (PreTradeRiskEngine.onDay FailOpen.lossLimits false "2026-07-20").load p.store noon = .ok (f, s) ∧
    (PreTradeRiskEngine.onDay FailOpen.lossLimits false "2026-07-20").load q.store noon = .ok (g, t) ∧
    f.refreshOverrides s = g.refreshOverrides t := by
  have htoday {p : Process} (h : p.engine.limits = FailOpen.lossLimits) : p.engine.today noon = .ok "2026-07-20" := by
    rw [PreTradeRiskEngine.today, h]
    exact tradingDay_noon
  have hloss : ∃ q, Process.perform ⟨FailOpen.lossEngine, empty⟩
      ⟨noon, .report (.realizedPnl (.ofRat (-15)) false) true⟩ = .ok q := perform_report (htoday rfl)
  obtain ⟨q, hq⟩ := hloss
  have hlimits := (perform_moves hq).1
  have hrestart : ∃ p, q.perform ⟨noon, .restart noon false⟩ = .ok p ∧ p.engine.overrides = Overrides.none :=
    perform_restart (htoday hlimits) (htoday hlimits)
  obtain ⟨p, hp, -⟩ := hrestart
  have hreports : reports 0 [⟨noon, .report (.realizedPnl (.ofRat (-15)) false) true⟩, ⟨noon, .restart noon false⟩] =
      [⟨"2026-07-20", .realizedPnl (.ofRat (-15)) false⟩] := by
    simp [reports, logged, Turn.logged, tradingDay_noon, Except.toOption, Event.entry]
  have hstorable (before : List Report) (hbefore : before <+: [⟨"2026-07-20", .realizedPnl (.ofRat (-15)) false⟩]) :
      Storable (replay FailOpen.lossEngine.counters before) := by
    have hmem := (List.mem_inits _ _).mpr hbefore
    simp only [List.inits, List.map_cons, List.map_nil, List.mem_cons, List.not_mem_nil, or_false] at hmem
    rcases hmem with rfl | rfl <;>
      exact ⟨by decide +kernel, by decide +kernel, by decide +kernel, by decide +kernel, by decide +kernel⟩
  obtain ⟨hsame, f, s, g, t, hf, hg, -, heq⟩ := restarts_invisible FailOpen.new_lossEngine (fun _ _ => rfl)
    ((Steps.single hq).snoc hp) (Steps.single hq) (by simp [Hidden]) (by simp [Taken]) (by simp [Nondecreasing])
    (by simp [Nondecreasing]) (fun before hbefore => hstorable before (hreports ▸ hbefore)) ⟨le_rfl, by simp⟩
    ⟨le_rfl, by simp⟩ tradingDay_noon "2026-07-20"
  exact ⟨p, q, f, s, g, t, (Steps.single hq).snoc hp, Steps.single hq, hsame, hf, hg, heq⟩

end PretradeRisk.Uninterrupted
