import PretradeRisk.Uninterrupted

namespace PretradeRisk.Latching

open Admission (rejectCode)
open Clock Crashes Decision Engine Evaluate Host Ieee Journal Limits NonFinite Orders Refusals Rulings Run Store
open Session (noon tradingDay_noon)
open Uninterrupted Verdicts

def latching : List ControlId := [.dailyLossLimit, .consecutiveRejects, .repeatedExecution, .dailyNotionalLimit]

/-- The reports that may bring a limit back below its threshold: a gain on the
engine's leg, an acceptance, a re-arm, a notional given back. -/
def Relieves (isLive : Bool) : ControlId → CounterEvent Float64 → Prop
  | .dailyLossLimit, .realizedPnl pnlUsd leg => leg = isLive ∧ ¬ pnlUsd ≤ 0
  | .dailyNotionalLimit, .notional notionalUsd => ¬ 0 ≤ notionalUsd
  | .consecutiveRejects, .orderAccepted | .consecutiveRejects, .rearm | .repeatedExecution, .rearm => True
  | _, _ => False

def Nearer (isLive : Bool) (c d : Counters Float64) : ControlId → Prop
  | .dailyLossLimit => d.legPnl isLive ≤ c.legPnl isLive ∧ d.legPeak isLive = c.legPeak isLive
  | .dailyNotionalLimit => c.dailyNotional ≤ d.dailyNotional
  | .consecutiveRejects => c.consecutiveRejects ≤ d.consecutiveRejects
  | .repeatedExecution => c.executionsSinceRearm ≤ d.executionsSinceRearm
  | _ => True

variable {isLive : Bool} {c d : Counters Float64} {id : ControlId} {event : CounterEvent Float64} {x y : Float64}
  {day : String} {limits : RiskLimits Float64} {start n m : ℤ}

theorem add_le_of_nonpos (hx : PyFloat.isfinite x = true) (hy : y ≤ 0) : x + y ≤ x := by
  cases x with
  | nan => cases hx
  | infinite s => cases hx
  | finite p hp => cases y with
    | nan => exact absurd hy (Float64.not_nan_le _)
    | infinite s => exact hy
    | finite q hq =>
        have hle : Float64.ofRat (p + q) ≤ Float64.ofRat p :=
          Float64.ofRat_mono (add_le_of_nonpos_right (show q ≤ 0 from hy))
        rwa [Float64.ofRat_of_representable hp] at hle

theorem le_add_of_nonneg (hx : PyFloat.isfinite x = true) (hy : 0 ≤ y) : x ≤ x + y := by
  cases x with
  | nan => cases hx
  | infinite s => cases hx
  | finite p hp => cases y with
    | nan => exact absurd hy (Float64.not_le_nan _)
    | infinite s => exact hy
    | finite q hq =>
        have hle : Float64.ofRat p ≤ Float64.ofRat (p + q) :=
          Float64.ofRat_mono (le_add_of_nonneg_right (show 0 ≤ q from hy))
        rwa [Float64.ofRat_of_representable hp] at hle

theorem ne_nan_of_isfinite (h : PyFloat.isfinite x = true) : x ≠ .nan := by
  rintro rfl
  cases h

theorem nearer_refl (hc : Storable c) (id : ControlId) : Nearer isLive c c id := by
  cases id with
  | dailyLossLimit => exact ⟨Float64.le_refl (ne_nan_of_isfinite (hc.pnl isLive)), rfl⟩
  | dailyNotionalLimit => exact Float64.le_refl (ne_nan_of_isfinite hc.notional)
  | consecutiveRejects => exact le_refl c.consecutiveRejects
  | repeatedExecution => exact le_refl c.executionsSinceRearm
  | _ => trivial

theorem pyMax_of_loss {pnl peak : Float64} (h : Marked pnl peak) (hpnl : PyFloat.isfinite pnl = true)
    (hpeak : PyFloat.isfinite peak = true) (hx : x ≤ 0) : pyMax peak (pnl + x) = peak := by
  rw [pyMax, if_neg]
  intro hlt
  have hle : pnl + x ≤ peak :=
    Float64.le_trans (add_le_of_nonpos hpnl hx) (h.le.resolve_left (ne_nan_of_isfinite hpnl))
  cases peak with
  | nan => cases hpeak
  | infinite s => cases hpeak
  | finite p hp =>
      generalize pnl + x = z at hlt hle
      cases z with
      | nan => exact Float64.not_nan_le _ hle
      | infinite s =>
          have hs : s = false := hlt
          rw [Float64.infinite_le_finite, hs] at hle
          cases hle
      | finite q hq => exact absurd (show p < q from hlt) (not_lt.mpr hle)

theorem Nearer.apply (h : Nearer isLive c d id) (hd : Storable d) (hpeaked : Peaked d)
    (hevent : ¬ Relieves isLive id event) : Nearer isLive c (event.apply d) id := by
  cases id with
  | dailyLossLimit =>
      cases event with
      | realizedPnl pnlUsd leg =>
          by_cases hleg : leg = isLive
          · have hloss : pnlUsd ≤ 0 := by
              by_contra hgain
              exact hevent ⟨hleg, hgain⟩
            have hpnl := Float64.le_trans (add_le_of_nonpos (hd.pnl isLive) hloss) h.1
            have hpeak := (pyMax_of_loss (hpeaked isLive) (hd.pnl isLive) (hd.peak isLive) hloss).trans h.2
            subst hleg
            cases leg <;> exact ⟨hpnl, hpeak⟩
          · cases leg <;> cases isLive <;> first | exact absurd rfl hleg | exact h
      | _ => exact h
  | dailyNotionalLimit =>
      cases event with
      | realizedPnl pnlUsd leg => cases leg <;> exact h
      | notional notionalUsd =>
          have hadd : 0 ≤ notionalUsd := by
            by_contra hgiven
            exact hevent hgiven
          exact Float64.le_trans h (le_add_of_nonneg hd.notional hadd)
      | _ => exact h
  | consecutiveRejects =>
      cases event with
      | realizedPnl pnlUsd leg => cases leg <;> exact h
      | orderRejected => exact Nat.le_succ_of_le h
      | orderAccepted => exact absurd trivial hevent
      | rearm => exact absurd trivial hevent
      | _ => exact h
  | repeatedExecution =>
      cases event with
      | realizedPnl pnlUsd leg => cases leg <;> exact h
      | execution => exact Nat.le_succ_of_le h
      | rearm => exact absurd trivial hevent
      | _ => exact h
  | _ => trivial

theorem replay_snoc_roll (c₀ : Counters Float64) (reports : List Report) (report : Report) :
    (replay c₀ (reports ++ [report])).roll report.day = report.event.apply ((replay c₀ reports).roll report.day) := by
  rw [replay_snoc]
  exact Counters.roll_of_eq (by rw [CounterEvent.apply_tradingDay, Counters.roll_tradingDay])

theorem nearer_replay {c₀ : Counters Float64} {before after : List Report} (hc₀ : Peaked c₀)
    (hstorable : ∀ reports, reports <+: before ++ after → Storable (replay c₀ reports))
    (hday : ∀ report ∈ after, report.day = day) (hrelief : ∀ report ∈ after, ¬ Relieves isLive id report.event) :
    Nearer isLive ((replay c₀ before).roll day) ((replay c₀ (before ++ after)).roll day) id := by
  induction after using List.reverseRecOn with
  | nil =>
      rw [List.append_nil]
      exact nearer_refl ((hstorable before (by simp)).roll day) id
  | append_singleton after report ih =>
      have hbefore : before ++ after <+: before ++ (after ++ [report]) := by
        rw [← List.append_assoc]
        exact List.prefix_append _ _
      have hnear := ih (fun reports hr => hstorable reports (hr.trans hbefore))
        (fun r hr => hday r (List.mem_append_left _ hr)) (fun r hr => hrelief r (List.mem_append_left _ hr))
      have hroll := replay_snoc_roll c₀ (before ++ after) report
      rw [hday report (by simp)] at hroll
      rw [← List.append_assoc, hroll]
      exact hnear.apply ((hstorable _ hbefore).roll day) ((peaked_replay hc₀ _).roll day) (hrelief report (by simp))

variable {files files' : Files} {e f : PreTradeRiskEngine Float64} {r r' : OrderRequest Float64}

theorem not_satisfied_of_nearer (hid : id ∈ latching) (hlimits : f.limits = e.limits) (hleg : f.isLive = e.isLive)
    (h : Nearer e.isLive e.counters f.counters id) (he : Storable e.counters) (hf : Storable f.counters)
    (hbypass : id = .dailyLossLimit → f.bypassActive m = false)
    (hnotional : id = .dailyNotionalLimit → r'.notionalUsd = r.notionalUsd) (hnot : ¬ Satisfied files e n r id) :
    ¬ Satisfied files' f m r' id := by
  simp only [latching, List.mem_cons, List.not_mem_nil, or_false] at hid
  rcases hid with rfl | rfl | rfl | rfl
  · rw [Satisfied, Bool.not_eq_false, PreTradeRiskEngine.breached_iff] at hnot ⊢
    obtain ⟨limit, hlimit, -, hle⟩ := hnot
    refine ⟨limit, by rw [hlimits, hlimit], hbypass rfl, ?_⟩
    rw [PreTradeRiskEngine.legPnl, PreTradeRiskEngine.legPeak, hleg, h.2]
    exact Float64.le_trans h.1 hle
  · intro hs
    refine hnot fun cap hcap => lt_of_le_of_lt ?_ (hs cap (hlimits ▸ hcap))
    exact_mod_cast (show e.counters.consecutiveRejects ≤ f.counters.consecutiveRejects from h)
  · intro hs
    refine hnot fun cap hcap => lt_of_le_of_lt ?_ (hs cap (hlimits ▸ hcap))
    exact_mod_cast (show e.counters.executionsSinceRearm ≤ f.counters.executionsSinceRearm from h)
  · intro hs
    refine hnot fun cap hcap => ?_
    obtain ⟨notional, hmem, hle⟩ := hs cap (hlimits ▸ hcap)
    refine ⟨notional, hnotional rfl ▸ hmem, ?_⟩
    have hnear : e.counters.dailyNotional ≤ f.counters.dailyNotional := h
    have hfinite := he.notional
    have hfinite' := hf.notional
    generalize e.counters.dailyNotional = used at hnear hfinite ⊢
    generalize f.counters.dailyNotional = used' at hnear hfinite' hle
    cases used with
    | nan => cases hfinite
    | infinite s => cases hfinite
    | finite p hp => cases used' with
      | nan => cases hfinite'
      | infinite s => cases hfinite'
      | finite q hq => exact Float64.add_le_of_le hnear hle

theorem rollTo_counters {isLive : Bool} {e₀ : PreTradeRiskEngine Float64} {s₀ : StateStore}
    {turns : List Turn} {p : Process}
    (hnew : PreTradeRiskEngine.new limits isLive start = .ok e₀) (hblank : ∀ key ∈ counterKeys, s₀ key = none)
    (hrun : Survives ⟨e₀, s₀⟩ turns p) (htaken : Taken turns) (horder : Nondecreasing Turn.now start turns)
    (hstorable : ∀ before, before <+: reports limits.sessionRollMillis turns → Storable (replay e₀.counters before))
    (hn : Upto Turn.now start turns n) (hday : tradingDay n limits.sessionRollMillis = .ok day) :
    (p.engine.rollTo day).counters = (replay e₀.counters (reports limits.sessionRollMillis turns)).roll day := by
  obtain ⟨-, hmemory, -⟩ := survives_recovers hnew hblank hrun horder (storable_written htaken hstorable) hn hday day
  rwa [written_flush_of_taken htaken] at hmemory

theorem isArmed_of_latching (hlimits : f.limits = e.limits) : ∀ c ∈ controlSequence (F := Float64), c.id ∈ latching →
    c.isArmed f = c.isArmed e := by
  simp [controlSequence, Control.reading, latching, hlimits]

/-- Within a trading day no restart, look, evaluation or operator's call, and
no report but one that relieves it, lets a limit admit an order once it has
refused one: any order for the loss limit without a bypass and for the two
throttles, and one of the same notional for the daily notional limit. -/
theorem halts_latch {isLive : Bool} {e₀ : PreTradeRiskEngine Float64} {s₀ : StateStore} {turns more : List Turn}
    {p q : Process} (hnew : PreTradeRiskEngine.new limits isLive start = .ok e₀)
    (hblank : ∀ key ∈ counterKeys, s₀ key = none) (hbefore : Survives ⟨e₀, s₀⟩ turns p) (hafter : Survives p more q)
    (htaken : Taken (turns ++ more)) (horder : Nondecreasing Turn.now start (turns ++ more))
    (hstorable : ∀ before, before <+: reports limits.sessionRollMillis (turns ++ more) →
      Storable (replay e₀.counters before))
    (hn : Upto Turn.now start turns n) (hnow : ∀ turn ∈ more, n ≤ turn.now)
    (hm : Upto Turn.now start (turns ++ more) m) (hday : tradingDay n limits.sessionRollMillis = .ok day)
    (hday' : tradingDay m limits.sessionRollMillis = .ok day) (hid : id ∈ latching)
    (hrelief : ∀ turn ∈ more, ∀ event lands, turn.act = .report event lands → ¬ Relieves isLive id event)
    (hbypass : id = .dailyLossLimit → q.engine.bypassActive m = false)
    (hnotional : id = .dailyNotionalLimit → r'.notionalUsd = r.notionalUsd)
    (hrefused : RefusesWith files p.engine n r (rejectCode id)) :
    ∀ d f, evaluate files' q.engine m r' = .ok (d, f) → d.accepted = false := by
  obtain ⟨hlimits, hleg, hpeaked⟩ : e₀.limits = limits ∧ e₀.isLive = isLive ∧ Peaked e₀.counters := by
    obtain ⟨today, -, rfl⟩ := new_eq_ok.mp hnew
    exact ⟨rfl, rfl, peaked_dayStart today 0⟩
  have hplimits : p.engine.limits = limits := (survives_limits hbefore).trans hlimits
  have hqlimits : q.engine.limits = limits := (survives_limits hafter).trans hplimits
  have hpleg : p.engine.isLive = isLive := (survives_isLive hbefore).trans hleg
  have hqleg : q.engine.isLive = p.engine.isLive := survives_isLive hafter
  have hptoday : p.engine.today n = .ok day := by rw [PreTradeRiskEngine.today, hplimits, hday]
  have hqtoday : q.engine.today m = .ok day := by rw [PreTradeRiskEngine.today, hqlimits, hday']
  rw [reports_append] at hstorable
  have hprefix : reports limits.sessionRollMillis turns <+:
      reports limits.sessionRollMillis turns ++ reports limits.sessionRollMillis more := List.prefix_append _ _
  have hpcounters := rollTo_counters hnew hblank hbefore (fun turn hturn => htaken turn (List.mem_append_left _ hturn))
    horder.of_append (fun before hb => hstorable before (hb.trans hprefix)) hn hday
  have hqcounters := rollTo_counters hnew hblank (hbefore.append hafter) htaken horder
    (by rw [reports_append]; exact hstorable) hm hday'
  rw [reports_append] at hqcounters
  have hreport : ∀ report ∈ reports limits.sessionRollMillis more,
      report.day = day ∧ ¬ Relieves isLive id report.event := by
    intro report hreport
    obtain ⟨turn, hturn, htoday, lands, hact⟩ := mem_reports hreport
    exact ⟨(tradingDay_between hday htoday hday' (hnow turn hturn) (hm.le turn (List.mem_append_right _ hturn))),
      hrelief turn hturn report.event lands hact⟩
  have hnear := nearer_replay hpeaked hstorable (fun r hr => (hreport r hr).1) fun r hr => (hreport r hr).2
  obtain ⟨c, hc, hcid⟩ := firstFailing_of_refusesWith id hptoday hrefused
  have hruns : runs q.engine c = true := by
    rw [runs, isArmed_of_latching (hqlimits.trans hplimits.symm) c hc.mem (hcid ▸ hid), hqlimits, ← hplimits]
    exact hc.running
  have hnot : ¬ Satisfied files' (q.engine.rollTo day) m r' id := by
    refine not_satisfied_of_nearer (e := p.engine.rollTo day) (r := r) hid (hqlimits.trans hplimits.symm) hqleg ?_ ?_ ?_
      hbypass hnotional (hcid ▸ hc.not_satisfied)
    · rw [hpcounters, hqcounters]
      exact hpleg ▸ hnear
    · rw [hpcounters]
      exact (hstorable _ hprefix).roll day
    · rw [hqcounters]
      exact (hstorable _ List.prefix_rfl).roll day
  intro d f hd
  have hdecision : decision files' q.engine m r' = .ok d := by rw [decision, hd]; rfl
  rcases decision_cases files' r' hqtoday with ⟨-, hall⟩ | ⟨b, hb⟩
  · exact absurd (hcid ▸ hall c hc.mem hruns) hnot
  · obtain ⟨-, control, message, rfl⟩ := reject_of_firstFailing hb hqtoday hdecision
    rfl

def afterLoss : Process :=
  ⟨FailOpen.recorded [.ofRat (-15)], (FailOpen.recorded [.ofRat (-15)]).persist empty⟩

def lossTurn : Turn := ⟨noon, .report (.realizedPnl (.ofRat (-15)) false) true⟩

theorem perform_lossTurn : Process.perform ⟨FailOpen.lossEngine, empty⟩ lossTurn = .ok afterLoss := by
  have hrecord : FailOpen.lossEngine.record (.realizedPnl (.ofRat (-15)) false) noon =
      .ok (FailOpen.recorded [.ofRat (-15)]) := (record_recorded [] (.ofRat (-15))).2
  simp only [Process.perform, lossTurn, hrecord, ok_bind, pure_eq_ok, if_true, afterLoss]

theorem refusesWith_afterLoss :
    RefusesWith (fun _ => false) afterLoss.engine noon FailOpen.plainOrder .lossLimitBreached := by
  obtain ⟨d, f, hev, hcode⟩ := exists_decision_of_any (e := afterLoss.engine) (r := FailOpen.plainOrder)
    (p := fun d => decide (d.code = some .lossLimitBreached))
    (show (decision (fun _ => false) _ noon _).toOption.any _ = true by decide +kernel)
  exact ⟨d, f, hev, of_decide_eq_true hcode⟩

theorem reports_lossTurn : reports 0 [lossTurn, ⟨noon, .restart noon false⟩] =
    [⟨"2026-07-20", .realizedPnl (.ofRat (-15)) false⟩] := by
  simp [reports, logged, lossTurn, Turn.logged, tradingDay_noon, Except.toOption, Event.entry]

/-- The loss is still refused for after a restart. -/
theorem halts_latch_restart : ∃ q, Survives afterLoss [⟨noon, .restart noon false⟩] q ∧
    ∀ files r d f, evaluate files q.engine noon r = .ok (d, f) → d.accepted = false := by
  have htoday : afterLoss.engine.today noon = .ok "2026-07-20" := tradingDay_noon
  have hrestart : ∃ q, afterLoss.perform ⟨noon, .restart noon false⟩ = .ok q ∧ q.engine.overrides = Overrides.none :=
    perform_restart htoday htoday
  obtain ⟨q, hq, hoverrides⟩ := hrestart
  have hstorable (before : List Report) (hbefore : before <+: [⟨"2026-07-20", .realizedPnl (.ofRat (-15)) false⟩]) :
      Storable (replay FailOpen.lossEngine.counters before) := by
    have hmem := (List.mem_inits _ _).mpr hbefore
    simp only [List.inits, List.map_cons, List.map_nil, List.mem_cons, List.not_mem_nil, or_false] at hmem
    rcases hmem with rfl | rfl <;>
      exact ⟨by decide +kernel, by decide +kernel, by decide +kernel, by decide +kernel, by decide +kernel⟩
  have hid : ControlId.dailyLossLimit ∈ latching := by simp [latching]
  have hbypass : q.engine.bypassActive noon = false := by
    rw [PreTradeRiskEngine.bypassActive, hoverrides]
    rfl
  refine ⟨q, Steps.single hq, fun files r => ?_⟩
  exact halts_latch FailOpen.new_lossEngine (fun _ _ => rfl) (Steps.single perform_lossTurn)
    (Steps.single hq) (by simp [Taken, lossTurn]) (by simp [Nondecreasing, lossTurn])
    (fun before hbefore => hstorable before (reports_lossTurn ▸ hbefore)) ⟨le_rfl, by simp [lossTurn]⟩ (by simp)
    ⟨le_rfl, by simp [lossTurn]⟩ tradingDay_noon tradingDay_noon hid (by simp)
    (fun _ => hbypass) (by simp) refusesWith_afterLoss

end PretradeRisk.Latching
