import PretradeRisk.Refusals
import PretradeRisk.Restart

namespace PretradeRisk.Headroom

open Admission (rejectCode)
open Clock Decision Engine Evaluate Host Limits Orders Refusals Restart Rulings Run Session Snapshot Store Verdicts

/-- What is left of `h` after some gains and losses: a gain is lost where it
would take it above the limit. -/
def headroomAfter (limit h : ℚ) (amounts : List ℚ) : ℚ := amounts.foldl (fun h x => min (h + x) limit) h

def cumulativeLoss (amounts : List ℚ) : ℚ := -amounts.sum

theorem headroom_ratchet (limit pnl peak x : ℚ) :
    pnl + x - (max peak (pnl + x) - limit) = min (pnl - (peak - limit) + x) limit := by
  rcases le_total peak (pnl + x) with h | h
  · rw [max_eq_right h, min_eq_right (by linarith)]
    ring
  · rw [max_eq_left h, min_eq_left (by linarith)]
    ring

theorem headroomAfter_of_losses {limit h : ℚ} {amounts : List ℚ} (hle : h ≤ limit) (hlosses : ∀ x ∈ amounts, x ≤ 0) :
    headroomAfter limit h amounts = h - cumulativeLoss amounts := by
  induction amounts generalizing h with
  | nil => simp [headroomAfter, cumulativeLoss]
  | cons x amounts ih =>
      obtain ⟨hx, hrest⟩ := List.forall_mem_cons.mp hlosses
      have hstep : h + x ≤ limit := by linarith
      have hcons : headroomAfter limit h (x :: amounts) = headroomAfter limit (min (h + x) limit) amounts := rfl
      rw [hcons, min_eq_left hstep, ih hstep hrest, cumulativeLoss, cumulativeLoss, List.sum_cons]
      ring

theorem cumulativeLoss_take_mono {amounts : List ℚ} (hlosses : ∀ x ∈ amounts, x ≤ 0) {j k : ℕ} (hjk : j ≤ k) :
    cumulativeLoss (amounts.take j) ≤ cumulativeLoss (amounts.take k) := by
  obtain ⟨i, rfl⟩ := Nat.exists_eq_add_of_le hjk
  rw [cumulativeLoss, cumulativeLoss, List.take_add, List.sum_append]
  have hrest : ((amounts.drop j).take i).sum ≤ 0 :=
    (List.sum_le_card_nsmul _ 0 fun x hx => hlosses x (List.mem_of_mem_drop (List.mem_of_mem_take hx))).trans
      (smul_zero _).le
  linarith

section Reach

variable [PyFloat ℚ]

/-- What the engine says of its loss limit at a reading, where `h` may still be
lost. -/
structure Shows (e : PreTradeRiskEngine ℚ) (n : ℤ) (limit h : ℚ) : Prop where
  headroom : (e.lossLimitHeadroom n).map Prod.fst = .ok (some h)
  le_limit : h ≤ limit
  eq_limit_iff : h = limit ↔ (e.lossLimitPnl n).map Prod.fst = (e.lossLimitPeak n).map Prod.fst
  breached_iff : e.bypassActive n = false → ((e.lossLimitBreached n).map Prod.fst = .ok true ↔ h ≤ 0)
  objects_iff : e.bypassActive n = false → ∀ day files request, e.today n = .ok day →
    ∀ c ∈ controlSequence, c.id = .dailyLossLimit →
      ((∃ d, verdict files (e.rollTo day) n request c = .ok (some d)) ↔ h ≤ 0)
  refused_iff : e.bypassActive n = false → ∀ files request,
    (RefusesWith files e n request .lossLimitBreached ↔
      h ≤ 0 ∧ e.limits.isDisabled .dailyLossLimit = false ∧
        (e.limits.isDisabled .killSwitch = false → killSwitchEngaged files e = false))

def headroomOn (e : PreTradeRiskEngine ℚ) (limit : ℚ) (day : String) : ℚ :=
  (e.rollTo day).legPnl - ((e.rollTo day).legPeak - limit)

variable {e : PreTradeRiskEngine ℚ} {n : ℤ} {limit h : ℚ} {day : String}

theorem breached_rollTo_iff (hlimit : e.limits.dailyLossLimitUsd = some limit) (hbypass : e.bypassActive n = false)
    (day : String) : (e.rollTo day).breached n = true ↔ headroomOn e limit day ≤ 0 := by
  rw [PreTradeRiskEngine.breached_iff, headroomOn, sub_nonpos]
  constructor
  · rintro ⟨limit', hlimit', -, hle⟩
    obtain rfl : limit' = limit := Option.some.inj (hlimit'.symm.trans hlimit)
    exact hle
  · exact fun hle => ⟨limit, hlimit, hbypass, hle⟩

theorem verdict_loss_iff {files : Files} {request : OrderRequest ℚ} {c : Control ℚ} (hc : c ∈ controlSequence)
    (hid : c.id = .dailyLossLimit) (hlimit : e.limits.dailyLossLimitUsd = some limit) :
    (∃ d, verdict files e n request c = .ok (some d)) ↔ e.breached n = true := by
  have harmed : c.isArmed e = true := by rw [(isArmed_limits e c hc).2.1 hid, hlimit]; rfl
  have hruling : Ruling (Satisfied files e n request c.id) (reported e n request c.id) (evidence e n request c.id)
      (verdict files e n request c) := controlSequence_ruling c hc harmed
  rw [hid] at hruling
  rw [← Bool.not_eq_false]
  generalize verdict files e n request c = x at hruling
  cases hruling with
  | pass hp => exact iff_of_false (fun ⟨_, hd⟩ => by cases hd) (not_not.mpr hp)
  | reject control message hp _ => exact iff_of_true ⟨_, rfl⟩ hp
  | overflow _ hfits => exact absurd hfits.choose_spec.1 List.not_mem_nil

theorem shows_of_peaked (hlimit : e.limits.dailyLossLimitUsd = some limit) (hpeaked : Peaked e.counters)
    (hday : e.today n = .ok day) : Shows e n limit (headroomOn e limit day) := by
  have hle : (e.rollTo day).legPnl ≤ (e.rollTo day).legPeak := (hpeaked.roll day).pnl_le e.isLive
  have hbreach := fun hbypass => breached_rollTo_iff (n := n) hlimit hbypass day
  refine ⟨?_, by rw [headroomOn]; linarith, ?_, fun hbypass => ?_, fun hbypass day' files request hday' c hc hid => ?_,
    fun hbypass files request => ?_⟩
  · rw [PreTradeRiskEngine.lossLimitHeadroom, PreTradeRiskEngine.property_of_today hday]
    have hfloor : (e.rollTo day).floor = some ((e.rollTo day).legPeak - limit) := by
      rw [PreTradeRiskEngine.floor]
      rw [show (e.rollTo day).limits.dailyLossLimitUsd = some limit from hlimit]
    simp [Except.map, hfloor, headroomOn]
  · rw [PreTradeRiskEngine.lossLimitPnl, PreTradeRiskEngine.lossLimitPeak, PreTradeRiskEngine.property_of_today hday,
      PreTradeRiskEngine.property_of_today hday]
    simp only [Except.map, Except.ok.injEq, headroomOn]
    constructor <;> intro h <;> linarith
  · rw [PreTradeRiskEngine.lossLimitBreached_of_today hday, ← hbreach hbypass]
    simp [Except.map]
  · obtain rfl : day' = day := Except.ok.inj (hday'.symm.trans hday)
    rw [verdict_loss_iff hc hid (e := e.rollTo day') hlimit]
    exact hbreach hbypass
  · rw [refusesWith_loss_iff hday, passes_killSwitch_iff, passes_loss_iff, ← hbreach hbypass, Classical.not_imp,
      Bool.not_eq_false, and_comm, and_comm (a := _ = false), and_assoc]
    rfl

abbrev Recordings := List (ℤ × ℚ)

def Recordings.amounts (recordings : Recordings) : List ℚ := recordings.map Prod.snd

def Recordings.calls (recordings : Recordings) (isLive : Bool) : List (Call ℚ) :=
  recordings.map fun x => ⟨x.1, .report (.realizedPnl x.2 isLive)⟩

def Recordings.On (recordings : Recordings) (rollMillis : ℤ) (day : String) : Prop :=
  ∀ x ∈ recordings, tradingDay x.1 rollMillis = .ok day

def recorded (d : Desk ℚ) (day : String) (recordings : Recordings) : Desk ℚ :=
  recordings.foldl (fun d x => d.reported (.realizedPnl x.2 d.engine.isLive) day) d

def Breached (d : Desk ℚ) (n : ℤ) : Prop := (d.engine.lossLimitBreached n).map Prod.fst = .ok true

variable {d d' : Desk ℚ} {isLive : Bool} {recordings : Recordings}

theorem headroomOn_reported (d : Desk ℚ) (day : String) (limit x : ℚ) :
    headroomOn (d.reported (.realizedPnl x d.engine.isLive) day).engine limit day =
      min (headroomOn d.engine limit day + x) limit := by
  have hday : (d.reported (.realizedPnl x d.engine.isLive) day).engine.counters.tradingDay = day :=
    (CounterEvent.apply_tradingDay _ _).trans (Counters.roll_tradingDay _ day)
  rw [headroomOn, PreTradeRiskEngine.rollTo_of_eq hday, headroomOn, ← headroom_ratchet]
  obtain ⟨⟨limits, isLive, counters, _, _, _, _, _⟩, s⟩ := d
  cases isLive <;>
    simp [Desk.reported, PreTradeRiskEngine.legPnl, PreTradeRiskEngine.legPeak, PreTradeRiskEngine.rollTo,
      Counters.legPnl, Counters.legPeak, CounterEvent.apply, PreTradeRiskEngine.withCounters]

theorem headroomOn_recorded (d : Desk ℚ) (day : String) (limit : ℚ) (recordings : Recordings) :
    headroomOn (recorded d day recordings).engine limit day =
      headroomAfter limit (headroomOn d.engine limit day) recordings.amounts := by
  induction recordings generalizing d with
  | nil => rfl
  | cons x recordings ih =>
      have hstep := headroomOn_reported d day limit x.2
      exact (ih _).trans (by rw [hstep]; rfl)

theorem runs_recorded (hon : recordings.On d.engine.limits.sessionRollMillis day) :
    Runs d (recordings.calls d.engine.isLive) (recorded d day recordings) := by
  induction recordings generalizing d with
  | nil => exact .nil
  | cons x recordings ih =>
      obtain ⟨hx, hrest⟩ := List.forall_mem_cons.mp hon
      exact steps_cons_iff.mpr ⟨_, perform_report hx, ih hrest⟩

theorem recorded_bypassActive (d : Desk ℚ) (day : String) (recordings : Recordings) (n : ℤ) :
    (recorded d day recordings).engine.bypassActive n = d.engine.bypassActive n := by
  induction recordings generalizing d with
  | nil => rfl
  | cons x recordings ih => exact ih _

theorem shows_of_runs {limits : RiskLimits ℚ} {start : ℤ} {e₀ : PreTradeRiskEngine ℚ} {s₀ : StateStore}
    {calls : List (Call ℚ)} (hnew : PreTradeRiskEngine.new limits isLive start = .ok e₀) (hrun : Runs ⟨e₀, s₀⟩ calls d)
    (hlimit : limits.dailyLossLimitUsd = some limit) (hday : tradingDay n limits.sessionRollMillis = .ok day) :
    Shows d.engine n limit (headroomOn d.engine limit day) := by
  obtain ⟨today, -, rfl⟩ := new_eq_ok.mp hnew
  have hlimits : d.engine.limits = limits := runs_limits hrun
  refine shows_of_peaked (by rw [hlimits]; exact hlimit) (runs_peaked (peaked_dayStart today 0) hrun) ?_
  rw [PreTradeRiskEngine.today, hlimits, hday]

/-- Headroom is what may still be lost: every part of the engine that looks at
the loss limit agrees on it, an amount comes off it or is added to it up to the
limit, and losses first breach the limit where together they reach it. -/
theorem headroom_is_exact {limits : RiskLimits ℚ} {start : ℤ} {e₀ : PreTradeRiskEngine ℚ} {s₀ : StateStore}
    {calls : List (Call ℚ)} (hnew : PreTradeRiskEngine.new limits isLive start = .ok e₀) (hrun : Runs ⟨e₀, s₀⟩ calls d)
    (hlimit : limits.dailyLossLimitUsd = some limit) (hday : tradingDay n limits.sessionRollMillis = .ok day) :
    ∃ h, Shows d.engine n limit h ∧
      ∀ recordings : Recordings, recordings.On limits.sessionRollMillis day →
        Runs d (recordings.calls isLive) (recorded d day recordings) ∧
        ∀ m, tradingDay m limits.sessionRollMillis = .ok day →
          Shows (recorded d day recordings).engine m limit (headroomAfter limit h recordings.amounts) ∧
          (d.engine.bypassActive m = false → (∀ x ∈ recordings.amounts, x ≤ 0) → ∀ k,
            (Breached (recorded d day (recordings.take (k + 1))) m ∧
                ∀ j ≤ k, ¬ Breached (recorded d day (recordings.take j)) m) ↔
              cumulativeLoss (recordings.amounts.take k) < h ∧ h ≤ cumulativeLoss (recordings.amounts.take (k + 1))) := by
  obtain ⟨hlimits, hleg⟩ := runs_configured hnew hrun
  have hruns (recordings : Recordings) (hon : recordings.On limits.sessionRollMillis day) :
      Runs d (recordings.calls isLive) (recorded d day recordings) :=
    hleg ▸ runs_recorded (hlimits ▸ hon)
  have hshows (recordings : Recordings) (hon : recordings.On limits.sessionRollMillis day) (m : ℤ)
      (hm : tradingDay m limits.sessionRollMillis = .ok day) : Shows (recorded d day recordings).engine m limit
        (headroomAfter limit (headroomOn d.engine limit day) recordings.amounts) := by
    rw [← headroomOn_recorded]
    exact shows_of_runs hnew (hrun.append (hruns recordings hon)) hlimit hm
  have hhere : Shows d.engine n limit (headroomOn d.engine limit day) := shows_of_runs hnew hrun hlimit hday
  refine ⟨headroomOn d.engine limit day, hhere, fun recordings hon => ⟨hruns recordings hon, fun m hm =>
    ⟨hshows recordings hon m hm, fun hbypass hlosses k => ?_⟩⟩⟩
  have hbreached (j : ℕ) : Breached (recorded d day (recordings.take j)) m ↔
      headroomOn d.engine limit day ≤ cumulativeLoss (recordings.amounts.take j) := by
    have hprefix := hshows (recordings.take j) (fun x hx => hon x (List.mem_of_mem_take hx)) m hm
    have htake : Recordings.amounts (recordings.take j) = recordings.amounts.take j := List.map_take
    rw [Breached, hprefix.breached_iff (by rw [recorded_bypassActive]; exact hbypass), htake,
      headroomAfter_of_losses hhere.le_limit fun x hx => hlosses x (List.mem_of_mem_take hx), sub_nonpos]
  simp only [hbreached, not_le]
  constructor
  · rintro ⟨hreached, hbefore⟩
    exact ⟨hbefore k le_rfl, hreached⟩
  · rintro ⟨hbefore, hreached⟩
    exact ⟨hreached, fun j hj => (cumulativeLoss_take_mono hlosses hj).trans_lt hbefore⟩

end Reach

open scoped Decimal in
/-- The second of two losses reaches a headroom of 10, and breaches it. -/
theorem headroom_is_exact_two_losses :
    Breached (recorded freshDesk "2026-07-20" [(noon, -4), (noon, -6)]) noon ∧
      ∀ j ≤ 1, ¬ Breached (recorded freshDesk "2026-07-20" ([(noon, -4), (noon, -6)].take j)) noon := by
  have hrun : Runs freshDesk [] freshDesk := .nil
  obtain ⟨h, hshows, hall⟩ := headroom_is_exact new_freshDesk hrun rfl tradingDay_noon
  have htoday : freshDesk.engine.today noon = .ok "2026-07-20" := tradingDay_noon
  obtain rfl : h = 10 := hshows.eq_limit_iff.mpr (by
    rw [PreTradeRiskEngine.lossLimitPnl, PreTradeRiskEngine.lossLimitPeak,
      PreTradeRiskEngine.property_of_today htoday, PreTradeRiskEngine.property_of_today htoday]
    rfl)
  obtain ⟨-, hlater⟩ := hall [(noon, -4), (noon, -6)] (by simp [Recordings.On]; exact tradingDay_noon)
  refine ((hlater noon tradingDay_noon).2 rfl ?_ 1).mpr ?_
  · decide +kernel
  · decide +kernel

end PretradeRisk.Headroom
