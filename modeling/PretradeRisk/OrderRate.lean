import Mathlib.Algebra.Order.Archimedean.Real.Basic
import PretradeRisk.Refusals
import PretradeRisk.Sending

namespace PretradeRisk.OrderRate

open Admission Decision Engine Evaluate Host Limits Orders Refusals Run Sending Session Store Trailing Windows

section Runs

variable {F : Type} [Zero F] [LE F] [DecidableLE F] [PyFloat F]

/-- The window remembers nothing but sends, and at every reading the run can
go on to it holds those it trails over. -/
structure Tracks (start : ℤ) (calls : List (Call F)) (d : Desk F) : Prop where
  mem : ∀ t ∈ d.engine.rateWindow.events, t ∈ sendTimes calls
  window : ∀ n, Upto Call.now start calls n →
    (d.engine.rateWindow.prune n).events = trailing d.engine.rateWindow.windowMillis n (sendTimes calls)

variable {start n : ℤ} {calls : List (Call F)} {call : Call F} {d d' d₀ : Desk F} {cap : ℤ} {files : Files}
  {request : OrderRequest F}

theorem Tracks.past (h : Tracks start calls d) (hn : Upto Call.now start calls n) :
    d.engine.rateWindow.Past n := fun t ht => sendTimes_le hn t (h.mem t ht)

theorem Tracks.record (h : Tracks start calls d)
    (horder : Nondecreasing Call.now start (calls ++ [⟨n, .recordOrderSent request⟩]))
    (hrate : d'.engine.rateWindow = d.engine.rateWindow.record n) :
    Tracks start (calls ++ [⟨n, .recordOrderSent request⟩]) d' := by
  obtain ⟨-, hupto⟩ := nondecreasing_snoc.mp horder
  have hle : ∀ t ∈ sendTimes calls, t ≤ n := sendTimes_le hupto
  have hevents : d'.engine.rateWindow.events =
      trailing d.engine.rateWindow.windowMillis n (sendTimes calls) ++ [n] := by
    rw [hrate, ← h.window n hupto]; rfl
  have hsub : d'.engine.rateWindow.events.Sublist (sendTimes (calls ++ [⟨n, .recordOrderSent request⟩])) := by
    rw [hevents, sendTimes_snoc_sent]
    exact List.filter_sublist.append_right [n]
  refine ⟨fun t ht => hsub.mem ht, fun m hm => ?_⟩
  have hnm : n ≤ m := (upto_snoc.mp hm).2
  have hpast : ∀ t ∈ sendTimes calls ++ [n], t ≤ m := sendTimes_snoc_sent ▸ sendTimes_le hm
  rw [RateWindow.prune_events_of_past fun t ht => sendTimes_le hm t (hsub.mem ht),
    dropWhile_eq_filter ((sendTimes_pairwise horder).sublist hsub), hevents, sendTimes_snoc_sent,
    trailing_eq_filter hpast, List.filter_append, List.filter_append, hrate, RateWindow.record_windowMillis,
    filter_trailing hle hnm, trailing_eq_filter fun t ht => hpast t (List.mem_append_left _ ht)]

theorem tracks_new {limits : RiskLimits F} {isLive : Bool} {e : PreTradeRiskEngine F}
    (h : PreTradeRiskEngine.new limits isLive start = .ok e) (s : StateStore) : Tracks start [] ⟨e, s⟩ := by
  obtain ⟨today, -, rfl⟩ := new_eq_ok.mp h
  exact ⟨by simp [PreTradeRiskEngine.onDay], fun n _ => rfl⟩

variable [One F] [Neg F] [Add F] [Sub F] [Mul F] [Div F] [IntCast F] [LT F] [DecidableLT F]

theorem tracks_step (h : Tracks start calls d) (hstep : d.perform call = .ok d')
    (horder : Nondecreasing Call.now start (calls ++ [call])) : Tracks start (calls ++ [call]) d' := by
  obtain ⟨n, op⟩ := call
  obtain ⟨-, hupto⟩ := nondecreasing_snoc.mp horder
  cases perform_remembers hstep with
  | sent hrate _ => exact h.record horder hrate
  | kept hop hrate _ =>
      have htimes : sendTimes (calls ++ [⟨n, op⟩]) = sendTimes calls := sendTimes_snoc_of_ne hop
      rcases hrate with hrate | hrate
      · exact ⟨by rw [hrate, htimes]; exact h.mem, fun m hm => by
          rw [hrate, htimes]; exact h.window m (upto_snoc.mp hm).1⟩
      · refine ⟨fun t ht => ?_, fun m hm => ?_⟩
        · rw [htimes]
          exact h.mem t (RateWindow.mem_of_mem_prune (hrate ▸ ht))
        · obtain ⟨hm, hnm⟩ := upto_snoc.mp hm
          rw [hrate, htimes, RateWindow.prune_prune_of_past (h.past hupto) hnm]
          exact h.window m hm

theorem runs_tracks (h₀ : Tracks start [] d₀) (hrun : Runs d₀ calls d)
    (horder : Nondecreasing Call.now start calls) : Tracks start calls d := by
  induction hrun with
  | nil => exact h₀
  | snoc _ hstep ih => exact tracks_step (ih horder.of_append) hstep horder

theorem count_lt_of_accepts (ha : Accepts files d.engine n request)
    (hcap : d.engine.limits.maxOrdersPerWindow = some cap) (hrunning : d.engine.limits.isDisabled .orderRate = false) :
    ((d.engine.rateWindow.prune n).events.length : ℤ) < cap := by
  obtain ⟨day, -, hsatisfied⟩ := satisfied_of_accepts .orderRate ha hrunning (by decide) (by decide)
  exact hsatisfied cap hcap

/-- No window over the sends holds more than the cap, and neither does the
engine's. -/
structure Paced (cap : ℤ) (calls : List (Call F)) (d : Desk F) : Prop where
  sends : ∀ n, ((trailing d.engine.rateWindow.windowMillis n (sendTimes calls)).length : ℤ) ≤ cap
  held : (d.engine.rateWindow.events.length : ℤ) ≤ cap

theorem length_trailing_lt_of_sent (h₀ : Tracks start [] d₀)
    (hcap : d₀.engine.limits.maxOrdersPerWindow = some cap)
    (hrunning : d₀.engine.limits.isDisabled .orderRate = false) (hrun : Runs d₀ calls d)
    (hsends : SendsAccepted d₀ (calls ++ [⟨n, .recordOrderSent request⟩]))
    (horder : Nondecreasing Call.now start (calls ++ [⟨n, .recordOrderSent request⟩])) :
    ((trailing d.engine.rateWindow.windowMillis n (sendTimes calls)).length : ℤ) < cap := by
  obtain ⟨front, m, files, d₁, rfl, hfront, haccepts⟩ := hsends calls n request [] rfl
  obtain ⟨hbefore, hupto⟩ := nondecreasing_snoc.mp horder
  obtain ⟨hfrontorder, hfrontupto⟩ := nondecreasing_snoc.mp hbefore
  have hlimits := runs_limits hfront
  have hwindow : d.engine.rateWindow.windowMillis = d₁.engine.rateWindow.windowMillis := by
    rw [d.engine.rateWindow_configured, d₁.engine.rateWindow_configured, runs_limits hrun, hlimits]
  have hlt := count_lt_of_accepts haccepts (hlimits ▸ hcap) (hlimits ▸ hrunning)
  rw [(runs_tracks h₀ hfront hfrontorder).window m hfrontupto] at hlt
  have hmn : m ≤ n := (upto_snoc.mp hupto).2
  rw [hwindow, sendTimes_snoc_of_ne (by simp)]
  have hle := length_trailing_le_of_le d₁.engine.rateWindow.windowMillis (sendTimes_le hfrontupto) hmn
  exact lt_of_le_of_lt (by exact_mod_cast hle) hlt

theorem runs_paced (h₀ : Tracks start [] d₀) (hpos : 0 ≤ cap) (hempty : d₀.engine.rateWindow.events = [])
    (hcap : d₀.engine.limits.maxOrdersPerWindow = some cap)
    (hrunning : d₀.engine.limits.isDisabled .orderRate = false) (hrun : Runs d₀ calls d)
    (hsends : SendsAccepted d₀ calls) (horder : Nondecreasing Call.now start calls) : Paced cap calls d := by
  induction hrun with
  | nil => exact ⟨fun n => by simpa [sendTimes, Sending.sends, trailing] using hpos, by simpa [hempty] using hpos⟩
  | @snoc calls d call d' hrun hstep ih =>
      obtain ⟨hbefore, hupto⟩ := nondecreasing_snoc.mp horder
      have h := ih hsends.of_append hbefore
      obtain ⟨n, op⟩ := call
      cases perform_remembers hstep with
      | kept hop hrate _ =>
          have htimes : sendTimes (calls ++ [⟨n, op⟩]) = sendTimes calls := sendTimes_snoc_of_ne hop
          rcases hrate with hrate | hrate
          · exact ⟨by rw [hrate, htimes]; exact h.sends, by rw [hrate]; exact h.held⟩
          · refine ⟨by rw [hrate, htimes]; exact h.sends, ?_⟩
            rw [hrate]
            have hlen : (d.engine.rateWindow.prune n).events.length ≤ d.engine.rateWindow.events.length :=
              ((List.rdropWhile_prefix _ _).sublist.trans (List.dropWhile_sublist _)).length_le
            exact le_trans (by exact_mod_cast hlen) h.held
      | @sent request _ hrate _ =>
          have hroom := length_trailing_lt_of_sent h₀ hcap hrunning hrun hsends horder
          have hle : ∀ t ∈ sendTimes calls, t ≤ n := sendTimes_le hupto
          refine ⟨fun m => ?_, ?_⟩
          · rw [hrate, RateWindow.record_windowMillis, sendTimes_snoc_sent]
            have hsnoc := length_trailing_snoc_le d.engine.rateWindow.windowMillis hle m
            have hm := h.sends m
            omega
          · have hevents : (d.engine.rateWindow.record n).events = (d.engine.rateWindow.prune n).events ++ [n] := rfl
            rw [hrate, hevents, (runs_tracks h₀ hrun hbefore).window n hupto, List.length_append,
              List.length_singleton]
            omega

/-- At most `cap` sends lie in any window, the engine holds no more, and an
order is refused for its rate only when exactly `cap` sends are in the window
that ends then. -/
theorem orders_within_rate {limits : RiskLimits F} {isLive : Bool} {e₀ : PreTradeRiskEngine F} {s₀ : StateStore}
    (hnew : PreTradeRiskEngine.new limits isLive start = .ok e₀) (hrun : Runs ⟨e₀, s₀⟩ calls d)
    (hsends : SendsAccepted ⟨e₀, s₀⟩ calls) (horder : Nondecreasing Call.now start calls)
    (hcap : limits.maxOrdersPerWindow = some cap) (hrunning : limits.isDisabled .orderRate = false) :
    (∀ t : ℝ, ((trailing (limits.orderRateWindowMillis : ℝ) t ((sendTimes calls).map Int.cast)).length : ℤ) ≤ cap) ∧
    (d.engine.rateWindow.events.length : ℤ) ≤ cap ∧
    ∀ files n r decision f, Upto Call.now start calls n → evaluate files d.engine n r = .ok (decision, f) →
      decision.code = some .orderRateExceeded →
      ((trailing limits.orderRateWindowMillis n (sendTimes calls)).length : ℤ) = cap := by
  have h₀ := tracks_new hnew s₀
  have htracks := runs_tracks h₀ hrun horder
  obtain ⟨today, htoday, rfl⟩ := new_eq_ok.mp hnew
  have hlimits : d.engine.limits = limits := runs_limits hrun
  have hwindow : d.engine.rateWindow.windowMillis = limits.orderRateWindowMillis := by
    rw [d.engine.rateWindow_configured, hlimits]
  have hpos : 0 < cap := limits.count_pos "max_orders_per_window" (by simp [LimitFields.counts, hcap])
  have hpaced : Paced cap calls d := runs_paced h₀ hpos.le rfl hcap hrunning hrun hsends horder
  refine ⟨fun t => ?_, hpaced.held, fun files n r decision f hn heval hcode => ?_⟩
  · rw [length_trailing_floor, ← hwindow]
    exact hpaced.sends ⌊t⌋
  · have hcode : decision.code = some (rejectCode .orderRate) := hcode
    obtain ⟨day, -, hobjects⟩ := not_satisfied_of_code .orderRate heval hcode
    have hfull : ¬ ((d.engine.rateWindow.prune n).events.length : ℤ) < cap := fun hlt => by
      refine hobjects fun c hc => ?_
      obtain rfl : cap = c := Option.some.inj ((hlimits ▸ hcap).symm.trans hc)
      exact hlt
    rw [htracks.window n hn, hwindow] at hfull
    have hle := hpaced.sends n
    rw [hwindow] at hle
    omega

end Runs

open scoped Decimal

/-- Two orders fill the cap, the third is refused for the rate, and the next
goes out when the first has left the window. -/
theorem orders_within_rate_two :
    sendTimes busyCalls = [noon, noon + 500, noon + 1000] ∧
    (∃ d, Runs busyDesk busyCalls d ∧
      (∀ t : ℝ, ((trailing ((1000 : ℤ) : ℝ) t ((sendTimes busyCalls).map Int.cast)).length : ℤ) ≤ 2) ∧
      (d.engine.rateWindow.events.length : ℤ) ≤ 2) ∧
    ∃ d decision f, Runs busyDesk busyStart d ∧
      evaluate (fun _ => false) d.engine (noon + 600) three = .ok (decision, f) ∧
      decision.code = some .orderRateExceeded ∧
      ((trailing 1000 (noon + 600) (sendTimes busyStart)).length : ℤ) = 2 := by
  refine ⟨rfl, ?_, ?_⟩
  · obtain ⟨d, hrun⟩ := exists_runs_busyCalls
    have h := orders_within_rate new_busyDesk hrun sendsAccepted_busyCalls nondecreasing_busyCalls rfl rfl
    exact ⟨d, hrun, h.1, h.2.1⟩
  · obtain ⟨d, decision, f, hrun, hf, hcode⟩ :
        ∃ d decision f, Runs busyDesk busyStart d ∧
          evaluate (fun _ => false) d.engine (noon + 600) three = .ok (decision, f) ∧
            decision.code = some .orderRateExceeded :=
      exists_runs_code (by decide +kernel)
    have h := orders_within_rate new_busyDesk hrun sendsAccepted_busyCalls.of_append.of_append
      nondecreasing_busyCalls.of_append.of_append rfl rfl
    refine ⟨d, decision, f, hrun, hf, hcode, h.2.2 _ _ _ _ _ ?_ hf hcode⟩
    exact ⟨by decide, by simp [busyStart, trade, ask]⟩

end PretradeRisk.OrderRate
