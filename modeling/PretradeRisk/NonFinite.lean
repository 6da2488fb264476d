import PretradeRisk.FailOpen
import PretradeRisk.Refusals
import PretradeRisk.Run

namespace PretradeRisk.NonFinite

open Decision Encoding Engine Evaluate Host Ieee Limits Orders Refusals Rulings Run Session Store Verdicts Walk
open Admission (Rejects)

section Controls

variable {F : Type} [Zero F] [One F] [Neg F] [Add F] [Sub F] [Mul F] [Div F] [IntCast F] [LE F] [LT F]
  [DecidableLE F] [DecidableLT F] [PyFloat F]

def others : List (Control F) :=
  controlSequence.filter fun c => decide (c.id ≠ .dailyLossLimit ∧ c.id ≠ .dailyNotionalLimit)

def OthersPass (files : Files) (e : PreTradeRiskEngine F) (now : ℤ) (r : OrderRequest F) : Prop :=
  ∀ c ∈ others, runs e c = true → Satisfied files e now r c.id

/-- The first of them to fail rejects the order. -/
def OthersReject (files : Files) (e : PreTradeRiskEngine F) (now : ℤ) (r : OrderRequest F) : Prop :=
  ∃ c, Earliest runs (fun e c => Satisfied files e now r c.id) others e c ∧
    ∀ n ∈ reported e now r c.id, PyFloat.fits F n = true

variable {files : Files} {e f : PreTradeRiskEngine F} {now : ℤ} {r : OrderRequest F} {day : String} {b c : Control F}
  {id : ControlId}

theorem mem_others : c ∈ others ↔ c ∈ controlSequence ∧ c.id ≠ .dailyLossLimit ∧ c.id ≠ .dailyNotionalLimit := by
  simp [others]

theorem othersPass_of_notional (h : FirstFailing files e now r day c) (hid : c.id = .dailyNotionalLimit) :
    OthersPass files (e.rollTo day) now r ∧ Passes files (e.rollTo day) now r .dailyLossLimit := by
  obtain ⟨before, after, hseq, hruns, hnot, hbefore⟩ := h
  have hnodup : ((before ++ c :: after).map Control.id).Nodup := hseq ▸ controlSequence_nodup
  have hlast : after = [] := by
    rcases List.eq_nil_or_concat' after with rfl | ⟨xs, x, rfl⟩
    · rfl
    · have hend : controlSequence = (before ++ c :: xs) ++ [x] := by simp [hseq]
      have hx : x.id = .dailyNotionalLimit := by
        have hlast := congrArg (fun l => l.getLast?.map Control.id) hend
        simp only [List.getLast?_append, List.getLast?_singleton, Option.some_or, Option.map_some] at hlast
        exact (Option.some.inj hlast).symm
      rw [List.map_append, List.map_cons, List.nodup_append] at hnodup
      simp [hid, hx] at hnodup
  have hpass (a : Control F) (ha : a ∈ controlSequence) (hne : a.id ≠ .dailyNotionalLimit)
      (hr : runs (e.rollTo day) a = true) : Satisfied files (e.rollTo day) now r a.id := by
    rw [hseq, hlast, List.mem_append, List.mem_singleton] at ha
    rcases ha with ha | rfl
    · exact hbefore a ha hr
    · exact absurd hid hne
  refine ⟨fun a ha hr => ?_, fun a ha haid hr => ?_⟩
  · obtain ⟨hmem, -, hne⟩ := mem_others.mp ha
    exact hpass a hmem hne hr
  · exact haid ▸ hpass a ha (by rw [haid]; nofun) hr

theorem earliest_others (h : FirstFailing files e now r day c) (hloss : c.id ≠ .dailyLossLimit)
    (hnotional : c.id ≠ .dailyNotionalLimit) :
    Earliest runs (fun e c => Satisfied files e now r c.id) others (e.rollTo day) c :=
  Earliest.filter h (decide_eq_true ⟨hloss, hnotional⟩)

theorem not_othersPass_of_earliest
    (h : Earliest runs (fun e c => Satisfied files e now r c.id) others e c) : ¬ OthersPass files e now r :=
  fun hp => h.not_permits (hp c h.mem h.running)

/-- A refusal comes from the loss limit, from another control, or where all
the others pass from the daily notional limit. -/
theorem rejects_iff_passes (hday : e.today now = .ok day) : Rejects files e now r ↔
    ¬ Passes files (e.rollTo day) now r .dailyLossLimit ∨ OthersReject files (e.rollTo day) now r ∨
      OthersPass files (e.rollTo day) now r ∧ ¬ Passes files (e.rollTo day) now r .dailyNotionalLimit := by
  rw [refuses_iff hday]
  constructor
  · rintro ⟨c, hc, hfits⟩
    by_cases hloss : c.id = .dailyLossLimit
    · exact .inl (hloss ▸ not_passes_of_earliest hc)
    · by_cases hnotional : c.id = .dailyNotionalLimit
      · exact .inr (.inr ⟨(othersPass_of_notional hc hnotional).1, hnotional ▸ not_passes_of_earliest hc⟩)
      · exact .inr (.inl ⟨c, earliest_others hc hloss hnotional, hfits⟩)
  · rintro (hloss | ⟨c, hc, hfits⟩ | ⟨hpass, hnotional⟩)
    · obtain ⟨b, hb⟩ := exists_firstFailing_of_not_passes hday hloss
      exact ⟨b, reportable_of_id hb ((id_of_not_passes_loss hb hloss).imp_right .inl)⟩
    · obtain ⟨b, hb⟩ := exists_firstFailing hday (mem_others.mp hc.mem).1 hc.running hc.not_permits
      by_cases hloss : b.id = .dailyLossLimit
      · exact ⟨b, reportable_of_id hb (.inr (.inl hloss))⟩
      · by_cases hnotional : b.id = .dailyNotionalLimit
        · exact absurd (othersPass_of_notional hb hnotional).1 (not_othersPass_of_earliest hc)
        · obtain rfl := (earliest_others hb hloss hnotional).unique hc
          exact ⟨b, hb, hfits⟩
    · obtain ⟨b, hb⟩ := exists_firstFailing_of_not_passes hday hnotional
      refine ⟨b, reportable_of_id hb (.inr ?_)⟩
      by_contra hid
      rw [not_or] at hid
      exact not_othersPass_of_earliest (earliest_others hb hid.1 hid.2) hpass

theorem not_passes_of_refusesWith (id : ControlId) (hday : e.today now = .ok day)
    (h : RefusesWith files e now r (Admission.rejectCode id)) : ¬ Passes files (e.rollTo day) now r id := by
  obtain ⟨c, hc, rfl⟩ := firstFailing_of_refusesWith id hday h
  exact not_passes_of_earliest hc

theorem othersPass_of_refusesWith (hday : e.today now = .ok day)
    (h : RefusesWith files e now r .dailyNotionalLimitExceeded) : OthersPass files (e.rollTo day) now r := by
  obtain ⟨c, hc, hid⟩ := firstFailing_of_refusesWith .dailyNotionalLimit hday h
  exact (othersPass_of_notional hc hid).1

theorem refusesWith_loss (hday : e.today now = .ok day) (hothers : ¬ OthersReject files (e.rollTo day) now r)
    (hloss : ¬ Passes files (e.rollTo day) now r .dailyLossLimit) : RefusesWith files e now r .lossLimitBreached := by
  obtain ⟨c, hc⟩ := exists_firstFailing_of_not_passes hday hloss
  rcases id_of_not_passes_loss hc hloss with hid | hid
  · refine absurd ⟨c, earliest_others hc (by rw [hid]; nofun) (by rw [hid]; nofun), ?_⟩ hothers
    exact (reportable_of_id hc (.inl hid)).2
  · exact refusesWith_of_reportable (reportable_of_id hc (.inr (.inl hid))) hday (by rw [hid]; rfl)

theorem refusesWith_notional (hday : e.today now = .ok day) (hothers : OthersPass files (e.rollTo day) now r)
    (hloss : Passes files (e.rollTo day) now r .dailyLossLimit) (hpriced : r.notionalUsd.isSome = true)
    (hnotional : ¬ Passes files (e.rollTo day) now r .dailyNotionalLimit) :
    RefusesWith files e now r .dailyNotionalLimitExceeded := by
  obtain ⟨c, hc⟩ := exists_firstFailing_of_not_passes hday hnotional
  have hid : c.id = .dailyNotionalLimit := by
    by_contra hne
    by_cases hid : c.id = .dailyLossLimit
    · exact not_passes_of_earliest hc (hid ▸ hloss)
    · exact not_othersPass_of_earliest (earliest_others hc hid hne) hothers
  obtain ⟨notional, hsome⟩ := Option.isSome_iff_exists.mp hpriced
  refine refusesWith_of_reportable (reportable_of_id hc (.inr (.inr hid))) hday ?_
  rw [hid, evidence, hsome]

theorem passes_notional_iff : Passes files e now r .dailyNotionalLimit ↔
    (e.limits.isDisabled .dailyNotionalLimit = false → ∀ cap ∈ e.limits.dailyNotionalLimitUsd,
      ∃ notional ∈ r.notionalUsd, e.counters.dailyNotional + pyAbs notional ≤ cap) := passes_iff (by decide) (by decide)

theorem priced_of_passes (hruns : ∀ c ∈ controlSequence (F := F), runs f c = runs e c)
    (hnot : ¬ Passes files e now r .dailyNotionalLimit) (h : Passes files f now r .dailyNotionalLimit) :
    r.notionalUsd.isSome = true := by
  obtain ⟨c, hc, hid, hrun, -⟩ := exists_of_not_passes hnot
  have hrun' : runs f c = true := (hruns c hc).trans hrun
  rw [runs, hid, (isArmed_limits f c hc).2.2 hid, Bool.and_eq_true, Bool.not_eq_true'] at hrun'
  obtain ⟨cap, hcap⟩ := Option.isSome_iff_exists.mp hrun'.2
  obtain ⟨notional, hnotional, -⟩ := passes_notional_iff.mp h hrun'.1 cap hcap
  exact Option.isSome_iff_exists.mpr ⟨notional, hnotional⟩

/-- What two engines agree on apart from the two limits. -/
structure AgreeOnOthers (files : Files) (now : ℤ) (r : OrderRequest F) (e f : PreTradeRiskEngine F) : Prop where
  runs_eq : ∀ c ∈ controlSequence (F := F), runs f c = runs e c
  satisfied_iff : ∀ c ∈ others (F := F), Satisfied files f now r c.id ↔ Satisfied files e now r c.id
  reported_eq : ∀ c ∈ others (F := F), reported f now r c.id = reported e now r c.id

theorem AgreeOnOthers.othersPass_iff (h : AgreeOnOthers files now r e f) :
    OthersPass files f now r ↔ OthersPass files e now r :=
  forall₂_congr fun c hc => by rw [h.runs_eq c (mem_others.mp hc).1, h.satisfied_iff c hc]

theorem AgreeOnOthers.symm (h : AgreeOnOthers files now r e f) : AgreeOnOthers files now r f e where
  runs_eq c hc := (h.runs_eq c hc).symm
  satisfied_iff c hc := (h.satisfied_iff c hc).symm
  reported_eq c hc := (h.reported_eq c hc).symm

theorem AgreeOnOthers.othersReject (h : AgreeOnOthers files now r e f) (hr : OthersReject files e now r) :
    OthersReject files f now r := by
  obtain ⟨c, hc, hfits⟩ := hr
  refine ⟨c, hc.transfer fun b hb => ⟨h.runs_eq b (mem_others.mp hb).1, h.satisfied_iff b hb⟩, ?_⟩
  rwa [h.reported_eq c hc.mem]

theorem keeps_refusing_iff {day' : String} (hday : e.today now = .ok day) (hday' : f.today now = .ok day')
    (h : AgreeOnOthers files now r (e.rollTo day) (f.rollTo day')) :
    (RefusesWith files e now r .lossLimitBreached ∨ RefusesWith files e now r .dailyNotionalLimitExceeded →
        Rejects files f now r) ↔
      OthersReject files (e.rollTo day) now r ∨
        ¬ (¬ Passes files (e.rollTo day) now r .dailyLossLimit ∧ Passes files (f.rollTo day') now r .dailyLossLimit ∧
              (OthersPass files (e.rollTo day) now r → Passes files (f.rollTo day') now r .dailyNotionalLimit) ∨
            OthersPass files (e.rollTo day) now r ∧ ¬ Passes files (e.rollTo day) now r .dailyNotionalLimit ∧
              Passes files (f.rollTo day') now r .dailyNotionalLimit ∧
              Passes files (f.rollTo day') now r .dailyLossLimit) := by
  rw [rejects_iff_passes hday', h.othersPass_iff]
  have hreject : OthersReject files (f.rollTo day') now r ↔ OthersReject files (e.rollTo day) now r :=
    ⟨h.symm.othersReject, h.othersReject⟩
  rw [hreject]
  constructor
  · intro hkeeps
    by_contra hlost
    rw [not_or, not_not] at hlost
    obtain ⟨hothers, hlost⟩ := hlost
    rcases hlost with ⟨hloss, hpass, hnotional⟩ | ⟨hall, hnotional, hpass, hloss'⟩
    · rcases hkeeps (.inl (refusesWith_loss hday hothers hloss)) with hk | hk | ⟨hk, hk'⟩
      · exact hk hpass
      · exact hothers hk
      · exact hk' (hnotional hk)
    · have hrefused : RefusesWith files e now r .lossLimitBreached ∨
          RefusesWith files e now r .dailyNotionalLimitExceeded := by
        by_cases hloss : Passes files (e.rollTo day) now r .dailyLossLimit
        · exact .inr (refusesWith_notional hday hall hloss (priced_of_passes h.runs_eq hnotional hpass) hnotional)
        · exact .inl (refusesWith_loss hday hothers hloss)
      rcases hkeeps hrefused with hk | hk | ⟨-, hk⟩
      · exact hk hloss'
      · exact hothers hk
      · exact hk hpass
  · rintro (hothers | hkept) hrefused
    · exact .inr (.inl hothers)
    · by_contra hlost
      rw [not_or, not_or, not_and, not_not, not_not] at hlost
      obtain ⟨hloss', hothers, hnotional'⟩ := hlost
      refine hkept ?_
      rcases hrefused with hrefused | hrefused
      · exact .inl ⟨not_passes_of_refusesWith .dailyLossLimit hday hrefused, hloss', hnotional'⟩
      · have hall := othersPass_of_refusesWith hday hrefused
        exact .inr ⟨hall, not_passes_of_refusesWith .dailyNotionalLimit hday hrefused, hnotional' hall, hloss'⟩

end Controls

def Money : CounterEvent Float64 → Prop
  | .realizedPnl _ _ | .notional _ => True
  | _ => False

def MoneyStep (e : PreTradeRiskEngine Float64) (call : CounterEvent Float64 × ℤ) (e' : PreTradeRiskEngine Float64) :
    Prop :=
  Money call.1 ∧ e.record call.1 call.2 = .ok e'

/-- A leg's P&L and its high water mark, whatever was recorded. -/
structure Marked (pnl peak : Float64) : Prop where
  nonneg : 0 ≤ peak
  le : pnl = .nan ∨ pnl ≤ peak
  endless : peak = .infinite false → pnl = .nan ∨ pnl = .infinite false

theorem marked_zero : Marked 0 0 := ⟨le_rfl (a := (0 : ℚ)), .inr (le_rfl (a := (0 : ℚ))), nofun⟩

theorem Marked.ne_nan {pnl peak : Float64} (h : Marked pnl peak) : peak ≠ .nan := by
  rintro rfl
  exact Float64.not_le_nan _ h.nonneg

theorem Marked.add {pnl peak : Float64} (h : Marked pnl peak) (x : Float64) :
    Marked (pnl + x) (pyMax peak (pnl + x)) := by
  by_cases hnan : pnl + x = .nan
  · have hmax : pyMax peak (pnl + x) = peak := if_neg (by rw [hnan]; exact Float64.not_lt_nan _)
    rw [hmax]
    exact ⟨h.nonneg, .inl hnan, fun _ => .inl hnan⟩
  · by_cases hlt : peak < pnl + x
    · rw [pyMax, if_pos hlt]
      exact ⟨Float64.le_of_le_of_lt h.nonneg hlt, .inr (Float64.le_refl hnan), .inr⟩
    · rw [pyMax, if_neg hlt]
      refine ⟨h.nonneg, .inr (Float64.le_of_not_lt h.ne_nan hnan hlt), fun hpeak => ?_⟩
      rcases h.endless hpeak with rfl | rfl
      · exact .inl rfl
      · cases x with
        | nan => exact .inl rfl
        | infinite s => cases s with
          | true => exact .inl rfl
          | false => exact .inr rfl
        | finite x hx => exact .inr rfl

/-- An engine that has recorded money only: all but its counters is as it was
built. -/
def holding (limits : RiskLimits Float64) (isLive : Bool) (c : Counters Float64) : PreTradeRiskEngine Float64 :=
  (PreTradeRiskEngine.onDay limits isLive c.tradingDay).withCounters c

structure Tallied (c : Counters Float64) : Prop where
  marked : ∀ leg, Marked (c.legPnl leg) (c.legPeak leg)
  consecutiveRejects : c.consecutiveRejects = 0
  executionsSinceRearm : c.executionsSinceRearm = 0

theorem tallied_fresh (day : String) : Tallied (Counters.fresh day : Counters Float64) :=
  ⟨fun leg => by cases leg <;> exact marked_zero, rfl, rfl⟩

theorem Tallied.roll {c : Counters Float64} (h : Tallied c) (day : String) : Tallied (c.roll day) := by
  by_cases hday : day = c.tradingDay
  · rwa [Counters.roll_of_eq hday]
  · rw [Counters.roll_of_ne hday, h.executionsSinceRearm]
    exact tallied_fresh day

theorem Tallied.apply {c : Counters Float64} (h : Tallied c) {event : CounterEvent Float64} (hmoney : Money event) :
    Tallied (event.apply c) := by
  cases event with
  | realizedPnl pnlUsd isLive =>
      refine ⟨fun leg => ?_, ?_, ?_⟩
      · have hmarked := h.marked leg
        have hadd := hmarked.add pnlUsd
        cases isLive <;> cases leg <;> first | exact hmarked | exact hadd
      · cases isLive <;> exact h.consecutiveRejects
      · cases isLive <;> exact h.executionsSinceRearm
  | notional amount => exact ⟨h.marked, h.consecutiveRejects, h.executionsSinceRearm⟩
  | _ => exact hmoney.elim

variable {limits : RiskLimits Float64} {isLive : Bool} {start n now : ℤ} {e₀ e f : PreTradeRiskEngine Float64}
  {calls : List (CounterEvent Float64 × ℤ)} {s : StateStore} {files : Files} {r : OrderRequest Float64}
  {c : Counters Float64}

theorem holding_of_run (hnew : PreTradeRiskEngine.new limits isLive start = .ok e₀) (hrun : Steps MoneyStep e₀ calls e) :
    ∃ c, e = holding limits isLive c ∧ Tallied c := by
  obtain ⟨day, -, rfl⟩ := new_eq_ok.mp hnew
  refine Steps.invariant (P := fun e => ∃ c, e = holding limits isLive c ∧ Tallied c)
    ⟨_, rfl, tallied_fresh day⟩ (fun {t call u} ht hstep => ?_) hrun
  obtain ⟨c, rfl, hc⟩ := ht
  obtain ⟨hmoney, hrecord⟩ := hstep
  simp only [PreTradeRiskEngine.record, PreTradeRiskEngine.rollTradingDay, bind_eq_ok, pure_eq_ok,
    Except.ok.injEq] at hrecord
  obtain ⟨_, ⟨today, -, rfl⟩, rfl⟩ := hrecord
  exact ⟨_, rfl, (hc.roll today).apply hmoney⟩

/-- What a snapshot keeps of a number: nothing of one that is not finite. -/
def kept : Float64 → Float64
  | .finite x h => .finite x h
  | _ => 0

theorem decodeOrZero_encodeFloat (x : Float64) : decodeOrZero (some (encodeFloat x)) = kept x := by
  have hzero : decodeOrZero (some "0") = (0 : Float64) :=
    congrArg (·.getD 0) (Doubles.decodeFloat_encodeFloat representable_zero)
  cases x with
  | nan => exact hzero
  | infinite s => exact hzero
  | finite x h => rw [decodeOrZero, Doubles.decodeFloat_encodeFloat h]; rfl

theorem asCount_zero : asCount Float64 (some (encodeFloat ((((0 : ℕ) : ℤ) : Float64)))) = 0 := by
  have hcast : (((0 : ℕ) : ℤ) : Float64) = .finite 0 representable_zero := by
    change Float64.ofRat (((0 : ℕ) : ℤ) : ℚ) = _
    exact Float64.ofRat_of_near representable_zero (by simp)
  rw [hcast, asCount, Doubles.decodeFloat_encodeFloat]
  rfl

/-- The counters a fresh engine loads from a snapshot on its day. -/
def reread (c : Counters Float64) : Counters Float64 where
  tradingDay := c.tradingDay
  livePnl := kept c.livePnl
  simulatedPnl := kept c.simulatedPnl
  dailyNotional := kept c.dailyNotional
  consecutiveRejects := 0
  livePeak := pyMax (pyMax 0 (kept c.livePnl)) (kept c.livePeak)
  simulatedPeak := pyMax (pyMax 0 (kept c.simulatedPnl)) (kept c.simulatedPeak)
  executionsSinceRearm := 0

theorem getMany_snapshot (c : Counters Float64) (s : StateStore) :
    ∀ entry ∈ c.snapshot, getMany (setMany s c.snapshot) counterKeys entry.1 = some entry.2 := by
  intro entry hentry
  have hkeys : c.snapshot.map Prod.fst = counterKeys := rfl
  have hnodup : (c.snapshot.map Prod.fst).Nodup := by
    rw [hkeys]
    decide
  have hkey : entry.1 ∈ counterKeys := hkeys ▸ List.mem_map_of_mem hentry
  rw [getMany, if_pos hkey]
  exact setMany_of_mem s hnodup hentry

theorem adopt_snapshot (h : Tallied c) (c' : Counters Float64) (s : StateStore) :
    c'.adopt (getMany (setMany s c.snapshot) counterKeys) c.tradingDay = reread c := by
  have hread := getMany_snapshot c s
  simp only [Counters.snapshot, List.forall_mem_cons, h.consecutiveRejects, h.executionsSinceRearm] at hread
  obtain ⟨hday, hlive, hsimulated, hlivePeak, hsimulatedPeak, hnotional, hrejects, hexecutions, -⟩ := hread
  rw [Counters.adopt]
  simp only [Counters.snapshot, h.consecutiveRejects, h.executionsSinceRearm, hday, hlive, hsimulated, hlivePeak,
    hsimulatedPeak, hnotional, hrejects, hexecutions, if_true, decodeOrZero_encodeFloat, asCount_zero, reread]

/-- A fresh engine of the same limits and leg loads what the engine last
persisted. -/
def Restarts (e : PreTradeRiskEngine Float64) (s : StateStore) (n : ℤ) (f : PreTradeRiskEngine Float64) : Prop :=
  ∃ g s', PreTradeRiskEngine.new e.limits e.isLive n = .ok g ∧ g.load (e.persist s) n = .ok (f, s')

theorem restarts_iff (h : Tallied c) (hday : (holding limits isLive c).today n = .ok c.tradingDay) :
    Restarts (holding limits isLive c) s n f ↔ f = holding limits isLive (reread c) := by
  have hload (day : String) : (PreTradeRiskEngine.onDay limits isLive day).load ((holding limits isLive c).persist s) n =
      .ok (holding limits isLive (reread c), (holding limits isLive (reread c)).persist
        ((holding limits isLive c).persist s)) := by
    rw [PreTradeRiskEngine.load_of_today (by exact hday)]
    have hadopt : (PreTradeRiskEngine.onDay limits isLive day).counters.adopt
        (getMany ((holding limits isLive c).persist s) counterKeys) c.tradingDay = reread c := adopt_snapshot h _ s
    rw [hadopt]
    rfl
  constructor
  · rintro ⟨g, s', hnew, hg⟩
    obtain ⟨day, -, rfl⟩ := new_eq_ok.mp hnew
    have heq := (hload day).symm.trans hg
    cases heq
    rfl
  · rintro rfl
    exact ⟨_, _, new_eq_ok.mpr ⟨_, hday, rfl⟩, hload _⟩

theorem rollTo_holding (limits : RiskLimits Float64) (isLive : Bool) (c : Counters Float64) :
    (holding limits isLive c).rollTo c.tradingDay = holding limits isLive c :=
  PreTradeRiskEngine.rollTo_of_eq rfl

theorem agreeOnOthers_reread (h : Tallied c) (files : Files) (now : ℤ) (r : OrderRequest Float64) :
    AgreeOnOthers files now r (holding limits isLive c) (holding limits isLive (reread c)) where
  runs_eq b hb := by
    have harmed : b.isArmed (holding limits isLive (reread c)) = b.isArmed (holding limits isLive c) :=
      isArmed_congr (e := holding limits isLive c) (f := holding limits isLive (reread c))
        ⟨limits.disabledControls, rfl⟩ rfl rfl b hb
    rw [runs, runs, harmed]
    rfl
  satisfied_iff b hb := by
    obtain ⟨-, hloss, hnotional⟩ := mem_others.mp hb
    generalize b.id = id at hloss hnotional
    have hrejects : (holding limits isLive c).counters.consecutiveRejects = 0 := h.consecutiveRejects
    have hexecutions : (holding limits isLive c).counters.executionsSinceRearm = 0 := h.executionsSinceRearm
    cases id with
    | dailyLossLimit => exact absurd rfl hloss
    | dailyNotionalLimit => exact absurd rfl hnotional
    | consecutiveRejects => rw [Satisfied, Satisfied, hrejects]; rfl
    | repeatedExecution => rw [Satisfied, Satisfied, hexecutions]; rfl
    | _ => exact Iff.rfl
  reported_eq b hb := by
    generalize b.id = id
    have hrejects : (holding limits isLive c).counters.consecutiveRejects = 0 := h.consecutiveRejects
    have hexecutions : (holding limits isLive c).counters.executionsSinceRearm = 0 := h.executionsSinceRearm
    cases id with
    | consecutiveRejects => rw [reported, reported, hrejects]; rfl
    | repeatedExecution => rw [reported, reported, hexecutions]; rfl
    | _ => rfl

theorem pyMax_finite {p q : ℚ} (hp : Representable p) (hq : Representable q) (h : p ≤ q) :
    pyMax (Float64.finite p hp) (Float64.finite q hq) = .finite q hq := by
  rw [pyMax]
  split
  · rfl
  · next hlt =>
      obtain rfl : p = q := le_antisymm h (not_lt.mp hlt)
      rfl

theorem not_zero_le_neg {limit : Float64} (h : ¬ limit ≤ 0) : ¬ (0 : Float64) ≤ 0 - limit := by
  cases limit with
  | nan => exact Float64.not_le_nan _
  | infinite s => cases s with
    | true => exact absurd rfl h
    | false => exact nofun
  | finite q hq =>
      have hpos : ¬ q ≤ 0 := h
      rw [Float64.zero_sub_finite hq]
      exact fun hle => hpos (neg_nonneg.mp hle)

/-- A high water mark is endless where the P&L is or was, and a number
otherwise. -/
theorem Marked.cases {pnl peak : Float64} (h : Marked pnl peak) :
    peak = .infinite false ∧ (pnl = .nan ∨ pnl = .infinite false) ∨
      ∃ q hq, peak = .finite q hq ∧ 0 ≤ q ∧ (pnl = .nan ∨ pnl = .infinite true ∨
        ∃ p hp, pnl = .finite p hp ∧ p ≤ q) := by
  cases hpeak : peak with
  | nan => exact absurd hpeak h.ne_nan
  | infinite s =>
      cases s with
      | true =>
          have hle := h.nonneg
          rw [hpeak] at hle
          exact absurd hle nofun
      | false => exact .inl ⟨rfl, h.endless hpeak⟩
  | finite q hq =>
      have hnonneg := h.nonneg
      have hle := h.le
      rw [hpeak] at hnonneg hle
      refine .inr ⟨q, hq, rfl, hnonneg, ?_⟩
      cases pnl with
      | nan => exact .inl rfl
      | infinite s => simp_all
      | finite p hp =>
          refine .inr (.inr ⟨p, hp, rfl, ?_⟩)
          simpa using hle

theorem peak_kept {q : ℚ} (hq : Representable q) (h : 0 ≤ q) :
    pyMax (pyMax 0 (0 : Float64)) (kept (.finite q hq)) = .finite q hq := pyMax_finite representable_zero hq h

theorem peak_kept_of_le {p q : ℚ} (hp : Representable p) (hq : Representable q) (h : 0 ≤ q) (hle : p ≤ q) :
    pyMax (pyMax 0 (kept (.finite p hp))) (kept (.finite q hq)) = .finite q hq := by
  rcases le_or_gt 0 p with hpos | hneg
  · have hmax : pyMax 0 (kept (.finite p hp)) = .finite p hp := pyMax_finite representable_zero hp hpos
    rw [hmax]
    exact pyMax_finite hp hq hle
  · have hmax : pyMax 0 (kept (.finite p hp)) = .finite 0 representable_zero :=
      if_neg fun hlt => absurd (show 0 < p from hlt) (not_lt.mpr hneg.le)
    rw [hmax]
    exact pyMax_finite representable_zero hq h

theorem breached_kept_iff {pnl peak limit : Float64} (h : Marked pnl peak) (hlimit : ¬ limit ≤ 0) :
    kept pnl ≤ pyMax (pyMax 0 (kept pnl)) (kept peak) - limit ↔
      PyFloat.isfinite pnl = true ∧ pnl ≤ peak - limit ∨
        (pnl = .nan ∨ pnl = .infinite true) ∧ PyFloat.isfinite peak = true ∧ 0 ≤ peak - limit := by
  rcases h.cases with ⟨rfl, hpnl⟩ | ⟨q, hq, rfl, hnonneg, rfl | rfl | ⟨p, hp, rfl, hle⟩⟩
  · have hnot : ¬ kept pnl ≤ pyMax (pyMax 0 (kept pnl)) (kept (.infinite false)) - limit := by
      rcases hpnl with rfl | rfl <;> exact not_zero_le_neg hlimit
    refine iff_of_false hnot ?_
    rintro (⟨hfinite, -⟩ | ⟨-, hfinite, -⟩)
    · rcases hpnl with rfl | rfl <;> exact absurd hfinite nofun
    · exact absurd hfinite nofun
  · rw [show kept .nan = 0 from rfl, peak_kept hq hnonneg]
    simp [PyFloat.isfinite]
  · rw [show kept (.infinite true) = 0 from rfl, peak_kept hq hnonneg]
    simp [PyFloat.isfinite]
  · rw [peak_kept_of_le hp hq hnonneg hle]
    simp [PyFloat.isfinite, kept]

theorem not_breached_kept_iff {pnl peak limit : Float64} (h : Marked pnl peak) (hlimit : ¬ limit ≤ 0)
    (hle : pnl ≤ peak - limit) : ¬ kept pnl ≤ pyMax (pyMax 0 (kept pnl)) (kept peak) - limit ↔
      pnl = .infinite false ∨ pnl = .infinite true ∧ ¬ 0 ≤ peak - limit := by
  rw [breached_kept_iff h hlimit]
  rcases h.cases with ⟨rfl, rfl | rfl⟩ | ⟨q, hq, rfl, -, rfl | rfl | ⟨p, hp, rfl, -⟩⟩
  · exact absurd hle (Float64.not_nan_le _)
  · simp [PyFloat.isfinite]
  · exact absurd hle (Float64.not_nan_le _)
  · simp [PyFloat.isfinite]
  · simp [PyFloat.isfinite, hle]

/-- The loss limit is breached by an infinite P&L, and no longer where that
P&L counts as nothing. -/
def LossForgotten (e : PreTradeRiskEngine Float64) : Prop :=
  e.limits.isDisabled .dailyLossLimit = false ∧ ∃ floor ∈ e.floor, e.legPnl ≤ floor ∧
    (e.legPnl = .infinite false ∨ e.legPnl = .infinite true ∧ ¬ 0 ≤ floor)

/-- The loss limit is breached where a P&L that is not finite counts as
nothing. -/
def LossHalts (e : PreTradeRiskEngine Float64) : Prop :=
  e.limits.isDisabled .dailyLossLimit = false ∧ ∃ floor ∈ e.floor,
    PyFloat.isfinite e.legPnl = true ∧ e.legPnl ≤ floor ∨
      (e.legPnl = .nan ∨ e.legPnl = .infinite true) ∧ PyFloat.isfinite e.legPeak = true ∧ 0 ≤ floor

/-- The order passes the daily notional limit where a daily notional that is
not finite counts as nothing. -/
def NotionalPasses (e : PreTradeRiskEngine Float64) (r : OrderRequest Float64) : Prop :=
  e.limits.isDisabled .dailyNotionalLimit = false → ∀ cap ∈ e.limits.dailyNotionalLimitUsd,
    ∃ notional ∈ r.notionalUsd, if PyFloat.isfinite e.counters.dailyNotional then
      e.counters.dailyNotional + pyAbs notional ≤ cap else pyAbs notional ≤ cap

/-- The order is over the daily notional limit on top of a daily notional that
is not finite, and passes without it. -/
def NotionalForgotten (e : PreTradeRiskEngine Float64) (r : OrderRequest Float64) : Prop :=
  e.limits.isDisabled .dailyNotionalLimit = false ∧ ∃ cap ∈ e.limits.dailyNotionalLimitUsd,
    ∃ notional ∈ r.notionalUsd, PyFloat.isfinite e.counters.dailyNotional = false ∧
      ¬ e.counters.dailyNotional + pyAbs notional ≤ cap ∧ pyAbs notional ≤ cap

theorem reread_legPnl (c : Counters Float64) (leg : Bool) : (reread c).legPnl leg = kept (c.legPnl leg) := by
  cases leg <;> rfl

theorem reread_legPeak (c : Counters Float64) (leg : Bool) : (reread c).legPeak leg =
    pyMax (pyMax 0 (kept (c.legPnl leg))) (kept (c.legPeak leg)) := by
  cases leg <;> rfl

theorem breached_holding_iff : (holding limits isLive c).breached now = true ↔
    ∃ limit, limits.dailyLossLimitUsd = some limit ∧ c.legPnl isLive ≤ c.legPeak isLive - limit := by
  rw [PreTradeRiskEngine.breached_iff]
  exact exists_congr fun limit => and_congr_right fun _ => and_iff_right rfl

theorem floor_holding_iff {P : Float64 → Prop} : (∃ floor ∈ (holding limits isLive c).floor, P floor) ↔
    ∃ limit, limits.dailyLossLimitUsd = some limit ∧ P (c.legPeak isLive - limit) := by
  have hfloor : (holding limits isLive c).floor = limits.dailyLossLimitUsd.map (c.legPeak isLive - ·) := by
    rw [PreTradeRiskEngine.floor, show (holding limits isLive c).limits = limits from rfl]
    cases limits.dailyLossLimitUsd <;> rfl
  simp [hfloor]

theorem not_le_zero_of_limit {limit : Float64} (h : limits.dailyLossLimitUsd = some limit) : ¬ limit ≤ 0 :=
  limits.admissible.amounts "daily_loss_limit_usd" limit (by simp [LimitFields.amounts, h])

theorem lossHalts_iff (h : Tallied c) (files : Files) (now : ℤ) (r : OrderRequest Float64) :
     LossHalts (holding limits isLive c) ↔
    ¬ Passes files (holding limits isLive (reread c)) now r .dailyLossLimit := by
  rw [LossHalts, passes_loss_iff, floor_holding_iff, Classical.not_imp, Bool.not_eq_false, breached_holding_iff,
    reread_legPnl, reread_legPeak]
  refine and_congr_right fun _ => exists_congr fun limit => and_congr_right fun hlimit => ?_
  exact (breached_kept_iff (h.marked isLive) (not_le_zero_of_limit hlimit)).symm

theorem lossForgotten_iff (h : Tallied c) (files : Files) (now : ℤ) (r : OrderRequest Float64) :
     LossForgotten (holding limits isLive c) ↔
    ¬ Passes files (holding limits isLive c) now r .dailyLossLimit ∧
      Passes files (holding limits isLive (reread c)) now r .dailyLossLimit := by
  rw [LossForgotten, passes_loss_iff, passes_loss_iff, floor_holding_iff, Classical.not_imp, Bool.not_eq_false,
    breached_holding_iff, and_assoc]
  refine and_congr_right fun henabled => ?_
  have hfree : (holding limits isLive (reread c)).limits.isDisabled .dailyLossLimit = false := henabled
  rw [imp_iff_right hfree, ← Bool.not_eq_true, breached_holding_iff, reread_legPnl, reread_legPeak]
  constructor
  · rintro ⟨limit, hlimit, hle, hpnl⟩
    refine ⟨⟨limit, hlimit, hle⟩, fun ⟨limit', hlimit', hle'⟩ => ?_⟩
    cases hlimit.symm.trans hlimit'
    exact (not_breached_kept_iff (h.marked isLive) (not_le_zero_of_limit hlimit) hle).mpr hpnl hle'
  · rintro ⟨⟨limit, hlimit, hle⟩, hnot⟩
    refine ⟨limit, hlimit, hle, ?_⟩
    exact (not_breached_kept_iff (h.marked isLive) (not_le_zero_of_limit hlimit) hle).mp
      fun hle' => hnot ⟨limit, hlimit, hle'⟩

theorem kept_add_iff {used notional cap : Float64} : kept used + notional ≤ cap ↔
    if PyFloat.isfinite used then used + notional ≤ cap else notional ≤ cap := by
  cases used with
  | finite x hx => exact Iff.rfl
  | nan => exact (iff_of_eq (congrArg (· ≤ cap) (Float64.zero_add notional)))
  | infinite s => exact (iff_of_eq (congrArg (· ≤ cap) (Float64.zero_add notional)))

theorem passes_notional_reread_iff (files : Files) (now : ℤ) (r : OrderRequest Float64) :
     Passes files (holding limits isLive (reread c)) now r .dailyNotionalLimit ↔
    NotionalPasses (holding limits isLive c) r := by
  rw [passes_notional_iff, NotionalPasses]
  refine imp_congr_right fun _ => forall₂_congr fun cap _ => exists_congr fun notional => and_congr_right fun _ => ?_
  exact kept_add_iff

theorem notionalForgotten_iff (files : Files) (now : ℤ) (r : OrderRequest Float64) :
     NotionalForgotten (holding limits isLive c) r ↔
    ¬ Passes files (holding limits isLive c) now r .dailyNotionalLimit ∧
      Passes files (holding limits isLive (reread c)) now r .dailyNotionalLimit := by
  rw [NotionalForgotten, passes_notional_iff, passes_notional_iff, Classical.not_imp, and_assoc]
  refine and_congr_right fun henabled => ?_
  have hfree : (holding limits isLive (reread c)).limits.isDisabled .dailyNotionalLimit = false := henabled
  rw [imp_iff_right hfree]
  constructor
  · rintro ⟨cap, hcap, notional, hnotional, hused, hover, hfits⟩
    refine ⟨fun hall => ?_, fun cap' hcap' => ⟨notional, hnotional, ?_⟩⟩
    · obtain ⟨notional', hnotional', hle⟩ := hall cap hcap
      cases hnotional.symm.trans hnotional'
      exact hover hle
    · cases hcap.symm.trans hcap'
      refine kept_add_iff.mpr ?_
      have hnot : ¬ PyFloat.isfinite c.dailyNotional = true := by
        rw [show PyFloat.isfinite c.dailyNotional = false from hused]
        exact Bool.false_ne_true
      rwa [if_neg hnot]
  · rintro ⟨hover, hkept⟩
    push Not at hover
    obtain ⟨cap, hcap, hover⟩ := hover
    obtain ⟨notional, hnotional, hle⟩ := hkept cap hcap
    have hnot := hover notional hnotional
    have hle := kept_add_iff.mp hle
    split at hle
    · exact absurd hle hnot
    · next hused => exact ⟨cap, hcap, notional, hnotional, Bool.not_eq_true _ ▸ hused, hnot, hle⟩

/-- After any recorded money, a restart on the same day keeps up the refusals
of the two limits unless an infinite P&L or a daily notional that is not
finite was what they refused for, and nothing else stops the order. -/
theorem restart_refuses_iff (hnew : PreTradeRiskEngine.new limits isLive start = .ok e₀)
    (hrun : Steps MoneyStep e₀ calls e) (hload : e.today n = .ok e.counters.tradingDay)
    (hrestart : Restarts e s n f) (hnow : e.today now = .ok e.counters.tradingDay) :
    (RefusesWith files e now r .lossLimitBreached ∨ RefusesWith files e now r .dailyNotionalLimitExceeded →
        Rejects files f now r) ↔
      OthersReject files e now r ∨
        ¬ (LossForgotten e ∧ (OthersPass files e now r → NotionalPasses e r) ∨
          OthersPass files e now r ∧ NotionalForgotten e r ∧ ¬ LossHalts e) := by
  obtain ⟨c, rfl, hc⟩ := holding_of_run hnew hrun
  obtain rfl := (restarts_iff hc hload).mp hrestart
  have hnow' : (holding limits isLive (reread c)).today now = .ok (reread c).tradingDay := hnow
  have hagree : AgreeOnOthers files now r (holding limits isLive c) (holding limits isLive (reread c)) :=
    agreeOnOthers_reread hc files now r
  rw [keeps_refusing_iff hnow hnow' (by rwa [PreTradeRiskEngine.rollTo_of_eq rfl, rollTo_holding]),
    PreTradeRiskEngine.rollTo_of_eq rfl, rollTo_holding,
    lossForgotten_iff hc files now r, notionalForgotten_iff files now r, lossHalts_iff hc files now r,
    ← passes_notional_reread_iff files now r, not_not]
  simp only [and_assoc]

def collapse : List Float64 := [.ofRat (-2 ^ 1023), .ofRat (-2 ^ 1023)]

theorem today_recorded (xs : List Float64) : (FailOpen.recorded xs).today noon = .ok "2026-07-20" := tradingDay_noon

theorem recorded_append (xs : List Float64) (x : Float64) : FailOpen.recorded (xs ++ [x]) =
    (FailOpen.recorded xs).withCounters (CounterEvent.apply (.realizedPnl x false) (FailOpen.recorded xs).counters) := by
  simp only [FailOpen.recorded, List.foldl_append]
  rfl

theorem tradingDay_recorded (xs : List Float64) : (FailOpen.recorded xs).counters.tradingDay = "2026-07-20" := by
  induction xs using List.reverseRecOn with
  | nil => rfl
  | append_singleton xs x ih =>
      rw [recorded_append]
      exact ih

theorem record_recorded (xs : List Float64) (x : Float64) :
    MoneyStep (FailOpen.recorded xs) (.realizedPnl x false, noon) (FailOpen.recorded (xs ++ [x])) := by
  refine ⟨trivial, ?_⟩
  rw [PreTradeRiskEngine.record, PreTradeRiskEngine.rollTradingDay, today_recorded]
  simp only [ok_bind, pure_eq_ok]
  rw [PreTradeRiskEngine.rollTo_of_eq (tradingDay_recorded xs), recorded_append]

theorem run_collapse : Steps MoneyStep FailOpen.lossEngine (collapse.map fun x => (.realizedPnl x false, noon))
    (FailOpen.recorded collapse) :=
  ((Steps.nil (s := FailOpen.recorded [])).snoc (record_recorded [] _)).snoc (record_recorded [_] _)

def afterCollapse : PreTradeRiskEngine Float64 :=
  holding FailOpen.lossLimits false (reread (FailOpen.recorded collapse).counters)

theorem restarts_collapse : Restarts (FailOpen.recorded collapse) empty noon afterCollapse := by
  obtain ⟨c, hc, htallied⟩ := holding_of_run FailOpen.new_lossEngine run_collapse
  have hcounters : (FailOpen.recorded collapse).counters = c := congrArg (·.counters) hc
  have hday : (holding FailOpen.lossLimits false c).today noon = .ok c.tradingDay := by
    rw [← hcounters, tradingDay_recorded]
    exact tradingDay_noon
  rw [afterCollapse, hcounters, hc]
  exact (restarts_iff htallied hday).mpr rfl

/-- The loss is forgotten with the restart: the order it was refused for is
let through. -/
theorem collapse_forgotten :
    PreTradeRiskEngine.new FailOpen.lossLimits false noon = .ok FailOpen.lossEngine ∧
      Steps MoneyStep FailOpen.lossEngine (collapse.map fun x => (.realizedPnl x false, noon))
        (FailOpen.recorded collapse) ∧
      Restarts (FailOpen.recorded collapse) empty noon afterCollapse ∧
      RefusesWith (fun _ => false) (FailOpen.recorded collapse) noon FailOpen.plainOrder .lossLimitBreached ∧
      ¬ Rejects (fun _ => false) afterCollapse noon FailOpen.plainOrder := by
  refine ⟨FailOpen.new_lossEngine, run_collapse, restarts_collapse, ?_, ?_⟩
  · obtain ⟨d, f, hev, hcode⟩ := exists_decision_of_any (e := FailOpen.recorded collapse) (r := FailOpen.plainOrder)
      (p := fun d => decide (d.code = some .lossLimitBreached))
      (show (decision (fun _ => false) _ noon _).toOption.any _ = true by decide +kernel)
    exact ⟨d, f, hev, of_decide_eq_true hcode⟩
  · obtain ⟨d, f, hev, haccepted⟩ := exists_decision_of_any (e := afterCollapse) (r := FailOpen.plainOrder)
      (p := fun d => d.accepted) (show (decision (fun _ => false) _ noon _).toOption.any _ = true by decide +kernel)
    rintro ⟨d', f', hev', hrefused⟩
    rw [hev] at hev'
    cases hev'
    rw [haccepted] at hrefused
    cases hrefused

theorem restart_refuses_iff_collapse :
    (RefusesWith (fun _ => false) (FailOpen.recorded collapse) noon FailOpen.plainOrder .lossLimitBreached ∨
        RefusesWith (fun _ => false) (FailOpen.recorded collapse) noon FailOpen.plainOrder .dailyNotionalLimitExceeded →
      Rejects (fun _ => false) afterCollapse noon FailOpen.plainOrder) ↔
    OthersReject (fun _ => false) (FailOpen.recorded collapse) noon FailOpen.plainOrder ∨
      ¬ (LossForgotten (FailOpen.recorded collapse) ∧
          (OthersPass (fun _ => false) (FailOpen.recorded collapse) noon FailOpen.plainOrder →
            NotionalPasses (FailOpen.recorded collapse) FailOpen.plainOrder) ∨
        OthersPass (fun _ => false) (FailOpen.recorded collapse) noon FailOpen.plainOrder ∧
          NotionalForgotten (FailOpen.recorded collapse) FailOpen.plainOrder ∧
          ¬ LossHalts (FailOpen.recorded collapse)) := by
  have hday : (FailOpen.recorded collapse).today noon = .ok (FailOpen.recorded collapse).counters.tradingDay := by
    rw [tradingDay_recorded]
    exact today_recorded collapse
  exact restart_refuses_iff FailOpen.new_lossEngine run_collapse hday restarts_collapse hday

end PretradeRisk.NonFinite
