import PretradeRisk.Restart
import PretradeRisk.FailOpen
import PretradeRisk.Tightness

namespace PretradeRisk.Damage

open Clock Decision Encoding Engine Evaluate Host Ieee Limits Orders Refusals Rulings Session Store Verdicts
open Admission (Rejects)
open Snapshot (adopt_of_date asRead getMany_refreshKeys repaired)
open Tightness (Untripped stateful)

section Decoding

variable {F : Type} [Zero F] [LT F] [DecidableLT F] [PyFloat F]

def zeroed (keys : Finset Key) (c : Counters F) : Counters F where
  tradingDay := c.tradingDay
  livePnl := if .liveRealizedPnl ∈ keys then 0 else c.livePnl
  simulatedPnl := if .simulatedRealizedPnl ∈ keys then 0 else c.simulatedPnl
  livePeak := if .livePeakPnl ∈ keys then 0 else c.livePeak
  simulatedPeak := if .simulatedPeakPnl ∈ keys then 0 else c.simulatedPeak
  dailyNotional := if .dailyNotional ∈ keys then 0 else c.dailyNotional
  consecutiveRejects := if .consecutiveRejects ∈ keys then 0 else c.consecutiveRejects
  executionsSinceRearm := if .executionsSinceRearm ∈ keys then 0 else c.executionsSinceRearm

variable {keys : Finset Key} {s t : StateStore} {day : String}

variable [LE F] [DecidableLE F]

end Decoding

section Loads

variable {F : Type} [Zero F] [One F] [Neg F] [Add F] [Sub F] [Mul F] [Div F] [IntCast F] [LE F] [LT F]
  [DecidableLE F] [DecidableLT F] [PyFloat F]

def restart (limits : RiskLimits F) (isLive : Bool) (today₀ : String) (s : StateStore) (n : ℤ) :
    Except PyError (PreTradeRiskEngine F) := do
  let (e, s) ← (PreTradeRiskEngine.onDay limits isLive today₀).load s n
  return e.refreshOverrides s

def restarted (limits : RiskLimits F) (isLive : Bool) (c : Counters F) (o : Overrides F) : PreTradeRiskEngine F :=
  ((PreTradeRiskEngine.onDay limits isLive c.tradingDay).withCounters c).withOverrides o

variable {limits : RiskLimits F} {isLive : Bool} {today₀ day : String} {keys : Finset Key} {s t : StateStore}
  {c : Counters F} {o : Overrides F} {n now : ℤ} {files : Files} {r : OrderRequest F}

/-- The order is within the caps on its size that are in force, and within
what the day has left. -/
structure Within (e : PreTradeRiskEngine F) (quantity : F) (notional : Option F) : Prop where
  maxOrderQuantity : e.limits.isDisabled .maxOrderQuantity = false →
    ∀ cap ∈ e.effectiveMaxOrderQuantity, quantity ≤ cap
  maxOrderNotional : e.limits.isDisabled .maxOrderNotional = false →
    ∀ cap ∈ e.effectiveMaxOrderNotional, ∃ x ∈ notional, x ≤ cap
  dailyNotional : e.limits.isDisabled .dailyNotionalLimit = false →
    ∀ cap ∈ e.limits.dailyNotionalLimitUsd, ∃ x ∈ notional, e.counters.dailyNotional + pyAbs x ≤ cap

/-- The order passes the controls that read no counter and no override. -/
def Stateless (files : Files) (e : PreTradeRiskEngine F) (now : ℤ) (r : OrderRequest F) : Prop :=
  ∀ id ∉ stateful, Passes files e now r id

/-- The whole numbers of the order are within the range of a float. -/
structure InRange (r : OrderRequest F) : Prop where
  quoteAge : ∀ age ∈ r.quoteAgeMillis, PyFloat.fits F age = true
  workingOrders : PyFloat.fits F r.workingOrders = true
  openPositions : PyFloat.fits F r.openPositions = true

/-- The quantities and notionals the other controls leave to an order. -/
def sizes (files : Files) (e : PreTradeRiskEngine F) (now : ℤ) : Set (F × Option F) :=
  {size | ∃ r, InRange r ∧ Stateless files e now r ∧ size = (r.quantity, r.notionalUsd)}

/-- Nothing held back before is let through now: unless a throttle is tripped
now, none was before, and every size that is within the caps now was within
them before. -/
def NoLooser (files : Files) (before after : PreTradeRiskEngine F) (now : ℤ) : Prop :=
  Untripped after now → ∀ size ∈ sizes files after now, Within after size.1 size.2 →
    Untripped before now ∧ Within before size.1 size.2

variable {e f : PreTradeRiskEngine F}

theorem forall_stateful_iff : (∀ id ∈ stateful, Passes files e now r id) ↔
    Untripped e now ∧ Within e r.quantity r.notionalUsd := by
  simp only [stateful, Finset.forall_mem_insert, Finset.mem_singleton, forall_eq]
  constructor
  · rintro ⟨hloss, hquantity, hnotional, hrejects, hexecutions, hdaily⟩
    exact ⟨⟨passes_loss_iff.mp hloss, (passes_iff (by decide) (by decide)).mp hrejects,
      (passes_iff (by decide) (by decide)).mp hexecutions⟩, (passes_iff (by decide) (by decide)).mp hquantity,
      (passes_iff (by decide) (by decide)).mp hnotional, (passes_iff (by decide) (by decide)).mp hdaily⟩
  · rintro ⟨⟨hloss, hrejects, hexecutions⟩, hquantity, hnotional, hdaily⟩
    exact ⟨passes_loss_iff.mpr hloss, (passes_iff (by decide) (by decide)).mpr hquantity,
      (passes_iff (by decide) (by decide)).mpr hnotional, (passes_iff (by decide) (by decide)).mpr hrejects,
      (passes_iff (by decide) (by decide)).mpr hexecutions, (passes_iff (by decide) (by decide)).mpr hdaily⟩

theorem accepted_iff (hday : e.today now = .ok e.counters.tradingDay) : decision files e now r = .ok accepted ↔
    Stateless files e now r ∧ Untripped e now ∧ Within e r.quantity r.notionalUsd := by
  rw [decision_eq_accepted_iff_passes hday, PreTradeRiskEngine.rollTo_of_eq rfl, ← forall_stateful_iff]
  constructor
  · exact fun h => ⟨fun id _ => h id, fun id _ => h id⟩
  · rintro ⟨hstateless, hstateful⟩ id
    by_cases hid : id ∈ stateful
    · exact hstateful id hid
    · exact hstateless id hid

theorem runs_congr (hlimits : f.limits = e.limits) (hduplicates : f.duplicateWindow = e.duplicateWindow) :
    ∀ c ∈ controlSequence (F := F), c.id ∉ stateful → runs f c = runs e c := by
  simp only [controlSequence, List.forall_mem_cons, List.not_mem_nil, false_implies, implies_true, and_true,
    Control.reading, runs, hlimits, hduplicates]
  simp [stateful]

theorem satisfied_congr {id : ControlId} (hid : id ∉ stateful) (hlimits : f.limits = e.limits)
    (hrate : f.rateWindow = e.rateWindow) (hduplicates : f.duplicateWindow = e.duplicateWindow) :
    Satisfied files f now r id ↔ Satisfied files e now r id := by
  cases id <;> first
    | exact absurd (by decide) hid
    | simp only [Satisfied, killSwitchEngaged, hlimits, hrate, hduplicates]

theorem stateless_congr (hlimits : f.limits = e.limits) (hrate : f.rateWindow = e.rateWindow)
    (hduplicates : f.duplicateWindow = e.duplicateWindow) :
    Stateless files f now r ↔ Stateless files e now r := by
  refine forall₂_congr fun id hid => forall₂_congr fun c hc => forall_congr' fun hcid => ?_
  rw [runs_congr hlimits hduplicates c hc (hcid ▸ hid), satisfied_congr hid hlimits hrate hduplicates]

theorem accepted_imp_iff (hbefore : e.today now = .ok e.counters.tradingDay)
    (hafter : f.today now = .ok f.counters.tradingDay) (hsame : ∀ r, Stateless files f now r ↔ Stateless files e now r) :
    (∀ r, InRange r → decision files f now r = .ok accepted → decision files e now r = .ok accepted) ↔
      NoLooser files e f now := by
  simp only [accepted_iff hbefore, accepted_iff hafter]
  constructor
  · rintro h huntripped _ ⟨r, hr, hstateless, rfl⟩ hwithin
    exact (h r hr ⟨hstateless, huntripped, hwithin⟩).2
  · rintro h r hr ⟨hstateless, huntripped, hwithin⟩
    exact ⟨(hsame r).mp hstateless, h huntripped _ ⟨r, hr, hstateless, rfl⟩ hwithin⟩

end Loads

section Decisions

variable {limits : RiskLimits Float64} {isLive : Bool} {today₀ day : String} {keys : Finset Key} {s t : StateStore}
  {c : Counters Float64} {o : Overrides Float64} {n now : ℤ} {files : Files} {r : OrderRequest Float64}
  {id : ControlId}

end Decisions

open FailOpen (lossEngine lossLimits new_lossEngine plainOrder record_amount recorded)

/-- The snapshot of a loss of 15, over the limit of 10. -/
def lossStore : StateStore := setMany empty (recorded [.ofRat (-15)]).counters.snapshot

end PretradeRisk.Damage
