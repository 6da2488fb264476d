import PretradeRisk.Admission

namespace PretradeRisk.Tightness

open Admission Decision Engine Evaluate Host Limits Orders

section States

variable {F : Type} [Zero F] [Add F] [Sub F] [IntCast F] [LE F] [LT F] [DecidableLE F] [DecidableLT F] [PyFloat F]

def stateful : Finset ControlId :=
  {.dailyLossLimit, .maxOrderQuantity, .maxOrderNotional, .consecutiveRejects, .repeatedExecution,
    .dailyNotionalLimit}

structure Untripped (e : PreTradeRiskEngine F) (now : ℤ) : Prop where
  lossLimit : e.limits.isDisabled .dailyLossLimit = false → e.breached now = false
  consecutiveRejects : e.limits.isDisabled .consecutiveRejects = false →
    ∀ cap, e.limits.maxConsecutiveRejects = some cap → (e.counters.consecutiveRejects : ℤ) < cap
  repeatedExecution : e.limits.isDisabled .repeatedExecution = false →
    ∀ cap, e.limits.maxExecutionsWithoutReview = some cap → (e.counters.executionsSinceRearm : ℤ) < cap

end States

variable [PyFloat ℚ]

/-- The cap of a control, `⊤` where it is disabled or unarmed. -/
def inForce (e : PreTradeRiskEngine ℚ) (id : ControlId) (cap : Option ℚ) : WithTop ℚ :=
  if e.limits.isDisabled id then ⊤ else cap.elim ⊤ WithTop.some

def quantityCap (e : PreTradeRiskEngine ℚ) : WithTop ℚ :=
  inForce e .maxOrderQuantity e.effectiveMaxOrderQuantity

def notionalRoom (e : PreTradeRiskEngine ℚ) : WithTop ℚ :=
  min (inForce e .maxOrderNotional e.effectiveMaxOrderNotional)
    (inForce e .dailyNotionalLimit (e.limits.dailyNotionalLimitUsd.map (· - e.counters.dailyNotional)))

omit [PyFloat ℚ] in
/-- The notional of an order; one without a price fits under no cap. -/
def notional (r : OrderRequest ℚ) : WithTop ℚ := r.notionalUsd.elim ⊤ WithTop.some

/-- The order passes: the controls that read no state permit it, no throttle
is tripped, and it fits. -/
structure Passes (files : Files) (e : PreTradeRiskEngine ℚ) (now : ℤ) (r : OrderRequest ℚ) : Prop where
  stateless : ∀ id ∉ stateful, e.limits.isDisabled id = false → Permits files e now r id
  untripped : Untripped e now
  quantity : (r.quantity : WithTop ℚ) ≤ quantityCap e
  notional : notional r ≤ notionalRoom e

variable {files : Files} {e f : PreTradeRiskEngine ℚ} {now : ℤ} {r : OrderRequest ℚ} {id : ControlId}

theorem le_inForce_iff {q : WithTop ℚ} {cap : Option ℚ} :
    q ≤ inForce e id cap ↔ (e.limits.isDisabled id = false → ∀ x, cap = some x → q ≤ (x : WithTop ℚ)) := by
  rw [inForce]
  cases e.limits.isDisabled id <;> cases cap <;> simp

omit [PyFloat ℚ] in
theorem notional_le_coe_iff {x : ℚ} :
    notional r ≤ (x : WithTop ℚ) ↔ ∃ notional, r.notionalUsd = some notional ∧ notional ≤ x := by
  rw [notional]
  cases r.notionalUsd <;> simp

theorem isDisabled_of_alwaysOn (h : id ∈ alwaysOn) : e.limits.isDisabled id = false := if_pos h

theorem forall_permits_iff :
    (∀ id, e.limits.isDisabled id = false → Permits files e now r id) ↔ Passes files e now r := by
  -- the sign of the notional is checked in every limit set
  have hsign : e.limits.isDisabled .orderNotional = false := isDisabled_of_alwaysOn (by decide)
  constructor
  · intro h
    refine ⟨fun id _ => h id, ⟨fun hid => permits_dailyLossLimit_iff.mp (h _ hid), h _, h _⟩, ?_, ?_⟩
    · refine le_inForce_iff.mpr fun hid x hx => ?_
      exact WithTop.coe_le_coe.mpr (h _ hid x hx)
    · refine le_min (le_inForce_iff.mpr fun hid x hx => ?_) (le_inForce_iff.mpr fun hid x hx => ?_)
      · exact notional_le_coe_iff.mpr (h _ hid x hx)
      · obtain ⟨cap, hcap, rfl⟩ := Option.map_eq_some_iff.mp hx
        obtain ⟨v, hv, hle⟩ := h _ hid cap hcap
        rw [abs_of_pos (h _ hsign v hv)] at hle
        exact notional_le_coe_iff.mpr ⟨v, hv, le_sub_iff_add_le'.mpr hle⟩
  · rintro ⟨hstateless, ⟨hloss, hrejects, hexecutions⟩, hquantity, hnotional⟩ id hid
    obtain ⟨hcap, hdaily⟩ := le_min_iff.mp hnotional
    by_cases hmem : id ∈ stateful
    · simp only [stateful, Finset.mem_insert, Finset.mem_singleton] at hmem
      rcases hmem with rfl | rfl | rfl | rfl | rfl | rfl
      · exact permits_dailyLossLimit_iff.mpr (hloss hid)
      · exact fun x hx => WithTop.coe_le_coe.mp (le_inForce_iff.mp hquantity hid x hx)
      · exact fun x hx => notional_le_coe_iff.mp (le_inForce_iff.mp hcap hid x hx)
      · exact hrejects hid
      · exact hexecutions hid
      · intro cap hcap
        obtain ⟨v, hv, hle⟩ := notional_le_coe_iff.mp
          (le_inForce_iff.mp hdaily hid _ (Option.map_eq_some_iff.mpr ⟨cap, hcap, rfl⟩))
        have hpos : 0 < v := hstateless .orderNotional (by decide) hsign v hv
        exact ⟨v, hv, by rw [abs_of_pos hpos]; exact le_sub_iff_add_le'.mp hle⟩
    · exact hstateless id hmem hid

theorem accepts_iff_passes : Accepts files e now r ↔
    ∃ day, e.today now = .ok day ∧ Passes files (e.rollTo day) now r := by
  rw [accepts_iff_admits, Admits]
  exact exists_congr fun day => and_congr_right fun _ => forall_permits_iff (e := e.rollTo day)

theorem accepts_iff_passes_today (h : e.today now = .ok e.counters.tradingDay) :
    Accepts files e now r ↔ Passes files e now r := by
  rw [accepts_iff_passes, h]
  simp [PreTradeRiskEngine.rollTo_of_eq]

theorem permits_congr (hid : id ∉ stateful) (hlimits : f.limits = e.limits)
    (hrate : f.rateWindow = e.rateWindow) (hduplicates : f.duplicateWindow = e.duplicateWindow) :
    Permits files f now r id ↔ Permits files e now r id := by
  cases id <;> first
    | exact absurd (by decide) hid
    | simp only [Permits, hlimits, hrate, hduplicates]

omit [PyFloat ℚ] in
/-- Counters at least as tight as others, for one leg: as deep below their
peak, and no lower in anything else that is counted. -/
structure Tighter (isLive : Bool) (c d : Counters ℚ) : Prop where
  drawdown : c.legPnl isLive - c.legPeak isLive ≤ d.legPnl isLive - d.legPeak isLive
  dailyNotional : d.dailyNotional ≤ c.dailyNotional
  consecutiveRejects : d.consecutiveRejects ≤ c.consecutiveRejects
  executionsSinceRearm : d.executionsSinceRearm ≤ c.executionsSinceRearm

variable {isLive : Bool} {c d : Counters ℚ}

omit [PyFloat ℚ] in
theorem Tighter.of_eq (isLive : Bool) (h : c = d) : Tighter isLive c d :=
  h ▸ ⟨le_rfl, le_rfl, le_rfl, le_rfl⟩

omit [PyFloat ℚ] in
theorem Tighter.roll (h : Tighter isLive c d) (hdate : c.tradingDay = d.tradingDay) (day : String) :
    Tighter isLive (c.roll day) (d.roll day) := by
  by_cases hday : day = c.tradingDay
  · rwa [Counters.roll_of_eq hday, Counters.roll_of_eq (hday.trans hdate)]
  · rw [Counters.roll_of_ne hday, Counters.roll_of_ne (hdate ▸ hday)]
    exact ⟨le_rfl, le_rfl, le_rfl, h.executionsSinceRearm⟩

end PretradeRisk.Tightness
