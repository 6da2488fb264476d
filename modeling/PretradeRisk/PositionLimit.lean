import PretradeRisk.Admission
import PretradeRisk.Session

namespace PretradeRisk.PositionLimit

open Admission Decision Engine Evaluate Host Limits Orders Run Session

section Containment

variable {α : Type} [Field α] [LinearOrder α] [IsStrictOrderedRing α] {cap p q r projected : α}

/-- From `p` to `q` the position has not left the cap, not moved further
outside it, and not come out of it on the other side. -/
structure Contained (cap p q : α) : Prop where
  inside : |p| ≤ cap → |q| ≤ cap
  outside : cap < |p| → |q| ≤ |p|
  long : 0 < p → -cap ≤ q
  short : p < 0 → q ≤ cap

theorem Contained.refl (hcap : 0 < cap) (p : α) : Contained cap p p where
  inside := id
  outside _ := le_rfl
  long hp := (neg_neg_of_pos hcap).le.trans hp.le
  short hp := hp.le.trans hcap.le

theorem Contained.trans (h : Contained cap p q) (k : Contained cap q r) : Contained cap p r where
  inside hp := k.inside (h.inside hp)
  outside hp := by
    rcases le_or_gt |q| cap with hq | hq
    · exact (k.inside hq).trans hp.le
    · exact (k.outside hq).trans (h.outside hp)
  long hp := by
    have hq := h.long hp
    rcases le_or_gt q cap with hle | hlt
    · exact (abs_le.mp (k.inside (abs_le.mpr ⟨hq, hle⟩))).1
    · rcases lt_or_ge 0 q with hpos | hneg
      · exact k.long hpos
      · exact (abs_le.mp (k.inside (abs_le.mpr ⟨hq, hneg.trans (by linarith)⟩))).1
  short hp := by
    have hq := h.short hp
    rcases le_or_gt (-cap) q with hle | hlt
    · exact (abs_le.mp (k.inside (abs_le.mpr ⟨hle, hq⟩))).2
    · rcases lt_or_ge q 0 with hneg | hpos
      · exact k.short hneg
      · exact (abs_le.mp (k.inside (abs_le.mpr ⟨(by linarith), hq⟩))).2

theorem abs_le_of_between {bound : α} (hq : min p projected ≤ q ∧ q ≤ max p projected) (hp : |p| ≤ bound)
    (hprojected : |projected| ≤ bound) : |q| ≤ bound := by
  have hlo := le_min (abs_le.mp hp).1 (abs_le.mp hprojected).1
  have hhi := max_le (abs_le.mp hp).2 (abs_le.mp hprojected).2
  exact abs_le.mpr ⟨hlo.trans hq.1, hq.2.trans hhi⟩

theorem contained_of_between (hcap : 0 < cap) (hq : min p projected ≤ q ∧ q ≤ max p projected)
    (h : |projected| ≤ cap ∨ |projected| < |p| ∧ 0 ≤ p * projected) : Contained cap p q where
  inside hp := abs_le_of_between hq hp (h.elim id fun hreduces => hreduces.1.le.trans hp)
  outside hp := abs_le_of_between hq le_rfl (h.elim (fun hle => hle.trans hp.le) fun hreduces => hreduces.1.le)
  long hp := by
    refine (le_min (by linarith) ?_).trans hq.1
    rcases h with hle | ⟨-, hkeeps⟩
    · exact (abs_le.mp hle).1
    · have hprojected : 0 ≤ projected := (mul_nonneg_iff_of_pos_left hp).mp hkeeps
      linarith
  short hp := by
    refine hq.2.trans (max_le (by linarith) ?_)
    rcases h with hle | ⟨-, hkeeps⟩
    · exact (abs_le.mp hle).2
    · have hprojected : projected ≤ 0 := by
        by_contra hpos
        exact absurd (mul_neg_of_neg_of_pos hp (not_le.mp hpos)) (not_lt.mpr hkeeps)
      linarith

end Containment

theorem signedMultiplier_eq (side : Side) : side.signedMultiplier = (1 : ℚ) ∧ side.isSell = false ∨
    side.signedMultiplier = (-1 : ℚ) ∧ side.isSell = true := by
  cases side <;> simp [Side.signedMultiplier, Side.isSell]

variable {cap p q : ℚ} {r : OrderRequest ℚ}

def Opposes (r : OrderRequest ℚ) : Prop :=
  0 < r.positionQuantity ∧ r.side.isSell = true ∨ r.positionQuantity < 0 ∧ r.side.isSell = false

instance (r : OrderRequest ℚ) : Decidable (Opposes r) := inferInstanceAs (Decidable (_ ∨ _))

theorem fill_between {amount : ℚ} (hnonneg : 0 ≤ amount) (hle : amount ≤ r.quantity) :
    min r.positionQuantity r.projectedPosition ≤ r.positionQuantity + r.side.signedMultiplier * amount ∧
      r.positionQuantity + r.side.signedMultiplier * amount ≤ max r.positionQuantity r.projectedPosition := by
  rw [OrderRequest.projectedPosition]
  rcases signedMultiplier_eq r.side with ⟨hside, -⟩ | ⟨hside, -⟩ <;> rw [hside]
  · exact ⟨min_le_of_left_le (by linarith), le_max_of_le_right (by linarith)⟩
  · exact ⟨min_le_of_right_le (by linarith), le_max_of_le_left (by linarith)⟩

theorem Opposes.reduces (h : Opposes r) (hquantity : 0 < r.quantity) (hle : r.quantity ≤ |r.positionQuantity|) :
    |r.projectedPosition| < |r.positionQuantity| ∧ 0 ≤ r.positionQuantity * r.projectedPosition := by
  rw [OrderRequest.projectedPosition]
  rcases signedMultiplier_eq r.side with ⟨hside, hbuy⟩ | ⟨hside, hsell⟩
  · obtain ⟨hneg, -⟩ : r.positionQuantity < 0 ∧ r.side.isSell = false := by simpa [Opposes, hbuy] using h
    rw [abs_of_neg hneg] at hle ⊢
    have hprojected : r.positionQuantity + r.side.signedMultiplier * r.quantity ≤ 0 := by rw [hside]; linarith
    rw [abs_of_nonpos hprojected]
    exact ⟨by rw [hside]; linarith, mul_nonneg_of_nonpos_of_nonpos hneg.le hprojected⟩
  · obtain ⟨hpos, -⟩ : 0 < r.positionQuantity ∧ r.side.isSell = true := by simpa [Opposes, hsell] using h
    rw [abs_of_pos hpos] at hle ⊢
    have hprojected : 0 ≤ r.positionQuantity + r.side.signedMultiplier * r.quantity := by rw [hside]; linarith
    rw [abs_of_nonneg hprojected]
    exact ⟨by rw [hside]; linarith, mul_nonneg hpos.le hprojected⟩

section Fills

variable [PyFloat ℚ]

structure Fill where
  request : OrderRequest ℚ
  amount : ℚ

/-- One order against the position of the moment: an order the position limit
passes fills in part or in full, any other leaves the position alone. -/
inductive Fills (limits : RiskLimits ℚ) (p : ℚ) : Fill → ℚ → Prop
  | passed {e : PreTradeRiskEngine ℚ} {r : OrderRequest ℚ} {amount : ℚ} (hlimits : e.limits = limits)
      (hposition : r.positionQuantity = p) (hquantity : 0 < r.quantity) (hpass : checkPositionLimit e r = .ok none)
      (hnonneg : 0 ≤ amount) (hle : amount ≤ r.quantity) :
      Fills limits p ⟨r, amount⟩ (p + r.side.signedMultiplier * amount)
  | unfilled {fill : Fill} : Fills limits p fill p

variable {limits : RiskLimits ℚ} {fill : Fill} {fills : List Fill} {e : PreTradeRiskEngine ℚ}

theorem checkPositionLimit_eq_none (hcap : e.limits.maxPositionQuantity = some cap) :
    checkPositionLimit e r = .ok none ↔ |r.projectedPosition| ≤ cap ∨
      |r.projectedPosition| < |r.positionQuantity| ∧ 0 ≤ r.positionQuantity * r.projectedPosition := by
  simp only [checkPositionLimit, hcap, operand_some, ok_bind, pure_eq_ok, pyAbs_eq_abs, not_lt]
  split
  · simp_all
  · split <;> simp_all

theorem permits_positionLimit_iff {files : Files} {now : ℤ} (hcap : e.limits.maxPositionQuantity = some cap) :
    Permits files e now r .positionLimit ↔ checkPositionLimit e r = .ok none := by
  rw [checkPositionLimit_eq_none hcap, Permits, hcap]
  simp

theorem fills_contained (hcap : limits.maxPositionQuantity = some cap) (hpos : 0 < cap) (h : Fills limits p fill q) :
    Contained cap p q := by
  cases h with
  | passed hlimits hposition _ hpass hnonneg hle =>
      subst hposition
      have hpermits := (checkPositionLimit_eq_none (hlimits ▸ hcap)).mp hpass
      exact contained_of_between hpos (fill_between hnonneg hle) hpermits
  | unfilled => exact .refl hpos _

theorem fills_run_contained (hcap : limits.maxPositionQuantity = some cap) (hpos : 0 < cap)
    (h : Steps (Fills limits) p fills q) : Contained cap p q :=
  h.related (.refl hpos) .trans (fills_contained hcap hpos)

theorem code_ne_of_passes {files : Files} {now : ℤ} {d : RiskDecision ℚ} {f : PreTradeRiskEngine ℚ}
    (hcap : e.limits.maxPositionQuantity = some cap) (hpass : checkPositionLimit e r = .ok none)
    (heval : evaluate files e now r = .ok (d, f)) : d.code ≠ some .maxPositionExceeded := by
  intro hcode
  have hcode : d.code = some (rejectCode .positionLimit) := hcode
  obtain ⟨day, -, hobjects⟩ := not_permits_of_code heval hcode
  exact hobjects ((permits_positionLimit_iff (e := e.rollTo day) hcap).mpr hpass)

/-- The position limit contains the position and never traps it. -/
theorem position_contained (hcap : limits.maxPositionQuantity = some cap)
    (hrunning : limits.isDisabled .positionLimit = false) :
    (∀ p₀ before p₁ after p₂, Steps (Fills limits) p₀ before p₁ → Steps (Fills limits) p₁ after p₂ →
      (|p₁| ≤ cap → |p₂| ≤ cap) ∧ (cap < |p₁| → |p₂| ≤ |p₁|) ∧ (0 < p₀ → -cap ≤ p₂) ∧ (p₀ < 0 → p₂ ≤ cap)) ∧
    (∀ e r files now, e.limits = limits → Accepts files e now r → checkPositionLimit e r = .ok none) ∧
    ∀ e r, e.limits = limits →
      (cap < |r.positionQuantity| ∧ Opposes r ∧ 0 < r.quantity ∧ r.quantity ≤ |r.positionQuantity| ∨
        |r.projectedPosition| ≤ cap) →
      checkPositionLimit e r = .ok none ∧
        ∀ files now d f, evaluate files e now r = .ok (d, f) → d.code ≠ some .maxPositionExceeded := by
  have hpos : 0 < cap := limits.amount_pos "max_position_quantity" (by simp [LimitFields.amounts, hcap])
  refine ⟨fun p₀ before p₁ after p₂ hbefore hafter => ?_, fun e r files now he ha => ?_, fun e r he hr => ?_⟩
  · have hlast := fills_run_contained hcap hpos hafter
    have hwhole := fills_run_contained hcap hpos (hbefore.append hafter)
    exact ⟨hlast.inside, hlast.outside, hwhole.long, hwhole.short⟩
  · subst he
    obtain ⟨day, -, hall⟩ := accepts_iff_admits.mp ha
    exact (permits_positionLimit_iff (e := e.rollTo day) hcap).mp (hall .positionLimit hrunning)
  · subst he
    have hpass : checkPositionLimit e r = .ok none := by
      rw [checkPositionLimit_eq_none hcap]
      rcases hr with ⟨-, hopposes, hquantity, hle⟩ | hwithin
      · exact .inr (hopposes.reduces hquantity hle)
      · exact .inl hwithin
    exact ⟨hpass, fun files now d f => code_ne_of_passes hcap hpass⟩

end Fills

open scoped Decimal

def cappedLimits : RiskLimits ℚ := ⟨{ maxPositionQuantity := some 5 }, by decide +kernel⟩

def sale : OrderRequest ℚ := { OrderRequest.bare "ES" .sell 2 with positionQuantity := 6 }

theorem position_contained_sale :
    ∃ p, Steps (Fills cappedLimits) 6 [⟨sale, 2⟩] p ∧ p = 4 ∧ |p| ≤ |6| := by
  have hcap : cappedLimits.maxPositionQuantity = some 5 := rfl
  have h := position_contained hcap rfl
  obtain ⟨hpass, -⟩ := h.2.2 (.onDay cappedLimits false "2026-07-20") sale rfl (by decide +kernel)
  have hfill : Fills cappedLimits 6 ⟨sale, 2⟩ (6 + sale.side.signedMultiplier * 2) :=
    .passed rfl rfl (by decide +kernel) hpass (by decide +kernel) (by decide +kernel)
  have hrun := Steps.single hfill
  exact ⟨_, hrun, by decide +kernel, (h.1 6 [] 6 _ _ .nil hrun).2.1 (by norm_num)⟩

end PretradeRisk.PositionLimit
