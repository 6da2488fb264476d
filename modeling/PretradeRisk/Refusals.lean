import PretradeRisk.Admission
import PretradeRisk.Rulings

namespace PretradeRisk.Refusals

open Decision Engine Evaluate Host Limits Orders Rulings Verdicts Walk
open Admission (Accepts Rejects rejectCode rejectCode_injective rejectCode_ne_unavailable)

variable {F : Type} [Zero F] [One F] [Neg F] [Add F] [Sub F] [Mul F] [Div F] [IntCast F] [LE F] [LT F]
  [DecidableLE F] [DecidableLT F] [PyFloat F]

def RefusesWith (files : Files) (e : PreTradeRiskEngine F) (now : ℤ) (r : OrderRequest F) (code : RejectCode) : Prop :=
  ∃ d f, evaluate files e now r = .ok (d, f) ∧ d.code = some code

def Passes (files : Files) (e : PreTradeRiskEngine F) (now : ℤ) (r : OrderRequest F) (id : ControlId) : Prop :=
  ∀ c ∈ controlSequence, c.id = id → runs e c = true → Satisfied files e now r id

variable {files : Files} {e : PreTradeRiskEngine F} {now : ℤ} {r : OrderRequest F} {day : String} {b c : Control F}
  {code : RejectCode} {id : ControlId}

theorem evidence_code (e : PreTradeRiskEngine F) (now : ℤ) (r : OrderRequest F) (id : ControlId) :
    (evidence e now r id).1 = rejectCode id ∨ (evidence e now r id).1 = .marketDataUnavailable := by
  cases id with
  | maxOrderNotional => simp only [evidence]; cases r.notionalUsd <;> simp [noData, rejectCode]
  | quoteAge => simp only [evidence]; cases r.quoteAgeMillis <;> simp [noData, rejectCode]
  | priceBand =>
      simp only [evidence]
      cases r.limitPrice with
      | none => exact .inr rfl
      | some price => cases r.bandReferencePrice with
        | none => exact .inr rfl
        | some reference => by_cases hle : reference ≤ 0 <;> simp [hle, noData, rejectCode]
  | executionSlippage =>
      simp only [evidence]
      cases r.decisionPrice <;> cases r.touch <;> simp [noData, rejectCode]
  | grossExposure => simp only [evidence]; cases r.notionalUsd <;> simp [noData, rejectCode]
  | dailyNotionalLimit => simp only [evidence]; cases r.notionalUsd <;> simp [noData, rejectCode]
  | _ => exact .inl rfl

/-- The numbers the first running control to fail reports are within the range
of a float. -/
def Reportable (files : Files) (e : PreTradeRiskEngine F) (now : ℤ) (r : OrderRequest F) (day : String)
    (c : Control F) : Prop :=
  FirstFailing files e now r day c ∧ ∀ n ∈ reported (e.rollTo day) now r c.id, PyFloat.fits F n = true

theorem reject_of_firstFailing (h : FirstFailing files e now r day c) (hday : e.today now = .ok day)
    {d : RiskDecision F} (hd : decision files e now r = .ok d) :
    Reportable files e now r day c ∧ ∃ control message,
      d = .reject (evidence (e.rollTo day) now r c.id).1 control message (evidence (e.rollTo day) now r c.id).2.1
        (evidence (e.rollTo day) now r c.id).2.2 := by
  have hruling := h.ruling
  rw [h.decision hday] at hd
  generalize verdict files (e.rollTo day) now r c = x at hruling hd
  cases hruling with
  | pass hp => exact absurd hp h.not_satisfied
  | reject control message _ hfits =>
      cases hd
      exact ⟨⟨h, hfits⟩, control, message, rfl⟩
  | overflow => cases hd

theorem Reportable.returns (h : Reportable files e now r day c) (hday : e.today now = .ok day) :
    ∃ d, decision files e now r = .ok d := by
  obtain ⟨hc, hfits⟩ := h
  have hruling := hc.ruling
  rw [hc.decision hday]
  generalize verdict files (e.rollTo day) now r c = x at hruling
  cases hruling with
  | pass hp => exact absurd hp hc.not_satisfied
  | reject => exact ⟨_, rfl⟩
  | overflow _ hnot =>
      obtain ⟨n, hn, hnot⟩ := hnot
      rw [hfits n hn] at hnot
      cases hnot

theorem refuses_iff (hday : e.today now = .ok day) :
    Rejects files e now r ↔ ∃ c, Reportable files e now r day c := by
  rw [Rejects, exists_decision_iff]
  constructor
  · rintro ⟨d, hd, haccepted⟩
    rcases decision_cases files r hday with ⟨hacc, -⟩ | ⟨c, hc⟩
    · rw [hd] at hacc
      cases hacc
      cases haccepted
    · exact ⟨c, (reject_of_firstFailing hc hday hd).1⟩
  · rintro ⟨c, hc⟩
    obtain ⟨d, hd⟩ := hc.returns hday
    obtain ⟨-, control, message, rfl⟩ := reject_of_firstFailing hc.1 hday hd
    exact ⟨_, hd, rfl⟩

theorem refusesWith_of_reportable (hc : Reportable files e now r day c) (hday : e.today now = .ok day)
    (hcode : (evidence (e.rollTo day) now r c.id).1 = code) : RefusesWith files e now r code := by
  obtain ⟨d, hd⟩ := hc.returns hday
  obtain ⟨-, control, message, rfl⟩ := reject_of_firstFailing hc.1 hday hd
  exact exists_decision_iff.mpr ⟨_, hd, congrArg some hcode⟩

theorem firstFailing_of_refusesWith (id : ControlId) (hday : e.today now = .ok day)
    (h : RefusesWith files e now r (rejectCode id)) : ∃ c, FirstFailing files e now r day c ∧ c.id = id := by
  obtain ⟨d, hd, hcode⟩ := exists_decision_iff.mp h
  rcases decision_cases files r hday with ⟨hacc, -⟩ | ⟨c, hc⟩
  · rw [hd] at hacc
    cases hacc
    cases hcode
  · obtain ⟨-, control, message, rfl⟩ := reject_of_firstFailing hc hday hd
    have hown : (evidence (e.rollTo day) now r c.id).1 = rejectCode id := Option.some.inj hcode
    rcases evidence_code (e.rollTo day) now r c.id with hev | hev
    · exact ⟨c, hc, rejectCode_injective (hev.symm.trans hown)⟩
    · exact absurd (hown.symm.trans hev) (rejectCode_ne_unavailable id)

theorem eq_of_id (hb : b ∈ controlSequence) (hc : c ∈ controlSequence) (h : b.id = c.id) : b = c :=
  List.inj_on_of_nodup_map controlSequence_nodup hb hc h

theorem not_passes_of_earliest (h : FirstFailing files e now r day c) :
    ¬ Passes files (e.rollTo day) now r c.id :=
  fun hp => h.not_satisfied (hp c h.mem rfl (Earliest.running h))

theorem exists_firstFailing (hday : e.today now = .ok day) (hc : c ∈ controlSequence)
    (hruns : runs (e.rollTo day) c = true) (hnot : ¬ Satisfied files (e.rollTo day) now r c.id) :
    ∃ b, FirstFailing files e now r day b := by
  rcases decision_cases files r hday with ⟨-, hall⟩ | hb
  · exact absurd (hall c hc ((runs_rollTo e day hc).symm.trans hruns)) hnot
  · exact hb

theorem exists_of_not_passes (h : ¬ Passes files e now r id) :
    ∃ c ∈ controlSequence, c.id = id ∧ runs e c = true ∧ ¬ Satisfied files e now r c.id := by
  simp only [Passes, not_forall] at h
  obtain ⟨c, hc, hid, hruns, hnot⟩ := h
  exact ⟨c, hc, hid, hruns, hid ▸ hnot⟩

theorem exists_firstFailing_of_not_passes (hday : e.today now = .ok day)
    (h : ¬ Passes files (e.rollTo day) now r id) : ∃ b, FirstFailing files e now r day b := by
  obtain ⟨c, hc, -, hruns, hnot⟩ := exists_of_not_passes h
  exact exists_firstFailing hday hc hruns hnot

theorem id_of_not_passes_loss (h : FirstFailing files e now r day c)
    (hloss : ¬ Passes files (e.rollTo day) now r .dailyLossLimit) :
    c.id = .killSwitch ∨ c.id = .dailyLossLimit := by
  obtain ⟨before, after, hseq, hruns, hnot, hbefore⟩ := h
  match before with
  | [] => exact .inl (Option.some.inj (congrArg (fun l => l.head?.map Control.id) hseq)).symm
  | [_] => exact .inr (Option.some.inj (congrArg (fun l => l.tail.head?.map Control.id) hseq)).symm
  | _ :: b :: _ =>
      have hb : b.id = .dailyLossLimit := (Option.some.inj (congrArg (fun l => l.tail.head?.map Control.id) hseq)).symm
      refine absurd (fun a ha hid hr => ?_) hloss
      have hmem : b ∈ controlSequence (F := F) := by rw [hseq]; simp
      obtain rfl : a = b := eq_of_id ha hmem (hid.trans hb.symm)
      exact hid ▸ hbefore a (by simp) hr

omit [One F] [Neg F] [Add F] [Sub F] [Mul F] [Div F] [IntCast F] [LT F] [DecidableLT F] in
theorem reported_of_id (h : id = .killSwitch ∨ id = .dailyLossLimit ∨ id = .dailyNotionalLimit) :
    reported e now r id = [] := by
  rcases h with rfl | rfl | rfl <;> rfl

theorem reportable_of_id (hc : FirstFailing files e now r day c)
    (h : c.id = .killSwitch ∨ c.id = .dailyLossLimit ∨ c.id = .dailyNotionalLimit) :
    Reportable files e now r day c := by
  refine ⟨hc, fun n hn => ?_⟩
  rw [reported_of_id h] at hn
  cases hn

theorem isArmed_limits (e : PreTradeRiskEngine F) : ∀ c ∈ controlSequence (F := F),
    (c.id = .killSwitch → c.isArmed e = e.limits.killSwitchPath.isSome) ∧
      (c.id = .dailyLossLimit → c.isArmed e = e.limits.dailyLossLimitUsd.isSome) ∧
      (c.id = .dailyNotionalLimit → c.isArmed e = e.limits.dailyNotionalLimitUsd.isSome) := by
  simp [controlSequence, Control.reading]

/-- The two controls a flag arms compare with nothing that can be missing. -/
theorem satisfied_of_unarmed : ∀ c ∈ controlSequence (F := F), c.isArmed e = false → c.id ≠ .shortSaleLocate →
    c.id ≠ .selfMatchPrevention → Satisfied files e now r c.id := by
  simp only [controlSequence, List.forall_mem_cons, List.not_mem_nil, false_implies, implies_true, and_true,
    Control.reading]
  simp +contextual [Satisfied, killSwitchEngaged, PreTradeRiskEngine.breached, PreTradeRiskEngine.floor]

theorem passes_iff (hlocate : id ≠ .shortSaleLocate) (hmatch : id ≠ .selfMatchPrevention) :
    Passes files e now r id ↔ (e.limits.isDisabled id = false → Satisfied files e now r id) := by
  constructor
  · intro h henabled
    obtain ⟨c, hc, rfl⟩ := exists_control (F := F) id
    cases harmed : c.isArmed e with
    | false => exact satisfied_of_unarmed c hc harmed hlocate hmatch
    | true => exact h c hc rfl (by rw [runs, henabled, harmed]; rfl)
  · intro h c hc hid hruns
    rw [runs, hid, Bool.and_eq_true, Bool.not_eq_true'] at hruns
    exact h hruns.1

theorem passes_loss_iff : Passes files e now r .dailyLossLimit ↔
    (e.limits.isDisabled .dailyLossLimit = false → e.breached now = false) := passes_iff (by decide) (by decide)

theorem passes_killSwitch_iff : Passes files e now r .killSwitch ↔
    (e.limits.isDisabled .killSwitch = false → killSwitchEngaged files e = false) := passes_iff (by decide) (by decide)

theorem decision_eq_accepted_iff_passes (hday : e.today now = .ok day) :
    decision files e now r = .ok accepted ↔ ∀ id, Passes files (e.rollTo day) now r id := by
  rw [decision_eq_accepted_iff hday]
  constructor
  · intro h id c hc hid hruns
    exact hid ▸ h c hc ((runs_rollTo e day hc).symm.trans hruns)
  · intro h c hc hruns
    exact h c.id c hc rfl ((runs_rollTo e day hc).trans hruns)

theorem firstFailing_killSwitch (h : ¬ Passes files (e.rollTo day) now r .killSwitch) :
    ∃ c, FirstFailing files e now r day c ∧ c.id = .killSwitch := by
  obtain ⟨c, hc, hid, hruns, hnot⟩ := exists_of_not_passes h
  have hne : controlSequence (F := F) ≠ [] := nofun
  have hhead : c = controlSequence.head hne := eq_of_id hc (List.head_mem hne) hid
  have hseq : controlSequence = [] ++ c :: controlSequence.tail := by
    rw [hhead, List.nil_append, List.cons_head_tail]
  exact ⟨c, ⟨[], _, hseq, hruns, hnot, fun _ hb => absurd hb List.not_mem_nil⟩, hid⟩

theorem rejected_of_not_passes (id : ControlId) {d : RiskDecision F} {f : PreTradeRiskEngine F}
    (hday : e.today now = .ok day) (h : ¬ Passes files (e.rollTo day) now r id)
    (hd : evaluate files e now r = .ok (d, f)) : d.accepted = false := by
  obtain ⟨c, hc⟩ := exists_firstFailing_of_not_passes hday h
  have hdecision : decision files e now r = .ok d := by rw [decision, hd]; rfl
  obtain ⟨-, control, message, rfl⟩ := reject_of_firstFailing hc hday hdecision
  rfl

theorem passes_of_accepted (id : ControlId) {f : PreTradeRiskEngine F} (hday : e.today now = .ok day)
    {d : RiskDecision F} (h : evaluate files e now r = .ok (d, f)) (hd : d.accepted = true) :
    Passes files (e.rollTo day) now r id := by
  by_contra hnot
  exact Bool.noConfusion (hd.symm.trans (rejected_of_not_passes id hday hnot h))

theorem satisfied_of_accepts (id : ControlId) (h : Accepts files e now r) (henabled : e.limits.isDisabled id = false)
    (hlocate : id ≠ .shortSaleLocate) (hmatch : id ≠ .selfMatchPrevention) :
    ∃ day, e.today now = .ok day ∧ Satisfied files (e.rollTo day) now r id := by
  obtain ⟨f, hf⟩ := h
  obtain ⟨day, hday, -⟩ := Pruning.evaluate_pruned hf
  exact ⟨day, hday, (passes_iff hlocate hmatch).mp (passes_of_accepted id hday hf rfl) henabled⟩

theorem not_satisfied_of_code (id : ControlId) {d : RiskDecision F} {f : PreTradeRiskEngine F}
    (h : evaluate files e now r = .ok (d, f)) (hcode : d.code = some (rejectCode id)) :
    ∃ day, e.today now = .ok day ∧ ¬ Satisfied files (e.rollTo day) now r id := by
  obtain ⟨day, hday, -⟩ := Pruning.evaluate_pruned h
  obtain ⟨c, hc, rfl⟩ := firstFailing_of_refusesWith id hday ⟨d, f, h, hcode⟩
  exact ⟨day, hday, hc.not_satisfied⟩

theorem refusesWith_loss_iff (hday : e.today now = .ok day) : RefusesWith files e now r .lossLimitBreached ↔
    Passes files (e.rollTo day) now r .killSwitch ∧ ¬ Passes files (e.rollTo day) now r .dailyLossLimit := by
  constructor
  · intro h
    obtain ⟨c, hc, hid⟩ := firstFailing_of_refusesWith .dailyLossLimit hday h
    refine ⟨?_, hid ▸ not_passes_of_earliest hc⟩
    by_contra hkill
    obtain ⟨b, hb, hbid⟩ := firstFailing_killSwitch hkill
    rw [Earliest.unique hb hc, hid] at hbid
    cases hbid
  · rintro ⟨hkill, hloss⟩
    obtain ⟨c, hc⟩ := exists_firstFailing_of_not_passes hday hloss
    rcases id_of_not_passes_loss hc hloss with hid | hid
    · exact absurd (hid ▸ hkill) (not_passes_of_earliest hc)
    · exact refusesWith_of_reportable (reportable_of_id hc (.inr (.inl hid))) hday (by rw [hid]; rfl)

end PretradeRisk.Refusals
