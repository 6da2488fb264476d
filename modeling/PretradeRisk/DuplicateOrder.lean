import PretradeRisk.Refusals
import PretradeRisk.Sending

namespace PretradeRisk.DuplicateOrder

open Admission Decision Engine Evaluate Host Limits Orders Refusals Run Sending Session Store Windows

section Runs

variable {F : Type} [Zero F] [LE F] [DecidableLE F] [PyFloat F]

/-- The window remembers nothing but sends, and of every send it still trails
over, one as late with that fingerprint. -/
structure Suppresses (start : ℤ) (calls : List (Call F)) (d : Desk F) : Prop where
  sound : ∀ w ∈ d.engine.duplicateWindow, ∀ key t, w.seen key = some t →
    ∃ s ∈ sends calls, s.request.fingerprint = key ∧ s.time = t
  complete : ∀ w ∈ d.engine.duplicateWindow, ∀ s ∈ sends calls, ∀ n, Upto Call.now start calls n →
    n - w.windowMillis < s.time → ∃ t, w.seen s.request.fingerprint = some t ∧ s.time ≤ t

variable {start n m millis : ℤ} {calls : List (Call F)} {call : Call F} {d d' d₀ : Desk F} {files : Files}
  {request : OrderRequest F} {w : DuplicateWindow} {s : Sent F}

theorem Suppresses.past (h : Suppresses start calls d) (hn : Upto Call.now start calls n)
    (hw : w ∈ d.engine.duplicateWindow) : w.Past n := by
  intro key t hkey
  obtain ⟨s, hs, -, rfl⟩ := h.sound w hw key t hkey
  exact sends_le hn s hs

theorem Suppresses.sound_prune (h : Suppresses start calls d) (hw : w ∈ d.engine.duplicateWindow) {key : String}
    {t : ℤ} (hkey : (w.prune n).seen key = some t) :
    ∃ s ∈ sends calls, s.request.fingerprint = key ∧ s.time = t :=
  h.sound w hw key t (DuplicateWindow.seen_prune_eq_some.mp hkey).1

theorem Suppresses.complete_prune (h : Suppresses start calls d) (hw : w ∈ d.engine.duplicateWindow)
    (hn : Upto Call.now start calls n) (hm : Upto Call.now start calls m) (hnm : n ≤ m) (hs : s ∈ sends calls)
    (htrail : m - w.windowMillis < s.time) :
    ∃ t, (w.prune n).seen s.request.fingerprint = some t ∧ s.time ≤ t := by
  obtain ⟨t, hseen, hle⟩ := h.complete w hw s hs m hm htrail
  have hpast : t ≤ n := h.past hn hw _ t hseen
  exact ⟨t, DuplicateWindow.seen_prune_eq_some.mpr ⟨hseen, by omega, hpast⟩, hle⟩

theorem Suppresses.record (h : Suppresses start calls d) (hn : Upto Call.now start calls n)
    (hduplicates : d'.engine.duplicateWindow = d.engine.duplicateWindow.map (·.record request.fingerprint n)) :
    Suppresses start (calls ++ [⟨n, .recordOrderSent request⟩]) d' := by
  have hnew : (⟨request, n⟩ : Sent F) ∈ sends calls ++ [⟨request, n⟩] := List.mem_append_right _ (by simp)
  refine ⟨fun w' hw' key t hkey => ?_, fun w' hw' s hs m hm htrail => ?_⟩ <;>
    rw [hduplicates] at hw' <;> obtain ⟨w, hw, rfl⟩ := Option.mem_map.mp hw' <;> rw [sends_snoc_sent] at *
  · by_cases heq : key = request.fingerprint
    · subst heq
      obtain rfl : n = t := by simpa [DuplicateWindow.record] using hkey
      exact ⟨_, hnew, rfl, rfl⟩
    · have hkey : (w.prune n).seen key = some t := by
        simpa [DuplicateWindow.record, Function.update_of_ne heq] using hkey
      obtain ⟨s, hs, hsent⟩ := h.sound_prune hw hkey
      exact ⟨s, List.mem_append_left _ hs, hsent⟩
  · obtain ⟨hm, hnm⟩ := upto_snoc.mp hm
    rcases List.mem_append.mp hs with hs | hs
    · by_cases heq : s.request.fingerprint = request.fingerprint
      · exact ⟨n, by simp [DuplicateWindow.record, heq], sends_le hn s hs⟩
      · obtain ⟨t, hseen, hle⟩ := h.complete_prune hw hn hm hnm hs htrail
        exact ⟨t, by simpa [DuplicateWindow.record, Function.update_of_ne heq] using hseen, hle⟩
    · obtain rfl := List.mem_singleton.mp hs
      exact ⟨n, by simp [DuplicateWindow.record], le_rfl⟩

theorem suppresses_new {limits : RiskLimits F} {isLive : Bool} {e : PreTradeRiskEngine F}
    (h : PreTradeRiskEngine.new limits isLive start = .ok e) (s : StateStore) : Suppresses start [] ⟨e, s⟩ := by
  obtain ⟨today, -, rfl⟩ := new_eq_ok.mp h
  refine ⟨fun w hw key t hkey => ?_, fun w _ s hs => (by cases hs)⟩
  rw [configuredDuplicateWindow_seen limits w hw] at hkey
  cases hkey

variable [One F] [Neg F] [Add F] [Sub F] [Mul F] [Div F] [IntCast F] [LT F] [DecidableLT F]

theorem suppresses_step (h : Suppresses start calls d) (hstep : d.perform call = .ok d')
    (hupto : Upto Call.now start calls call.now) : Suppresses start (calls ++ [call]) d' := by
  obtain ⟨n, op⟩ := call
  cases perform_remembers hstep with
  | sent _ hduplicates => exact h.record hupto hduplicates
  | kept hop _ hduplicates =>
      have hsends : sends (calls ++ [⟨n, op⟩]) = sends calls := sends_snoc_of_ne hop
      rcases hduplicates with hduplicates | hduplicates
      · refine ⟨by rw [hduplicates, hsends]; exact h.sound, fun w hw s hs m hm => ?_⟩
        rw [hduplicates] at hw
        rw [hsends] at hs
        exact h.complete w hw s hs m (upto_snoc.mp hm).1
      · refine ⟨fun w' hw' key t hkey => ?_, fun w' hw' s hs m hm htrail => ?_⟩ <;>
          rw [hduplicates] at hw' <;> obtain ⟨w, hw, rfl⟩ := Option.mem_map.mp hw' <;> rw [hsends] at *
        · exact h.sound_prune hw hkey
        · obtain ⟨hm, hnm⟩ := upto_snoc.mp hm
          exact h.complete_prune hw hupto hm hnm hs htrail

theorem runs_suppresses (h₀ : Suppresses start [] d₀) (hrun : Runs d₀ calls d)
    (horder : Nondecreasing Call.now start calls) : Suppresses start calls d := by
  induction hrun with
  | nil => exact h₀
  | snoc _ hstep ih =>
      obtain ⟨hbefore, hupto⟩ := nondecreasing_snoc.mp horder
      exact suppresses_step (ih hbefore) hstep hupto

theorem Suppresses.add_le_of_accepts (h : Suppresses start calls d) (hn : Upto Call.now start calls n)
    (hmillis : d.engine.limits.duplicateWindowMillis = some millis)
    (hrunning : d.engine.limits.isDisabled .duplicateOrder = false) (ha : Accepts files d.engine n request)
    (hs : s ∈ sends calls) (heq : s.request.fingerprint = request.fingerprint) : s.time + millis ≤ n := by
  obtain ⟨day, -, hsatisfied⟩ := satisfied_of_accepts .duplicateOrder ha hrunning (by decide) (by decide)
  obtain ⟨w, hw, hwidth⟩ := Option.map_eq_some_iff.mp (d.engine.duplicateWindow_configured.trans hmillis)
  by_contra hlt
  obtain ⟨t, hseen, -⟩ := h.complete_prune hw hn hn le_rfl hs (by omega)
  rw [heq] at hseen
  cases (hsatisfied w hw).symm.trans hseen

theorem Suppresses.exists_sent_of_duplicate (h : Suppresses start calls d)
    (hmillis : d.engine.limits.duplicateWindowMillis = some millis) {decision : RiskDecision F}
    {f : PreTradeRiskEngine F} (heval : evaluate files d.engine n request = .ok (decision, f))
    (hcode : decision.code = some .duplicateOrder) :
    ∃ s ∈ sends calls, s.request.fingerprint = request.fingerprint ∧ n - millis < s.time ∧ s.time ≤ n := by
  have hcode : decision.code = some (rejectCode .duplicateOrder) := hcode
  obtain ⟨day, -, hobjects⟩ := not_satisfied_of_code .duplicateOrder heval hcode
  by_contra hnone
  refine hobjects fun w hw => Option.eq_none_iff_forall_ne_some.mpr fun t ht => hnone ?_
  obtain ⟨hseen, hwithin⟩ := DuplicateWindow.seen_prune_eq_some.mp ht
  obtain ⟨s, hs, hkey, rfl⟩ := h.sound w hw _ t hseen
  have hwidth : w.windowMillis = millis := by
    have hconfigured := d.engine.duplicateWindow_configured.trans hmillis
    rw [show d.engine.duplicateWindow = some w from hw] at hconfigured
    exact Option.some.inj hconfigured
  exact ⟨s, hs, hkey, hwidth ▸ hwithin.1, hwithin.2⟩

theorem runs_spaced (h₀ : Suppresses start [] d₀) (hmillis : d₀.engine.limits.duplicateWindowMillis = some millis)
    (hrunning : d₀.engine.limits.isDisabled .duplicateOrder = false) (hrun : Runs d₀ calls d)
    (hsends : SendsAccepted d₀ calls) (horder : Nondecreasing Call.now start calls) :
    (sends calls).Pairwise fun s t => SameOrder s.request t.request → s.time + millis ≤ t.time := by
  induction hrun with
  | nil => exact .nil
  | @snoc calls d call d' hrun hstep ih =>
      obtain ⟨hbefore, hupto⟩ := nondecreasing_snoc.mp horder
      have h := ih hsends.of_append hbefore
      obtain ⟨n, op⟩ := call
      by_cases hop : ∃ request, op = .recordOrderSent request
      · obtain ⟨request, rfl⟩ := hop
        obtain ⟨front, m, files, d₁, rfl, hfront, haccepts⟩ := hsends calls n request [] rfl
        obtain ⟨hfrontorder, hfrontupto⟩ := nondecreasing_snoc.mp hbefore
        have hmn : m ≤ n := (upto_snoc.mp hupto).2
        have hlimits := runs_limits hfront
        rw [sends_snoc_sent, List.pairwise_append]
        refine ⟨h, List.pairwise_singleton _ _, fun s hs t ht hsame => ?_⟩
        obtain rfl := List.mem_singleton.mp ht
        rw [sends_snoc_of_ne (by simp)] at hs
        have hle := (runs_suppresses h₀ hfront hfrontorder).add_le_of_accepts hfrontupto (hlimits ▸ hmillis)
          (hlimits ▸ hrunning) haccepts hs (fingerprint_congr hsame)
        exact hle.trans hmn
      · rw [sends_snoc_of_ne (not_exists.mp hop)]
        exact h

/-- Equal orders are sent at least a window apart, and an order is called a
duplicate only where an equal one was sent within the window. -/
theorem duplicates_suppressed {limits : RiskLimits F} {isLive : Bool} {e₀ : PreTradeRiskEngine F} {s₀ : StateStore}
    {numbers : Set F} (hnew : PreTradeRiskEngine.new limits isLive start = .ok e₀) (hrun : Runs ⟨e₀, s₀⟩ calls d)
    (hsends : SendsAccepted ⟨e₀, s₀⟩ calls) (horder : Nondecreasing Call.now start calls)
    (hmillis : limits.duplicateWindowMillis = some millis) (hrunning : limits.isDisabled .duplicateOrder = false)
    (hspells : Spells numbers) (hnumbers : ∀ s ∈ sends calls, s.request.Within numbers) :
    ((sends calls).Pairwise fun s t => SameOrder s.request t.request → s.time + millis ≤ t.time) ∧
    ∀ files n r decision f, r.Within numbers → evaluate files d.engine n r = .ok (decision, f) →
      decision.code = some .duplicateOrder →
      ∃ s ∈ sends calls, SameOrder s.request r ∧ n - millis < s.time ∧ s.time ≤ n := by
  have h₀ := suppresses_new hnew s₀
  obtain ⟨today, -, rfl⟩ := new_eq_ok.mp hnew
  refine ⟨runs_spaced h₀ hmillis hrunning hrun hsends horder, fun files n r decision f hr heval hcode => ?_⟩
  have hlimits : d.engine.limits = limits := runs_limits hrun
  have h := runs_suppresses h₀ hrun horder
  obtain ⟨s, hs, hkey, hwithin⟩ := h.exists_sent_of_duplicate (hlimits ▸ hmillis) heval hcode
  exact ⟨s, hs, hspells.sameOrder_of_fingerprint (hnumbers s hs) hr hkey, hwithin⟩

end Runs

open scoped Decimal

/-- The same order twice, a second apart, and refused as a duplicate on the way. -/
theorem duplicates_suppressed_again :
    sends busyCalls = [⟨one, noon⟩, ⟨two, noon + 500⟩, ⟨one, noon + 1000⟩] ∧
    (∃ d, Runs busyDesk busyCalls d ∧
      (sends busyCalls).Pairwise fun s t => SameOrder s.request t.request → s.time + 1000 ≤ t.time) ∧
    ∃ d decision f, Runs busyDesk (trade noon one) d ∧
      evaluate (fun _ => false) d.engine (noon + 400) one = .ok (decision, f) ∧
      decision.code = some .duplicateOrder ∧
      ∃ s ∈ sends (trade noon one), SameOrder s.request one ∧ noon + 400 - 1000 < s.time ∧ s.time ≤ noon + 400 := by
  have hspells : Spells (Set.range (Int.cast : ℤ → ℚ)) :=
    spells_of_roundTrips (by rintro _ ⟨n, rfl⟩; exact Decimal.roundTrips_intCast n)
  have hone : one.Within (Set.range (Int.cast : ℤ → ℚ)) := ⟨⟨1, Int.cast_one⟩, fun price hprice => by cases hprice⟩
  have htwo : two.Within (Set.range (Int.cast : ℤ → ℚ)) := ⟨⟨2, rfl⟩, fun price hprice => by cases hprice⟩
  have hsends : sends busyCalls = [⟨one, noon⟩, ⟨two, noon + 500⟩, ⟨one, noon + 1000⟩] := rfl
  have hnumbers : ∀ s ∈ sends busyCalls, s.request.Within (Set.range (Int.cast : ℤ → ℚ)) := by
    rw [hsends]
    simp [hone, htwo]
  refine ⟨hsends, ?_, ?_⟩
  · obtain ⟨d, hrun⟩ := exists_runs_busyCalls
    exact ⟨d, hrun, (duplicates_suppressed new_busyDesk hrun sendsAccepted_busyCalls nondecreasing_busyCalls rfl rfl
      hspells hnumbers).1⟩
  · obtain ⟨d, decision, f, hrun, hf, hcode⟩ :
        ∃ d decision f, Runs busyDesk (trade noon one) d ∧
          evaluate (fun _ => false) d.engine (noon + 400) one = .ok (decision, f) ∧ decision.code = some .duplicateOrder :=
      exists_runs_code (by decide +kernel)
    have hfirst : ∀ s ∈ sends (trade noon one), s.request.Within (Set.range (Int.cast : ℤ → ℚ)) := by
      intro s hs
      obtain rfl := List.mem_singleton.mp (show s ∈ [⟨one, noon⟩] from hs)
      exact hone
    have h := duplicates_suppressed new_busyDesk hrun sendsAccepted_busyCalls.of_append.of_append.of_append.of_append
      nondecreasing_busyCalls.of_append.of_append.of_append.of_append rfl rfl hspells hfirst
    exact ⟨d, decision, f, hrun, hf, hcode, h.2 _ _ _ _ _ hone hf hcode⟩

end PretradeRisk.DuplicateOrder
