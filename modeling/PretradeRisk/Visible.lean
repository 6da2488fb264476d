import PretradeRisk.Restart

namespace PretradeRisk.Visible

open Clock Controls Encoding Engine Host Session Snapshot Store

/-- Counters that agree but for the P&L and the peak of the legs out of
sight. -/
structure SameFor (visible : Bool → Prop) (c c' : Counters ℚ) : Prop where
  tradingDay : c'.tradingDay = c.tradingDay
  pnl : ∀ leg, visible leg → c'.legPnl leg = c.legPnl leg
  peak : ∀ leg, visible leg → c'.legPeak leg = c.legPeak leg
  dailyNotional : c'.dailyNotional = c.dailyNotional
  consecutiveRejects : c'.consecutiveRejects = c.consecutiveRejects
  executionsSinceRearm : c'.executionsSinceRearm = c.executionsSinceRearm

variable {visible : Bool → Prop} {c c' c'' : Counters ℚ} {event : CounterEvent ℚ} {rollMillis k n m : ℤ}
  {day day' : String}

theorem SameFor.refl (c : Counters ℚ) : SameFor visible c c :=
  ⟨rfl, fun _ _ => rfl, fun _ _ => rfl, rfl, rfl, rfl⟩

theorem SameFor.symm (h : SameFor visible c c') : SameFor visible c' c where
  tradingDay := h.tradingDay.symm
  pnl leg hleg := (h.pnl leg hleg).symm
  peak leg hleg := (h.peak leg hleg).symm
  dailyNotional := h.dailyNotional.symm
  consecutiveRejects := h.consecutiveRejects.symm
  executionsSinceRearm := h.executionsSinceRearm.symm

theorem SameFor.trans (h : SameFor visible c c') (k : SameFor visible c' c'') : SameFor visible c c'' where
  tradingDay := k.tradingDay.trans h.tradingDay
  pnl leg hleg := (k.pnl leg hleg).trans (h.pnl leg hleg)
  peak leg hleg := (k.peak leg hleg).trans (h.peak leg hleg)
  dailyNotional := k.dailyNotional.trans h.dailyNotional
  consecutiveRejects := k.consecutiveRejects.trans h.consecutiveRejects
  executionsSinceRearm := k.executionsSinceRearm.trans h.executionsSinceRearm

theorem SameFor.roll (h : SameFor visible c c') (day : String) : SameFor visible (c.roll day) (c'.roll day) := by
  by_cases hday : day = c.tradingDay
  · rwa [Counters.roll_of_eq hday, Counters.roll_of_eq (hday.trans h.tradingDay.symm)]
  · rw [Counters.roll_of_ne hday, Counters.roll_of_ne (h.tradingDay ▸ hday), h.executionsSinceRearm]
    exact .refl _

theorem legPnl_apply (c : Counters ℚ) (pnlUsd : ℚ) (leg leg' : Bool) :
    (CounterEvent.apply (.realizedPnl pnlUsd leg) c).legPnl leg' =
      if leg = leg' then c.legPnl leg' + pnlUsd else c.legPnl leg' := by
  cases leg <;> cases leg' <;> rfl

theorem legPeak_apply (c : Counters ℚ) (pnlUsd : ℚ) (leg leg' : Bool) :
    (CounterEvent.apply (.realizedPnl pnlUsd leg) c).legPeak leg' =
      if leg = leg' then pyMax (c.legPeak leg') (c.legPnl leg' + pnlUsd) else c.legPeak leg' := by
  cases leg <;> cases leg' <;> rfl

theorem SameFor.apply (h : SameFor visible c c') (event : CounterEvent ℚ) :
    SameFor visible (event.apply c) (event.apply c') := by
  cases event with
  | realizedPnl pnlUsd leg =>
      refine ⟨?_, fun leg' hleg => ?_, fun leg' hleg => ?_, ?_, ?_, ?_⟩
      · simpa using h.tradingDay
      · rw [legPnl_apply, legPnl_apply, h.pnl leg' hleg]
      · rw [legPeak_apply, legPeak_apply, h.pnl leg' hleg, h.peak leg' hleg]
      all_goals cases leg
      exacts [h.dailyNotional, h.dailyNotional, h.consecutiveRejects, h.consecutiveRejects,
        h.executionsSinceRearm, h.executionsSinceRearm]
  | notional amount => exact { h with dailyNotional := congrArg (· + amount) h.dailyNotional }
  | orderRejected => exact { h with consecutiveRejects := congrArg (· + 1) h.consecutiveRejects }
  | orderAccepted => exact { h with consecutiveRejects := rfl }
  | execution => exact { h with executionsSinceRearm := congrArg (· + 1) h.executionsSinceRearm }
  | rearm => exact { h with consecutiveRejects := rfl, executionsSinceRearm := rfl }

theorem sameFor_apply_hidden {leg : Bool} (hleg : ¬ visible leg) (c : Counters ℚ) (pnlUsd : ℚ) :
    SameFor visible c (CounterEvent.apply (.realizedPnl pnlUsd leg) c) := by
  have hne {leg' : Bool} (hleg' : visible leg') : leg ≠ leg' := fun heq => hleg (heq ▸ hleg')
  refine ⟨by simp, fun leg' hleg' => ?_, fun leg' hleg' => ?_, ?_, ?_, ?_⟩
  · rw [legPnl_apply, if_neg (hne hleg')]
  · rw [legPeak_apply, if_neg (hne hleg')]
  all_goals cases leg <;> rfl

theorem roll_roll_of_dated (hk : tradingDay k rollMillis = .ok c.tradingDay) (hn : tradingDay n rollMillis = .ok day)
    (hm : tradingDay m rollMillis = .ok day') (hkn : k ≤ n) (hnm : n ≤ m) : (c.roll day).roll day' = c.roll day' := by
  by_cases hdays : day' = day
  · rw [hdays, Counters.roll_roll]
  · have hne : day' ≠ c.tradingDay := fun heq => hdays (tradingDay_between hk hn (heq ▸ hm) hkn hnm ▸ heq)
    have hrolled : day' ≠ (c.roll day).tradingDay := by rwa [Counters.roll_tradingDay]
    rw [Counters.roll_of_ne hrolled, Counters.roll_of_ne hne, Counters.roll_executionsSinceRearm]

/-- A reset leaves no P&L and no peak. -/
def zeroed (c : Counters ℚ) : Counters ℚ :=
  { c with livePnl := 0, simulatedPnl := 0, livePeak := 0, simulatedPeak := 0 }

theorem SameFor.zeroed (h : SameFor visible c c') : SameFor visible (zeroed c) (zeroed c') where
  tradingDay := h.tradingDay
  pnl leg _ := by cases leg <;> rfl
  peak leg _ := by cases leg <;> rfl
  dailyNotional := h.dailyNotional
  consecutiveRejects := h.consecutiveRejects
  executionsSinceRearm := h.executionsSinceRearm

section Stored

variable [PyFloat ℚ] {s t : StateStore}

/-- The counters as a load on their day reads them back. -/
def reread (c : Counters ℚ) : Counters ℚ := repaired (asRead (setMany empty c.snapshot) c.tradingDay)

theorem asRead_of_snapshot (h : Mirrors s c) : (asRead s c.tradingDay : Counters ℚ) =
    { tradingDay := c.tradingDay
      livePnl := decodeOrZero (some (encodeFloat c.livePnl))
      simulatedPnl := decodeOrZero (some (encodeFloat c.simulatedPnl))
      livePeak := decodeOrZero (some (encodeFloat c.livePeak))
      simulatedPeak := decodeOrZero (some (encodeFloat c.simulatedPeak))
      dailyNotional := decodeOrZero (some (encodeFloat c.dailyNotional))
      consecutiveRejects := asCount ℚ (some (encodeFloat ((c.consecutiveRejects : ℤ) : ℚ)))
      executionsSinceRearm := asCount ℚ (some (encodeFloat ((c.executionsSinceRearm : ℤ) : ℚ))) } := by
  obtain ⟨-, h₂, h₃, h₄, h₅, h₆, h₇, h₈⟩ := mirrors_iff.mp h
  simp only [asRead, h₂, h₃, h₄, h₅, h₆, h₇, h₈]

theorem SameFor.reread (h : SameFor visible c c') : SameFor visible (reread c) (reread c') := by
  rw [Visible.reread, Visible.reread, asRead_of_snapshot (mirrors_setMany _ c),
    asRead_of_snapshot (mirrors_setMany _ c')]
  refine ⟨h.tradingDay, fun leg hleg => ?_, fun leg hleg => ?_, ?_, ?_, ?_⟩
  · have hpnl := h.pnl leg hleg
    cases leg <;> exact congrArg (fun x => decodeOrZero (some (encodeFloat x))) hpnl
  · have hpnl := h.pnl leg hleg
    have hpeak := h.peak leg hleg
    cases leg <;> exact congrArg₂ (fun x y => pyMax (pyMax 0 (decodeOrZero (some (encodeFloat x))))
      (decodeOrZero (some (encodeFloat y)))) hpnl hpeak
  · exact congrArg (fun x => decodeOrZero (some (encodeFloat x))) h.dailyNotional
  · exact congrArg (fun k : ℕ => asCount ℚ (some (encodeFloat ((k : ℤ) : ℚ)))) h.consecutiveRejects
  · exact congrArg (fun k : ℕ => asCount ℚ (some (encodeFloat ((k : ℤ) : ℚ)))) h.executionsSinceRearm

theorem adopt_reset (hzero : RoundTrips (0 : ℚ)) (s : StateStore) (day : String) :
    (Counters.fresh day : Counters ℚ).adopt (setMany s (resetDailyLossLimit ℚ)) day =
      zeroed ((Counters.fresh day).adopt s day) := by
  have hlegs (leg : Bool) := adopt_reset_legs hzero s day day leg
  obtain ⟨hnotional, hrejects, hexecutions⟩ := adopt_reset_rest (F := ℚ) s day day
  exact Counters.ext rfl (hlegs true).1 (hlegs false).1 (hlegs true).2 (hlegs false).2 hnotional hrejects hexecutions

variable [ExactFloat]

theorem asCount_zero (hzero : RoundTrips (0 : ℚ)) : asCount ℚ (some (encodeFloat (((0 : ℕ) : ℤ) : ℚ))) = 0 :=
  asCount_of_roundTrips (by simpa using hzero)

theorem reread_dayStart (hzero : RoundTrips (0 : ℚ)) (day : String) (k : ℕ) :
    reread (Counters.dayStart day k) =
      Counters.dayStart day (asCount ℚ (some (encodeFloat ((k : ℤ) : ℚ)))) := by
  have hdecode : decodeOrZero (some (encodeFloat (0 : ℚ))) = (0 : ℚ) := decodeOrZero_of_roundTrips hzero
  rw [reread, asRead_of_snapshot (mirrors_setMany _ _)]
  simp only [Counters.dayStart, repaired, hdecode, asCount_zero hzero, pyMax_eq_max, max_self]

theorem adopt_of_snapshot (hzero : RoundTrips (0 : ℚ)) (h : Mirrors s c) (day : String) :
    (Counters.fresh day : Counters ℚ).adopt s day = reread (c.roll day) := by
  by_cases hday : day = c.tradingDay
  · have hdate : s .tradingDay = some day := (mirrors_iff.mp h).1.trans (congrArg some hday.symm)
    rw [adopt_of_date _ hdate, Counters.roll_of_eq hday, reread, hday, asRead_of_snapshot h,
      asRead_of_snapshot (mirrors_setMany _ c)]
  · have hdate : s .tradingDay ≠ some day := fun heq =>
      hday (Option.some.inj ((mirrors_iff.mp h).1.symm.trans heq)).symm
    rw [adopt_of_date_ne _ hdate, Counters.roll_of_ne hday, reread_dayStart hzero,
      (mirrors_iff.mp h).2.2.2.2.2.2.2]
    rfl

end Stored

end PretradeRisk.Visible
