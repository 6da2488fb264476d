import PretradeRisk.Evaluate

namespace PretradeRisk.Pruning

open Decision Engine Evaluate Host Orders Walk Windows

variable {F : Type} [Zero F] [LE F] [DecidableLE F] [PyFloat F]

structure Pruned (now : ℤ) (e f : PreTradeRiskEngine F) : Prop where
  limits : f.limits = e.limits
  isLive : f.isLive = e.isLive
  counters : f.counters = e.counters
  overrides : f.overrides = e.overrides
  rateWindow : f.rateWindow = e.rateWindow ∨ f.rateWindow = e.rateWindow.prune now
  duplicateWindow : f.duplicateWindow = e.duplicateWindow ∨
    f.duplicateWindow = e.duplicateWindow.map (·.prune now)

variable {files : Files} {now : ℤ} {r : OrderRequest F} {e f g : PreTradeRiskEngine F} {o : Verdict F}

theorem Pruned.refl (now : ℤ) (e : PreTradeRiskEngine F) : Pruned now e e :=
  ⟨rfl, rfl, rfl, rfl, .inl rfl, .inl rfl⟩

theorem Pruned.trans (h : Pruned now e f) (k : Pruned now f g) : Pruned now e g where
  limits := k.limits.trans h.limits
  isLive := k.isLive.trans h.isLive
  counters := k.counters.trans h.counters
  overrides := k.overrides.trans h.overrides
  rateWindow := by
    rcases h.rateWindow with h | h <;> rcases k.rateWindow with k | k <;> rw [k, h] <;> simp
  duplicateWindow := by
    rcases h.duplicateWindow with h | h <;> rcases k.duplicateWindow with k | k <;> rw [k, h] <;>
      simp [Function.comp_def]

theorem pruned_pruneWindows (e : PreTradeRiskEngine F) (rate duplicates : Bool) (now : ℤ) :
    Pruned now e (e.pruneWindows rate duplicates now) where
  limits := rfl
  isLive := rfl
  counters := rfl
  overrides := rfl
  rateWindow := by cases rate <;> simp [PreTradeRiskEngine.pruneWindows]
  duplicateWindow := by cases duplicates <;> simp [PreTradeRiskEngine.pruneWindows]

theorem reading_eq_ok {x : Except PyError (Verdict F)} (h : x.map (·, e) = .ok (o, f)) : f = e := by
  obtain ⟨_, -, h⟩ := map_eq_ok.mp h
  cases h; rfl

variable [IntCast F]

theorem checkDuplicate_pruned (h : checkDuplicate e r now = .ok (o, f)) : Pruned now e f := by
  rw [checkDuplicate, bind_eq_ok] at h
  obtain ⟨window, -, h⟩ := h
  dsimp only at h
  split at h
  · cases h
    exact pruned_pruneWindows e false true now
  · simp only [bind_eq_ok, pure_eq_ok] at h
    obtain ⟨_, -, _, -, h⟩ := h
    cases h
    exact pruned_pruneWindows e false true now

theorem checkOrderRate_pruned (h : checkOrderRate e now = .ok (o, f)) : Pruned now e f := by
  rw [checkOrderRate] at h
  dsimp only at h
  rw [bind_eq_ok] at h
  obtain ⟨cap, -, h⟩ := h
  split at h
  · cases h
    exact pruned_pruneWindows e true false now
  · simp only [bind_eq_ok, pure_eq_ok] at h
    obtain ⟨_, -, _, -, h⟩ := h
    cases h
    exact pruned_pruneWindows e true false now

variable [One F] [Neg F] [Add F] [Sub F] [Mul F] [Div F] [LT F] [DecidableLT F]

theorem controlSequence_pruned : ∀ c ∈ controlSequence (F := F), ∀ e o f,
    c.check files e r now = .ok (o, f) → Pruned now e f := by
  have hreading (e : PreTradeRiskEngine F) (o : Verdict F) (f : PreTradeRiskEngine F)
      (x : Except PyError (Verdict F)) (h : x.map (·, e) = .ok (o, f)) : Pruned now e f :=
    reading_eq_ok h ▸ .refl now e
  simp only [controlSequence, List.forall_mem_cons, List.not_mem_nil, false_implies, implies_true,
    and_true, Control.reading]
  refine ⟨?_, ?_, ?_, ?_, ?_, ?_, ?_, ?_, ?_, ?_, ?_, ?_, ?_, ?_, fun e o f => checkDuplicate_pruned,
    fun e o f => checkOrderRate_pruned, ?_, ?_, ?_, ?_, ?_, ?_, ?_, ?_⟩ <;>
    exact fun e o f h => hreading e o f _ h

theorem evaluate_pruned {d : RiskDecision F} (h : evaluate files e now r = .ok (d, f)) :
    ∃ day, e.today now = .ok day ∧ Pruned now (e.rollTo day) f := by
  simp only [evaluate, PreTradeRiskEngine.rollTradingDay, bind_eq_ok, pure_eq_ok] at h
  obtain ⟨_, ⟨day, hday, heq⟩, ⟨o, g⟩, hwalk, h⟩ := h
  cases heq
  cases h
  refine ⟨day, hday, ?_⟩
  exact firstObjection_preserves (P := Pruned now (e.rollTo day))
    (fun c hc s o t hs hcheck => hs.trans (controlSequence_pruned c hc s o t hcheck)) (.refl now _) hwalk

end PretradeRisk.Pruning
