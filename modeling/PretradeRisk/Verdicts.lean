import PretradeRisk.Pruning

namespace PretradeRisk.Verdicts

open Decision Engine Evaluate Host Limits Orders Pruning Walk Windows

theorem map_pair_fst {ε α S : Type} (x : Except ε α) (s : S) : (x.map (·, s)).map Prod.fst = x := by
  cases x <;> rfl

variable {F : Type}

/-- A check that rejects under one name only. -/
def Names (control : String) (x : Except PyError (Verdict F)) : Prop :=
  ∀ d, x = .ok (some d) → d.control = control

section names

variable {code : RejectCode} {control message : String} {limit observed : Option F} {P : Prop} [Decidable P]

theorem names_pass : Names control (.ok none : Except PyError (Verdict F)) := by
  rintro d ⟨⟩

theorem names_reject : Names control (.ok (some (.reject code control message limit observed))) := by
  rintro d ⟨⟩
  rfl

theorem names_bind {A : Type} {x : Except PyError A} {k : A → Except PyError (Verdict F)}
    (h : ∀ a, Names control (k a)) : Names control (x >>= k) := by
  intro d hd
  obtain ⟨a, -, hd⟩ := bind_eq_ok.mp hd
  exact h a d hd

theorem names_ite {x y : Except PyError (Verdict F)} (hx : Names control x) (hy : Names control y) :
    Names control (if P then x else y) := by
  split
  · exact hx
  · exact hy

theorem names_compare :
    Names control (if P then .ok none else .ok (some (.reject code control message limit observed))) :=
  names_ite names_pass names_reject

theorem names_capped {A B C : Type} {cap : Except PyError A} {below : A → Prop} [DecidablePred below]
    {x : A → Except PyError B} {y : A → B → Except PyError C} {code : A → B → C → RejectCode}
    {message : A → B → C → String} {limit observed : A → B → C → Option F} :
    Names control (cap >>= fun a => if below a then .ok none else
      x a >>= fun b => y a b >>= fun c =>
        .ok (some (.reject (code a b c) control (message a b c) (limit a b c) (observed a b c)))) :=
  names_bind fun _ => names_ite names_pass (names_bind fun _ => names_bind fun _ => names_reject)

end names

variable [Zero F] [LE F] [DecidableLE F] [PyFloat F]

variable {files : Files} {now : ℤ} {r : OrderRequest F} {e f : PreTradeRiskEngine F}

theorem prune_rateWindow_of_pruned (h : Pruned now e f) : f.rateWindow.prune now = e.rateWindow.prune now := by
  rcases h.rateWindow with hrate | hrate <;> rw [hrate]
  exact e.rateWindow.prune_prune now

theorem prune_duplicateWindow_of_pruned (h : Pruned now e f) :
    f.duplicateWindow.map (·.prune now) = e.duplicateWindow.map (·.prune now) := by
  rcases h.duplicateWindow with hdup | hdup <;> rw [hdup]
  simp [Function.comp_def]

/-- What the checks read of an engine, disabling apart. -/
structure SameReadings (now : ℤ) (e f : PreTradeRiskEngine F) : Prop where
  limits : ∃ disabledControls,
    f.limits.toLimitFields = { e.limits.toLimitFields with disabledControls }
  isLive : f.isLive = e.isLive
  counters : f.counters = e.counters
  overrides : f.overrides = e.overrides
  rateWindow : f.rateWindow.prune now = e.rateWindow.prune now
  duplicateWindow : f.duplicateWindow.map (·.prune now) = e.duplicateWindow.map (·.prune now)

theorem sameReadings_of_pruned (h : Pruned now e f) : SameReadings now e f where
  limits := ⟨e.limits.disabledControls, by rw [h.limits]⟩
  isLive := h.isLive
  counters := h.counters
  overrides := h.overrides
  rateWindow := prune_rateWindow_of_pruned h
  duplicateWindow := prune_duplicateWindow_of_pruned h

variable [IntCast F]

/-- What the duplicate control answers, from its window as the prune leaves
it. -/
def duplicateVerdict (window : Option DuplicateWindow) (span : Option ℤ) (r : OrderRequest F) :
    Except PyError (Verdict F) := do
  let window ← operand window
  if ¬ (window.seen r.fingerprint).isSome then return none
  let span ← operand span
  return some (.reject .duplicateOrder "duplicate order"
    ("an identical order for " ++ r.symbol ++ " was sent within the last " ++ toString span ++ " ms")
    (some (← toFloat F span)))

def rateVerdict (window : RateWindow) (cap : Option ℤ) (span : ℤ) : Except PyError (Verdict F) := do
  let cap ← operand cap
  if (window.events.length : ℤ) < cap then return none
  return some (.reject .orderRateExceeded "order rate"
    (toString window.events.length ++ " orders already sent in the last " ++ toString span
      ++ " ms, at the " ++ toString cap ++ " limit")
    (some (← toFloat F cap)) (some (← toFloat F window.events.length)))

theorem checkDuplicate_eq (e : PreTradeRiskEngine F) (r : OrderRequest F) (now : ℤ) :
    checkDuplicate e r now =
      (duplicateVerdict (e.duplicateWindow.map (·.prune now)) e.limits.duplicateWindowMillis r).map
        (·, e.pruneWindows false true now) := by
  have hlimits : (e.pruneWindows false true now).limits = e.limits := rfl
  rw [checkDuplicate, duplicateVerdict]
  cases e.duplicateWindow with
  | none => rfl
  | some w =>
      simp only [Option.map_some, operand_some, ok_bind, DuplicateWindow.seenWithinWindow, hlimits]
      by_cases hseen : ((w.prune now).seen r.fingerprint).isSome = true
      · rw [if_neg (not_not.mpr hseen), if_neg (not_not.mpr hseen)]
        cases e.limits.duplicateWindowMillis with
        | none => rfl
        | some span =>
            simp only [operand_some, ok_bind]
            cases toFloat F span <;> rfl
      · rw [if_pos hseen, if_pos hseen]; rfl

theorem checkOrderRate_eq (e : PreTradeRiskEngine F) (now : ℤ) :
    checkOrderRate e now =
      (rateVerdict (e.rateWindow.prune now) e.limits.maxOrdersPerWindow e.limits.orderRateWindowMillis).map
        (·, e.pruneWindows true false now) := by
  have hlimits : (e.pruneWindows true false now).limits = e.limits := rfl
  simp only [checkOrderRate, rateVerdict, RateWindow.count, hlimits]
  cases e.limits.maxOrdersPerWindow with
  | none => rfl
  | some cap =>
      simp only [operand_some, ok_bind]
      by_cases hbelow : (((e.rateWindow.prune now).events.length : ℕ) : ℤ) < cap
      · rw [if_pos hbelow, if_pos hbelow]; rfl
      · rw [if_neg hbelow, if_neg hbelow]
        cases toFloat F cap with
        | error x => rfl
        | ok x =>
            simp only [ok_bind]
            cases toFloat F (e.rateWindow.prune now).events.length <;> rfl

theorem checkDuplicate_verdict (e : PreTradeRiskEngine F) (r : OrderRequest F) (now : ℤ) :
    (checkDuplicate e r now).map Prod.fst =
      duplicateVerdict (e.duplicateWindow.map (·.prune now)) e.limits.duplicateWindowMillis r := by
  rw [checkDuplicate_eq, map_pair_fst]

theorem checkOrderRate_verdict (e : PreTradeRiskEngine F) (now : ℤ) :
    (checkOrderRate e now).map Prod.fst =
      rateVerdict (e.rateWindow.prune now) e.limits.maxOrdersPerWindow e.limits.orderRateWindowMillis := by
  rw [checkOrderRate_eq, map_pair_fst]

variable [One F] [Neg F] [Add F] [Sub F] [Mul F] [Div F] [LT F] [DecidableLT F]

def verdict (files : Files) (e : PreTradeRiskEngine F) (now : ℤ) (r : OrderRequest F) (c : Control F) :
    Except PyError (Verdict F) :=
  (c.check files e r now).map Prod.fst

theorem controlSequence_names : ∀ c ∈ controlSequence (F := F), Names c.name (verdict files e now r c) := by
  simp only [controlSequence, List.forall_mem_cons, List.not_mem_nil, false_implies, implies_true,
    and_true, Control.reading, verdict, map_pair_fst, checkDuplicate_verdict, checkOrderRate_verdict]
  refine ⟨names_compare, ?lossLimit, names_bind fun _ => names_compare, names_compare,
    names_bind fun _ => names_compare, names_compare, names_compare, ?price, ?notional,
    names_bind fun _ => names_compare, ?maxNotional, ?quoteAge, ?priceBand, ?slippage, names_capped, names_capped,
    names_capped, names_capped, names_capped, names_capped, ?position, names_compare, ?exposure, ?daily⟩
  case lossLimit => exact names_ite names_pass (names_bind fun _ => names_bind fun _ => names_reject)
  case position => exact names_bind fun _ => names_ite names_pass names_compare
  case price | notional =>
    first | rw [checkPriceSign] | rw [checkNotionalSign]
    split
    · exact names_pass
    · exact names_compare
  case maxNotional | exposure | daily =>
    first | rw [checkMaxNotional] | rw [checkGrossExposure, checkProjected] | rw [checkDailyNotional, checkProjected]
    split
    · exact names_reject
    · exact names_bind fun _ => names_compare
  case quoteAge =>
    rw [checkQuoteAge]
    split
    · exact names_reject
    · exact names_capped
  case priceBand =>
    rw [checkPriceBand]
    split
    · exact names_pass
    · exact names_reject
    · exact names_ite names_reject (names_bind fun _ => names_bind fun _ => names_compare)
  case slippage =>
    rw [checkExecutionSlippage]
    split
    · exact names_bind fun _ => names_compare
    · exact names_reject

/-- The decision of an evaluation, without the engine it leaves. -/
def decision (files : Files) (e : PreTradeRiskEngine F) (now : ℤ) (r : OrderRequest F) :
    Except PyError (RiskDecision F) :=
  (evaluate files e now r).map Prod.fst

theorem exists_decision_iff {P : RiskDecision F → Prop} :
    (∃ d f, evaluate files e now r = .ok (d, f) ∧ P d) ↔ ∃ d, decision files e now r = .ok d ∧ P d := by
  constructor
  · rintro ⟨d, f, h, hd⟩
    exact ⟨d, by rw [decision, h]; rfl, hd⟩
  · rintro ⟨d, h, hd⟩
    obtain ⟨⟨d', f⟩, hev, rfl⟩ := map_eq_ok.mp h
    exact ⟨d', f, hev, hd⟩

theorem exists_decision_of_any {p : RiskDecision F → Bool} (h : (decision files e now r).toOption.any p = true) :
    ∃ d f, evaluate files e now r = .ok (d, f) ∧ p d = true := by
  exact exists_decision_iff.mpr (exists_ok_of_any h)

theorem isArmed_congr
    (hlimits : ∃ disabledControls, f.limits.toLimitFields = { e.limits.toLimitFields with disabledControls })
    (hoverrides : f.overrides = e.overrides) (hdup : f.duplicateWindow.isSome = e.duplicateWindow.isSome) :
    ∀ c ∈ controlSequence (F := F), c.isArmed f = c.isArmed e := by
  obtain ⟨disabledControls, hlimits⟩ := hlimits
  simp [controlSequence, Control.reading, PreTradeRiskEngine.effectiveMaxOrderQuantity,
    PreTradeRiskEngine.effectiveMaxOrderNotional, hlimits, hoverrides, hdup]

theorem isArmed_of_sameReadings (h : SameReadings now e f) :
    ∀ c ∈ controlSequence (F := F), c.isArmed f = c.isArmed e :=
  isArmed_congr h.limits h.overrides (by simpa using congrArg Option.isSome h.duplicateWindow)

theorem isArmed_rollTo (e : PreTradeRiskEngine F) (day : String) :
    ∀ c ∈ controlSequence (F := F), c.isArmed (e.rollTo day) = c.isArmed e :=
  isArmed_congr ⟨e.limits.disabledControls, rfl⟩ rfl rfl

theorem runs_rollTo (e : PreTradeRiskEngine F) (day : String) {c : Control F} (hc : c ∈ controlSequence) :
    runs (e.rollTo day) c = runs e c := by
  rw [runs, runs, isArmed_rollTo e day c hc]; rfl

theorem verdict_congr (h : SameReadings now e f) :
    ∀ c ∈ controlSequence (F := F), verdict files f now r c = verdict files e now r c := by
  obtain ⟨⟨disabledControls, hlimits⟩, hleg, hcounters, hoverrides, hrate, hdup⟩ := h
  obtain ⟨⟨fields, _⟩, isLive, counters, rate, duplicates, overrides, _, _⟩ := e
  obtain ⟨⟨fields', _⟩, isLive', counters', rate', duplicates', overrides', _, _⟩ := f
  obtain rfl : isLive' = isLive := hleg
  obtain rfl : counters' = counters := hcounters
  obtain rfl : overrides' = overrides := hoverrides
  obtain rfl : fields' = { fields with disabledControls } := hlimits
  simp only [controlSequence, List.forall_mem_cons, List.not_mem_nil, false_implies, implies_true,
    and_true, true_and, Control.reading, verdict, map_pair_fst, checkDuplicate_verdict, checkOrderRate_verdict]
  refine ⟨rfl, rfl, rfl, rfl, rfl, rfl, rfl, rfl, rfl, rfl, ?_, ?_, rfl, rfl, rfl, rfl, rfl, rfl, rfl⟩
  · exact congrArg (fun window => duplicateVerdict window fields.duplicateWindowMillis r) hdup
  · exact congrArg (fun window => rateVerdict window fields.maxOrdersPerWindow fields.orderRateWindowMillis) hrate

theorem controlSequence_steady (files : Files) (now : ℤ) (r : OrderRequest F) (e : PreTradeRiskEngine F) :
    Steady runs (fun c e => c.check files e r now) (Pruned now e) e controlSequence where
  runs_eq c hc f hf := by rw [runs, runs, isArmed_of_sameReadings (sameReadings_of_pruned hf) c hc, hf.limits]
  verdict_eq c hc _ hf := verdict_congr (sameReadings_of_pruned hf) c hc
  keeps c hc f o g hf hcheck := hf.trans (controlSequence_pruned c hc f o g hcheck)

def runningSequence (e : PreTradeRiskEngine F) : List (Control F) := controlSequence.filter (runs e)

/-- The decision is the first objection among the verdicts of the running
controls, on the counters of the day. -/
theorem decision_of_today {day : String} (hday : e.today now = .ok day) :
    decision files e now r =
      (firstVerdict ((runningSequence (e.rollTo day)).map (verdict files (e.rollTo day) now r))).map
        (·.getD accepted) := by
  have hwalk := firstObjection_eq_firstVerdict (controlSequence_steady files now r (e.rollTo day)) (.refl now _)
  rw [decision, evaluate, PreTradeRiskEngine.rollTradingDay, hday, runningSequence]
  refine Eq.trans ?_ (congrArg (Except.map (·.getD accepted)) hwalk)
  simp only [ok_bind, pure_eq_ok]
  cases firstObjection runs (fun c e => c.check files e r now) controlSequence (e.rollTo day) <;> rfl

theorem decision_of_not_today {x : PyError} (h : e.today now = .error x) : decision files e now r = .error x := by
  rw [decision, evaluate, PreTradeRiskEngine.rollTradingDay, h]; rfl

end PretradeRisk.Verdicts
