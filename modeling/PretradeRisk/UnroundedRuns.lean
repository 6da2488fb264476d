import PretradeRisk.Crashes
import PretradeRisk.Lifecycle
import PretradeRisk.Unrounded

namespace PretradeRisk.UnroundedRuns

open Clock Controls Encoding Engine Evaluate Host Ieee Limits Orders Run Session Store Unrounded Verdicts
open Float64 (ofRat)

variable {q : ℚ}

theorem ofRat_round (h : |Binary64.round q| < 2 ^ 1024) : ofRat (Binary64.round q) = ofRat q := by
  rw [Float64.ofRat_of_representable (representable_round h), ofRat, dif_pos h]

theorem isfinite_ofRat (q : ℚ) : PyFloat.isfinite (ofRat q) = decide (|Binary64.round q| < 2 ^ 1024) := by
  rw [ofRat]
  split <;> simp [PyFloat.isfinite, *]

theorem isfinite_ofRat_round (h : ¬ |Binary64.round q| < 2 ^ 1024) :
    PyFloat.isfinite (ofRat (Binary64.round q)) = false := by
  have hbound : ¬ |Binary64.round q| < 2 ^ 1024 - 2 ^ 970 := fun hlt => h (hlt.trans (sub_lt_self _ (by positivity)))
  rw [isfinite_ofRat, decide_eq_false_iff_not, abs_round_lt_iff]
  exact hbound

theorem encodeFloat_doubled (q : ℚ) : encodeFloat (ofRat q) = encodeFloat q := rfl

theorem finite_doubled (q : ℚ) :
    (if PyFloat.isfinite (ofRat q) = true then some (ofRat q) else none) =
        (if PyFloat.isfinite (ofRat (Binary64.round q)) = true then some (Binary64.round q) else none).map ofRat ∧
      ∀ x ∈ (if PyFloat.isfinite (ofRat (Binary64.round q)) = true then some (Binary64.round q) else none),
        Representable x := by
  by_cases hfinite : |Binary64.round q| < 2 ^ 1024
  · rw [ofRat_round hfinite, isfinite_ofRat, decide_eq_true hfinite, if_pos rfl, if_pos rfl]
    refine ⟨congrArg some (ofRat_round hfinite).symm, fun x hx => ?_⟩
    cases hx
    exact representable_round hfinite
  · rw [isfinite_ofRat_round hfinite, isfinite_ofRat, decide_eq_false hfinite]
    exact ⟨rfl, fun x hx => by cases hx⟩

theorem decodeFloat_doubled (raw : Option String) :
    (decodeFloat raw : Option Float64) = (decodeFloat raw : Option ℚ).map ofRat ∧
      ∀ x ∈ (decodeFloat raw : Option ℚ), Representable x := by
  cases raw with
  | none => exact ⟨rfl, fun x hx => by cases hx⟩
  | some raw =>
      rw [decodeFloat, decodeFloat]
      by_cases hnumber : matchesNumber raw = true
      · rw [if_pos hnumber, if_pos hnumber]
        exact finite_doubled (Numerals.read raw.toList)
      · rw [if_neg hnumber, if_neg hnumber]
        exact ⟨rfl, fun x hx => by cases hx⟩

theorem decodeOrZero_doubled (raw : Option String) :
    (decodeOrZero raw : Float64) = ofRat (decodeOrZero raw) ∧ Representable (decodeOrZero raw : ℚ) := by
  obtain ⟨heq, hrep⟩ := decodeFloat_doubled raw
  rw [decodeOrZero, decodeOrZero, heq]
  cases hx : (decodeFloat raw : Option ℚ) with
  | none => exact ⟨Float64.zero_eq_ofRat, representable_zero⟩
  | some x => exact ⟨rfl, hrep x hx⟩

theorem decodePositiveFloat_doubled (raw : Option String) :
    (decodePositiveFloat raw : Option Float64) = (decodePositiveFloat raw : Option ℚ).map ofRat ∧
      ∀ x ∈ (decodePositiveFloat raw : Option ℚ), Representable x := by
  obtain ⟨heq, hrep⟩ := decodeFloat_doubled raw
  rw [decodePositiveFloat, decodePositiveFloat, heq]
  cases hx : (decodeFloat raw : Option ℚ) with
  | none => exact ⟨rfl, fun x hx => by cases hx⟩
  | some x =>
      have hx := hrep x hx
      simp only [Option.map_some, Float64.ofRat_le_zero_iff hx]
      by_cases hpos : x ≤ 0
      · rw [if_pos hpos, if_pos hpos]
        exact ⟨rfl, fun x hx => by cases hx⟩
      · rw [if_neg hpos, if_neg hpos]
        exact ⟨rfl, fun y hy => by cases hy; exact hx⟩

theorem asCount_doubled (raw : Option String) : asCount Float64 raw = asCount ℚ raw := by
  obtain ⟨heq, hrep⟩ := decodeFloat_doubled raw
  rw [asCount, asCount, heq]
  cases hx : (decodeFloat raw : Option ℚ) with
  | none => rfl
  | some x =>
      have hx := hrep x hx
      simp only [Option.map_some, Float64.ofRat_of_representable hx]
      rfl

variable {c : Counters ℚ} {event : CounterEvent ℚ}

def doubleEvent : CounterEvent ℚ → CounterEvent Float64
  | .realizedPnl pnlUsd isLive => .realizedPnl (ofRat pnlUsd) isLive
  | .notional notionalUsd => .notional (ofRat notionalUsd)
  | .orderRejected => .orderRejected
  | .orderAccepted => .orderAccepted
  | .execution => .execution
  | .rearm => .rearm

def ExactEvent : CounterEvent ℚ → Prop
  | .realizedPnl pnlUsd _ => Representable pnlUsd
  | .notional notionalUsd => Representable notionalUsd
  | _ => True

theorem exactCounters_dayStart (today : String) (executions : ℕ) :
    ExactCounters (Counters.dayStart today executions : Counters ℚ) :=
  ⟨fun leg => by cases leg <;> exact representable_zero, fun leg => by cases leg <;> exact representable_zero,
    representable_zero⟩

theorem exactCounters_roll (h : ExactCounters c) (day : String) : ExactCounters (c.roll day) := by
  by_cases hday : day = c.tradingDay
  · rwa [Counters.roll_of_eq hday]
  · rw [Counters.roll_of_ne hday]
    exact exactCounters_dayStart day _

theorem apply_doubled (h : ExactCounters c) (hevent : ExactEvent event) (hafter : ExactCounters (event.apply c)) :
    (doubleEvent event).apply (doubleCounters c) = doubleCounters (event.apply c) := by
  cases event with
  | realizedPnl pnlUsd isLive =>
      have hsum := hafter.pnl isLive
      have hadd := Float64.ofRat_add (h.pnl isLive) hevent
      have hpeak := h.peak isLive
      cases isLive with
      | false =>
          have hmax : pyMax (ofRat c.simulatedPeak) (ofRat (c.simulatedPnl + pnlUsd)) = _ := ofRat_pyMax hpeak hsum
          have hadd : ofRat c.simulatedPnl + ofRat pnlUsd = ofRat (c.simulatedPnl + pnlUsd) := hadd
          simp only [doubleEvent, doubleCounters, CounterEvent.apply, hadd, hmax]
      | true =>
          have hmax : pyMax (ofRat c.livePeak) (ofRat (c.livePnl + pnlUsd)) = _ := ofRat_pyMax hpeak hsum
          have hadd : ofRat c.livePnl + ofRat pnlUsd = ofRat (c.livePnl + pnlUsd) := hadd
          simp only [doubleEvent, doubleCounters, CounterEvent.apply, hadd, hmax]
  | notional notionalUsd =>
      simp only [doubleEvent, doubleCounters, CounterEvent.apply, Float64.ofRat_add h.dailyNotional hevent]
  | orderRejected => rfl
  | orderAccepted => rfl
  | execution => rfl
  | rearm => rfl

theorem snapshot_doubled (c : Counters ℚ) : (doubleCounters c).snapshot = c.snapshot := by
  have hcount (n : ℤ) : encodeFloat (n : Float64) = encodeFloat (n : ℚ) := encodeFloat_doubled n
  simp only [Counters.snapshot, doubleCounters, encodeFloat_doubled, hcount]

theorem adopt_doubled (c : Counters ℚ) (raw : StateStore) (day : String) :
    (doubleCounters c).adopt raw day = doubleCounters (c.adopt raw day) := by
  have hmax (pnl peak : Option String) :
      pyMax (pyMax 0 (ofRat (decodeOrZero pnl))) (ofRat (decodeOrZero peak)) =
        ofRat (pyMax (pyMax 0 (decodeOrZero pnl)) (decodeOrZero peak)) := by
    have hpnl : Representable (decodeOrZero pnl) := (decodeOrZero_doubled pnl).2
    rw [Float64.zero_eq_ofRat, ofRat_pyMax representable_zero hpnl,
      ofRat_pyMax (representable_pyMax representable_zero hpnl) (decodeOrZero_doubled peak).2]
  by_cases hday : raw .tradingDay = some day
  · simp only [Counters.adopt, hday, if_true, hmax, doubleCounters, asCount_doubled, (decodeOrZero_doubled _).1]
  · simp only [Counters.adopt, hday, if_false, doubleCounters, asCount_doubled]

theorem exactCounters_adopt (h : ExactCounters c) (raw : StateStore) (day : String) : ExactCounters (c.adopt raw day) := by
  have hdecode (raw : Option String) : Representable (decodeOrZero raw : ℚ) := (decodeOrZero_doubled raw).2
  have hmax (pnl peak : Option String) : Representable (pyMax (pyMax 0 (decodeOrZero pnl)) (decodeOrZero peak) : ℚ) :=
    representable_pyMax (representable_pyMax representable_zero (hdecode pnl)) (hdecode peak)
  by_cases hday : raw .tradingDay = some day
  · simp only [Counters.adopt, hday, if_true]
    exact ⟨fun leg => by cases leg <;> exact hdecode _, fun leg => by cases leg <;> exact hmax _ _, hdecode _⟩
  · simp only [Counters.adopt, hday, if_false]
    exact ⟨h.pnl, h.peak, h.dailyNotional⟩

theorem decode_doubled (raw : StateStore) :
    (Overrides.decode raw : Overrides Float64) = doubleOverrides (Overrides.decode raw) := by
  simp only [Overrides.decode, doubleOverrides, (decodeFloat_doubled _).1, (decodePositiveFloat_doubled _).1]

theorem exactOverrides_decode (raw : StateStore) : ExactOverrides (Overrides.decode raw) :=
  ⟨(decodeFloat_doubled _).2, (decodePositiveFloat_doubled _).2, (decodePositiveFloat_doubled _).2⟩

def doubleCall : OverrideCall ℚ → OverrideCall Float64
  | .bypassLossLimit durationMillis actor reason => .bypassLossLimit durationMillis actor reason
  | .clearLossLimitBypass actor => .clearLossLimitBypass actor
  | .setRuntimeMaxOrderNotional value => .setRuntimeMaxOrderNotional (value.map ofRat)
  | .setRuntimeMaxOrderQuantity value => .setRuntimeMaxOrderQuantity (value.map ofRat)

def ExactCall : OverrideCall ℚ → Prop
  | .setRuntimeMaxOrderNotional value | .setRuntimeMaxOrderQuantity value => ∀ x ∈ value, Representable x
  | _ => True

theorem encodeOverride_doubled {value : Option ℚ} (h : ∀ x ∈ value, Representable x) :
    encodeOverride (value.map ofRat) = encodeOverride value := by
  cases value with
  | none => rfl
  | some x =>
      have hle := Float64.ofRat_le_zero_iff (h x rfl)
      simp only [Option.map_some, encodeOverride, hle]
      rfl

theorem bypassLossLimit_doubled (durationMillis : ℤ) (actor reason : String) (n : ℤ) :
    Controls.bypassLossLimit Float64 durationMillis actor reason n =
      Controls.bypassLossLimit ℚ durationMillis actor reason n := by
  simp only [Controls.bypassLossLimit, toFloat_doubled]
  cases toFloat ℚ (n + durationMillis) with
  | error y => rfl
  | ok expiresAt => cases toFloat ℚ n <;> rfl

theorem clearLossLimitBypass_doubled (actor : String) (n : ℤ) :
    Controls.clearLossLimitBypass Float64 actor n = Controls.clearLossLimitBypass ℚ actor n := by
  rw [Controls.clearLossLimitBypass, Controls.clearLossLimitBypass, toFloat_doubled]
  cases toFloat ℚ n <;> rfl

theorem entries_doubled {call : OverrideCall ℚ} (h : ExactCall call) (n : ℤ) :
    (doubleCall call).entries n = call.entries n := by
  cases call with
  | bypassLossLimit durationMillis actor reason =>
      exact congrArg (Except.map Prod.fst) (bypassLossLimit_doubled durationMillis actor reason n)
  | clearLossLimitBypass actor => exact clearLossLimitBypass_doubled actor n
  | setRuntimeMaxOrderNotional value =>
      simp only [doubleCall, OverrideCall.entries, setRuntimeMaxOrderNotional, encodeOverride_doubled h]
  | setRuntimeMaxOrderQuantity value =>
      simp only [doubleCall, OverrideCall.entries, setRuntimeMaxOrderQuantity, encodeOverride_doubled h]

theorem requirePositive_doubled {message : String} {repr : ℚ → String} {repr' : Float64 → String}
    (hrepr : ∀ x, repr' (ofRat x) = repr x) {fields : List (String × Option ℚ)}
    (h : ∀ name x, (name, some x) ∈ fields → Representable x) :
    requirePositive message repr' (fields.map (Prod.map id (Option.map ofRat))) = requirePositive message repr fields := by
  induction fields with
  | nil => rfl
  | cons field fields ih =>
      have htail := ih fun name x hx => h name x (List.mem_cons_of_mem _ hx)
      obtain ⟨name, _ | x⟩ := field
      · exact htail
      · have hle := Float64.ofRat_le_zero_iff (h name x List.mem_cons_self)
        simp only [List.map_cons, Prod.map_apply, id_eq, Option.map_some, requirePositive, hle, hrepr, htail]

theorem postInit_doubled {l : LimitFields ℚ} (h : ExactLimits l) : (doubleLimits l).postInit = l.postInit := by
  have hamounts : (doubleLimits l).amounts = l.amounts.map (Prod.map id (Option.map ofRat)) := rfl
  have hcounts : (doubleLimits l).counts = l.counts := rfl
  rw [LimitFields.postInit, LimitFields.postInit, hamounts, hcounts, requirePositive_doubled (fun _ => rfl) h]
  rfl

def doubleRiskLimits (limits : RiskLimits ℚ) (h : ExactLimits limits.toLimitFields) : RiskLimits Float64 :=
  ⟨doubleLimits limits.toLimitFields, (postInit_doubled h).trans limits.admitted⟩

inductive Act
  | report (event : CounterEvent ℚ)
  | recordOrderSent (request : OrderRequest ℚ)
  | evaluate (files : Files) (request : OrderRequest ℚ)
  | read
  | persist
  | refreshOverrides
  | control (call : OverrideCall ℚ)
  | restart (built : ℤ)

structure Turn where
  now : ℤ
  act : Act

def Turn.exact (turn : Turn) : Lifecycle.Turn ℚ where
  now := turn.now
  act := match turn.act with
    | .report event => .call (.report event)
    | .recordOrderSent request => .call (.recordOrderSent request)
    | .evaluate files request => .call (.evaluate files request)
    | .read => .call .read
    | .persist => .call .persist
    | .refreshOverrides => .call .refreshOverrides
    | .control call => .call (.control call)
    | .restart built => .restart built

def Turn.double (turn : Turn) : Crashes.Turn where
  now := turn.now
  act := match turn.act with
    | .report event => .report (doubleEvent event) true
    | .recordOrderSent request => .recordOrderSent (doubleRequest request)
    | .evaluate files request => .evaluate files (doubleRequest request)
    | .read => .read
    | .persist => .persist true
    | .refreshOverrides => .refreshOverrides
    | .control call => .control (doubleCall call)
    | .restart built => .restart built true

/-- No number of an order, and none computed of it, has to be rounded. -/
structure ExactOrder (e : PreTradeRiskEngine ℚ) (now : ℤ) (r : OrderRequest ℚ) : Prop where
  now : Representable now
  request : ExactRequest r
  results : ExactResults e.limits.toLimitFields e.isLive e.counters r

/-- Nothing is rounded in a turn, whose desk it leaves. -/
def ExactTurn (turn : Turn) (d' : Desk ℚ) : Prop :=
  match turn.act with
  | .report event => ExactEvent event ∧ ExactCounters d'.engine.counters
  | .evaluate _ request => ExactOrder d'.engine turn.now request
  | .control call => ExactCall call
  | _ => True

abbrev ExactLives (d : Desk ℚ) (turns : List Turn) (d' : Desk ℚ) : Prop :=
  Steps (fun d turn d' => Lifecycle.Desk.turn d turn.exact = .ok d' ∧ ExactTurn turn d') d turns d'

structure Mirrored (d : Desk ℚ) (p : Crashes.Process) : Prop where
  engine : Doubled d.engine p.engine
  store : p.store = d.store
  limits : ExactLimits d.engine.limits.toLimitFields
  counters : ExactCounters d.engine.counters
  overrides : ExactOverrides d.engine.overrides

variable {d d' : Desk ℚ} {p : Crashes.Process} {turn : Turn} {turns : List Turn} {n : ℤ} {day : String}
  {limits : RiskLimits ℚ} {limits' : RiskLimits Float64}

theorem onDay_doubled (h : limits'.toLimitFields = doubleLimits limits.toLimitFields) (isLive : Bool) (day : String) :
    Doubled (.onDay limits isLive day) (.onDay limits' isLive day) where
  limits := h
  isLive := rfl
  counters := by
    simp only [PreTradeRiskEngine.onDay, Counters.fresh, Counters.dayStart, doubleCounters, Float64.zero_eq_ofRat]
  rateWindow := by
    have hspan : limits'.orderRateWindowMillis = limits.orderRateWindowMillis := by rw [h]; rfl
    simp only [PreTradeRiskEngine.onDay, hspan]
  duplicateWindow := by
    have hspan : limits'.duplicateWindowMillis = limits.duplicateWindowMillis := by rw [h]; rfl
    have hwindows : (configuredDuplicateWindow limits').map Windows.DuplicateWindow.windowMillis =
        (configuredDuplicateWindow limits).map Windows.DuplicateWindow.windowMillis := by
      rw [configuredDuplicateWindow_windowMillis, configuredDuplicateWindow_windowMillis, hspan]
    exact Windows.DuplicateWindow.eq_of_unseen (configuredDuplicateWindow_seen limits')
      (configuredDuplicateWindow_seen limits) hwindows
  overrides := rfl

theorem exactOverrides_none : ExactOverrides Overrides.none where
  bypassExpiresAt _ hx := by cases hx
  runtimeMaxOrderNotional _ hx := by cases hx
  runtimeMaxOrderQuantity _ hx := by cases hx

theorem mirrored_onDay (h : limits'.toLimitFields = doubleLimits limits.toLimitFields)
    (hlimits : ExactLimits limits.toLimitFields) (isLive : Bool) (day : String) (s : StateStore) :
    Mirrored ⟨.onDay limits isLive day, s⟩ ⟨.onDay limits' isLive day, s⟩ where
  engine := onDay_doubled h isLive day
  store := rfl
  limits := hlimits
  counters := exactCounters_dayStart day 0
  overrides := exactOverrides_none

theorem Mirrored.persist (h : Mirrored d p) : p.engine.persist p.store = d.engine.persist d.store := by
  rw [PreTradeRiskEngine.persist, PreTradeRiskEngine.persist, PreTradeRiskEngine.snapshot, PreTradeRiskEngine.snapshot,
    h.engine.counters, snapshot_doubled, h.store]

theorem Mirrored.withCounters (h : Mirrored d p) {c : Counters ℚ} (hc : ExactCounters c) :
    Mirrored ⟨d.engine.withCounters c, d.store⟩ ⟨p.engine.withCounters (doubleCounters c), p.store⟩ where
  engine := h.engine.withCounters c
  store := h.store
  limits := h.limits
  counters := hc
  overrides := h.overrides

theorem Mirrored.persisted (h : Mirrored d p) :
    Mirrored ⟨d.engine, d.engine.persist d.store⟩ ⟨p.engine, p.engine.persist p.store⟩ where
  engine := h.engine
  store := h.persist
  limits := h.limits
  counters := h.counters
  overrides := h.overrides

theorem Mirrored.rollTo (h : Mirrored d p) (day : String) :
    Mirrored ⟨d.engine.rollTo day, d.store⟩ ⟨p.engine.rollTo day, p.store⟩ where
  engine := h.engine.rollTo day
  store := h.store
  limits := h.limits
  counters := exactCounters_roll h.counters day
  overrides := h.overrides

theorem Mirrored.reported (h : Mirrored d p) (hevent : ExactEvent event)
    (hafter : ExactCounters (event.apply (d.engine.counters.roll day))) : Mirrored (d.reported event day)
      ⟨p.engine.withCounters ((doubleEvent event).apply (p.engine.counters.roll day)),
        (p.engine.withCounters ((doubleEvent event).apply (p.engine.counters.roll day))).persist p.store⟩ := by
  have happly : (doubleEvent event).apply (p.engine.counters.roll day) =
      doubleCounters (event.apply (d.engine.counters.roll day)) := by
    rw [h.engine.counters, roll_doubled]
    exact apply_doubled (exactCounters_roll h.counters day) hevent hafter
  rw [happly]
  exact (h.withCounters hafter).persisted

theorem Mirrored.loaded (h : Mirrored d p) (day : String) : Mirrored (d.loaded day)
    ⟨p.engine.withCounters (p.engine.counters.adopt (getMany p.store counterKeys) day),
      (p.engine.withCounters (p.engine.counters.adopt (getMany p.store counterKeys) day)).persist p.store⟩ := by
  have hadopt : p.engine.counters.adopt (getMany p.store counterKeys) day =
      doubleCounters (d.engine.counters.adopt (getMany d.store counterKeys) day) := by
    rw [h.engine.counters, adopt_doubled, h.store]
  rw [hadopt]
  exact (h.withCounters (exactCounters_adopt h.counters (getMany d.store counterKeys) day)).persisted

theorem Mirrored.exact (h : Mirrored d p) {r : OrderRequest ℚ} (hr : ExactOrder (d.engine.rollTo day) n r) :
    Exact d.engine.limits.toLimitFields d.engine.isLive (d.engine.counters.roll day) d.engine.overrides n r where
  limits := h.limits
  counters := exactCounters_roll h.counters day
  overrides := h.overrides
  now := hr.now
  request := hr.request
  results := hr.results

theorem Mirrored.evaluated (h : Mirrored d p) {files : Files} {r : OrderRequest ℚ} {decision : Decision.RiskDecision ℚ}
    {f : PreTradeRiskEngine ℚ} (hf : evaluate files d.engine n r = .ok (decision, f)) (hr : ExactOrder f n r) :
    ∃ g, evaluate files p.engine n (doubleRequest r) = .ok (doubleDecision decision, g) ∧
      Mirrored ⟨f, d.store⟩ ⟨g, p.store⟩ := by
  obtain ⟨day, hday, hpruned⟩ := Pruning.evaluate_pruned hf
  have hresults := hr.results
  rw [hpruned.limits, hpruned.isLive, hpruned.counters] at hresults
  rcases evaluate_doubled files h.engine hday (h.exact ⟨hr.now, hr.request, hresults⟩) with
    ⟨decision', f', g, he, hx, hfg⟩ | ⟨y, he, -⟩
  · cases he.symm.trans hf
    refine ⟨g, hx, ?_⟩
    exact {
      engine := hfg
      store := h.store
      limits := hpruned.limits ▸ h.limits
      counters := hpruned.counters ▸ exactCounters_roll h.counters day
      overrides := hpruned.overrides ▸ h.overrides }
  · cases he.symm.trans hf

theorem Mirrored.restarted (h : Mirrored d p) {built : ℤ} {day₀ : String} (hbuilt : d.engine.today built = .ok day₀)
    (hday : d.engine.today n = .ok day) : ∃ p', p.perform ⟨n, .restart built true⟩ = .ok p' ∧
      Mirrored (Desk.loaded ⟨.onDay d.engine.limits d.engine.isLive day₀, d.store⟩ day) p' := by
  have hfresh : Mirrored ⟨.onDay d.engine.limits d.engine.isLive day₀, d.store⟩
      ⟨.onDay p.engine.limits p.engine.isLive day₀, p.store⟩ := by
    rw [h.engine.isLive, h.store]
    exact mirrored_onDay h.engine.limits h.limits d.engine.isLive day₀ d.store
  have hnew : PreTradeRiskEngine.new p.engine.limits p.engine.isLive built =
      .ok (.onDay p.engine.limits p.engine.isLive day₀) := new_eq_ok.mpr ⟨_, (h.engine.today built).trans hbuilt, rfl⟩
  have hday' : (PreTradeRiskEngine.onDay p.engine.limits p.engine.isLive day₀).today n = .ok day :=
    (hfresh.engine.today n).trans hday
  refine ⟨_, ?_, hfresh.loaded day⟩
  simp only [Crashes.Process.perform, hnew, ok_bind, PreTradeRiskEngine.load_of_today hday', pure_eq_ok]
  rfl

theorem turn_mirrored (h : Mirrored d p) (hturn : Lifecycle.Desk.turn d turn.exact = .ok d') (hexact : ExactTurn turn d') :
    ∃ p', p.perform turn.double = .ok p' ∧ Mirrored d' p' := by
  obtain ⟨n, act⟩ := turn
  have htoday {day : String} (hday : d.engine.today n = .ok day) : p.engine.today n = .ok day :=
    (h.engine.today n).trans hday
  cases act with
  | report event =>
      obtain ⟨day, hday, rfl⟩ := perform_report_eq_ok.mp hturn
      refine ⟨_, ?_, h.reported hexact.1 hexact.2⟩
      simp only [Crashes.Process.perform, Turn.double, PreTradeRiskEngine.record, PreTradeRiskEngine.rollTradingDay,
        htoday hday, ok_bind, pure_eq_ok]
      rfl
  | recordOrderSent request =>
      cases hturn
      refine ⟨_, rfl, { h with engine := { h.engine with rateWindow := ?_, duplicateWindow := ?_ } }⟩
      · simp only [PreTradeRiskEngine.recordOrderSent, h.engine.rateWindow, Turn.exact, Turn.double]
      · simp only [PreTradeRiskEngine.recordOrderSent, h.engine.duplicateWindow, fingerprint_doubled, Turn.exact,
          Turn.double]
  | evaluate files request =>
      obtain ⟨decision, f, hf, rfl⟩ := perform_evaluate_eq_ok.mp hturn
      obtain ⟨g, hg, hmirrored⟩ := h.evaluated hf hexact
      refine ⟨⟨g, p.store⟩, ?_, hmirrored⟩
      have hg : evaluate files p.engine n (doubleRequest request) = .ok (doubleDecision decision, g) := hg
      simp only [Crashes.Process.perform, Turn.double, hg, ok_bind, pure_eq_ok]
  | read =>
      obtain ⟨day, hday, rfl⟩ := perform_read_eq_ok.mp hturn
      refine ⟨_, ?_, h.rollTo day⟩
      simp only [Crashes.Process.perform, Turn.double, PreTradeRiskEngine.rollTradingDay, htoday hday, ok_bind, pure_eq_ok]
  | persist =>
      cases hturn
      exact ⟨_, rfl, h.persisted⟩
  | refreshOverrides =>
      cases hturn
      refine ⟨_, rfl, { h with engine := { h.engine with overrides := ?_ }, overrides := exactOverrides_decode _ }⟩
      exact (congrArg (fun s => Overrides.decode (getMany s refreshKeys)) h.store).trans (decode_doubled _)
  | control call =>
      obtain ⟨entries, hentries, rfl⟩ := perform_control_eq_ok.mp hturn
      have hentries : call.entries n = .ok entries := hentries
      refine ⟨⟨p.engine, setMany p.store entries⟩, ?_, { h with store := congrArg (setMany · entries) h.store }⟩
      simp only [Crashes.Process.perform, Turn.double, entries_doubled hexact, hentries, ok_bind, pure_eq_ok]
  | restart built =>
      simp only [Lifecycle.Desk.turn, Turn.exact, bind_eq_ok, new_eq_ok] at hturn
      obtain ⟨_, ⟨day₀, hbuilt, rfl⟩, hload⟩ := hturn
      obtain ⟨day, hday, rfl⟩ := perform_load_eq_ok.mp hload
      exact h.restarted hbuilt hday

/-- While nothing is rounded, binary64 leaves the store and the counters of
exact arithmetic, and decides every order as it does, message and all. -/
theorem unrounded_run {isLive : Bool} {built : ℤ} {e : PreTradeRiskEngine ℚ} {s : StateStore}
    (hlimits : ExactLimits limits.toLimitFields) (hnew : PreTradeRiskEngine.new limits isLive built = .ok e)
    (hrun : ExactLives ⟨e, s⟩ turns d) :
    ∃ x p, PreTradeRiskEngine.new (doubleRiskLimits limits hlimits) isLive built = .ok x ∧
      Crashes.Survives ⟨x, s⟩ (turns.map Turn.double) p ∧ p.store = d.store ∧
      p.engine.counters = doubleCounters d.engine.counters ∧
      ∀ files n r day, d.engine.today n = .ok day → ExactOrder (d.engine.rollTo day) n r →
        decision files p.engine n (doubleRequest r) = (decision files d.engine n r).map doubleDecision := by
  obtain ⟨today, hbuilt, rfl⟩ := new_eq_ok.mp hnew
  have hstart : Mirrored ⟨.onDay limits isLive today, s⟩
      ⟨.onDay (doubleRiskLimits limits hlimits) isLive today, s⟩ := mirrored_onDay rfl hlimits isLive today s
  have hfollow : ∃ p, Crashes.Survives ⟨.onDay (doubleRiskLimits limits hlimits) isLive today, s⟩
      (turns.map Turn.double) p ∧ Mirrored d p :=
    Steps.simulated (R := Mirrored) Turn.double (fun h hstep => turn_mirrored h hstep.1 hstep.2) hrun hstart
  obtain ⟨p, hp, hmirrored⟩ := hfollow
  exact ⟨_, p, new_eq_ok.mpr ⟨today, hbuilt, rfl⟩, hp, hmirrored.store, hmirrored.engine.counters,
    fun files n r day hday hr => decision_doubled files hmirrored.engine hday (hmirrored.exact hr)⟩

def lossLimits : RiskLimits ℚ :=
  ⟨{ dailyLossLimitUsd := some 10 }, by decide +kernel⟩

theorem exact_lossLimits : ExactLimits lossLimits.toLimitFields := by
  intro name x hx
  have hten : x = ((10 : ℤ) : ℚ) := by
    simp only [LimitFields.amounts, lossLimits, List.mem_cons, Prod.mk.injEq, Option.some.injEq, reduceCtorEq, and_false,
      List.not_mem_nil, or_false] at hx
    exact_mod_cast hx.2
  rw [hten]
  exact representable_intCast (by norm_num)

def lossDesk : Desk ℚ := ⟨.onDay lossLimits false "2026-07-20", empty⟩

def lostDesk : Desk ℚ := lossDesk.reported (.realizedPnl (-10) false) "2026-07-20"

def lossTurns : List Turn := [⟨noon, .report (.realizedPnl (-10) false)⟩, ⟨noon, .restart noon⟩]

theorem representable_loss : Representable (-10 : ℚ) := by
  have h : Representable ((-10 : ℤ) : ℚ) := representable_intCast (by norm_num)
  exact_mod_cast h

theorem exactCounters_lostDesk : ExactCounters lostDesk.engine.counters := by
  have hpnl : Representable (0 + -10 : ℚ) := by
    rw [zero_add]
    exact representable_loss
  refine ⟨fun leg => ?_, fun leg => ?_, representable_zero⟩
  · cases leg with
    | false => exact hpnl
    | true => exact representable_zero
  · cases leg with
    | false => exact representable_pyMax representable_zero hpnl
    | true => exact representable_zero

theorem exactLives_lossTurns :
    ExactLives lossDesk lossTurns (Lifecycle.Desk.restarted lostDesk "2026-07-20") := by
  have hreport : Lifecycle.Desk.turn lossDesk (Turn.exact ⟨noon, .report (.realizedPnl (-10) false)⟩) = .ok lostDesk :=
    perform_report tradingDay_noon
  have hrestart : Lifecycle.Desk.turn lostDesk (Turn.exact ⟨noon, .restart noon⟩) =
      .ok (Lifecycle.Desk.restarted lostDesk "2026-07-20") :=
    Lifecycle.turn_restart_of_today tradingDay_noon tradingDay_noon
  exact (Steps.single ⟨hreport, representable_loss, exactCounters_lostDesk⟩).snoc ⟨hrestart, trivial⟩

def single : OrderRequest ℚ := { OrderRequest.bare "ES" .buy 1 with limitPrice := some 1 }

/-- The notional of the order is 1 and the floor it is held to is −10. -/
theorem exactOrder_single {e : PreTradeRiskEngine ℚ} (hlimits : e.limits = lossLimits)
    (hpeak : e.counters.legPeak e.isLive = 0) : ExactOrder e noon single := by
  refine ⟨representable_intCast (by decide +kernel), ⟨representable_one, ?_, ?_, ?_, ?_, ?_,
    representable_zero, representable_zero, representable_zero⟩, ?_⟩
  · rintro x ⟨⟩
    exact representable_one
  · rintro x ⟨⟩
  · rintro x ⟨⟩
  · rintro x ⟨⟩
  · rintro x ⟨⟩
  · rw [hlimits]
    constructor
    case floor =>
      rintro limit ⟨⟩
      rw [hpeak, zero_sub]
      exact representable_loss
    case notional =>
      rintro notional ⟨⟩
      change Representable (1 * 1 : ℚ)
      rw [mul_one]
      exact representable_one
    all_goals
      rintro cap ⟨⟩

theorem unrounded_run_loss :
    ∃ x p, PreTradeRiskEngine.new (doubleRiskLimits lossLimits exact_lossLimits) false noon = .ok x ∧
      Crashes.Survives ⟨x, empty⟩ (lossTurns.map Turn.double) p ∧
      p.engine.counters = doubleCounters (Lifecycle.Desk.restarted lostDesk "2026-07-20").engine.counters ∧
      ∃ d, decision (fun _ => false) p.engine noon (doubleRequest single) = .ok d ∧ d.code = some .lossLimitBreached := by
  have hnew : PreTradeRiskEngine.new lossLimits false noon = .ok lossDesk.engine := new_eq_ok.mpr ⟨_, tradingDay_noon, rfl⟩
  obtain ⟨x, p, hx, hp, -, hc, hdecides⟩ := unrounded_run exact_lossLimits hnew exactLives_lossTurns
  have hexact : ∃ d f, evaluate (fun _ => false) (Lifecycle.Desk.restarted lostDesk "2026-07-20").engine noon single =
      .ok (d, f) ∧ decide (d.code = some .lossLimitBreached) = true := exists_decision_of_any (by decide +kernel)
  obtain ⟨d, f, hd, hcode⟩ := hexact
  refine ⟨x, p, hx, hp, hc, doubleDecision d, ?_, of_decide_eq_true hcode⟩
  rw [hdecides (fun _ => false) noon single "2026-07-20" tradingDay_noon (exactOrder_single rfl (by decide +kernel)),
    decision, hd]
  rfl

end PretradeRisk.UnroundedRuns
