import PretradeRisk.Limits
import PretradeRisk.Store
import PretradeRisk.Windows

namespace PretradeRisk.Engine

open Clock Encoding Host Limits Orders Store Windows

/-- The persisted counters, with the trading date they belong to. -/
@[ext] structure Counters (F : Type) where
  tradingDay : String
  livePnl : F
  simulatedPnl : F
  livePeak : F
  simulatedPeak : F
  dailyNotional : F
  consecutiveRejects : ℕ
  executionsSinceRearm : ℕ

@[ext] structure Overrides (F : Type) where
  bypassLossLimit : Bool
  bypassExpiresAt : Option F
  runtimeMaxOrderNotional : Option F
  runtimeMaxOrderQuantity : Option F

inductive CounterEvent (F : Type)
  | realizedPnl (pnlUsd : F) (isLive : Bool)
  | notional (notionalUsd : F)
  | orderRejected
  | orderAccepted
  | execution
  | rearm

variable {F : Type}

def Overrides.none : Overrides F := ⟨false, Option.none, Option.none, Option.none⟩

section Counters

variable [Zero F] [Add F] [IntCast F] [LT F] [DecidableLT F]

def Counters.dayStart (today : String) (executionsSinceRearm : ℕ) : Counters F :=
  ⟨today, 0, 0, 0, 0, 0, 0, executionsSinceRearm⟩

def Counters.fresh (today : String) : Counters F := .dayStart today 0

/-- The counters once the trading day is `today`: executions since re-arm
survive the roll. -/
def Counters.roll (c : Counters F) (today : String) : Counters F :=
  if today = c.tradingDay then c else .dayStart today c.executionsSinceRearm

def CounterEvent.apply : CounterEvent F → Counters F → Counters F
  | .realizedPnl pnlUsd true, c =>
      { c with livePnl := c.livePnl + pnlUsd, livePeak := pyMax c.livePeak (c.livePnl + pnlUsd) }
  | .realizedPnl pnlUsd false, c =>
      { c with
        simulatedPnl := c.simulatedPnl + pnlUsd
        simulatedPeak := pyMax c.simulatedPeak (c.simulatedPnl + pnlUsd) }
  | .notional notionalUsd, c => { c with dailyNotional := c.dailyNotional + notionalUsd }
  | .orderRejected, c => { c with consecutiveRejects := c.consecutiveRejects + 1 }
  | .orderAccepted, c => { c with consecutiveRejects := 0 }
  | .execution, c => { c with executionsSinceRearm := c.executionsSinceRearm + 1 }
  | .rearm, c => { c with consecutiveRejects := 0, executionsSinceRearm := 0 }

/-- `_as_count`: a persisted counter as a non-negative integer. -/
def asCount (F : Type) [Zero F] [LT F] [DecidableLT F] [PyFloat F] (raw : Option String) : ℕ :=
  match decodeFloat (F := F) raw with
  | none => 0
  | some value => if value < 0 then 0 else (PyFloat.int value).toNat

/-- `decode_float(raw) or 0.0` -/
def decodeOrZero [PyFloat F] (raw : Option String) : F := (decodeFloat raw).getD 0

/-- The counters `load` rebuilds from the values it read: those of another
trading date are not adopted, and the memory keeps what it held. -/
def Counters.adopt [PyFloat F] (c : Counters F) (raw : StateStore) (today : String) : Counters F :=
  let c := { c with executionsSinceRearm := asCount F (raw .executionsSinceRearm) }
  let c := if raw .tradingDay = some today then
      let livePnl := decodeOrZero (raw .liveRealizedPnl)
      let simulatedPnl := decodeOrZero (raw .simulatedRealizedPnl)
      let storedLivePeak := decodeOrZero (raw .livePeakPnl)
      let storedSimulatedPeak := decodeOrZero (raw .simulatedPeakPnl)
      { c with
        livePnl
        simulatedPnl
        dailyNotional := decodeOrZero (raw .dailyNotional)
        consecutiveRejects := asCount F (raw .consecutiveRejects)
        livePeak := pyMax (pyMax 0 livePnl) storedLivePeak
        simulatedPeak := pyMax (pyMax 0 simulatedPnl) storedSimulatedPeak }
    else c
  { c with tradingDay := today }

def Counters.snapshot [PyFloat F] (c : Counters F) : Entries :=
  [(.tradingDay, c.tradingDay), (.liveRealizedPnl, encodeFloat c.livePnl),
    (.simulatedRealizedPnl, encodeFloat c.simulatedPnl), (.livePeakPnl, encodeFloat c.livePeak),
    (.simulatedPeakPnl, encodeFloat c.simulatedPeak), (.dailyNotional, encodeFloat c.dailyNotional),
    (.consecutiveRejects, encodeFloat ((c.consecutiveRejects : ℤ) : F)),
    (.executionsSinceRearm, encodeFloat ((c.executionsSinceRearm : ℤ) : F))]

def Counters.legPnl (c : Counters F) (isLive : Bool) : F := if isLive then c.livePnl else c.simulatedPnl

def Counters.legPeak (c : Counters F) (isLive : Bool) : F := if isLive then c.livePeak else c.simulatedPeak

end Counters

section Roll

variable [Zero F]

@[simp] theorem Counters.roll_tradingDay (c : Counters F) (today : String) :
    (c.roll today).tradingDay = today := by
  rw [roll]
  split
  · exact (‹today = c.tradingDay›).symm
  · rfl

theorem Counters.roll_of_eq {c : Counters F} {today : String} (h : today = c.tradingDay) :
    c.roll today = c := if_pos h

theorem Counters.roll_of_ne {c : Counters F} {today : String} (h : today ≠ c.tradingDay) :
    c.roll today = .dayStart today c.executionsSinceRearm := if_neg h

@[simp] theorem Counters.roll_executionsSinceRearm (c : Counters F) (today : String) :
    (c.roll today).executionsSinceRearm = c.executionsSinceRearm := by
  rw [roll]
  split <;> rfl

@[simp] theorem Counters.roll_roll (c : Counters F) (today : String) :
    (c.roll today).roll today = c.roll today := roll_of_eq (c.roll_tradingDay today).symm

theorem Counters.roll_dayStart (day today : String) (executions : ℕ) :
    (Counters.dayStart day executions : Counters F).roll today = .dayStart today executions := by
  by_cases h : today = day
  · rw [roll_of_eq h, h]
  · rw [roll_of_ne h]
    rfl

end Roll

@[simp] theorem CounterEvent.apply_tradingDay [Add F] [LT F] [DecidableLT F] (event : CounterEvent F) (c : Counters F) :
    (event.apply c).tradingDay = c.tradingDay := by
  cases event with
  | realizedPnl _ isLive => cases isLive <;> rfl
  | _ => rfl

theorem CounterEvent.apply_dailyNotional [Add F] [LT F] [DecidableLT F] {event : CounterEvent F} (c : Counters F)
    (h : ∀ notional, event ≠ .notional notional) : (event.apply c).dailyNotional = c.dailyNotional := by
  cases event with
  | realizedPnl _ isLive => cases isLive <;> rfl
  | notional notional => exact absurd rfl (h notional)
  | _ => rfl

def Overrides.decode [Zero F] [LE F] [DecidableLE F] [PyFloat F] (raw : StateStore) : Overrides F where
  bypassLossLimit := decodeBool (raw .lossLimitBypass)
  bypassExpiresAt := decodeFloat (raw .lossLimitBypassExpiresAt)
  runtimeMaxOrderNotional := decodePositiveFloat (raw .runtimeMaxOrderNotional)
  runtimeMaxOrderQuantity := decodePositiveFloat (raw .runtimeMaxOrderQuantity)

def refreshKeys : List Key :=
  [.lossLimitBypass, .lossLimitBypassExpiresAt, .runtimeMaxOrderNotional, .runtimeMaxOrderQuantity]

def Overrides.bypassActive [IntCast F] [LT F] [DecidableLT F] (o : Overrides F) (nowMillis : ℤ) : Bool :=
  match o.bypassLossLimit, o.bypassExpiresAt with
  | true, some expiresAt => decide ((nowMillis : F) < expiresAt)
  | _, _ => false

theorem Overrides.bypassActive_iff [IntCast F] [LT F] [DecidableLT F] {o : Overrides F} {nowMillis : ℤ} :
    o.bypassActive nowMillis = true ↔
      o.bypassLossLimit = true ∧ ∃ expiresAt, o.bypassExpiresAt = some expiresAt ∧ (nowMillis : F) < expiresAt := by
  rw [Overrides.bypassActive]
  split <;> simp_all

/-- One engine: its limits, its counters, its windows and its cached
overrides. The windows are the ones its limits configure. -/
@[ext] structure PreTradeRiskEngine (F : Type) [Zero F] [LE F] [DecidableLE F] [PyFloat F] where
  limits : RiskLimits F
  isLive : Bool
  counters : Counters F
  rateWindow : RateWindow
  duplicateWindow : Option DuplicateWindow
  overrides : Overrides F
  rateWindow_configured : rateWindow.windowMillis = limits.orderRateWindowMillis
  duplicateWindow_configured :
    duplicateWindow.map DuplicateWindow.windowMillis = limits.duplicateWindowMillis

section Construction

variable [Zero F] [LE F] [DecidableLE F] [PyFloat F]

def configuredDuplicateWindow (limits : RiskLimits F) : Option DuplicateWindow :=
  match h : limits.duplicateWindowMillis with
  | none => none
  | some millis => some ⟨millis, limits.duplicateWindow_pos h, fun _ => none⟩

theorem configuredDuplicateWindow_windowMillis (limits : RiskLimits F) :
    (configuredDuplicateWindow limits).map DuplicateWindow.windowMillis = limits.duplicateWindowMillis := by
  rw [configuredDuplicateWindow]
  split <;> simp_all

theorem configuredDuplicateWindow_seen (limits : RiskLimits F) :
    ∀ w ∈ configuredDuplicateWindow limits, w.seen = fun _ => none := by
  rw [configuredDuplicateWindow]
  split
  · exact fun w hw => by cases hw
  · exact fun w hw => by cases hw; rfl

end Construction

section Engine

variable [Zero F] [Add F] [Sub F] [IntCast F] [LE F] [LT F] [DecidableLE F] [DecidableLT F] [PyFloat F]

def PreTradeRiskEngine.onDay (limits : RiskLimits F) (isLive : Bool) (today : String) :
    PreTradeRiskEngine F where
  limits
  isLive
  counters := Counters.fresh today
  rateWindow := ⟨limits.orderRateWindowMillis, limits.admissible.orderRateWindow, []⟩
  duplicateWindow := configuredDuplicateWindow limits
  overrides := Overrides.none
  rateWindow_configured := rfl
  duplicateWindow_configured := configuredDuplicateWindow_windowMillis limits

/-- The constructor, at a clock reading. -/
def PreTradeRiskEngine.new (limits : RiskLimits F) (isLive : Bool) (nowMillis : ℤ) :
    Except PyError (PreTradeRiskEngine F) := do
  let today ← tradingDay nowMillis limits.sessionRollMillis
  return .onDay limits isLive today

omit [Add F] [Sub F] [IntCast F] [LT F] [DecidableLT F] in
theorem new_eq_ok {limits : RiskLimits F} {isLive : Bool} {n : ℤ} {e : PreTradeRiskEngine F} :
    PreTradeRiskEngine.new limits isLive n = .ok e ↔
      ∃ day, tradingDay n limits.sessionRollMillis = .ok day ∧ e = .onDay limits isLive day := by
  simp only [PreTradeRiskEngine.new, bind_eq_ok, pure_eq_ok, Except.ok.injEq, eq_comm (a := e)]

namespace PreTradeRiskEngine

def today (e : PreTradeRiskEngine F) (nowMillis : ℤ) : Except PyError String :=
  tradingDay nowMillis e.limits.sessionRollMillis

def withCounters (e : PreTradeRiskEngine F) (counters : Counters F) : PreTradeRiskEngine F :=
  { e with counters }

def rollTo (e : PreTradeRiskEngine F) (today : String) : PreTradeRiskEngine F :=
  e.withCounters (e.counters.roll today)

omit [Add F] [Sub F] [IntCast F] [LT F] [DecidableLT F] in
theorem rollTo_of_eq {e : PreTradeRiskEngine F} {today : String} (h : e.counters.tradingDay = today) :
    e.rollTo today = e := by
  rw [rollTo, Counters.roll_of_eq h.symm]
  rfl

def rollTradingDay (e : PreTradeRiskEngine F) (nowMillis : ℤ) : Except PyError (PreTradeRiskEngine F) := do
  let today ← e.today nowMillis
  return e.rollTo today

def record (e : PreTradeRiskEngine F) (event : CounterEvent F) (nowMillis : ℤ) :
    Except PyError (PreTradeRiskEngine F) := do
  let e ← e.rollTradingDay nowMillis
  return e.withCounters (event.apply e.counters)

def recordRealizedPnl (e : PreTradeRiskEngine F) (pnlUsd : F) (isLive : Bool) (nowMillis : ℤ) :=
  e.record (.realizedPnl pnlUsd isLive) nowMillis

def recordNotional (e : PreTradeRiskEngine F) (notionalUsd : F) (nowMillis : ℤ) :=
  e.record (.notional notionalUsd) nowMillis

def recordOrderRejected (e : PreTradeRiskEngine F) (nowMillis : ℤ) := e.record .orderRejected nowMillis

def recordOrderAccepted (e : PreTradeRiskEngine F) (nowMillis : ℤ) := e.record .orderAccepted nowMillis

def recordExecution (e : PreTradeRiskEngine F) (nowMillis : ℤ) := e.record .execution nowMillis

def rearm (e : PreTradeRiskEngine F) (nowMillis : ℤ) := e.record .rearm nowMillis

/-- The batch `persist` hands to `set_many`. -/
def snapshot (e : PreTradeRiskEngine F) : Entries := e.counters.snapshot

def persist (e : PreTradeRiskEngine F) (s : StateStore) : StateStore := setMany s e.snapshot

/-- `load` up to its final `persist`, from the values it read. -/
def loadCounters (e : PreTradeRiskEngine F) (raw : StateStore) (nowMillis : ℤ) :
    Except PyError (PreTradeRiskEngine F) := do
  let today ← e.today nowMillis
  return e.withCounters (e.counters.adopt raw today)

def load (e : PreTradeRiskEngine F) (s : StateStore) (nowMillis : ℤ) :
    Except PyError (PreTradeRiskEngine F × StateStore) := do
  let e ← e.loadCounters (getMany s counterKeys) nowMillis
  return (e, e.persist s)

omit [Add F] [Sub F] in
theorem load_of_today {e : PreTradeRiskEngine F} {s : StateStore} {nowMillis : ℤ} {day : String}
    (h : e.today nowMillis = .ok day) :
    e.load s nowMillis = .ok (e.withCounters (e.counters.adopt (getMany s counterKeys) day),
      (e.withCounters (e.counters.adopt (getMany s counterKeys) day)).persist s) := by
  rw [load, loadCounters, h]; rfl

def withOverrides (e : PreTradeRiskEngine F) (overrides : Overrides F) : PreTradeRiskEngine F :=
  { e with overrides }

def refreshOverrides (e : PreTradeRiskEngine F) (s : StateStore) : PreTradeRiskEngine F :=
  e.withOverrides (.decode (getMany s refreshKeys))

def pruneWindows (e : PreTradeRiskEngine F) (rate duplicates : Bool) (nowMillis : ℤ) : PreTradeRiskEngine F :=
  { e with
    rateWindow := if rate then e.rateWindow.prune nowMillis else e.rateWindow
    duplicateWindow := if duplicates then e.duplicateWindow.map (·.prune nowMillis) else e.duplicateWindow
    rateWindow_configured := by split <;> simp [e.rateWindow_configured]
    duplicateWindow_configured := by
      split <;> simp [← e.duplicateWindow_configured, Function.comp_def] }

def recordOrderSent (e : PreTradeRiskEngine F) (request : OrderRequest F) (nowMillis : ℤ) :
    PreTradeRiskEngine F :=
  { e with
    rateWindow := e.rateWindow.record nowMillis
    duplicateWindow := e.duplicateWindow.map (·.record request.fingerprint nowMillis)
    rateWindow_configured := by simp [e.rateWindow_configured]
    duplicateWindow_configured := by
      simp [← e.duplicateWindow_configured, Function.comp_def] }

def legPnl (e : PreTradeRiskEngine F) : F := e.counters.legPnl e.isLive

def legPeak (e : PreTradeRiskEngine F) : F := e.counters.legPeak e.isLive

def floor (e : PreTradeRiskEngine F) : Option F :=
  match e.limits.dailyLossLimitUsd with
  | none => none
  | some limit => some (e.legPeak - limit)

def bypassActive (e : PreTradeRiskEngine F) (nowMillis : ℤ) : Bool := e.overrides.bypassActive nowMillis

def breached (e : PreTradeRiskEngine F) (nowMillis : ℤ) : Bool :=
  match e.floor with
  | none => false
  | some floor => if e.bypassActive nowMillis then false else decide (e.legPnl ≤ floor)

omit [Add F] in
theorem breached_iff {e : PreTradeRiskEngine F} {nowMillis : ℤ} :
    e.breached nowMillis = true ↔ ∃ limit, e.limits.dailyLossLimitUsd = some limit ∧
      e.bypassActive nowMillis = false ∧ e.legPnl ≤ e.legPeak - limit := by
  rw [breached, floor]
  cases e.limits.dailyLossLimitUsd <;> simp

/-- A property: it rolls the day, then reads. -/
def property {α : Type} (read : PreTradeRiskEngine F → α) (e : PreTradeRiskEngine F) (nowMillis : ℤ) :
    Except PyError (α × PreTradeRiskEngine F) := do
  let e ← e.rollTradingDay nowMillis
  return (read e, e)

omit [Add F] [Sub F] [IntCast F] [LT F] [DecidableLT F] in
theorem property_of_today {α : Type} {read : PreTradeRiskEngine F → α} {e : PreTradeRiskEngine F} {nowMillis : ℤ}
    {day : String} (h : e.today nowMillis = .ok day) :
    e.property read nowMillis = .ok (read (e.rollTo day), e.rollTo day) := by
  rw [property, rollTradingDay, h]; rfl

def tradingDay := property (F := F) (·.counters.tradingDay)
def livePnl := property (F := F) (·.counters.livePnl)
def simulatedPnl := property (F := F) (·.counters.simulatedPnl)
def dailyRealizedPnl := property (F := F) fun e => e.counters.livePnl + e.counters.simulatedPnl
def dailyNotional := property (F := F) (·.counters.dailyNotional)
def consecutiveRejects := property (F := F) (·.counters.consecutiveRejects)
def lossLimitPnl := property (F := F) legPnl
def lossLimitPeak := property (F := F) legPeak
def lossLimitFloor := property (F := F) floor
def lossLimitHeadroom := property (F := F) fun e => e.floor.map (e.legPnl - ·)

def executionsSinceRearm (e : PreTradeRiskEngine F) : ℕ := e.counters.executionsSinceRearm

def lossLimitBreached (e : PreTradeRiskEngine F) (nowMillis : ℤ) :
    Except PyError (Bool × PreTradeRiskEngine F) :=
  property (·.breached nowMillis) e nowMillis

omit [Add F] in
theorem lossLimitBreached_of_today {e : PreTradeRiskEngine F} {nowMillis : ℤ} {day : String}
    (h : e.today nowMillis = .ok day) :
    e.lossLimitBreached nowMillis = .ok ((e.rollTo day).breached nowMillis, e.rollTo day) := property_of_today h

def effectiveMaxOrderNotional (e : PreTradeRiskEngine F) : Option F :=
  match e.overrides.runtimeMaxOrderNotional with
  | some cap => some cap
  | none => e.limits.maxOrderNotionalUsd

def effectiveMaxOrderQuantity (e : PreTradeRiskEngine F) : Option F :=
  match e.overrides.runtimeMaxOrderQuantity with
  | some cap => some cap
  | none => e.limits.maxOrderQuantity

end PreTradeRiskEngine

end Engine

end PretradeRisk.Engine
