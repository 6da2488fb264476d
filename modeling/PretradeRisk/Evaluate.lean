import PretradeRisk.Engine
import PretradeRisk.Walk

namespace PretradeRisk.Evaluate

open Decision Engine Host Orders Walk

abbrev Files := String → Bool

abbrev Verdict (F : Type) := Option (RiskDecision F)

variable {F : Type} [Zero F] [One F] [Neg F] [Add F] [Sub F] [Mul F] [Div F] [IntCast F] [LE F] [LT F]
  [DecidableLE F] [DecidableLT F] [PyFloat F]

def fmt (spec : String) (x : F) : String := PyFloat.format spec x

/-- `_unpriced`: an armed control whose market-data input never arrived. -/
def unpriced (request : OrderRequest F) (control : String) : RiskDecision F :=
  .reject .marketDataUnavailable control
    ("the " ++ control ++ " control needs a price for " ++ request.symbol
      ++ " and none was available (no limit price, decision price or touch)")

def killSwitchEngaged (files : Files) (e : PreTradeRiskEngine F) : Bool :=
  match e.limits.killSwitchPath with
  | none => false
  | some path => files path

def checkKillSwitch (files : Files) (e : PreTradeRiskEngine F) : Except PyError (Verdict F) :=
  if ¬ killSwitchEngaged files e then .ok none
  else .ok (some (.reject .killSwitchEngaged "kill switch"
    ("kill switch engaged at " ++ e.limits.killSwitchPath.getD "None")))

def checkLossLimit (e : PreTradeRiskEngine F) (now : ℤ) : Except PyError (Verdict F) := do
  if ¬ e.breached now then return none
  let pnl := e.legPnl
  let leg := if e.isLive then "live" else "simulated"
  let floor ← operand e.floor
  let limit ← operand e.limits.dailyLossLimitUsd
  return some (.reject .lossLimitBreached "daily loss limit"
    ("daily loss limit: " ++ leg ++ " realized " ++ fmt "+.2f" pnl ++ " USD is at or below the "
      ++ "trailing floor " ++ fmt "+.2f" floor ++ " (peak " ++ fmt "+.2f" e.legPeak ++ " less "
      ++ fmt ".2f" limit ++ " limit)")
    (some floor) (some pnl))

def checkInstrumentPermitted (e : PreTradeRiskEngine F) (request : OrderRequest F) :
    Except PyError (Verdict F) := do
  let permitted ← operand e.limits.permittedInstruments
  if request.symbol ∈ permitted then return none
  return some (.reject .instrumentNotPermitted "instrument universe"
    (request.symbol ++ " is not in the permitted trading universe"))

def checkInstrumentRestricted (e : PreTradeRiskEngine F) (request : OrderRequest F) :
    Except PyError (Verdict F) := do
  if request.symbol ∉ e.limits.restrictedInstruments then return none
  return some (.reject .instrumentRestricted "restricted list"
    (request.symbol ++ " is on the restricted list"))

def sessionStatesByValue : List SessionState := [.auction, .closed, .halted, .open, .preOpen, .unknown]

def checkSessionState (e : PreTradeRiskEngine F) (request : OrderRequest F) :
    Except PyError (Verdict F) := do
  let tradeable ← operand e.limits.tradeableSessionStates
  if request.sessionState ∈ tradeable then return none
  let permitted := ", ".intercalate ((sessionStatesByValue.filter (· ∈ tradeable)).map SessionState.value)
  return some (.reject .marketSessionNotOpen "session state"
    (request.symbol ++ " session state is " ++ request.sessionState.value
      ++ "; order entry is permitted only in " ++ permitted))

def checkShortSaleLocate (request : OrderRequest F) : Except PyError (Verdict F) := do
  if request.side ≠ .sellShort ∨ request.locateSecured then return none
  return some (.reject .shortSaleLocateMissing "short sale locate"
    ("short sale of " ++ request.symbol ++ " carries no secured locate"))

def checkQuantitySign (request : OrderRequest F) : Except PyError (Verdict F) := do
  if 0 < request.quantity then return none
  return some (.reject .orderQuantityNotPositive "order quantity"
    ("order quantity must be positive, got " ++ fmt "g" request.quantity)
    none (some request.quantity))

def checkPriceSign (request : OrderRequest F) : Except PyError (Verdict F) :=
  match request.limitPrice with
  | none => .ok none
  | some price =>
      if 0 < price then .ok none
      else .ok (some (.reject .orderPriceNotPositive "order price"
        ("limit price must be positive, got " ++ fmt "g" price) none (some price)))

def checkNotionalSign (request : OrderRequest F) : Except PyError (Verdict F) :=
  match request.notionalUsd with
  | none => .ok none
  | some notional =>
      if 0 < notional then .ok none
      else .ok (some (.reject .orderNotionalNotPositive "order notional"
        ("order notional must be positive, got " ++ fmt ".2f" notional ++ " USD") none (some notional)))

def checkMaxQuantity (e : PreTradeRiskEngine F) (request : OrderRequest F) :
    Except PyError (Verdict F) := do
  let cap ← operand e.effectiveMaxOrderQuantity
  if request.quantity ≤ cap then return none
  return some (.reject .maxOrderQuantityExceeded "maximum order quantity"
    ("order quantity " ++ fmt "g" request.quantity ++ " exceeds the " ++ fmt "g" cap ++ " cap")
    (some cap) (some request.quantity))

def checkMaxNotional (e : PreTradeRiskEngine F) (request : OrderRequest F) :
    Except PyError (Verdict F) :=
  match request.notionalUsd with
  | none => .ok (some (unpriced request "maximum order notional"))
  | some notional => do
      let cap ← operand e.effectiveMaxOrderNotional
      if notional ≤ cap then return none
      return some (.reject .maxOrderNotionalExceeded "maximum order notional"
        ("order notional " ++ fmt ".2f" notional ++ " USD exceeds the " ++ fmt ".2f" cap ++ " USD cap")
        (some cap) (some notional))

def checkQuoteAge (e : PreTradeRiskEngine F) (request : OrderRequest F) :
    Except PyError (Verdict F) :=
  match request.quoteAgeMillis with
  | none => .ok (some (.reject .marketDataUnavailable "quote age"
      "the staleness control requires a quote age and none was supplied"))
  | some age => do
      let maxAge ← operand e.limits.maxQuoteAgeMillis
      if age ≤ maxAge then return none
      return some (.reject .marketDataStale "quote age"
        ("quotes are " ++ toString age ++ " ms old, over the " ++ toString maxAge ++ " ms limit")
        (some (← toFloat F maxAge)) (some (← toFloat F age)))

def noReference : RiskDecision F :=
  .reject .marketDataUnavailable "price band"
    "no reference price was available to measure the price band against"

def checkPriceBand (e : PreTradeRiskEngine F) (request : OrderRequest F) :
    Except PyError (Verdict F) :=
  match request.limitPrice, request.bandReferencePrice with
  | none, _ => .ok none
  | some _, none => .ok (some noReference)
  | some price, some reference =>
      if reference ≤ 0 then .ok (some noReference)
      else do
        let deviation ← pyDiv (pyAbs (price - reference)) reference
        let band ← operand e.limits.priceBandFraction
        if deviation ≤ band then return none
        return some (.reject .priceBandExceeded "price band"
          ("limit price " ++ fmt "g" price ++ " deviates " ++ fmt ".2%" deviation
            ++ " from the reference " ++ fmt "g" reference ++ ", over the " ++ fmt ".2%" band ++ " band")
          (some band) (some deviation))

def checkExecutionSlippage (e : PreTradeRiskEngine F) (request : OrderRequest F) :
    Except PyError (Verdict F) :=
  match request.decisionPrice, request.touch with
  | some decisionPrice, some touch => do
      let drift := if request.side.isSell then decisionPrice - touch else touch - decisionPrice
      let maxSlippage ← operand e.limits.maxExecutionSlippage
      if drift ≤ maxSlippage then return none
      return some (.reject .executionSlippageExceeded "execution slippage"
        ("the market has moved " ++ fmt "+.4g" drift ++ " against the " ++ fmt "g" decisionPrice
          ++ " decision price (limit " ++ fmt "g" maxSlippage
          ++ "); the opportunity that justified this order no longer exists")
        (some maxSlippage) (some drift))
  | _, _ => .ok (some (unpriced request "execution slippage"))

def checkDuplicate (e : PreTradeRiskEngine F) (request : OrderRequest F) (now : ℤ) :
    Except PyError (Verdict F × PreTradeRiskEngine F) := do
  let window ← operand e.duplicateWindow
  let seen := (window.seenWithinWindow request.fingerprint now).1
  let e := e.pruneWindows false true now
  if ¬ seen then return (none, e)
  let span ← operand e.limits.duplicateWindowMillis
  let verdict := .reject .duplicateOrder "duplicate order"
    ("an identical order for " ++ request.symbol ++ " was sent within the last " ++ toString span ++ " ms")
    (some (← toFloat F span))
  return (some verdict, e)

def checkOrderRate (e : PreTradeRiskEngine F) (now : ℤ) :
    Except PyError (Verdict F × PreTradeRiskEngine F) := do
  let sent := (e.rateWindow.count now).1
  let e := e.pruneWindows true false now
  let cap ← operand e.limits.maxOrdersPerWindow
  if (sent : ℤ) < cap then return (none, e)
  let verdict := .reject .orderRateExceeded "order rate"
    (toString sent ++ " orders already sent in the last " ++ toString e.limits.orderRateWindowMillis
      ++ " ms, at the " ++ toString cap ++ " limit")
    (some (← toFloat F cap)) (some (← toFloat F sent))
  return (some verdict, e)

/-- The comparison of the throttle and book-count controls: a count must stay
below its cap. -/
def checkBelow (code : RejectCode) (control : String) (count : ℤ) (cap : Option ℤ)
    (message : String → String → String) : Except PyError (Verdict F) := do
  let cap ← operand cap
  if count < cap then return none
  return some (.reject code control (message (toString count) (toString cap))
    (some (← toFloat F cap)) (some (← toFloat F count)))

def consecutiveRejectsMessage (count cap : String) : String :=
  count ++ " consecutive venue rejections, at the " ++ cap ++ " limit; the strategy must be re-armed"

def repeatedExecutionMessage (count cap : String) : String :=
  count ++ " executions since the strategy was last re-armed, at the " ++ cap
    ++ " limit; it must be reviewed before trading again"

def workingOrdersMessage (count cap : String) : String :=
  count ++ " orders already working, at the " ++ cap ++ " limit"

def openPositionsMessage (count cap : String) : String :=
  count ++ " positions already open, at the " ++ cap ++ " limit"

def checkConsecutiveRejects (e : PreTradeRiskEngine F) : Except PyError (Verdict F) :=
  checkBelow .consecutiveRejectLimitExceeded "consecutive rejections" e.counters.consecutiveRejects
    e.limits.maxConsecutiveRejects consecutiveRejectsMessage

def checkRepeatedExecution (e : PreTradeRiskEngine F) : Except PyError (Verdict F) :=
  checkBelow .repeatedExecutionThrottle "repeated execution throttle" e.counters.executionsSinceRearm
    e.limits.maxExecutionsWithoutReview repeatedExecutionMessage

def checkWorkingOrders (e : PreTradeRiskEngine F) (request : OrderRequest F) : Except PyError (Verdict F) :=
  checkBelow .maxWorkingOrdersExceeded "working orders" request.workingOrders
    e.limits.maxWorkingOrders workingOrdersMessage

def checkOpenPositions (e : PreTradeRiskEngine F) (request : OrderRequest F) : Except PyError (Verdict F) :=
  checkBelow .maxOpenPositionsExceeded "open positions" request.openPositions
    e.limits.maxOpenPositions openPositionsMessage

def checkPositionLimit (e : PreTradeRiskEngine F) (request : OrderRequest F) :
    Except PyError (Verdict F) := do
  let current := request.positionQuantity
  let projected := request.projectedPosition
  let cap ← operand e.limits.maxPositionQuantity
  if pyAbs projected ≤ cap then return none
  let reduces := pyAbs projected < pyAbs current
  let flipsSign := current * projected < 0
  if reduces ∧ ¬ flipsSign then return none
  return some (.reject .maxPositionExceeded "position limit"
    ("this order would take " ++ request.symbol ++ " from " ++ fmt "g" current ++ " to "
      ++ fmt "g" projected ++ ", outside the " ++ fmt "g" cap ++ " position limit")
    (some cap) (some (pyAbs projected)))

def checkSelfMatch (request : OrderRequest F) : Except PyError (Verdict F) := do
  if request.opposingRestingQuantity ≤ 0 then return none
  return some (.reject .selfMatchPrevented "self-match prevention"
    (fmt "g" request.opposingRestingQuantity ++ " of the firm's own quantity rests on the opposite side of "
      ++ request.symbol ++ "; this order could trade against it")
    none (some request.opposingRestingQuantity))

/-- The comparison of the two cumulative notional controls: what is used up
and the order's own notional must fit under the cap together. -/
def checkProjected (code : RejectCode) (control : String) (request : OrderRequest F) (used : F)
    (cap : Option F) (message : String → String) : Except PyError (Verdict F) :=
  match request.notionalUsd with
  | none => .ok (some (unpriced request control))
  | some notional => do
      let projected := used + pyAbs notional
      let cap ← operand cap
      if projected ≤ cap then return none
      return some (.reject code control
        (message (fmt ".2f" projected) ++ " USD (" ++ fmt ".2f" used ++ " plus "
          ++ fmt ".2f" (pyAbs notional) ++ "), over the " ++ fmt ".2f" cap ++ " USD limit")
        (some cap) (some projected))

def checkGrossExposure (e : PreTradeRiskEngine F) (request : OrderRequest F) : Except PyError (Verdict F) :=
  checkProjected .grossExposureLimitExceeded "gross exposure" request request.grossExposureUsd
    e.limits.maxGrossExposureUsd ("gross exposure would reach " ++ ·)

def checkDailyNotional (e : PreTradeRiskEngine F) (request : OrderRequest F) : Except PyError (Verdict F) :=
  checkProjected .dailyNotionalLimitExceeded "daily notional limit" request e.counters.dailyNotional
    e.limits.dailyNotionalLimitUsd ("today's notional would reach " ++ ·)

/-- One pre-trade control: an identifier, a name, an arming test, and the
check, which may prune a window. -/
structure Control (F : Type) [Zero F] [LE F] [DecidableLE F] [PyFloat F] where
  id : ControlId
  name : String
  isArmed : PreTradeRiskEngine F → Bool
  check : Files → PreTradeRiskEngine F → OrderRequest F → ℤ →
    Except PyError (Verdict F × PreTradeRiskEngine F)

def Control.reading (id : ControlId) (name : String) (isArmed : PreTradeRiskEngine F → Bool)
    (check : Files → PreTradeRiskEngine F → OrderRequest F → ℤ → Except PyError (Verdict F)) : Control F :=
  ⟨id, name, isArmed, fun files e request now => (check files e request now).map (·, e)⟩

def controlSequence : List (Control F) :=
  [.reading .killSwitch "kill switch" (·.limits.killSwitchPath.isSome)
      fun files e _ _ => checkKillSwitch files e,
    .reading .dailyLossLimit "daily loss limit" (·.limits.dailyLossLimitUsd.isSome)
      fun _ e _ now => checkLossLimit e now,
    .reading .instrumentUniverse "instrument universe" (·.limits.permittedInstruments.isSome)
      fun _ e request _ => checkInstrumentPermitted e request,
    .reading .restrictedList "restricted list" (fun e => decide (e.limits.restrictedInstruments ≠ ∅))
      fun _ e request _ => checkInstrumentRestricted e request,
    .reading .sessionState "session state" (·.limits.tradeableSessionStates.isSome)
      fun _ e request _ => checkSessionState e request,
    .reading .shortSaleLocate "short sale locate" (·.limits.requireShortSaleLocate)
      fun _ _ request _ => checkShortSaleLocate request,
    .reading .orderQuantity "order quantity" (fun _ => true)
      fun _ _ request _ => checkQuantitySign request,
    .reading .orderPrice "order price" (fun _ => true)
      fun _ _ request _ => checkPriceSign request,
    .reading .orderNotional "order notional" (fun _ => true)
      fun _ _ request _ => checkNotionalSign request,
    .reading .maxOrderQuantity "maximum order quantity" (·.effectiveMaxOrderQuantity.isSome)
      fun _ e request _ => checkMaxQuantity e request,
    .reading .maxOrderNotional "maximum order notional" (·.effectiveMaxOrderNotional.isSome)
      fun _ e request _ => checkMaxNotional e request,
    .reading .quoteAge "quote age" (·.limits.maxQuoteAgeMillis.isSome)
      fun _ e request _ => checkQuoteAge e request,
    .reading .priceBand "price band" (·.limits.priceBandFraction.isSome)
      fun _ e request _ => checkPriceBand e request,
    .reading .executionSlippage "execution slippage" (·.limits.maxExecutionSlippage.isSome)
      fun _ e request _ => checkExecutionSlippage e request,
    ⟨.duplicateOrder, "duplicate order", (·.duplicateWindow.isSome),
      fun _ e request now => checkDuplicate e request now⟩,
    ⟨.orderRate, "order rate", (·.limits.maxOrdersPerWindow.isSome),
      fun _ e _ now => checkOrderRate e now⟩,
    .reading .consecutiveRejects "consecutive rejections" (·.limits.maxConsecutiveRejects.isSome)
      fun _ e _ _ => checkConsecutiveRejects e,
    .reading .repeatedExecution "repeated execution throttle"
      (·.limits.maxExecutionsWithoutReview.isSome)
      fun _ e _ _ => checkRepeatedExecution e,
    .reading .workingOrders "working orders" (·.limits.maxWorkingOrders.isSome)
      fun _ e request _ => checkWorkingOrders e request,
    .reading .openPositions "open positions" (·.limits.maxOpenPositions.isSome)
      fun _ e request _ => checkOpenPositions e request,
    .reading .positionLimit "position limit" (·.limits.maxPositionQuantity.isSome)
      fun _ e request _ => checkPositionLimit e request,
    .reading .selfMatchPrevention "self-match prevention" (·.limits.preventSelfMatch)
      fun _ _ request _ => checkSelfMatch request,
    .reading .grossExposure "gross exposure" (·.limits.maxGrossExposureUsd.isSome)
      fun _ e request _ => checkGrossExposure e request,
    .reading .dailyNotionalLimit "daily notional limit" (·.limits.dailyNotionalLimitUsd.isSome)
      fun _ e request _ => checkDailyNotional e request]

theorem controlSequence_ids : (controlSequence (F := F)).map Control.id =
    [.killSwitch, .dailyLossLimit, .instrumentUniverse, .restrictedList, .sessionState, .shortSaleLocate,
      .orderQuantity, .orderPrice, .orderNotional, .maxOrderQuantity, .maxOrderNotional, .quoteAge, .priceBand,
      .executionSlippage, .duplicateOrder, .orderRate, .consecutiveRejects, .repeatedExecution, .workingOrders,
      .openPositions, .positionLimit, .selfMatchPrevention, .grossExposure, .dailyNotionalLimit] := rfl

theorem controlSequence_nodup : ((controlSequence (F := F)).map Control.id).Nodup := by
  rw [controlSequence_ids]
  decide

theorem exists_control (id : ControlId) : ∃ c ∈ controlSequence (F := F), c.id = id := by
  have hmem : id ∈ (controlSequence (F := F)).map Control.id := by
    rw [controlSequence_ids]
    cases id <;> decide
  exact List.mem_map.mp hmem

def runs (e : PreTradeRiskEngine F) (control : Control F) : Bool :=
  !e.limits.isDisabled control.id && control.isArmed e

/-- Whether one control will run, and if not, why not. -/
structure ControlStatus where
  id : ControlId
  name : String
  configured : Bool
  disabled : Bool

def ControlStatus.running (status : ControlStatus) : Bool := status.configured && !status.disabled

def ControlStatus.str (status : ControlStatus) : String :=
  if status.running then status.name ++ ": running"
  else if status.disabled then status.name ++ ": DISABLED"
  else status.name ++ ": no limit configured"

def controlStatus (e : PreTradeRiskEngine F) : List ControlStatus :=
  controlSequence.map fun c => ⟨c.id, c.name, c.isArmed e, e.limits.isDisabled c.id⟩

def runningControls (e : PreTradeRiskEngine F) : List ControlId := (controlSequence.filter (runs e)).map Control.id

def stoodDownControls (e : PreTradeRiskEngine F) : List ControlId :=
  (controlSequence.filter fun c => e.limits.isDisabled c.id && c.isArmed e).map Control.id

/-- One reading of the clock, one roll, then the first objection of the
sequence, or `ACCEPTED`. -/
def evaluate (files : Files) (e : PreTradeRiskEngine F) (now : ℤ) (request : OrderRequest F) :
    Except PyError (RiskDecision F × PreTradeRiskEngine F) := do
  let e ← e.rollTradingDay now
  let (objection, e) ← firstObjection runs
    (fun control e => control.check files e request now) controlSequence e
  return (objection.getD accepted, e)

end PretradeRisk.Evaluate
