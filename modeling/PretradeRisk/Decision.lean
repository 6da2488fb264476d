import Mathlib.Data.Finset.Insert

namespace PretradeRisk.Decision

inductive ControlId
  | killSwitch
  | dailyLossLimit
  | instrumentUniverse
  | restrictedList
  | sessionState
  | shortSaleLocate
  | orderQuantity
  | orderPrice
  | orderNotional
  | maxOrderQuantity
  | maxOrderNotional
  | quoteAge
  | priceBand
  | executionSlippage
  | duplicateOrder
  | orderRate
  | consecutiveRejects
  | repeatedExecution
  | workingOrders
  | openPositions
  | positionLimit
  | selfMatchPrevention
  | grossExposure
  | dailyNotionalLimit
  deriving DecidableEq, Repr

/-- `ControlId.value`, for the controls an error message can name. -/
def alwaysOnValues : List (ControlId × String) :=
  [(.orderNotional, "ORDER_NOTIONAL"), (.orderPrice, "ORDER_PRICE"), (.orderQuantity, "ORDER_QUANTITY")]

def alwaysOn : Finset ControlId := {.orderQuantity, .orderPrice, .orderNotional}

inductive RejectCode
  | killSwitchEngaged
  | lossLimitBreached
  | dailyNotionalLimitExceeded
  | instrumentNotPermitted
  | instrumentRestricted
  | marketSessionNotOpen
  | shortSaleLocateMissing
  | selfMatchPrevented
  | orderQuantityNotPositive
  | orderPriceNotPositive
  | orderNotionalNotPositive
  | maxOrderQuantityExceeded
  | maxOrderNotionalExceeded
  | marketDataUnavailable
  | marketDataStale
  | priceBandExceeded
  | executionSlippageExceeded
  | duplicateOrder
  | orderRateExceeded
  | consecutiveRejectLimitExceeded
  | repeatedExecutionThrottle
  | maxWorkingOrdersExceeded
  | maxOpenPositionsExceeded
  | maxPositionExceeded
  | grossExposureLimitExceeded
  deriving DecidableEq, Repr

structure RiskDecision (F : Type) where
  accepted : Bool
  code : Option RejectCode := none
  control : String := ""
  message : String := ""
  limit : Option F := none
  observed : Option F := none

variable {F : Type}

def RiskDecision.reject (code : RejectCode) (control message : String) (limit : Option F := none)
    (observed : Option F := none) : RiskDecision F :=
  ⟨false, some code, control, message, limit, observed⟩

def accepted : RiskDecision F := ⟨true, none, "", "", none, none⟩

@[simp] theorem reject_accepted (code : RejectCode) (control message : String) (limit observed : Option F) :
    (RiskDecision.reject code control message limit observed).accepted = false := rfl

@[simp] theorem accepted_accepted : (accepted : RiskDecision F).accepted = true := rfl

end PretradeRisk.Decision
