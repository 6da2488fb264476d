import PretradeRisk.Clock
import PretradeRisk.Decision
import PretradeRisk.Orders

namespace PretradeRisk.Limits

open Clock Decision Host Orders

/-- The thresholds as they are handed to the constructor; `none` leaves a
control unarmed. -/
structure LimitFields (F : Type) where
  killSwitchPath : Option String := none
  dailyLossLimitUsd : Option F := none
  dailyNotionalLimitUsd : Option F := none
  maxOrderQuantity : Option F := none
  maxOrderNotionalUsd : Option F := none
  priceBandFraction : Option F := none
  maxExecutionSlippage : Option F := none
  maxQuoteAgeMillis : Option ℤ := none
  duplicateWindowMillis : Option ℤ := none
  maxOrdersPerWindow : Option ℤ := none
  orderRateWindowMillis : ℤ := 1000
  maxConsecutiveRejects : Option ℤ := none
  maxExecutionsWithoutReview : Option ℤ := none
  maxWorkingOrders : Option ℤ := none
  maxOpenPositions : Option ℤ := none
  maxPositionQuantity : Option F := none
  maxGrossExposureUsd : Option F := none
  preventSelfMatch : Bool := false
  requireShortSaleLocate : Bool := false
  permittedInstruments : Option (Finset String) := none
  restrictedInstruments : Finset String := ∅
  tradeableSessionStates : Option (Finset SessionState) := none
  sessionRollMillis : ℤ := 0
  disabledControls : Finset ControlId := ∅

variable {F : Type}

def LimitFields.amounts (l : LimitFields F) : List (String × Option F) :=
  [("daily_loss_limit_usd", l.dailyLossLimitUsd), ("daily_notional_limit_usd", l.dailyNotionalLimitUsd),
    ("max_order_quantity", l.maxOrderQuantity), ("max_order_notional_usd", l.maxOrderNotionalUsd),
    ("price_band_fraction", l.priceBandFraction), ("max_execution_slippage", l.maxExecutionSlippage),
    ("max_position_quantity", l.maxPositionQuantity), ("max_gross_exposure_usd", l.maxGrossExposureUsd)]

def LimitFields.counts (l : LimitFields F) : List (String × Option ℤ) :=
  [("max_quote_age_millis", l.maxQuoteAgeMillis), ("duplicate_window_millis", l.duplicateWindowMillis),
    ("max_orders_per_window", l.maxOrdersPerWindow), ("max_consecutive_rejects", l.maxConsecutiveRejects),
    ("max_executions_without_review", l.maxExecutionsWithoutReview),
    ("max_working_orders", l.maxWorkingOrders), ("max_open_positions", l.maxOpenPositions)]

def requirePositive {α : Type} [Zero α] [LE α] [DecidableLE α] (message : String) (repr : α → String) :
    List (String × Option α) → Except PyError Unit
  | [] => .ok ()
  | (_, none) :: fields => requirePositive message repr fields
  | (name, some value) :: fields =>
      if value ≤ 0 then .error (.valueError (name ++ message ++ repr value))
      else requirePositive message repr fields

/-- `RiskLimits.__post_init__`. -/
def LimitFields.postInit [Zero F] [LE F] [DecidableLE F] [PyFloat F] (l : LimitFields F) :
    Except PyError Unit := do
  requirePositive " must be positive when set, got " PyFloat.repr l.amounts
  requirePositive " must be a positive integer when set, got " toString l.counts
  refuse (l.orderRateWindowMillis ≤ 0) "order_rate_window_millis must be positive"
  refuse (¬ (0 ≤ l.sessionRollMillis ∧ l.sessionRollMillis < millisPerDay))
    "session_roll_millis must be within [0, 86_400_000)"
  let locked := alwaysOnValues.filter fun c => c.1 ∈ l.disabledControls ∩ alwaysOn
  refuse (locked ≠ [])
    ("these controls decide whether an order is well formed at all and cannot be disabled: ["
      ++ ", ".intercalate (locked.map fun c => "'" ++ c.2 ++ "'") ++ "]")

structure RiskLimits (F : Type) [Zero F] [LE F] [DecidableLE F] [PyFloat F] extends LimitFields F where
  admitted : toLimitFields.postInit = .ok ()

section Admission

variable [Zero F] [LE F] [DecidableLE F] [PyFloat F]

def RiskLimits.make (fields : LimitFields F) : Except PyError (RiskLimits F) :=
  match h : fields.postInit with
  | .ok () => .ok ⟨fields, h⟩
  | .error e => .error e

def RiskLimits.disable (l : RiskLimits F) (controls : List ControlId) : Except PyError (RiskLimits F) :=
  RiskLimits.make { l.toLimitFields with disabledControls := l.disabledControls ∪ controls.toFinset }

def RiskLimits.enable (l : RiskLimits F) (controls : List ControlId) : Except PyError (RiskLimits F) :=
  RiskLimits.make { l.toLimitFields with disabledControls := l.disabledControls \ controls.toFinset }

def RiskLimits.isDisabled (l : RiskLimits F) (control : ControlId) : Bool :=
  if control ∈ alwaysOn then false else decide (control ∈ l.disabledControls)

theorem requirePositive_eq_ok {α : Type} [Zero α] [LE α] [DecidableLE α] {message : String}
    {repr : α → String} {fields : List (String × Option α)} {u : Unit} :
    requirePositive message repr fields = .ok u ↔
      ∀ name value, (name, some value) ∈ fields → ¬ value ≤ 0 := by
  induction fields with
  | nil => simp [requirePositive]
  | cons field fields ih =>
      obtain ⟨name, value | value⟩ := field
      · simp [requirePositive, ih]
      · simp only [requirePositive]
        split
        · refine ⟨fun h => (by cases h), fun h => absurd ‹value ≤ 0› (h name value ?_)⟩
          exact List.mem_cons_self
        · rw [ih]
          constructor
          · intro h name' value' hm
            rcases List.mem_cons.mp hm with he | hm
            · cases he; assumption
            · exact h name' value' hm
          · exact fun h name' value' hm => h name' value' (List.mem_cons_of_mem _ hm)

structure LimitFields.Admissible (l : LimitFields F) : Prop where
  amounts : ∀ name value, (name, some value) ∈ l.amounts → ¬ value ≤ 0
  counts : ∀ name value, (name, some value) ∈ l.counts → 0 < value
  orderRateWindow : 0 < l.orderRateWindowMillis
  sessionRoll : 0 ≤ l.sessionRollMillis ∧ l.sessionRollMillis < millisPerDay
  disabled : Disjoint l.disabledControls alwaysOn

theorem locked_eq_nil {s : Finset ControlId} :
    (alwaysOnValues.filter fun c => c.1 ∈ s ∩ alwaysOn) = [] ↔ Disjoint s alwaysOn := by
  rw [disjoint_comm]
  simp [alwaysOnValues, alwaysOn]
  tauto

theorem postInit_eq_ok {l : LimitFields F} : l.postInit = .ok () ↔ l.Admissible := by
  simp only [LimitFields.postInit, bind_eq_ok, refuse_eq_ok, requirePositive_eq_ok, ne_eq,
    not_not, locked_eq_nil, exists_const, not_le]
  constructor
  · rintro ⟨ha, hc, hw, hr, hd⟩
    exact ⟨ha, hc, hw, hr, hd⟩
  · rintro ⟨ha, hc, hw, hr, hd⟩
    exact ⟨ha, hc, hw, hr, hd⟩

theorem RiskLimits.admissible (l : RiskLimits F) : l.Admissible := postInit_eq_ok.mp l.admitted

theorem RiskLimits.amount_pos [PyFloat ℚ] (l : RiskLimits ℚ) (name : String) {x : ℚ}
    (h : (name, some x) ∈ l.amounts) : 0 < x := not_le.mp (l.admissible.amounts name x h)

theorem RiskLimits.count_pos (l : RiskLimits F) (name : String) {n : ℤ}
    (h : (name, some n) ∈ l.counts) : 0 < n := l.admissible.counts name n h

theorem RiskLimits.duplicateWindow_pos (l : RiskLimits F) {n : ℤ}
    (h : l.duplicateWindowMillis = some n) : 0 < n :=
  l.count_pos "duplicate_window_millis" (by simp [LimitFields.counts, h])

end Admission

end PretradeRisk.Limits
