import PretradeRisk.Restart
import PretradeRisk.Tightness

namespace PretradeRisk.Tear

open Admission Clock Encoding Engine Host Limits Orders Restart Run Session Snapshot Store Tightness

section Loads

variable [PyFloat ℚ]

variable {s : StateStore} {c old new : Counters ℚ} {k : ℕ} {day today₀ : String} {leg : Bool}

end Loads

section Runs

variable [PyFloat ℚ]

variable {start n : ℤ} {calls : List (Call ℚ)} {call : Call ℚ} {d d' : Desk ℚ} {day today₀ : String}

structure Sound (c : Counters ℚ) : Prop where
  survives : Survives c
  nonneg : 0 ≤ c.dailyNotional

/-- The next thing to write: a report, or a reset of the loss limit beside
the stopped engine. -/
inductive Write
  | report (event : CounterEvent ℚ)
  | resetDailyLossLimit

def Write.entries (write : Write) (d : Desk ℚ) (day : String) : Entries :=
  match write with
  | .report event => (d.reported event day).engine.snapshot
  | .resetDailyLossLimit => Controls.resetDailyLossLimit ℚ

end Runs

open scoped Decimal

end PretradeRisk.Tear
