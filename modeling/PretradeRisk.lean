import PretradeRisk.Budget
import PretradeRisk.Bypass
import PretradeRisk.Channel
import PretradeRisk.ClockSteps
import PretradeRisk.Concurrent
import PretradeRisk.Decoding
import PretradeRisk.Disabling
import PretradeRisk.Drawdown
import PretradeRisk.DuplicateOrder
import PretradeRisk.Fingerprints
import PretradeRisk.Headroom
import PretradeRisk.Hypothetical
import PretradeRisk.InFlight
import PretradeRisk.Latching
import PretradeRisk.Legs
import PretradeRisk.Loosening
import PretradeRisk.Outage
import PretradeRisk.Parity
import PretradeRisk.PositionLimit
import PretradeRisk.Rearming
import PretradeRisk.Reload
import PretradeRisk.Room
import PretradeRisk.Slicing
import PretradeRisk.SystemClock
import PretradeRisk.Tear
import PretradeRisk.Thresholds
import PretradeRisk.Totality
import PretradeRisk.UnroundedRuns
import PretradeRisk.WindowHistory
import PretradeRisk.Wiring
