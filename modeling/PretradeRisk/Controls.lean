import PretradeRisk.Engine

namespace PretradeRisk.Controls

open Encoding Engine Host Store

variable {F : Type}

def maxBypassDurationMillis : ℤ := 24 * 60 * 60 * 1000

structure BypassRecord (F : Type) where
  enabled : Bool
  expiresAtMillis : Option F
  actor : String
  reason : String
  setAtMillis : Option F

def BypassRecord.activeAt [IntCast F] [LT F] [DecidableLT F] (b : BypassRecord F) (nowMillis : ℤ) : Bool :=
  match b.enabled, b.expiresAtMillis with
  | true, some expiresAt => decide ((nowMillis : F) < expiresAt)
  | _, _ => false

def bypassLossLimit (F : Type) [IntCast F] [PyFloat F] (durationMillis : ℤ) (actor reason : String)
    (now : ℤ) : Except PyError (Entries × ℤ) := do
  refuse (durationMillis ≤ 0) "a bypass must have a positive duration"
  refuse (maxBypassDurationMillis < durationMillis)
    ("a bypass may not exceed " ++ toString maxBypassDurationMillis
      ++ " ms; re-set the limit instead of suspending it for longer")
  refuse (blank actor) "a bypass must record who authorised it"
  refuse (blank reason) "a bypass must record why it was authorised"
  let expiresAt := now + durationMillis
  let encodedExpiry := encodeFloat (← toFloat F expiresAt)
  let encodedNow := encodeFloat (← toFloat F now)
  return ([(.lossLimitBypass, encodeBool true), (.lossLimitBypassExpiresAt, encodedExpiry),
    (.lossLimitBypassActor, actor), (.lossLimitBypassReason, reason),
    (.lossLimitBypassSetAt, encodedNow)], expiresAt)

def clearLossLimitBypass (F : Type) [IntCast F] [PyFloat F] (actor : String) (now : ℤ) :
    Except PyError Entries := do
  refuse (blank actor) "clearing a bypass must record who did it"
  let encodedNow := encodeFloat (← toFloat F now)
  return [(.lossLimitBypass, encodeBool false), (.lossLimitBypassExpiresAt, ""),
    (.lossLimitBypassActor, actor), (.lossLimitBypassReason, "bypass cleared"),
    (.lossLimitBypassSetAt, encodedNow)]

def readLossLimitBypass [PyFloat F] (s : StateStore) : BypassRecord F where
  enabled := decodeBool (s .lossLimitBypass)
  expiresAtMillis := decodeFloat (s .lossLimitBypassExpiresAt)
  actor := (s .lossLimitBypassActor).getD ""
  reason := (s .lossLimitBypassReason).getD ""
  setAtMillis := decodeFloat (s .lossLimitBypassSetAt)

/-- The batch of `reset_daily_loss_limit`: both P&L figures and both peaks. -/
def resetDailyLossLimit (F : Type) [Zero F] [PyFloat F] : Entries :=
  [(.liveRealizedPnl, encodeFloat (0 : F)), (.simulatedRealizedPnl, encodeFloat (0 : F)),
    (.livePeakPnl, encodeFloat (0 : F)), (.simulatedPeakPnl, encodeFloat (0 : F))]

def encodeOverride [Zero F] [LE F] [DecidableLE F] [PyFloat F] : Option F → String
  | none => ""
  | some value => if value ≤ 0 then "" else encodeFloat value

def setRuntimeMaxOrderNotional [Zero F] [LE F] [DecidableLE F] [PyFloat F] (value : Option F) : Entries :=
  [(.runtimeMaxOrderNotional, encodeOverride value)]

def getRuntimeMaxOrderNotional [Zero F] [LE F] [DecidableLE F] [PyFloat F] (s : StateStore) : Option F :=
  decodePositiveFloat (s .runtimeMaxOrderNotional)

def setRuntimeMaxOrderQuantity [Zero F] [LE F] [DecidableLE F] [PyFloat F] (value : Option F) : Entries :=
  [(.runtimeMaxOrderQuantity, encodeOverride value)]

def getRuntimeMaxOrderQuantity [Zero F] [LE F] [DecidableLE F] [PyFloat F] (s : StateStore) : Option F :=
  decodePositiveFloat (s .runtimeMaxOrderQuantity)

inductive OverrideCall (F : Type)
  | bypassLossLimit (durationMillis : ℤ) (actor reason : String)
  | clearLossLimitBypass (actor : String)
  | setRuntimeMaxOrderNotional (value : Option F)
  | setRuntimeMaxOrderQuantity (value : Option F)

def OverrideCall.entries [Zero F] [IntCast F] [LE F] [DecidableLE F] [PyFloat F] (call : OverrideCall F)
    (now : ℤ) : Except PyError Entries :=
  match call with
  | .bypassLossLimit durationMillis actor reason =>
      (Controls.bypassLossLimit F durationMillis actor reason now).map Prod.fst
  | .clearLossLimitBypass actor => Controls.clearLossLimitBypass F actor now
  | .setRuntimeMaxOrderNotional value => .ok (Controls.setRuntimeMaxOrderNotional value)
  | .setRuntimeMaxOrderQuantity value => .ok (Controls.setRuntimeMaxOrderQuantity value)

/-- What `bypass_loss_limit` checks before it writes anything. -/
structure BypassAdmitted (durationMillis : ℤ) (actor reason : String) : Prop where
  positive : 0 < durationMillis
  bounded : durationMillis ≤ maxBypassDurationMillis
  actor : blank actor = false
  reason : blank reason = false

theorem bypassLossLimit_eq_ok [IntCast F] [PyFloat F] {durationMillis : ℤ} {actor reason : String}
    {now : ℤ} {entries : Entries}
    {expiresAt : ℤ} (h : bypassLossLimit F durationMillis actor reason now = .ok (entries, expiresAt)) :
    BypassAdmitted durationMillis actor reason ∧ expiresAt = now + durationMillis ∧
      (PyFloat.fits F (now + durationMillis) = true ∧ PyFloat.fits F now = true) ∧
      entries = [(.lossLimitBypass, encodeBool true),
        (.lossLimitBypassExpiresAt, encodeFloat ((now + durationMillis : ℤ) : F)),
        (.lossLimitBypassActor, actor), (.lossLimitBypassReason, reason),
        (.lossLimitBypassSetAt, encodeFloat (now : F))] := by
  simp only [bypassLossLimit, bind_eq_ok, refuse_eq_ok, pure_eq_ok, toFloat_eq_ok] at h
  obtain ⟨-, hpos, -, hmax, -, hactor, -, hreason, x, ⟨hexpiry, rfl⟩, y, ⟨hnow, rfl⟩, h⟩ := h
  cases h
  exact ⟨⟨not_le.mp hpos, not_lt.mp hmax, by simpa using hactor, by simpa using hreason⟩, rfl, ⟨hexpiry, hnow⟩, rfl⟩

theorem clearLossLimitBypass_eq_ok [IntCast F] [PyFloat F] {actor : String} {now : ℤ} {entries : Entries}
    (h : clearLossLimitBypass F actor now = .ok entries) :
    blank actor = false ∧ PyFloat.fits F now = true ∧ entries = [(.lossLimitBypass, encodeBool false),
      (.lossLimitBypassExpiresAt, ""), (.lossLimitBypassActor, actor),
      (.lossLimitBypassReason, "bypass cleared"), (.lossLimitBypassSetAt, encodeFloat (now : F))] := by
  simp only [clearLossLimitBypass, bind_eq_ok, refuse_eq_ok, pure_eq_ok, toFloat_eq_ok] at h
  obtain ⟨-, hactor, y, ⟨hnow, rfl⟩, h⟩ := h
  cases h
  exact ⟨by simpa using hactor, hnow, rfl⟩

def OverrideCall.Admitted : OverrideCall F → Prop
  | .bypassLossLimit durationMillis actor reason => BypassAdmitted durationMillis actor reason
  | .clearLossLimitBypass actor => blank actor = false
  | .setRuntimeMaxOrderNotional _ | .setRuntimeMaxOrderQuantity _ => True

theorem OverrideCall.admitted_of_entries [Zero F] [IntCast F] [LE F] [DecidableLE F] [PyFloat F]
    {call : OverrideCall F} {now : ℤ} {entries : Entries} (h : call.entries now = .ok entries) :
    call.Admitted := by
  cases call with
  | bypassLossLimit durationMillis actor reason =>
      obtain ⟨_, hb, -⟩ := map_eq_ok.mp h
      exact (bypassLossLimit_eq_ok hb).1
  | clearLossLimitBypass actor => exact (clearLossLimitBypass_eq_ok h).1
  | setRuntimeMaxOrderNotional value => trivial
  | setRuntimeMaxOrderQuantity value => trivial

theorem OverrideCall.mem_overrideKeys [Zero F] [IntCast F] [LE F] [DecidableLE F] [PyFloat F]
    {call : OverrideCall F} {now : ℤ} {entries : Entries} (h : call.entries now = .ok entries) :
    ∀ key ∈ entries.map Prod.fst, key ∈ overrideKeys := by
  cases call with
  | bypassLossLimit durationMillis actor reason =>
      obtain ⟨_, hb, rfl⟩ := map_eq_ok.mp h
      obtain ⟨-, -, _, hentries⟩ := bypassLossLimit_eq_ok hb
      rw [hentries]; simp [overrideKeys]
  | clearLossLimitBypass actor =>
      obtain ⟨-, _, rfl⟩ := clearLossLimitBypass_eq_ok h
      simp [overrideKeys]
  | setRuntimeMaxOrderNotional value => cases h; simp [Controls.setRuntimeMaxOrderNotional, overrideKeys]
  | setRuntimeMaxOrderQuantity value => cases h; simp [Controls.setRuntimeMaxOrderQuantity, overrideKeys]

theorem OverrideCall.setMany_of_counterKeys [Zero F] [IntCast F] [LE F] [DecidableLE F] [PyFloat F]
    {call : OverrideCall F} {now : ℤ} {entries : Entries} (h : call.entries now = .ok entries) (s : StateStore)
    {key : Key} (hkey : key ∈ counterKeys) : setMany s entries key = s key :=
  setMany_of_notMem s entries fun hmem => notMem_counterKeys (OverrideCall.mem_overrideKeys h key hmem) hkey

section Reset

variable [Zero F] [PyFloat F]

theorem decode_reset (hzero : RoundTrips (0 : F)) (s : StateStore) (key : Key)
    (h : key ∈ (resetDailyLossLimit F).map Prod.fst) : decodeOrZero (setMany s (resetDailyLossLimit F) key) = (0 : F) := by
  have hnodup : ((resetDailyLossLimit F).map Prod.fst).Nodup := by simp [resetDailyLossLimit]
  have hmem : (key, encodeFloat (0 : F)) ∈ resetDailyLossLimit F := by simpa [resetDailyLossLimit] using h
  rw [setMany_of_mem s hnodup hmem, decodeOrZero, hzero]
  rfl

variable [LT F] [DecidableLT F]

theorem adopt_reset_legs (hzero : RoundTrips (0 : F)) (s : StateStore) (day₀ day : String) (leg : Bool) :
    let c := (Counters.fresh day₀ : Counters F).adopt (setMany s (resetDailyLossLimit F)) day
    c.legPnl leg = 0 ∧ c.legPeak leg = 0 := by
  have hlive := decode_reset hzero s .liveRealizedPnl (by simp [resetDailyLossLimit])
  have hsimulated := decode_reset hzero s .simulatedRealizedPnl (by simp [resetDailyLossLimit])
  have hlivePeak := decode_reset hzero s .livePeakPnl (by simp [resetDailyLossLimit])
  have hsimulatedPeak := decode_reset hzero s .simulatedPeakPnl (by simp [resetDailyLossLimit])
  by_cases hdate : setMany s (resetDailyLossLimit F) .tradingDay = some day
  · have hmax : pyMax (pyMax 0 0) 0 = (0 : F) := by rw [pyMax, pyMax, ite_self, ite_self]
    cases leg <;>
      simp [Counters.adopt, hdate, Counters.legPnl, Counters.legPeak, hlive, hsimulated, hlivePeak, hsimulatedPeak, hmax]
  · cases leg <;> simp [Counters.adopt, hdate, Counters.legPnl, Counters.legPeak, Counters.fresh, Counters.dayStart]

theorem adopt_reset_rest (s : StateStore) (day₀ day : String) :
    let c := (Counters.fresh day₀ : Counters F).adopt s day
    let c' := (Counters.fresh day₀ : Counters F).adopt (setMany s (resetDailyLossLimit F)) day
    c'.dailyNotional = c.dailyNotional ∧ c'.consecutiveRejects = c.consecutiveRejects ∧
      c'.executionsSinceRearm = c.executionsSinceRearm := by
  have hkept (key : Key) (hkey : key ∉ (resetDailyLossLimit F).map Prod.fst) := setMany_of_notMem s _ hkey
  have hdate := hkept .tradingDay (by simp [resetDailyLossLimit])
  have hnotional := hkept .dailyNotional (by simp [resetDailyLossLimit])
  have hrejects := hkept .consecutiveRejects (by simp [resetDailyLossLimit])
  have hexecutions := hkept .executionsSinceRearm (by simp [resetDailyLossLimit])
  by_cases h : s .tradingDay = some day
  · simp [Counters.adopt, hdate, h, hnotional, hrejects, hexecutions]
  · simp [Counters.adopt, hdate, h, hexecutions]

end Reset

end PretradeRisk.Controls
