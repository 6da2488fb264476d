import PretradeRisk.Session

namespace PretradeRisk.Snapshot

open Encoding Engine Host Store

section Keys

variable {F : Type} [PyFloat F]

theorem adopt_getMany [Zero F] [LT F] [DecidableLT F] (c : Counters F) (s : StateStore) (day : String) :
    c.adopt (getMany s counterKeys) day = c.adopt s day := rfl

theorem adopt_congr [Zero F] [LT F] [DecidableLT F] {s t : StateStore} (hst : ∀ key ∈ counterKeys, t key = s key)
    (c : Counters F) (day : String) : c.adopt t day = c.adopt s day := by
  rw [← adopt_getMany c t, ← adopt_getMany c s, getMany_congr hst]

variable [IntCast F]

theorem snapshot_keys (c : Counters F) : c.snapshot.map Prod.fst = counterKeys := rfl

theorem snapshot_nodup (c : Counters F) : (c.snapshot.map Prod.fst).Nodup := by
  rw [snapshot_keys]; decide

theorem setMany_snapshot_of_notMem (s : StateStore) (c : Counters F) {key : Key} (h : key ∉ counterKeys) :
    setMany s c.snapshot key = s key := setMany_of_notMem s _ (by rwa [snapshot_keys])

theorem getMany_refreshKeys (s : StateStore) (c : Counters F) :
    getMany (setMany s c.snapshot) refreshKeys = getMany s refreshKeys := by
  refine getMany_congr fun key hkey => setMany_snapshot_of_notMem s c ?_
  revert hkey
  cases key <;> decide

structure Survives (c : Counters F) : Prop where
  livePnl : RoundTrips c.livePnl
  simulatedPnl : RoundTrips c.simulatedPnl
  livePeak : RoundTrips c.livePeak
  simulatedPeak : RoundTrips c.simulatedPeak
  dailyNotional : RoundTrips c.dailyNotional
  consecutiveRejects : RoundTrips ((c.consecutiveRejects : ℤ) : F)
  executionsSinceRearm : RoundTrips ((c.executionsSinceRearm : ℤ) : F)

def Mirrors (s : StateStore) (c : Counters F) : Prop := ∀ entry ∈ c.snapshot, s entry.1 = some entry.2

theorem mirrors_setMany (s : StateStore) (c : Counters F) : Mirrors (setMany s c.snapshot) c :=
  fun _ h => setMany_of_mem s (snapshot_nodup c) h

theorem Mirrors.congr {s t : StateStore} {c : Counters F} (h : Mirrors s c)
    (hst : ∀ key ∈ counterKeys, t key = s key) : Mirrors t c := by
  intro entry hentry
  rw [hst entry.1 (snapshot_keys c ▸ List.mem_map_of_mem hentry)]
  exact h entry hentry

theorem mirrors_iff {s : StateStore} {c : Counters F} : Mirrors s c ↔
    s .tradingDay = some c.tradingDay ∧ s .liveRealizedPnl = some (encodeFloat c.livePnl) ∧
    s .simulatedRealizedPnl = some (encodeFloat c.simulatedPnl) ∧
    s .livePeakPnl = some (encodeFloat c.livePeak) ∧
    s .simulatedPeakPnl = some (encodeFloat c.simulatedPeak) ∧
    s .dailyNotional = some (encodeFloat c.dailyNotional) ∧
    s .consecutiveRejects = some (encodeFloat ((c.consecutiveRejects : ℤ) : F)) ∧
    s .executionsSinceRearm = some (encodeFloat ((c.executionsSinceRearm : ℤ) : F)) := by
  simp [Mirrors, Counters.snapshot]

structure DecodesTo (s : StateStore) (c : Counters F) : Prop where
  tradingDay : s .tradingDay = some c.tradingDay
  livePnl : decodeFloat (s .liveRealizedPnl) = some c.livePnl
  simulatedPnl : decodeFloat (s .simulatedRealizedPnl) = some c.simulatedPnl
  livePeak : decodeFloat (s .livePeakPnl) = some c.livePeak
  simulatedPeak : decodeFloat (s .simulatedPeakPnl) = some c.simulatedPeak
  dailyNotional : decodeFloat (s .dailyNotional) = some c.dailyNotional
  consecutiveRejects : decodeFloat (s .consecutiveRejects) = some ((c.consecutiveRejects : ℤ) : F)
  executionsSinceRearm : decodeFloat (s .executionsSinceRearm) = some ((c.executionsSinceRearm : ℤ) : F)

theorem Mirrors.decodesTo {s : StateStore} {c : Counters F} (h : Mirrors s c) (k : Survives c) : DecodesTo s c := by
  obtain ⟨h₁, h₂, h₃, h₄, h₅, h₆, h₇, h₈⟩ := mirrors_iff.mp h
  exact ⟨h₁, h₂ ▸ k.livePnl, h₃ ▸ k.simulatedPnl, h₄ ▸ k.livePeak, h₅ ▸ k.simulatedPeak,
    h₆ ▸ k.dailyNotional, h₇ ▸ k.consecutiveRejects, h₈ ▸ k.executionsSinceRearm⟩

theorem Mirrors.iff_snapshot_eq {s : StateStore} {c d : Counters F} (h : Mirrors s c) :
    Mirrors s d ↔ d.snapshot = c.snapshot := by
  constructor
  · intro hd
    obtain ⟨h₁, h₂, h₃, h₄, h₅, h₆, h₇, h₈⟩ := mirrors_iff.mp h
    obtain ⟨d₁, d₂, d₃, d₄, d₅, d₆, d₇, d₈⟩ := mirrors_iff.mp hd
    simp only [h₁, h₂, h₃, h₄, h₅, h₆, h₇, h₈, Option.some.injEq] at d₁ d₂ d₃ d₄ d₅ d₆ d₇ d₈
    simp only [Counters.snapshot, d₁, d₂, d₃, d₄, d₅, d₆, d₇, d₈]
  · intro heq
    rw [Mirrors, heq]
    exact h

end Keys

section Reading

variable {F : Type} [Zero F] [LT F] [DecidableLT F] [PyFloat F]

/-- The counters the store spells out for a day. -/
def asRead (s : StateStore) (day : String) : Counters F where
  tradingDay := day
  livePnl := decodeOrZero (s .liveRealizedPnl)
  simulatedPnl := decodeOrZero (s .simulatedRealizedPnl)
  livePeak := decodeOrZero (s .livePeakPnl)
  simulatedPeak := decodeOrZero (s .simulatedPeakPnl)
  dailyNotional := decodeOrZero (s .dailyNotional)
  consecutiveRejects := asCount F (s .consecutiveRejects)
  executionsSinceRearm := asCount F (s .executionsSinceRearm)

/-- Peaks that mark at least zero and their P&L. -/
def repaired (c : Counters F) : Counters F :=
  { c with
    livePeak := pyMax (pyMax 0 c.livePnl) c.livePeak
    simulatedPeak := pyMax (pyMax 0 c.simulatedPnl) c.simulatedPeak }

theorem adopt_of_date (c : Counters F) {s : StateStore} {day : String} (h : s .tradingDay = some day) :
    c.adopt s day = repaired (asRead s day) := by
  simp [Counters.adopt, h, repaired, asRead]

end Reading

variable [PyFloat ℚ]

omit [PyFloat ℚ] in
/-- A high water mark is below neither zero nor the P&L it marks. -/
structure Peaked (c : Counters ℚ) : Prop where
  nonneg : ∀ leg, 0 ≤ c.legPeak leg
  pnl_le : ∀ leg, c.legPnl leg ≤ c.legPeak leg

theorem decodeOrZero_of_roundTrips {x : ℚ} (h : RoundTrips x) : decodeOrZero (some (encodeFloat x)) = x := by
  rw [decodeOrZero, h]; rfl

theorem asCount_of_roundTrips [ExactFloat] {n : ℕ} (h : RoundTrips ((n : ℤ) : ℚ)) :
    asCount ℚ (some (encodeFloat ((n : ℤ) : ℚ))) = n := by
  have hneg : ¬ (((n : ℤ) : ℚ) < 0) := not_lt.mpr (by exact_mod_cast Int.natCast_nonneg n)
  rw [asCount, h]
  simp only [hneg, if_false, ExactFloat.int_intCast, Int.toNat_natCast]

theorem adopt_of_date_ne (c : Counters ℚ) {s : StateStore} {day : String} (h : s .tradingDay ≠ some day) :
    c.adopt s day =
      { c with tradingDay := day, executionsSinceRearm := asCount ℚ (s .executionsSinceRearm) } := by
  simp [Counters.adopt, h]

theorem asRead_of_mirrors [ExactFloat] {s : StateStore} {d : Counters ℚ} (h : Mirrors s d)
    (hsurvives : Survives d) : asRead s d.tradingDay = d := by
  obtain ⟨h₁, h₂, h₃, h₄, h₅, h₆, h₇, h₈⟩ := mirrors_iff.mp h
  simp only [asRead, h₂, h₃, h₄, h₅, h₆, h₇, h₈,
    decodeOrZero_of_roundTrips hsurvives.livePnl, decodeOrZero_of_roundTrips hsurvives.simulatedPnl,
    decodeOrZero_of_roundTrips hsurvives.livePeak, decodeOrZero_of_roundTrips hsurvives.simulatedPeak,
    decodeOrZero_of_roundTrips hsurvives.dailyNotional, asCount_of_roundTrips hsurvives.consecutiveRejects,
    asCount_of_roundTrips hsurvives.executionsSinceRearm]

omit [PyFloat ℚ] in
theorem repaired_of_peaked {c : Counters ℚ} (h : Peaked c) : repaired c = c := by
  have hlive : max (max 0 c.livePnl) c.livePeak = c.livePeak :=
    max_eq_right (max_le (h.nonneg true) (h.pnl_le true))
  have hsimulated : max (max 0 c.simulatedPnl) c.simulatedPeak = c.simulatedPeak :=
    max_eq_right (max_le (h.nonneg false) (h.pnl_le false))
  simp only [repaired, pyMax_eq_max, hlive, hsimulated]

omit [PyFloat ℚ] in
theorem peaked_repaired (c : Counters ℚ) : Peaked (repaired c) := by
  constructor <;> intro leg <;> cases leg <;> simp [repaired, Counters.legPnl, Counters.legPeak]

theorem adopt_of_mirrors [ExactFloat] (c : Counters ℚ) {s : StateStore} {d : Counters ℚ} (h : Mirrors s d)
    (hsurvives : Survives d) (hpeaked : Peaked d) : c.adopt s d.tradingDay = d := by
  rw [adopt_of_date c (mirrors_iff.mp h).1, asRead_of_mirrors h hsurvives, repaired_of_peaked hpeaked]

omit [PyFloat ℚ] in
theorem peaked_dayStart (today : String) (n : ℕ) : Peaked (Counters.dayStart today n) := by
  constructor <;> intro leg <;> cases leg <;> exact le_rfl

omit [PyFloat ℚ] in
theorem Peaked.roll {c : Counters ℚ} (h : Peaked c) (day : String) : Peaked (c.roll day) := by
  by_cases hday : day = c.tradingDay
  · rwa [Counters.roll_of_eq hday]
  · rw [Counters.roll_of_ne hday]; exact peaked_dayStart day _

omit [PyFloat ℚ] in
theorem Peaked.apply {c : Counters ℚ} (h : Peaked c) (event : CounterEvent ℚ) : Peaked (event.apply c) := by
  obtain ⟨hnonneg, hpnl⟩ := h
  cases event with
  | realizedPnl pnlUsd isLive =>
      have h₁ := hnonneg isLive
      constructor <;> intro leg <;> have h₂ := hnonneg leg <;> have h₃ := hpnl leg <;>
        cases isLive <;> cases leg <;>
        simp_all [CounterEvent.apply, Counters.legPnl, Counters.legPeak]
  | _ => exact ⟨hnonneg, hpnl⟩

theorem Peaked.adopt {c : Counters ℚ} (h : Peaked c) (s : StateStore) (day : String) :
    Peaked (c.adopt s day) := by
  by_cases hday : s .tradingDay = some day
  · rw [adopt_of_date c hday]
    exact peaked_repaired _
  · rw [adopt_of_date_ne c hday]
    exact ⟨h.nonneg, h.pnl_le⟩

end PretradeRisk.Snapshot
