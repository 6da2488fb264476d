import PretradeRisk.DayHistory
import PretradeRisk.Journal
import PretradeRisk.NonFinite
import PretradeRisk.Snapshot

namespace PretradeRisk.Crashes

open Clock Controls Encoding Engine Evaluate Host Ieee Journal Limits NonFinite Orders Pruning Run Session Store
open DayHistory (SumsTo sumsTo_dayStart tally tally_snoc)
open Snapshot (adopt_congr)

structure Process where
  engine : PreTradeRiskEngine Float64
  store : StateStore

inductive Act
  /-- a `record_*` call, or `rearm`, and whether its batch is written -/
  | report (event : CounterEvent Float64) (lands : Bool)
  | recordOrderSent (request : OrderRequest Float64)
  | evaluate (files : Files) (request : OrderRequest Float64)
  /-- a property, or `loss_limit_breached` -/
  | read
  | persist (lands : Bool)
  | refreshOverrides
  | control (call : OverrideCall Float64)
  /-- the process dies, and one built at a reading loads the store -/
  | restart (built : ℤ) (lands : Bool)

structure Turn where
  now : ℤ
  act : Act

structure Report where
  day : String
  event : CounterEvent Float64

def Process.perform (p : Process) (turn : Turn) : Except PyError (Process) :=
  match turn.act with
  | .report event lands => do
      let e ← p.engine.record event turn.now
      return ⟨e, if lands then e.persist p.store else p.store⟩
  | .recordOrderSent request => .ok { p with engine := p.engine.recordOrderSent request turn.now }
  | .evaluate files request => do
      let (_, e) ← Evaluate.evaluate files p.engine turn.now request
      return { p with engine := e }
  | .read => do
      let e ← p.engine.rollTradingDay turn.now
      return { p with engine := e }
  | .persist lands => .ok { p with store := if lands then p.engine.persist p.store else p.store }
  | .refreshOverrides => .ok { p with engine := p.engine.refreshOverrides p.store }
  | .control call => do
      let entries ← call.entries turn.now
      return { p with store := setMany p.store entries }
  | .restart built lands => do
      let e ← PreTradeRiskEngine.new p.engine.limits p.engine.isLive built
      let (e, s) ← e.load p.store turn.now
      return ⟨e, if lands then s else p.store⟩

abbrev Survives (p : Process) (turns : List (Turn)) (p' : Process) : Prop :=
  Steps (fun p turn p' => p.perform turn = .ok p') p turns p'

/-- What a turn does to the counters, in memory and in the store. -/
inductive Moves (p : Process) (n : ℤ) : Act → Process → Prop
  | report {event : CounterEvent Float64} {lands : Bool} {day : String} {p' : Process}
      (hday : p.engine.today n = .ok day) (hc : p'.engine.counters = event.apply (p.engine.counters.roll day))
      (hs : p'.store = if lands then setMany p.store p'.engine.snapshot else p.store) :
      Moves p n (.report event lands) p'
  | roll {act : Act} {day : String} {p' : Process}
      (hact : act = .read ∨ ∃ files request, act = .evaluate files request)
      (hday : p.engine.today n = .ok day) (hc : p'.engine.counters = p.engine.counters.roll day)
      (hs : p'.store = p.store) : Moves p n act p'
  | keep {act : Act} {p' : Process}
      (hact : act = .refreshOverrides ∨ (∃ request, act = .recordOrderSent request) ∨ ∃ call, act = .control call)
      (hc : p'.engine.counters = p.engine.counters) (hs : ∀ key ∈ counterKeys, p'.store key = p.store key) :
      Moves p n act p'
  | persist {lands : Bool} {p' : Process} (hc : p'.engine.counters = p.engine.counters)
      (hs : p'.store = if lands then setMany p.store p'.engine.snapshot else p.store) : Moves p n (.persist lands) p'
  | restart {built : ℤ} {lands : Bool} {today₀ day : String} {p' : Process} (hday : p.engine.today n = .ok day)
      (hc : p'.engine.counters = (Counters.fresh today₀).adopt p.store day)
      (hs : p'.store = if lands then setMany p.store p'.engine.snapshot else p.store) :
      Moves p n (.restart built lands) p'

variable {p p' : Process} {turn : Turn} {turns : List (Turn)}

theorem perform_moves (h : p.perform turn = .ok p') : p'.engine.limits = p.engine.limits ∧
    p'.engine.isLive = p.engine.isLive ∧ Moves p turn.now turn.act p' := by
  obtain ⟨n, act⟩ := turn
  cases act with
  | report event lands =>
      simp only [Process.perform, PreTradeRiskEngine.record, PreTradeRiskEngine.rollTradingDay, bind_eq_ok,
        pure_eq_ok, Except.ok.injEq] at h
      obtain ⟨_, ⟨_, ⟨day, hday, rfl⟩, rfl⟩, rfl⟩ := h
      exact ⟨rfl, rfl, .report hday rfl rfl⟩
  | recordOrderSent request => cases h; exact ⟨rfl, rfl, .keep (.inr (.inl ⟨_, rfl⟩)) rfl fun _ _ => rfl⟩
  | evaluate files request =>
      simp only [Process.perform, bind_eq_ok, pure_eq_ok, Except.ok.injEq, Prod.exists] at h
      obtain ⟨_, f, hf, rfl⟩ := h
      obtain ⟨day, hday, hpruned⟩ := evaluate_pruned hf
      exact ⟨hpruned.limits, hpruned.isLive, .roll (.inr ⟨_, _, rfl⟩) hday hpruned.counters rfl⟩
  | read =>
      simp only [Process.perform, PreTradeRiskEngine.rollTradingDay, bind_eq_ok, pure_eq_ok, Except.ok.injEq] at h
      obtain ⟨_, ⟨day, hday, rfl⟩, rfl⟩ := h
      exact ⟨rfl, rfl, .roll (.inl rfl) hday rfl rfl⟩
  | persist lands => cases h; exact ⟨rfl, rfl, .persist rfl rfl⟩
  | refreshOverrides => cases h; exact ⟨rfl, rfl, .keep (.inl rfl) rfl fun _ _ => rfl⟩
  | control call =>
      simp only [Process.perform, bind_eq_ok, pure_eq_ok, Except.ok.injEq] at h
      obtain ⟨entries, hentries, rfl⟩ := h
      exact ⟨rfl, rfl, .keep (.inr (.inr ⟨_, rfl⟩)) rfl fun key hkey =>
        OverrideCall.setMany_of_counterKeys hentries p.store hkey⟩
  | restart built lands =>
      simp only [Process.perform, bind_eq_ok, pure_eq_ok, Except.ok.injEq, new_eq_ok, Prod.exists] at h
      obtain ⟨_, ⟨day₀, -, rfl⟩, f, s, hload, rfl⟩ := h
      simp only [PreTradeRiskEngine.load, PreTradeRiskEngine.loadCounters, bind_eq_ok, pure_eq_ok, Except.ok.injEq] at hload
      obtain ⟨_, ⟨day, hday, rfl⟩, hf⟩ := hload
      cases hf
      exact ⟨rfl, rfl, .restart hday rfl rfl⟩

theorem perform_report {n : ℤ} {event : CounterEvent Float64} {lands : Bool} {day : String}
    (h : p.engine.today n = .ok day) : ∃ p', p.perform ⟨n, .report event lands⟩ = .ok p' := by
  simp only [Process.perform, PreTradeRiskEngine.record, PreTradeRiskEngine.rollTradingDay, h, ok_bind, pure_eq_ok]
  exact ⟨_, rfl⟩

theorem perform_restart {n built : ℤ} {lands : Bool} {today₀ day : String} (hbuilt : p.engine.today built = .ok today₀)
    (h : p.engine.today n = .ok day) :
    ∃ p', p.perform ⟨n, .restart built lands⟩ = .ok p' ∧ p'.engine.overrides = Overrides.none := by
  have hnew : PreTradeRiskEngine.new p.engine.limits p.engine.isLive built =
      .ok (.onDay p.engine.limits p.engine.isLive today₀) := new_eq_ok.mpr ⟨_, hbuilt, rfl⟩
  have hload : (PreTradeRiskEngine.onDay p.engine.limits p.engine.isLive today₀).today n = .ok day := h
  simp only [Process.perform, hnew, ok_bind, PreTradeRiskEngine.load_of_today hload, pure_eq_ok]
  exact ⟨_, rfl, rfl⟩

theorem reported_of_perform {n : ℤ} {event : CounterEvent Float64} {lands : Bool}
    (h : p.perform ⟨n, .report event lands⟩ = .ok p') : ∃ day, p.engine.today n = .ok day ∧
      p'.engine.counters = event.apply (p.engine.counters.roll day) := by
  simp only [Process.perform, PreTradeRiskEngine.record, PreTradeRiskEngine.rollTradingDay, bind_eq_ok, pure_eq_ok,
    Except.ok.injEq] at h
  obtain ⟨_, ⟨_, ⟨day, hday, rfl⟩, rfl⟩, rfl⟩ := h
  exact ⟨day, hday, rfl⟩

theorem survives_limits (h : Survives p turns p') : p'.engine.limits = p.engine.limits :=
  Steps.invariant (P := fun t => t.engine.limits = p.engine.limits) rfl
    (fun ht hstep => (perform_moves hstep).1.trans ht) h

theorem survives_isLive (h : Survives p turns p') : p'.engine.isLive = p.engine.isLive :=
  Steps.invariant (P := fun t => t.engine.isLive = p.engine.isLive) rfl
    (fun ht hstep => (perform_moves hstep).2.1.trans ht) h

/-- The counters after a log of reports. -/
def replay (c₀ : Counters Float64) (reports : List Report) : Counters Float64 :=
  reports.foldl (fun c report => report.event.apply (c.roll report.day)) c₀

theorem replay_snoc (c₀ : Counters Float64) (reports : List Report) (report : Report) :
    replay c₀ (reports ++ [report]) = report.event.apply ((replay c₀ reports).roll report.day) := by
  rw [replay, List.foldl_append]
  rfl

/-- What a turn is to the log of reports: a load writes nothing the store did
not hold. -/
def Turn.logged (rollMillis : ℤ) (turn : Turn) : Option (Journal.Event Report) :=
  match turn.act with
  | .report event lands => (tradingDay turn.now rollMillis).toOption.map fun day => .append ⟨day, event⟩ lands
  | .persist true => some .flush
  | .restart _ _ => some .crash
  | _ => none

def logged (rollMillis : ℤ) (turns : List (Turn)) : List (Journal.Event Report) :=
  turns.filterMap (Turn.logged rollMillis)

theorem logged_snoc (rollMillis : ℤ) (turns : List (Turn)) (turn : Turn) :
    logged rollMillis (turns ++ [turn]) = logged rollMillis turns ++ (turn.logged rollMillis).toList := by
  rw [logged, List.filterMap_append]
  cases h : turn.logged rollMillis <;> simp [logged, h]

theorem roll_roll_of_between {rollMillis k m n : ℤ} {c : Counters Float64} {today day : String}
    (hk : tradingDay k rollMillis = .ok c.tradingDay) (hm : tradingDay m rollMillis = .ok today)
    (hn : tradingDay n rollMillis = .ok day) (hkm : k ≤ m) (hmn : m ≤ n) :
    (c.roll today).roll day = c.roll day := by
  by_cases htoday : today = c.tradingDay
  · rw [Counters.roll_of_eq htoday]
  · rw [Counters.roll_of_ne htoday, Counters.roll_dayStart, Counters.roll_of_ne]
    intro hday
    exact htoday (tradingDay_between hk hm (hday ▸ hn) hkm hmn)

/-- Every amount is a number, and every count is one a float holds. -/
structure Storable (c : Counters Float64) : Prop where
  pnl : ∀ leg, PyFloat.isfinite (c.legPnl leg) = true
  peak : ∀ leg, PyFloat.isfinite (c.legPeak leg) = true
  notional : PyFloat.isfinite c.dailyNotional = true
  consecutiveRejects : c.consecutiveRejects < 2 ^ 53
  executionsSinceRearm : c.executionsSinceRearm < 2 ^ 53

def Peaked (c : Counters Float64) : Prop := ∀ leg, Marked (c.legPnl leg) (c.legPeak leg)

theorem peaked_dayStart (today : String) (executions : ℕ) : Peaked (Counters.dayStart today executions) := by
  intro leg
  cases leg <;> exact marked_zero

variable {c c₀ : Counters Float64} {event : CounterEvent Float64} {day today₀ : String} {s : StateStore}

theorem Peaked.roll (h : Peaked c) (day : String) : Peaked (c.roll day) := by
  by_cases hday : day = c.tradingDay
  · rwa [Counters.roll_of_eq hday]
  · rw [Counters.roll_of_ne hday]
    exact peaked_dayStart day _

theorem Peaked.apply (h : Peaked c) (event : CounterEvent Float64) : Peaked (event.apply c) := by
  cases event with
  | realizedPnl pnlUsd isLive =>
      intro leg
      have hmarked := h leg
      have hadd := hmarked.add pnlUsd
      cases isLive <;> cases leg <;> first | exact hmarked | exact hadd
  | _ => exact h

theorem peaked_replay (h : Peaked c₀) (reports : List Report) : Peaked (replay c₀ reports) := by
  induction reports using List.reverseRecOn with
  | nil => exact h
  | append_singleton reports report ih =>
      rw [replay_snoc]
      exact (ih.roll report.day).apply report.event

theorem isfinite_zero : PyFloat.isfinite (0 : Float64) = true := rfl

theorem Storable.roll (h : Storable c) (day : String) : Storable (c.roll day) := by
  by_cases hday : day = c.tradingDay
  · rwa [Counters.roll_of_eq hday]
  · rw [Counters.roll_of_ne hday]
    exact ⟨fun leg => by cases leg <;> exact isfinite_zero, fun leg => by cases leg <;> exact isfinite_zero,
      isfinite_zero, by simp [Counters.dayStart], h.executionsSinceRearm⟩

theorem kept_of_isfinite {x : Float64} (h : PyFloat.isfinite x = true) : kept x = x := by
  cases x with
  | finite x hx => rfl
  | nan => cases h
  | infinite s => cases h

theorem asCount_of_lt {n : ℕ} (h : n < 2 ^ 53) : asCount Float64 (some (encodeFloat ((n : ℤ) : Float64))) = n := by
  have hrep : Representable ((n : ℤ) : ℚ) := representable_intCast (by rw [Nat.abs_cast]; exact_mod_cast h)
  have hcast : ((n : ℤ) : Float64) = .finite ((n : ℤ) : ℚ) hrep := Float64.ofRat_of_representable hrep
  have hneg : ¬ (Float64.finite ((n : ℤ) : ℚ) hrep < 0) := by
    rw [Float64.zero_eq, Float64.finite_lt_finite, not_lt]
    exact_mod_cast Int.natCast_nonneg n
  rw [hcast, asCount, Doubles.decodeFloat_encodeFloat]
  simp only [hneg, if_false]
  change ((((n : ℤ) : ℚ).num).tdiv (((n : ℤ) : ℚ).den)).toNat = n
  rw [Rat.num_intCast, Rat.den_intCast]
  simp

theorem pyMax_of_marked {pnl peak : Float64} (h : Marked pnl peak) (hpnl : PyFloat.isfinite pnl = true)
    (hpeak : PyFloat.isfinite peak = true) : pyMax (pyMax 0 pnl) peak = peak := by
  obtain ⟨hnonneg, hle, -⟩ := h
  cases pnl with
  | nan => cases hpnl
  | infinite s => cases hpnl
  | finite x hx => cases peak with
    | nan => cases hpeak
    | infinite s => cases hpeak
    | finite y hy =>
        have hy₀ : 0 ≤ y := hnonneg
        have hxy : x ≤ y := hle.resolve_left (by simp)
        have hmax : pyMax 0 (Float64.finite x hx) ≤ Float64.finite y hy := by
          rw [pyMax]
          split
          · exact hxy
          · exact hy₀
        rw [pyMax]
        split
        · rfl
        · next hlt =>
            generalize pyMax 0 (Float64.finite x hx) = z at hmax hlt
            cases z with
            | nan => exact absurd hmax (Float64.not_nan_le _)
            | infinite s => simp_all
            | finite z hz =>
                have hzy : z = y := le_antisymm hmax (not_lt.mp hlt)
                subst hzy
                rfl

/-- A fresh engine that loads a snapshot has the counters it was taken of. -/
theorem adopt_snapshot_roll (h : Storable c) (hpeaked : Peaked c) (s : StateStore) (today₀ day : String) :
    (Counters.fresh today₀).adopt (setMany s c.snapshot) day = c.roll day := by
  have hkeys : c.snapshot.map Prod.fst = counterKeys := rfl
  have hnodup : (c.snapshot.map Prod.fst).Nodup := by rw [hkeys]; decide
  have hread (entry) (hentry : entry ∈ c.snapshot) := setMany_of_mem s hnodup hentry
  generalize setMany s c.snapshot = t at hread
  simp only [Counters.snapshot, List.forall_mem_cons] at hread
  obtain ⟨hdate, hlive, hsimulated, hlivePeak, hsimulatedPeak, hnotional, hrejects, hexecutions, -⟩ := hread
  have hexec : asCount Float64 (t .executionsSinceRearm) = c.executionsSinceRearm := by
    rw [hexecutions, asCount_of_lt h.executionsSinceRearm]
  rw [Counters.adopt]
  by_cases hday : day = c.tradingDay
  · subst hday
    rw [Counters.roll_of_eq rfl]
    have hlivePnl := kept_of_isfinite (h.pnl true)
    have hsimulatedPnl := kept_of_isfinite (h.pnl false)
    have hliveMax := pyMax_of_marked (hpeaked true) (h.pnl true) (h.peak true)
    have hsimulatedMax := pyMax_of_marked (hpeaked false) (h.pnl false) (h.peak false)
    have hliveKept := kept_of_isfinite (h.peak true)
    have hsimulatedKept := kept_of_isfinite (h.peak false)
    simp only [Counters.legPnl, Counters.legPeak, if_true, if_false, Bool.false_eq_true] at *
    simp only [hdate, hlive, hsimulated, hlivePeak, hsimulatedPeak, hnotional, hrejects, hexec, if_true,
      decodeOrZero_encodeFloat, asCount_of_lt h.consecutiveRejects, hlivePnl, hsimulatedPnl, hliveKept,
      hsimulatedKept, hliveMax, hsimulatedMax, kept_of_isfinite h.notional]
  · have hne : t .tradingDay ≠ some day := by
      rw [hdate]
      simpa using Ne.symm hday
    rw [Counters.roll_of_ne hday]
    simp only [hne, if_false, hexec]
    rfl

variable {rollMillis start n k : ℤ} {ahead ahead' : ℤ → Prop} {d : Counters Float64} {turns : List Turn} {turn : Turn}
  {p p' : Process} {limits : RiskLimits Float64}

def Dated (rollMillis : ℤ) (ahead : ℤ → Prop) (day : String) : Prop :=
  ∃ k, tradingDay k rollMillis = .ok day ∧ ∀ n, ahead n → k ≤ n

/-- The counters `d` are the counters `c`, rolled on to a later day or not. -/
structure RolledFrom (rollMillis : ℤ) (ahead : ℤ → Prop) (c d : Counters Float64) : Prop where
  dated : ∃ k m, tradingDay k rollMillis = .ok c.tradingDay ∧ tradingDay m rollMillis = .ok d.tradingDay ∧ k ≤ m ∧
    ∀ n, ahead n → m ≤ n
  rolled : d = c.roll d.tradingDay

/-- The store gives a fresh engine the counters `c`, whenever it loads. -/
structure Stores (rollMillis : ℤ) (ahead : ℤ → Prop) (s : StateStore) (c : Counters Float64) : Prop where
  dated : Dated rollMillis ahead c.tradingDay
  adopt : ∀ n day, ahead n → tradingDay n rollMillis = .ok day → ∀ today₀,
    (Counters.fresh today₀).adopt s day = c.roll day

theorem RolledFrom.roll (h : RolledFrom rollMillis ahead c d) (hn : ahead n) (hday : tradingDay n rollMillis = .ok day) :
    d.roll day = c.roll day := by
  obtain ⟨⟨k, m, hk, hm, hkm, hahead⟩, hrolled⟩ := h
  rw [hrolled]
  exact roll_roll_of_between hk hm hday hkm (hahead n hn)

theorem RolledFrom.dated_left (h : RolledFrom rollMillis ahead c d) : Dated rollMillis ahead c.tradingDay := by
  obtain ⟨⟨k, m, hk, -, hkm, hahead⟩, -⟩ := h
  exact ⟨k, hk, fun n hn => hkm.trans (hahead n hn)⟩

theorem RolledFrom.mono (h : RolledFrom rollMillis ahead c d) (hahead : ∀ n, ahead' n → ahead n) :
    RolledFrom rollMillis ahead' c d := by
  obtain ⟨⟨k, m, hk, hm, hkm, hle⟩, hrolled⟩ := h
  exact ⟨⟨k, m, hk, hm, hkm, fun n hn => hle n (hahead n hn)⟩, hrolled⟩

theorem RolledFrom.of_now (hdated : Dated rollMillis ahead c.tradingDay) (hn : ahead n)
    (hday : tradingDay n rollMillis = .ok day) (hahead : ∀ k, ahead' k → n ≤ k) :
    RolledFrom rollMillis ahead' c (c.roll day) := by
  obtain ⟨k, hk, hle⟩ := hdated
  exact ⟨⟨k, n, hk, by rw [Counters.roll_tradingDay]; exact hday, hle n hn, hahead⟩, by rw [Counters.roll_tradingDay]⟩

theorem RolledFrom.refl (hday : tradingDay n rollMillis = .ok c.tradingDay) (hahead : ∀ k, ahead k → n ≤ k) :
    RolledFrom rollMillis ahead c c :=
  ⟨⟨n, n, hday, hday, le_rfl, hahead⟩, (Counters.roll_of_eq rfl).symm⟩

theorem Stores.mono (h : Stores rollMillis ahead s c) (hahead : ∀ n, ahead' n → ahead n) :
    Stores rollMillis ahead' s c := by
  obtain ⟨⟨k, hk, hle⟩, hadopt⟩ := h
  exact ⟨⟨k, hk, fun n hn => hle n (hahead n hn)⟩, fun n day hn => hadopt n day (hahead n hn)⟩

theorem Stores.congr {t : StateStore} (h : Stores rollMillis ahead s c) (hst : ∀ key ∈ counterKeys, t key = s key) :
    Stores rollMillis ahead t c :=
  ⟨h.dated, fun n day hn hday today₀ => (adopt_congr hst _ day).trans (h.adopt n day hn hday today₀)⟩

theorem stores_snapshot (h : RolledFrom rollMillis ahead c d) (hd : Storable d) (hpeaked : Peaked d) (s : StateStore) :
    Stores rollMillis ahead (setMany s d.snapshot) c :=
  ⟨h.dated_left, fun _ day hn hday today₀ =>
    (adopt_snapshot_roll hd hpeaked s today₀ day).trans (h.roll hn hday)⟩

/-- The memory holds the whole log, and the store what of it was written. -/
structure Keeps (c₀ : Counters Float64) (rollMillis : ℤ) (ahead : ℤ → Prop) (log : Log Report) (p : Process) : Prop where
  memory : RolledFrom rollMillis ahead (replay c₀ log.all) p.engine.counters
  store : Stores rollMillis ahead p.store (replay c₀ log.committed)

theorem peaked_of_rolledFrom (hc₀ : Peaked c₀) {reports : List Report} {ahead : ℤ → Prop}
    (h : RolledFrom rollMillis ahead (replay c₀ reports) d) : Peaked d := by
  rw [h.rolled]
  exact (peaked_replay hc₀ reports).roll _

theorem storable_of_rolledFrom (h : RolledFrom rollMillis ahead c d) (hc : Storable c) : Storable d := by
  rw [h.rolled]
  exact hc.roll _

/-- A batch that lands brings the store level with the memory. -/
theorem stores_of_write {all committed : List Report} {s' : StateStore} {lands : Bool} (hc₀ : Peaked c₀)
    (hmemory : RolledFrom rollMillis ahead (replay c₀ all) d) (hstorable : Storable (replay c₀ all))
    (hs : s' = if lands then setMany s d.snapshot else s) (hstore : Stores rollMillis ahead s (replay c₀ committed)) :
    Stores rollMillis ahead s' (replay c₀ (if lands then all else committed)) := by
  cases lands with
  | true =>
      rw [hs]
      exact stores_snapshot hmemory (storable_of_rolledFrom hmemory hstorable) (peaked_of_rolledFrom hc₀ hmemory) s
  | false =>
      rw [hs]
      exact hstore

theorem keeps_step {log : Log Report} (hc₀ : Peaked c₀) (hroll : p.engine.limits.sessionRollMillis = rollMillis)
    (h : Keeps c₀ rollMillis (Upto Turn.now start turns) log p) (hstep : p.perform turn = .ok p')
    (hupto : Upto Turn.now start turns turn.now)
    (hstorable : Storable (replay c₀ (log.afterAll (turn.logged rollMillis).toList).all)) :
    Keeps c₀ rollMillis (Upto Turn.now start (turns ++ [turn])) (log.afterAll (turn.logged rollMillis).toList) p' := by
  obtain ⟨hmemory, hstore⟩ := h
  have hearlier : ∀ k, Upto Turn.now start (turns ++ [turn]) k → Upto Turn.now start turns k :=
    fun k hk => (upto_snoc.mp hk).1
  have hnow : ∀ k, Upto Turn.now start (turns ++ [turn]) k → turn.now ≤ k := fun k hk => (upto_snoc.mp hk).2
  have hstore' := hstore.mono hearlier
  obtain ⟨n, act⟩ := turn
  obtain ⟨-, -, hmoves⟩ := perform_moves hstep
  cases hmoves with
  | @report event lands day p' hday hc hs =>
      rw [PreTradeRiskEngine.today, hroll] at hday
      have hlogged : Turn.logged rollMillis ⟨n, .report event lands⟩ = some (.append ⟨day, event⟩ lands) := by
        simp [Turn.logged, hday, Except.toOption]
      rw [hlogged] at hstorable ⊢
      have hall : p'.engine.counters = replay c₀ (log.all ++ [⟨day, event⟩]) := by
        rw [hc, replay_snoc, hmemory.roll hupto hday]
      have hmemory' : RolledFrom rollMillis (Upto Turn.now start (turns ++ [⟨n, .report event lands⟩]))
          (replay c₀ (log.all ++ [⟨day, event⟩])) p'.engine.counters := by
        rw [hall]
        exact .refl (by rw [replay_snoc]; simpa using hday) hnow
      refine ⟨?_, ?_⟩
      · simpa [Log.afterAll] using hmemory'
      · have hwrite := stores_of_write hc₀ hmemory' (by simpa [Log.afterAll] using hstorable) hs hstore'
        cases lands <;> exact hwrite
  | roll hact hday hc hs =>
      rw [PreTradeRiskEngine.today, hroll] at hday
      have hlogged : Turn.logged rollMillis ⟨n, act⟩ = none := by rcases hact with rfl | ⟨_, _, rfl⟩ <;> rfl
      rw [hlogged]
      refine ⟨?_, by rw [hs]; exact hstore'⟩
      rw [hc, hmemory.roll hupto hday]
      exact .of_now hmemory.dated_left hupto hday hnow
  | keep hact hc hs =>
      have hlogged : Turn.logged rollMillis ⟨n, act⟩ = none := by rcases hact with rfl | ⟨_, rfl⟩ | ⟨_, rfl⟩ <;> rfl
      rw [hlogged]
      exact ⟨hc ▸ hmemory.mono hearlier, hstore'.congr hs⟩
  | @persist lands p' hc hs =>
      have hmemory' : RolledFrom rollMillis (Upto Turn.now start (turns ++ [⟨n, .persist lands⟩]))
          (replay c₀ log.all) p'.engine.counters := hc ▸ hmemory.mono hearlier
      cases lands with
      | true => exact ⟨by simpa [Turn.logged, Log.afterAll] using hmemory',
          stores_of_write hc₀ hmemory' (by simpa [Turn.logged, Log.afterAll] using hstorable) hs hstore'⟩
      | false => exact ⟨hmemory', by rw [hs]; exact hstore'⟩
  | restart hday hc hs =>
      rw [PreTradeRiskEngine.today, hroll] at hday
      have hmemory' := RolledFrom.of_now hstore.dated hupto hday hnow
      rw [← hstore.adopt n _ hupto hday, ← hc] at hmemory'
      refine ⟨by simpa [Turn.logged, Log.afterAll] using hmemory', ?_⟩
      have hwrite := stores_of_write hc₀ hmemory' (by simpa [Turn.logged, Log.afterAll] using hstorable) hs hstore'
      rwa [ite_self] at hwrite

theorem survives_keeps {p₀ : Process} (hc₀ : Peaked c₀) (hroll : p₀.engine.limits.sessionRollMillis = rollMillis)
    (h₀ : Keeps c₀ rollMillis (Upto Turn.now start []) Log.empty p₀) (hrun : Survives p₀ turns p)
    (horder : Nondecreasing Turn.now start turns)
    (hstorable : ∀ before after, turns = before ++ after →
      Storable (replay c₀ (logOf (logged rollMillis before)).all)) :
    Keeps c₀ rollMillis (Upto Turn.now start turns) (logOf (logged rollMillis turns)) p := by
  induction hrun with
  | nil => exact h₀
  | @snoc turns p turn p' hbefore hstep ih =>
      obtain ⟨horder, hupto⟩ := nondecreasing_snoc.mp horder
      have h := ih horder fun before after heq => hstorable before (after ++ [turn]) (by rw [heq]; simp)
      have hnow := hstorable (turns ++ [turn]) [] (by simp)
      rw [logged_snoc, logOf_append] at hnow ⊢
      exact keeps_step hc₀ (by rw [survives_limits hbefore, hroll]) h hstep hupto hnow

theorem keeps_new {isLive : Bool} {e₀ : PreTradeRiskEngine Float64} {s₀ : StateStore}
    (hnew : PreTradeRiskEngine.new limits isLive start = .ok e₀) (hblank : ∀ key ∈ counterKeys, s₀ key = none) :
    Keeps e₀.counters limits.sessionRollMillis (Upto Turn.now start []) Log.empty ⟨e₀, s₀⟩ := by
  obtain ⟨today, htoday, rfl⟩ := new_eq_ok.mp hnew
  have hle : ∀ n, Upto Turn.now start [] n → start ≤ n := fun n hn => hn.start_le
  refine ⟨.refl htoday hle, ⟨start, htoday, hle⟩, fun n day _ _ today₀ => ?_⟩
  have hroll : (Counters.fresh today : Counters Float64).roll day = .dayStart day 0 := Counters.roll_dayStart today day 0
  have hdate : s₀ .tradingDay ≠ some day := by simp [hblank .tradingDay (by decide)]
  have hcount : asCount Float64 (s₀ .executionsSinceRearm) = 0 := by
    rw [hblank .executionsSinceRearm (by decide)]
    rfl
  refine Eq.trans ?_ hroll.symm
  rw [Counters.adopt]
  simp only [hdate, if_false, hcount]
  rfl

/-- All that is reported, whether or not it is ever written. -/
def reports (rollMillis : ℤ) (turns : List Turn) : List Report :=
  (logged rollMillis turns).filterMap Event.entry

theorem reports_append (rollMillis : ℤ) (turns more : List Turn) :
    reports rollMillis (turns ++ more) = reports rollMillis turns ++ reports rollMillis more := by
  simp [reports, logged]

theorem mem_reports {report : Report} (h : report ∈ reports rollMillis turns) : ∃ turn ∈ turns,
    tradingDay turn.now rollMillis = .ok report.day ∧ ∃ lands, turn.act = .report report.event lands := by
  rw [reports, List.mem_filterMap] at h
  obtain ⟨event, hevent, hentry⟩ := h
  obtain ⟨turn, hturn, hlogged⟩ := List.mem_filterMap.mp hevent
  obtain ⟨m, act⟩ := turn
  cases act with
  | report event lands =>
      obtain ⟨day, hday, rfl⟩ := Option.map_eq_some_iff.mp hlogged
      cases hentry
      refine ⟨_, hturn, ?_, lands, rfl⟩
      cases h : tradingDay m rollMillis with
      | error x => simp [h, Except.toOption] at hday
      | ok today => simpa [h, Except.toOption] using hday
  | persist lands => cases lands <;> cases hlogged; cases hentry
  | restart built lands => cases hlogged; cases hentry
  | _ => cases hlogged

theorem day_le_of_mem (hn : Upto Turn.now start turns n) (hday : tradingDay n rollMillis = .ok day) :
    ∀ r ∈ reports rollMillis turns, r.day ≤ day := by
  intro r hr
  obtain ⟨turn, hturn, htoday, -⟩ := mem_reports hr
  exact tradingDay_mono htoday hday (hn.le turn hturn)

theorem reports_sorted (rollMillis : ℤ) (horder : Nondecreasing Turn.now start turns) :
    (reports rollMillis turns).Pairwise fun r r' => r.day ≤ r'.day := by
  induction turns using List.reverseRecOn with
  | nil => exact List.Pairwise.nil
  | append_singleton turns turn ih =>
      obtain ⟨horder, hupto⟩ := nondecreasing_snoc.mp horder
      rw [reports_append, List.pairwise_append]
      refine ⟨ih horder, ?_, fun r hr r' hr' => ?_⟩
      · rw [reports, logged]
        cases h : turn.logged rollMillis with
        | none => simp [h]
        | some event => cases hentry : event.entry <;> simp [h, hentry]
      · obtain ⟨turn', hturn', htoday, -⟩ := mem_reports hr'
        rw [List.mem_singleton.mp hturn'] at htoday
        exact day_le_of_mem hupto htoday r hr

theorem kept_sublist (rollMillis : ℤ) (turns : List Turn) :
    (written (logged rollMillis turns ++ [.flush])).Sublist (reports rollMillis turns) := by
  have h := written_sublist (logged rollMillis turns ++ [.flush])
  rwa [List.filterMap_append, show [Event.flush (E := Report)].filterMap Event.entry = [] from rfl, List.append_nil] at h

/-- The reports of a day, of those a log has kept. -/
def todays (day : String) (kept : List Report) : List (CounterEvent Float64) :=
  (kept.filter fun report => report.day = day).map Report.event

theorem todays_sublist {kept kept' : List Report} (h : kept.Sublist kept') (day : String) :
    (todays day kept).Sublist (todays day kept') := (h.filter _).map _

theorem replay_day (today₀ : String) {kept : List Report} (hsorted : kept.Pairwise fun r r' => r.day ≤ r'.day)
    (hle : ∀ r ∈ kept, r.day ≤ day) :
      ∃ executions, (replay (.fresh today₀) kept).roll day = tally (.dayStart day executions) (todays day kept) := by
  induction kept using List.reverseRecOn with
  | nil => exact ⟨0, Counters.roll_dayStart today₀ day 0⟩
  | append_singleton kept report ih =>
      rw [List.pairwise_append] at hsorted
      obtain ⟨hsorted, -, hlast⟩ := hsorted
      have hlast' : ∀ r ∈ kept, r.day ≤ report.day := fun r hr => hlast r hr report (by simp)
      rw [replay_snoc]
      by_cases hday : report.day = day
      · obtain ⟨executions, heq⟩ := ih hsorted fun r hr => hle r (List.mem_append_left _ hr)
        refine ⟨executions, ?_⟩
        rw [Counters.roll_of_eq (by rw [CounterEvent.apply_tradingDay, Counters.roll_tradingDay, hday]), hday, heq,
          ← tally_snoc]
        simp [todays, hday]
      · have hnone : todays day (kept ++ [report]) = [] := by
          have hlt : report.day < day := lt_of_le_of_ne (hle report (by simp)) hday
          rw [todays, List.map_eq_nil_iff, List.filter_eq_nil_iff]
          intro r hr
          rcases List.mem_append.mp hr with hr | hr
          · simpa using ((hlast' r hr).trans_lt hlt).ne
          · rw [List.mem_singleton.mp hr]
            simpa using hday
        have hne : day ≠ (report.event.apply ((replay (.fresh today₀) kept).roll report.day)).tradingDay := by
          rw [CounterEvent.apply_tradingDay, Counters.roll_tradingDay]
          exact Ne.symm hday
        rw [hnone, Counters.roll_of_ne hne]
        exact ⟨_, rfl⟩

/-- A log in the order of its days sums up to the day it has come to. -/
theorem sumsTo_replay (today₀ : String) {kept : List Report} (hsub : kept.Sublist (reports rollMillis turns))
    (horder : Nondecreasing Turn.now start turns) (hn : Upto Turn.now start turns n)
    (hday : tradingDay n rollMillis = .ok day) : SumsTo (todays day kept) ((replay (.fresh today₀) kept).roll day) := by
  obtain ⟨executions, heq⟩ := replay_day today₀ ((reports_sorted rollMillis horder).sublist hsub)
    fun r hr => day_le_of_mem hn hday r (hsub.subset hr)
  rw [heq]
  exact (sumsTo_dayStart day executions).tally _

theorem survives_recovers {isLive : Bool} {e₀ : PreTradeRiskEngine Float64} {s₀ : StateStore}
    (hnew : PreTradeRiskEngine.new limits isLive start = .ok e₀) (hblank : ∀ key ∈ counterKeys, s₀ key = none)
    (hrun : Survives ⟨e₀, s₀⟩ turns p) (horder : Nondecreasing Turn.now start turns)
    (hstorable : ∀ before after, turns = before ++ after →
      Storable (replay e₀.counters (written (logged limits.sessionRollMillis before ++ [.flush]))))
    (hn : Upto Turn.now start turns n) (hday : tradingDay n limits.sessionRollMillis = .ok day) (today₀ : String) :
    let events := logged limits.sessionRollMillis turns
    p.engine.rollTradingDay n = .ok (p.engine.rollTo day) ∧
      (p.engine.rollTo day).counters = (replay e₀.counters (written (events ++ [.flush]))).roll day ∧
      ∃ f s, (PreTradeRiskEngine.onDay limits isLive today₀).load p.store n = .ok (f, s) ∧
        f.counters = (replay e₀.counters (written events)).roll day := by
  obtain ⟨hlimits, hpeaked⟩ : e₀.limits = limits ∧ Peaked e₀.counters := by
    obtain ⟨today, -, rfl⟩ := new_eq_ok.mp hnew
    exact ⟨rfl, peaked_dayStart today 0⟩
  have htoday : p.engine.today n = .ok day := by rw [PreTradeRiskEngine.today, survives_limits hrun, hlimits, hday]
  have h := survives_keeps hpeaked (by rw [hlimits]) (keeps_new hnew hblank) hrun horder fun before after heq =>
    all_logOf (logged limits.sessionRollMillis before) ▸ hstorable before after heq
  refine ⟨?_, ?_, _, _, PreTradeRiskEngine.load_of_today hday, ?_⟩
  · rw [PreTradeRiskEngine.rollTradingDay, htoday]
    rfl
  · rw [← all_logOf]
    exact h.memory.roll hn hday
  · rw [← committed_logOf]
    exact h.store.adopt n day hn hday today₀

/-- Whatever fails and whenever the process dies, the memory holds the reports
no crash has caught unwritten, and a fresh engine loads those written, each
once, in order and on its own day: the amounts are the sums of that day's. -/
theorem crash_recovers {isLive : Bool} {e₀ : PreTradeRiskEngine Float64} {s₀ : StateStore}
    (hnew : PreTradeRiskEngine.new limits isLive start = .ok e₀) (hblank : ∀ key ∈ counterKeys, s₀ key = none)
    (hrun : Survives ⟨e₀, s₀⟩ turns p) (horder : Nondecreasing Turn.now start turns)
    (hstorable : ∀ before after, turns = before ++ after →
      Storable (replay e₀.counters (written (logged limits.sessionRollMillis before ++ [.flush]))))
    (hn : Upto Turn.now start turns n) (hday : tradingDay n limits.sessionRollMillis = .ok day) (today₀ : String) :
    let events := logged limits.sessionRollMillis turns
    p.engine.rollTradingDay n = .ok (p.engine.rollTo day) ∧
      (p.engine.rollTo day).counters = (replay e₀.counters (written (events ++ [.flush]))).roll day ∧
      SumsTo (todays day (written (events ++ [.flush]))) (p.engine.rollTo day).counters ∧
      ∃ f s, (PreTradeRiskEngine.onDay limits isLive today₀).load p.store n = .ok (f, s) ∧
        f.counters = (replay e₀.counters (written events)).roll day ∧ SumsTo (todays day (written events)) f.counters := by
  obtain ⟨hroll, hmemory, f, s, hload, hf⟩ := survives_recovers hnew hblank hrun horder hstorable hn hday today₀
  obtain ⟨today, hfresh⟩ : ∃ today, e₀.counters = .fresh today := by
    obtain ⟨today, -, rfl⟩ := new_eq_ok.mp hnew
    exact ⟨today, rfl⟩
  refine ⟨hroll, hmemory, ?_, f, s, hload, hf, ?_⟩
  · rw [hmemory, hfresh]
    exact sumsTo_replay today (kept_sublist _ turns) horder hn hday
  · rw [hf, hfresh]
    exact sumsTo_replay today (written_sublist _) horder hn hday

def lossKept : List Turn :=
  [⟨noon, .report (.realizedPnl (.ofRat (-15)) false) true⟩, ⟨noon, .report (.notional (.ofRat 5)) false⟩,
    ⟨noon, .restart noon true⟩]

theorem logged_lossKept : logged 0 lossKept = [.append ⟨"2026-07-20", .realizedPnl (.ofRat (-15)) false⟩ true,
    .append ⟨"2026-07-20", .notional (.ofRat 5)⟩ false, .crash] := by
  simp [logged, lossKept, Turn.logged, tradingDay_noon, Except.toOption]

theorem survives_lossKept : ∃ p, Survives ⟨FailOpen.lossEngine, empty⟩ lossKept p ∧ p.engine.overrides = .none := by
  have htoday {p : Process} (h : p.engine.limits = FailOpen.lossLimits) : p.engine.today noon = .ok "2026-07-20" := by
    rw [PreTradeRiskEngine.today, h]
    exact tradingDay_noon
  have hloss : ∃ p, Process.perform ⟨FailOpen.lossEngine, empty⟩ lossKept[0] = .ok p := perform_report (htoday rfl)
  obtain ⟨p₁, h₁⟩ := hloss
  have hlimits₁ := (perform_moves h₁).1
  have hfill : ∃ p, p₁.perform lossKept[1] = .ok p := perform_report (htoday hlimits₁)
  obtain ⟨p₂, h₂⟩ := hfill
  have hlimits₂ := (perform_moves h₂).1.trans hlimits₁
  have hrestart : ∃ p, p₂.perform lossKept[2] = .ok p ∧ p.engine.overrides = Overrides.none :=
    perform_restart (htoday hlimits₂) (htoday hlimits₂)
  obtain ⟨p₃, h₃, hoverrides⟩ := hrestart
  exact ⟨p₃, ((Steps.single h₁).snoc h₂).snoc h₃, hoverrides⟩

theorem storable_lossKept {before after : List Turn} (h : lossKept = before ++ after) :
    Storable (replay FailOpen.lossEngine.counters (written (logged 0 before ++ [.flush]))) := by
  have hmem : before ∈ lossKept.inits := (List.mem_inits _ _).mpr ⟨after, h.symm⟩
  simp only [lossKept, List.inits, List.map_cons, List.map_nil, List.mem_cons, List.not_mem_nil, or_false] at hmem
  rcases hmem with rfl | rfl | rfl | rfl <;>
    simp only [logged, Turn.logged, tradingDay_noon, Except.toOption, List.filterMap_cons, List.filterMap_nil,
      Option.map_some] <;>
    exact ⟨by decide +kernel, by decide +kernel, by decide +kernel, by decide +kernel, by decide +kernel⟩

theorem crash_recovers_loss : ∃ p f s, Survives ⟨FailOpen.lossEngine, empty⟩ lossKept p ∧
    (p.engine.rollTo "2026-07-20").counters.simulatedPnl = .ofRat (-15) ∧
    (PreTradeRiskEngine.onDay FailOpen.lossLimits false "2026-07-20").load p.store noon = .ok (f, s) ∧
    f.counters.simulatedPnl = .ofRat (-15) ∧ f.counters.dailyNotional = 0 := by
  obtain ⟨p, hp, -⟩ := survives_lossKept
  obtain ⟨-, -, hmemory, f, s, hload, -, hf⟩ := crash_recovers FailOpen.new_lossEngine (fun _ _ => rfl) hp
    (by simp [Nondecreasing, lossKept]) (fun before after heq => storable_lossKept heq) ⟨le_rfl, by simp [lossKept]⟩
    tradingDay_noon "2026-07-20"
  change SumsTo (todays "2026-07-20" (written (logged 0 lossKept ++ [.flush]))) _ at hmemory
  change SumsTo (todays "2026-07-20" (written (logged 0 lossKept))) _ at hf
  rw [logged_lossKept] at hmemory hf
  refine ⟨p, f, s, hp, ?_, hload, ?_, ?_⟩
  · rw [show (p.engine.rollTo "2026-07-20").counters.simulatedPnl = _ from hmemory.pnl false]
    decide +kernel
  · rw [show f.counters.simulatedPnl = _ from hf.pnl false]
    decide +kernel
  · rw [hf.notional]
    decide +kernel

end PretradeRisk.Crashes
