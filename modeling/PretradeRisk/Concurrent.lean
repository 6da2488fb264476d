import PretradeRisk.Snapshot

namespace PretradeRisk.Concurrent

open Clock Encoding Engine Host Limits Run Session Snapshot Store

/-- A turn of the event loop: a call runs up to its suspension, or the batch
of a suspended call takes effect and the call returns. -/
inductive Turn
  | start (now : ℤ) (event : CounterEvent ℚ)
  | land (call : ℕ)

section Runs

variable [PyFloat ℚ]

/-- The engine and its store, the counters each call started so far has left
in memory, and the calls whose batch has taken effect. -/
structure Loop where
  engine : PreTradeRiskEngine ℚ
  store : StateStore
  started : List (Counters ℚ)
  landed : List ℕ

inductive TurnStep (l : Loop) : Turn → Loop → Prop
  | start {n : ℤ} {event : CounterEvent ℚ} {e : PreTradeRiskEngine ℚ} (h : l.engine.record event n = .ok e) :
      TurnStep l (.start n event) { l with engine := e, started := l.started ++ [e.counters] }
  | land {i : ℕ} {c : Counters ℚ} (hc : l.started[i]? = some c) (honce : i ∉ l.landed) :
      TurnStep l (.land i) { l with store := setMany l.store c.snapshot, landed := l.landed ++ [i] }

def AllReturned (l : Loop) : Prop := ∀ i < l.started.length, i ∈ l.landed

/-- The memory is as the latest call left it, and the store holds whole the
batch that took effect last. -/
structure Whole (l : Loop) : Prop where
  memory : ∀ c, l.started.getLast? = some c → c = l.engine.counters
  store : ∀ i, l.landed.getLast? = some i → ∃ c, l.started[i]? = some c ∧ Mirrors l.store c

variable {l l' : Loop} {turn : Turn} {turns : List Turn}

theorem whole_step (h : Whole l) (hstep : TurnStep l turn l') : Whole l' := by
  cases hstep with
  | start =>
      refine ⟨fun c hc => by simpa [eq_comm] using hc, fun i hi => ?_⟩
      obtain ⟨c, hc, hs⟩ := h.store i hi
      exact ⟨c, List.getElem?_append_left (List.getElem?_eq_some_iff.mp hc).1 ▸ hc, hs⟩
  | @land i c hc _ =>
      refine ⟨h.memory, fun j hj => ?_⟩
      obtain rfl : i = j := by simpa using hj
      exact ⟨c, hc, mirrors_setMany l.store c⟩

/-- Once all calls have returned, the eight counter keys hold whole the
snapshot of the call whose batch took effect last; it is the snapshot of the
memory when that call is the latest, and only when the two snapshots agree. -/
theorem last_landed_is_stored {e : PreTradeRiskEngine ℚ} {s : StateStore}
    (hrun : Steps TurnStep ⟨e, s, [], []⟩ turns l) (hreturned : AllReturned l) (hsome : l.started ≠ []) :
    ∃ i c, l.landed.getLast? = some i ∧ l.started[i]? = some c ∧ Mirrors l.store c ∧
      (Survives c → DecodesTo l.store c) ∧
      (Mirrors l.store l.engine.counters ↔ l.engine.counters.snapshot = c.snapshot) ∧
      (i + 1 = l.started.length → c = l.engine.counters) := by
  have h : Whole l := Steps.invariant ⟨by simp, by simp⟩ whole_step hrun
  have hlanded : l.landed ≠ [] := List.ne_nil_of_mem (hreturned 0 (List.length_pos_iff.mpr hsome))
  obtain ⟨c, hc, hs⟩ := h.store _ (List.getLast?_eq_some_getLast hlanded)
  refine ⟨_, c, List.getLast?_eq_some_getLast hlanded, hc, hs, hs.decodesTo, hs.iff_snapshot_eq, fun hi => ?_⟩
  refine h.memory c ?_
  rw [List.getLast?_eq_getElem?, ← hi, Nat.add_sub_cancel, hc]

end Runs

open scoped Decimal

theorem record_noon {e : PreTradeRiskEngine ℚ} (event : CounterEvent ℚ) (h : e.today noon = .ok "2026-07-20") :
    e.record event noon = .ok (e.withCounters (event.apply (e.counters.roll "2026-07-20"))) := by
  rw [PreTradeRiskEngine.record, PreTradeRiskEngine.rollTradingDay, h]; rfl

def hundredSent : PreTradeRiskEngine ℚ :=
  freshDesk.engine.withCounters (CounterEvent.apply (.notional 100) (freshDesk.engine.counters.roll "2026-07-20"))

def threeHundredSent : PreTradeRiskEngine ℚ :=
  hundredSent.withCounters (CounterEvent.apply (.notional 200) (hundredSent.counters.roll "2026-07-20"))

def twoStarted : Loop := ⟨threeHundredSent, empty, [hundredSent.counters, threeHundredSent.counters], []⟩

theorem steps_twoStarted :
    Steps TurnStep ⟨freshDesk.engine, empty, [], []⟩ [.start noon (.notional 100), .start noon (.notional 200)]
      twoStarted := by
  have h₁ : TurnStep ⟨freshDesk.engine, empty, [], []⟩ (.start noon (.notional 100))
      ⟨hundredSent, empty, [hundredSent.counters], []⟩ := .start (record_noon _ tradingDay_noon)
  have h₂ : TurnStep ⟨hundredSent, empty, [hundredSent.counters], []⟩ (.start noon (.notional 200)) twoStarted :=
    .start (record_noon _ tradingDay_noon)
  exact (Steps.single h₁).snoc h₂

theorem allReturned_of_two {l : Loop} (h : l.started.length = 2) (h₀ : 0 ∈ l.landed) (h₁ : 1 ∈ l.landed) :
    AllReturned l := by
  intro i hi
  rw [h] at hi
  interval_cases i <;> assumption

theorem last_landed_is_stored_in_order :
    ∃ l, Steps TurnStep ⟨freshDesk.engine, empty, [], []⟩
        [.start noon (.notional 100), .start noon (.notional 200), .land 0, .land 1] l ∧
      Mirrors l.store l.engine.counters := by
  have hrun := (steps_twoStarted.snoc (.land (i := 0) rfl (by simp [twoStarted]))).snoc
    (.land (i := 1) rfl (by simp [twoStarted]))
  obtain ⟨i, c, hi, -, hs, -, -, hlatest⟩ := last_landed_is_stored hrun
    (allReturned_of_two rfl (by simp [twoStarted]) (by simp [twoStarted])) (by simp [twoStarted])
  obtain rfl : 1 = i := by simpa [twoStarted] using hi
  rw [hlatest rfl] at hs
  exact ⟨_, hrun, hs⟩

/-- The first batch lands last: the store says 100 where the memory says 300. -/
theorem overtaken_batch_loses_update :
    ∃ l, Steps TurnStep ⟨freshDesk.engine, empty, [], []⟩
        [.start noon (.notional 100), .start noon (.notional 200), .land 1, .land 0] l ∧
      AllReturned l ∧ ¬ DecodesTo l.store l.engine.counters := by
  have hrun := (steps_twoStarted.snoc (.land (i := 1) rfl (by simp [twoStarted]))).snoc
    (.land (i := 0) rfl (by simp [twoStarted]))
  refine ⟨_, hrun, allReturned_of_two rfl (by simp [twoStarted]) (by simp [twoStarted]), fun h => ?_⟩
  exact absurd h.dailyNotional (by decide +kernel)

end PretradeRisk.Concurrent
