import PretradeRisk.Backends
import PretradeRisk.Crashes

namespace PretradeRisk.Wiring

open Clock Controls Crashes Decision Encoding Engine Evaluate Host Ieee Journal KeyValue Limits Orders Run Store

/-- The constants of the schema. -/
def wire : Key → String
  | .tradingDay => "pretrade.trading_day"
  | .liveRealizedPnl => "pretrade.live_realized_pnl"
  | .simulatedRealizedPnl => "pretrade.simulated_realized_pnl"
  | .livePeakPnl => "pretrade.live_peak_pnl"
  | .simulatedPeakPnl => "pretrade.simulated_peak_pnl"
  | .dailyNotional => "pretrade.daily_notional"
  | .consecutiveRejects => "pretrade.consecutive_rejects"
  | .executionsSinceRearm => "pretrade.executions_since_rearm"
  | .lossLimitBypass => "pretrade.loss_limit_bypass"
  | .lossLimitBypassExpiresAt => "pretrade.loss_limit_bypass_expires_at"
  | .lossLimitBypassActor => "pretrade.loss_limit_bypass_actor"
  | .lossLimitBypassReason => "pretrade.loss_limit_bypass_reason"
  | .lossLimitBypassSetAt => "pretrade.loss_limit_bypass_set_at"
  | .runtimeMaxOrderNotional => "pretrade.runtime_max_order_notional"
  | .runtimeMaxOrderQuantity => "pretrade.runtime_max_order_quantity"

theorem wire_injective : Function.Injective wire := by
  intro key key' h
  cases key <;> cases key' <;> simp [wire] at h ⊢

def wired (entries : Entries) : List (String × String) := entries.map fun entry => (wire entry.1, entry.2)

def view (s : Contents String String) : StateStore := fun key => s (wire key)

/-- `raw.get(key)` of the mapping a `get_many` returned. -/
def raw (found : String → Option (Option String)) : StateStore := fun key => (found (wire key)).join

theorem view_putAll (s : Contents String String) (entries : Entries) :
    view (s.putAll (wired entries)) = setMany (view s) entries := by
  induction entries generalizing s with
  | nil => rfl
  | cons entry entries ih =>
      have hput : view (s.put (wire entry.1, entry.2)) = set (view s) entry.1 entry.2 := by
        funext key
        by_cases h : key = entry.1
        · rw [h, view, Contents.put, Store.set, Function.update_self, Function.update_self]
        · rw [view, Contents.put, Store.set, Function.update_of_ne (wire_injective.ne h), Function.update_of_ne h, view]
      rw [wired, List.map_cons, Contents.putAll, List.foldl_cons, ← Contents.putAll, ← wired, ih, hput]
      rfl

theorem putAll_wired_of_notMem (s : Contents String String) (entries : Entries) {key : String}
    (h : key ∉ Set.range wire) : s.putAll (wired entries) key = s key := by
  induction entries generalizing s with
  | nil => rfl
  | cons entry entries ih =>
      rw [wired, List.map_cons, Contents.putAll, List.foldl_cons, ← Contents.putAll, ← wired, ih, Contents.put,
        Function.update_of_ne fun hkey => h ⟨entry.1, hkey.symm⟩]

theorem raw_asked (s : Contents String String) (keys : List Key) :
    raw (asked s (keys.map wire)) = getMany (view s) keys := by
  funext key
  have hmem : wire key ∈ keys.map wire ↔ key ∈ keys := List.mem_map_of_injective wire_injective
  rw [raw, asked, getMany]
  by_cases h : key ∈ keys
  · rw [if_pos (hmem.mpr h), if_pos h]
    rfl
  · rw [if_neg (hmem.not.mpr h), if_neg h]
    rfl

variable {σ : Type}

/-- A call that reads a batch, and what `raw` it goes on with. -/
def Reads (b : Backend σ String String) (x : σ) (keys : List Key) (raw : StateStore) (x' : σ) : Prop :=
  ∃ found, b.serves x (.getMany (keys.map wire)) x' (.values found) ∧ raw = Wiring.raw found

/-- A call that writes a batch, which the store serves or which is cut short. -/
def Writes (b : Backend σ String String) (x : σ) (entries : Entries) (served : Bool) (x' : σ) : Prop :=
  if served then b.serves x (.setMany (wired entries)) x' .done else b.breaks x (wired entries) x'

/-- The runtime caps are written with `set`. -/
def request (entries : Entries) : OverrideCall Float64 → Request String String
  | .setRuntimeMaxOrderNotional value => .set (wire .runtimeMaxOrderNotional) (encodeOverride value)
  | .setRuntimeMaxOrderQuantity value => .set (wire .runtimeMaxOrderQuantity) (encodeOverride value)
  | _ => .setMany (wired entries)

structure Seat (σ : Type) where
  engine : PreTradeRiskEngine Float64
  store : σ

/-- A call that writes is `served` unless its batch is cut short. -/
inductive Call
  | report (event : CounterEvent Float64) (served : Bool)
  | recordOrderSent (request : OrderRequest Float64)
  | evaluate (files : Files) (request : OrderRequest Float64)
  | read
  | persist (served : Bool)
  | refreshOverrides
  | control (call : OverrideCall Float64) (served : Bool)
  | restart (built : ℤ) (served : Bool)

structure Timed where
  now : ℤ
  call : Call

/-- One call, at a clock reading. -/
inductive Drives (b : Backend σ String String) (w : Seat σ) : Timed → Seat σ → Prop
  | report {n : ℤ} {event : CounterEvent Float64} {served : Bool} {e : PreTradeRiskEngine Float64} {x : σ}
      (he : w.engine.record event n = .ok e) (hx : Writes b w.store e.snapshot served x) :
      Drives b w ⟨n, .report event served⟩ ⟨e, x⟩
  | recordOrderSent (n : ℤ) (request : OrderRequest Float64) :
      Drives b w ⟨n, .recordOrderSent request⟩ ⟨w.engine.recordOrderSent request n, w.store⟩
  | evaluate {n : ℤ} {files : Files} {request : OrderRequest Float64} {decision : RiskDecision Float64}
      {e : PreTradeRiskEngine Float64} (he : evaluate files w.engine n request = .ok (decision, e)) :
      Drives b w ⟨n, .evaluate files request⟩ ⟨e, w.store⟩
  | read {n : ℤ} {e : PreTradeRiskEngine Float64} (he : w.engine.rollTradingDay n = .ok e) :
      Drives b w ⟨n, .read⟩ ⟨e, w.store⟩
  | persist {n : ℤ} {served : Bool} {x : σ} (hx : Writes b w.store w.engine.snapshot served x) :
      Drives b w ⟨n, .persist served⟩ ⟨w.engine, x⟩
  | refreshOverrides {n : ℤ} {raw : StateStore} {x : σ} (hraw : Reads b w.store refreshKeys raw x) :
      Drives b w ⟨n, .refreshOverrides⟩ ⟨w.engine.withOverrides (.decode raw), x⟩
  | control {n : ℤ} {call : OverrideCall Float64} {served : Bool} {entries : Entries} {x : σ}
      (hentries : call.entries n = .ok entries)
      (hx : if served then b.serves w.store (request entries call) x .done else b.breaks w.store (wired entries) x) :
      Drives b w ⟨n, .control call served⟩ ⟨w.engine, x⟩
  | restart {n built : ℤ} {served : Bool} {e₀ e : PreTradeRiskEngine Float64} {raw : StateStore} {x x' : σ}
      (hnew : PreTradeRiskEngine.new w.engine.limits w.engine.isLive built = .ok e₀)
      (hraw : Reads b w.store counterKeys raw x) (he : e₀.loadCounters raw n = .ok e)
      (hx : Writes b x e.snapshot served x') :
      Drives b w ⟨n, .restart built served⟩ ⟨e, x'⟩

/-- What a call comes to: a batch that was served has landed, and one that was
cut short has landed or not. A batch of the control plane of which nothing is
left is a write that failed. -/
inductive Enacts : Call → Act → Prop
  | report (event : CounterEvent Float64) {served lands : Bool} (h : served = true → lands = true) :
      Enacts (.report event served) (.report event lands)
  | recordOrderSent (request : OrderRequest Float64) : Enacts (.recordOrderSent request) (.recordOrderSent request)
  | evaluate (files : Files) (request : OrderRequest Float64) : Enacts (.evaluate files request) (.evaluate files request)
  | read : Enacts .read .read
  | persist {served lands : Bool} (h : served = true → lands = true) : Enacts (.persist served) (.persist lands)
  | refreshOverrides : Enacts .refreshOverrides .refreshOverrides
  | control (call : OverrideCall Float64) (served : Bool) : Enacts (.control call served) (.control call)
  | lost (call : OverrideCall Float64) : Enacts (.control call false) (.persist false)
  | restart (built : ℤ) {served lands : Bool} (h : served = true → lands = true) :
      Enacts (.restart built served) (.restart built lands)

abbrev EnactsAll (calls : List Timed) (turns : List Turn) : Prop :=
  List.Forall₂ (fun timed turn => turn.now = timed.now ∧ Enacts timed.call turn.act) calls turns

variable {b : Backend σ String String} {contents : σ → Contents String String} {x x' : σ} {entries : Entries}
  {w w' w₀ : Seat σ} {timed : Timed} {calls : List Timed} {turns : List Turn} {start n : ℤ}

def Seat.process (contents : σ → Contents String String) (w : Seat σ) : Process := ⟨w.engine, view (contents w.store)⟩

theorem Reads.raw_eq (hb : Implements b AllOrNone contents) {keys : List Key} {raw : StateStore}
    (h : Reads b x keys raw x') : raw = getMany (view (contents x)) keys ∧ contents x' = contents x := by
  obtain ⟨found, hserves, rfl⟩ := h
  obtain ⟨hkept, hfound⟩ := Prod.mk.inj (hb.serves hserves)
  rw [Answer.values.inj hfound]
  exact ⟨raw_asked _ keys, hkept⟩

theorem lands_of_writes (hb : Implements b AllOrNone contents) {served : Bool} (h : Writes b x entries served x') :
    ∃ lands : Bool, (served = true → lands = true) ∧
      contents x' = if lands then (contents x).putAll (wired entries) else contents x := by
  cases served with
  | true => exact ⟨true, fun _ => rfl, congrArg Prod.fst (hb.serves h)⟩
  | false =>
      obtain ⟨part, rfl | rfl, hpart⟩ := hb.breaks h
      · exact ⟨false, id, hpart⟩
      · exact ⟨true, fun _ => rfl, hpart⟩

theorem view_of_lands {s s' : Contents String String} {lands : Bool}
    (h : s' = if lands then s.putAll (wired entries) else s) :
    view s' = if lands then setMany (view s) entries else view s := by
  cases lands with
  | true => rw [h]; exact view_putAll s entries
  | false => rw [h]; rfl

theorem frame_of_lands {s s' : Contents String String} {lands : Bool}
    (h : s' = if lands then s.putAll (wired entries) else s) {key : String} (hkey : key ∉ Set.range wire) :
    s' key = s key := by
  cases lands with
  | true => rw [h]; exact putAll_wired_of_notMem s entries hkey
  | false => rw [h]; rfl

theorem lands_of_control (hb : Implements b AllOrNone contents) {call : OverrideCall Float64} {served : Bool}
    (hentries : call.entries n = .ok entries)
    (h : if served then b.serves x (request entries call) x' .done else b.breaks x (wired entries) x') :
    ∃ lands : Bool, (served = true → lands = true) ∧
      contents x' = if lands then (contents x).putAll (wired entries) else contents x := by
  cases served with
  | false => exact lands_of_writes hb h
  | true =>
      cases call with
      | bypassLossLimit durationMillis actor reason => exact lands_of_writes hb h
      | clearLossLimitBypass actor => exact lands_of_writes hb h
      | setRuntimeMaxOrderNotional value =>
          cases hentries
          exact ⟨true, fun _ => rfl, congrArg Prod.fst (hb.serves h)⟩
      | setRuntimeMaxOrderQuantity value =>
          cases hentries
          exact ⟨true, fun _ => rfl, congrArg Prod.fst (hb.serves h)⟩

/-- What a call does, the process does too, and nothing outside the schema is
touched. -/
theorem drives_performs (hb : Implements b AllOrNone contents) (h : Drives b w timed w') :
    (∃ act, Enacts timed.call act ∧ (w.process contents).perform ⟨timed.now, act⟩ = .ok (w'.process contents)) ∧
      ∀ key ∉ Set.range wire, contents w'.store key = contents w.store key := by
  cases h with
  | @report n event served e x he hx =>
      obtain ⟨lands, hserved, hlands⟩ := lands_of_writes hb hx
      refine ⟨⟨_, .report event hserved, ?_⟩, fun _ => frame_of_lands hlands⟩
      simp only [Process.perform, Seat.process, he, ok_bind, pure_eq_ok, view_of_lands hlands]
      rfl
  | recordOrderSent n request => exact ⟨⟨_, .recordOrderSent request, rfl⟩, fun _ _ => rfl⟩
  | @evaluate n files request decision e he =>
      refine ⟨⟨_, .evaluate files request, ?_⟩, fun _ _ => rfl⟩
      simp only [Process.perform, Seat.process, he, ok_bind, pure_eq_ok]
  | @read n e he =>
      refine ⟨⟨_, .read, ?_⟩, fun _ _ => rfl⟩
      simp only [Process.perform, Seat.process, he, ok_bind, pure_eq_ok]
  | persist hx =>
      obtain ⟨lands, hserved, hlands⟩ := lands_of_writes hb hx
      refine ⟨⟨_, .persist hserved, ?_⟩, fun _ => frame_of_lands hlands⟩
      simp only [Process.perform, Seat.process, view_of_lands hlands]
      rfl
  | refreshOverrides hraw =>
      obtain ⟨rfl, hkept⟩ := hraw.raw_eq hb
      refine ⟨⟨_, .refreshOverrides, ?_⟩, fun _ _ => congrFun hkept _⟩
      simp only [Process.perform, Seat.process, hkept]
      rfl
  | @control n call served entries x hentries hx =>
      obtain ⟨lands, hserved, hlands⟩ := lands_of_control hb hentries hx
      refine ⟨?_, fun _ => frame_of_lands hlands⟩
      have hview := view_of_lands hlands
      cases lands with
      | true =>
          refine ⟨_, .control call served, ?_⟩
          simp only [Process.perform, Seat.process, hentries, ok_bind, pure_eq_ok, hview, if_true]
      | false =>
          obtain rfl : served = false := Bool.eq_false_iff.mpr fun h => Bool.noConfusion (hserved h)
          refine ⟨_, .lost call, ?_⟩
          simp only [Process.perform, Seat.process, hview]
          rfl
  | @restart n built served e₀ e raw x x' hnew hraw he hx =>
      obtain ⟨rfl, hkept⟩ := hraw.raw_eq hb
      obtain ⟨lands, hserved, hlands⟩ := lands_of_writes hb hx
      refine ⟨⟨_, .restart built hserved, ?_⟩, fun key hkey => (frame_of_lands hlands hkey).trans (congrFun hkept key)⟩
      have hview := view_of_lands hlands
      rw [hkept] at hview
      simp only [Process.perform, Seat.process, hnew, PreTradeRiskEngine.load, he, ok_bind, pure_eq_ok, hview]
      rfl

theorem enactsAll_now (h : EnactsAll calls turns) : turns.map Turn.now = calls.map Timed.now := by
  induction h with
  | nil => rfl
  | cons hhead _ ih => rw [List.map_cons, List.map_cons, hhead.1, ih]

theorem EnactsAll.nondecreasing (h : EnactsAll calls turns) (horder : Nondecreasing Timed.now start calls) :
    Nondecreasing Turn.now start turns := by
  rw [Nondecreasing, enactsAll_now h]
  exact horder

theorem EnactsAll.upto (h : EnactsAll calls turns) (hn : Upto Timed.now start calls n) : Upto Turn.now start turns n := by
  refine ⟨hn.start_le, fun turn hturn => ?_⟩
  have hmem := List.mem_map_of_mem (f := Turn.now) hturn
  rw [enactsAll_now h] at hmem
  obtain ⟨timed, htimed, heq⟩ := List.mem_map.mp hmem
  rw [← heq]
  exact hn.le timed htimed

/-- Every run on a store is a run of the process. -/
theorem drives_survives (hb : Implements b AllOrNone contents) (h : Steps (Drives b) w₀ calls w) :
    (∃ turns, EnactsAll calls turns ∧ Survives (w₀.process contents) turns (w.process contents)) ∧
      ∀ key ∉ Set.range wire, contents w.store key = contents w₀.store key := by
  induction h with
  | nil => exact ⟨⟨[], .nil, .nil⟩, fun _ _ => rfl⟩
  | @snoc calls w timed w' _ hstep ih =>
      obtain ⟨⟨turns, henacts, hrun⟩, hframe⟩ := ih
      obtain ⟨⟨act, hact, hperform⟩, hkept⟩ := drives_performs hb hstep
      refine ⟨⟨turns ++ [⟨timed.now, act⟩], ?_, hrun.snoc hperform⟩, fun key hkey => ?_⟩
      · exact List.rel_append henacts (.cons ⟨rfl, hact⟩ .nil)
      · rw [hkept key hkey, hframe key hkey]

/-- What a restart recovers of the process it recovers from the store: the batches
that failed are missing from it, and from nothing else. -/
theorem file_recovers {limits : RiskLimits Float64} {isLive : Bool} {e₀ : PreTradeRiskEngine Float64} {x₀ : σ}
    {day : String} (hb : Implements b AllOrNone contents)
    (hnew : PreTradeRiskEngine.new limits isLive start = .ok e₀)
    (hblank : ∀ key ∈ counterKeys, contents x₀ (wire key) = none) (hrun : Steps (Drives b) ⟨e₀, x₀⟩ calls w)
    (horder : Nondecreasing Timed.now start calls)
    (hstorable : ∀ before after turns, calls = before ++ after → EnactsAll before turns →
      Storable (Crashes.replay e₀.counters (written (logged limits.sessionRollMillis turns ++ [.flush]))))
    (hn : Upto Timed.now start calls n) (hday : tradingDay n limits.sessionRollMillis = .ok day) :
    ∃ turns, EnactsAll calls turns ∧
      (w.engine.rollTo day).counters =
        (Crashes.replay e₀.counters (written (logged limits.sessionRollMillis turns ++ [.flush]))).roll day ∧
      (∀ today₀ raw x, Reads b w.store counterKeys raw x →
        ∃ f, (PreTradeRiskEngine.onDay limits isLive today₀).loadCounters raw n = .ok f ∧
          f.counters = (Crashes.replay e₀.counters (written (logged limits.sessionRollMillis turns))).roll day) ∧
      ∀ key ∉ Set.range wire, contents w.store key = contents x₀ key := by
  obtain ⟨⟨turns, henacts, hsurvives⟩, hframe⟩ := drives_survives hb hrun
  refine ⟨turns, henacts, ?_⟩
  have hprefix (before after : List Turn) (heq : turns = before ++ after) :
      Storable (Crashes.replay e₀.counters (written (logged limits.sessionRollMillis before ++ [.flush]))) := by
    rw [heq] at henacts
    exact hstorable _ _ before (List.take_append_drop before.length calls).symm (List.forall₂_take_append _ _ _ henacts)
  have hrecovers := fun today₀ => survives_recovers hnew hblank hsurvives
    (henacts.nondecreasing horder) hprefix (henacts.upto hn) hday today₀
  refine ⟨(hrecovers day).2.1, fun today₀ raw x hraw => ?_, hframe⟩
  obtain ⟨f, s, hload, hf⟩ := (hrecovers today₀).2.2
  obtain ⟨rfl, -⟩ := hraw.raw_eq hb
  simp only [PreTradeRiskEngine.load, bind_eq_ok, pure_eq_ok, Except.ok.injEq] at hload
  obtain ⟨g, hg, heq⟩ := hload
  cases heq
  exact ⟨f, hg, hf⟩

theorem exists_serves (hb : Implements b AllOrNone contents) (x : σ) (entries : Entries) :
    ∃ x', Writes b x entries true x' := by
  obtain ⟨x', answer, hserves⟩ := hb.total x (.setMany (wired entries))
  obtain ⟨-, rfl⟩ := Prod.mk.inj (hb.serves hserves)
  exact ⟨x', hserves⟩

theorem exists_reads (hb : Implements b AllOrNone contents) (x : σ) (keys : List Key) :
    ∃ raw x', Reads b x keys raw x' := by
  obtain ⟨x', answer, hserves⟩ := hb.total x (.getMany (keys.map wire))
  obtain ⟨-, rfl⟩ := Prod.mk.inj (hb.serves hserves)
  exact ⟨_, x', _, hserves, rfl⟩

open Backends (held sqliteStateStore sqliteStateStore_implements tables tables_documented)

/-- A loss whose batch is served, a fill whose batch is cut short, and a
restart. -/
def lossStored : List Timed :=
  [⟨Session.noon, .report (.realizedPnl (.ofRat (-15)) false) true⟩,
    ⟨Session.noon, .report (.notional (.ofRat 5)) false⟩, ⟨Session.noon, .restart Session.noon true⟩]

theorem drives_lossStored : ∃ w, Steps (Drives (sqliteStateStore tables)) ⟨FailOpen.lossEngine, none⟩ lossStored w := by
  have hstore := sqliteStateStore_implements tables_documented
  have htoday {e : PreTradeRiskEngine Float64} (h : e.limits = FailOpen.lossLimits) :
      e.today Session.noon = .ok "2026-07-20" := by
    rw [PreTradeRiskEngine.today, h]
    exact Session.tradingDay_noon
  have hrecord {e : PreTradeRiskEngine Float64} (h : e.limits = FailOpen.lossLimits) (event : CounterEvent Float64) :
      e.record event Session.noon =
        .ok ((e.rollTo "2026-07-20").withCounters (event.apply (e.rollTo "2026-07-20").counters)) := by
    simp only [PreTradeRiskEngine.record, PreTradeRiskEngine.rollTradingDay, htoday h, ok_bind, pure_eq_ok]
  let e₁ := (FailOpen.lossEngine.rollTo "2026-07-20").withCounters
    (CounterEvent.apply (.realizedPnl (.ofRat (-15)) false) (FailOpen.lossEngine.rollTo "2026-07-20").counters)
  obtain ⟨x₁, h₁⟩ := exists_serves hstore none e₁.snapshot
  have hcut (entries : Entries) (h : wired entries ≠ []) : Writes (sqliteStateStore tables) x₁ entries false x₁ :=
    ⟨h, .connecting⟩
  have hloss := Drives.report (w := ⟨FailOpen.lossEngine, none⟩) (hrecord rfl (.realizedPnl (.ofRat (-15)) false)) h₁
  have hfill := Drives.report (w := ⟨e₁, x₁⟩) (hrecord (e := e₁) rfl (.notional (.ofRat 5)))
    (hcut _ (List.cons_ne_nil _ _))
  obtain ⟨raw, x₂, h₂⟩ := exists_reads hstore x₁ counterKeys
  let e₀ := PreTradeRiskEngine.onDay FailOpen.lossLimits false "2026-07-20"
  have hload : e₀.loadCounters raw Session.noon = .ok (e₀.withCounters (e₀.counters.adopt raw "2026-07-20")) := by
    simp only [PreTradeRiskEngine.loadCounters, htoday (e := e₀) rfl, ok_bind, pure_eq_ok]
  obtain ⟨x₃, h₃⟩ := exists_serves hstore x₂ (e₀.counters.adopt raw "2026-07-20").snapshot
  exact ⟨_, ((Steps.single hloss).snoc hfill).snoc
    (.restart (new_eq_ok.mpr ⟨_, Session.tradingDay_noon, rfl⟩) h₂ hload h₃)⟩

/-- The log of such turns, by whether the fill has landed. -/
def lossLog (lands : Bool) : List (Journal.Event Report) :=
  [.append ⟨"2026-07-20", .realizedPnl (.ofRat (-15)) false⟩ true,
    .append ⟨"2026-07-20", .notional (.ofRat 5)⟩ lands, .crash]

theorem logged_lossStored (h : EnactsAll lossStored turns) : ∃ lands, logged 0 turns = lossLog lands := by
  obtain ⟨⟨_, act₁⟩, _, ⟨rfl, hloss⟩, h₁, rfl⟩ := List.forall₂_cons_left_iff.mp h
  obtain ⟨⟨_, act₂⟩, _, ⟨rfl, hfill⟩, h₂, rfl⟩ := List.forall₂_cons_left_iff.mp h₁
  obtain ⟨⟨_, act₃⟩, _, ⟨rfl, hrestart⟩, hnil, rfl⟩ := List.forall₂_cons_left_iff.mp h₂
  cases hnil
  cases hloss with
  | @report _ _ landed hlanded => cases hfill with
    | @report _ _ lands _ => cases hrestart with
      | restart built _ =>
          obtain rfl : landed = true := hlanded rfl
          refine ⟨lands, ?_⟩
          simp [logged, Turn.logged, Session.tradingDay_noon, Except.toOption, lossLog]

theorem exists_enacts (timed : Timed) : ∃ turn : Turn, turn.now = timed.now ∧ Enacts timed.call turn.act := by
  obtain ⟨n, call⟩ := timed
  cases call with
  | report event served => exact ⟨⟨n, .report event served⟩, rfl, .report event id⟩
  | recordOrderSent request => exact ⟨⟨n, _⟩, rfl, .recordOrderSent request⟩
  | evaluate files request => exact ⟨⟨n, _⟩, rfl, .evaluate files request⟩
  | read => exact ⟨⟨n, _⟩, rfl, .read⟩
  | persist served => exact ⟨⟨n, .persist served⟩, rfl, .persist id⟩
  | refreshOverrides => exact ⟨⟨n, _⟩, rfl, .refreshOverrides⟩
  | control call served => exact ⟨⟨n, _⟩, rfl, .control call served⟩
  | restart built served => exact ⟨⟨n, .restart built served⟩, rfl, .restart built id⟩

theorem exists_enactsAll (calls : List Timed) : ∃ turns, EnactsAll calls turns := by
  induction calls with
  | nil => exact ⟨[], .nil⟩
  | cons timed calls ih =>
      obtain ⟨turn, hturn⟩ := exists_enacts timed
      obtain ⟨turns, hturns⟩ := ih
      exact ⟨turn :: turns, .cons hturn hturns⟩

theorem storable_lossStored {before after : List Timed} (h : lossStored = before ++ after)
    (henacts : EnactsAll before turns) :
    Storable (Crashes.replay FailOpen.lossEngine.counters (written (logged 0 turns ++ [.flush]))) := by
  obtain ⟨rest, hrest⟩ := exists_enactsAll after
  have hall : EnactsAll (before ++ after) (turns ++ rest) := List.rel_append henacts hrest
  rw [← h] at hall
  obtain ⟨lands, hlog⟩ := logged_lossStored hall
  have hprefix : logged 0 turns ∈ (lossLog lands).inits := by
    rw [← hlog, List.mem_inits]
    exact ⟨logged 0 rest, (List.filterMap_append ..).symm⟩
  simp only [lossLog, List.inits, List.map_cons, List.map_nil, List.mem_cons, List.not_mem_nil, or_false] at hprefix
  rcases hprefix with h | h | h | h <;> rw [h] <;> cases lands <;>
    exact ⟨by decide +kernel, by decide +kernel, by decide +kernel, by decide +kernel, by decide +kernel⟩

/-- The loss is there again after the restart, and for whoever opens the file
next. -/
theorem file_recovers_loss : ∃ w, Steps (Drives (sqliteStateStore tables)) ⟨FailOpen.lossEngine, none⟩ lossStored w ∧
    (w.engine.rollTo "2026-07-20").counters.simulatedPnl = .ofRat (-15) ∧
    (∀ raw x, Reads (sqliteStateStore tables) w.store counterKeys raw x →
      ∃ f, (PreTradeRiskEngine.onDay FailOpen.lossLimits false "2026-07-20").loadCounters raw Session.noon = .ok f ∧
        f.counters.simulatedPnl = .ofRat (-15)) ∧
    held w.store "pretrade.rehearsal" = none := by
  obtain ⟨w, hw⟩ := drives_lossStored
  obtain ⟨turns, henacts, hmemory, hfile, hframe⟩ := file_recovers (sqliteStateStore_implements tables_documented)
    FailOpen.new_lossEngine (fun _ _ => rfl) hw (by simp [Nondecreasing, lossStored])
    (fun before after turns heq henacts => storable_lossStored heq henacts) ⟨le_rfl, by simp [lossStored]⟩
    Session.tradingDay_noon
  obtain ⟨lands, hlog⟩ := logged_lossStored henacts
  have hroll : FailOpen.lossLimits.sessionRollMillis = 0 := rfl
  rw [hroll, hlog] at hmemory hfile
  refine ⟨w, hw, ?_, fun raw x hraw => ?_, hframe _ ?_⟩
  · rw [hmemory]
    cases lands <;> decide +kernel
  · obtain ⟨f, hload, hf⟩ := hfile "2026-07-20" raw x hraw
    refine ⟨f, hload, ?_⟩
    rw [hf]
    cases lands <;> decide +kernel
  · rintro ⟨key, hkey⟩
    cases key <;> simp [wire] at hkey

end PretradeRisk.Wiring
