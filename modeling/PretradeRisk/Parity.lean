import PretradeRisk.Lifecycle
import PretradeRisk.Snapshot
import PretradeRisk.Twins

namespace PretradeRisk.Parity

open Controls Decision Engine Evaluate Host Lifecycle Limits Orders Run Session Snapshot Store Twins

def mirrorKey : Key → Key
  | .liveRealizedPnl => .simulatedRealizedPnl
  | .simulatedRealizedPnl => .liveRealizedPnl
  | .livePeakPnl => .simulatedPeakPnl
  | .simulatedPeakPnl => .livePeakPnl
  | key => key

def mirrorStore (s : StateStore) : StateStore := fun key => s (mirrorKey key)

variable {F : Type}

def mirrorCounters (c : Counters F) : Counters F :=
  { c with
    livePnl := c.simulatedPnl
    simulatedPnl := c.livePnl
    livePeak := c.simulatedPeak
    simulatedPeak := c.livePeak }

def mirrorEvent : CounterEvent F → CounterEvent F
  | .realizedPnl pnlUsd isLive => .realizedPnl pnlUsd (!isLive)
  | event => event

def mirrorOp : Op F → Op F
  | .report event => .report (mirrorEvent event)
  | .outside store => .outside (mirrorStore store)
  | op => op

def mirrorTurn (turn : Turn F) : Turn F :=
  match turn.act with
  | .call op => ⟨turn.now, .call (mirrorOp op)⟩
  | _ => turn

theorem mirrorKey_mirrorKey (key : Key) : mirrorKey (mirrorKey key) = key := by cases key <;> rfl

theorem mirrorKey_of_overrideKeys {key : Key} (h : key ∈ overrideKeys) : mirrorKey key = key := by
  cases key <;> simp_all [overrideKeys, mirrorKey]

theorem setMany_mirrorStore (s : StateStore) (entries : Entries) :
    setMany (mirrorStore s) (entries.map fun entry => (mirrorKey entry.1, entry.2)) =
      mirrorStore (setMany s entries) := by
  induction entries generalizing s with
  | nil => rfl
  | cons entry entries ih =>
      have hset : set (mirrorStore s) (mirrorKey entry.1) entry.2 = mirrorStore (set s entry.1 entry.2) := by
        funext key
        by_cases hkey : mirrorKey key = entry.1
        · have hback : key = mirrorKey entry.1 := by rw [← hkey, mirrorKey_mirrorKey]
          simp [mirrorStore, Store.set, hback, mirrorKey_mirrorKey]
        · have hback : key ≠ mirrorKey entry.1 := fun h => hkey (by rw [h, mirrorKey_mirrorKey])
          simp [mirrorStore, Store.set, Function.update_of_ne hkey, Function.update_of_ne hback]
      rw [List.map_cons, setMany_cons, setMany_cons, hset, ih]

theorem setMany_mirrorStore_of_overrideKeys (s : StateStore) {entries : Entries}
    (h : ∀ key ∈ entries.map Prod.fst, key ∈ overrideKeys) :
    setMany (mirrorStore s) entries = mirrorStore (setMany s entries) := by
  have hfixed : entries.map (fun entry => (mirrorKey entry.1, entry.2)) = entries := by
    rw [List.map_congr_left (g := id), List.map_id]
    intro entry hentry
    rw [mirrorKey_of_overrideKeys (h entry.1 (List.mem_map_of_mem hentry))]; rfl
  rw [← setMany_mirrorStore, hfixed]

theorem roll_mirror [Zero F] (c : Counters F) (day : String) :
    (mirrorCounters c).roll day = mirrorCounters (c.roll day) := by
  by_cases h : day = c.tradingDay
  · have hm : day = (mirrorCounters c).tradingDay := h
    rw [Counters.roll_of_eq h, Counters.roll_of_eq hm]
  · have hm : day ≠ (mirrorCounters c).tradingDay := h
    rw [Counters.roll_of_ne h, Counters.roll_of_ne hm]; rfl

theorem apply_mirror [Zero F] [Add F] [LT F] [DecidableLT F] (event : CounterEvent F) (c : Counters F) :
    (mirrorEvent event).apply (mirrorCounters c) = mirrorCounters (event.apply c) := by
  cases event with
  | realizedPnl _ isLive => cases isLive <;> rfl
  | _ => rfl

theorem legPnl_mirror (c : Counters F) (isLive : Bool) : (mirrorCounters c).legPnl (!isLive) = c.legPnl isLive := by
  cases isLive <;> rfl

theorem legPeak_mirror (c : Counters F) (isLive : Bool) : (mirrorCounters c).legPeak (!isLive) = c.legPeak isLive := by
  cases isLive <;> rfl

def onOtherLeg [Zero F] [LE F] [DecidableLE F] [PyFloat F] (e : PreTradeRiskEngine F)
    (counters : Counters F) : PreTradeRiskEngine F :=
  { e with isLive := !e.isLive, counters }

theorem setMany_snapshot_mirror [IntCast F] [PyFloat F] (s : StateStore) (c : Counters F) :
    setMany (mirrorStore s) (mirrorCounters c).snapshot = mirrorStore (setMany s c.snapshot) := by
  have hperm : (mirrorCounters c).snapshot.Perm (c.snapshot.map fun entry => (mirrorKey entry.1, entry.2)) :=
    .cons _ ((List.Perm.swap _ _ _).trans (.cons _ (.cons _ (.swap _ _ _))))
  rw [setMany_perm _ hperm (snapshot_nodup _), setMany_mirrorStore]

theorem setMany_reset_mirror [Zero F] [PyFloat F] (s : StateStore) :
    setMany (mirrorStore s) (resetDailyLossLimit F) =
      mirrorStore (setMany s (resetDailyLossLimit F)) := by
  funext key
  cases key <;> rfl

theorem adopt_mirror [Zero F] [LT F] [DecidableLT F] [PyFloat F] (c : Counters F) (s : StateStore) (day : String) :
    (mirrorCounters c).adopt (getMany (mirrorStore s) counterKeys) day =
      mirrorCounters (c.adopt (getMany s counterKeys) day) := by
  have hdate : getMany (mirrorStore s) counterKeys .tradingDay = getMany s counterKeys .tradingDay := rfl
  by_cases h : getMany s counterKeys .tradingDay = some day
  · simp only [Counters.adopt, hdate, h, if_true]; rfl
  · simp only [Counters.adopt, hdate, h, if_false]; rfl

section Engines

variable [Zero F] [LE F] [DecidableLE F] [PyFloat F]

def mirrorEngine (e : PreTradeRiskEngine F) : PreTradeRiskEngine F :=
  onOtherLeg e (mirrorCounters e.counters)

def mirrorDesk (d : Desk F) : Desk F := ⟨mirrorEngine d.engine, mirrorStore d.store⟩

variable {limits : RiskLimits F} {isLive : Bool} {e : PreTradeRiskEngine F} {d d' : Desk F} {turn : Turn F}
  {turns : List (Turn F)} {n : ℤ}

theorem rollTo_mirror (e : PreTradeRiskEngine F) (day : String) :
    (mirrorEngine e).rollTo day = mirrorEngine (e.rollTo day) :=
  PreTradeRiskEngine.ext rfl rfl (roll_mirror e.counters day) rfl rfl rfl

theorem alike_mirror (now : ℤ) (e : PreTradeRiskEngine F) : Alike now e (mirrorEngine e) where
  limits := rfl
  overrides := rfl
  legPnl := legPnl_mirror e.counters e.isLive
  legPeak := legPeak_mirror e.counters e.isLive
  dailyNotional := rfl
  consecutiveRejects := rfl
  executionsSinceRearm := rfl
  rateWindow := rfl
  duplicateWindow := rfl

theorem walks_mirror (now : ℤ) (isLive : Bool) :
    Walks now isLive (!isLive) fun (e f : PreTradeRiskEngine F) => e.isLive = isLive ∧ f = mirrorEngine e where
  alike := fun ⟨_, hf⟩ => hf ▸ alike_mirror now _
  isLive := fun ⟨he, hf⟩ => ⟨he, by rw [hf, ← he]; rfl⟩
  prune := fun _ _ ⟨he, hf⟩ => ⟨he, by rw [hf]; rfl⟩

theorem withCounters_mirror (e : PreTradeRiskEngine F) {c c' : Counters F} (h : c' = mirrorCounters c) :
    (mirrorEngine e).withCounters c' = mirrorEngine (e.withCounters c) := by rw [h]; rfl

variable [IntCast F]

theorem persist_mirror (e : PreTradeRiskEngine F) (s : StateStore) :
    (mirrorEngine e).persist (mirrorStore s) = mirrorStore (e.persist s) := setMany_snapshot_mirror s e.counters

variable [LT F] [DecidableLT F]

theorem loaded_mirror (d : Desk F) (day : String) : (mirrorDesk d).loaded day = mirrorDesk (d.loaded day) := by
  have he := withCounters_mirror d.engine (adopt_mirror d.engine.counters d.store day)
  simp only [Desk.loaded, mirrorDesk, mirrorEngine, onOtherLeg] at he ⊢
  rw [he]
  exact congrArg (Desk.mk _) (persist_mirror _ d.store)

variable [Add F]

theorem reported_mirror (d : Desk F) (event : CounterEvent F) (day : String) :
    (mirrorDesk d).reported (mirrorEvent event) day = mirrorDesk (d.reported event day) := by
  have hc : (mirrorEvent event).apply ((mirrorCounters d.engine.counters).roll day) =
      mirrorCounters (event.apply (d.engine.counters.roll day)) := by rw [roll_mirror, apply_mirror]
  have he := withCounters_mirror d.engine hc
  simp only [Desk.reported, mirrorDesk, mirrorEngine, onOtherLeg] at he ⊢
  rw [he]
  exact congrArg (Desk.mk _) (persist_mirror _ d.store)

variable [One F] [Neg F] [Sub F] [Mul F] [Div F]

theorem evaluate_mirror (files : Files) (e : PreTradeRiskEngine F) (n : ℤ) (r : OrderRequest F) :
    Answers e.isLive (!e.isLive) (fun f g => f.isLive = e.isLive ∧ g = mirrorEngine f) (evaluate files e n r)
      (evaluate files (mirrorEngine e) n r) :=
  evaluate_alike (walks_mirror n e.isLive) rfl fun day _ => ⟨rfl, rollTo_mirror e day⟩

theorem perform_mirror {op : Op F} (h : d.perform ⟨n, op⟩ = .ok d') :
    (mirrorDesk d).perform ⟨n, mirrorOp op⟩ = .ok (mirrorDesk d') := by
  cases op with
  | report event =>
      obtain ⟨day, hday, rfl⟩ := perform_report_eq_ok.mp h
      have hmirror : (mirrorDesk d).engine.today n = .ok day := hday
      exact (perform_report hmirror).trans (congrArg Except.ok (reported_mirror d event day))
  | evaluate files request =>
      obtain ⟨decision, f, hf, rfl⟩ := perform_evaluate_eq_ok.mp h
      have hanswer := evaluate_mirror files d.engine n request
      rw [hf] at hanswer
      cases hg : evaluate files (mirrorEngine d.engine) n request with
      | error x => rw [hg] at hanswer; cases hanswer
      | ok result =>
          rw [hg] at hanswer
          cases hanswer with
          | answer _ hrelated =>
              obtain ⟨-, rfl⟩ := hrelated
              exact perform_evaluate_eq_ok.mpr ⟨_, _, hg, rfl⟩
  | read =>
      obtain ⟨day, hday, rfl⟩ := perform_read_eq_ok.mp h
      have hmirror : (mirrorDesk d).engine.today n = .ok day := hday
      refine (perform_read hmirror).trans ?_
      simp only [mirrorDesk, rollTo_mirror]
  | load =>
      obtain ⟨day, hday, rfl⟩ := perform_load_eq_ok.mp h
      have hmirror : (mirrorDesk d).engine.today n = .ok day := hday
      exact (perform_load hmirror).trans (congrArg Except.ok (loaded_mirror d day))
  | control command =>
      obtain ⟨entries, hentries, rfl⟩ := perform_control_eq_ok.mp h
      have hstore := setMany_mirrorStore_of_overrideKeys d.store (OverrideCall.mem_overrideKeys hentries)
      exact perform_control_eq_ok.mpr ⟨entries, hentries, congrArg (Desk.mk _) hstore.symm⟩
  | persist => cases h; exact congrArg (fun s => Except.ok (Desk.mk _ s)) (persist_mirror d.engine d.store)
  | recordOrderSent request => cases h; rfl
  | refreshOverrides => cases h; rfl
  | outside store => cases h; rfl

theorem turn_mirror (h : Desk.turn d turn = .ok d') :
    Desk.turn (mirrorDesk d) (mirrorTurn turn) = .ok (mirrorDesk d') := by
  obtain ⟨n, act⟩ := turn
  cases act with
  | call op => exact perform_mirror h
  | resetDailyLossLimit =>
      cases h
      exact congrArg (fun s => Except.ok (Desk.mk _ s)) (setMany_reset_mirror d.store)
  | restart built =>
      simp only [Desk.turn, bind_eq_ok, new_eq_ok] at h
      obtain ⟨_, ⟨day₀, hbuilt, rfl⟩, hload⟩ := h
      have hnew : PreTradeRiskEngine.new d.engine.limits (!d.engine.isLive) built =
          .ok (.onDay d.engine.limits (!d.engine.isLive) day₀) := new_eq_ok.mpr ⟨day₀, hbuilt, rfl⟩
      simp only [mirrorTurn, Desk.turn, mirrorDesk, mirrorEngine, onOtherLeg, hnew, ok_bind]
      have hload : Desk.perform ⟨.onDay d.engine.limits d.engine.isLive day₀, d.store⟩ ⟨n, .load⟩ = .ok d' := hload
      exact perform_mirror hload

/-- A live engine on a store and a simulated engine on its mirror walk the
same path: each run of the one is matched by the one run of the other, which
leaves a mirror of its store and gives every order the same verdict. -/
theorem legs_walk_alike {start : ℤ} {e e' : PreTradeRiskEngine F} {s : StateStore}
    (hlive : PreTradeRiskEngine.new limits true start = .ok e)
    (hsimulated : PreTradeRiskEngine.new limits false start = .ok e') (hrun : Lives ⟨e, s⟩ turns d) :
    ∃ d', Lives ⟨e', mirrorStore s⟩ (turns.map mirrorTurn) d' ∧
      (∀ u, Lives ⟨e', mirrorStore s⟩ (turns.map mirrorTurn) u → u = d') ∧ d'.store = mirrorStore d.store ∧
      ∀ files n r decision f, evaluate files d.engine n r = .ok (decision, f) →
        ∃ decision' f', evaluate files d'.engine n r = .ok (decision', f') ∧ SameVerdict decision decision' := by
  obtain ⟨day, hday, rfl⟩ := new_eq_ok.mp hlive
  obtain ⟨day', hday', rfl⟩ := new_eq_ok.mp hsimulated
  obtain rfl : day = day' := Except.ok.inj (hday.symm.trans hday')
  have hmirror : Lives (mirrorDesk ⟨.onDay limits true day, s⟩) (turns.map mirrorTurn) (mirrorDesk d) :=
    hrun.map mirrorDesk mirrorTurn turn_mirror
  refine ⟨mirrorDesk d, hmirror, fun u hu => ?_, rfl, fun files n r decision f hf => ?_⟩
  · exact hu.unique_of_ok hmirror
  · have hanswer := evaluate_mirror files d.engine n r
    rw [hf] at hanswer
    cases hg : evaluate files (mirrorEngine d.engine) n r with
    | error x => rw [hg] at hanswer; cases hanswer
    | ok result =>
        rw [hg] at hanswer
        cases hanswer with
        | answer hd _ => exact ⟨_, _, hg, hd.1⟩

end Engines

open scoped Decimal

theorem legs_walk_alike_loss :
    ∃ d', Lives ⟨.onDay deskLimits false "2026-07-20", mirrorStore empty⟩
        ([⟨noon, .call (.report (.realizedPnl (-15) true))⟩].map mirrorTurn) d' ∧
      ∀ files n r decision f,
        evaluate files (Desk.reported ⟨.onDay deskLimits true "2026-07-20", empty⟩ (.realizedPnl (-15) true)
          "2026-07-20").engine n r = .ok (decision, f) →
        ∃ decision' f', evaluate files d'.engine n r = .ok (decision', f') ∧ SameVerdict decision decision' := by
  have hlive : PreTradeRiskEngine.new deskLimits true noon = .ok (.onDay deskLimits true "2026-07-20") :=
    new_eq_ok.mpr ⟨_, tradingDay_noon, rfl⟩
  have hsimulated : PreTradeRiskEngine.new deskLimits false noon = .ok (.onDay deskLimits false "2026-07-20") :=
    new_eq_ok.mpr ⟨_, tradingDay_noon, rfl⟩
  have hrun : Lives ⟨.onDay deskLimits true "2026-07-20", empty⟩ [⟨noon, .call (.report (.realizedPnl (-15) true))⟩] _ :=
    Steps.single (perform_report tradingDay_noon)
  obtain ⟨d', hrun', -, -, hdecisions⟩ := legs_walk_alike hlive hsimulated hrun
  exact ⟨d', hrun', hdecisions⟩

end PretradeRisk.Parity
