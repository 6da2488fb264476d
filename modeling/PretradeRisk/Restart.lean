import PretradeRisk.Admission
import PretradeRisk.Snapshot

namespace PretradeRisk.Restart

open Admission Clock Engine Evaluate Host Limits Orders Run Session Snapshot Store

section Runs

variable [PyFloat ℚ]

/-- How the store backs the counters in memory: it mirrors them; or it still
mirrors those of an earlier trading day, and nothing has been reported since
the roll; or it holds none, and nothing has been reported at all. -/
inductive Backed (rollMillis m : ℤ) (s : StateStore) (c : Counters ℚ) : Prop
  | mirrored (h : Mirrors s c)
  | rolled {old : Counters ℚ} {k : ℤ} (h : Mirrors s old) (hk : tradingDay k rollMillis = .ok old.tradingDay)
      (hkm : k ≤ m) (hne : old.tradingDay ≠ c.tradingDay)
      (hc : c = Counters.dayStart c.tradingDay old.executionsSinceRearm)
  | blank (h : ∀ key ∈ counterKeys, s key = none) (hc : c = Counters.fresh c.tradingDay)

/-- What holds of a desk at every point of a run: its counters date from a
reading already made, their peaks are peaks, and the store backs them. -/
structure Restorable (start : ℤ) (calls : List (Call ℚ)) (d : Desk ℚ) : Prop where
  peaked : Peaked d.engine.counters
  backed : ∃ m, d.engine.today m = .ok d.engine.counters.tradingDay ∧
    (∀ n, Upto Call.now start calls n → m ≤ n) ∧
    Backed d.engine.limits.sessionRollMillis m d.store d.engine.counters

variable {start n : ℤ} {calls : List (Call ℚ)} {call : Call ℚ} {d d' : Desk ℚ} {rollMillis m : ℤ} {s : StateStore}
  {c : Counters ℚ} {day : String}

theorem Backed.roll (h : Backed rollMillis m s c) (hm : tradingDay m rollMillis = .ok c.tradingDay)
    (hn : tradingDay n rollMillis = .ok day) (hmn : m ≤ n) : Backed rollMillis n s (c.roll day) := by
  by_cases hday : day = c.tradingDay
  · rw [Counters.roll_of_eq hday]
    cases h with
    | mirrored h => exact .mirrored h
    | rolled h hk hkm hne hc => exact .rolled h hk (hkm.trans hmn) hne hc
    | blank h hc => exact .blank h hc
  · rw [Counters.roll_of_ne hday]
    cases h with
    | mirrored h => exact .rolled h hm hmn (Ne.symm hday) rfl
    | @rolled old k h hk hkm hne hc =>
        refine .rolled h hk (hkm.trans hmn) (fun heq => ?_) (by rw [hc]; rfl)
        exact hne (tradingDay_between hk hm (heq ▸ hn) hkm hmn).symm
    | blank h hc => exact .blank h (by rw [hc]; rfl)

theorem Backed.congr {t : StateStore} (h : Backed rollMillis m s c)
    (hst : ∀ key ∈ counterKeys, t key = s key) : Backed rollMillis m t c := by
  cases h with
  | mirrored h => exact .mirrored (h.congr hst)
  | rolled h hk hkm hne hc => exact .rolled (h.congr hst) hk hkm hne hc
  | blank h hc => exact .blank (fun key hkey => (hst key hkey).trans (h key hkey)) hc

theorem peaked_step (h : Peaked d.engine.counters) (hstep : d.perform call = .ok d') : Peaked d'.engine.counters := by
  obtain ⟨n, op⟩ := call
  obtain ⟨-, -, hmoves⟩ := perform_moves hstep
  cases hmoves with
  | report _ hc => rw [hc]; exact (h.roll _).apply _
  | roll _ _ hc => rw [hc]; exact h.roll _
  | load _ hc => rw [hc]; exact h.adopt _ _
  | keep _ hc => rwa [hc]
  | persist hc => rwa [hc]
  | control _ hc => rwa [hc]
  | outside hc => rwa [hc]

theorem runs_peaked (h : Peaked d.engine.counters) (hrun : Runs d calls d') : Peaked d'.engine.counters :=
  Steps.invariant (P := fun t => Peaked t.engine.counters) h (fun ht hstep => peaked_step ht hstep) hrun

theorem Restorable.dated (h : Restorable start calls d) : Dated start calls d :=
  h.backed.imp fun _ hm => ⟨hm.1, hm.2.1⟩

def Writes : Op ℚ → Prop
  | .report _ | .persist | .load => True
  | _ => False

theorem mirrors_of_writes (hstep : d.perform call = .ok d') (hwrites : Writes call.op) :
    Mirrors d'.store d'.engine.counters := by
  suffices hs : d'.store = setMany d.store d'.engine.snapshot from hs ▸ mirrors_setMany _ _
  obtain ⟨n, op⟩ := call
  obtain ⟨-, -, hmoves⟩ := perform_moves hstep
  cases hmoves with
  | report _ _ hs => exact hs
  | persist _ hs => exact hs
  | load _ _ hs => exact hs
  | roll hop => rcases hop with rfl | ⟨_, _, rfl⟩ <;> exact hwrites.elim
  | keep hop => rcases hop with rfl | ⟨_, rfl⟩ <;> exact hwrites.elim
  | control => exact hwrites.elim
  | outside => exact hwrites.elim

theorem restorable_of_writes (hpeaked : Peaked d.engine.counters) (h : Dated start calls d)
    (hstep : d.perform call = .ok d') (hwrites : Writes call.op) : Restorable start (calls ++ [call]) d' := by
  obtain ⟨m, hm, hupto⟩ := dated_step h hstep
  exact ⟨peaked_step hpeaked hstep, m, hm, hupto, .mirrored (mirrors_of_writes hstep hwrites)⟩

theorem Restorable.of_unchanged (h : Restorable start calls d) (hlimits : d'.engine.limits = d.engine.limits)
    (hc : d'.engine.counters = d.engine.counters) (hs : ∀ key ∈ counterKeys, d'.store key = d.store key) :
    Restorable start (calls ++ [call]) d' := by
  obtain ⟨hpeaked, m, hm, hupto, hbacked⟩ := h
  refine ⟨hc ▸ hpeaked, m, ?_, fun n hn => hupto n (upto_snoc.mp hn).1, ?_⟩
  · rw [PreTradeRiskEngine.today, hlimits, hc]; exact hm
  · rw [hlimits, hc]; exact hbacked.congr hs

theorem restorable_step (h : Restorable start calls d) (hstep : d.perform call = .ok d')
    (hstore : ∀ s, call.op ≠ .outside s) (hupto : Upto Call.now start calls call.now) :
    Restorable start (calls ++ [call]) d' := by
  obtain ⟨n, op⟩ := call
  obtain ⟨hlimits, -, hmoves⟩ := perform_moves hstep
  cases hmoves with
  | report => exact restorable_of_writes h.peaked h.dated hstep trivial
  | persist => exact restorable_of_writes h.peaked h.dated hstep trivial
  | load => exact restorable_of_writes h.peaked h.dated hstep trivial
  | roll hop hday hc hs =>
      obtain ⟨hpeaked, m, hm, hmupto, hbacked⟩ := h
      refine ⟨by rw [hc]; exact hpeaked.roll _, n, ?_, fun k hk => (upto_snoc.mp hk).2, ?_⟩
      · rw [PreTradeRiskEngine.today, hlimits, hc, Counters.roll_tradingDay]; exact hday
      · rw [hlimits, hc, hs]; exact hbacked.roll hm hday (hmupto n hupto)
  | keep hop hc hs => exact h.of_unchanged hlimits hc fun _ _ => by rw [hs]
  | control hentries hc hs =>
      refine h.of_unchanged hlimits hc fun key hkey => ?_
      rw [hs]
      exact Controls.OverrideCall.setMany_of_counterKeys hentries _ hkey
  | outside => exact absurd rfl (hstore _)

theorem runs_restorable {before : List (Call ℚ)} (h : Restorable start before d) (hrun : Runs d calls d')
    (hstore : ∀ call ∈ calls, ∀ s, call.op ≠ .outside s) (horder : Nondecreasing Call.now start (before ++ calls)) :
    Restorable start (before ++ calls) d' := by
  induction hrun with
  | nil => simpa using h
  | snoc _ hstep ih =>
      rw [← List.append_assoc] at horder ⊢
      obtain ⟨horder, hupto⟩ := nondecreasing_snoc.mp horder
      exact restorable_step (ih (fun call hcall => hstore call (List.mem_append_left _ hcall)) horder) hstep
        (hstore _ (by simp)) hupto

/-- The run starts on an empty store, or has left a snapshot behind. -/
def Started (s₀ : StateStore) (calls : List (Call ℚ)) : Prop :=
  (∀ key, s₀ key = none) ∨ ∃ before call after, calls = before ++ call :: after ∧ Writes call.op

theorem restorable_of_started {limits : RiskLimits ℚ} {isLive : Bool} {e₀ : PreTradeRiskEngine ℚ}
    {s₀ : StateStore} (hnew : PreTradeRiskEngine.new limits isLive start = .ok e₀) (hstart : Started s₀ calls)
    (hrun : Runs ⟨e₀, s₀⟩ calls d) (hstore : ∀ call ∈ calls, ∀ s, call.op ≠ .outside s)
    (horder : Nondecreasing Call.now start calls) : Restorable start calls d := by
  obtain ⟨today, htoday, rfl⟩ := new_eq_ok.mp hnew
  rcases hstart with hempty | ⟨before, call, after, rfl, hwrites⟩
  · have h₀ : Restorable start [] ⟨.onDay limits isLive today, s₀⟩ :=
      ⟨peaked_dayStart today 0, start, htoday, fun n hn => hn.start_le, .blank (fun key _ => hempty key) rfl⟩
    exact runs_restorable h₀ hrun hstore horder
  · obtain ⟨d₁, hbefore, hrest⟩ := steps_append_iff.mp hrun
    obtain ⟨d₂, hcall, hafter⟩ := steps_cons_iff.mp hrest
    have h₂ := restorable_of_writes (runs_peaked (peaked_dayStart today 0) hbefore)
      (runs_dated (dated_new htoday isLive s₀) hbefore) hcall hwrites
    have hlist : before ++ call :: after = [] ++ before ++ [call] ++ after := by simp
    rw [hlist] at horder ⊢
    exact runs_restorable h₂ hafter (fun call hmem => hstore call (by simp [hmem])) horder

/-- What a fresh engine adopts from the store is what the counters in memory
come to at the same reading. -/
theorem Restorable.adopt_eq_roll [ExactFloat] (h : Restorable start calls d) (hn : Upto Call.now start calls n)
    (hday : d.engine.today n = .ok day) (hsurvives : Survives d.engine.counters) (today₀ : String) :
    (Counters.fresh today₀).adopt d.store day = d.engine.counters.roll day := by
  obtain ⟨hpeaked, m, hm, hmupto, hbacked⟩ := h
  have hother {executions : ℕ} (hdate : d.store .tradingDay ≠ some day)
      (hexecutions : asCount ℚ (d.store .executionsSinceRearm) = executions) :
      (Counters.fresh today₀ : Counters ℚ).adopt d.store day = Counters.dayStart day executions := by
    rw [adopt_of_date_ne _ hdate, hexecutions]; rfl
  cases hbacked with
  | mirrored h =>
      by_cases he : day = d.engine.counters.tradingDay
      · rw [Counters.roll_of_eq he, he]
        exact adopt_of_mirrors _ h hsurvives hpeaked
      · rw [Counters.roll_of_ne he]
        refine hother ?_ ?_
        · rw [(mirrors_iff.mp h).1]; simpa using Ne.symm he
        · rw [(mirrors_iff.mp h).2.2.2.2.2.2.2]
          exact asCount_of_roundTrips hsurvives.executionsSinceRearm
  | @rolled old k h hk hkm hne hc =>
      have hexecutions : old.executionsSinceRearm = d.engine.counters.executionsSinceRearm := by rw [hc]; rfl
      have hroll : d.engine.counters.roll day = Counters.dayStart day old.executionsSinceRearm := by
        rw [hc]
        exact Counters.roll_dayStart _ day _
      rw [hroll]
      refine hother ?_ ?_
      · rw [(mirrors_iff.mp h).1]
        intro heq
        obtain rfl : old.tradingDay = day := Option.some.inj heq
        exact hne (tradingDay_between hk hm hday hkm (hmupto n hn)).symm
      · rw [(mirrors_iff.mp h).2.2.2.2.2.2.2, hexecutions]
        exact asCount_of_roundTrips hsurvives.executionsSinceRearm
  | blank h hc =>
      have hroll : d.engine.counters.roll day = Counters.dayStart day 0 := by
        rw [hc]
        exact Counters.roll_dayStart _ day 0
      rw [hroll]
      refine hother ?_ ?_
      · rw [h .tradingDay (by simp [counterKeys])]; exact fun h => by cases h
      · rw [h .executionsSinceRearm (by simp [counterKeys])]; rfl

def withEmptyWindows (e : PreTradeRiskEngine ℚ) : PreTradeRiskEngine ℚ :=
  { e with
    rateWindow := e.rateWindow.reset
    duplicateWindow := e.duplicateWindow.map (·.reset)
    rateWindow_configured := e.rateWindow_configured
    duplicateWindow_configured := by
      rw [← e.duplicateWindow_configured, Option.map_map]; rfl }

theorem withEmptyWindows_duplicateWindow (e : PreTradeRiskEngine ℚ) :
    (withEmptyWindows e).duplicateWindow = configuredDuplicateWindow e.limits := by
  refine Windows.DuplicateWindow.eq_of_unseen ?_ (configuredDuplicateWindow_seen e.limits) ?_
  · rintro w hw
    obtain ⟨v, -, rfl⟩ := Option.mem_map.mp hw
    rfl
  · rw [(withEmptyWindows e).duplicateWindow_configured, configuredDuplicateWindow_windowMillis]; rfl

theorem evaluate_congr {files : Files} {e f : PreTradeRiskEngine ℚ} {r : OrderRequest ℚ}
    (he : e.today n = .ok day) (hf : f.today n = .ok day) (h : e.rollTo day = f.rollTo day) :
    evaluate files e n r = evaluate files f n r := by
  rw [evaluate, evaluate, PreTradeRiskEngine.rollTradingDay, PreTradeRiskEngine.rollTradingDay, he, hf]
  simp only [ok_bind, pure_eq_ok, h]

/-- A fresh engine that loads and refreshes at a later reading decides every
order there as the engine that wrote the store would after a refresh, with
its windows emptied. -/
theorem restart_decides_alike [ExactFloat] {limits : RiskLimits ℚ} {isLive : Bool} {e₀ : PreTradeRiskEngine ℚ}
    {s₀ : StateStore} (hnew : PreTradeRiskEngine.new limits isLive start = .ok e₀)
    (hstart : (∀ key, s₀ key = none) ∨ ∃ m rest, calls = ⟨m, .load⟩ :: rest)
    (hrun : Runs ⟨e₀, s₀⟩ calls d) (hstore : ∀ call ∈ calls, ∀ s, call.op ≠ .outside s)
    (horder : Nondecreasing Call.now start calls) (hn : Upto Call.now start calls n)
    (hday : tradingDay n limits.sessionRollMillis = .ok day) (hsurvives : Survives d.engine.counters)
    (today₀ : String) :
    ∃ f s, (PreTradeRiskEngine.onDay limits isLive today₀).load d.store n = .ok (f, s) ∧
      ∀ files r, (evaluate files (f.refreshOverrides s) n r).map Prod.fst =
        (evaluate files (withEmptyWindows (d.engine.refreshOverrides d.store)) n r).map Prod.fst := by
  obtain ⟨hlimits, hleg⟩ := runs_configured hnew hrun
  have htoday : d.engine.today n = .ok day := by rw [PreTradeRiskEngine.today, hlimits, hday]
  have hstarted : Started s₀ calls := by
    refine hstart.imp_right ?_
    rintro ⟨m, rest, h⟩
    exact ⟨[], ⟨m, .load⟩, rest, h, trivial⟩
  have h := restorable_of_started hnew hstarted hrun hstore horder
  subst hlimits hleg
  refine ⟨_, _, PreTradeRiskEngine.load_of_today hday, fun files r => ?_⟩
  refine congrArg _ (evaluate_congr hday htoday (PreTradeRiskEngine.ext rfl rfl ?_ ?_ ?_ ?_))
  · have hadopt := h.adopt_eq_roll hn htoday hsurvives today₀
    exact (congrArg (Counters.roll · day) hadopt).trans (Counters.roll_roll _ day)
  · exact Windows.RateWindow.ext d.engine.rateWindow_configured.symm rfl
  · exact (withEmptyWindows_duplicateWindow _).symm
  · exact congrArg Overrides.decode (getMany_refreshKeys _ _)

end Runs

open scoped Decimal

theorem restart_decides_alike_loss :
    ∃ f s, freshDesk.engine.load
        (freshDesk.reported (.realizedPnl (-15) false) "2026-07-20").store noon = .ok (f, s) ∧
      ∀ files r, (evaluate files (f.refreshOverrides s) noon r).map Prod.fst =
        (evaluate files (withEmptyWindows ((freshDesk.reported (.realizedPnl (-15) false)
          "2026-07-20").engine.refreshOverrides
            (freshDesk.reported (.realizedPnl (-15) false) "2026-07-20").store)) noon r).map Prod.fst := by
  have hrun : Runs freshDesk [⟨noon, .report (.realizedPnl (-15) false)⟩] _ :=
    Steps.single (perform_report tradingDay_noon)
  have hsurvives : Survives (freshDesk.reported (.realizedPnl (-15) false) "2026-07-20").engine.counters := by
    constructor <;> decide +kernel
  exact restart_decides_alike new_freshDesk (.inl fun _ => rfl) hrun (by simp) (by simp [Nondecreasing])
    ⟨le_rfl, by simp⟩ tradingDay_noon hsurvives "2026-07-20"

end PretradeRisk.Restart
