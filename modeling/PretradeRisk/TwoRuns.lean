import PretradeRisk.Lifecycle
import PretradeRisk.Sending
import PretradeRisk.Twins
import PretradeRisk.Visible

namespace PretradeRisk.TwoRuns

open Clock Controls Encoding Engine Evaluate Host Lifecycle Limits Orders Pruning Run Sending Session Snapshot Store
  Twins Visible Windows

variable {visible : Bool → Prop} {c : Counters ℚ} {n m : ℤ} {day day' : String}

section Desks

variable [PyFloat ℚ]

/-- What an engine remembers comes of readings no later than those to come. -/
structure Timely (later : ℤ → Prop) (e : PreTradeRiskEngine ℚ) : Prop where
  dated : ∃ m, e.today m = .ok e.counters.tradingDay ∧ ∀ n, later n → m ≤ n
  rateWindow : ∀ n, later n → e.rateWindow.Past n
  duplicateWindow : ∀ n, later n → ∀ w ∈ e.duplicateWindow, w.Past n

/-- Desks that agree, at every reading to come, on the counters rolled to its
day, on the windows pruned at it, and on what a restart at it would adopt. -/
structure Indistinct (visible : Bool → Prop) (later : ℤ → Prop) (d u : Desk ℚ) : Prop where
  limits : u.engine.limits = d.engine.limits
  isLive : u.engine.isLive = d.engine.isLive
  overrides : u.engine.overrides = d.engine.overrides
  counters : ∀ n, later n → ∀ day, d.engine.today n = .ok day →
    SameFor visible (d.engine.counters.roll day) (u.engine.counters.roll day)
  executionsSinceRearm : u.engine.counters.executionsSinceRearm = d.engine.counters.executionsSinceRearm
  rateWindow : ∀ n, later n → u.engine.rateWindow.prune n = d.engine.rateWindow.prune n
  duplicateWindow : ∀ n, later n →
    u.engine.duplicateWindow.map (·.prune n) = d.engine.duplicateWindow.map (·.prune n)
  keys : ∀ key ∈ overrideKeys, u.store key = d.store key
  stored : ∀ n, later n → ∀ day, d.engine.today n = .ok day →
    SameFor visible ((Counters.fresh day).adopt d.store day) ((Counters.fresh day).adopt u.store day)

variable {later later' own : ℤ → Prop} {d d' u u' : Desk ℚ} {e f : PreTradeRiskEngine ℚ} {act : Act ℚ}

theorem today_congr (h : f.limits = e.limits) (n : ℤ) : f.today n = e.today n := by
  rw [PreTradeRiskEngine.today, PreTradeRiskEngine.today, h]

theorem Timely.mono (h : Timely later e) (hlater : ∀ m, later' m → later m) : Timely later' e where
  dated := h.dated.imp fun _ hm => ⟨hm.1, fun n hn => hm.2 n (hlater n hn)⟩
  rateWindow n hn := h.rateWindow n (hlater n hn)
  duplicateWindow n hn := h.duplicateWindow n (hlater n hn)

theorem Indistinct.refl (visible : Bool → Prop) (later : ℤ → Prop) (d : Desk ℚ) : Indistinct visible later d d where
  limits := rfl
  isLive := rfl
  overrides := rfl
  counters _ _ _ _ := .refl _
  executionsSinceRearm := rfl
  rateWindow _ _ := rfl
  duplicateWindow _ _ := rfl
  keys _ _ := rfl
  stored _ _ _ _ := .refl _

theorem Indistinct.symm (h : Indistinct visible later d u) : Indistinct visible later u d where
  limits := h.limits.symm
  isLive := h.isLive.symm
  overrides := h.overrides.symm
  counters n hn day hday := (h.counters n hn day (today_congr h.limits n ▸ hday)).symm
  executionsSinceRearm := h.executionsSinceRearm.symm
  rateWindow n hn := (h.rateWindow n hn).symm
  duplicateWindow n hn := (h.duplicateWindow n hn).symm
  keys key hkey := (h.keys key hkey).symm
  stored n hn day hday := (h.stored n hn day (today_congr h.limits n ▸ hday)).symm

theorem Indistinct.same_day (h : Indistinct visible later d u) (hday : d.engine.today n = .ok day)
    (hday' : u.engine.today n = .ok day') : day = day' :=
  Except.ok.inj (hday.symm.trans ((today_congr h.limits n).symm.trans hday'))

theorem Indistinct.mono (h : Indistinct visible later d u) (hlater : ∀ m, later' m → later m) :
    Indistinct visible later' d u :=
  { h with
    counters := fun n hn => h.counters n (hlater n hn)
    rateWindow := fun n hn => h.rateWindow n (hlater n hn)
    duplicateWindow := fun n hn => h.duplicateWindow n (hlater n hn)
    stored := fun n hn => h.stored n (hlater n hn) }

theorem Timely.roll_roll (h : Timely own e) (hn : own n) (hday : e.today n = .ok day) (hm : e.today m = .ok day')
    (hnm : n ≤ m) : (e.counters.roll day).roll day' = e.counters.roll day' := by
  obtain ⟨k, hk, hkn⟩ := h.dated
  exact roll_roll_of_dated hk hday hm (hkn n hn) hnm

theorem Timely.of_kept (h : Timely own e) (hdated : ∃ m, f.today m = .ok f.counters.tradingDay ∧ ∀ n, later' n → m ≤ n)
    (hlater : ∀ m, later' m → own m) (hrate : f.rateWindow = e.rateWindow ∨ f.rateWindow = e.rateWindow.prune n)
    (hduplicates : f.duplicateWindow = e.duplicateWindow ∨
      f.duplicateWindow = e.duplicateWindow.map (·.prune n)) : Timely later' f := by
  refine ⟨hdated, fun m hm => ?_, fun m hm w hw => ?_⟩
  · have hpast := h.rateWindow m (hlater m hm)
    rcases hrate with hr | hr <;> rw [hr]
    · exact hpast
    · exact hpast.prune
  · have hpast := h.duplicateWindow m (hlater m hm)
    rcases hduplicates with hr | hr <;> rw [hr] at hw
    · exact hpast w hw
    · obtain ⟨v, hv, rfl⟩ := Option.mem_map.mp hw
      exact (hpast v hv).prune

theorem Timely.look (h : Timely own e) (hday : e.today n = .ok day) (hp : Pruned n (e.rollTo day) f)
    (hlater : ∀ m, later' m → own m ∧ n ≤ m) : Timely later' f := by
  have htoday : f.today n = .ok f.counters.tradingDay := by
    rw [today_congr hp.limits n, hp.counters]
    exact hday.trans (congrArg Except.ok (Counters.roll_tradingDay _ _).symm)
  exact h.of_kept ⟨n, htoday, fun m hm => (hlater m hm).2⟩ (fun m hm => (hlater m hm).1) hp.rateWindow
    hp.duplicateWindow

theorem Timely.prune_prune (h : Timely own e) (hn : own n) (hnm : n ≤ m) (hp : Pruned n (e.rollTo day) f) :
    f.rateWindow.prune m = e.rateWindow.prune m ∧
      f.duplicateWindow.map (·.prune m) = e.duplicateWindow.map (·.prune m) := by
  constructor
  · rcases hp.rateWindow with hr | hr <;> rw [hr]
    · rfl
    · exact RateWindow.prune_prune_of_past (h.rateWindow n hn) hnm
  · rcases hp.duplicateWindow with hr | hr <;> rw [hr]
    · rfl
    · rw [Option.map_map]
      exact Option.map_congr fun w hw => DuplicateWindow.prune_prune_of_past (h.duplicateWindow n hn w hw) hnm

theorem Indistinct.look (h : Indistinct visible later d u) (ht : Timely own d.engine) (hn : own n)
    (hday : d.engine.today n = .ok day) (hp : Pruned n (d.engine.rollTo day) f)
    (hlater : ∀ m, later' m → later m ∧ n ≤ m) : Indistinct visible later' { d with engine := f } u where
  limits := h.limits.trans hp.limits.symm
  isLive := h.isLive.trans hp.isLive.symm
  overrides := h.overrides.trans hp.overrides.symm
  counters m hm day' hday' := by
    obtain ⟨hm, hnm⟩ := hlater m hm
    have htoday : d.engine.today m = .ok day' := (today_congr hp.limits m).symm.trans hday'
    have hroll := ht.roll_roll hn hday htoday hnm
    have hagree := h.counters m hm day' htoday
    rw [← hroll] at hagree
    rw [show f.counters = d.engine.counters.roll day from hp.counters]
    exact hagree
  executionsSinceRearm := by
    rw [hp.counters]
    exact h.executionsSinceRearm.trans (Counters.roll_executionsSinceRearm d.engine.counters day).symm
  rateWindow m hm := by
    obtain ⟨hm, hnm⟩ := hlater m hm
    exact (h.rateWindow m hm).trans (ht.prune_prune hn hnm hp).1.symm
  duplicateWindow m hm := by
    obtain ⟨hm, hnm⟩ := hlater m hm
    exact (h.duplicateWindow m hm).trans (ht.prune_prune hn hnm hp).2.symm
  keys := h.keys
  stored m hm day' hday' := h.stored m (hlater m hm).1 day' ((today_congr hp.limits m).symm.trans hday')

theorem Timely.dated_perform {op : Op ℚ} (h : Timely later d.engine) (hstep : d.perform ⟨n, op⟩ = .ok d')
    (hlater : ∀ m, later' m → later m ∧ n ≤ m) :
    ∃ m, d'.engine.today m = .ok d'.engine.counters.tradingDay ∧ ∀ n, later' n → m ≤ n := by
  obtain ⟨hlimits, -, hmoves⟩ := perform_moves hstep
  have hnow {day : String} (hday : d.engine.today n = .ok day) (hdate : d'.engine.counters.tradingDay = day) :
      ∃ m, d'.engine.today m = .ok d'.engine.counters.tradingDay ∧ ∀ n, later' n → m ≤ n :=
    ⟨n, by rw [today_congr hlimits, hday, hdate], fun m hm => (hlater m hm).2⟩
  have hkept (hc : d'.engine.counters = d.engine.counters) :
      ∃ m, d'.engine.today m = .ok d'.engine.counters.tradingDay ∧ ∀ n, later' n → m ≤ n := by
    obtain ⟨m, hm, hmn⟩ := h.dated
    exact ⟨m, by rw [today_congr hlimits, hm, hc], fun k hk => hmn k (hlater k hk).1⟩
  cases hmoves with
  | report hday hc => exact hnow hday (by rw [hc]; simp)
  | roll _ hday hc => exact hnow hday (by rw [hc]; simp)
  | load hday hc => exact hnow hday (by rw [hc]; rfl)
  | keep _ hc => exact hkept hc
  | persist hc => exact hkept hc
  | control _ hc => exact hkept hc
  | outside hc => exact hkept hc

theorem Timely.perform {op : Op ℚ} (h : Timely later d.engine) (hstep : d.perform ⟨n, op⟩ = .ok d')
    (hlater : ∀ m, later' m → later m ∧ n ≤ m) : Timely later' d'.engine := by
  have hdated := h.dated_perform hstep hlater
  cases perform_remembers hstep with
  | kept _ hrate hduplicates => exact h.of_kept hdated (fun m hm => (hlater m hm).1) hrate hduplicates
  | sent hrate hduplicates =>
      refine ⟨hdated, fun m hm => ?_, fun m hm w hw => ?_⟩
      · obtain ⟨hm, hnm⟩ := hlater m hm
        rw [hrate]
        exact (h.rateWindow m hm).record hnm
      · obtain ⟨hm, hnm⟩ := hlater m hm
        rw [hduplicates] at hw
        obtain ⟨v, hv, rfl⟩ := Option.mem_map.mp hw
        exact (h.duplicateWindow m hm v hv).record hnm

theorem timely_onDay {limits : RiskLimits ℚ} {isLive : Bool} (hn : tradingDay n limits.sessionRollMillis = .ok day)
    (hlater : ∀ m, later m → n ≤ m) (hc : c.tradingDay = day) :
    Timely later ((PreTradeRiskEngine.onDay limits isLive day).withCounters c) := by
  refine ⟨⟨n, hc ▸ hn, hlater⟩, fun m _ t ht => (by cases ht), fun m _ w hw key t ht => ?_⟩
  rw [configuredDuplicateWindow_seen limits w hw] at ht
  cases ht

theorem Timely.turn (h : Timely later d.engine) (hstep : Desk.turn d ⟨n, act⟩ = .ok d')
    (hlater : ∀ m, later' m → later m ∧ n ≤ m) : Timely later' d'.engine := by
  cases act with
  | call op => exact h.perform hstep hlater
  | resetDailyLossLimit => cases hstep; exact h.mono fun m hm => (hlater m hm).1
  | restart built =>
      obtain ⟨day, hday, rfl⟩ := turn_restart hstep
      exact timely_onDay hday (fun m hm => (hlater m hm).2) rfl

theorem Indistinct.keys_setMany (h : Indistinct visible later d u) (c c' : Counters ℚ) :
    ∀ key ∈ overrideKeys, setMany u.store c'.snapshot key = setMany d.store c.snapshot key := by
  intro key hkey
  rw [setMany_snapshot_of_notMem _ _ (notMem_counterKeys hkey), setMany_snapshot_of_notMem _ _ (notMem_counterKeys hkey)]
  exact h.keys key hkey

section Turns

variable [ExactFloat]

theorem Indistinct.of_written (hzero : RoundTrips (0 : ℚ)) (hlimits : u.engine.limits = d.engine.limits)
    (hisLive : u.engine.isLive = d.engine.isLive) (hoverrides : u.engine.overrides = d.engine.overrides)
    (hcounters : ∀ n, later n → ∀ day, d.engine.today n = .ok day →
      SameFor visible (d.engine.counters.roll day) (u.engine.counters.roll day))
    (hexecutions : u.engine.counters.executionsSinceRearm = d.engine.counters.executionsSinceRearm)
    (hrate : ∀ n, later n → u.engine.rateWindow.prune n = d.engine.rateWindow.prune n)
    (hduplicates : ∀ n, later n →
      u.engine.duplicateWindow.map (·.prune n) = d.engine.duplicateWindow.map (·.prune n))
    (hkeys : ∀ key ∈ overrideKeys, u.store key = d.store key) (hd : Mirrors d.store d.engine.counters)
    (hu : Mirrors u.store u.engine.counters) : Indistinct visible later d u where
  limits := hlimits
  isLive := hisLive
  overrides := hoverrides
  counters := hcounters
  executionsSinceRearm := hexecutions
  rateWindow := hrate
  duplicateWindow := hduplicates
  keys := hkeys
  stored n hn day hday := by
    rw [adopt_of_snapshot hzero hd, adopt_of_snapshot hzero hu]
    exact (hcounters n hn day hday).reread

theorem Indistinct.reported (hzero : RoundTrips (0 : ℚ)) (h : Indistinct visible later d u) (hn : later n)
    (hday : d.engine.today n = .ok day) (event : CounterEvent ℚ) :
    Indistinct visible later (d.reported event day) (u.reported event day) :=
  .of_written hzero h.limits h.isLive h.overrides
    (fun _ _ day' _ => ((h.counters n hn day hday).apply event).roll day')
    ((h.counters n hn day hday).apply event).executionsSinceRearm h.rateWindow h.duplicateWindow
    (h.keys_setMany _ _) (mirrors_setMany _ _) (mirrors_setMany _ _)

theorem Indistinct.persisted (hzero : RoundTrips (0 : ℚ)) (h : Indistinct visible later d u) :
    Indistinct visible later { d with store := d.engine.persist d.store } { u with store := u.engine.persist u.store } :=
  .of_written hzero h.limits h.isLive h.overrides h.counters h.executionsSinceRearm h.rateWindow
    h.duplicateWindow (h.keys_setMany _ _) (mirrors_setMany _ _) (mirrors_setMany _ _)

theorem Indistinct.restarted (hzero : RoundTrips (0 : ℚ)) (h : Indistinct visible later d u) (hn : later n)
    (hday : d.engine.today n = .ok day) : Indistinct visible later (Desk.restarted d day) (Desk.restarted u day) := by
  have honDay : PreTradeRiskEngine.onDay u.engine.limits u.engine.isLive day =
      .onDay d.engine.limits d.engine.isLive day := by rw [h.limits, h.isLive]
  have hrate := congrArg PreTradeRiskEngine.rateWindow honDay
  have hduplicates := congrArg PreTradeRiskEngine.duplicateWindow honDay
  exact .of_written hzero h.limits h.isLive rfl (fun _ _ day' _ => (h.stored n hn day hday).roll day')
    (h.stored n hn day hday).executionsSinceRearm (fun m _ => congrArg (·.prune m) hrate)
    (fun m _ => congrArg (Option.map (·.prune m)) hduplicates)
    (h.keys_setMany _ _) (mirrors_setMany _ _) (mirrors_setMany _ _)

omit [ExactFloat]

theorem Indistinct.sent (h : Indistinct visible later d u) (hn : later n) (request : OrderRequest ℚ) :
    Indistinct visible later { d with engine := d.engine.recordOrderSent request n }
      { u with engine := u.engine.recordOrderSent request n } := by
  have hrate : u.engine.rateWindow.record n = d.engine.rateWindow.record n :=
    congrArg (fun w : RateWindow => { w with events := w.events ++ [n] }) (h.rateWindow n hn)
  have hduplicates : u.engine.duplicateWindow.map (·.record request.fingerprint n) =
      d.engine.duplicateWindow.map (·.record request.fingerprint n) := by
    have hmap := congrArg (Option.map fun w : DuplicateWindow =>
      { w with seen := Function.update w.seen request.fingerprint (some n) }) (h.duplicateWindow n hn)
    rwa [Option.map_map, Option.map_map] at hmap
  exact { h with
    rateWindow := fun m _ => congrArg (·.prune m) hrate
    duplicateWindow := fun m _ => congrArg (Option.map (·.prune m)) hduplicates }

theorem Indistinct.refreshed (h : Indistinct visible later d u) :
    Indistinct visible later { d with engine := d.engine.refreshOverrides d.store }
      { u with engine := u.engine.refreshOverrides u.store } := by
  refine { h with overrides := ?_ }
  have hkey : ∀ key ∈ refreshKeys, u.store key = d.store key := by
    intro key hkey
    exact h.keys key (by revert hkey; cases key <;> decide)
  exact congrArg Overrides.decode (getMany_congr hkey)

theorem Indistinct.controlled (h : Indistinct visible later d u) {command : OverrideCall ℚ} {entries : Entries}
    (hentries : command.entries n = .ok entries) :
    Indistinct visible later { d with store := setMany d.store entries } { u with store := setMany u.store entries } := by
  have hkept (s : StateStore) : ∀ key ∈ counterKeys, setMany s entries key = s key := fun _ hkey =>
    OverrideCall.setMany_of_counterKeys hentries s hkey
  refine { h with keys := fun key hkey => setMany_congr (h.keys key hkey), stored := ?_ }
  intro m hm day' hday'
  rw [adopt_congr (hkept d.store), adopt_congr (hkept u.store)]
  exact h.stored m hm day' hday'

theorem Indistinct.reset (hzero : RoundTrips (0 : ℚ)) (h : Indistinct visible later d u) :
    Indistinct visible later { d with store := setMany d.store (resetDailyLossLimit ℚ) }
      { u with store := setMany u.store (resetDailyLossLimit ℚ) } := by
  refine { h with keys := fun key hkey => setMany_congr (h.keys key hkey), stored := ?_ }
  intro m hm day' hday'
  rw [adopt_reset hzero, adopt_reset hzero]
  exact (h.stored m hm day' hday').zeroed

theorem Indistinct.look_both (h : Indistinct visible later d u) (hd : Timely later d.engine)
    (hu : Timely later u.engine) (hn : later n) (hday : d.engine.today n = .ok day)
    (hp : Pruned n (d.engine.rollTo day) e) (hp' : Pruned n (u.engine.rollTo day) f)
    (hlater : ∀ m, later' m → later m ∧ n ≤ m) :
    Indistinct visible later' { d with engine := e } { u with engine := f } := by
  have hday' : u.engine.today n = .ok day := (today_congr h.limits n).trans hday
  have hleft : Indistinct visible (fun m => later m ∧ n ≤ m) { d with engine := e } u :=
    h.look hd hn hday hp fun m hm => hm
  exact (hleft.symm.look hu hn hday' hp' fun m hm => ⟨hlater m hm, (hlater m hm).2⟩).symm

variable [ExactFloat]

theorem Indistinct.perform {op : Op ℚ} (hzero : RoundTrips (0 : ℚ)) (h : Indistinct visible later d u)
    (hd : Timely later d.engine) (hu : Timely later u.engine) (hstep : d.perform ⟨n, op⟩ = .ok d')
    (hstep' : u.perform ⟨n, op⟩ = .ok u') (hop : op ≠ .load) (hn : later n)
    (hlater : ∀ m, later' m → later m ∧ n ≤ m) : Indistinct visible later' d' u' := by
  cases op with
  | report event =>
      obtain ⟨day, hday, rfl⟩ := perform_report_eq_ok.mp hstep
      obtain ⟨day', hday', rfl⟩ := perform_report_eq_ok.mp hstep'
      obtain rfl := h.same_day hday hday'
      exact (h.reported hzero hn hday event).mono fun m hm => (hlater m hm).1
  | evaluate files request =>
      obtain ⟨_, f, hf, rfl⟩ := perform_evaluate_eq_ok.mp hstep
      obtain ⟨_, g, hg, rfl⟩ := perform_evaluate_eq_ok.mp hstep'
      obtain ⟨day, hday, hp⟩ := evaluate_pruned hf
      obtain ⟨day', hday', hp'⟩ := evaluate_pruned hg
      obtain rfl := h.same_day hday hday'
      exact h.look_both hd hu hn hday hp hp' hlater
  | read =>
      obtain ⟨day, hday, rfl⟩ := perform_read_eq_ok.mp hstep
      obtain ⟨day', hday', rfl⟩ := perform_read_eq_ok.mp hstep'
      obtain rfl := h.same_day hday hday'
      exact h.look_both hd hu hn hday (.refl n _) (.refl n _) hlater
  | control command =>
      obtain ⟨entries, hentries, rfl⟩ := perform_control_eq_ok.mp hstep
      obtain ⟨entries', hentries', rfl⟩ := perform_control_eq_ok.mp hstep'
      obtain rfl : entries = entries' := Except.ok.inj (hentries.symm.trans hentries')
      exact (h.controlled hentries).mono fun m hm => (hlater m hm).1
  | recordOrderSent request => cases hstep; cases hstep'; exact (h.sent hn request).mono fun m hm => (hlater m hm).1
  | persist => cases hstep; cases hstep'; exact (h.persisted hzero).mono fun m hm => (hlater m hm).1
  | refreshOverrides => cases hstep; cases hstep'; exact h.refreshed.mono fun m hm => (hlater m hm).1
  | outside store =>
      cases hstep
      cases hstep'
      have hsame : Indistinct visible later { d with store } { u with store } :=
        { h with keys := fun _ _ => rfl, stored := fun _ _ _ _ => .refl _ }
      exact hsame.mono fun m hm => (hlater m hm).1
  | load => exact absurd rfl hop

theorem Indistinct.turn (hzero : RoundTrips (0 : ℚ)) (h : Indistinct visible later d u) (hd : Timely later d.engine)
    (hu : Timely later u.engine) (hstep : Desk.turn d ⟨n, act⟩ = .ok d') (hstep' : Desk.turn u ⟨n, act⟩ = .ok u')
    (hact : act ≠ .call .load) (hn : later n) (hlater : ∀ m, later' m → later m ∧ n ≤ m) :
    Indistinct visible later' d' u' := by
  cases act with
  | call op => exact h.perform hzero hd hu hstep hstep' (fun hop => hact (by rw [hop])) hn hlater
  | resetDailyLossLimit => cases hstep; cases hstep'; exact (h.reset hzero).mono fun m hm => (hlater m hm).1
  | restart built =>
      obtain ⟨day, hday, rfl⟩ := turn_restart hstep
      obtain ⟨day', hday', rfl⟩ := turn_restart hstep'
      obtain rfl := h.same_day hday hday'
      exact (h.restarted hzero hn hday).mono fun m hm => (hlater m hm).1

end Turns

theorem Indistinct.alike (h : Indistinct visible later d u) (hvisible : visible d.engine.isLive) (hn : later n)
    (hday : d.engine.today n = .ok day) : Alike n (d.engine.rollTo day) (u.engine.rollTo day) where
  limits := h.limits
  overrides := h.overrides
  legPnl := (congrArg (u.engine.counters.roll day).legPnl h.isLive).trans
    ((h.counters n hn day hday).pnl d.engine.isLive hvisible)
  legPeak := (congrArg (u.engine.counters.roll day).legPeak h.isLive).trans
    ((h.counters n hn day hday).peak d.engine.isLive hvisible)
  dailyNotional := (h.counters n hn day hday).dailyNotional
  consecutiveRejects := (h.counters n hn day hday).consecutiveRejects
  executionsSinceRearm := (h.counters n hn day hday).executionsSinceRearm
  rateWindow := h.rateWindow n hn
  duplicateWindow := h.duplicateWindow n hn

theorem Indistinct.evaluate_eq (h : Indistinct visible later d u) (hvisible : visible d.engine.isLive) (hn : later n)
    (files : Files) (r : OrderRequest ℚ) :
    (evaluate files u.engine n r).map Prod.fst = (evaluate files d.engine n r).map Prod.fst := by
  have hanswers : Answers d.engine.isLive u.engine.isLive
      (fun e f => Alike n e f ∧ e.isLive = d.engine.isLive ∧ f.isLive = u.engine.isLive)
      (evaluate files d.engine n r) (evaluate files u.engine n r) :=
    evaluate_alike (walks_alike n _ _) (today_congr h.limits n) fun day hday => ⟨h.alike hvisible hn hday, rfl, rfl⟩
  generalize evaluate files d.engine n r = x, evaluate files u.engine n r = y at hanswers ⊢
  cases hanswers with
  | answer hd _ => exact congrArg Except.ok (hd.2 h.isLive)
  | raise x => rfl

/-- After these inputs, each with its reading, the two desks are timely and
indistinct at every reading both can go on to. -/
structure Pair {I : Type} (visible : Bool → Prop) (time : I → ℤ) (start : ℤ) (is js : List I) (d u : Desk ℚ) : Prop where
  left : Timely (Upto time start is) d.engine
  right : Timely (Upto time start js) u.engine
  indistinct : Indistinct visible (fun n => Upto time start is n ∧ Upto time start js n) d u

variable {I : Type} {time : I → ℤ} {start : ℤ} {is js : List I} {i : I}

theorem pair_nil (h : Timely (start ≤ ·) d.engine) : Pair visible time start [] [] d d where
  left := h.mono fun _ hm => hm.start_le
  right := h.mono fun _ hm => hm.start_le
  indistinct := .refl _ _ d

theorem Pair.symm (h : Pair visible time start is js d u) : Pair visible time start js is u d where
  left := h.right
  right := h.left
  indistinct := h.indistinct.symm.mono fun _ hm => hm.symm

theorem Pair.idle (h : Pair visible time start is js d u) (i : I) : Pair visible time start (is ++ [i]) js d u where
  left := h.left.mono fun _ hm => (upto_snoc.mp hm).1
  right := h.right
  indistinct := h.indistinct.mono fun _ hm => ⟨(upto_snoc.mp hm.1).1, hm.2⟩

theorem Pair.look (h : Pair visible time start is js d u) (horder : Nondecreasing time start (is ++ [i]))
    (hday : d.engine.today (time i) = .ok day) (hp : Pruned (time i) (d.engine.rollTo day) f) :
    Pair visible time start (is ++ [i]) js { d with engine := f } u where
  left := h.left.look hday hp fun _ hm => upto_snoc.mp hm
  right := h.right
  indistinct := h.indistinct.look h.left (nondecreasing_snoc.mp horder).2 hday hp fun _ hm =>
    ⟨⟨(upto_snoc.mp hm.1).1, hm.2⟩, (upto_snoc.mp hm.1).2⟩

theorem Pair.turn [ExactFloat] (hzero : RoundTrips (0 : ℚ)) (h : Pair visible time start is js d u)
    (horder : Nondecreasing time start (is ++ [i])) (horder' : Nondecreasing time start (js ++ [i]))
    (hstep : Desk.turn d ⟨time i, act⟩ = .ok d') (hstep' : Desk.turn u ⟨time i, act⟩ = .ok u')
    (hact : act ≠ .call .load) : Pair visible time start (is ++ [i]) (js ++ [i]) d' u' where
  left := h.left.turn hstep fun _ hm => upto_snoc.mp hm
  right := h.right.turn hstep' fun _ hm => upto_snoc.mp hm
  indistinct := by
    have hnow := And.intro (nondecreasing_snoc.mp horder).2 (nondecreasing_snoc.mp horder').2
    exact h.indistinct.turn hzero (h.left.mono fun _ hm => hm.1) (h.right.mono fun _ hm => hm.2) hstep hstep' hact
      hnow fun _ hm => ⟨⟨(upto_snoc.mp hm.1).1, (upto_snoc.mp hm.2).1⟩, (upto_snoc.mp hm.1).2⟩

end Desks

end PretradeRisk.TwoRuns
