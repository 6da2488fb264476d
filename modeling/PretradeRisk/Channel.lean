import PretradeRisk.Visible

namespace PretradeRisk.Channel

open Controls Encoding Engine Evaluate Host Limits Pruning Run Session Snapshot Store Visible

section World

variable [PyFloat ℚ]

inductive Deed
  | command (call : OverrideCall ℚ)
  | resetDailyLossLimit
  | construct (engine : ℕ) (limits : RiskLimits ℚ) (isLive : Bool)
  | engine (engine : ℕ) (op : Op ℚ)

structure Event where
  now : ℤ
  deed : Deed

structure World where
  store : StateStore
  engines : ℕ → PreTradeRiskEngine ℚ

def OfEngine : Op ℚ → Prop
  | .control _ => False
  | .outside _ => False
  | _ => True

inductive WorldStep (w : World) : Event → World → Prop
  | command {n : ℤ} {call : OverrideCall ℚ} {entries : Entries} (h : call.entries n = .ok entries) :
      WorldStep w ⟨n, .command call⟩ { w with store := setMany w.store entries }
  | refused {n : ℤ} {call : OverrideCall ℚ} {x : PyError} (h : call.entries n = .error x) :
      WorldStep w ⟨n, .command call⟩ w
  | resetDailyLossLimit {n : ℤ} :
      WorldStep w ⟨n, .resetDailyLossLimit⟩ { w with store := setMany w.store (Controls.resetDailyLossLimit ℚ) }
  | construct {n : ℤ} {i : ℕ} {limits : RiskLimits ℚ} {isLive : Bool} {e : PreTradeRiskEngine ℚ}
      (h : PreTradeRiskEngine.new limits isLive n = .ok e) :
      WorldStep w ⟨n, .construct i limits isLive⟩ { w with engines := Function.update w.engines i e }
  | engine {n : ℤ} {i : ℕ} {op : Op ℚ} {d : Desk ℚ} (hop : OfEngine op)
      (h : Desk.perform ⟨w.engines i, w.store⟩ ⟨n, op⟩ = .ok d) :
      WorldStep w ⟨n, .engine i op⟩ ⟨d.store, Function.update w.engines i d.engine⟩

abbrev Worlds (w : World) (events : List Event) (w' : World) : Prop := Steps WorldStep w events w'

def Event.isCommand (event : Event) : Bool :=
  match event.deed with
  | .command _ => true
  | _ => false

def Event.command (event : Event) : Option (ℤ × OverrideCall ℚ) :=
  match event.deed with
  | .command call =>
      match call.entries event.now with
      | .ok _ => some (event.now, call)
      | .error _ => none
  | _ => none

def returned (events : List Event) : List (ℤ × OverrideCall ℚ) := events.filterMap Event.command

/-- What a bypass or a clear puts on record. -/
def recorded : ℤ × OverrideCall ℚ → Option (BypassRecord ℚ)
  | (now, .bypassLossLimit durationMillis actor reason) =>
      some ⟨true, some ((now + durationMillis : ℤ) : ℚ), actor, reason, some (now : ℚ)⟩
  | (now, .clearLossLimitBypass actor) => some ⟨false, none, actor, "bypass cleared", some (now : ℚ)⟩
  | _ => none

def usable (value : Option ℚ) : Option ℚ := value.filter fun x => PyFloat.isfinite x && decide (0 < x)

def notionalCap : ℤ × OverrideCall ℚ → Option (Option ℚ)
  | (_, .setRuntimeMaxOrderNotional value) => some (usable value)
  | _ => none

def quantityCap : ℤ × OverrideCall ℚ → Option (Option ℚ)
  | (_, .setRuntimeMaxOrderQuantity value) => some (usable value)
  | _ => none

def floats : ℤ × OverrideCall ℚ → List ℚ
  | (now, .bypassLossLimit durationMillis _ _) => [((now + durationMillis : ℤ) : ℚ), (now : ℚ)]
  | (now, .clearLossLimitBypass _) => [(now : ℚ)]
  | (_, .setRuntimeMaxOrderNotional value) => value.toList
  | (_, .setRuntimeMaxOrderQuantity value) => value.toList

/-- Finite floats survive a write and a read, an integer becomes a finite float
or raises, and `"0"` reads as zero. -/
structure Faithful (calls : List (ℤ × OverrideCall ℚ)) : Prop where
  finite : ∀ n : ℤ, PyFloat.fits ℚ n = true → PyFloat.isfinite (n : ℚ) = true
  zero : PyFloat.float "0" = (0 : ℚ)
  roundTrips : ∀ call ∈ calls, ∀ x ∈ floats call, PyFloat.isfinite x = true → RoundTrips x

/-- The store after the operators' calls, had no engine worked on it. -/
def replay (s : StateStore) (calls : List (ℤ × OverrideCall ℚ)) : StateStore :=
  calls.foldl (fun s call => match call.2.entries call.1 with
    | .ok entries => setMany s entries
    | .error _ => s) s

variable {w w' : World} {event : Event} {events : List Event} {s t : StateStore} {entries : Entries}
  {calls : List (ℤ × OverrideCall ℚ)} {call : ℤ × OverrideCall ℚ}

theorem perform_overrideKeys {d d' : Desk ℚ} {n : ℤ} {op : Op ℚ} (hop : OfEngine op) (h : d.perform ⟨n, op⟩ = .ok d') :
    ∀ key ∈ overrideKeys, d'.store key = d.store key := by
  intro key hkey
  have hsnapshot (s : StateStore) (e : PreTradeRiskEngine ℚ) : setMany s e.snapshot key = s key :=
    setMany_snapshot_of_notMem s _ (notMem_counterKeys hkey)
  obtain ⟨-, -, hmoves⟩ := perform_moves h
  cases hmoves with
  | report _ _ hs => rw [hs, hsnapshot]
  | persist _ hs => rw [hs, hsnapshot]
  | load _ _ hs => rw [hs, hsnapshot]
  | roll _ _ _ hs => rw [hs]
  | keep _ _ hs => rw [hs]
  | control _ _ _ => exact hop.elim
  | outside _ _ => exact hop.elim

theorem step_command (h : WorldStep w event w') :
    (∃ call entries, event.command = some call ∧ call.2.entries call.1 = .ok entries ∧
        w'.store = setMany w.store entries) ∨
      (event.command = none ∧ ∀ key ∈ overrideKeys, w'.store key = w.store key) := by
  cases h with
  | @command n call entries h => exact .inl ⟨(n, call), entries, by simp [Event.command, h], h, rfl⟩
  | refused h => exact .inr ⟨by simp [Event.command, h], fun _ _ => rfl⟩
  | resetDailyLossLimit =>
      refine .inr ⟨rfl, fun key hkey => setMany_of_notMem _ _ fun hmem => notMem_counterKeys hkey ?_⟩
      revert hmem
      cases key <;> simp [Controls.resetDailyLossLimit, counterKeys]
  | construct h => exact .inr ⟨rfl, fun _ _ => rfl⟩
  | engine hop h => exact .inr ⟨rfl, perform_overrideKeys hop h⟩

theorem replay_snoc (h : call.2.entries call.1 = .ok entries) :
    replay s (calls ++ [call]) = setMany (replay s calls) entries := by
  rw [replay, List.foldl_append]
  simp only [List.foldl_cons, List.foldl_nil, h]
  rfl

theorem worlds_replay (h : Worlds w events w') :
    ∀ key ∈ overrideKeys, w'.store key = replay w.store (returned events) key := by
  induction h with
  | nil => exact fun _ _ => rfl
  | @snoc events w₁ event w₂ _ hstep ih =>
      intro key hkey
      rw [returned, List.filterMap_append]
      rcases step_command hstep with ⟨call, entries, hcall, hentries, hs⟩ | ⟨hcall, hs⟩
      · rw [List.filterMap_cons_some hcall, List.filterMap_nil, replay_snoc hentries, hs]
        exact setMany_congr (ih key hkey)
      · rw [List.filterMap_cons_none hcall, List.filterMap_nil, List.append_nil, hs key hkey]
        exact ih key hkey

theorem mem_returned (h : call ∈ returned events) : ∃ entries, call.2.entries call.1 = .ok entries := by
  obtain ⟨event, -, hcommand⟩ := List.mem_filterMap.mp h
  simp only [Event.command] at hcommand
  split at hcommand
  · split at hcommand
    · next hentries => cases hcommand; exact ⟨_, hentries⟩
    · cases hcommand
  · cases hcommand

theorem view_replay {V : Type} (view : StateStore → V) {sets : ℤ × OverrideCall ℚ → Option V}
    (hok : ∀ call ∈ calls, ∃ entries, call.2.entries call.1 = .ok entries)
    (hsets : ∀ call ∈ calls, ∀ entries s, call.2.entries call.1 = .ok entries →
      view (setMany s entries) = (sets call).getD (view s)) :
    view (replay s calls) = (calls.filterMap sets).getLast?.getD (view s) := by
  refine foldl_view_eq_last fun call hcall s => ?_
  obtain ⟨entries, hentries⟩ := hok call hcall
  simp only [hentries]
  exact hsets call hcall entries s hentries

theorem readLossLimitBypass_written (s : StateStore) (enabled : Bool) (expiry actor reason setAt : String) :
    (readLossLimitBypass (setMany s [(.lossLimitBypass, encodeBool enabled), (.lossLimitBypassExpiresAt, expiry),
        (.lossLimitBypassActor, actor), (.lossLimitBypassReason, reason), (.lossLimitBypassSetAt, setAt)]) :
      BypassRecord ℚ) = ⟨enabled, decodeFloat (some expiry), actor, reason, decodeFloat (some setAt)⟩ := by
  cases enabled <;> rfl

theorem readLossLimitBypass_setMany (hfaithful : Faithful calls) (hcall : call ∈ calls)
    (h : call.2.entries call.1 = .ok entries) :
    (readLossLimitBypass (setMany s entries) : BypassRecord ℚ) = (recorded call).getD (readLossLimitBypass s) := by
  have hround {x : ℚ} (hx : x ∈ floats call) (hfinite : PyFloat.isfinite x = true) :
      decodeFloat (some (encodeFloat x)) = some x := hfaithful.roundTrips call hcall x hx hfinite
  obtain ⟨n, command⟩ := call
  cases command with
  | bypassLossLimit durationMillis actor reason =>
      obtain ⟨⟨_, expiresAt⟩, hb, rfl⟩ := map_eq_ok.mp h
      obtain ⟨-, -, ⟨hexpiry, hnow⟩, hentries⟩ := bypassLossLimit_eq_ok hb
      have hexpiresAt := hround List.mem_cons_self (hfaithful.finite _ hexpiry)
      have hsetAt := hround (List.mem_cons_of_mem _ List.mem_cons_self) (hfaithful.finite _ hnow)
      simp only [hentries, readLossLimitBypass_written, hexpiresAt, hsetAt]
      rfl
  | clearLossLimitBypass actor =>
      obtain ⟨-, hnow, rfl⟩ := clearLossLimitBypass_eq_ok h
      have hsetAt := hround List.mem_cons_self (hfaithful.finite _ hnow)
      simp only [readLossLimitBypass_written, hsetAt]
      rfl
  | setRuntimeMaxOrderNotional value => cases h; rfl
  | setRuntimeMaxOrderQuantity value => cases h; rfl

theorem decodePositiveFloat_encodeOverride (hzero : PyFloat.float "0" = (0 : ℚ)) {value : Option ℚ}
    (hround : ∀ x ∈ value, PyFloat.isfinite x = true → RoundTrips x) :
    decodePositiveFloat (some (encodeOverride value)) = usable value := by
  cases value with
  | none => rfl
  | some x =>
      by_cases hpos : x ≤ 0
      · have hunusable : usable (some x) = none := by simp [usable, hpos]
        rw [hunusable, encodeOverride, if_pos hpos]
        rfl
      · rw [encodeOverride, if_neg hpos]
        by_cases hfinite : PyFloat.isfinite x = true
        · have husable : usable (some x) = some x := by simp [usable, hfinite, not_le.mp hpos]
          rw [husable, decodePositiveFloat, hround x rfl hfinite]
          simp only [hpos, if_false]
        · have hunusable : usable (some x) = none := by simp [usable, hfinite]
          have hdecode : decodeFloat (some "0") = (none : Option ℚ) ∨ decodeFloat (some "0") = some (0 : ℚ) := by
            rw [decodeFloat, if_pos (by decide), hzero]
            by_cases hz : PyFloat.isfinite (0 : ℚ) = true
            · exact .inr (if_pos hz)
            · exact .inl (if_neg hz)
          rw [hunusable, encodeFloat, if_neg hfinite, decodePositiveFloat]
          rcases hdecode with h | h <;> rw [h]
          simp

theorem getRuntimeMaxOrderNotional_setMany (hfaithful : Faithful calls) (hcall : call ∈ calls)
    (h : call.2.entries call.1 = .ok entries) :
    getRuntimeMaxOrderNotional (setMany s entries) = (notionalCap call).getD (getRuntimeMaxOrderNotional s) := by
  obtain ⟨n, command⟩ := call
  cases command with
  | bypassLossLimit durationMillis actor reason =>
      obtain ⟨_, hb, rfl⟩ := map_eq_ok.mp h
      rw [(bypassLossLimit_eq_ok hb).2.2.2]
      rfl
  | clearLossLimitBypass actor =>
      obtain ⟨-, -, rfl⟩ := clearLossLimitBypass_eq_ok h
      rfl
  | setRuntimeMaxOrderNotional value =>
      cases h
      exact decodePositiveFloat_encodeOverride hfaithful.zero fun x hx =>
        hfaithful.roundTrips _ hcall x (by simpa [floats] using hx)
  | setRuntimeMaxOrderQuantity value => cases h; rfl

theorem getRuntimeMaxOrderQuantity_setMany (hfaithful : Faithful calls) (hcall : call ∈ calls)
    (h : call.2.entries call.1 = .ok entries) :
    getRuntimeMaxOrderQuantity (setMany s entries) = (quantityCap call).getD (getRuntimeMaxOrderQuantity s) := by
  obtain ⟨n, command⟩ := call
  cases command with
  | bypassLossLimit durationMillis actor reason =>
      obtain ⟨_, hb, rfl⟩ := map_eq_ok.mp h
      rw [(bypassLossLimit_eq_ok hb).2.2.2]
      rfl
  | clearLossLimitBypass actor =>
      obtain ⟨-, -, rfl⟩ := clearLossLimitBypass_eq_ok h
      rfl
  | setRuntimeMaxOrderNotional value => cases h; rfl
  | setRuntimeMaxOrderQuantity value =>
      cases h
      exact decodePositiveFloat_encodeOverride hfaithful.zero fun x hx =>
        hfaithful.roundTrips _ hcall x (by simpa [floats] using hx)

theorem readLossLimitBypass_congr (h : ∀ key ∈ overrideKeys, t key = s key) :
    (readLossLimitBypass t : BypassRecord ℚ) = readLossLimitBypass s := by
  simp only [readLossLimitBypass, h .lossLimitBypass (by decide), h .lossLimitBypassExpiresAt (by decide),
    h .lossLimitBypassActor (by decide), h .lossLimitBypassReason (by decide), h .lossLimitBypassSetAt (by decide)]

theorem effectiveMaxOrderNotional_eq (e : PreTradeRiskEngine ℚ) :
    e.effectiveMaxOrderNotional = e.overrides.runtimeMaxOrderNotional.or e.limits.maxOrderNotionalUsd := by
  rw [PreTradeRiskEngine.effectiveMaxOrderNotional]
  cases e.overrides.runtimeMaxOrderNotional <;> rfl

theorem effectiveMaxOrderQuantity_eq (e : PreTradeRiskEngine ℚ) :
    e.effectiveMaxOrderQuantity = e.overrides.runtimeMaxOrderQuantity.or e.limits.maxOrderQuantity := by
  rw [PreTradeRiskEngine.effectiveMaxOrderQuantity]
  cases e.overrides.runtimeMaxOrderQuantity <;> rfl

theorem refreshOverrides_reads (e : PreTradeRiskEngine ℚ) (s : StateStore) :
    (∀ n, (e.refreshOverrides s).bypassActive n = (readLossLimitBypass s : BypassRecord ℚ).activeAt n) ∧
    (e.refreshOverrides s).effectiveMaxOrderNotional =
      (getRuntimeMaxOrderNotional s).or e.limits.maxOrderNotionalUsd ∧
    (e.refreshOverrides s).effectiveMaxOrderQuantity =
      (getRuntimeMaxOrderQuantity s).or e.limits.maxOrderQuantity :=
  ⟨fun _ => rfl, effectiveMaxOrderNotional_eq _, effectiveMaxOrderQuantity_eq _⟩

def Event.Renews (event : Event) (i : ℕ) : Prop :=
  event.deed = .engine i .refreshOverrides ∨ ∃ limits isLive, event.deed = .construct i limits isLive

theorem step_cache {i : ℕ} (h : WorldStep w event w') (hkept : ¬ event.Renews i) :
    (w'.engines i).overrides = (w.engines i).overrides ∧ (w'.engines i).limits = (w.engines i).limits := by
  cases h with
  | command h => exact ⟨rfl, rfl⟩
  | refused h => exact ⟨rfl, rfl⟩
  | resetDailyLossLimit => exact ⟨rfl, rfl⟩
  | @construct n j limits isLive e h =>
      have hij : i ≠ j := fun heq => hkept (.inr ⟨limits, isLive, by rw [heq]⟩)
      simp only [Function.update_of_ne hij, and_self]
  | @engine n j op d hop h =>
      by_cases hij : i = j
      · subst hij
        have hop : op ≠ .refreshOverrides := fun heq => hkept (.inl (by rw [heq]))
        simp only [Function.update_self]
        exact ⟨perform_overrides hop h, (perform_moves h).1⟩
      · simp only [Function.update_of_ne hij, and_self]

theorem worlds_cache {i : ℕ} (h : Worlds w events w') (hkept : ∀ event ∈ events, ¬ event.Renews i) :
    (w'.engines i).overrides = (w.engines i).overrides ∧ (w'.engines i).limits = (w.engines i).limits := by
  induction h with
  | nil => exact ⟨rfl, rfl⟩
  | @snoc events w₁ event w₂ _ hstep ih =>
      obtain ⟨hoverrides, hlimits⟩ := ih fun e he => hkept e (List.mem_append_left _ he)
      obtain ⟨hoverrides', hlimits'⟩ := step_cache hstep (hkept event (by simp))
      exact ⟨hoverrides'.trans hoverrides, hlimits'.trans hlimits⟩

structure SameBooks (w u : World) : Prop where
  store : ∀ key ∈ counterKeys, u.store key = w.store key
  limits : ∀ i, (u.engines i).limits = (w.engines i).limits
  counters : ∀ i, (u.engines i).counters = (w.engines i).counters

theorem SameBooks.refl (w : World) : SameBooks w w := ⟨fun _ _ => rfl, fun _ => rfl, fun _ => rfl⟩

theorem SameBooks.symm {u : World} (h : SameBooks w u) : SameBooks u w :=
  ⟨fun key hkey => (h.store key hkey).symm, fun i => (h.limits i).symm, fun i => (h.counters i).symm⟩

theorem SameBooks.trans {u v : World} (h : SameBooks w u) (k : SameBooks u v) : SameBooks w v :=
  ⟨fun key hkey => (k.store key hkey).trans (h.store key hkey), fun i => (k.limits i).trans (h.limits i),
    fun i => (k.counters i).trans (h.counters i)⟩

theorem step_isCommand (h : WorldStep w event w') (hcommand : event.isCommand = true) : SameBooks w w' := by
  cases h with
  | command h => exact ⟨fun _ hkey => OverrideCall.setMany_of_counterKeys h _ hkey, fun _ => rfl, fun _ => rfl⟩
  | refused h => exact .refl w
  | resetDailyLossLimit => cases hcommand
  | construct h => cases hcommand
  | engine hop h => cases hcommand

theorem setMany_snapshot_congr {c c' : Counters ℚ} (h : c' = c) :
    ∀ key ∈ counterKeys, setMany t c'.snapshot key = setMany s c.snapshot key := by
  intro key hkey
  subst h
  obtain ⟨⟨key, value⟩, hentry, rfl⟩ := List.mem_map.mp (snapshot_keys c' ▸ hkey)
  rw [setMany_of_mem t (snapshot_nodup c') hentry, setMany_of_mem s (snapshot_nodup c') hentry]

theorem perform_books {d d' u u' : Desk ℚ} {n : ℤ} {op : Op ℚ} (hop : OfEngine op)
    (hstore : ∀ key ∈ counterKeys, u.store key = d.store key) (hlimits : u.engine.limits = d.engine.limits)
    (hcounters : u.engine.counters = d.engine.counters) (h : d.perform ⟨n, op⟩ = .ok d')
    (h' : u.perform ⟨n, op⟩ = .ok u') :
    u'.engine.counters = d'.engine.counters ∧ ∀ key ∈ counterKeys, u'.store key = d'.store key := by
  have hday {day day' : String} (hd : d.engine.today n = .ok day) (hu : u.engine.today n = .ok day') : day' = day := by
    rw [PreTradeRiskEngine.today, hlimits] at hu
    exact Except.ok.inj (hu.symm.trans hd)
  cases op with
  | report event =>
      obtain ⟨day, hd, rfl⟩ := perform_report_eq_ok.mp h
      obtain ⟨day', hu, rfl⟩ := perform_report_eq_ok.mp h'
      obtain rfl := hday hd hu
      have hsame : (u.reported event day').engine.counters = (d.reported event day').engine.counters :=
        congrArg (fun c => event.apply (Counters.roll c day')) hcounters
      exact ⟨hsame, setMany_snapshot_congr hsame⟩
  | recordOrderSent request => cases h; cases h'; exact ⟨hcounters, hstore⟩
  | evaluate files request =>
      obtain ⟨_, f, hf, rfl⟩ := perform_evaluate_eq_ok.mp h
      obtain ⟨_, g, hg, rfl⟩ := perform_evaluate_eq_ok.mp h'
      obtain ⟨day, hd, hpruned⟩ := evaluate_pruned hf
      obtain ⟨day', hu, hpruned'⟩ := evaluate_pruned hg
      obtain rfl := hday hd hu
      have hrolled := congrArg (Counters.roll · day') hcounters
      exact ⟨hpruned'.counters.trans (hrolled.trans hpruned.counters.symm), hstore⟩
  | read =>
      obtain ⟨day, hd, rfl⟩ := perform_read_eq_ok.mp h
      obtain ⟨day', hu, rfl⟩ := perform_read_eq_ok.mp h'
      obtain rfl := hday hd hu
      exact ⟨congrArg (Counters.roll · day') hcounters, hstore⟩
  | persist => cases h; cases h'; exact ⟨hcounters, setMany_snapshot_congr hcounters⟩
  | load =>
      obtain ⟨day, hd, rfl⟩ := perform_load_eq_ok.mp h
      obtain ⟨day', hu, rfl⟩ := perform_load_eq_ok.mp h'
      obtain rfl := hday hd hu
      have hsame : (u.loaded day').engine.counters = (d.loaded day').engine.counters := by
        simp only [Desk.loaded, PreTradeRiskEngine.withCounters, adopt_getMany, hcounters, adopt_congr hstore]
      exact ⟨hsame, setMany_snapshot_congr hsame⟩
  | refreshOverrides => cases h; cases h'; exact ⟨hcounters, hstore⟩
  | control command => exact hop.elim
  | outside store => exact hop.elim

theorem SameBooks.step {u u' : World} (h : SameBooks w u) (hstep : WorldStep w event w')
    (hstep' : WorldStep u event u') : SameBooks w' u' := by
  by_cases hcommand : event.isCommand = true
  · exact ((step_isCommand hstep hcommand).symm.trans h).trans (step_isCommand hstep' hcommand)
  · cases hstep with
    | command _ => exact absurd rfl hcommand
    | refused _ => exact absurd rfl hcommand
    | resetDailyLossLimit =>
        cases hstep'
        exact ⟨fun key hkey => setMany_congr (h.store key hkey), h.limits, h.counters⟩
    | @construct n i limits isLive e hnew =>
        cases hstep' with
        | construct hnew' =>
            cases hnew.symm.trans hnew'
            refine ⟨h.store, fun j => ?_, fun j => ?_⟩ <;> by_cases hj : j = i
            · simp [hj]
            · simp [Function.update_of_ne hj, h.limits j]
            · simp [hj]
            · simp [Function.update_of_ne hj, h.counters j]
    | @engine n i op d hop hd =>
        cases hstep' with
        | @engine _ _ _ v _ hu =>
            obtain ⟨hcounters, hstore⟩ := perform_books hop h.store (h.limits i) (h.counters i) hd hu
            have hlimits : v.engine.limits = d.engine.limits :=
              (perform_moves hu).1.trans ((h.limits i).trans (perform_moves hd).1.symm)
            refine ⟨hstore, fun j => ?_, fun j => ?_⟩ <;> by_cases hj : j = i
            · simp [hj, hlimits]
            · simp [Function.update_of_ne hj, h.limits j]
            · simp [hj, hcounters]
            · simp [Function.update_of_ne hj, h.counters j]

theorem worlds_books {events' : List Event} {u : World}
    (hsame : events.filter (fun event => ¬ event.isCommand) = events'.filter fun event => ¬ event.isCommand)
    (h : Worlds w events w') (k : Worlds w events' u) : SameBooks w' u := by
  refine (Woven.of_filter_eq hsame).simulate (R := fun _ _ => SameBooks) (fun _ _ _ => trivial) (.refl w) ?_ ?_ ?_
    (show (fun _ => True) events from trivial) (show (fun _ => True) events' from trivial) h k
  · exact fun _ _ _ _ _ _ _ _ _ hbooks hstep hstep' => hbooks.step hstep hstep'
  · exact fun _ _ _ _ _ _ _ hcommand hbooks hstep => (step_isCommand hstep hcommand).symm.trans hbooks
  · exact fun _ _ _ _ _ _ _ hcommand hbooks hstep => hbooks.trans (step_isCommand hstep hcommand)

theorem isCommand_of_command (h : event.command = some call) : event.isCommand = true := by
  simp only [Event.command] at h
  split at h
  · next hdeed => simp [Event.isCommand, hdeed]
  · cases h

theorem returned_filter (events : List Event) : returned (events.filter (·.isCommand)) = returned events := by
  rw [returned, returned, List.filterMap_filter]
  refine List.filterMap_congr fun event _ => ?_
  by_cases h : event.isCommand = true
  · rw [if_pos h]
  · rw [if_neg h]
    exact (Option.eq_none_iff_forall_ne_some.mpr fun call hcall => h (isCommand_of_command hcall)).symm

/-- What the store carries between operators and engines over a run. -/
structure Conveys (w₀ : World) (events : List Event) (w : World) : Prop where
  bypass : readLossLimitBypass w.store =
    ((returned events).filterMap recorded).getLast?.getD (readLossLimitBypass w₀.store)
  maxOrderNotional : getRuntimeMaxOrderNotional w.store =
    ((returned events).filterMap notionalCap).getLast?.getD (getRuntimeMaxOrderNotional w₀.store)
  maxOrderQuantity : getRuntimeMaxOrderQuantity w.store =
    ((returned events).filterMap quantityCap).getLast?.getD (getRuntimeMaxOrderQuantity w₀.store)
  /-- an engine that then refreshes -/
  refreshed : ∀ n i w', WorldStep w ⟨n, .engine i .refreshOverrides⟩ w' →
    (∀ m, (w'.engines i).bypassActive m = (readLossLimitBypass w.store : BypassRecord ℚ).activeAt m) ∧
    (w'.engines i).effectiveMaxOrderNotional =
      (getRuntimeMaxOrderNotional w.store).or (w.engines i).limits.maxOrderNotionalUsd ∧
    (w'.engines i).effectiveMaxOrderQuantity =
      (getRuntimeMaxOrderQuantity w.store).or (w.engines i).limits.maxOrderQuantity
  /-- an engine that has not refreshed for a while -/
  kept : ∀ i before after w₁, events = before ++ after → Worlds w₀ before w₁ → Worlds w₁ after w →
    (∀ event ∈ after, ¬ event.Renews i) →
    (w.engines i).overrides = (w₁.engines i).overrides ∧ (w.engines i).limits = (w₁.engines i).limits
  overrideKeys : ∀ events' u, Worlds w₀ events' u →
    events'.filter (·.isCommand) = events.filter (·.isCommand) → ∀ key ∈ overrideKeys, u.store key = w.store key
  counterKeys : ∀ events' u, Worlds w₀ events' u →
    (events'.filter fun event => ¬ event.isCommand) = (events.filter fun event => ¬ event.isCommand) →
    ∀ key ∈ counterKeys, u.store key = w.store key

/-- The store is a faithful channel between operators and engines. -/
theorem store_conveys {w₀ : World} (hrun : Worlds w₀ events w) (hfaithful : Faithful (returned events)) :
    Conveys w₀ events w where
  bypass := by
    rw [readLossLimitBypass_congr (worlds_replay hrun)]
    exact view_replay readLossLimitBypass (fun _ => mem_returned)
      fun call hcall entries s h => readLossLimitBypass_setMany hfaithful hcall h
  maxOrderNotional := by
    rw [getRuntimeMaxOrderNotional, worlds_replay hrun _ (by decide)]
    exact view_replay getRuntimeMaxOrderNotional (fun _ => mem_returned)
      fun call hcall entries s h => getRuntimeMaxOrderNotional_setMany hfaithful hcall h
  maxOrderQuantity := by
    rw [getRuntimeMaxOrderQuantity, worlds_replay hrun _ (by decide)]
    exact view_replay getRuntimeMaxOrderQuantity (fun _ => mem_returned)
      fun call hcall entries s h => getRuntimeMaxOrderQuantity_setMany hfaithful hcall h
  refreshed := by
    rintro n i w' (_ | _ | _ | _ | ⟨-, h⟩)
    cases h
    simp only [Function.update_self]
    exact refreshOverrides_reads (w.engines i) w.store
  kept := fun i before after w₁ _ _ hafter hrenews => worlds_cache hafter hrenews
  overrideKeys := by
    intro events' u hu hsame key hkey
    have hreturned : returned events' = returned events := by
      rw [← returned_filter events', hsame, returned_filter]
    rw [worlds_replay hu key hkey, hreturned, worlds_replay hrun key hkey]
  counterKeys := fun events' u hu hsame => (worlds_books hsame.symm hrun hu).store

end World

open scoped Decimal

def idleWorld : World := ⟨empty, fun _ => freshDesk.engine⟩

def outage : List Event :=
  [⟨noon, .command (.bypassLossLimit 1000 "ops" "feed outage")⟩,
    ⟨noon, .engine 0 (.report (.realizedPnl (-15) false))⟩,
    ⟨noon, .command (.setRuntimeMaxOrderNotional (some 25))⟩,
    ⟨noon + 1, .command (.clearLossLimitBypass "ops")⟩]

def outageCalls : List (ℤ × OverrideCall ℚ) :=
  [(noon, .bypassLossLimit 1000 "ops" "feed outage"), (noon, .setRuntimeMaxOrderNotional (some 25)),
    (noon + 1, .clearLossLimitBypass "ops")]

theorem returned_outage : returned outage = outageCalls := rfl

theorem faithful_outage : Faithful (returned outage) := by
  rw [returned_outage]
  refine ⟨fun _ _ => rfl, by decide +kernel, fun call hcall x hx _ => ?_⟩
  have hwhole : ∃ n : ℤ, x = n := by
    simp only [outageCalls, List.mem_cons, List.not_mem_nil, or_false] at hcall
    rcases hcall with rfl | rfl | rfl
    · simp only [floats, List.mem_cons, List.not_mem_nil, or_false] at hx
      exact hx.elim (fun h => ⟨_, h⟩) fun h => ⟨_, h⟩
    · exact ⟨25, by simpa [floats] using hx⟩
    · exact ⟨noon + 1, by simpa [floats] using hx⟩
  obtain ⟨n, rfl⟩ := hwhole
  exact Decimal.roundTrips_intCast n

theorem store_conveys_bypass :
    ∃ w, Worlds idleWorld outage w ∧
      (readLossLimitBypass w.store : BypassRecord ℚ) =
        ⟨false, none, "ops", "bypass cleared", some ((noon + 1 : ℤ) : ℚ)⟩ ∧
      getRuntimeMaxOrderNotional w.store = some (25 : ℚ) := by
  obtain ⟨w₁, h₁, hengines⟩ : ∃ w, WorldStep idleWorld outage[0] w ∧ w.engines = idleWorld.engines := ⟨_, .command rfl, rfl⟩
  have htoday : (w₁.engines 0).today noon = .ok "2026-07-20" := by
    rw [hengines]
    exact tradingDay_noon
  obtain ⟨w₂, h₂⟩ : ∃ w, WorldStep w₁ outage[1] w := ⟨_, .engine trivial (perform_report htoday)⟩
  obtain ⟨w₃, h₃⟩ : ∃ w, WorldStep w₂ outage[2] w := ⟨_, .command rfl⟩
  obtain ⟨w₄, h₄⟩ : ∃ w, WorldStep w₃ outage[3] w := ⟨_, .command rfl⟩
  have hrun : Worlds idleWorld outage w₄ := (((Steps.single h₁).snoc h₂).snoc h₃).snoc h₄
  have hconveys := store_conveys hrun faithful_outage
  refine ⟨w₄, hrun, ?_, ?_⟩
  · rw [hconveys.bypass, returned_outage]
    rfl
  · rw [hconveys.maxOrderNotional, returned_outage]
    decide +kernel

end PretradeRisk.Channel
