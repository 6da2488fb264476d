import PretradeRisk.TwoRuns

namespace PretradeRisk.Looking

open Clock Decision Encoding Engine Evaluate Host Lifecycle Limits Orders Pruning Run Session Store Twins TwoRuns Visible

inductive Look
  | evaluate (files : Files) (request : OrderRequest ℚ)
  | tradingDay
  | livePnl
  | simulatedPnl
  | dailyRealizedPnl
  | dailyNotional
  | consecutiveRejects
  | executionsSinceRearm
  | lossLimitPnl
  | lossLimitPeak
  | lossLimitFloor
  | lossLimitHeadroom
  | lossLimitBypassActive
  | lossLimitBypassExpiresAt
  | lossLimitBreached
  | effectiveMaxOrderNotional
  | effectiveMaxOrderQuantity
  | killSwitchEngaged (files : Files)
  | controlStatus
  | runningControls
  | stoodDownControls

def Look.Value : Look → Type
  | .evaluate _ _ => RiskDecision ℚ
  | .tradingDay => String
  | .livePnl | .simulatedPnl | .dailyRealizedPnl | .dailyNotional | .lossLimitPnl | .lossLimitPeak => ℚ
  | .consecutiveRejects | .executionsSinceRearm => ℕ
  | .lossLimitFloor | .lossLimitHeadroom | .lossLimitBypassExpiresAt => Option ℚ
  | .effectiveMaxOrderNotional | .effectiveMaxOrderQuantity => Option ℚ
  | .lossLimitBypassActive | .lossLimitBreached | .killSwitchEngaged _ => Bool
  | .controlStatus => List ControlStatus
  | .runningControls | .stoodDownControls => List ControlId

section Looks

variable [PyFloat ℚ]

/-- The answer, and the engine after it: most looks roll the day, and an
evaluation prunes the windows. -/
def Look.ask (e : PreTradeRiskEngine ℚ) (n : ℤ) :
    (look : Look) → Except PyError (look.Value × PreTradeRiskEngine ℚ)
  | .evaluate files request => Evaluate.evaluate files e n request
  | .tradingDay => e.tradingDay n
  | .livePnl => e.livePnl n
  | .simulatedPnl => e.simulatedPnl n
  | .dailyRealizedPnl => e.dailyRealizedPnl n
  | .dailyNotional => e.dailyNotional n
  | .consecutiveRejects => e.consecutiveRejects n
  | .executionsSinceRearm => .ok (e.executionsSinceRearm, e)
  | .lossLimitPnl => e.lossLimitPnl n
  | .lossLimitPeak => e.lossLimitPeak n
  | .lossLimitFloor => e.lossLimitFloor n
  | .lossLimitHeadroom => e.lossLimitHeadroom n
  | .lossLimitBypassActive => .ok (e.bypassActive n, e)
  | .lossLimitBypassExpiresAt => .ok (e.overrides.bypassExpiresAt, e)
  | .lossLimitBreached => e.lossLimitBreached n
  | .effectiveMaxOrderNotional => .ok (e.effectiveMaxOrderNotional, e)
  | .effectiveMaxOrderQuantity => .ok (e.effectiveMaxOrderQuantity, e)
  | .killSwitchEngaged files => .ok (Evaluate.killSwitchEngaged files e, e)
  | .controlStatus => .ok (Evaluate.controlStatus e, e)
  | .runningControls => .ok (Evaluate.runningControls e, e)
  | .stoodDownControls => .ok (Evaluate.stoodDownControls e, e)

omit [PyFloat ℚ] in
/-- The legs a look reads, where the engine's own leg is `isLive`. -/
def Look.Sees (isLive : Bool) : Look → Bool → Prop
  | .livePnl, leg => leg = true
  | .simulatedPnl, leg => leg = false
  | .dailyRealizedPnl, _ => True
  | _, leg => leg = isLive

variable {visible : Bool → Prop} {later : ℤ → Prop} {d d' u u' : Desk ℚ} {e f : PreTradeRiskEngine ℚ} {look : Look}
  {n start : ℤ} {day : String} {α : Type}

theorem property_eq_ok {read : PreTradeRiskEngine ℚ → α} {x : α} (h : e.property read n = .ok (x, f)) :
    ∃ day, e.today n = .ok day ∧ f = e.rollTo day := by
  simp only [PreTradeRiskEngine.property, PreTradeRiskEngine.rollTradingDay, bind_eq_ok, pure_eq_ok,
    Except.ok.injEq, Prod.mk.injEq] at h
  obtain ⟨_, ⟨day, hday, rfl⟩, -, rfl⟩ := h
  exact ⟨day, hday, rfl⟩

theorem ask_leaves {x : look.Value} (h : look.ask e n = .ok (x, f)) :
    f = e ∨ ∃ day, e.today n = .ok day ∧ Pruned n (e.rollTo day) f := by
  have hkept {y z : look.Value} {g : PreTradeRiskEngine ℚ}
      (hok : (.ok (y, e) : Except PyError (look.Value × PreTradeRiskEngine ℚ)) = .ok (z, g)) : g = e := by
    cases hok; rfl
  have hrolled {β : Type} {read : PreTradeRiskEngine ℚ → β} {y : β} (hok : e.property read n = .ok (y, f)) :
      f = e ∨ ∃ day, e.today n = .ok day ∧ Pruned n (e.rollTo day) f := by
    obtain ⟨day, hday, rfl⟩ := property_eq_ok hok
    exact .inr ⟨day, hday, .refl n _⟩
  cases look with
  | evaluate files request => exact .inr (evaluate_pruned h)
  | tradingDay => exact hrolled h
  | livePnl => exact hrolled h
  | simulatedPnl => exact hrolled h
  | dailyRealizedPnl => exact hrolled h
  | dailyNotional => exact hrolled h
  | consecutiveRejects => exact hrolled h
  | lossLimitPnl => exact hrolled h
  | lossLimitPeak => exact hrolled h
  | lossLimitFloor => exact hrolled h
  | lossLimitHeadroom => exact hrolled h
  | lossLimitBreached => exact hrolled h
  | _ => exact .inl (hkept h)

theorem controlStatus_congr (hlimits : f.limits = e.limits) (hoverrides : f.overrides = e.overrides) :
    controlStatus f = controlStatus e := by
  refine List.map_congr_left fun c hc => ?_
  rw [isArmed_of_limits hlimits hoverrides c hc, hlimits]

theorem runningControls_congr (hlimits : f.limits = e.limits) (hoverrides : f.overrides = e.overrides) :
    runningControls f = runningControls e := by
  refine congrArg (List.map Control.id) (List.filter_congr fun c hc => ?_)
  rw [runs, runs, isArmed_of_limits hlimits hoverrides c hc, hlimits]

theorem stoodDownControls_congr (hlimits : f.limits = e.limits) (hoverrides : f.overrides = e.overrides) :
    stoodDownControls f = stoodDownControls e := by
  refine congrArg (List.map Control.id) (List.filter_congr fun c hc => ?_)
  rw [isArmed_of_limits hlimits hoverrides c hc, hlimits]

theorem effectiveMaxOrderNotional_congr (hlimits : f.limits = e.limits) (hoverrides : f.overrides = e.overrides) :
    f.effectiveMaxOrderNotional = e.effectiveMaxOrderNotional := by
  rw [PreTradeRiskEngine.effectiveMaxOrderNotional, PreTradeRiskEngine.effectiveMaxOrderNotional, hlimits, hoverrides]

theorem effectiveMaxOrderQuantity_congr (hlimits : f.limits = e.limits) (hoverrides : f.overrides = e.overrides) :
    f.effectiveMaxOrderQuantity = e.effectiveMaxOrderQuantity := by
  rw [PreTradeRiskEngine.effectiveMaxOrderQuantity, PreTradeRiskEngine.effectiveMaxOrderQuantity, hlimits, hoverrides]

theorem killSwitchEngaged_congr (files : Files) (hlimits : f.limits = e.limits) :
    killSwitchEngaged files f = killSwitchEngaged files e := by
  rw [killSwitchEngaged, killSwitchEngaged, hlimits]

theorem property_congr {read : PreTradeRiskEngine ℚ → α} (hlimits : f.limits = e.limits)
    (hread : ∀ day, e.today n = .ok day → read (f.rollTo day) = read (e.rollTo day)) :
    (f.property read n).map Prod.fst = (e.property read n).map Prod.fst := by
  simp only [PreTradeRiskEngine.property, PreTradeRiskEngine.rollTradingDay, today_congr hlimits]
  cases hday : e.today n with
  | error x => rfl
  | ok day => exact congrArg Except.ok (hread day hday)

theorem ask_congr (h : Indistinct visible later d u) (hn : later n)
    (hsees : ∀ leg, look.Sees d.engine.isLive leg → visible leg) :
    (look.ask u.engine n).map Prod.fst = (look.ask d.engine n).map Prod.fst := by
  have hlimits := h.limits
  have halike (hvisible : visible d.engine.isLive) {day : String} (hday : d.engine.today n = .ok day) :
      Alike n (d.engine.rollTo day) (u.engine.rollTo day) := h.alike hvisible hn hday
  cases look with
  | evaluate files request => exact h.evaluate_eq (hsees _ rfl) hn files request
  | tradingDay => exact property_congr hlimits fun day hday => (h.counters n hn day hday).tradingDay
  | livePnl => exact property_congr hlimits fun day hday => (h.counters n hn day hday).pnl true (hsees true rfl)
  | simulatedPnl => exact property_congr hlimits fun day hday => (h.counters n hn day hday).pnl false (hsees false rfl)
  | dailyRealizedPnl =>
      exact property_congr hlimits fun day hday => congrArg₂ (· + ·)
        ((h.counters n hn day hday).pnl true (hsees true trivial))
        ((h.counters n hn day hday).pnl false (hsees false trivial))
  | dailyNotional => exact property_congr hlimits fun day hday => (h.counters n hn day hday).dailyNotional
  | consecutiveRejects => exact property_congr hlimits fun day hday => (h.counters n hn day hday).consecutiveRejects
  | executionsSinceRearm => exact congrArg Except.ok h.executionsSinceRearm
  | lossLimitPnl => exact property_congr hlimits fun day hday => (halike (hsees _ rfl) hday).legPnl
  | lossLimitPeak => exact property_congr hlimits fun day hday => (halike (hsees _ rfl) hday).legPeak
  | lossLimitFloor => exact property_congr hlimits fun day hday => (halike (hsees _ rfl) hday).floor
  | lossLimitHeadroom =>
      refine property_congr hlimits fun day hday => ?_
      have ha := halike (hsees _ rfl) hday
      rw [ha.floor, ha.legPnl]
  | lossLimitBreached => exact property_congr hlimits fun day hday => (halike (hsees _ rfl) hday).breached
  | lossLimitBypassActive => exact congrArg (fun o : Overrides ℚ => Except.ok (o.bypassActive n)) h.overrides
  | lossLimitBypassExpiresAt => exact congrArg (fun o : Overrides ℚ => Except.ok o.bypassExpiresAt) h.overrides
  | effectiveMaxOrderNotional => exact congrArg Except.ok (effectiveMaxOrderNotional_congr hlimits h.overrides)
  | effectiveMaxOrderQuantity => exact congrArg Except.ok (effectiveMaxOrderQuantity_congr hlimits h.overrides)
  | killSwitchEngaged files => exact congrArg Except.ok (killSwitchEngaged_congr files hlimits)
  | controlStatus => exact congrArg Except.ok (controlStatus_congr hlimits h.overrides)
  | runningControls => exact congrArg Except.ok (runningControls_congr hlimits h.overrides)
  | stoodDownControls => exact congrArg Except.ok (stoodDownControls_congr hlimits h.overrides)

end Looks

inductive Doing
  | turn (act : Act ℚ)
  | look (look : Look)

structure Moment where
  now : ℤ
  doing : Doing

def Moment.isLook (moment : Moment) : Bool :=
  match moment.doing with
  | .turn _ => false
  | .look _ => true

section Lives

variable [PyFloat ℚ]

def Desk.watch (d : Desk ℚ) (moment : Moment) : Except PyError (Desk ℚ) :=
  match moment.doing with
  | .turn act => Desk.turn d ⟨moment.now, act⟩
  | .look look => do
      let (_, e) ← look.ask d.engine moment.now
      return { d with engine := e }

abbrev Watched (d : Desk ℚ) (moments : List Moment) (d' : Desk ℚ) : Prop :=
  Steps (fun d moment d' => Desk.watch d moment = .ok d') d moments d'

variable {d d' u u' : Desk ℚ} {e f : PreTradeRiskEngine ℚ} {moment : Moment} {is js : List Moment} {n start : ℤ}
  {visible : Bool → Prop}

theorem watch_of_ask {look : Look} {x : look.Value} (h : look.ask d.engine n = .ok (x, f)) :
    Desk.watch d ⟨n, .look look⟩ = .ok { d with engine := f } := by
  simp only [Desk.watch, h]; rfl

theorem watch_look (h : Desk.watch d moment = .ok d') (hlook : moment.isLook = true) :
    d' = d ∨ ∃ day f, d.engine.today moment.now = .ok day ∧ Pruned moment.now (d.engine.rollTo day) f ∧
      d' = { d with engine := f } := by
  obtain ⟨n, act | look⟩ := moment
  · cases hlook
  · simp only [Desk.watch, bind_eq_ok, pure_eq_ok, Except.ok.injEq] at h
    obtain ⟨⟨x, f⟩, hask, rfl⟩ := h
    rcases ask_leaves hask with rfl | ⟨day, hday, hp⟩
    · exact .inl rfl
    · exact .inr ⟨day, f, hday, hp, rfl⟩

theorem pair_look (h : Pair visible Moment.now start is js d u)
    (horder : Nondecreasing Moment.now start (is ++ [moment])) (hstep : Desk.watch d moment = .ok d')
    (hlook : moment.isLook = true) : Pair visible Moment.now start (is ++ [moment]) js d' u := by
  rcases watch_look hstep hlook with rfl | ⟨day, f, hday, hp, rfl⟩
  · exact h.idle moment
  · exact h.look horder hday hp

def Unloaded (start : ℤ) (moments : List Moment) : Prop :=
  Nondecreasing Moment.now start moments ∧ ∀ m ∈ moments, m.doing ≠ .turn (.call .load)

variable [ExactFloat]

theorem watched_pair (hzero : RoundTrips (0 : ℚ)) {d₀ : Desk ℚ} (htimely : Timely (start ≤ ·) d₀.engine)
    (hsame : is.filter (fun m => ¬ m.isLook) = js.filter fun m => ¬ m.isLook)
    (his : Nondecreasing Moment.now start is) (hjs : Nondecreasing Moment.now start js)
    (hload : ∀ m ∈ is, m.doing ≠ .turn (.call .load)) (hload' : ∀ m ∈ js, m.doing ≠ .turn (.call .load))
    (hd : Watched d₀ is d) (hu : Watched d₀ js u) : Pair (fun _ => True) Moment.now start is js d u := by
  have hunloaded : Unloaded start is := ⟨his, hload⟩
  have hunloaded' : Unloaded start js := ⟨hjs, hload'⟩
  refine (Woven.of_filter_eq hsame).simulate (R := Pair (fun _ => True) Moment.now start)
    ?_ (pair_nil htimely) ?_ ?_ ?_ hunloaded hunloaded' hd hu
  · exact fun is m ⟨horder, hkept⟩ => ⟨horder.of_append, fun k hk => hkept k (List.mem_append_left _ hk)⟩
  · rintro is js m t u t' u' ⟨horder, hkept⟩ ⟨horder', -⟩ hpair hstep hstep'
    cases hdoing : m.doing with
    | turn act =>
        have hact : act ≠ .call .load := fun heq => hkept m (by simp) (by rw [hdoing, heq])
        simp only [Desk.watch, hdoing] at hstep hstep'
        exact hpair.turn hzero horder horder' hstep hstep' hact
    | look look =>
        have hlook : m.isLook = true := by simp [Moment.isLook, hdoing]
        exact (pair_look (pair_look hpair horder hstep hlook).symm horder' hstep' hlook).symm
  · exact fun is js m t u t' ⟨horder, _⟩ hlook hpair hstep => pair_look hpair horder hstep hlook
  · exact fun is js m t u u' ⟨horder, _⟩ hlook hpair hstep => (pair_look hpair.symm horder hstep hlook).symm

omit [PyFloat ℚ] [ExactFloat] in
theorem load_or_none (hsame : is.filter (fun m => ¬ m.isLook) = js.filter fun m => ¬ m.isLook)
    (hload : ∀ m ∈ is.tail, m.doing ≠ .turn (.call .load)) (hload' : ∀ m ∈ js.tail, m.doing ≠ .turn (.call .load)) :
    ((∀ m ∈ is, m.doing ≠ .turn (.call .load)) ∧ ∀ m ∈ js, m.doing ≠ .turn (.call .load)) ∨
      ∃ m is' js', m.doing = .turn (.call .load) ∧ is = m :: is' ∧ js = m :: js' := by
  have hfirst {m : Moment} {ms : List Moment} (hm : m ∈ ms) (hdoing : m.doing = .turn (.call .load))
      (htail : ∀ k ∈ ms.tail, k.doing ≠ .turn (.call .load)) : ∃ ms', ms = m :: ms' := by
    cases hm with
    | head ms' => exact ⟨ms', rfl⟩
    | tail k hm => exact absurd hdoing (htail m hm)
  have hmem {m : Moment} (hdoing : m.doing = .turn (.call .load)) : m ∈ is ↔ m ∈ js := by
    have hkept : (decide ¬ m.isLook) = true := by simp [Moment.isLook, hdoing]
    have hfilter := congrArg (m ∈ ·) hsame
    simpa [List.mem_filter, Moment.isLook, hdoing] using hfilter
  by_cases h : ∃ m ∈ is, m.doing = .turn (.call .load)
  · obtain ⟨m, hm, hdoing⟩ := h
    obtain ⟨is', rfl⟩ := hfirst hm hdoing hload
    obtain ⟨js', rfl⟩ := hfirst ((hmem hdoing).mp hm) hdoing hload'
    exact .inr ⟨m, is', js', hdoing, rfl, rfl⟩
  · exact .inl ⟨fun m hm hdoing => h ⟨m, hm, hdoing⟩, fun m hm hdoing => h ⟨m, (hmem hdoing).mpr hm, hdoing⟩⟩

theorem watched_indistinct (hzero : RoundTrips (0 : ℚ)) {d₀ : Desk ℚ} (htimely : Timely (start ≤ ·) d₀.engine)
    (hsame : is.filter (fun m => ¬ m.isLook) = js.filter fun m => ¬ m.isLook)
    (his : Nondecreasing Moment.now start is) (hjs : Nondecreasing Moment.now start js)
    (hload : ∀ m ∈ is.tail, m.doing ≠ .turn (.call .load)) (hload' : ∀ m ∈ js.tail, m.doing ≠ .turn (.call .load))
    (hd : Watched d₀ is d) (hu : Watched d₀ js u) :
    Indistinct (fun _ => True) (fun n => Upto Moment.now start is n ∧ Upto Moment.now start js n) d u := by
  rcases load_or_none hsame hload hload' with ⟨hnone, hnone'⟩ | ⟨m, is', js', hdoing, rfl, rfl⟩
  · exact (watched_pair hzero htimely hsame his hjs hnone hnone' hd hu).indistinct
  · obtain ⟨d₁, hfirst, hd⟩ := steps_cons_iff.mp hd
    obtain ⟨u₁, hfirst', hu⟩ := steps_cons_iff.mp hu
    obtain rfl : d₁ = u₁ := Except.ok.inj (hfirst.symm.trans hfirst')
    obtain ⟨hm, his⟩ := nondecreasing_cons.mp his
    obtain ⟨-, hjs⟩ := nondecreasing_cons.mp hjs
    have hloaded : Timely (m.now ≤ ·) d₁.engine := by
      simp only [Desk.watch, hdoing] at hfirst
      exact htimely.turn hfirst fun k hk => ⟨hm.trans hk, hk⟩
    have hsame : is'.filter (fun m => ¬ m.isLook) = js'.filter fun m => ¬ m.isLook := by
      simpa [List.filter_cons, Moment.isLook, hdoing] using hsame
    have hpair := watched_pair hzero hloaded hsame his hjs hload hload' hd hu
    exact hpair.indistinct.mono fun n hn => ⟨(upto_cons hm).mp hn.1, (upto_cons hm).mp hn.2⟩

/-- Looking does not disturb: two runs of a fresh engine, with a load first or
none at all, that differ in looks only, answer alike every look either can
still be given. After any looks at one instant, each answer at it is the one
that was given first. -/
theorem looking_does_not_disturb (hzero : RoundTrips (0 : ℚ)) {limits : RiskLimits ℚ} {isLive : Bool} {s : StateStore}
    (hnew : PreTradeRiskEngine.new limits isLive start = .ok e)
    (hsame : is.filter (fun m => ¬ m.isLook) = js.filter fun m => ¬ m.isLook)
    (his : Nondecreasing Moment.now start is) (hjs : Nondecreasing Moment.now start js)
    (hload : ∀ m ∈ is.tail, m.doing ≠ .turn (.call .load)) (hload' : ∀ m ∈ js.tail, m.doing ≠ .turn (.call .load))
    (hd : Watched ⟨e, s⟩ is d) (hu : Watched ⟨e, s⟩ js u) (hn : Upto Moment.now start is n)
    (hn' : Upto Moment.now start js n) :
    (∀ look : Look, (look.ask u.engine n).map Prod.fst = (look.ask d.engine n).map Prod.fst) ∧
      ∀ looks d', (∀ m ∈ looks, m.isLook ∧ m.now = n) → Watched d looks d' → ∀ look : Look,
        (look.ask d'.engine n).map Prod.fst = (look.ask d.engine n).map Prod.fst := by
  obtain ⟨day, hday, rfl⟩ := new_eq_ok.mp hnew
  have htimely : Timely (start ≤ ·) (PreTradeRiskEngine.onDay limits isLive day) :=
    timely_onDay (c := Counters.fresh day) hday (fun _ hm => hm) rfl
  refine ⟨fun look => ?_, fun looks d' hlooks hd' look => ?_⟩
  · exact ask_congr (watched_indistinct hzero htimely hsame his hjs hload hload' hd hu) ⟨hn, hn'⟩ fun _ _ => trivial
  · have hfilter : is.filter (fun m => ¬ m.isLook) = (is ++ looks).filter fun m => ¬ m.isLook := by
      have hnone : looks.filter (fun m => ¬ m.isLook) = [] := by
        rw [List.filter_eq_nil_iff]
        exact fun m hm => by simp [(hlooks m hm).1]
      rw [List.filter_append, hnone, List.append_nil]
    have hlast : ∀ m ∈ looks, m.now = n := fun m hm => (hlooks m hm).2
    have hkept : ∀ m ∈ (is ++ looks).tail, m.doing ≠ .turn (.call .load) := by
      have hlook : ∀ m ∈ looks, m.doing ≠ .turn (.call .load) := by
        intro m hm hdoing
        simpa [Moment.isLook, hdoing] using (hlooks m hm).1
      intro m hm
      cases is with
      | nil => exact hlook m (List.mem_of_mem_tail hm)
      | cons i is => exact (List.mem_append.mp hm).elim (hload m) (hlook m)
    have hindistinct := watched_indistinct hzero htimely hfilter his (his.append hn hlast) hload hkept hd (hd.append hd')
    exact ask_congr hindistinct ⟨hn, hn.append hlast⟩ fun _ _ => trivial

end Lives

open scoped Decimal

def lossMoments : List Moment :=
  [⟨noon, .turn (.call .load)⟩, ⟨noon, .turn (.call (.report (.realizedPnl (-15) false)))⟩]

def watchedLoss : List Moment :=
  [⟨noon, .turn (.call .load)⟩, ⟨noon, .look .lossLimitBreached⟩,
    ⟨noon, .turn (.call (.report (.realizedPnl (-15) false)))⟩]

theorem looking_does_not_disturb_loss :
    ∃ d u, Watched freshDesk lossMoments d ∧ Watched freshDesk watchedLoss u ∧
      ∀ look : Look, (look.ask u.engine noon).map Prod.fst = (look.ask d.engine noon).map Prod.fst := by
  have hload : Desk.watch freshDesk ⟨noon, .turn (.call .load)⟩ = .ok (freshDesk.loaded "2026-07-20") :=
    perform_load tradingDay_noon
  have hreport (d : Desk ℚ) (hlimits : d.engine.limits = deskLimits) :
      Desk.watch d ⟨noon, .turn (.call (.report (.realizedPnl (-15) false)))⟩ =
        .ok (d.reported (.realizedPnl (-15) false) "2026-07-20") :=
    perform_report (by rw [PreTradeRiskEngine.today, hlimits]; exact tradingDay_noon)
  have hlook : Desk.watch (freshDesk.loaded "2026-07-20") ⟨noon, .look .lossLimitBreached⟩ =
      .ok { freshDesk.loaded "2026-07-20" with
        engine := (freshDesk.loaded "2026-07-20").engine.rollTo "2026-07-20" } := by
    have htoday : (freshDesk.loaded "2026-07-20").engine.today noon = .ok "2026-07-20" := tradingDay_noon
    exact watch_of_ask (PreTradeRiskEngine.lossLimitBreached_of_today htoday)
  have hd : Watched freshDesk lossMoments _ := (Steps.single hload).snoc (hreport _ rfl)
  have hu : Watched freshDesk watchedLoss _ := ((Steps.single hload).snoc hlook).snoc (hreport _ rfl)
  have hsame : lossMoments.filter (fun m => ¬ m.isLook) = watchedLoss.filter fun m => ¬ m.isLook := by
    simp [lossMoments, watchedLoss, Moment.isLook]
  have horder : Nondecreasing Moment.now noon lossMoments ∧ Nondecreasing Moment.now noon watchedLoss := by
    simp [Nondecreasing, lossMoments, watchedLoss]
  have hload : (∀ m ∈ lossMoments.tail, m.doing ≠ .turn (.call .load)) ∧
      ∀ m ∈ watchedLoss.tail, m.doing ≠ .turn (.call .load) := by simp [lossMoments, watchedLoss]
  have hnoon : Upto Moment.now noon lossMoments noon ∧ Upto Moment.now noon watchedLoss noon :=
    ⟨⟨le_rfl, by simp [lossMoments]⟩, ⟨le_rfl, by simp [watchedLoss]⟩⟩
  exact ⟨_, _, hd, hu, (looking_does_not_disturb (Decimal.roundTrips_intCast 0) new_freshDesk hsame horder.1 horder.2
    hload.1 hload.2 hd hu hnoon.1 hnoon.2).1⟩

end PretradeRisk.Looking
