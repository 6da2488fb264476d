import PretradeRisk.Looking

namespace PretradeRisk.Legs

open Controls Encoding Engine Evaluate Host Lifecycle Limits Looking Orders Pruning Run Session Snapshot Store TwoRuns
  Visible

def ofOtherLeg [PyFloat ℚ] (isLive : Bool) (turn : Turn ℚ) : Bool :=
  match turn.act with
  | .call (.report (.realizedPnl _ leg)) => leg != isLive
  | _ => false

section Legs

variable [PyFloat ℚ]

/-- The acts that keep the counters in the store and in memory together. -/
def Ordinary : Act ℚ → Prop
  | .call (.outside _) => False
  | .resetDailyLossLimit => False
  | _ => True

/-- The acts that write a snapshot. -/
def Writes : Act ℚ → Prop
  | .call op => Restart.Writes op
  | .resetDailyLossLimit => False
  | .restart _ => True

/-- A restart at any reading to come would adopt the counters in memory. -/
def Recoverable (later : ℤ → Prop) (d : Desk ℚ) : Prop :=
  ∀ n, later n → ∀ day, d.engine.today n = .ok day →
    (Counters.fresh day : Counters ℚ).adopt d.store day = reread (d.engine.counters.roll day)

variable {later later' own : ℤ → Prop} {d d' u u' : Desk ℚ} {n start : ℤ} {day : String}
  {limits : RiskLimits ℚ} {isLive : Bool} {turns is js : List (Turn ℚ)}

theorem mirrors_of_writes {turn : Turn ℚ} (h : Desk.turn d turn = .ok d') (hact : Writes turn.act) :
    Mirrors d'.store d'.engine.counters := by
  obtain ⟨n, act⟩ := turn
  cases act with
  | call op => exact Restart.mirrors_of_writes h hact
  | resetDailyLossLimit => exact hact.elim
  | restart built =>
      obtain ⟨day, -, rfl⟩ := turn_restart h
      exact mirrors_setMany _ _

variable [ExactFloat]

theorem recoverable_of_mirrors (hzero : RoundTrips (0 : ℚ)) (h : Mirrors d.store d.engine.counters) :
    Recoverable later d := fun _ _ day _ => adopt_of_snapshot hzero h day

theorem recoverable_of_blank (hzero : RoundTrips (0 : ℚ)) {s : StateStore} (h : ∀ key ∈ counterKeys, s key = none) :
    Recoverable later ⟨.onDay limits isLive day, s⟩ := by
  intro n _ today _
  have hblank {key : Key} (hkey : key ∈ counterKeys) : s key = none := h key hkey
  have hroll : (Counters.fresh day : Counters ℚ).roll today = .dayStart today 0 := Counters.roll_dayStart day today 0
  have hdate : s .tradingDay ≠ some today := by
    rw [hblank (by decide)]; exact nofun
  have hcount : asCount ℚ (s .executionsSinceRearm) = 0 := by
    rw [hblank (by decide)]; rfl
  rw [adopt_of_date_ne _ hdate, hcount]
  exact ((congrArg reread hroll).trans ((reread_dayStart hzero today 0).trans (by rw [asCount_zero hzero]; rfl))).symm

omit [ExactFloat] in
theorem Recoverable.look (h : Recoverable later d) (ht : Timely later d.engine) (hn : later n)
    (hday : d.engine.today n = .ok day) (hlimits : d'.engine.limits = d.engine.limits)
    (hc : d'.engine.counters = d.engine.counters.roll day) (hs : d'.store = d.store)
    (hlater : ∀ m, later' m → later m ∧ n ≤ m) : Recoverable later' d' := by
  intro m hm day' hday'
  obtain ⟨hm, hnm⟩ := hlater m hm
  have htoday : d.engine.today m = .ok day' := (today_congr hlimits m).symm.trans hday'
  rw [hs, hc, ht.roll_roll hn hday htoday hnm]
  exact h m hm day' htoday

omit [ExactFloat] in
theorem Recoverable.of_eq (h : Recoverable later d) (hlimits : d'.engine.limits = d.engine.limits)
    (hc : d'.engine.counters = d.engine.counters) (hs : ∀ key ∈ counterKeys, d'.store key = d.store key)
    (hlater : ∀ m, later' m → later m) : Recoverable later' d' := by
  intro m hm day' hday'
  rw [adopt_congr hs, hc]
  exact h m (hlater m hm) day' ((today_congr hlimits m).symm.trans hday')

theorem Recoverable.turn (hzero : RoundTrips (0 : ℚ)) {turn : Turn ℚ} (h : Recoverable later d)
    (ht : Timely later d.engine) (hn : later turn.now) (hstep : Desk.turn d turn = .ok d') (hact : Ordinary turn.act)
    (hlater : ∀ m, later' m → later m ∧ turn.now ≤ m) : Recoverable later' d' := by
  by_cases hwrites : Writes turn.act
  · exact recoverable_of_mirrors hzero (mirrors_of_writes hstep hwrites)
  · obtain ⟨n, act⟩ := turn
    cases act with
    | call op =>
        obtain ⟨hlimits, -, hmoves⟩ := perform_moves hstep
        cases hmoves with
        | roll _ hday hc hs => exact h.look ht hn hday hlimits hc hs hlater
        | keep _ hc hs => exact h.of_eq hlimits hc (fun key _ => congrFun hs key) fun m hm => (hlater m hm).1
        | control hentries hc hs =>
            refine h.of_eq hlimits hc (fun key hkey => ?_) fun m hm => (hlater m hm).1
            rw [hs]
            exact OverrideCall.setMany_of_counterKeys hentries _ hkey
        | outside _ _ => exact hact.elim
        | report _ _ _ => exact absurd trivial hwrites
        | persist _ _ => exact absurd trivial hwrites
        | load _ _ _ => exact absurd trivial hwrites
    | resetDailyLossLimit => exact hact.elim
    | restart built => exact absurd trivial hwrites

omit [ExactFloat] in
theorem Recoverable.mono (h : Recoverable later d) (hlater : ∀ m, later' m → later m) : Recoverable later' d :=
  fun n hn => h n (hlater n hn)

theorem indistinct_hidden (hzero : RoundTrips (0 : ℚ)) {visible : Bool → Prop} {leg : Bool} {pnlUsd : ℚ}
    (h : Indistinct visible later d u) (ht : Timely own d.engine) (hu : Recoverable later u) (hn : own n)
    (hday : d.engine.today n = .ok day) (hleg : ¬ visible leg) (hlater : ∀ m, later' m → later m ∧ n ≤ m) :
    Indistinct visible later' (d.reported (.realizedPnl pnlUsd leg) day) u := by
  have hcounters : ∀ m, later' m → ∀ day', d.engine.today m = .ok day' →
      SameFor visible ((d.reported (.realizedPnl pnlUsd leg) day).engine.counters.roll day')
        (u.engine.counters.roll day') := by
    intro m hm day' hday'
    obtain ⟨hm, hnm⟩ := hlater m hm
    have hrolled := (sameFor_apply_hidden hleg (d.engine.counters.roll day) pnlUsd).roll day'
    rw [ht.roll_roll hn hday hday' hnm] at hrolled
    exact hrolled.symm.trans (h.counters m hm day' hday')
  have hexecutions := (sameFor_apply_hidden hleg (d.engine.counters.roll day) pnlUsd).executionsSinceRearm
  refine {
    limits := h.limits
    isLive := h.isLive
    overrides := h.overrides
    counters := hcounters
    executionsSinceRearm := ?_
    rateWindow := fun m hm => h.rateWindow m (hlater m hm).1
    duplicateWindow := fun m hm => h.duplicateWindow m (hlater m hm).1
    keys := fun key hkey => ?_
    stored := fun m hm day' hday' => ?_ }
  · exact h.executionsSinceRearm.trans ((hexecutions.trans (Counters.roll_executionsSinceRearm _ _)).symm)
  · exact (h.keys key hkey).trans (setMany_snapshot_of_notMem _ _ (notMem_counterKeys hkey)).symm
  · have hstored : (Counters.fresh day' : Counters ℚ).adopt (d.reported (.realizedPnl pnlUsd leg) day).store day' =
        reread ((d.reported (.realizedPnl pnlUsd leg) day).engine.counters.roll day') :=
      adopt_of_snapshot hzero (mirrors_setMany _ _) day'
    rw [hu m (hlater m hm).1 day' ((today_congr h.limits m).trans hday'), hstored]
    exact (hcounters m hm day' hday').reread

/-- Runs of one engine that differ in reports on the other leg, so far. -/
structure LegPair (isLive : Bool) (start : ℤ) (is js : List (Turn ℚ)) (d u : Desk ℚ) : Prop where
  pair : Pair (· = isLive) Turn.now start is js d u
  left : Recoverable (Upto Turn.now start is) d
  right : Recoverable (Upto Turn.now start js) u

omit [ExactFloat] in
theorem LegPair.symm (h : LegPair isLive start is js d u) : LegPair isLive start js is u d :=
  ⟨h.pair.symm, h.right, h.left⟩

omit [ExactFloat] in
theorem turn_of_otherLeg {turn : Turn ℚ} (h : Desk.turn d turn = .ok d') (hhidden : ofOtherLeg isLive turn = true) :
    ∃ day pnlUsd leg, d.engine.today turn.now = .ok day ∧ leg ≠ isLive ∧
      turn.act = .call (.report (.realizedPnl pnlUsd leg)) ∧ d' = d.reported (.realizedPnl pnlUsd leg) day := by
  obtain ⟨n, act⟩ := turn
  simp only [ofOtherLeg] at hhidden
  split at hhidden
  · rename_i pnlUsd leg
    obtain ⟨day, hday, rfl⟩ := perform_report_eq_ok.mp h
    exact ⟨day, pnlUsd, leg, hday, by simpa using hhidden, rfl, rfl⟩
  · cases hhidden

theorem LegPair.hidden (hzero : RoundTrips (0 : ℚ)) {turn : Turn ℚ} (h : LegPair isLive start is js d u)
    (horder : Nondecreasing Turn.now start (is ++ [turn])) (hstep : Desk.turn d turn = .ok d')
    (hhidden : ofOtherLeg isLive turn = true) : LegPair isLive start (is ++ [turn]) js d' u := by
  obtain ⟨day, pnlUsd, leg, hday, hleg, hact, rfl⟩ := turn_of_otherLeg hstep hhidden
  have hnow := (nondecreasing_snoc.mp horder).2
  refine ⟨⟨Timely.turn h.pair.left hstep fun _ hm => upto_snoc.mp hm, h.pair.right, ?_⟩,
    recoverable_of_mirrors hzero (mirrors_setMany _ _), h.right⟩
  exact indistinct_hidden hzero h.pair.indistinct h.pair.left (h.right.mono fun _ hm => hm.2) hnow hday hleg
    fun m hm => ⟨⟨(upto_snoc.mp hm.1).1, hm.2⟩, (upto_snoc.mp hm.1).2⟩

theorem LegPair.shared (hzero : RoundTrips (0 : ℚ)) {turn : Turn ℚ} (h : LegPair isLive start is js d u)
    (horder : Nondecreasing Turn.now start (is ++ [turn])) (horder' : Nondecreasing Turn.now start (js ++ [turn]))
    (hstep : Desk.turn d turn = .ok d') (hstep' : Desk.turn u turn = .ok u') (hact : Ordinary turn.act)
    (hload : turn.act ≠ .call .load) : LegPair isLive start (is ++ [turn]) (js ++ [turn]) d' u' where
  pair := h.pair.turn hzero horder horder' hstep hstep' hload
  left := h.left.turn hzero h.pair.left (nondecreasing_snoc.mp horder).2 hstep hact fun _ hm => upto_snoc.mp hm
  right := h.right.turn hzero h.pair.right (nondecreasing_snoc.mp horder').2 hstep' hact fun _ hm => upto_snoc.mp hm

/-- An opening after which memory and store agree, be it because a snapshot
was written or because the store held no counters. -/
theorem opening_recoverable (hzero : RoundTrips (0 : ℚ)) {s : StateStore} {opening : List (Turn ℚ)}
    (htoday : Clock.tradingDay start limits.sessionRollMillis = .ok day)
    (hrun : Lives ⟨.onDay limits isLive day, s⟩ opening d) (horder : Nondecreasing Turn.now start opening)
    (hacts : ∀ turn ∈ opening, Ordinary turn.act) :
    Timely (Upto Turn.now start opening) d.engine ∧
      ((∀ key ∈ counterKeys, s key = none) ∨ (∃ turn ∈ opening, Writes turn.act) →
        Recoverable (Upto Turn.now start opening) d) := by
  induction hrun with
  | nil =>
      refine ⟨timely_onDay (c := Counters.fresh day) htoday (fun _ hm => hm.start_le) rfl, fun hstart => ?_⟩
      exact recoverable_of_blank hzero (hstart.resolve_right (by simp))
  | @snoc opening d turn d' _ hstep ih =>
      obtain ⟨hinitial, hnow⟩ := nondecreasing_snoc.mp horder
      obtain ⟨htimely, hrecoverable⟩ := ih hinitial fun t ht => hacts t (List.mem_append_left _ ht)
      refine ⟨Timely.turn htimely hstep fun _ hm => upto_snoc.mp hm, fun hstart => ?_⟩
      by_cases hwrites : Writes turn.act
      · exact recoverable_of_mirrors hzero (mirrors_of_writes hstep hwrites)
      · have hbefore : (∀ key ∈ counterKeys, s key = none) ∨ ∃ t ∈ opening, Writes t.act := by
          refine hstart.imp_right fun ⟨t, ht, htw⟩ => ⟨t, (List.mem_append.mp ht).resolve_right fun hlast => ?_, htw⟩
          exact hwrites (List.mem_singleton.mp hlast ▸ htw)
        exact (hrecoverable hbefore).turn hzero htimely hnow hstep (hacts turn (by simp))
          fun _ hm => upto_snoc.mp hm

/-- Turns the two runs may differ in, or share: the clock never steps back, and
nothing is loaded but by a restart. -/
def Unloaded (start : ℤ) (turns : List (Turn ℚ)) : Prop :=
  Nondecreasing Turn.now start turns ∧ ∀ turn ∈ turns, Ordinary turn.act ∧ turn.act ≠ .call .load

/-- Neither leg can influence what is said of the other: runs of one engine
that share an opening, after which memory and store agree, and then differ in
reports on the other leg only, answer alike every evaluation and every look
that does not read that leg. -/
theorem other_leg_unseen (hzero : RoundTrips (0 : ℚ)) {e : PreTradeRiskEngine ℚ} {s : StateStore} {opening : List (Turn ℚ)}
    (hnew : PreTradeRiskEngine.new limits isLive start = .ok e)
    (hopening : ∀ turn ∈ opening, Ordinary turn.act)
    (hstart : (∀ key ∈ counterKeys, s key = none) ∨ ∃ turn ∈ opening, Writes turn.act)
    (hsame : is.filter (fun t => ¬ ofOtherLeg isLive t) = js.filter fun t => ¬ ofOtherLeg isLive t)
    (hacts : ∀ turn ∈ is, Ordinary turn.act ∧ turn.act ≠ .call .load)
    (hacts' : ∀ turn ∈ js, Ordinary turn.act ∧ turn.act ≠ .call .load)
    (his : Nondecreasing Turn.now start (opening ++ is)) (hjs : Nondecreasing Turn.now start (opening ++ js))
    (hd : Lives ⟨e, s⟩ (opening ++ is) d) (hu : Lives ⟨e, s⟩ (opening ++ js) u)
    (hn : Upto Turn.now start (opening ++ is) n) (hn' : Upto Turn.now start (opening ++ js) n)
    (look : Look) (hlook : ¬ look.Sees isLive (!isLive)) :
    (look.ask u.engine n).map Prod.fst = (look.ask d.engine n).map Prod.fst := by
  obtain ⟨today, htoday, rfl⟩ := new_eq_ok.mp hnew
  have hisLive : d.engine.isLive = isLive := (lives_limits hd).2
  obtain ⟨d₀, hd₀, hd⟩ := steps_append_iff.mp hd
  obtain ⟨u₀, hu₀, hu⟩ := steps_append_iff.mp hu
  obtain rfl : d₀ = u₀ := hd₀.unique_of_ok hu₀
  obtain ⟨htimely, hrecoverable⟩ := opening_recoverable hzero htoday hd₀ his.of_append hopening
  obtain ⟨m, hm, hrest⟩ := his.of_append.split
  obtain ⟨his, hupto⟩ := hrest is his
  obtain ⟨hjs, hupto'⟩ := hrest js hjs
  have hlast {k : ℤ} (hk : m ≤ k) : Upto Turn.now start opening k :=
    ⟨hm.start_le.trans hk, fun t ht => (hm.le t ht).trans hk⟩
  have hnil : LegPair isLive m [] [] d₀ d₀ := by
    refine ⟨pair_nil (htimely.mono fun k hk => hlast hk), ?_, ?_⟩ <;>
      exact (hrecoverable hstart).mono fun k hk => hlast hk.start_le
  have hunloaded : Unloaded m is := ⟨his, hacts⟩
  have hunloaded' : Unloaded m js := ⟨hjs, hacts'⟩
  have hpair : LegPair isLive m is js d u := by
    refine (Woven.of_filter_eq hsame).simulate (R := LegPair isLive m)
      ?_ hnil ?_ ?_ ?_ hunloaded hunloaded' hd hu
    · exact fun is t ⟨horder, hkept⟩ => ⟨horder.of_append, fun k hk => hkept k (List.mem_append_left _ hk)⟩
    · rintro is js turn t u t' u' ⟨horder, hkept⟩ ⟨horder', -⟩ h hstep hstep'
      obtain ⟨hact, hload⟩ := hkept turn (by simp)
      exact h.shared hzero horder horder' hstep hstep' hact hload
    · exact fun is js turn t u t' ⟨horder, _⟩ hhidden h hstep => h.hidden hzero horder hstep hhidden
    · exact fun is js turn t u u' ⟨horder, _⟩ hhidden h hstep => (h.symm.hidden hzero horder hstep hhidden).symm
  refine ask_congr hpair.pair.indistinct ⟨(hupto n).mp hn, (hupto' n).mp hn'⟩ fun leg hleg => ?_
  rw [hisLive] at hleg
  by_contra hne
  exact hlook ((Bool.eq_not_iff.mpr hne) ▸ hleg)

end Legs

open scoped Decimal

def ownLoss : List (Turn ℚ) := [⟨noon, .call (.report (.realizedPnl (-15) false))⟩]

def bothLegs : List (Turn ℚ) :=
  [⟨noon, .call (.report (.realizedPnl 7 true))⟩, ⟨noon, .call (.report (.realizedPnl (-15) false))⟩]

theorem other_leg_unseen_loss :
    ∃ d u, Lives freshDesk ([⟨noon, .call .load⟩] ++ ownLoss) d ∧ Lives freshDesk ([⟨noon, .call .load⟩] ++ bothLegs) u ∧
      ∀ files r, (evaluate files u.engine noon r).map Prod.fst = (evaluate files d.engine noon r).map Prod.fst := by
  have hload : Desk.turn freshDesk ⟨noon, .call .load⟩ = .ok (freshDesk.loaded "2026-07-20") :=
    perform_load tradingDay_noon
  have hreport (d : Desk ℚ) (hlimits : d.engine.limits = deskLimits) (event : CounterEvent ℚ) :
      Desk.turn d ⟨noon, .call (.report event)⟩ = .ok (d.reported event "2026-07-20") :=
    perform_report (by rw [PreTradeRiskEngine.today, hlimits]; exact tradingDay_noon)
  have hd : Lives freshDesk ([⟨noon, .call .load⟩] ++ ownLoss) _ := (Steps.single hload).snoc (hreport _ rfl _)
  have hu : Lives freshDesk ([⟨noon, .call .load⟩] ++ bothLegs) _ :=
    ((Steps.single hload).snoc (hreport _ rfl _)).snoc (hreport _ rfl _)
  have hacts : (∀ turn ∈ ownLoss, Ordinary turn.act ∧ turn.act ≠ .call .load) ∧
      ∀ turn ∈ bothLegs, Ordinary turn.act ∧ turn.act ≠ .call .load := by simp [ownLoss, bothLegs, Ordinary]
  have horder : Nondecreasing Turn.now noon ([⟨noon, .call .load⟩] ++ ownLoss) ∧
      Nondecreasing Turn.now noon ([⟨noon, .call .load⟩] ++ bothLegs) := by
    simp [Nondecreasing, ownLoss, bothLegs]
  have hsame : ownLoss.filter (fun t => ¬ ofOtherLeg false t) = bothLegs.filter fun t => ¬ ofOtherLeg false t := by
    simp [ownLoss, bothLegs, ofOtherLeg]
  refine ⟨_, _, hd, hu, fun files r => ?_⟩
  exact other_leg_unseen (Decimal.roundTrips_intCast 0) new_freshDesk (by simp [Ordinary])
    (.inr ⟨⟨noon, .call .load⟩, by simp, trivial⟩) hsame hacts.1 hacts.2 horder.1 horder.2 hd hu
    ⟨le_rfl, by simp [ownLoss]⟩ ⟨le_rfl, by simp [bothLegs]⟩ (.evaluate files r) (by simp [Look.Sees])

/-- Before an engine has loaded the counters, a report on the other leg writes
its empty ones over them. -/
theorem other_leg_seen_unloaded : ¬ ∀ (s : StateStore) (is js : List (Turn ℚ)) (d u : Desk ℚ) (n : ℤ) (look : Look),
    is.filter (fun t => ¬ ofOtherLeg false t) = js.filter (fun t => ¬ ofOtherLeg false t) →
    (∀ turn ∈ is, Ordinary turn.act ∧ turn.act ≠ .call .load) →
    (∀ turn ∈ js, Ordinary turn.act ∧ turn.act ≠ .call .load) →
    Nondecreasing Turn.now noon is → Nondecreasing Turn.now noon js →
    Lives ⟨freshDesk.engine, s⟩ is d → Lives ⟨freshDesk.engine, s⟩ js u →
    Upto Turn.now noon is n → Upto Turn.now noon js n → ¬ look.Sees false true →
    (look.ask u.engine n).map Prod.fst = (look.ask d.engine n).map Prod.fst := by
  intro h
  have htoday {d : Desk ℚ} (hlimits : d.engine.limits = deskLimits) : d.engine.today noon = .ok "2026-07-20" := by
    rw [PreTradeRiskEngine.today, hlimits]; exact tradingDay_noon
  have hrestart (d : Desk ℚ) (hlimits : d.engine.limits = deskLimits) :
      Desk.turn d ⟨noon, .restart noon⟩ = .ok (Desk.restarted d "2026-07-20") :=
    turn_restart_of_today (htoday hlimits) (htoday hlimits)
  have hbreached (d : Desk ℚ) (hlimits : d.engine.limits = deskLimits) :
      (Look.ask d.engine noon .lossLimitBreached).map Prod.fst =
        .ok ((d.engine.rollTo "2026-07-20").breached noon) :=
    congrArg (Except.map Prod.fst) (PreTradeRiskEngine.lossLimitBreached_of_today (htoday hlimits))
  have hreport : Desk.turn ⟨freshDesk.engine, lossStore⟩ ⟨noon, .call (.report (.realizedPnl 1 true))⟩ =
      .ok (Desk.reported ⟨freshDesk.engine, lossStore⟩ (.realizedPnl 1 true) "2026-07-20") :=
    perform_report tradingDay_noon
  have hd : Lives ⟨freshDesk.engine, lossStore⟩ [⟨noon, .restart noon⟩] _ := Steps.single (hrestart _ rfl)
  have hu : Lives ⟨freshDesk.engine, lossStore⟩
      [⟨noon, .call (.report (.realizedPnl 1 true))⟩, ⟨noon, .restart noon⟩] _ :=
    (Steps.single hreport).snoc (hrestart _ rfl)
  have hanswers := h lossStore _ _ _ _ noon .lossLimitBreached (by simp [ofOtherLeg]) (by simp [Ordinary])
    (by simp [Ordinary]) (by simp [Nondecreasing]) (by simp [Nondecreasing]) hd hu ⟨le_rfl, by simp⟩ ⟨le_rfl, by simp⟩
    (by simp [Look.Sees])
  rw [hbreached _ rfl, hbreached _ rfl] at hanswers
  exact absurd (show (_ : Bool) = _ from Except.ok.inj hanswers) (by decide +kernel)

end PretradeRisk.Legs
