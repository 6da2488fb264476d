import PretradeRisk.Session

namespace PretradeRisk.Lifecycle

open Clock Engine Host Limits Run Session Store

section Lives

variable {F : Type} [Zero F] [One F] [Neg F] [Add F] [Sub F] [Mul F] [Div F] [IntCast F] [LE F] [LT F]
  [DecidableLE F] [DecidableLT F] [PyFloat F]

inductive Act (F : Type)
  | call (op : Op F)
  | resetDailyLossLimit
  | restart (built : ℤ)

structure Turn (F : Type) where
  now : ℤ
  act : Act F

def Desk.turn (d : Desk F) (turn : Turn F) : Except PyError (Desk F) :=
  match turn.act with
  | .call op => d.perform ⟨turn.now, op⟩
  | .resetDailyLossLimit => .ok { d with store := setMany d.store (Controls.resetDailyLossLimit F) }
  | .restart built => do
      let e ← PreTradeRiskEngine.new d.engine.limits d.engine.isLive built
      Desk.perform ⟨e, d.store⟩ ⟨turn.now, .load⟩

abbrev Lives (d : Desk F) (turns : List (Turn F)) (d' : Desk F) : Prop :=
  Steps (fun d turn d' => Desk.turn d turn = .ok d') d turns d'

/-- What a restart at a reading on `day` leaves. -/
def Desk.restarted (d : Desk F) (day : String) : Desk F :=
  Desk.loaded ⟨.onDay d.engine.limits d.engine.isLive day, d.store⟩ day

variable {d d' : Desk F} {turn : Turn F} {turns : List (Turn F)} {n built : ℤ}

omit [One F] [Neg F] [Add F] [Sub F] [Mul F] [Div F] in
theorem loaded_onDay (limits : RiskLimits F) (isLive : Bool) (s : StateStore) (day₀ day : String) :
    Desk.loaded ⟨.onDay limits isLive day₀, s⟩ day = Desk.loaded ⟨.onDay limits isLive day, s⟩ day := by
  have hadopt : (Counters.fresh day₀ : Counters F).adopt (getMany s counterKeys) day =
      (Counters.fresh day).adopt (getMany s counterKeys) day := by
    by_cases h : getMany s counterKeys .tradingDay = some day <;>
      simp [Counters.adopt, h, Counters.fresh, Counters.dayStart]
  simp only [Desk.loaded, PreTradeRiskEngine.onDay, hadopt, PreTradeRiskEngine.withCounters]

theorem turn_restart (h : Desk.turn d ⟨n, .restart built⟩ = .ok d') :
    ∃ day, d.engine.today n = .ok day ∧ d' = Desk.restarted d day := by
  simp only [Desk.turn, bind_eq_ok, new_eq_ok] at h
  obtain ⟨_, ⟨day₀, -, rfl⟩, h⟩ := h
  obtain ⟨day, hday, rfl⟩ := perform_load_eq_ok.mp h
  exact ⟨day, hday, loaded_onDay d.engine.limits d.engine.isLive d.store day₀ day⟩

theorem turn_restart_of_today {day₀ day : String} (hbuilt : d.engine.today built = .ok day₀)
    (hday : d.engine.today n = .ok day) : Desk.turn d ⟨n, .restart built⟩ = .ok (Desk.restarted d day) := by
  have hnew : PreTradeRiskEngine.new d.engine.limits d.engine.isLive built =
      .ok (.onDay d.engine.limits d.engine.isLive day₀) := new_eq_ok.mpr ⟨_, hbuilt, rfl⟩
  have hload : Desk.perform ⟨.onDay d.engine.limits d.engine.isLive day₀, d.store⟩ ⟨n, .load⟩ =
      .ok (Desk.loaded ⟨.onDay d.engine.limits d.engine.isLive day₀, d.store⟩ day) := perform_load hday
  simp only [Desk.turn, hnew, ok_bind, hload, Desk.restarted]
  exact congrArg Except.ok (loaded_onDay d.engine.limits d.engine.isLive d.store day₀ day)

theorem turn_limits (h : Desk.turn d turn = .ok d') :
    d'.engine.limits = d.engine.limits ∧ d'.engine.isLive = d.engine.isLive := by
  obtain ⟨n, act⟩ := turn
  cases act with
  | call op => exact ⟨(perform_moves h).1, (perform_moves h).2.1⟩
  | resetDailyLossLimit => cases h; exact ⟨rfl, rfl⟩
  | restart built =>
      obtain ⟨day, -, rfl⟩ := turn_restart h
      exact ⟨rfl, rfl⟩

theorem lives_limits (h : Lives d turns d') :
    d'.engine.limits = d.engine.limits ∧ d'.engine.isLive = d.engine.isLive :=
  Steps.invariant (P := fun t => t.engine.limits = d.engine.limits ∧ t.engine.isLive = d.engine.isLive) ⟨rfl, rfl⟩
    (fun ht hstep => ⟨(turn_limits hstep).1.trans ht.1, (turn_limits hstep).2.trans ht.2⟩) h

end Lives

end PretradeRisk.Lifecycle
