import PretradeRisk.Crashes

namespace PretradeRisk.Budget

open Clock Crashes Decision Engine Evaluate Host Ieee Limits Orders Refusals Run Store
open Session (noon nextNoon tradingDay_noon)

structure Sent where
  day : String
  notional : ℚ
  handedBack : Option ℚ

def Sent.outstanding (s : Sent) : ℚ := s.notional - s.handedBack.getD 0

def outstanding (day : String) (sent : List Sent) : ℚ :=
  ((sent.filter (·.day = day)).map Sent.outstanding).sum

inductive DeskOp
  | send (files : Files) (request : OrderRequest Float64) (lands : Bool)
  | handBack (order : ℕ) (amount : Float64) (lands : Bool)
  | call (act : Act)
  /-- another process leaves the store like this -/
  | outside (store : StateStore)

structure DeskCall where
  now : ℤ
  op : DeskOp

theorem outstanding_snoc (day : String) (sent : List Sent) (s : Sent) :
    outstanding day (sent ++ [s]) = outstanding day sent + (if s.day = day then s.outstanding else 0) := by
  unfold outstanding
  by_cases h : s.day = day <;> simp [List.filter_append, h]

theorem outstanding_set (day : String) {sent : List Sent} {i : ℕ} {s t : Sent} (hs : sent[i]? = some s)
    (hday : t.day = s.day) :
    outstanding day (sent.set i t) =
      outstanding day sent + (if s.day = day then t.outstanding - s.outstanding else 0) := by
  induction sent generalizing i with
  | nil => cases hs
  | cons head sent ih =>
      cases i with
      | zero =>
          obtain rfl : head = s := by simpa using hs
          by_cases h : head.day = day <;> simp [outstanding, h, hday]
          ring
      | succ i =>
          have htail := ih (by simpa using hs)
          by_cases h : head.day = day <;> simp_all [outstanding]
          ring

theorem outstanding_eq_zero {day : String} {sent : List Sent} (h : ∀ s ∈ sent, s.day ≠ day) :
    outstanding day sent = 0 := by
  rw [outstanding, List.filter_eq_nil_iff.mpr (by simpa using h)]; rfl

theorem outstanding_of_later {sent : List Sent} {roll n m : ℤ} {today later : String}
    (hpast : ∀ s ∈ sent, ∃ k ≤ n, tradingDay k roll = .ok s.day) (hn : tradingDay n roll = .ok today)
    (hm : tradingDay m roll = .ok later) (hnm : n ≤ m) (hne : later ≠ today) : outstanding later sent = 0 := by
  refine outstanding_eq_zero fun s hs heq => ?_
  obtain ⟨k, hk, hday⟩ := hpast s hs
  exact hne (tradingDay_between (heq ▸ hday) hn hm hk hnm).symm

/-- A float is no less than a number. -/
def AtLeast (q : ℚ) : Float64 → Prop
  | .nan => False
  | .infinite negative => negative = false
  | .finite x _ => q ≤ x

instance (q : ℚ) : DecidablePred (AtLeast q)
  | .nan => .isFalse not_false
  | .infinite negative => inferInstanceAs (Decidable (negative = false))
  | .finite x _ => inferInstanceAs (Decidable (q ≤ x))

/-- A sum of numbers that comes out below itself. -/
def RoundsDown : Float64 → Float64 → Prop
  | .finite x hx, .finite y hy => ¬ AtLeast (x + y) (.finite x hx + .finite y hy)
  | _, _ => False

instance : DecidableRel RoundsDown
  | .finite x hx, .finite y hy => inferInstanceAs (Decidable (¬ AtLeast (x + y) (.finite x hx + .finite y hy)))
  | .nan, _ => .isFalse not_false
  | .infinite _, _ => .isFalse not_false
  | .finite _ _, .nan => .isFalse not_false
  | .finite _ _, .infinite _ => .isFalse not_false

theorem AtLeast.mono {q q' : ℚ} {x : Float64} (h : AtLeast q x) (hle : q' ≤ q) : AtLeast q' x := by
  cases x with
  | nan => exact h
  | infinite negative => exact h
  | finite x hx => exact hle.trans h

theorem AtLeast.le_of_le {q cap : ℚ} {x : Float64} {hcap : Representable cap} (h : AtLeast q x)
    (hle : x ≤ .finite cap hcap) : q ≤ cap := by
  cases x with
  | nan => exact h.elim
  | infinite negative =>
      obtain rfl : negative = true := hle
      cases h
  | finite x hx => exact le_trans h hle

theorem AtLeast.add {q l : ℚ} {x : Float64} (hl : Representable l) (h : AtLeast q x)
    (hrounds : ¬ RoundsDown x (.finite l hl)) : AtLeast (q + l) (x + .finite l hl) := by
  cases x with
  | nan => exact h
  | infinite negative => exact h
  | finite x hx => exact (not_not.mp hrounds).mono (add_le_add_left h l)

structure Book where
  process : Process
  sent : List Sent

/-- An order is sent once it is accepted, and its notional recorded at the
same reading; each order is handed back at most once, and never more than was
recorded for it. The other calls record no notional and load nothing. -/
inductive BookStep (b : Book) : DeskCall → Book → Prop
  | send {n : ℤ} {files : Files} {request : OrderRequest Float64} {lands : Bool} {notional : ℚ}
      {hnotional : Representable notional} {day : String} {decision : RiskDecision Float64} {e : PreTradeRiskEngine Float64}
      {p : Process} (heval : evaluate files b.process.engine n request = .ok (decision, e))
      (haccepted : decision.accepted = true) (hpriced : request.notionalUsd = some (.finite notional hnotional))
      (hday : e.today n = .ok day)
      (hrecord : Process.perform ⟨e, b.process.store⟩ ⟨n, .report (.notional (.finite notional hnotional)) lands⟩ = .ok p) :
      BookStep b ⟨n, .send files request lands⟩ ⟨p, b.sent ++ [⟨day, notional, none⟩]⟩
  | handBack {n : ℤ} {order : ℕ} {lands : Bool} {s : Sent} {amount : ℚ} {hamount : Representable amount} {p : Process}
      (hsent : b.sent[order]? = some s) (honce : s.handedBack = none) (hpos : 0 ≤ amount) (hle : amount ≤ s.notional)
      (hrecord : b.process.perform ⟨n, .report (.notional (-.finite amount hamount)) lands⟩ = .ok p) :
      BookStep b ⟨n, .handBack order (.finite amount hamount) lands⟩
        ⟨p, b.sent.set order { s with handedBack := some amount }⟩
  | call {n : ℤ} {act : Act} {p : Process} (hrestart : ∀ built lands, act ≠ .restart built lands)
      (hreport : ∀ notional lands, act ≠ .report (.notional notional) lands)
      (hcall : b.process.perform ⟨n, act⟩ = .ok p) : BookStep b ⟨n, .call act⟩ ⟨p, b.sent⟩
  | outside {n : ℤ} {store : StateStore} : BookStep b ⟨n, .outside store⟩ ⟨⟨b.process.engine, store⟩, b.sent⟩

/-- The day's notional does not round down when an amount is added to it. -/
def Book.Adds (b : Book) (n : ℤ) (amount : Float64) : Prop :=
  ∀ day, b.process.engine.today n = .ok day → ¬ RoundsDown (b.process.engine.counters.roll day).dailyNotional amount

/-- What is handed back is handed back on the day its order was sent, and no
addition to the day's notional rounds down. -/
def Kept (b : Book) (call : DeskCall) : Prop :=
  match call.op with
  | .send _ request _ => ∀ notional ∈ request.notionalUsd, b.Adds call.now notional
  | .handBack order amount _ =>
      (∀ s ∈ b.sent[order]?, b.process.engine.today call.now = .ok s.day) ∧ b.Adds call.now (-amount)
  | _ => True

/-- The day's counter covers what is outstanding, on every day the run can go
on to, and nothing sent so far lies ahead. -/
structure Covered (cap : ℚ) (start : ℤ) (calls : List DeskCall) (b : Book) : Prop where
  within : ∀ day, outstanding day b.sent ≤ cap
  past : ∀ s ∈ b.sent, ∃ m, b.process.engine.today m = .ok s.day ∧ ∀ n, Upto DeskCall.now start calls n → m ≤ n
  counter : ∀ n, Upto DeskCall.now start calls n → ∀ day, b.process.engine.today n = .ok day →
    AtLeast (outstanding day b.sent) (b.process.engine.counters.roll day).dailyNotional

variable {cap : ℚ} {hcap : Representable cap} {start n : ℤ} {calls : List DeskCall} {call : DeskCall} {b b' : Book}
  {p : Process} {day : String}

theorem Covered.of_current (hlimits : b'.process.engine.limits = b.process.engine.limits)
    (hday : b.process.engine.today call.now = .ok day) (hc : b'.process.engine.counters.tradingDay = day)
    (hwithin : ∀ day, outstanding day b'.sent ≤ cap)
    (hpast : ∀ s ∈ b'.sent, ∃ k ≤ call.now, b.process.engine.today k = .ok s.day)
    (hcover : AtLeast (outstanding day b'.sent) b'.process.engine.counters.dailyNotional) :
    Covered cap start (calls ++ [call]) b' := by
  refine ⟨hwithin, fun s hs => ?_, fun m hm later hlater => ?_⟩
  · obtain ⟨k, hk, hkday⟩ := hpast s hs
    refine ⟨k, ?_, fun m hm => hk.trans (upto_snoc.mp hm).2⟩
    rw [PreTradeRiskEngine.today, hlimits]
    exact hkday
  · rw [PreTradeRiskEngine.today, hlimits] at hlater
    by_cases he : later = day
    · rw [Counters.roll_of_eq (he.trans hc.symm), he]
      exact hcover
    · rw [outstanding_of_later hpast hday hlater (upto_snoc.mp hm).2 he,
        Counters.roll_of_ne fun h => he (h.trans hc)]
      exact le_refl (0 : ℚ)

theorem Covered.of_unchanged (h : Covered cap start calls b)
    (hlimits : b'.process.engine.limits = b.process.engine.limits)
    (hc : b'.process.engine.counters = b.process.engine.counters) (hsent : b'.sent = b.sent) :
    Covered cap start (calls ++ [call]) b' := by
  refine ⟨fun day => hsent ▸ h.within day, fun s hs => ?_, fun m hm later hlater => ?_⟩
  · obtain ⟨k, hk, hupto⟩ := h.past s (hsent ▸ hs)
    refine ⟨k, ?_, fun m hm => hupto m (upto_snoc.mp hm).1⟩
    rw [PreTradeRiskEngine.today, hlimits]
    exact hk
  · rw [PreTradeRiskEngine.today, hlimits] at hlater
    rw [hsent, hc]
    exact h.counter m (upto_snoc.mp hm).1 later hlater

theorem Covered.past_le (h : Covered cap start calls b) (hupto : Upto DeskCall.now start calls n) :
    ∀ s ∈ b.sent, ∃ k ≤ n, b.process.engine.today k = .ok s.day := by
  intro s hs
  obtain ⟨k, hk, hle⟩ := h.past s hs
  exact ⟨k, hle n hupto, hk⟩

theorem fits_of_accepted {files : Files} {e f : PreTradeRiskEngine Float64} {request : OrderRequest Float64}
    {notional : Float64} {decision : RiskDecision Float64} (heval : evaluate files e n request = .ok (decision, f))
    (haccepted : decision.accepted = true) (hday : e.today n = .ok day)
    (hlimit : e.limits.dailyNotionalLimitUsd = some (.finite cap hcap))
    (hrunning : e.limits.isDisabled .dailyNotionalLimit = false) (hpriced : request.notionalUsd = some notional) :
    (e.counters.roll day).dailyNotional + pyAbs notional ≤ .finite cap hcap := by
  have hpasses := passes_of_accepted .dailyNotionalLimit hday heval haccepted
  obtain ⟨x, hx, hle⟩ := NonFinite.passes_notional_iff.mp hpasses hrunning _ hlimit
  obtain rfl : x = notional := Option.some.inj (hx.symm.trans hpriced)
  exact hle

theorem room_of_accepted {files : Files} {e f : PreTradeRiskEngine Float64} {request : OrderRequest Float64}
    {q notional : ℚ} {hnotional : Representable notional} {decision : RiskDecision Float64}
    (heval : evaluate files e n request = .ok (decision, f)) (haccepted : decision.accepted = true)
    (hday : e.today n = .ok day)
    (hlimit : e.limits.dailyNotionalLimitUsd = some (.finite cap hcap))
    (hrunning : e.limits.isDisabled .dailyNotionalLimit = false)
    (hpriced : request.notionalUsd = some (.finite notional hnotional)) (hq : q ≤ cap)
    (hcover : AtLeast (q + notional) ((e.counters.roll day).dailyNotional + .finite notional hnotional)) :
    q + notional ≤ cap := by
  by_cases hneg : notional < 0
  · linarith
  · have habs : pyAbs (Float64.finite notional hnotional) = .finite notional hnotional := if_neg hneg
    have hfits := fits_of_accepted heval haccepted hday hlimit hrunning hpriced
    rw [habs] at hfits
    exact hcover.le_of_le hfits

theorem covered_send {files : Files} {request : OrderRequest Float64} {lands : Bool} {notional : ℚ}
    {hnotional : Representable notional} {decision : RiskDecision Float64} {e : PreTradeRiskEngine Float64}
    (h : Covered cap start calls b)
    (hupto : Upto DeskCall.now start calls n) (hkept : Kept b ⟨n, .send files request lands⟩)
    (hlimit : b.process.engine.limits.dailyNotionalLimitUsd = some (.finite cap hcap))
    (hrunning : b.process.engine.limits.isDisabled .dailyNotionalLimit = false)
    (heval : evaluate files b.process.engine n request = .ok (decision, e)) (haccepted : decision.accepted = true)
    (hpriced : request.notionalUsd = some (.finite notional hnotional)) (hday : e.today n = .ok day)
    (hrecord : Process.perform ⟨e, b.process.store⟩ ⟨n, .report (.notional (.finite notional hnotional)) lands⟩ = .ok p) :
    Covered cap start (calls ++ [⟨n, .send files request lands⟩]) ⟨p, b.sent ++ [⟨day, notional, none⟩]⟩ := by
  obtain ⟨today, htoday, hpruned⟩ := Pruning.evaluate_pruned heval
  have hlimits : e.limits = b.process.engine.limits := hpruned.limits
  obtain rfl : today = day := by
    rw [PreTradeRiskEngine.today, hlimits] at hday
    exact Except.ok.inj (htoday.symm.trans hday)
  have hcover := (h.counter n hupto today htoday).add hnotional (hkept _ hpriced today htoday)
  have hroom := room_of_accepted heval haccepted htoday hlimit hrunning hpriced (h.within today) hcover
  obtain ⟨rolled, hrolled, hc⟩ := reported_of_perform hrecord
  obtain rfl : rolled = today := Except.ok.inj (hrolled.symm.trans hday)
  have hcounters : e.counters = b.process.engine.counters.roll rolled := hpruned.counters
  rw [hcounters, Counters.roll_roll] at hc
  have hout (later : String) : outstanding later (b.sent ++ [⟨rolled, notional, none⟩]) =
      outstanding later b.sent + (if rolled = later then notional else 0) := by
    rw [outstanding_snoc]
    simp [Sent.outstanding]
  refine Covered.of_current ((perform_moves hrecord).1.trans hlimits) htoday (by simp [hc]) ?_ ?_ ?_
  · intro later
    rw [hout]
    split
    · subst later
      exact hroom
    · simpa using h.within later
  · intro s hs
    rcases List.mem_append.mp hs with hs | hs
    · exact h.past_le hupto s hs
    · rw [List.mem_singleton.mp hs]
      exact ⟨n, le_rfl, htoday⟩
  · rw [hout, if_pos rfl, hc]
    exact hcover

theorem covered_handBack {order : ℕ} {lands : Bool} {s : Sent} {amount : ℚ} {hamount : Representable amount}
    (h : Covered cap start calls b) (hupto : Upto DeskCall.now start calls n)
    (hkept : Kept b ⟨n, .handBack order (.finite amount hamount) lands⟩) (hsent : b.sent[order]? = some s)
    (honce : s.handedBack = none) (hpos : 0 ≤ amount)
    (hrecord : b.process.perform ⟨n, .report (.notional (-.finite amount hamount)) lands⟩ = .ok p) :
    Covered cap start (calls ++ [⟨n, .handBack order (.finite amount hamount) lands⟩])
      ⟨p, b.sent.set order { s with handedBack := some amount }⟩ := by
  obtain ⟨hsame, hadds⟩ := hkept
  have htoday := hsame s hsent
  have hcover := (h.counter n hupto s.day htoday).add hamount.neg (hadds s.day htoday)
  obtain ⟨rolled, hrolled, hc⟩ := reported_of_perform hrecord
  obtain rfl : rolled = s.day := Except.ok.inj (hrolled.symm.trans htoday)
  have hout (later : String) : outstanding later (b.sent.set order { s with handedBack := some amount }) =
      outstanding later b.sent + (if s.day = later then -amount else 0) := by
    rw [outstanding_set (t := { s with handedBack := some amount }) later hsent rfl]
    simp [Sent.outstanding, honce]
  refine Covered.of_current (perform_moves hrecord).1 htoday (by simp [hc]) ?_ ?_ ?_
  · intro later
    rw [hout]
    have := h.within later
    split <;> linarith
  · intro t ht
    rcases List.mem_or_eq_of_mem_set ht with ht | rfl
    · exact h.past_le hupto t ht
    · exact ⟨n, le_rfl, htoday⟩
  · rw [hout, if_pos rfl, hc]
    exact hcover

theorem covered_call {act : Act} (h : Covered cap start calls b) (hupto : Upto DeskCall.now start calls n)
    (hrestart : ∀ built lands, act ≠ .restart built lands)
    (hreport : ∀ notional lands, act ≠ .report (.notional notional) lands)
    (hcall : b.process.perform ⟨n, act⟩ = .ok p) : Covered cap start (calls ++ [⟨n, .call act⟩]) ⟨p, b.sent⟩ := by
  obtain ⟨hlimits, -, hmoves⟩ := perform_moves hcall
  cases hmoves with
  | report hday hc _ =>
      refine Covered.of_current hlimits hday (by simp [hc]) h.within (h.past_le hupto) ?_
      rw [hc, CounterEvent.apply_dailyNotional _ fun notional heq => hreport notional _ (by rw [heq])]
      exact h.counter n hupto _ hday
  | roll _ hday hc _ =>
      refine Covered.of_current hlimits hday (by simp [hc]) h.within (h.past_le hupto) ?_
      rw [hc]
      exact h.counter n hupto _ hday
  | keep _ hc _ => exact h.of_unchanged hlimits hc rfl
  | persist hc _ => exact h.of_unchanged hlimits hc rfl
  | restart => exact absurd rfl (hrestart _ _)

theorem bookStep_limits (h : BookStep b call b') : b'.process.engine.limits = b.process.engine.limits := by
  cases h with
  | send heval _ _ _ hrecord =>
      obtain ⟨_, _, hpruned⟩ := Pruning.evaluate_pruned heval
      exact (perform_moves hrecord).1.trans hpruned.limits
  | handBack _ _ _ _ hrecord => exact (perform_moves hrecord).1
  | call _ _ hcall => exact (perform_moves hcall).1
  | outside => rfl

theorem covered_step (h : Covered cap start calls b) (hstep : BookStep b call b') (hkept : Kept b call)
    (hupto : Upto DeskCall.now start calls call.now)
    (hlimit : b.process.engine.limits.dailyNotionalLimitUsd = some (.finite cap hcap))
    (hrunning : b.process.engine.limits.isDisabled .dailyNotionalLimit = false) :
    Covered cap start (calls ++ [call]) b' := by
  cases hstep with
  | send heval haccepted hpriced hday hrecord =>
      exact covered_send h hupto hkept hlimit hrunning heval haccepted hpriced hday hrecord
  | handBack hsent honce hpos _ hrecord => exact covered_handBack h hupto hkept hsent honce hpos hrecord
  | call hrestart hreport hcall => exact covered_call h hupto hrestart hreport hcall
  | outside => exact h.of_unchanged rfl rfl rfl

theorem runs_covered {p₀ : Process} (h₀ : Covered cap start [] ⟨p₀, []⟩)
    (hlimit : p₀.engine.limits.dailyNotionalLimitUsd = some (.finite cap hcap))
    (hrunning : p₀.engine.limits.isDisabled .dailyNotionalLimit = false)
    (hrun : Steps (fun b call b' => BookStep b call b' ∧ Kept b call) ⟨p₀, []⟩ calls b)
    (horder : Nondecreasing DeskCall.now start calls) :
    Covered cap start calls b ∧ b.process.engine.limits = p₀.engine.limits := by
  induction hrun with
  | nil => exact ⟨h₀, rfl⟩
  | snoc _ hstep ih =>
      obtain ⟨hstep, hkept⟩ := hstep
      obtain ⟨horder, hupto⟩ := nondecreasing_snoc.mp horder
      obtain ⟨h, hlimits⟩ := ih horder
      exact ⟨covered_step h hstep hkept hupto (hlimits ▸ hlimit) (hlimits ▸ hrunning),
        (bookStep_limits hstep).trans hlimits⟩

/-- With a notional that starts the day non-negative, every hand-back on the
day its order was sent, and no addition that rounds down, the notional
outstanding on a day never exceeds the daily limit. -/
theorem outstanding_le_limit {p₀ : Process} (hnotional : AtLeast 0 p₀.engine.counters.dailyNotional)
    (hlimit : p₀.engine.limits.dailyNotionalLimitUsd = some (.finite cap hcap))
    (hrunning : p₀.engine.limits.isDisabled .dailyNotionalLimit = false)
    (hrun : Steps (fun b call b' => BookStep b call b' ∧ Kept b call) ⟨p₀, []⟩ calls b)
    (horder : Nondecreasing DeskCall.now start calls) (day : String) : outstanding day b.sent ≤ cap := by
  have hpos : ¬ Float64.finite cap hcap ≤ 0 := p₀.engine.limits.admissible.amounts "daily_notional_limit_usd" _
    (by simp [LimitFields.amounts, hlimit])
  have h₀ : Covered cap start [] ⟨p₀, []⟩ := by
    refine ⟨fun day => le_of_not_ge hpos, by simp, fun n _ day _ => ?_⟩
    by_cases h : day = p₀.engine.counters.tradingDay
    · have hroll : p₀.engine.counters.roll day = p₀.engine.counters := Counters.roll_of_eq h
      rw [hroll]
      exact hnotional
    · have hroll : p₀.engine.counters.roll day = .dayStart day _ := Counters.roll_of_ne h
      rw [hroll]
      exact le_refl (0 : ℚ)
  exact (runs_covered h₀ hlimit hrunning hrun horder).1.within day

instance (b : Book) (n : ℤ) (amount : Float64) : Decidable (b.Adds n amount) :=
  match hday : b.process.engine.today n with
  | .error _ => .isTrue fun _ h => by cases hday.symm.trans h
  | .ok day => decidable_of_iff (¬ RoundsDown (b.process.engine.counters.roll day).dailyNotional amount)
      ⟨fun h _ htoday => by obtain rfl := Except.ok.inj (hday.symm.trans htoday); exact h, fun h => h day hday⟩

instance (b : Book) : DecidablePred (Kept b)
  | ⟨n, .send _ request _⟩ => inferInstanceAs (Decidable (∀ notional ∈ request.notionalUsd, b.Adds n notional))
  | ⟨n, .handBack order amount _⟩ => inferInstanceAs (Decidable
      ((∀ s ∈ b.sent[order]?, b.process.engine.today n = .ok s.day) ∧ b.Adds n (-amount)))
  | ⟨_, .call _⟩ => .isTrue trivial
  | ⟨_, .outside _⟩ => .isTrue trivial

/-- What comes of a send or a hand-back, where the desk may make it. -/
def Book.next (b : Book) (call : DeskCall) : Option Book :=
  match call.op with
  | .send files request lands =>
      match evaluate files b.process.engine call.now request, request.notionalUsd with
      | .ok (decision, e), some (.finite notional hnotional) =>
          match e.today call.now, Process.perform ⟨e, b.process.store⟩
              ⟨call.now, .report (.notional (.finite notional hnotional)) lands⟩ with
          | .ok day, .ok p => if decision.accepted then some ⟨p, b.sent ++ [⟨day, notional, none⟩]⟩ else none
          | _, _ => none
      | _, _ => none
  | .handBack order (.finite amount hamount) lands =>
      match b.sent[order]?, b.process.perform ⟨call.now, .report (.notional (-.finite amount hamount)) lands⟩ with
      | some s, .ok p =>
          if s.handedBack = none ∧ 0 ≤ amount ∧ amount ≤ s.notional then
            some ⟨p, b.sent.set order { s with handedBack := some amount }⟩
          else none
      | _, _ => none
  | _ => none

theorem bookStep_of_next (h : b.next call = some b') : BookStep b call b' := by
  obtain ⟨n, op⟩ := call
  cases op with
  | send files request lands =>
      simp only [Book.next] at h
      split at h
      · next decision e notional hnotional heval hpriced =>
          split at h
          · next day p hday hp =>
              split at h
              · next haccepted =>
                  cases h
                  exact .send heval haccepted hpriced hday hp
              · cases h
          · cases h
      · cases h
  | handBack order amount lands =>
      cases amount with
      | nan => cases h
      | infinite negative => cases h
      | finite amount hamount =>
          simp only [Book.next] at h
          split at h
          · next s p hsent hp =>
              split at h
              · next hs =>
                  cases h
                  exact .handBack hsent hs.1 hs.2.1 hs.2.2 hp
              · cases h
          · cases h
  | call act => cases h
  | outside store => cases h

theorem exists_kept {p : Book → Bool}
    (h : (calls.foldlM (fun b call => if Kept b call then b.next call else none) b).any p = true) :
    ∃ b', Steps (fun b call b' => BookStep b call b' ∧ Kept b call) b calls b' ∧ p b' = true := by
  refine Steps.exists_of_any (fun {b call b'} hnext => ?_) h
  split at hnext
  · next hkept => exact ⟨bookStep_of_next hnext, hkept⟩
  · cases hnext

def hundredLimits : RiskLimits Float64 := ⟨{ dailyNotionalLimitUsd := some (.ofRat 100) }, by decide +kernel⟩

def millionLimits : RiskLimits Float64 := ⟨{ dailyNotionalLimitUsd := some ((10 ^ 6 : ℤ) : Float64) }, by decide +kernel⟩

def processOf (limits : RiskLimits Float64) : Process := ⟨.onDay limits false "2026-07-20", empty⟩

def orderOf (notional : ℚ) : OrderRequest Float64 :=
  { OrderRequest.bare "ES" .buy (Float64.ofRat notional) with limitPrice := some 1 }

def sendAt (n : ℤ) (notional : ℚ) : DeskCall := ⟨n, .send (fun _ => false) (orderOf notional) true⟩

def handBackAt (n : ℤ) (order : ℕ) (amount : ℚ) : DeskCall := ⟨n, .handBack order (.ofRat amount) true⟩

/-- Part of the first order is handed back, which makes room for the second; the
next day starts over. -/
def keptCalls : List DeskCall :=
  [sendAt noon 60, handBackAt noon 0 20, sendAt noon 60, sendAt nextNoon 60, handBackAt nextNoon 2 10]

theorem outstanding_le_limit_handedBack :
    ∃ b, Steps (fun b call b' => BookStep b call b' ∧ Kept b call) ⟨processOf hundredLimits, []⟩ keptCalls b ∧
      outstanding "2026-07-20" b.sent = 100 ∧ outstanding "2026-07-21" b.sent = 50 ∧
      ∀ day, outstanding day b.sent ≤ 100 := by
  obtain ⟨b, hrun, hb⟩ : ∃ b, Steps (fun b call b' => BookStep b call b' ∧ Kept b call) ⟨processOf hundredLimits, []⟩
      keptCalls b ∧ decide (outstanding "2026-07-20" b.sent = 100 ∧ outstanding "2026-07-21" b.sent = 50) = true :=
    exists_kept (by decide +kernel)
  obtain ⟨hfirst, hsecond⟩ := of_decide_eq_true hb
  have hundred : Representable 100 := by exact_mod_cast representable_intCast (n := 100) (by norm_num)
  have hlimit : hundredLimits.dailyNotionalLimitUsd = some (.finite 100 hundred) :=
    congrArg some (Float64.ofRat_of_representable hundred)
  have horder : Nondecreasing DeskCall.now noon keptCalls := by
    simp [Nondecreasing, keptCalls, sendAt, handBackAt, nextNoon, millisPerDay]
  have hstart : AtLeast 0 (processOf hundredLimits).engine.counters.dailyNotional := le_refl (0 : ℚ)
  exact ⟨b, hrun, hfirst, hsecond, outstanding_le_limit hstart hlimit rfl hrun horder⟩

def laterCalls : List DeskCall :=
  [sendAt noon 100, handBackAt nextNoon 0 100, sendAt nextNoon 100, sendAt nextNoon 100]

/-- Handing yesterday's allowance back today sends 200 today. -/
theorem handBack_later_lifts_limit :
    ∃ b, Steps BookStep ⟨processOf hundredLimits, []⟩ laterCalls b ∧ Nondecreasing DeskCall.now noon laterCalls ∧
      PreTradeRiskEngine.new hundredLimits false noon = .ok (processOf hundredLimits).engine ∧
      hundredLimits.dailyNotionalLimitUsd = some (.ofRat 100) ∧ outstanding "2026-07-21" b.sent = 200 := by
  have h : (laterCalls.foldlM Book.next ⟨processOf hundredLimits, []⟩).any
      (fun b => decide (outstanding "2026-07-21" b.sent = 200)) = true := by decide +kernel
  obtain ⟨b, hrun, hb⟩ := Steps.exists_of_any bookStep_of_next h
  refine ⟨b, hrun, ?_, new_eq_ok.mpr ⟨_, tradingDay_noon, rfl⟩, rfl, of_decide_eq_true hb⟩
  simp [Nondecreasing, laterCalls, sendAt, handBackAt, nextNoon, millisPerDay]

def roundedCalls : List DeskCall := [sendAt noon 999990, sendAt noon 10.00000000001]

/-- Nothing is handed back, and the sum that is compared with the limit is
rounded to it. -/
theorem rounding_lifts_limit :
    ∃ b, Steps BookStep ⟨processOf millionLimits, []⟩ roundedCalls b ∧
      millionLimits.dailyNotionalLimitUsd = some ((10 ^ 6 : ℤ) : Float64) ∧ 10 ^ 6 < outstanding "2026-07-20" b.sent := by
  have h : (roundedCalls.foldlM Book.next ⟨processOf millionLimits, []⟩).any
      (fun b => decide (10 ^ 6 < outstanding "2026-07-20" b.sent)) = true := by decide +kernel
  obtain ⟨b, hrun, hb⟩ := Steps.exists_of_any bookStep_of_next h
  exact ⟨b, hrun, rfl, of_decide_eq_true hb⟩

end PretradeRisk.Budget
