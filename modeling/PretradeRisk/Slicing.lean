import PretradeRisk.Admission
import PretradeRisk.Decimal
import PretradeRisk.Session

namespace PretradeRisk.Slicing

open Admission Decision Engine Evaluate Host Limits Orders Pruning Run Session

section Position

variable {cap p m q z : ℚ}

def Allowed (cap p q : ℚ) : Prop := |q| ≤ cap ∨ |q| < |p| ∧ 0 ≤ p * q

theorem allowed_neg : Allowed cap (-p) (-q) ↔ Allowed cap p q := by
  rw [Allowed, Allowed, abs_neg, abs_neg, neg_mul_neg]

theorem nonpos_of_shrinks (hpz : p < z) (habs : |z| < |p|) (hsign : 0 ≤ p * z) : z ≤ 0 := by
  have hp : p < 0 := by
    by_contra hp
    rw [abs_of_nonneg (not_lt.mp hp), abs_of_nonneg ((not_lt.mp hp).trans hpz.le)] at habs
    exact absurd hpz habs.not_gt
  exact nonpos_of_mul_nonneg_right hsign hp

theorem shrinks_below_zero (hmq : m < q) (hq : q ≤ 0) : |q| < |m| ∧ 0 ≤ m * q := by
  have hm : m < 0 := hmq.trans_le hq
  rw [abs_of_nonpos hq, abs_of_neg hm]
  exact ⟨neg_lt_neg hmq, mul_nonneg_of_nonpos_of_nonpos hm.le hq⟩

theorem allowed_step (hpm : p ≤ m) (hmq : m < q) (hqz : q ≤ z) (h : Allowed cap p z) : Allowed cap m q := by
  rcases h with hcap | ⟨habs, hsign⟩
  · by_cases hq : |q| ≤ cap
    · exact .inl hq
    · have hupper : q ≤ cap := hqz.trans ((le_abs_self z).trans hcap)
      have hlower : q < 0 := by
        by_contra hnonneg
        exact hq (by rwa [abs_of_nonneg (not_lt.mp hnonneg)])
      exact .inr (shrinks_below_zero hmq hlower.le)
  · exact .inr (shrinks_below_zero hmq (hqz.trans (nonpos_of_shrinks ((hpm.trans_lt hmq).trans_le hqz) habs hsign)))

theorem allowed_of_last (hpm : p ≤ m) (hmq : m < q) (h : Allowed cap m q) : Allowed cap p q := by
  rcases h with hcap | ⟨habs, hsign⟩
  · exact .inl hcap
  · exact .inr (shrinks_below_zero (hpm.trans_lt hmq) (nonpos_of_shrinks hmq habs hsign))

theorem allowed_slice (side : Side) {a b c : ℚ} (ha : 0 ≤ a) (hb : 0 < b) (habc : a + b ≤ c)
    (h : Allowed cap p (p + side.signedMultiplier * c)) :
    Allowed cap (p + side.signedMultiplier * a) (p + side.signedMultiplier * (a + b)) := by
  cases hside : side.isSell with
  | false =>
      simp only [Side.signedMultiplier, hside, Bool.false_eq_true, if_false, one_mul] at h ⊢
      exact allowed_step (by linarith) (by linarith) (by linarith) h
  | true =>
      simp only [Side.signedMultiplier, hside, if_true] at h ⊢
      rw [← allowed_neg] at h ⊢
      exact allowed_step (by linarith) (by linarith) (by linarith) h

theorem allowed_of_last_slice (side : Side) {a b : ℚ} (ha : 0 ≤ a) (hb : 0 < b)
    (h : Allowed cap (p + side.signedMultiplier * a) (p + side.signedMultiplier * (a + b))) :
    Allowed cap p (p + side.signedMultiplier * (a + b)) := by
  cases hside : side.isSell with
  | false =>
      simp only [Side.signedMultiplier, hside, Bool.false_eq_true, if_false, one_mul] at h ⊢
      exact allowed_of_last (by linarith) (by linarith) h
  | true =>
      simp only [Side.signedMultiplier, hside, if_true] at h ⊢
      rw [← allowed_neg] at h ⊢
      exact allowed_of_last (by linarith) (by linarith) h

end Position

section Slices

variable [PyFloat ℚ]

def worth (r : OrderRequest ℚ) (quantity : ℚ) : ℚ := quantity * r.valuationPrice.getD 0

/-- A request for a slice of an order of which `done` is filled: the order's own
but for its quantity, the position, which the fills have moved, and what the
caller reports of the rest of the book. -/
def IsSlice (r : OrderRequest ℚ) (done : ℚ) (q : OrderRequest ℚ) : Prop :=
  ∃ quantity grossExposureUsd openPositions workingOrders,
    q = { r with
      quantity
      positionQuantity := r.positionQuantity + r.side.signedMultiplier * done
      grossExposureUsd
      openPositions
      workingOrders }

/-- The fills have put no more on the book than their notional. -/
structure NoHeavier (r : OrderRequest ℚ) (done : ℚ) (q : OrderRequest ℚ) : Prop where
  grossExposureUsd : q.grossExposureUsd ≤ r.grossExposureUsd + worth r done
  openPositions : q.openPositions ≤ r.openPositions
  workingOrders : q.workingOrders ≤ r.workingOrders

structure NoLighter (r : OrderRequest ℚ) (done : ℚ) (q : OrderRequest ℚ) : Prop where
  grossExposureUsd : r.grossExposureUsd + worth r done ≤ q.grossExposureUsd
  openPositions : r.openPositions ≤ q.openPositions
  workingOrders : r.workingOrders ≤ q.workingOrders

structure Child where
  request : OrderRequest ℚ
  now : ℤ
  files : Files

/-- A child is accepted and sent on the trading day, and its notional recorded. -/
def Sends (day : String) (r : OrderRequest ℚ) (s : PreTradeRiskEngine ℚ × ℚ) (c : Child)
    (t : PreTradeRiskEngine ℚ × ℚ) : Prop :=
  s.1.today c.now = .ok day ∧ IsSlice r s.2 c.request ∧
    ∃ f, evaluate c.files s.1 c.now c.request = .ok (accepted, f) ∧
      (f.recordOrderSent c.request c.now).recordNotional (c.request.notionalUsd.getD 0) c.now = .ok t.1 ∧
      t.2 = s.2 + c.request.quantity

abbrev SendsAll (day : String) (r : OrderRequest ℚ) (e : PreTradeRiskEngine ℚ) (children : List Child)
    (f : PreTradeRiskEngine ℚ) (done : ℚ) : Prop :=
  Steps (Sends day r) (e, 0) children (f, done)

variable {files files' : Files} {now now' : ℤ} {r q : OrderRequest ℚ} {e f g : PreTradeRiskEngine ℚ}
  {children : List Child} {done : ℚ} {id : ControlId} {day : String}

omit [PyFloat ℚ] in
theorem worth_add (r : OrderRequest ℚ) (a b : ℚ) : worth r (a + b) = worth r a + worth r b := by
  rw [worth, worth, worth, add_mul]

omit [PyFloat ℚ] in
theorem notionalUsd_eq (r : OrderRequest ℚ) : r.notionalUsd = r.valuationPrice.map (r.quantity * ·) := by
  rw [OrderRequest.notionalUsd]
  cases r.valuationPrice <;> rfl

omit [PyFloat ℚ] in
theorem notionalUsd_slice (hslice : IsSlice r done q) : q.notionalUsd = r.valuationPrice.map (q.quantity * ·) := by
  have hprice : q.valuationPrice = r.valuationPrice := by
    obtain ⟨_, _, _, _, rfl⟩ := hslice
    rfl
  rw [notionalUsd_eq, hprice]

omit [PyFloat ℚ] in
theorem worth_of_slice (hslice : IsSlice r done q) : q.notionalUsd.getD 0 = worth r q.quantity := by
  rw [notionalUsd_slice hslice, worth]
  cases r.valuationPrice with
  | none => exact (mul_zero q.quantity).symm
  | some price => rfl

/-- An engine that has sent `done` of the order, on the counters of the day. -/
structure Midway (r : OrderRequest ℚ) (e : PreTradeRiskEngine ℚ) (done : ℚ) (f : PreTradeRiskEngine ℚ) : Prop where
  limits : f.limits = e.limits
  isLive : f.isLive = e.isLive
  overrides : f.overrides = e.overrides
  counters : f.counters = { e.counters with dailyNotional := e.counters.dailyNotional + worth r done }

theorem midway_start (r : OrderRequest ℚ) (e : PreTradeRiskEngine ℚ) : Midway r e 0 e :=
  ⟨rfl, rfl, rfl, by rw [worth, zero_mul, add_zero]⟩

theorem today_sent {d : RiskDecision ℚ} (h : evaluate files e now r = .ok (d, f)) :
    (f.recordOrderSent r now).today now = e.today now := by
  obtain ⟨_, -, hpruned⟩ := evaluate_pruned h
  exact congrArg (fun limits : RiskLimits ℚ => Clock.tradingDay now limits.sessionRollMillis) hpruned.limits

theorem sends_midway {s t : PreTradeRiskEngine ℚ × ℚ} {c : Child} (h : Midway r (e.rollTo day) s.2 (s.1.rollTo day))
    (hsends : Sends day r s c t) : Midway r (e.rollTo day) t.2 (t.1.rollTo day) := by
  obtain ⟨f, done⟩ := s
  obtain ⟨g, done'⟩ := t
  obtain ⟨hday, hslice, f', hevaluate, hrecord, hdone⟩ := hsends
  obtain rfl : done' = done + c.request.quantity := hdone
  obtain ⟨today, htoday, hpruned⟩ := evaluate_pruned hevaluate
  obtain rfl := Except.ok.inj (htoday.symm.trans hday)
  have hsent : (f'.recordOrderSent c.request c.now).today c.now = .ok today :=
    (today_sent hevaluate).trans htoday
  simp only [worth_of_slice hslice, PreTradeRiskEngine.recordNotional, PreTradeRiskEngine.record,
    PreTradeRiskEngine.rollTradingDay, hsent, ok_bind, pure_eq_ok, Except.ok.injEq] at hrecord
  have hcounters : f'.counters.roll today = f.counters.roll today := by
    rw [hpruned.counters]
    exact Counters.roll_roll f.counters today
  subst hrecord
  have hkept : f.counters.roll today = { e.counters.roll today with
      dailyNotional := (e.counters.roll today).dailyNotional + worth r done } := h.counters
  refine ⟨hpruned.limits.trans h.limits, hpruned.isLive.trans h.isLive, hpruned.overrides.trans h.overrides, ?_⟩
  change (CounterEvent.apply (.notional (worth r c.request.quantity)) (f'.counters.roll today)).roll today =
    { e.counters.roll today with dailyNotional :=
        (e.counters.roll today).dailyNotional + worth r (done + c.request.quantity) }
  rw [Counters.roll_of_eq (by rw [CounterEvent.apply_tradingDay, Counters.roll_tradingDay]), hcounters, hkept, worth_add,
    ← add_assoc]
  rfl

theorem exists_sends {s : PreTradeRiskEngine ℚ × ℚ} {c : Child} (hday : s.1.today c.now = .ok day)
    (hslice : IsSlice r s.2 c.request) (h : Accepts c.files s.1 c.now c.request) : ∃ t, Sends day r s c t := by
  obtain ⟨f, hf⟩ := h
  have hsent : (f.recordOrderSent c.request c.now).today c.now = .ok day := (today_sent hf).trans hday
  have hrecorded : ∃ g, (f.recordOrderSent c.request c.now).recordNotional (c.request.notionalUsd.getD 0) c.now =
      .ok g := by
    rw [PreTradeRiskEngine.recordNotional, PreTradeRiskEngine.record, PreTradeRiskEngine.rollTradingDay, hsent]
    exact ⟨_, rfl⟩
  obtain ⟨g, hg⟩ := hrecorded
  exact ⟨(g, s.2 + c.request.quantity), hday, hslice, f, hf, hg, rfl⟩

def total (children : List Child) : ℚ := (children.map (·.request.quantity)).sum

theorem sendsAll_midway {t : PreTradeRiskEngine ℚ × ℚ} (h : Steps (Sends day r) (e, 0) children t) :
    t.2 = total children ∧ Midway r (e.rollTo day) t.2 (t.1.rollTo day) := by
  induction h with
  | nil => exact ⟨rfl, midway_start r (e.rollTo day)⟩
  | @snoc children s c t _ hstep ih =>
      obtain ⟨hsum, hmidway⟩ := ih
      have hmidway' : Midway r (e.rollTo day) t.2 (t.1.rollTo day) := sends_midway hmidway hstep
      obtain ⟨-, -, -, -, -, hdone⟩ := hstep
      exact ⟨by rw [hdone, hsum, total, total, List.map_append, List.sum_append, List.map_singleton,
        List.sum_singleton], hmidway'⟩

def perOrder : List ControlId := [.maxOrderQuantity, .maxOrderNotional]

/-- The controls that look at the moment: the kill file, the clock and what the
session has just sent. -/
def momentary : List ControlId := [.killSwitch, .dailyLossLimit, .duplicateOrder, .orderRate]

def Priced (r : OrderRequest ℚ) : Prop := ∀ price, r.valuationPrice = some price → 0 < price

theorem priced_of_permits (hquantity : Permits files e now r .orderQuantity)
    (hnotional : Permits files e now r .orderNotional) : Priced r := by
  intro price hprice
  have hpos : 0 < r.quantity * price := hnotional _ (by rw [notionalUsd_eq, hprice, Option.map_some])
  exact (mul_pos_iff_of_pos_left hquantity).mp hpos

omit [PyFloat ℚ] in
theorem priced_of_slice (hslice : IsSlice r done q) (h : Priced q) : Priced r := by
  obtain ⟨_, _, _, _, rfl⟩ := hslice
  exact h

omit [PyFloat ℚ] in
theorem slice_worth (hslice : IsSlice r done q) (hdone : 0 ≤ done) (hquantity : 0 < q.quantity)
    (hwhole : done + q.quantity ≤ r.quantity) (hpriced : Priced r) {notional : ℚ} (h : r.notionalUsd = some notional) :
    ∃ part, q.notionalUsd = some part ∧ part ≤ notional ∧ worth r done + |part| ≤ |notional| := by
  rw [notionalUsd_eq, Option.map_eq_some_iff] at h
  obtain ⟨price, hprice, rfl⟩ := h
  have hpos : 0 < price := hpriced price hprice
  have hsum : (done + q.quantity) * price ≤ r.quantity * price := mul_le_mul_of_nonneg_right hwhole hpos.le
  have hpart : 0 < q.quantity * price := mul_pos hquantity hpos
  have hworth : 0 ≤ done * price := mul_nonneg hdone hpos.le
  refine ⟨q.quantity * price, by rw [notionalUsd_slice hslice, hprice, Option.map_some], by linarith, ?_⟩
  rw [worth, hprice, Option.getD_some, abs_of_pos hpart, abs_of_pos (by linarith)]
  linarith

omit [PyFloat ℚ] in
theorem whole_worth (hslice : IsSlice r done q) (hwhole : done + q.quantity = r.quantity) (hdone : 0 ≤ done)
    (hquantity : 0 < q.quantity) (hpriced : Priced r) {part : ℚ} (h : q.notionalUsd = some part) :
    ∃ notional, r.notionalUsd = some notional ∧ |notional| = worth r done + |part| := by
  rw [notionalUsd_slice hslice, Option.map_eq_some_iff] at h
  obtain ⟨price, hprice, rfl⟩ := h
  have hpos : 0 < price := hpriced price hprice
  refine ⟨r.quantity * price, by rw [notionalUsd_eq, hprice, Option.map_some], ?_⟩
  rw [worth, hprice, Option.getD_some, abs_of_pos (mul_pos hquantity hpos), ← hwhole,
    abs_of_nonneg (mul_nonneg (by linarith) hpos.le), add_mul]

omit [PyFloat ℚ] in
theorem position_slice (hslice : IsSlice r done q) :
    q.positionQuantity = r.positionQuantity + r.side.signedMultiplier * done := by
  obtain ⟨_, _, _, _, rfl⟩ := hslice
  rfl

omit [PyFloat ℚ] in
theorem projected_slice (hslice : IsSlice r done q) :
    q.projectedPosition = r.positionQuantity + r.side.signedMultiplier * (done + q.quantity) := by
  obtain ⟨quantity, _, _, _, rfl⟩ := hslice
  rw [OrderRequest.projectedPosition]
  ring

theorem permits_slice (hmidway : Midway r e done f) (hslice : IsSlice r done q) (hbook : NoHeavier r done q)
    (hdone : 0 ≤ done) (hquantity : 0 < q.quantity) (hwhole : done + q.quantity ≤ r.quantity) (hpriced : Priced r)
    (hid : id ∉ momentary) (h : Permits files e now r id) : Permits files' f now' q id := by
  obtain ⟨limits, isLive, counters, rate, duplicates, overrides, _, _⟩ := e
  obtain ⟨limits', isLive', counters', rate', duplicates', overrides', _, _⟩ := f
  obtain ⟨hlimits, hisLive, hoverrides, hcounters⟩ := hmidway
  obtain rfl : limits' = limits := hlimits
  obtain rfl : isLive' = isLive := hisLive
  obtain rfl : overrides' = overrides := hoverrides
  obtain rfl : counters' = { counters with dailyNotional := counters.dailyNotional + worth r done } := hcounters
  cases id with
  | killSwitch | dailyLossLimit | duplicateOrder | orderRate => exact absurd (by decide) hid
  | orderQuantity => exact hquantity
  | orderNotional =>
      intro part hpart
      rw [notionalUsd_slice hslice, Option.map_eq_some_iff] at hpart
      obtain ⟨price, hprice, rfl⟩ := hpart
      exact mul_pos hquantity (hpriced price hprice)
  | maxOrderQuantity =>
      intro cap hcap
      have hle : r.quantity ≤ cap := h cap hcap
      linarith
  | maxOrderNotional =>
      intro cap hcap
      obtain ⟨notional, hnotional, hle⟩ := h cap hcap
      obtain ⟨part, hpart, hpartle, -⟩ := slice_worth hslice hdone hquantity hwhole hpriced hnotional
      exact ⟨part, hpart, hpartle.trans hle⟩
  | workingOrders => exact fun cap hcap => hbook.workingOrders.trans_lt (h cap hcap)
  | openPositions => exact fun cap hcap => hbook.openPositions.trans_lt (h cap hcap)
  | positionLimit =>
      intro cap hcap
      have hallowed : Allowed cap r.positionQuantity (r.positionQuantity + r.side.signedMultiplier * r.quantity) :=
        h cap hcap
      rw [projected_slice hslice, position_slice hslice]
      exact allowed_slice r.side hdone hquantity hwhole hallowed
  | grossExposure =>
      intro cap hcap
      obtain ⟨notional, hnotional, hle⟩ := h cap hcap
      obtain ⟨part, hpart, -, hsum⟩ := slice_worth hslice hdone hquantity hwhole hpriced hnotional
      have hgross := hbook.grossExposureUsd
      exact ⟨part, hpart, by linarith⟩
  | dailyNotionalLimit =>
      intro cap hcap
      obtain ⟨notional, hnotional, hle⟩ := h cap hcap
      obtain ⟨part, hpart, -, hsum⟩ := slice_worth hslice hdone hquantity hwhole hpriced hnotional
      refine ⟨part, hpart, ?_⟩
      change counters.dailyNotional + |notional| ≤ cap at hle
      change counters.dailyNotional + worth r done + |part| ≤ cap
      linarith
  | _ =>
      obtain ⟨_, _, _, _, rfl⟩ := hslice
      exact h

theorem permits_whole (hmidway : Midway r e done f) (hslice : IsSlice r done q) (hbook : NoLighter r done q)
    (hdone : 0 ≤ done) (hquantity : 0 < q.quantity) (hwhole : done + q.quantity = r.quantity) (hpriced : Priced r)
    (hid : id ∉ momentary) (hper : id ∉ perOrder) (h : Permits files' f now' q id) : Permits files e now r id := by
  obtain ⟨limits, isLive, counters, rate, duplicates, overrides, _, _⟩ := e
  obtain ⟨limits', isLive', counters', rate', duplicates', overrides', _, _⟩ := f
  obtain ⟨hlimits, hisLive, hoverrides, hcounters⟩ := hmidway
  obtain rfl : limits' = limits := hlimits
  obtain rfl : isLive' = isLive := hisLive
  obtain rfl : overrides' = overrides := hoverrides
  obtain rfl : counters' = { counters with dailyNotional := counters.dailyNotional + worth r done } := hcounters
  cases id with
  | killSwitch | dailyLossLimit | duplicateOrder | orderRate => exact absurd (by decide) hid
  | maxOrderQuantity | maxOrderNotional => exact absurd (by decide) hper
  | orderQuantity =>
      change 0 < r.quantity
      linarith
  | orderNotional =>
      intro notional hnotional
      rw [notionalUsd_eq, Option.map_eq_some_iff] at hnotional
      obtain ⟨price, hprice, rfl⟩ := hnotional
      exact mul_pos (by linarith) (hpriced price hprice)
  | workingOrders => exact fun cap hcap => hbook.workingOrders.trans_lt (h cap hcap)
  | openPositions => exact fun cap hcap => hbook.openPositions.trans_lt (h cap hcap)
  | positionLimit =>
      intro cap hcap
      have hlast := h cap hcap
      rw [projected_slice hslice, position_slice hslice] at hlast
      have hallowed : Allowed cap r.positionQuantity (r.positionQuantity + r.side.signedMultiplier * (done + q.quantity)) :=
        allowed_of_last_slice r.side hdone hquantity hlast
      rw [hwhole] at hallowed
      exact hallowed
  | grossExposure =>
      intro cap hcap
      obtain ⟨part, hpart, hle⟩ := h cap hcap
      obtain ⟨notional, hnotional, hsum⟩ := whole_worth hslice hwhole hdone hquantity hpriced hpart
      have hgross := hbook.grossExposureUsd
      exact ⟨notional, hnotional, by linarith⟩
  | dailyNotionalLimit =>
      intro cap hcap
      obtain ⟨part, hpart, hle⟩ := h cap hcap
      obtain ⟨notional, hnotional, hsum⟩ := whole_worth hslice hwhole hdone hquantity hpriced hpart
      refine ⟨notional, hnotional, ?_⟩
      change counters.dailyNotional + worth r done + |part| ≤ cap at hle
      change counters.dailyNotional + |notional| ≤ cap
      rw [hsum]
      linarith
  | _ =>
      obtain ⟨_, _, _, _, rfl⟩ := hslice
      exact h

def PermittedBy (ids : List ControlId) (files : Files) (e : PreTradeRiskEngine ℚ) (now : ℤ) (r : OrderRequest ℚ) : Prop :=
  ∀ id ∈ ids, e.limits.isDisabled id = false → Permits files e now r id

theorem accepts_iff_permits (hday : e.today now = .ok day) : Accepts files e now r ↔
    ∀ id, e.limits.isDisabled id = false → Permits files (e.rollTo day) now r id := by
  rw [accepts_iff_admits, Admits]
  constructor
  · rintro ⟨today, htoday, h⟩
    obtain rfl := Except.ok.inj (htoday.symm.trans hday)
    exact h
  · exact fun h => ⟨day, hday, h⟩

theorem priced_of_accepts (h : Accepts files e now r) : 0 < r.quantity ∧ Priced r := by
  obtain ⟨day, -, hall⟩ := accepts_iff_admits.mp h
  have hquantity : 0 < r.quantity := hall .orderQuantity (if_pos (by decide))
  exact ⟨hquantity, priced_of_permits (e := e.rollTo day) hquantity (hall .orderNotional (if_pos (by decide)))⟩

theorem sendsAll_total_nonneg {t : PreTradeRiskEngine ℚ × ℚ} (h : Steps (Sends day r) (e, 0) children t) : 0 ≤ t.2 := by
  induction h with
  | nil => exact le_rfl
  | snoc _ hstep ih =>
      obtain ⟨-, -, f, hevaluate, -, hdone⟩ := hstep
      have hpos := (priced_of_accepts ⟨f, hevaluate⟩).1
      rw [hdone]
      exact add_nonneg ih hpos.le

/-- Slicing an order neither helps it nor harms it: where the fills load the book
with no more than their notional, the slices of an order that is accepted pass
every control but those of the moment, and where they load it with no less, an
order whose last slice is accepted passes every control but those and the caps
on one order. -/
theorem slices_stand_or_fall (hsent : SendsAll day r e children f done) (hslice : IsSlice r done q)
    (hnow : e.today now = .ok day) (hnow' : f.today now' = .ok day) :
    done = total children ∧
    (Accepts files e now r → 0 < q.quantity → done + q.quantity ≤ r.quantity → NoHeavier r done q →
      (Accepts files' f now' q ↔ PermittedBy momentary files' (f.rollTo day) now' q)) ∧
    (Accepts files' f now' q → done + q.quantity = r.quantity → NoLighter r done q →
      (Accepts files e now r ↔ PermittedBy (perOrder ++ momentary) files (e.rollTo day) now r)) := by
  obtain ⟨hdone, hmidway⟩ := sendsAll_midway hsent
  have hnonneg : 0 ≤ done := sendsAll_total_nonneg hsent
  have hlimits : f.limits = e.limits := hmidway.limits
  refine ⟨hdone, fun haccepts hquantity hwhole hbook => ?_, fun haccepts hwhole hbook => ?_⟩
  · have hpriced : Priced r := (priced_of_accepts haccepts).2
    rw [accepts_iff_permits hnow] at haccepts
    rw [accepts_iff_permits hnow']
    refine ⟨fun h id _ hid => h id hid, fun h id hid => ?_⟩
    by_cases hmomentary : id ∈ momentary
    · exact h id hmomentary hid
    · exact permits_slice hmidway hslice hbook hnonneg hquantity hwhole hpriced hmomentary
        (haccepts id (by rwa [← hlimits]))
  · obtain ⟨hquantity, hpart⟩ := priced_of_accepts haccepts
    have hpriced : Priced r := priced_of_slice hslice hpart
    rw [accepts_iff_permits hnow'] at haccepts
    rw [accepts_iff_permits hnow]
    refine ⟨fun h id _ hid => h id hid, fun h id hid => ?_⟩
    by_cases hlisted : id ∈ perOrder ++ momentary
    · exact h id hlisted hid
    · rw [List.mem_append, not_or] at hlisted
      exact permits_whole hmidway hslice hbook hnonneg hquantity hwhole hpriced hlisted.2 hlisted.1
        (haccepts id (by rwa [hlimits]))

end Slices

open scoped Decimal

def cappedLimits : RiskLimits ℚ :=
  ⟨{ maxPositionQuantity := some 5, maxGrossExposureUsd := some 500, dailyNotionalLimitUsd := some 500,
     disabledControls := {.duplicateOrder} }, by decide +kernel⟩

def cappedEngine : PreTradeRiskEngine ℚ := .onDay cappedLimits false "2026-07-20"

def five : OrderRequest ℚ := { OrderRequest.bare "ES" .buy 5 with limitPrice := some 100 }

theorem today_capped : cappedEngine.today noon = .ok "2026-07-20" := tradingDay_noon

theorem five_accepted : Accepts (fun _ => false) cappedEngine noon five := by
  refine (accepts_iff_permits today_capped).mpr fun id hid => ?_
  cases id with
  | duplicateOrder => cases hid
  | orderRate => intro cap hcap; cases hcap
  | grossExposure | dailyNotionalLimit =>
      rintro cap ⟨⟩
      exact ⟨5 * 100, rfl, by decide +kernel⟩
  | _ =>
      simp [Permits, PreTradeRiskEngine.rollTo, PreTradeRiskEngine.withCounters, cappedEngine, PreTradeRiskEngine.onDay,
        cappedLimits, five, OrderRequest.bare, OrderRequest.notionalUsd, OrderRequest.valuationPrice,
        OrderRequest.projectedPosition, Side.signedMultiplier, Side.isSell, PreTradeRiskEngine.effectiveMaxOrderQuantity,
        PreTradeRiskEngine.effectiveMaxOrderNotional, Overrides.none]

theorem permittedBy_momentary {files : Files} {now : ℤ} {f : PreTradeRiskEngine ℚ} {r : OrderRequest ℚ}
    (h : f.limits = cappedLimits) : PermittedBy momentary files f now r := by
  intro id hid hdisabled
  rw [h] at hdisabled
  simp only [momentary, List.mem_cons, List.not_mem_nil, or_false] at hid
  rcases hid with rfl | rfl | rfl | rfl
  · intro path hpath
    rw [h] at hpath
    cases hpath
  · intro limit hlimit
    rw [h] at hlimit
    cases hlimit
  · cases hdisabled
  · intro cap hcap
    rw [h] at hcap
    cases hcap

def two : OrderRequest ℚ := { five with quantity := 2 }

def three : OrderRequest ℚ := { five with quantity := 3, positionQuantity := 2, grossExposureUsd := 200 }

theorem isSlice_two : IsSlice five 0 two := by
  have hposition : five.positionQuantity + five.side.signedMultiplier * 0 = 0 := by decide +kernel
  exact ⟨2, 0, 0, 0, by rw [hposition]; rfl⟩

theorem isSlice_three : IsSlice five 2 three := by
  have hposition : five.positionQuantity + five.side.signedMultiplier * 2 = 2 := by decide +kernel
  exact ⟨3, 200, 0, 0, by rw [hposition]; rfl⟩

theorem slices_stand_or_fall_five : ∃ f,
    SendsAll "2026-07-20" five cappedEngine [⟨two, noon, fun _ => false⟩] f 2 ∧
      Accepts (fun _ => false) f noon three ∧
      (Accepts (fun _ => false) cappedEngine noon five ↔
        PermittedBy (perOrder ++ momentary) (fun _ => false) (cappedEngine.rollTo "2026-07-20") noon five) := by
  have hfirst : Accepts (fun _ => false) cappedEngine noon two :=
    ((slices_stand_or_fall .nil isSlice_two today_capped today_capped).2.1 five_accepted (by decide +kernel)
      (by decide +kernel) ⟨by decide +kernel, le_rfl, le_rfl⟩).mpr (permittedBy_momentary rfl)
  obtain ⟨⟨f, done⟩, hsends⟩ := exists_sends (s := (cappedEngine, 0)) (c := ⟨two, noon, fun _ => false⟩) today_capped
    isSlice_two hfirst
  obtain rfl : done = 2 := hsends.2.2.choose_spec.2.2.trans (zero_add 2)
  have hsent : SendsAll "2026-07-20" five cappedEngine [⟨two, noon, fun _ => false⟩] f 2 := Steps.single hsends
  have hlimits : f.limits = cappedLimits := (sendsAll_midway hsent).2.limits
  have htoday : f.today noon = .ok "2026-07-20" := by
    rw [PreTradeRiskEngine.today, hlimits]
    exact tradingDay_noon
  have hlast : Accepts (fun _ => false) f noon three :=
    ((slices_stand_or_fall hsent isSlice_three today_capped htoday).2.1 five_accepted (by decide +kernel)
      (by decide +kernel) ⟨by decide +kernel, le_rfl, le_rfl⟩).mpr (permittedBy_momentary hlimits)
  exact ⟨f, hsent, hlast, (slices_stand_or_fall hsent isSlice_three today_capped htoday).2.2 hlast (by decide +kernel)
    ⟨by decide +kernel, le_rfl, le_rfl⟩⟩

end PretradeRisk.Slicing
