import PretradeRisk.Refusals

namespace PretradeRisk.Faults

open Decision Engine Host Limits Orders Pruning Rulings Verdicts Walk
open Evaluate (Control Files Verdict consecutiveRejectsMessage controlSequence openPositionsMessage
  repeatedExecutionMessage runs workingOrdersMessage)

/-- Looking for a path: whether it is there, or `none` where the host refuses
to look it up. -/
abbrev FileSystem := String → Option Bool

/-- `Path.exists` -/
def FileSystem.pathExists (fs : FileSystem) (path : String) : Except PyError Bool :=
  match fs path with
  | some found => .ok found
  | none => .error .osError

def FileSystem.files (fs : FileSystem) : Files := fun path => (fs path).getD false

/-- `sys.get_int_max_str_digits()`, unless it is set. -/
def maxStrDigits : ℕ := 4300

def Printable (n : ℤ) : Prop := n.natAbs < 10 ^ maxStrDigits

instance : DecidablePred Printable := fun n => inferInstanceAs (Decidable (n.natAbs < 10 ^ maxStrDigits))

/-- `str(n)`, as an f-string puts a whole number into its text. -/
def str (n : ℤ) : Except PyError String :=
  if Printable n then .ok (toString n)
  else .error (.valueError ("Exceeds the limit (4300 digits) for integer string conversion; "
    ++ "use sys.set_int_max_str_digits() to increase the limit"))

variable {F : Type} [Zero F] [One F] [Neg F] [Add F] [Sub F] [Mul F] [Div F] [IntCast F] [LE F] [LT F]
  [DecidableLE F] [DecidableLT F] [PyFloat F]

def killSwitchEngaged (fs : FileSystem) (e : PreTradeRiskEngine F) : Except PyError Bool :=
  match e.limits.killSwitchPath with
  | none => .ok false
  | some path => fs.pathExists path

def checkKillSwitch (fs : FileSystem) (e : PreTradeRiskEngine F) : Except PyError (Verdict F) := do
  if ¬ (← killSwitchEngaged fs e) then return none
  return some (.reject .killSwitchEngaged "kill switch"
    ("kill switch engaged at " ++ e.limits.killSwitchPath.getD "None"))

def checkQuoteAge (e : PreTradeRiskEngine F) (request : OrderRequest F) : Except PyError (Verdict F) :=
  match request.quoteAgeMillis with
  | none => .ok (some (.reject .marketDataUnavailable "quote age"
      "the staleness control requires a quote age and none was supplied"))
  | some age => do
      let maxAge ← operand e.limits.maxQuoteAgeMillis
      if age ≤ maxAge then return none
      let message := "quotes are " ++ (← str age) ++ " ms old, over the " ++ (← str maxAge) ++ " ms limit"
      return some (.reject .marketDataStale "quote age" message (some (← toFloat F maxAge)) (some (← toFloat F age)))

def checkDuplicate (e : PreTradeRiskEngine F) (request : OrderRequest F) (now : ℤ) :
    Except PyError (Verdict F × PreTradeRiskEngine F) := do
  let window ← operand e.duplicateWindow
  let seen := (window.seenWithinWindow request.fingerprint now).1
  let e := e.pruneWindows false true now
  if ¬ seen then return (none, e)
  let span ← operand e.limits.duplicateWindowMillis
  let message := "an identical order for " ++ request.symbol ++ " was sent within the last " ++ (← str span) ++ " ms"
  let verdict := .reject .duplicateOrder "duplicate order" message (some (← toFloat F span))
  return (some verdict, e)

def checkOrderRate (e : PreTradeRiskEngine F) (now : ℤ) :
    Except PyError (Verdict F × PreTradeRiskEngine F) := do
  let sent := (e.rateWindow.count now).1
  let e := e.pruneWindows true false now
  let cap ← operand e.limits.maxOrdersPerWindow
  if (sent : ℤ) < cap then return (none, e)
  let message := (← str sent) ++ " orders already sent in the last " ++ (← str e.limits.orderRateWindowMillis)
    ++ " ms, at the " ++ (← str cap) ++ " limit"
  let verdict := .reject .orderRateExceeded "order rate" message (some (← toFloat F cap)) (some (← toFloat F sent))
  return (some verdict, e)

def checkBelow (code : RejectCode) (control : String) (count : ℤ) (cap : Option ℤ)
    (message : String → String → String) : Except PyError (Verdict F) := do
  let cap ← operand cap
  if count < cap then return none
  let message := message (← str count) (← str cap)
  return some (.reject code control message (some (← toFloat F cap)) (some (← toFloat F count)))

def checkConsecutiveRejects (e : PreTradeRiskEngine F) : Except PyError (Verdict F) :=
  checkBelow .consecutiveRejectLimitExceeded "consecutive rejections" e.counters.consecutiveRejects
    e.limits.maxConsecutiveRejects consecutiveRejectsMessage

def checkRepeatedExecution (e : PreTradeRiskEngine F) : Except PyError (Verdict F) :=
  checkBelow .repeatedExecutionThrottle "repeated execution throttle" e.counters.executionsSinceRearm
    e.limits.maxExecutionsWithoutReview repeatedExecutionMessage

def checkWorkingOrders (e : PreTradeRiskEngine F) (request : OrderRequest F) : Except PyError (Verdict F) :=
  checkBelow .maxWorkingOrdersExceeded "working orders" request.workingOrders
    e.limits.maxWorkingOrders workingOrdersMessage

def checkOpenPositions (e : PreTradeRiskEngine F) (request : OrderRequest F) : Except PyError (Verdict F) :=
  checkBelow .maxOpenPositionsExceeded "open positions" request.openPositions
    e.limits.maxOpenPositions openPositionsMessage

/-- The check of a control, with all that can be raised: the other controls
look up no path and put no whole number into a message. -/
def check (fs : FileSystem) (e : PreTradeRiskEngine F) (request : OrderRequest F) (now : ℤ) (control : Control F) :
    Except PyError (Verdict F × PreTradeRiskEngine F) :=
  match control.id with
  | .killSwitch => (checkKillSwitch fs e).map (·, e)
  | .quoteAge => (checkQuoteAge e request).map (·, e)
  | .duplicateOrder => checkDuplicate e request now
  | .orderRate => checkOrderRate e now
  | .consecutiveRejects => (checkConsecutiveRejects e).map (·, e)
  | .repeatedExecution => (checkRepeatedExecution e).map (·, e)
  | .workingOrders => (checkWorkingOrders e request).map (·, e)
  | .openPositions => (checkOpenPositions e request).map (·, e)
  | _ => control.check fs.files e request now

def evaluate (fs : FileSystem) (e : PreTradeRiskEngine F) (now : ℤ) (request : OrderRequest F) :
    Except PyError (RiskDecision F × PreTradeRiskEngine F) := do
  let e ← e.rollTradingDay now
  let (objection, e) ← firstObjection runs (fun control e => check fs e request now control) controlSequence e
  return (objection.getD accepted, e)

/-- The whole numbers in the message of a control, in its order. -/
def printed (e : PreTradeRiskEngine F) (now : ℤ) (r : OrderRequest F) : ControlId → List ℤ
  | .quoteAge => match r.quoteAgeMillis with
      | none => []
      | some age => age :: e.limits.maxQuoteAgeMillis.toList
  | .duplicateOrder => e.limits.duplicateWindowMillis.toList
  | .orderRate => ((e.rateWindow.prune now).events.length : ℤ) :: e.limits.orderRateWindowMillis ::
      e.limits.maxOrdersPerWindow.toList
  | .consecutiveRejects => (e.counters.consecutiveRejects : ℤ) :: e.limits.maxConsecutiveRejects.toList
  | .repeatedExecution => (e.counters.executionsSinceRearm : ℤ) :: e.limits.maxExecutionsWithoutReview.toList
  | .workingOrders => r.workingOrders :: e.limits.maxWorkingOrders.toList
  | .openPositions => r.openPositions :: e.limits.maxOpenPositions.toList
  | _ => []

variable {fs : FileSystem} {e : PreTradeRiskEngine F} {now : ℤ} {r : OrderRequest F}

/-- A check that raises over a number in its message, and otherwise does as
the check that puts every number in. -/
structure Guarded {α : Type} (satisfied : Prop) (numbers : List ℤ) (plain guarded : Except PyError α) : Prop where
  agrees : satisfied ∨ (∀ n ∈ numbers, Printable n) → guarded = plain
  raises : ¬ satisfied → ¬ (∀ n ∈ numbers, Printable n) → ∃ message, guarded = .error (.valueError message)

section Guarded

variable {α β : Type} {satisfied : Prop} {numbers : List ℤ} {plain guarded : Except PyError α}

theorem guarded_self (plain : Except PyError α) : Guarded satisfied [] plain plain :=
  ⟨fun _ => rfl, fun _ h => absurd (by simp) h⟩

theorem guarded_of_satisfied (h : satisfied) (plain : Except PyError α) : Guarded satisfied numbers plain plain :=
  ⟨fun _ => rfl, fun hnot _ => absurd h hnot⟩

theorem Guarded.str {n : ℤ} {k : String → Except PyError α} (hnot : ¬ satisfied)
    (h : Guarded satisfied numbers plain (k (toString n))) : Guarded satisfied (n :: numbers) plain (str n >>= k) := by
  rw [Faults.str]
  by_cases hn : Printable n
  · rw [if_pos hn, ok_bind]
    refine ⟨fun hall => h.agrees (hall.imp_right fun hall m hm => hall m (List.mem_cons_of_mem _ hm)),
      fun _ hall => h.raises hnot fun htail => hall (List.forall_mem_cons.mpr ⟨hn, htail⟩)⟩
  · rw [if_neg hn]
    refine ⟨fun hall => ?_, fun _ _ => ⟨_, rfl⟩⟩
    rcases hall with hsatisfied | hall
    · exact absurd hsatisfied hnot
    · exact absurd (hall n List.mem_cons_self) hn

theorem Guarded.map (h : Guarded satisfied numbers plain guarded) (f : α → β) :
    Guarded satisfied numbers (plain.map f) (guarded.map f) := by
  refine ⟨fun hall => by rw [h.agrees hall], fun hnot hlong => ?_⟩
  obtain ⟨message, hmessage⟩ := h.raises hnot hlong
  exact ⟨message, by rw [hmessage]; rfl⟩

end Guarded

variable {satisfied : Prop} {numbers : List ℤ}

theorem checkQuoteAge_guarded (h : e.limits.maxQuoteAgeMillis.isSome = true) :
    Guarded (Satisfied fs.files e now r .quoteAge) (printed e now r .quoteAge) (Evaluate.checkQuoteAge e r)
      (checkQuoteAge e r) := by
  obtain ⟨maxAge, hmax⟩ := Option.isSome_iff_exists.mp h
  rw [checkQuoteAge, Evaluate.checkQuoteAge, printed]
  cases hage : r.quoteAgeMillis with
  | none => exact guarded_self _
  | some age =>
      have hiff : Satisfied fs.files e now r .quoteAge ↔ age ≤ maxAge := by simp [Satisfied, hmax, hage]
      simp only [hmax, operand_some, ok_bind, pure_eq_ok]
      split
      · exact guarded_of_satisfied (hiff.mpr ‹_›) _
      · have hnot := mt hiff.mp ‹_›
        exact .str hnot (.str hnot (guarded_self _))

theorem checkDuplicate_guarded (h : e.duplicateWindow.isSome = true) :
    Guarded (Satisfied fs.files e now r .duplicateOrder) (printed e now r .duplicateOrder)
      (Evaluate.checkDuplicate e r now) (checkDuplicate e r now) := by
  obtain ⟨window, hwindow⟩ := Option.isSome_iff_exists.mp h
  have hspan : e.limits.duplicateWindowMillis = some window.windowMillis := by
    rw [← e.duplicateWindow_configured, hwindow]; rfl
  have hiff : Satisfied fs.files e now r .duplicateOrder ↔
      ¬ (window.seenWithinWindow r.fingerprint now).1 = true := by
    simp [Satisfied, hwindow, Windows.DuplicateWindow.seenWithinWindow]
  have hlimits : (e.pruneWindows false true now).limits = e.limits := rfl
  simp only [checkDuplicate, Evaluate.checkDuplicate, printed, hwindow, hlimits, hspan, operand_some, ok_bind,
    pure_eq_ok]
  split
  · exact guarded_of_satisfied (hiff.mpr ‹_›) _
  · exact .str (fun hsat => ‹¬ ¬ _› (hiff.mp hsat)) (guarded_self _)

theorem checkOrderRate_guarded (h : e.limits.maxOrdersPerWindow.isSome = true) :
    Guarded (Satisfied fs.files e now r .orderRate) (printed e now r .orderRate)
      (Evaluate.checkOrderRate e now) (checkOrderRate e now) := by
  obtain ⟨cap, hcap⟩ := Option.isSome_iff_exists.mp h
  have hiff : Satisfied fs.files e now r .orderRate ↔ ((e.rateWindow.prune now).events.length : ℤ) < cap := by
    simp [Satisfied, hcap]
  have hlimits : (e.pruneWindows true false now).limits = e.limits := rfl
  simp only [checkOrderRate, Evaluate.checkOrderRate, printed, hcap, hlimits, Windows.RateWindow.count, operand_some,
    ok_bind, pure_eq_ok]
  split
  · exact guarded_of_satisfied (hiff.mpr ‹_›) _
  · have hnot := mt hiff.mp ‹_›
    exact .str hnot (.str hnot (.str hnot (guarded_self _)))

omit [Zero F] [One F] [Neg F] [Add F] [Sub F] [Mul F] [Div F] [LE F] [LT F] [DecidableLE F] [DecidableLT F] in
theorem checkBelow_guarded {code : RejectCode} {control : String} {count : ℤ} {cap : Option ℤ}
    {message : String → String → String} (h : cap.isSome = true) (hp : satisfied ↔ ∀ c ∈ cap, count < c) :
    Guarded satisfied (count :: cap.toList) (Evaluate.checkBelow (F := F) code control count cap message)
      (checkBelow code control count cap message) := by
  obtain ⟨cap, rfl⟩ := Option.isSome_iff_exists.mp h
  simp only [checkBelow, Evaluate.checkBelow, operand_some, ok_bind, pure_eq_ok]
  have hiff : satisfied ↔ count < cap := hp.trans (by simp)
  split
  · exact guarded_of_satisfied (hiff.mpr ‹_›) _
  · have hnot := mt hiff.mp ‹_›
    exact .str hnot (.str hnot (guarded_self _))

variable {c : Control F} {day : String}

theorem controlSequence_guarded : ∀ c ∈ controlSequence (F := F), c.isArmed e = true → c.id ≠ .killSwitch →
    Guarded (Satisfied fs.files e now r c.id) (printed e now r c.id) (c.check fs.files e r now)
      (check fs e r now c) := by
  simp only [controlSequence, List.forall_mem_cons, List.not_mem_nil, false_implies, implies_true, and_true,
    Control.reading, check]
  exact ⟨fun _ h => absurd rfl h, fun _ _ => guarded_self _, fun _ _ => guarded_self _, fun _ _ => guarded_self _,
    fun _ _ => guarded_self _, fun _ _ => guarded_self _, fun _ _ => guarded_self _, fun _ _ => guarded_self _,
    fun _ _ => guarded_self _, fun _ _ => guarded_self _, fun _ _ => guarded_self _,
    fun h _ => (checkQuoteAge_guarded h).map _, fun _ _ => guarded_self _, fun _ _ => guarded_self _,
    fun h _ => checkDuplicate_guarded h, fun h _ => checkOrderRate_guarded h,
    fun h _ => (checkBelow_guarded h Iff.rfl).map _, fun h _ => (checkBelow_guarded h Iff.rfl).map _,
    fun h _ => (checkBelow_guarded h Iff.rfl).map _, fun h _ => (checkBelow_guarded h Iff.rfl).map _,
    fun _ _ => guarded_self _, fun _ _ => guarded_self _, fun _ _ => guarded_self _, fun _ _ => guarded_self _⟩

/-- The host says whether the file of a running kill switch is there. -/
def Found (fs : FileSystem) (e : PreTradeRiskEngine F) : Prop :=
  e.limits.isDisabled .killSwitch = false → ∀ path ∈ e.limits.killSwitchPath, (fs path).isSome = true

theorem check_of_found (h : ∀ path ∈ e.limits.killSwitchPath, (fs path).isSome = true) :
    ∀ c ∈ controlSequence (F := F), c.id = .killSwitch → check fs e r now c = c.check fs.files e r now := by
  have hengaged : killSwitchEngaged fs e = .ok (Evaluate.killSwitchEngaged fs.files e) := by
    rw [killSwitchEngaged, Evaluate.killSwitchEngaged]
    cases hpath : e.limits.killSwitchPath with
    | none => rfl
    | some path =>
        obtain ⟨found, hfound⟩ := Option.isSome_iff_exists.mp (h path hpath)
        simp [FileSystem.pathExists, FileSystem.files, hfound]
  have hcheck : checkKillSwitch fs e = Evaluate.checkKillSwitch fs.files e := by
    rw [checkKillSwitch, hengaged]
    rfl
  simp only [controlSequence, List.forall_mem_cons, List.not_mem_nil, false_implies, implies_true, and_true,
    Control.reading, check, hcheck]
  simp

omit [One F] [Neg F] [Add F] [Sub F] [Mul F] [Div F] [LT F] [DecidableLT F] in
theorem check_of_lost {path : String} (hpath : e.limits.killSwitchPath = some path) (h : fs path = none)
    (hid : c.id = .killSwitch) : check fs e r now c = .error .osError := by
  rw [check, hid]
  dsimp only
  rw [checkKillSwitch, killSwitchEngaged, hpath]
  simp only [FileSystem.pathExists, h]
  rfl

theorem satisfied_of_pruned {files : Files} {f : PreTradeRiskEngine F} (h : Pruned now e f)
    (hc : c ∈ controlSequence) (hruns : runs f c = true) :
    Satisfied files f now r c.id ↔ Satisfied files e now r c.id := by
  have harmed := isArmed_of_sameReadings (sameReadings_of_pruned h) c hc
  rw [← verdict_eq_pass_iff hc (isArmed_of_runs hruns), verdict_congr (sameReadings_of_pruned h) c hc,
    verdict_eq_pass_iff hc (harmed.symm.trans (isArmed_of_runs hruns))]

omit [One F] [Neg F] [Add F] [Sub F] [Mul F] [Div F] [IntCast F] [LT F] [DecidableLT F] in
theorem printed_of_pruned {f : PreTradeRiskEngine F} (h : Pruned now e f) (id : ControlId) :
    printed f now r id = printed e now r id := by
  cases id <;> simp only [printed, h.limits, h.counters, prune_rateWindow_of_pruned h]

theorem check_guarded {f : PreTradeRiskEngine F} (hfound : Found fs e) (h : Pruned now e f)
    (hc : c ∈ controlSequence) (hruns : runs f c = true) :
    Guarded (Satisfied fs.files e now r c.id) (printed e now r c.id) (c.check fs.files f r now)
      (check fs f r now c) := by
  by_cases hid : c.id = .killSwitch
  · rw [runs, hid, Bool.and_eq_true, Bool.not_eq_true', h.limits] at hruns
    rw [check_of_found (fun path hpath => hfound hruns.1 path (h.limits ▸ hpath)) c hc hid, hid]
    exact guarded_self _
  · rw [← printed_of_pruned h, ← satisfied_of_pruned h hc hruns]
    exact controlSequence_guarded c hc (isArmed_of_runs hruns) hid

theorem evaluate_of_today (hday : e.today now = .ok day) : evaluate fs e now r =
    (firstObjection runs (fun c e => check fs e r now c) controlSequence (e.rollTo day)).map
      fun p => (p.1.getD accepted, p.2) := by
  rw [evaluate, PreTradeRiskEngine.rollTradingDay, hday]
  simp only [ok_bind, pure_eq_ok]
  cases firstObjection runs (fun c e => check fs e r now c) controlSequence (e.rollTo day) <;> rfl

theorem plain_of_today (files : Files) (hday : e.today now = .ok day) : Evaluate.evaluate files e now r =
    (firstObjection runs (fun c e => c.check files e r now) controlSequence (e.rollTo day)).map
      fun p => (p.1.getD accepted, p.2) := by
  rw [Evaluate.evaluate, PreTradeRiskEngine.rollTradingDay, hday]
  simp only [ok_bind, pure_eq_ok]
  cases firstObjection runs (fun c e => c.check files e r now) controlSequence (e.rollTo day) <;> rfl

/-- A kill switch the host will not look up ends every evaluation. -/
theorem evaluate_of_lost (hday : e.today now = .ok day) (hlost : ¬ Found fs e) :
    evaluate fs e now r = .error .osError := by
  simp only [Found, not_forall, Bool.not_eq_true, Option.isSome_eq_false_iff, Option.isNone_iff_eq_none] at hlost
  obtain ⟨henabled, path, hpath, hnone⟩ := hlost
  have hne : controlSequence (F := F) ≠ [] := List.cons_ne_nil _ _
  have hruns : runs (e.rollTo day) (controlSequence.head hne) = true := by
    rw [runs, Bool.and_eq_true, Bool.not_eq_true']
    exact ⟨henabled, congrArg Option.isSome hpath⟩
  have hcheck : check fs (e.rollTo day) r now (controlSequence.head hne) = .error .osError :=
    check_of_lost (e := e.rollTo day) hpath hnone rfl
  rw [evaluate_of_today hday, ← List.cons_head_tail hne, firstObjection, if_pos hruns, hcheck]
  rfl

theorem evaluate_of_satisfied (hday : e.today now = .ok day) (hfound : Found fs e)
    (hall : ∀ c ∈ controlSequence, runs e c = true → Satisfied fs.files (e.rollTo day) now r c.id) :
    evaluate fs e now r = Evaluate.evaluate fs.files e now r := by
  have hsteady := controlSequence_steady fs.files now r (e.rollTo day)
  rw [evaluate_of_today hday, plain_of_today fs.files hday]
  refine congrArg (Except.map _) (firstObjection_congr hsteady (.refl now _) fun c hc f hf hruns => ?_)
  refine (check_guarded (e := e.rollTo day) hfound hf hc hruns).agrees (.inl (hall c hc ?_))
  rw [← runs_rollTo e day hc, ← hsteady.runs_eq c hc f hf, hruns]

/-- Up to the first running control that the order fails the two evaluations
walk alike; there the message is put together. -/
theorem evaluate_guarded (hday : e.today now = .ok day) (hfound : Found fs e)
    (h : FirstFailing fs.files e now r day c) :
    Guarded (Satisfied fs.files (e.rollTo day) now r c.id) (printed (e.rollTo day) now r c.id)
      (Evaluate.evaluate fs.files e now r) (evaluate fs e now r) := by
  have hsteady := controlSequence_steady fs.files now r (e.rollTo day)
  obtain ⟨before, after, hseq, hruns, hnot, hbefore⟩ := h
  have hmem {b : Control F} (hb : b ∈ before) : b ∈ controlSequence (F := F) := hseq ▸ List.mem_append_left _ hb
  have hc : c ∈ controlSequence (F := F) := by rw [hseq]; simp
  have hpass : ∀ b ∈ before, runs (e.rollTo day) b = true →
      (b.check fs.files (e.rollTo day) r now).map Prod.fst = .ok none := fun b hb hr =>
    (verdict_eq_pass_iff (hmem hb) (isArmed_of_runs hr)).mpr (hbefore b hb hr)
  have hsame : ∀ b ∈ before, ∀ f, Pruned now (e.rollTo day) f → runs f b = true →
      check fs f r now b = b.check fs.files f r now := fun b hb f hf hr =>
    (check_guarded (e := e.rollTo day) hfound hf (hmem hb) hr).agrees
      (.inl (hbefore b hb ((hsteady.runs_eq b (hmem hb) f hf).symm.trans hr)))
  obtain ⟨f, hf, hplain, hguarded⟩ := firstObjection_reaches (hseq ▸ hsteady) (.refl now _) hpass hsame
  have hr : runs f c = true := (hsteady.runs_eq c hc f hf).trans hruns
  have hcheck : Guarded (Satisfied fs.files (e.rollTo day) now r c.id) (printed (e.rollTo day) now r c.id)
      (c.check fs.files f r now) (check fs f r now c) := check_guarded hfound hf hc hr
  -- neither check passes the order on, so each walk ends with its answer
  have hends : ends ((c.check fs.files f r now).map Prod.fst) = true := by
    by_contra hpasses
    have hpass : verdict fs.files f now r c = .ok none := eq_pass_of_ends (Bool.eq_false_iff.mpr hpasses)
    exact hnot ((satisfied_of_pruned hf hc hr).mp ((verdict_eq_pass_iff hc (isArmed_of_runs hr)).mp hpass))
  have hends' : ends ((check fs f r now c).map Prod.fst) = true := by
    by_cases hprints : ∀ n ∈ printed (e.rollTo day) now r c.id, Printable n
    · rwa [hcheck.agrees (.inr hprints)]
    · obtain ⟨message, hmessage⟩ := hcheck.raises hnot hprints
      rw [hmessage]
      rfl
  rw [evaluate_of_today hday, plain_of_today fs.files hday, hseq, hplain, hguarded, firstObjection_of_ends hr hends,
    firstObjection_of_ends hr hends']
  exact hcheck.map _

end PretradeRisk.Faults
