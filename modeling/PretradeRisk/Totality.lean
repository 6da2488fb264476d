import PretradeRisk.Doubles
import PretradeRisk.Faults
import PretradeRisk.Session

namespace PretradeRisk.Totality

open Decision Engine Faults Host Ieee Limits Orders Refusals Rulings Session Verdicts
open Evaluate (Control Files Verdict runs)

variable {F : Type} [Zero F] [One F] [Neg F] [Add F] [Sub F] [Mul F] [Div F] [IntCast F] [LE F] [LT F]
  [DecidableLE F] [DecidableLT F] [PyFloat F]

/-- A decision comes back, with a code where it rejects and none where it
accepts. -/
def Returns (fs : FileSystem) (e : PreTradeRiskEngine F) (now : ℤ) (r : OrderRequest F) : Prop :=
  ∃ d f, evaluate fs e now r = .ok (d, f) ∧ (d.accepted = true ↔ d.code = none)

variable {fs : FileSystem} {files : Files} {e : PreTradeRiskEngine F} {now : ℤ} {r : OrderRequest F} {day : String}
  {c : Control F} {satisfied : Prop} {numbers : List ℤ} {found : Evidence F} {answer : Except PyError (Verdict F)}

omit [Zero F] [One F] [Neg F] [Add F] [Sub F] [Mul F] [Div F] [IntCast F] [LE F] [LT F]
  [DecidableLE F] [DecidableLT F] in
theorem Ruling.error (h : Ruling satisfied numbers found answer) {x : PyError} (hx : answer = .error x) :
    x = .overflowError := by
  cases h with
  | pass => cases hx
  | reject => cases hx
  | overflow => cases hx; rfl

/-- No check reads a missing value or divides by zero: what can go wrong is a
whole number too large for a float. -/
theorem decision_error (hday : e.today now = .ok day) {x : PyError} (h : decision files e now r = .error x) :
    x = .overflowError := by
  rcases decision_cases files r hday with ⟨hd, -⟩ | ⟨c, hc⟩
  · rw [hd] at h
    cases h
  · rw [hc.decision hday] at h
    have hruling := hc.ruling
    cases hv : verdict files (e.rollTo day) now r c with
    | ok v => rw [hv] at h; cases h
    | error y =>
        rw [hv] at h
        cases h
        exact Ruling.error hruling hv

/-- The whole numbers of a control's rejection can be put into its message and
are within the range of a float. -/
def Tellable (e : PreTradeRiskEngine F) (now : ℤ) (r : OrderRequest F) (id : ControlId) : Prop :=
  (∀ n ∈ printed e now r id, Printable n) ∧ ∀ n ∈ reported e now r id, PyFloat.fits F n = true

theorem evaluate_error (hday : e.today now = .ok day) {x : PyError} (h : evaluate fs e now r = .error x) :
    x = .osError ∨ x = .overflowError ∨ ∃ message, x = .valueError message := by
  have hplain (hagrees : evaluate fs e now r = Evaluate.evaluate fs.files e now r) : x = .overflowError := by
    have hd : decision fs.files e now r = .error x := by
      rw [decision, ← hagrees, h]
      rfl
    exact decision_error hday hd
  by_cases hfound : Found fs e
  · rcases decision_cases fs.files r hday with ⟨-, hall⟩ | ⟨c, hc⟩
    · exact .inr (.inl (hplain (evaluate_of_satisfied hday hfound hall)))
    · have hguarded := evaluate_guarded hday hfound hc
      by_cases hprints : ∀ n ∈ printed (e.rollTo day) now r c.id, Printable n
      · exact .inr (.inl (hplain (hguarded.agrees (.inr hprints))))
      · obtain ⟨message, hmessage⟩ := hguarded.raises hc.not_satisfied hprints
        rw [hmessage] at h
        exact .inr (.inr ⟨message, (Except.error.inj h).symm⟩)
  · rw [evaluate_of_lost hday hfound] at h
    exact .inl (Except.error.inj h).symm

theorem returns_of_tellable (hday : e.today now = .ok day) (hfound : Found fs e)
    (hc : FirstFailing fs.files e now r day c) (h : Tellable (e.rollTo day) now r c.id) : Returns fs e now r := by
  have hreportable : Reportable fs.files e now r day c := ⟨hc, h.2⟩
  obtain ⟨d, hd⟩ := hreportable.returns hday
  obtain ⟨-, control, message, rfl⟩ := reject_of_firstFailing hc hday hd
  obtain ⟨⟨d, f⟩, hev, rfl⟩ := map_eq_ok.mp hd
  exact ⟨_, f, ((evaluate_guarded hday hfound hc).agrees (.inr h.1)).trans hev, by simp [RiskDecision.reject]⟩

theorem tellable_of_returns (hday : e.today now = .ok day) (hfound : Found fs e)
    (hc : FirstFailing fs.files e now r day c) (h : Returns fs e now r) : Tellable (e.rollTo day) now r c.id := by
  obtain ⟨d, f, hev, -⟩ := h
  have hguarded := evaluate_guarded hday hfound hc
  have hprints : ∀ n ∈ printed (e.rollTo day) now r c.id, Printable n := by
    by_contra hlong
    obtain ⟨message, hmessage⟩ := hguarded.raises hc.not_satisfied hlong
    rw [hmessage] at hev
    cases hev
  have hd : decision fs.files e now r = .ok d := by
    rw [decision, ← hguarded.agrees (.inr hprints), hev]
    rfl
  exact ⟨hprints, (reject_of_firstFailing hc hday hd).1.2⟩

/-- An evaluation returns exactly where the host says whether the file of a
running kill switch is there, and the first running control to fail can tell
the whole numbers of its rejection. -/
theorem returns_iff (hday : e.today now = .ok day) :
    (Returns fs e now r ↔ Found fs e ∧ ∀ c, FirstFailing fs.files e now r day c →
      Tellable (e.rollTo day) now r c.id) ∧
    ∀ x, evaluate fs e now r = .error x → x ≠ .typeError ∧ x ≠ .zeroDivisionError := by
  refine ⟨⟨fun h => ?_, fun ⟨hfound, h⟩ => ?_⟩, fun x h => ?_⟩
  · have hfound : Found fs e := by
      by_contra hlost
      obtain ⟨d, f, hev, -⟩ := h
      rw [evaluate_of_lost hday hlost] at hev
      cases hev
    exact ⟨hfound, fun c hc => tellable_of_returns hday hfound hc h⟩
  · rcases decision_cases fs.files r hday with ⟨hd, hall⟩ | ⟨c, hc⟩
    · obtain ⟨⟨d, f⟩, hev, rfl⟩ := map_eq_ok.mp hd
      exact ⟨_, f, (evaluate_of_satisfied hday hfound hall).trans hev, by simp [accepted]⟩
    · exact returns_of_tellable hday hfound hc (h c hc)
  · rcases evaluate_error hday h with rfl | rfl | ⟨message, rfl⟩ <;> simp

def bookLimits : RiskLimits Float64 := ⟨{ maxWorkingOrders := some 5 }, by decide +kernel⟩

def bookEngine : PreTradeRiskEngine Float64 := .onDay bookLimits false "2026-07-20"

def nothingThere : FileSystem := fun _ => some false

def crowded : OrderRequest Float64 :=
  { OrderRequest.bare "ES" .buy 1 with limitPrice := some 1, workingOrders := 10 ^ 200 * 10 ^ 200 }

theorem today_bookEngine : bookEngine.today noon = .ok "2026-07-20" := tradingDay_noon

theorem evaluate_crowded : evaluate nothingThere bookEngine noon crowded = .error .overflowError := by
  have h : (match evaluate nothingThere bookEngine noon crowded with
    | .error x => decide (x = .overflowError)
    | .ok _ => false) = true := by decide +kernel
  cases hev : evaluate nothingThere bookEngine noon crowded with
  | error x =>
      rw [hev] at h
      rw [of_decide_eq_true h]
  | ok p =>
      rw [hev] at h
      cases h

/-- A count of working orders beyond the range of a float: the check raises
where it would report it. -/
theorem crowded_not_returns :
    PreTradeRiskEngine.new bookLimits false noon = .ok bookEngine ∧
      bookEngine.today noon = .ok "2026-07-20" ∧ ¬ Returns nothingThere bookEngine noon crowded := by
  refine ⟨new_eq_ok.mpr ⟨_, tradingDay_noon, rfl⟩, today_bookEngine, ?_⟩
  rintro ⟨d, f, hev, -⟩
  rw [evaluate_crowded] at hev
  cases hev

theorem returns_iff_crowded :
    (Returns nothingThere bookEngine noon crowded ↔ Found nothingThere bookEngine ∧
      ∀ c, FirstFailing nothingThere.files bookEngine noon crowded "2026-07-20" c →
        Tellable (bookEngine.rollTo "2026-07-20") noon crowded c.id) ∧
      ∀ x, evaluate nothingThere bookEngine noon crowded = .error x → x ≠ .typeError ∧ x ≠ .zeroDivisionError :=
  returns_iff today_bookEngine

end PretradeRisk.Totality
