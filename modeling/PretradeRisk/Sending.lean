import PretradeRisk.Admission
import PretradeRisk.Session
import PretradeRisk.Trailing

namespace PretradeRisk.Sending

open Admission Engine Evaluate Host Limits Orders Pruning Run Session Windows

variable {F : Type}

structure Sent (F : Type) where
  request : OrderRequest F
  time : ℤ

def sends (calls : List (Call F)) : List (Sent F) :=
  calls.filterMap fun call =>
    match call.op with
    | .recordOrderSent request => some ⟨request, call.now⟩
    | _ => none

def sendTimes (calls : List (Call F)) : List ℤ := (sends calls).map Sent.time

variable {start n : ℤ} {calls : List (Call F)} {call : Call F} {request : OrderRequest F}

theorem sends_snoc_sent : sends (calls ++ [⟨n, .recordOrderSent request⟩]) = sends calls ++ [⟨request, n⟩] := by
  simp [sends]

theorem sends_snoc_of_ne (h : ∀ request, call.op ≠ .recordOrderSent request) :
    sends (calls ++ [call]) = sends calls := by
  obtain ⟨m, op⟩ := call
  cases op <;> simp_all [sends]

theorem sends_le (h : Upto Call.now start calls n) : ∀ s ∈ sends calls, s.time ≤ n := by
  intro s hs
  obtain ⟨⟨m, op⟩, hcall, heq⟩ := List.mem_filterMap.mp hs
  cases op with
  | recordOrderSent request =>
      obtain rfl := Option.some.inj heq
      exact h.le _ hcall
  | _ => cases heq

theorem sendTimes_snoc_sent : sendTimes (calls ++ [⟨n, .recordOrderSent request⟩]) = sendTimes calls ++ [n] := by
  rw [sendTimes, sends_snoc_sent, List.map_append]; rfl

theorem sendTimes_snoc_of_ne (h : ∀ request, call.op ≠ .recordOrderSent request) :
    sendTimes (calls ++ [call]) = sendTimes calls := congrArg (List.map Sent.time) (sends_snoc_of_ne h)

theorem sendTimes_le (h : Upto Call.now start calls n) : ∀ t ∈ sendTimes calls, t ≤ n := by
  simpa [sendTimes] using sends_le h

theorem sendTimes_pairwise (h : Nondecreasing Call.now start calls) : (sendTimes calls).Pairwise (· ≤ ·) := by
  induction calls using List.reverseRecOn with
  | nil => exact .nil
  | append_singleton calls call ih =>
      obtain ⟨hbefore, hupto⟩ := nondecreasing_snoc.mp h
      by_cases hop : ∃ request, call.op = .recordOrderSent request
      · obtain ⟨m, op⟩ := call
        obtain ⟨request, rfl⟩ := hop
        rw [sendTimes_snoc_sent, List.pairwise_append]
        refine ⟨ih hbefore, List.pairwise_singleton _ _, fun t ht u hu => ?_⟩
        obtain rfl := List.mem_singleton.mp hu
        exact sendTimes_le hupto t ht
      · rw [sendTimes_snoc_of_ne (not_exists.mp hop)]
        exact ih hbefore

section Runs

variable [Zero F] [One F] [Neg F] [Add F] [Sub F] [Mul F] [Div F] [IntCast F] [LE F] [LT F] [DecidableLE F]
  [DecidableLT F] [PyFloat F]

/-- Every order sent was accepted by the call before. -/
def SendsAccepted (d₀ : Desk F) (calls : List (Call F)) : Prop :=
  ∀ before n request after, calls = before ++ ⟨n, .recordOrderSent request⟩ :: after →
    ∃ front m files d, before = front ++ [⟨m, .evaluate files request⟩] ∧ Runs d₀ front d ∧
      Accepts files d.engine m request

theorem SendsAccepted.of_append {d₀ : Desk F} {more : List (Call F)} (h : SendsAccepted d₀ (calls ++ more)) :
    SendsAccepted d₀ calls := by
  intro before n request after heq
  exact h before n request (after ++ more) (by rw [heq]; simp)

/-- What a call does to the windows: a send is recorded in both, and any
other call leaves each as it was, or pruned. -/
inductive Remembers (d : Desk F) (n : ℤ) : Op F → Desk F → Prop
  | sent {request : OrderRequest F} {d' : Desk F}
      (hrate : d'.engine.rateWindow = d.engine.rateWindow.record n)
      (hduplicates : d'.engine.duplicateWindow =
        d.engine.duplicateWindow.map (·.record request.fingerprint n)) :
      Remembers d n (.recordOrderSent request) d'
  | kept {op : Op F} {d' : Desk F} (hop : ∀ request, op ≠ .recordOrderSent request)
      (hrate : d'.engine.rateWindow = d.engine.rateWindow ∨
        d'.engine.rateWindow = d.engine.rateWindow.prune n)
      (hduplicates : d'.engine.duplicateWindow = d.engine.duplicateWindow ∨
        d'.engine.duplicateWindow = d.engine.duplicateWindow.map (·.prune n)) :
      Remembers d n op d'

theorem perform_remembers {d d' : Desk F} (h : d.perform call = .ok d') : Remembers d call.now call.op d' := by
  obtain ⟨n, op⟩ := call
  cases op with
  | report event =>
      obtain ⟨day, hday, rfl⟩ := perform_report_eq_ok.mp h
      exact .kept (by simp) (.inl rfl) (.inl rfl)
  | recordOrderSent request => cases h; exact .sent rfl rfl
  | evaluate files request =>
      obtain ⟨_, f, hf, rfl⟩ := perform_evaluate_eq_ok.mp h
      obtain ⟨day, -, hp⟩ := evaluate_pruned hf
      exact .kept (by simp) hp.rateWindow hp.duplicateWindow
  | read =>
      obtain ⟨day, hday, rfl⟩ := perform_read_eq_ok.mp h
      exact .kept (by simp) (.inl rfl) (.inl rfl)
  | load =>
      obtain ⟨day, hday, rfl⟩ := perform_load_eq_ok.mp h
      exact .kept (by simp) (.inl rfl) (.inl rfl)
  | control command =>
      obtain ⟨entries, he, rfl⟩ := perform_control_eq_ok.mp h
      exact .kept (by simp) (.inl rfl) (.inl rfl)
  | persist => cases h; exact .kept (by simp) (.inl rfl) (.inl rfl)
  | refreshOverrides => cases h; exact .kept (by simp) (.inl rfl) (.inl rfl)
  | outside store => cases h; exact .kept (by simp) (.inl rfl) (.inl rfl)

theorem sendsAccepted_nil (d₀ : Desk F) : SendsAccepted d₀ [] := by
  intro before n request after heq
  simp at heq

theorem SendsAccepted.snoc {d₀ : Desk F} (h : SendsAccepted d₀ calls)
    (hcall : ∀ request, call.op = .recordOrderSent request →
    ∃ front m files d, calls = front ++ [⟨m, .evaluate files request⟩] ∧ Runs d₀ front d ∧
      Accepts files d.engine m request) : SendsAccepted d₀ (calls ++ [call]) := by
  intro before n request after heq
  rcases List.eq_nil_or_concat after with rfl | ⟨after, last, rfl⟩
  · obtain ⟨rfl, hlast⟩ := List.append_inj' heq rfl
    exact hcall request (by simp_all)
  · rw [List.concat_eq_append, ← List.cons_append, ← List.append_assoc] at heq
    exact h before n request after (List.append_inj' heq rfl).1

theorem SendsAccepted.evaluated {d₀ : Desk F} {files : Files} (h : SendsAccepted d₀ calls) :
    SendsAccepted d₀ (calls ++ [⟨n, .evaluate files request⟩]) := h.snoc fun _ hop => by cases hop

theorem SendsAccepted.sent {d₀ d : Desk F} {files : Files} {m : ℤ} (h : SendsAccepted d₀ calls) (hrun : Runs d₀ calls d)
    (ha : Accepts files d.engine m request) :
    SendsAccepted d₀ (calls ++ [⟨m, .evaluate files request⟩] ++ [⟨n, .recordOrderSent request⟩]) :=
  h.evaluated.snoc fun _ hop => by cases hop; exact ⟨calls, m, files, d, rfl, hrun, ha⟩

end Runs

open scoped Decimal

def pacedLimits : RiskLimits ℚ :=
  ⟨{ maxOrdersPerWindow := some 1, duplicateWindowMillis := some 1000 }, by decide +kernel⟩

def pacedDesk : Desk ℚ := ⟨.onDay pacedLimits false "2026-07-20", Store.empty⟩

def one : OrderRequest ℚ := .bare "ES" .buy 1

theorem new_pacedDesk : PreTradeRiskEngine.new pacedLimits false noon = .ok pacedDesk.engine :=
  new_eq_ok.mpr ⟨_, tradingDay_noon, rfl⟩

theorem one_accepted : Accepts (fun _ => false) pacedDesk.engine noon one := by
  refine accepts_iff_admits.mpr ⟨"2026-07-20", tradingDay_noon, fun id _ => ?_⟩
  cases id with
  | duplicateOrder =>
      intro window hwindow seenAt hseen
      rw [configuredDuplicateWindow_seen pacedLimits window hwindow] at hseen
      cases hseen
  | orderRate =>
      intro cap hcap
      obtain rfl : 1 = cap := Option.some.inj hcap
      exact zero_lt_one
  | _ =>
      simp [Permits, PreTradeRiskEngine.rollTo, PreTradeRiskEngine.withCounters, pacedDesk, PreTradeRiskEngine.onDay,
        pacedLimits, one, OrderRequest.bare, OrderRequest.notionalUsd, OrderRequest.valuationPrice, OrderRequest.touch,
        Side.isSell, PreTradeRiskEngine.effectiveMaxOrderQuantity, PreTradeRiskEngine.effectiveMaxOrderNotional,
        Overrides.none]

def busyLimits : RiskLimits ℚ :=
  ⟨{ maxOrdersPerWindow := some 2, duplicateWindowMillis := some 1000 }, by decide +kernel⟩

def busyDesk : Desk ℚ := ⟨.onDay busyLimits false "2026-07-20", Store.empty⟩

def two : OrderRequest ℚ := .bare "ES" .buy 2

def three : OrderRequest ℚ := .bare "ES" .buy 3

def ask (n : ℤ) (request : OrderRequest ℚ) : List (Call ℚ) := [⟨n, .evaluate (fun _ => false) request⟩]

def trade (n : ℤ) (request : OrderRequest ℚ) : List (Call ℚ) := ask n request ++ [⟨n, .recordOrderSent request⟩]

/-- One order, refused again as a duplicate, and another one, after which the
rate is used up. -/
def busyStart : List (Call ℚ) := trade noon one ++ ask (noon + 400) one ++ trade (noon + 500) two

/-- A third is refused for the rate, and a second after it was first sent the
first order is sent once more. -/
def busyCalls : List (Call ℚ) := busyStart ++ ask (noon + 600) three ++ trade (noon + 1000) one

theorem new_busyDesk : PreTradeRiskEngine.new busyLimits false noon = .ok busyDesk.engine :=
  new_eq_ok.mpr ⟨_, tradingDay_noon, rfl⟩

theorem exists_runs_accepts {calls : List (Call ℚ)} {m : ℤ} {request : OrderRequest ℚ}
    (h : (calls.foldlM (fun d call => (Desk.perform d call).toOption) busyDesk).any (fun d =>
      (Verdicts.decision (fun _ => false) d.engine m request).toOption.any (·.accepted)) = true) :
    ∃ d, Runs busyDesk calls d ∧ Accepts (fun _ => false) d.engine m request := by
  obtain ⟨d, hrun, hd⟩ := exists_runs h
  exact ⟨d, hrun, accepts_of_decision hd⟩

theorem exists_runs_code {calls : List (Call ℚ)} {m : ℤ} {request : OrderRequest ℚ} {code : Decision.RejectCode}
    (h : (calls.foldlM (fun d call => (Desk.perform d call).toOption) busyDesk).any (fun d =>
      (Verdicts.decision (fun _ => false) d.engine m request).toOption.any fun decision =>
        decide (decision.code = some code)) = true) :
    ∃ d decision f, Runs busyDesk calls d ∧ evaluate (fun _ => false) d.engine m request = .ok (decision, f) ∧
      decision.code = some code := by
  obtain ⟨d, hrun, hd⟩ := exists_runs h
  obtain ⟨decision, f, hf, hcode⟩ := Verdicts.exists_decision_of_any hd
  exact ⟨d, decision, f, hrun, hf, of_decide_eq_true hcode⟩

theorem exists_runs_busyCalls : ∃ d, Runs busyDesk busyCalls d := by
  have h : (busyCalls.foldlM (fun d call => (Desk.perform d call).toOption) busyDesk).any (fun _ => true) = true := by
    decide +kernel
  obtain ⟨d, hrun, -⟩ := exists_runs h
  exact ⟨d, hrun⟩

theorem sendsAccepted_trade {calls : List (Call ℚ)} {n : ℤ} {request : OrderRequest ℚ}
    (hsends : SendsAccepted busyDesk calls)
    (h : (calls.foldlM (fun d call => (Desk.perform d call).toOption) busyDesk).any (fun d =>
      (Verdicts.decision (fun _ => false) d.engine n request).toOption.any (·.accepted)) = true) :
    SendsAccepted busyDesk (calls ++ trade n request) := by
  obtain ⟨d, hrun, haccepts⟩ := exists_runs_accepts h
  have := hsends.sent (n := n) hrun haccepts
  rwa [List.append_assoc] at this

theorem sendsAccepted_busyCalls : SendsAccepted busyDesk busyCalls := by
  have hfirst : SendsAccepted busyDesk (trade noon one) :=
    sendsAccepted_trade (sendsAccepted_nil busyDesk) (by decide +kernel)
  have hstart : SendsAccepted busyDesk busyStart := sendsAccepted_trade hfirst.evaluated (by decide +kernel)
  exact sendsAccepted_trade hstart.evaluated (by decide +kernel)

theorem nondecreasing_busyCalls : Nondecreasing Call.now noon busyCalls := by
  simp [Nondecreasing, busyCalls, busyStart, trade, ask]

end PretradeRisk.Sending
