import PretradeRisk.Rulings

namespace PretradeRisk.Disabling

open Decision Engine Evaluate Host Limits Orders Pruning Rulings Verdicts Walk Windows

inductive Switch
  | disable (controls : List ControlId)
  | enable (controls : List ControlId)

def Switch.names : Switch → List ControlId
  | .disable controls => controls
  | .enable controls => controls

def Switch.leaves (disabled : Finset ControlId) : Switch → Finset ControlId
  | .disable controls => disabled ∪ controls.toFinset
  | .enable controls => disabled \ controls.toFinset

/-- The last call that names a control disables it, or none names it and it
was disabled before. -/
def EndsDisabled (before : Prop) (chain : List Switch) (id : ControlId) : Prop :=
  (∃ front controls rest, chain = front ++ .disable controls :: rest ∧ id ∈ controls ∧
    ∀ s ∈ rest, id ∉ s.names) ∨ (∀ s ∈ chain, id ∉ s.names) ∧ before

def NamesLocked (chain : List Switch) : Prop :=
  ∃ controls, .disable controls ∈ chain ∧ ∃ id ∈ controls, id ∈ alwaysOn

theorem snoc_eq_append_cons {α : Type} {l front rest : List α} {a b : α} (h : l ++ [a] = front ++ b :: rest) :
    (rest = [] ∧ a = b) ∨ ∃ rest', rest = rest' ++ [a] ∧ l = front ++ b :: rest' := by
  rcases List.eq_nil_or_concat rest with rfl | ⟨rest', c, rfl⟩
  · obtain ⟨-, hlast⟩ := List.append_inj' h rfl
    exact .inl ⟨rfl, List.head_eq_of_cons_eq hlast⟩
  · rw [List.concat_eq_append, ← List.cons_append, ← List.append_assoc] at h
    obtain ⟨hfront, hlast⟩ := List.append_inj' h rfl
    rw [List.concat_eq_append, List.head_eq_of_cons_eq hlast]
    exact .inr ⟨rest', rfl, hfront⟩

theorem endsDisabled_snoc_of_not_mem {before : Prop} {chain : List Switch} {s : Switch} {id : ControlId}
    (h : id ∉ s.names) : EndsDisabled before (chain ++ [s]) id ↔ EndsDisabled before chain id := by
  have hsnoc {front : List Switch} (hall : ∀ t ∈ front, id ∉ t.names) : ∀ t ∈ front ++ [s], id ∉ t.names := by
    simpa [or_imp, forall_and] using ⟨hall, h⟩
  constructor
  · rintro (⟨front, controls, rest, heq, hid, hrest⟩ | ⟨hnone, hbefore⟩)
    · rcases snoc_eq_append_cons heq with ⟨-, rfl⟩ | ⟨rest', rfl, rfl⟩
      · exact absurd hid h
      · exact .inl ⟨front, controls, rest', rfl, hid, fun t ht => hrest t (List.mem_append_left _ ht)⟩
    · exact .inr ⟨fun t ht => hnone t (List.mem_append_left _ ht), hbefore⟩
  · rintro (⟨front, controls, rest, rfl, hid, hrest⟩ | ⟨hnone, hbefore⟩)
    · exact .inl ⟨front, controls, rest ++ [s], by simp, hid, hsnoc hrest⟩
    · exact .inr ⟨hsnoc hnone, hbefore⟩

theorem endsDisabled_snoc_disable {before : Prop} {chain : List Switch} {controls : List ControlId} {id : ControlId}
    (h : id ∈ controls) : EndsDisabled before (chain ++ [.disable controls]) id :=
  .inl ⟨chain, controls, [], rfl, h, by simp⟩

theorem not_endsDisabled_snoc_enable {before : Prop} {chain : List Switch} {controls : List ControlId}
    {id : ControlId} (h : id ∈ controls) : ¬ EndsDisabled before (chain ++ [.enable controls]) id := by
  rintro (⟨front, other, rest, heq, -, hrest⟩ | ⟨hnone, -⟩)
  · rcases snoc_eq_append_cons heq with ⟨-, heq⟩ | ⟨rest', rfl, -⟩
    · cases heq
    · exact hrest _ (List.mem_append_right _ List.mem_cons_self) h
  · exact hnone _ (List.mem_append_right _ List.mem_cons_self) h

theorem mem_leaves_iff {chain : List Switch} {disabled : Finset ControlId} {id : ControlId} :
    id ∈ chain.foldl Switch.leaves disabled ↔ EndsDisabled (id ∈ disabled) chain id := by
  induction chain using List.reverseRecOn with
  | nil => simp [EndsDisabled]
  | append_singleton chain s ih =>
      rw [List.foldl_append, List.foldl_cons, List.foldl_nil]
      by_cases hid : id ∈ s.names
      · cases s with
        | disable controls =>
            exact iff_of_true (Finset.mem_union_right _ (List.mem_toFinset.mpr hid)) (endsDisabled_snoc_disable hid)
        | enable controls =>
            refine iff_of_false (fun hmem => ?_) (not_endsDisabled_snoc_enable hid)
            exact (Finset.mem_sdiff.mp hmem).2 (List.mem_toFinset.mpr hid)
      · rw [endsDisabled_snoc_of_not_mem hid, ← ih]
        cases s with
        | disable controls => exact Finset.mem_union.trans (or_iff_left (mt List.mem_toFinset.mp hid))
        | enable controls => exact Finset.mem_sdiff.trans (and_iff_left (mt List.mem_toFinset.mp hid))

section Chains

variable {F : Type} [Zero F] [LE F] [DecidableLE F] [PyFloat F]

def Switch.apply (l : RiskLimits F) : Switch → Except PyError (RiskLimits F)
  | .disable controls => l.disable controls
  | .enable controls => l.enable controls

def switchAll (l : RiskLimits F) : List Switch → Except PyError (RiskLimits F)
  | [] => .ok l
  | s :: chain => do
      let l ← s.apply l
      switchAll l chain

variable {l l' : RiskLimits F} {s : Switch} {chain : List Switch}

theorem make_eq_ok {fields : LimitFields F} : RiskLimits.make fields = .ok l ↔ l.toLimitFields = fields := by
  rw [RiskLimits.make]
  split
  · next h =>
      rw [Except.ok.injEq]
      exact ⟨fun heq => heq ▸ rfl, fun heq => by cases l; cases heq; rfl⟩
  · next x h =>
      refine iff_of_false (fun heq => by cases heq) ?_
      rintro rfl
      rw [l.admitted] at h
      cases h

theorem exists_make_iff {fields : LimitFields F} : (∃ l, RiskLimits.make fields = .ok l) ↔ fields.Admissible := by
  rw [← postInit_eq_ok]
  refine ⟨fun ⟨l, h⟩ => make_eq_ok.mp h ▸ l.admitted, fun h => ⟨⟨fields, h⟩, make_eq_ok.mpr rfl⟩⟩

theorem apply_eq_make (l : RiskLimits F) (s : Switch) :
    s.apply l = RiskLimits.make { l.toLimitFields with disabledControls := s.leaves l.disabledControls } := by
  cases s <;> rfl

theorem admissible_leaves_iff : { l.toLimitFields with disabledControls := s.leaves l.disabledControls }.Admissible ↔
    ¬ NamesLocked [s] := by
  have hl := l.admissible
  have hiff : { l.toLimitFields with disabledControls := s.leaves l.disabledControls }.Admissible ↔
      Disjoint (s.leaves l.disabledControls) alwaysOn :=
    ⟨fun h => h.disabled, fun h => ⟨hl.amounts, hl.counts, hl.orderRateWindow, hl.sessionRoll, h⟩⟩
  rw [hiff]
  cases s with
  | disable controls =>
      have hadded : Disjoint controls.toFinset alwaysOn ↔ ∀ id ∈ controls, id ∉ alwaysOn := by
        simp [Finset.disjoint_left]
      rw [Switch.leaves, Finset.disjoint_union_left, hadded]
      simp [hl.disabled, NamesLocked]
  | enable controls =>
      refine iff_of_true (hl.disabled.mono_left Finset.sdiff_subset) ?_
      rintro ⟨controls, hmem, -⟩
      cases List.mem_singleton.mp hmem

theorem namesLocked_cons : NamesLocked (s :: chain) ↔ NamesLocked [s] ∨ NamesLocked chain := by
  simp only [NamesLocked, List.mem_cons, List.not_mem_nil, or_false, or_and_right, exists_or]

theorem switchAll_eq_ok (h : switchAll l chain = .ok l') :
    ¬ NamesLocked chain ∧
      l'.toLimitFields = { l.toLimitFields with disabledControls := chain.foldl Switch.leaves l.disabledControls } := by
  induction chain generalizing l with
  | nil =>
      cases h
      exact ⟨fun ⟨_, hmem, _⟩ => List.not_mem_nil hmem, rfl⟩
  | cons s chain ih =>
      rw [switchAll, bind_eq_ok] at h
      obtain ⟨m, hm, h⟩ := h
      obtain ⟨hnot, hfields⟩ := ih h
      rw [apply_eq_make] at hm
      have hfirst : ¬ NamesLocked [s] := admissible_leaves_iff.mp (exists_make_iff.mp ⟨m, hm⟩)
      rw [make_eq_ok] at hm
      refine ⟨fun hl => (namesLocked_cons.mp hl).elim hfirst hnot, ?_⟩
      rw [hfields, hm]
      rfl

theorem exists_switchAll (h : ¬ NamesLocked chain) : ∃ l', switchAll l chain = .ok l' := by
  induction chain generalizing l with
  | nil => exact ⟨l, rfl⟩
  | cons s chain ih =>
      rw [namesLocked_cons, not_or] at h
      obtain ⟨m, hm⟩ := exists_make_iff.mpr (admissible_leaves_iff (l := l).mpr h.1)
      obtain ⟨l', hl'⟩ := ih (l := m) h.2
      refine ⟨l', bind_eq_ok.mpr ⟨m, ?_, hl'⟩⟩
      rwa [apply_eq_make]

theorem switchAll_raises_iff : (∃ x, switchAll l chain = .error x) ↔ NamesLocked chain := by
  constructor
  · rintro ⟨x, hx⟩
    by_contra hnot
    obtain ⟨l', hl'⟩ := exists_switchAll (l := l) hnot
    rw [hl'] at hx
    cases hx
  · intro h
    cases hres : switchAll l chain with
    | error x => exact ⟨x, rfl⟩
    | ok l' => exact absurd h (switchAll_eq_ok hres).1

theorem isDisabled_switchAll_iff (h : switchAll l chain = .ok l') (id : ControlId) :
    l'.isDisabled id = true ↔ EndsDisabled (l.isDisabled id = true) chain id := by
  obtain ⟨hlocked, hfields⟩ := switchAll_eq_ok h
  have hmem : id ∈ l'.disabledControls ↔ EndsDisabled (id ∈ l.disabledControls) chain id := by
    rw [hfields]
    exact mem_leaves_iff
  rw [RiskLimits.isDisabled, RiskLimits.isDisabled]
  by_cases hid : id ∈ alwaysOn
  · rw [if_pos hid, if_pos hid]
    refine iff_of_false Bool.false_ne_true ?_
    rintro (⟨front, controls, rest, rfl, hin, -⟩ | ⟨-, hbefore⟩)
    · exact hlocked ⟨controls, List.mem_append_right _ List.mem_cons_self, id, hin, hid⟩
    · exact Bool.false_ne_true hbefore
  · rw [if_neg hid, if_neg hid, decide_eq_true_eq, decide_eq_true_eq]
    exact hmem

end Chains

section Decisions

variable {F : Type} [Zero F] [One F] [Neg F] [Add F] [Sub F] [Mul F] [Div F] [IntCast F] [LE F] [LT F]
  [DecidableLE F] [DecidableLT F] [PyFloat F]

structure SameState (e e' : PreTradeRiskEngine F) : Prop where
  isLive : e'.isLive = e.isLive
  counters : e'.counters = e.counters
  rateWindow : e'.rateWindow = e.rateWindow
  duplicateWindow : e'.duplicateWindow = e.duplicateWindow
  overrides : e'.overrides = e.overrides

variable {files : Files} {now : ℤ} {r : OrderRequest F} {e e' : PreTradeRiskEngine F} {day : String}

omit [One F] [Neg F] [Add F] [Sub F] [Mul F] [Div F] [IntCast F] [LT F] [DecidableLT F] in
theorem sameReadings_rollTo (h : SameState e e')
    (hlimits : ∃ disabledControls, e'.limits.toLimitFields = { e.limits.toLimitFields with disabledControls }) :
    SameReadings now (e.rollTo day) (e'.rollTo day) where
  limits := hlimits
  isLive := h.isLive
  counters := congrArg (Counters.roll · day) h.counters
  overrides := h.overrides
  rateWindow := congrArg (RateWindow.prune · now) h.rateWindow
  duplicateWindow := congrArg (Option.map (DuplicateWindow.prune · now)) h.duplicateWindow

/-- The decision under limits that differ in what they disable: the first
objection among the controls configured and not disabled. -/
theorem decision_switched (h : SameState e e')
    (hlimits : ∃ disabledControls, e'.limits.toLimitFields = { e.limits.toLimitFields with disabledControls })
    (hday : e.today now = .ok day) :
    decision files e' now r =
      (firstVerdict ((controlSequence.filter fun c => c.isArmed e && !e'.limits.isDisabled c.id).map
        (verdict files (e.rollTo day) now r))).map (·.getD accepted) := by
  have hreadings : SameReadings now (e.rollTo day) (e'.rollTo day) := sameReadings_rollTo h hlimits
  have hday' : e'.today now = .ok day := by
    obtain ⟨disabledControls, hlimits⟩ := hlimits
    rw [PreTradeRiskEngine.today, hlimits]
    exact hday
  have hfilter : controlSequence.filter (runs (e'.rollTo day)) =
      controlSequence.filter fun c => c.isArmed e && !e'.limits.isDisabled c.id := by
    refine List.filter_congr fun c hc => ?_
    rw [runs, isArmed_of_sameReadings hreadings c hc, isArmed_rollTo e day c hc, Bool.and_comm]
    rfl
  rw [decision_of_today hday', runningSequence, hfilter]
  congr 2
  exact List.map_congr_left fun c hc => verdict_congr hreadings c (List.mem_filter.mp hc).1

/-- An objection, with the controls asked before it and those left. -/
structure ObjectsFirst (files : Files) (e : PreTradeRiskEngine F) (now : ℤ) (r : OrderRequest F)
    (day : String) (d : RiskDecision F) (before : List (Control F)) (c : Control F) (after : List (Control F)) :
    Prop where
  sequence : controlSequence = before ++ c :: after
  running : runs e c = true
  verdict : verdict files (e.rollTo day) now r c = .ok (some d)
  before : ∀ b ∈ before, runs e b = true → Verdicts.verdict files (e.rollTo day) now r b = .ok none

variable {d : RiskDecision F} {before after : List (Control F)} {c : Control F} {controls : List ControlId}

theorem objectsFirst_of_rejection (hday : e.today now = .ok day) (h : decision files e now r = .ok d)
    (hd : d ≠ accepted) : ∃ before c after, ObjectsFirst files e now r day d before c after := by
  have hruns {b : Control F} (hb : b ∈ controlSequence) : runs (e.rollTo day) b = runs e b := runs_rollTo e day hb
  rw [decision_of_today hday, runningSequence] at h
  rcases firstVerdict_cases (runs (e.rollTo day)) (verdict files (e.rollTo day) now r) controlSequence with
    hall | ⟨before, c, after, hseq, hr, hends, hbefore⟩
  · rw [firstVerdict_of_pass hall] at h
    cases h
    exact absurd rfl hd
  · have hmem {b : Control F} (hb : b ∈ before ++ c :: after) : b ∈ controlSequence := hseq ▸ hb
    rw [hseq, firstVerdict_of_ends hr hends hbefore] at h
    refine ⟨before, c, after, hseq, (hruns (hmem (by simp))).symm.trans hr, ?_, fun b hb hb' => ?_⟩
    · rcases hv : verdict files (e.rollTo day) now r c with x | _ | d'
      · rw [hv] at h; cases h
      · rw [hv] at hends; cases hends
      · rw [hv] at h; cases h; rfl
    · exact hbefore b hb ((hruns (hmem (List.mem_append_left _ hb))).trans hb')

omit [One F] [Neg F] [Add F] [Sub F] [Mul F] [Div F] [IntCast F] [LT F] [DecidableLT F] in
theorem isDisabled_disable {l l' : RiskLimits F} (h : l.disable controls = .ok l') (id : ControlId) :
    l'.isDisabled id = true ↔ l.isDisabled id = true ∨ id ∈ controls := by
  have hchain : switchAll l [.disable controls] = .ok l' := by
    rw [switchAll, bind_eq_ok]
    exact ⟨l', h, rfl⟩
  rw [isDisabled_switchAll_iff hchain]
  rw [← List.nil_append [Switch.disable controls]]
  by_cases hid : id ∈ controls
  · exact iff_of_true (endsDisabled_snoc_disable hid) (.inr hid)
  · rw [endsDisabled_snoc_of_not_mem hid]
    simp [EndsDisabled, hid]

omit [One F] [Neg F] [Add F] [Sub F] [Mul F] [Div F] [IntCast F] [LT F] [DecidableLT F] in
theorem fields_disable {l l' : RiskLimits F} (h : l.disable controls = .ok l') :
    ∃ disabledControls, l'.toLimitFields = { l.toLimitFields with disabledControls } :=
  ⟨_, make_eq_ok.mp h⟩

omit [One F] [Neg F] [Add F] [Sub F] [Mul F] [Div F] [IntCast F] [LT F] [DecidableLT F] in
theorem running_after_disable (h : e.limits.disable controls = .ok e'.limits) :
    (c.isArmed e && !e'.limits.isDisabled c.id) = true ↔ runs e c = true ∧ c.id ∉ controls := by
  have hiff := isDisabled_disable h c.id
  rw [runs, Bool.and_eq_true, Bool.and_eq_true, Bool.not_eq_true', Bool.not_eq_true', ← Bool.not_eq_true, hiff,
    not_or, Bool.not_eq_true]
  tauto

theorem accepted_after_disable (hs : SameState e e') (h : e.limits.disable controls = .ok e'.limits)
    (hday : e.today now = .ok day) (hd : decision files e now r = .ok accepted) :
    decision files e' now r = .ok accepted := by
  have hall := (decision_eq_accepted_iff hday).mp hd
  rw [decision_switched hs (fields_disable h) hday, firstVerdict_of_pass]
  · rfl
  · intro c hc hruns
    obtain ⟨hruns, -⟩ := (running_after_disable h).mp hruns
    have harmed : c.isArmed (e.rollTo day) = true := by
      rw [isArmed_rollTo e day c hc]
      exact isArmed_of_runs hruns
    exact (verdict_eq_pass_iff hc harmed).mpr (hall c hc hruns)

theorem ObjectsFirst.decision_of_not_mem (ho : ObjectsFirst files e now r day d before c after) (hs : SameState e e')
    (h : e.limits.disable controls = .ok e'.limits) (hday : e.today now = .ok day) (hc : c.id ∉ controls) :
    decision files e' now r = .ok d := by
  rw [decision_switched hs (fields_disable h) hday, ho.sequence, firstVerdict_of_ends, ho.verdict]
  · rfl
  · exact (running_after_disable h).mpr ⟨ho.running, hc⟩
  · rw [ho.verdict]; rfl
  · exact fun b hb hruns => ho.before b hb ((running_after_disable h).mp hruns).1

theorem ObjectsFirst.decision_of_disabled (ho : ObjectsFirst files e now r day d before c after)
    (hs : SameState e e') (h : e.limits.disable [c.id] = .ok e'.limits) (hday : e.today now = .ok day) :
    decision files e' now r =
      (firstVerdict ((after.filter (runs e)).map (Verdicts.verdict files (e.rollTo day) now r))).map
        (·.getD accepted) := by
  have hnot : ∀ b ∈ after, b.id ≠ c.id := by
    have hnodup := controlSequence_nodup (F := F)
    rw [ho.sequence, List.map_append, List.map_cons] at hnodup
    have hhead := (List.nodup_cons.mp (List.nodup_append.mp hnodup).2.1).1
    exact fun b hb heq => hhead (heq ▸ List.mem_map_of_mem hb)
  have hafter : (after.filter fun b => b.isArmed e && !e'.limits.isDisabled b.id) = after.filter (runs e) := by
    refine List.filter_congr fun b hb => ?_
    rw [Bool.eq_iff_iff, running_after_disable h]
    exact and_iff_left (mt List.mem_singleton.mp (hnot b hb))
  have hskip : ¬ (c.isArmed e && !e'.limits.isDisabled c.id) = true :=
    fun hruns => ((running_after_disable h).mp hruns).2 (List.mem_singleton_self _)
  rw [decision_switched hs (fields_disable h) hday, ho.sequence, List.filter_append, List.map_append,
    List.filter_cons, if_neg hskip, hafter, firstVerdict_append_of_pass]
  intro v hv
  obtain ⟨b, hb, rfl⟩ := List.mem_map.mp hv
  obtain ⟨hb, hruns⟩ := List.mem_filter.mp hb
  exact ho.before b hb ((running_after_disable h).mp hruns).1

end Decisions

section Views

variable {F : Type} [Zero F] [One F] [Neg F] [Add F] [Sub F] [Mul F] [Div F] [IntCast F] [LE F] [LT F]
  [DecidableLE F] [DecidableLT F] [PyFloat F]

/-- The controls an evaluation asks. -/
def consultedSequence (files : Files) (e : PreTradeRiskEngine F) (now : ℤ) (r : OrderRequest F) : List (Control F) :=
  match e.rollTradingDay now with
  | .error _ => []
  | .ok e => asked runs (fun c e => c.check files e r now) controlSequence e

def consulted (files : Files) (e : PreTradeRiskEngine F) (now : ℤ) (r : OrderRequest F) : List ControlId :=
  (consultedSequence files e now r).map Control.id

def unconfiguredControls (e : PreTradeRiskEngine F) : List ControlId :=
  ((controlStatus e).filter fun status => !status.configured).map ControlStatus.id

variable {files : Files} {now : ℤ} {r : OrderRequest F} {e : PreTradeRiskEngine F} {day : String}

theorem runningControls_eq_status (e : PreTradeRiskEngine F) :
    runningControls e = ((controlStatus e).filter ControlStatus.running).map ControlStatus.id := by
  rw [runningControls, controlStatus, List.filter_map, List.map_map]
  refine congrArg _ (List.filter_congr fun c _ => ?_)
  exact Bool.and_comm _ _

theorem runningControls_rollTo (e : PreTradeRiskEngine F) (day : String) :
    runningControls (e.rollTo day) = runningControls e :=
  congrArg (List.map Control.id) (List.filter_congr fun _ hc => runs_rollTo e day hc)

theorem consultedSequence_of_today (hday : e.today now = .ok day) : consultedSequence files e now r =
    asked runs (fun c e => c.check files e r now) controlSequence (e.rollTo day) := by
  rw [consultedSequence, PreTradeRiskEngine.rollTradingDay, hday]
  rfl

theorem decision_of_consulted (hday : e.today now = .ok day) : decision files e now r =
    (firstVerdict ((consultedSequence files e now r).map (verdict files (e.rollTo day) now r))).map (·.getD accepted) := by
  have hsteady := controlSequence_steady files now r (e.rollTo day)
  have hasked := (firstVerdict_asked hsteady (.refl now _)).trans (firstObjection_eq_firstVerdict hsteady (.refl now _))
  rw [decision_of_today hday, consultedSequence_of_today hday]
  exact congrArg (Except.map (·.getD accepted)) hasked.symm

theorem consulted_prefix_running (files : Files) (e : PreTradeRiskEngine F) (now : ℤ) (r : OrderRequest F) :
    consulted files e now r <+: runningControls e := by
  cases hday : e.today now with
  | error x =>
      rw [consulted, consultedSequence, PreTradeRiskEngine.rollTradingDay, hday]
      exact List.nil_prefix
  | ok day =>
      rw [consulted, consultedSequence_of_today hday, ← runningControls_rollTo e day]
      exact (asked_prefix_running (controlSequence_steady files now r (e.rollTo day)) (.refl now _)).map Control.id

theorem consulted_of_accepted (h : decision files e now r = .ok accepted) :
    consulted files e now r = runningControls e := by
  cases hday : e.today now with
  | error x => rw [decision_of_not_today hday] at h; cases h
  | ok day =>
      have hsteady := controlSequence_steady files now r (e.rollTo day)
      have hpass : (firstObjection runs (fun c e => c.check files e r now) controlSequence (e.rollTo day)).map
          Prod.fst = .ok none := by
        rw [firstObjection_eq_firstVerdict hsteady (.refl now _)]
        refine firstVerdict_of_pass fun c hc hr => ?_
        rw [runs_rollTo e day hc] at hr
        have harmed : c.isArmed (e.rollTo day) = true := by
          rw [isArmed_rollTo e day c hc]
          exact isArmed_of_runs hr
        exact (verdict_eq_pass_iff hc harmed).mpr ((decision_eq_accepted_iff hday).mp h c hc hr)
      rw [consulted, consultedSequence_of_today hday, ← runningControls_rollTo e day]
      exact congrArg (List.map Control.id) (asked_of_pass hsteady (.refl now _) hpass)

theorem ObjectsFirst.consulted {d : RiskDecision F} {before after : List (Control F)} {c : Control F}
    (ho : ObjectsFirst files e now r day d before c after) (hday : e.today now = .ok day) :
    consulted files e now r = (before.filter (runs e)).map Control.id ++ [c.id] := by
  have hmem {b : Control F} (hb : b ∈ before ++ c :: after) : runs (e.rollTo day) b = runs e b :=
    runs_rollTo e day (ho.sequence ▸ hb)
  have hsteady := controlSequence_steady files now r (e.rollTo day)
  rw [ho.sequence] at hsteady
  have hends : ends (Verdicts.verdict files (e.rollTo day) now r c) = true := by rw [ho.verdict]; rfl
  have hfilter : before.filter (runs (e.rollTo day)) = before.filter (runs e) :=
    List.filter_congr fun b hb => hmem (List.mem_append_left _ hb)
  rw [Disabling.consulted, consultedSequence_of_today hday, ho.sequence]
  rw [asked_of_ends hsteady (.refl now _) ((hmem (by simp)).trans ho.running) hends, hfilter]
  · simp
  · exact fun b hb hr => ho.before b hb ((hmem (List.mem_append_left _ hb)).symm.trans hr)

theorem controls_partition (e : PreTradeRiskEngine F) :
    (runningControls e ++ stoodDownControls e ++ unconfiguredControls e).Perm
      (controlSequence.map (Control.id (F := F))) := by
  have hunconfigured : unconfiguredControls e =
      ((controlSequence.filter fun c => !c.isArmed e).map (Control.id (F := F))) := by
    rw [unconfiguredControls, controlStatus, List.filter_map, List.map_map]
    rfl
  have hstood : stoodDownControls e =
      ((controlSequence.filter (Control.isArmed · e)).filter fun c => !runs e c).map (Control.id (F := F)) := by
    rw [stoodDownControls, List.filter_filter]
    refine congrArg _ (List.filter_congr fun c _ => ?_)
    cases hd : e.limits.isDisabled c.id <;> cases ha : c.isArmed e <;> simp [runs, hd, ha]
  have hrunning : runningControls e =
      ((controlSequence.filter (Control.isArmed · e)).filter (runs e)).map (Control.id (F := F)) := by
    rw [runningControls, List.filter_filter]
    refine congrArg _ (List.filter_congr fun c _ => ?_)
    cases hd : e.limits.isDisabled c.id <;> cases ha : c.isArmed e <;> simp [runs, hd, ha]
  rw [hrunning, hstood, hunconfigured, ← List.map_append, ← List.map_append]
  refine List.Perm.map _ (.trans (List.Perm.append_right _ ?_) (List.filter_append_perm _ _))
  exact List.filter_append_perm _ _

/-- Disabling takes away the objections of the controls it names and nothing
else, and the views agree on what is left. -/
theorem disabling_removes_named (l : RiskLimits F) (chain : List Switch) :
    ((∃ x, switchAll l chain = .error x) ↔ NamesLocked chain) ∧
    (∀ l', switchAll l chain = .ok l' →
      (∃ disabledControls, l'.toLimitFields = { l.toLimitFields with disabledControls }) ∧
      (∀ id, l'.isDisabled id = true ↔ EndsDisabled (l.isDisabled id = true) chain id) ∧
      ∀ e e' files now r day, e.limits = l → e'.limits = l' → SameState e e' → e.today now = .ok day →
        decision files e' now r =
          (firstVerdict ((controlSequence.filter fun c => c.isArmed e && !l'.isDisabled c.id).map
            (verdict files (e.rollTo day) now r))).map (·.getD accepted)) ∧
    (∀ e e' controls files now r day, e.limits = l → l.disable controls = .ok e'.limits → SameState e e' →
      e.today now = .ok day →
      (decision files e now r = .ok accepted → decision files e' now r = .ok accepted) ∧
      ∀ d, decision files e now r = .ok d → d ≠ accepted →
        ∃ before c after, ObjectsFirst files e now r day d before c after ∧
          consulted files e now r = (before.filter (runs e)).map Control.id ++ [c.id] ∧
          (c.id ∉ controls → decision files e' now r = .ok d) ∧
          (controls = [c.id] → decision files e' now r =
            (firstVerdict ((after.filter (runs e)).map (verdict files (e.rollTo day) now r))).map
              (·.getD accepted))) ∧
    ∀ e : PreTradeRiskEngine F, e.limits = l →
      runningControls e = ((controlStatus e).filter ControlStatus.running).map ControlStatus.id ∧
      (∀ files now r day, e.today now = .ok day → decision files e now r =
        (firstVerdict ((consultedSequence files e now r).map (verdict files (e.rollTo day) now r))).map
          (·.getD accepted)) ∧
      (∀ files now r, consulted files e now r <+: runningControls e) ∧
      (∀ files now r, decision files e now r = .ok accepted → consulted files e now r = runningControls e) ∧
      (runningControls e ++ stoodDownControls e ++ unconfiguredControls e).Perm
        (controlSequence.map (Control.id (F := F))) ∧
      (controlSequence.map (Control.id (F := F))).Nodup := by
  refine ⟨switchAll_raises_iff, fun l' h => ⟨⟨_, (switchAll_eq_ok h).2⟩, isDisabled_switchAll_iff h, ?_⟩, ?_, ?_⟩
  · rintro e e' files now r day rfl rfl hs hday
    exact decision_switched hs ⟨_, (switchAll_eq_ok h).2⟩ hday
  · rintro e e' controls files now r day rfl h hs hday
    refine ⟨accepted_after_disable hs h hday, fun d hd hrejected => ?_⟩
    obtain ⟨before, c, after, ho⟩ := objectsFirst_of_rejection hday hd hrejected
    refine ⟨before, c, after, ho, ho.consulted hday, ho.decision_of_not_mem hs h hday, ?_⟩
    rintro rfl
    exact ho.decision_of_disabled hs h hday
  · rintro e -
    exact ⟨runningControls_eq_status e, fun _ _ _ _ => decision_of_consulted, fun files => consulted_prefix_running files e,
      fun _ _ _ => consulted_of_accepted, controls_partition e, controlSequence_nodup⟩

end Views

end PretradeRisk.Disabling
