import PretradeRisk.Session

namespace PretradeRisk.Bypass

open Controls Encoding Engine Host Run Session Store

/-- One turn of the world: a call hands its batch to the store, one entry of
a batch lands, a batch is cut short, an engine works on values it read, or a
refresh starts, reads one key or ends. -/
inductive Act
  | command (now : ℤ) (call : OverrideCall ℚ)
  | resetDailyLossLimit
  | persist (engine : ℕ)
  | write (batch : ℕ)
  | crash (batch : ℕ)
  | engine (engine : ℕ) (now : ℤ) (op : Op ℚ)
  | beginRefresh (engine : ℕ)
  | readKey (refresh : ℕ)
  | finishRefresh (refresh : ℕ)

/-- A `refresh_overrides` under way: the keys still to read, and the values
read so far. -/
structure Refresh where
  engine : ℕ
  remaining : List Key
  read : StateStore

section World

variable [PyFloat ℚ]

structure World where
  store : StateStore
  engines : ℕ → PreTradeRiskEngine ℚ
  inFlight : List Entries
  refreshing : List Refresh

inductive WorldStep (w : World) : Act → World → Prop
  | command {n : ℤ} {call : OverrideCall ℚ} {entries : Entries} (h : call.entries n = .ok entries) :
      WorldStep w (.command n call) { w with inFlight := w.inFlight ++ [entries] }
  | refused {n : ℤ} {call : OverrideCall ℚ} {x : PyError} (h : call.entries n = .error x) :
      WorldStep w (.command n call) w
  | resetDailyLossLimit :
      WorldStep w .resetDailyLossLimit { w with inFlight := w.inFlight ++ [Controls.resetDailyLossLimit ℚ] }
  | persist {i : ℕ} :
      WorldStep w (.persist i) { w with inFlight := w.inFlight ++ [(w.engines i).snapshot] }
  | write {i : ℕ} {entry : Key × String} {rest : Entries} (h : w.inFlight[i]? = some (entry :: rest)) :
      WorldStep w (.write i)
        { w with store := set w.store entry.1 entry.2, inFlight := w.inFlight.set i rest }
  | crash {i : ℕ} : WorldStep w (.crash i) { w with inFlight := w.inFlight.set i [] }
  | engine {i : ℕ} {n : ℤ} {op : Op ℚ} {read : StateStore} {d : Desk ℚ} (hop : op ≠ .refreshOverrides)
      (h : Desk.perform ⟨w.engines i, read⟩ ⟨n, op⟩ = .ok d) :
      WorldStep w (.engine i n op) { w with engines := Function.update w.engines i d.engine }
  | beginRefresh {i : ℕ} :
      WorldStep w (.beginRefresh i) { w with refreshing := w.refreshing ++ [⟨i, refreshKeys, empty⟩] }
  | readKey {j i : ℕ} {key : Key} {keys : List Key} {read : StateStore}
      (h : w.refreshing[j]? = some ⟨i, key :: keys, read⟩) :
      WorldStep w (.readKey j)
        { w with refreshing := w.refreshing.set j ⟨i, keys, Function.update read key (w.store key)⟩ }
  | finishRefresh {j i : ℕ} {read : StateStore} (h : w.refreshing[j]? = some ⟨i, [], read⟩) :
      WorldStep w (.finishRefresh j)
        { w with
          engines := Function.update w.engines i ((w.engines i).withOverrides (.decode read))
          refreshing := w.refreshing.eraseIdx j }

def Granted (acts : List Act) (x : ℚ) : Prop :=
  ∃ n durationMillis actor reason, Act.command n (.bypassLossLimit durationMillis actor reason) ∈ acts ∧
    BypassAdmitted durationMillis actor reason ∧ x = ((n + durationMillis : ℤ) : ℚ)

def Accounted (acts : List Act) (raw : Option String) : Prop :=
  ∀ x : ℚ, decodeFloat raw = some x → Granted acts x

/-- Every expiry anywhere is accounted for: in the store, in a batch still
landing, in a refresh half done, and in an engine's cache. -/
structure Authorised (acts : List Act) (w : World) : Prop where
  store : Accounted acts (w.store .lossLimitBypassExpiresAt)
  inFlight : ∀ batch ∈ w.inFlight, ∀ value, (.lossLimitBypassExpiresAt, value) ∈ batch →
    Accounted acts (some value)
  refreshing : ∀ refresh ∈ w.refreshing, Accounted acts (refresh.read .lossLimitBypassExpiresAt)
  engines : ∀ i x, (w.engines i).overrides.bypassExpiresAt = some x → Granted acts x

variable {acts : List Act} {act : Act} {w w' : World} {batch : Entries}

omit [PyFloat ℚ] in
theorem Granted.snoc {x : ℚ} (h : Granted acts x) : Granted (acts ++ [act]) x := by
  obtain ⟨n, dur, actor, reason, hmem, h⟩ := h
  exact ⟨n, dur, actor, reason, List.mem_append_left _ hmem, h⟩

theorem Accounted.snoc {raw : Option String} (h : Accounted acts raw) : Accounted (acts ++ [act]) raw :=
  fun x hx => (h x hx).snoc

theorem Authorised.snoc (h : Authorised acts w) : Authorised (acts ++ [act]) w :=
  ⟨h.store.snoc, fun b hb v hv => (h.inFlight b hb v hv).snoc, fun r hr => (h.refreshing r hr).snoc,
    fun i x hx => (h.engines i x hx).snoc⟩

theorem Authorised.push (h : Authorised acts w)
    (hbatch : ∀ value, (.lossLimitBypassExpiresAt, value) ∈ batch → Accounted acts (some value)) :
    Authorised acts { w with inFlight := w.inFlight ++ [batch] } := by
  refine ⟨h.store, fun b hb v hv => ?_, h.refreshing, h.engines⟩
  rcases List.mem_append.mp hb with hb | hb
  · exact h.inFlight b hb v hv
  · obtain rfl := List.mem_singleton.mp hb
    exact hbatch v hv

theorem Authorised.shorten {i : ℕ} {rest : Entries} (h : Authorised acts w)
    (hrest : ∀ b, w.inFlight[i]? = some b → rest ⊆ b) :
    Authorised acts { w with inFlight := w.inFlight.set i rest } := by
  refine ⟨h.store, fun b hb v hv => ?_, h.refreshing, h.engines⟩
  by_cases hi : i < w.inFlight.length
  · rcases List.mem_or_eq_of_mem_set hb with hb | rfl
    · exact h.inFlight b hb v hv
    · exact h.inFlight _ (List.getElem_mem hi) v (hrest _ (List.getElem?_eq_getElem hi) hv)
  · rw [List.set_eq_of_length_le (not_lt.mp hi)] at hb
    exact h.inFlight b hb v hv

theorem Authorised.withStore {s : StateStore} (h : Authorised acts w)
    (hs : Accounted acts (s .lossLimitBypassExpiresAt)) : Authorised acts { w with store := s } :=
  ⟨hs, h.inFlight, h.refreshing, h.engines⟩

theorem Authorised.withEngine {i : ℕ} {e : PreTradeRiskEngine ℚ} (h : Authorised acts w)
    (he : ∀ x, e.overrides.bypassExpiresAt = some x → Granted acts x) :
    Authorised acts { w with engines := Function.update w.engines i e } := by
  refine ⟨h.store, h.inFlight, h.refreshing, fun j x hx => ?_⟩
  by_cases hj : j = i
  · subst hj
    exact he x (by simpa using hx)
  · exact h.engines j x (by simpa [Function.update_of_ne hj] using hx)

theorem Authorised.withRefreshing {refreshing : List Refresh} (h : Authorised acts w)
    (hr : ∀ refresh ∈ refreshing, Accounted acts (refresh.read .lossLimitBypassExpiresAt)) :
    Authorised acts { w with refreshing } :=
  ⟨h.store, h.inFlight, hr, h.engines⟩

theorem accounted_of_entries {n : ℤ} {call : OverrideCall ℚ} {entries : Entries}
    (h : call.entries n = .ok entries)
    (hround : ∀ durationMillis actor reason, call = .bypassLossLimit durationMillis actor reason →
      BypassAdmitted durationMillis actor reason → RoundTrips ((n + durationMillis : ℤ) : ℚ)) :
    ∀ value, (.lossLimitBypassExpiresAt, value) ∈ entries →
      Accounted (acts ++ [.command n call]) (some value) := by
  intro value hvalue x hx
  cases call with
  | bypassLossLimit dur actor reason =>
      obtain ⟨_, hb, rfl⟩ := map_eq_ok.mp h
      obtain ⟨hadmitted, -, _, hentries⟩ := bypassLossLimit_eq_ok hb
      rw [hentries] at hvalue
      simp only [List.mem_cons, Prod.mk.injEq, reduceCtorEq, false_and, true_and, false_or, or_false,
        List.not_mem_nil] at hvalue
      subst hvalue
      rw [hround dur actor reason rfl hadmitted] at hx
      exact ⟨n, dur, actor, reason, List.mem_append_right _ (List.mem_singleton_self _), hadmitted,
        (Option.some.inj hx).symm⟩
  | clearLossLimitBypass actor =>
      obtain ⟨-, _, rfl⟩ := clearLossLimitBypass_eq_ok h
      simp only [List.mem_cons, Prod.mk.injEq, reduceCtorEq, false_and, true_and, false_or, or_false,
        List.not_mem_nil] at hvalue
      subst hvalue
      cases hx
  | setRuntimeMaxOrderNotional value =>
      cases h
      simp [Controls.setRuntimeMaxOrderNotional] at hvalue
  | setRuntimeMaxOrderQuantity value =>
      cases h
      simp [Controls.setRuntimeMaxOrderQuantity] at hvalue

theorem authorised_step (h : Authorised acts w) (hstep : WorldStep w act w')
    (hround : ∀ n durationMillis actor reason,
      act = .command n (.bypassLossLimit durationMillis actor reason) →
        BypassAdmitted durationMillis actor reason → RoundTrips ((n + durationMillis : ℤ) : ℚ)) :
    Authorised (acts ++ [act]) w' := by
  cases hstep with
  | @command n call entries hentries =>
      refine h.snoc.push (accounted_of_entries hentries fun dur actor reason hcall => ?_)
      exact hround n dur actor reason (by rw [hcall])
  | refused => exact h.snoc
  | resetDailyLossLimit => exact h.snoc.push (by simp [Controls.resetDailyLossLimit])
  | persist => exact h.snoc.push (by simp [PreTradeRiskEngine.snapshot, Counters.snapshot])
  | @write i entry rest hentry =>
      have hmem := List.mem_of_getElem? hentry
      have hrest : Authorised (acts ++ [.write i]) { w with inFlight := w.inFlight.set i rest } :=
        h.snoc.shorten fun b hb => Option.some.inj (hentry.symm.trans hb) ▸ List.subset_cons_self _ _
      refine hrest.withStore ?_
      by_cases hkey : entry.1 = .lossLimitBypassExpiresAt
      · rw [Store.set, hkey, Function.update_self]
        refine h.snoc.inFlight _ hmem _ ?_
        rw [← hkey]
        exact List.mem_cons_self
      · rw [Store.set, Function.update_of_ne (Ne.symm hkey)]
        exact h.snoc.store
  | crash => exact h.snoc.shorten fun b _ => List.nil_subset b
  | @engine i n op read d hop hd =>
      refine h.snoc.withEngine fun x hx => h.snoc.engines i x ?_
      rwa [perform_overrides hop hd] at hx
  | beginRefresh =>
      refine h.snoc.withRefreshing fun r hr => ?_
      rcases List.mem_append.mp hr with hr | hr
      · exact h.snoc.refreshing r hr
      · obtain rfl := List.mem_singleton.mp hr
        exact fun x hx => (by cases hx)
  | @readKey j i key keys read hr =>
      refine h.snoc.withRefreshing fun r hmem => ?_
      rcases List.mem_or_eq_of_mem_set hmem with hmem | rfl
      · exact h.snoc.refreshing r hmem
      · by_cases hkey : key = .lossLimitBypassExpiresAt
        · subst hkey
          simpa using h.snoc.store
        · simpa [Function.update_of_ne (Ne.symm hkey)] using h.snoc.refreshing _ (List.mem_of_getElem? hr)
  | @finishRefresh j i read hr =>
      have hrest : ∀ r ∈ w.refreshing.eraseIdx j,
          Accounted (acts ++ [.finishRefresh j]) (r.read .lossLimitBypassExpiresAt) :=
        fun r hmem => h.snoc.refreshing r (List.mem_of_mem_eraseIdx hmem)
      exact (h.snoc.withRefreshing hrest).withEngine fun x hx =>
        h.snoc.refreshing _ (List.mem_of_getElem? hr) x hx

structure Quiet (w : World) : Prop where
  store : ∀ key ∈ overrideKeys, w.store key = none
  engines : ∀ i, (w.engines i).overrides = .none
  inFlight : w.inFlight = []
  refreshing : w.refreshing = []

theorem Quiet.authorised (h : Quiet w) : Authorised [] w := by
  constructor
  · intro x hx
    rw [h.store _ (by simp [overrideKeys])] at hx
    cases hx
  · simp [h.inFlight]
  · simp [h.refreshing]
  · intro i x hx
    rw [h.engines] at hx
    cases hx

theorem authorised_of_steps (h : Quiet w) (hrun : Steps WorldStep w acts w')
    (hround : ∀ n durationMillis actor reason,
      .command n (.bypassLossLimit durationMillis actor reason) ∈ acts →
        BypassAdmitted durationMillis actor reason → RoundTrips ((n + durationMillis : ℤ) : ℚ)) :
    Authorised acts w' := by
  induction hrun with
  | nil => exact h.authorised
  | snoc _ hstep ih =>
      refine authorised_step (ih fun n dur actor reason hmem => ?_) hstep fun n dur actor reason hact => ?_
      · exact hround n dur actor reason (List.mem_append_left _ hmem)
      · exact hround n dur actor reason (by simp [hact])

theorem steps_refreshOverrides (i : ℕ) (h : w.refreshing = []) :
    Steps WorldStep w [.beginRefresh i, .readKey 0, .readKey 0, .readKey 0, .readKey 0, .finishRefresh 0]
      { w with engines := Function.update w.engines i ((w.engines i).refreshOverrides w.store) } := by
  obtain ⟨s, engines, inFlight, refreshing⟩ := w
  obtain rfl : refreshing = [] := h
  have hread : Steps WorldStep ⟨s, engines, inFlight, []⟩
      [.beginRefresh i, .readKey 0, .readKey 0, .readKey 0, .readKey 0]
      ⟨s, engines, inFlight, [⟨i, [], getMany s refreshKeys⟩]⟩ := by
    have hkeys : getMany s refreshKeys = Function.update (Function.update (Function.update
        (Function.update empty .lossLimitBypass (s .lossLimitBypass)) .lossLimitBypassExpiresAt
          (s .lossLimitBypassExpiresAt)) .runtimeMaxOrderNotional (s .runtimeMaxOrderNotional))
        .runtimeMaxOrderQuantity (s .runtimeMaxOrderQuantity) := by
      funext key
      cases key <;> rfl
    rw [hkeys]
    exact ((((Steps.single .beginRefresh).snoc (.readKey rfl)).snoc (.readKey rfl)).snoc
      (.readKey rfl)).snoc (.readKey rfl)
  exact hread.snoc (.finishRefresh rfl)

/-- A bypass in force was granted by an admitted call that has not expired,
and a call that validation refuses changes nothing. -/
theorem bypassActive_granted (hquiet : Quiet w) (hrun : Steps WorldStep w acts w')
    (hround : ∀ m : ℤ, |m| < 2 ^ 53 → RoundTrips (m : ℚ))
    (hexact : ∀ n durationMillis actor reason,
      .command n (.bypassLossLimit durationMillis actor reason) ∈ acts →
        BypassAdmitted durationMillis actor reason → |n + durationMillis| < 2 ^ 53) :
    (∀ i t, (w'.engines i).bypassActive t = true →
      ∃ s durationMillis actor reason, .command s (.bypassLossLimit durationMillis actor reason) ∈ acts ∧
        BypassAdmitted durationMillis actor reason ∧ t < s + durationMillis) ∧
    ∀ n call w'', ¬ call.Admitted → WorldStep w' (.command n call) w'' → w'' = w' := by
  have h := authorised_of_steps hquiet hrun fun n dur actor reason hmem hadmitted =>
    hround _ (hexact n dur actor reason hmem hadmitted)
  refine ⟨fun i t ht => ?_, fun n call w'' hrefuse hstep => ?_⟩
  · obtain ⟨-, x, hx, hlt⟩ := Overrides.bypassActive_iff.mp ht
    obtain ⟨s, dur, actor, reason, hmem, hadmitted, rfl⟩ := h.engines i x hx
    exact ⟨s, dur, actor, reason, hmem, hadmitted, by exact_mod_cast hlt⟩
  · cases hstep with
    | command hentries => exact absurd (OverrideCall.admitted_of_entries hentries) hrefuse
    | refused => rfl

end World

open scoped Decimal

def quietWorld : World := ⟨empty, fun _ => freshDesk.engine, [], []⟩

def noonEntries : Entries :=
  [(.lossLimitBypass, "1"), (.lossLimitBypassExpiresAt, encodeFloat ((noon + 1000 : ℤ) : ℚ)),
    (.lossLimitBypassActor, "ops"), (.lossLimitBypassReason, "feed outage"),
    (.lossLimitBypassSetAt, encodeFloat ((noon : ℤ) : ℚ))]

def tornWorld : World :=
  { quietWorld with store := setMany empty (noonEntries.take 2), inFlight := [noonEntries.drop 2] }

theorem steps_tornWorld :
    Steps WorldStep quietWorld [.command noon (.bypassLossLimit 1000 "ops" "feed outage"), .write 0, .write 0]
      tornWorld := by
  have hcommand : WorldStep quietWorld (.command noon (.bypassLossLimit 1000 "ops" "feed outage"))
      { quietWorld with inFlight := [noonEntries] } := .command rfl
  have hflag : WorldStep { quietWorld with inFlight := [noonEntries] } (.write 0)
      { quietWorld with store := setMany empty (noonEntries.take 1), inFlight := [noonEntries.drop 1] } :=
    .write rfl
  have hexpiry : WorldStep
      { quietWorld with store := setMany empty (noonEntries.take 1), inFlight := [noonEntries.drop 1] }
      (.write 0) tornWorld := .write rfl
  exact ((Steps.single hcommand).snoc hflag).snoc hexpiry

theorem bypassActive_granted_torn :
    ∃ acts w, Steps WorldStep quietWorld acts w ∧ (w.engines 0).bypassActive noon = true ∧
      ∃ s durationMillis actor reason, .command s (.bypassLossLimit durationMillis actor reason) ∈ acts ∧
        BypassAdmitted durationMillis actor reason ∧ noon < s + durationMillis := by
  have hrun := steps_tornWorld.append (steps_refreshOverrides 0 rfl)
  have hquiet : Quiet quietWorld := ⟨fun _ _ => rfl, fun _ => rfl, rfl, rfl⟩
  have hactive : ((Function.update tornWorld.engines 0
      ((tornWorld.engines 0).refreshOverrides tornWorld.store)) 0).bypassActive noon = true := by
    decide +kernel
  have h := bypassActive_granted hquiet hrun (fun m _ => Decimal.roundTrips_intCast m)
    (by simp +contextual [noon])
  exact ⟨_, _, hrun, hactive, h.1 0 noon hactive⟩

end PretradeRisk.Bypass
