import Mathlib.Tactic

namespace PretradeRisk.Run

variable {S I : Type}

/-- From `s`, the inputs lead to `t`, one step each. -/
inductive Steps (step : S → I → S → Prop) (s : S) : List I → S → Prop
  | nil : Steps step s [] s
  | snoc {is : List I} {t : S} {i : I} {u : S} :
      Steps step s is t → step t i u → Steps step s (is ++ [i]) u

variable {step : S → I → S → Prop} {s t u : S} {is js : List I} {i : I}

theorem Steps.append (h : Steps step s is t) (k : Steps step t js u) : Steps step s (is ++ js) u := by
  induction k with
  | nil => simpa using h
  | snoc _ hstep ih => rw [← List.append_assoc]; exact ih.snoc hstep

theorem Steps.single (h : step s i t) : Steps step s [i] t := Steps.nil.snoc h

theorem steps_nil_iff : Steps step s [] t ↔ t = s := by
  constructor
  · intro h
    generalize his : ([] : List I) = is at h
    cases h with
    | nil => rfl
    | snoc => exact absurd his (by simp)
  · rintro rfl; exact .nil

theorem steps_snoc_iff : Steps step s (is ++ [i]) u ↔ ∃ t, Steps step s is t ∧ step t i u := by
  constructor
  · intro h
    generalize hjs : is ++ [i] = js at h
    cases h with
    | nil => exact absurd hjs (by simp)
    | snoc hrun hstep =>
        obtain ⟨rfl, hi⟩ := List.append_inj' hjs rfl
        cases hi
        exact ⟨_, hrun, hstep⟩
  · rintro ⟨t, hrun, hstep⟩; exact hrun.snoc hstep

theorem steps_cons_iff : Steps step s (i :: js) u ↔ ∃ t, step s i t ∧ Steps step t js u := by
  constructor
  · intro h
    induction js using List.reverseRecOn generalizing u with
    | nil =>
        obtain ⟨t, ht, hstep⟩ := steps_snoc_iff.mp (show Steps step s ([] ++ [i]) u from h)
        rw [steps_nil_iff] at ht
        exact ⟨u, ht ▸ hstep, .nil⟩
    | append_singleton js j ih =>
        obtain ⟨t, ht, hstep⟩ := steps_snoc_iff.mp (show Steps step s ((i :: js) ++ [j]) u from h)
        obtain ⟨v, hv, hrun⟩ := ih ht
        exact ⟨v, hv, hrun.snoc hstep⟩
  · rintro ⟨t, hstep, hrun⟩; exact (Steps.single hstep).append hrun

theorem steps_append_iff : Steps step s (is ++ js) u ↔ ∃ t, Steps step s is t ∧ Steps step t js u := by
  constructor
  · intro h
    induction js using List.reverseRecOn generalizing u with
    | nil => exact ⟨u, by simpa using h, .nil⟩
    | append_singleton js j ih =>
        rw [← List.append_assoc] at h
        obtain ⟨v, hv, hstep⟩ := steps_snoc_iff.mp h
        obtain ⟨t, ht, hrun⟩ := ih hv
        exact ⟨t, ht, hrun.snoc hstep⟩
  · rintro ⟨t, ht, hrun⟩; exact ht.append hrun

theorem Steps.invariant {P : S → Prop} (hs : P s) (hstep : ∀ {t i u}, P t → step t i u → P u)
    (h : Steps step s is t) : P t := by
  induction h with
  | nil => exact hs
  | snoc _ hi ih => exact hstep ih hi

/-- What a step relates and rest and composition keep, a run relates. -/
theorem Steps.related {R : S → S → Prop} (hrefl : ∀ s, R s s) (htrans : ∀ {s t u}, R s t → R t u → R s u)
    (hstep : ∀ {s i t}, step s i t → R s t) (h : Steps step s is t) : R s t := by
  induction h with
  | nil => exact hrefl s
  | snoc _ hi ih => exact htrans ih (hstep hi)

theorem Steps.map {T J : Type} {step' : T → J → T → Prop} (f : S → T) (g : I → J)
    (hstep : ∀ {s i t}, step s i t → step' (f s) (g i) (f t)) (h : Steps step s is t) :
    Steps step' (f s) (is.map g) (f t) := by
  induction h with
  | nil => exact .nil
  | snoc _ hi ih =>
      rw [List.map_append]
      exact ih.snoc (hstep hi)

/-- A step that a related state can follow makes a run it can follow. -/
theorem Steps.simulated {T J : Type} {step' : T → J → T → Prop} {R : S → T → Prop} (g : I → J)
    (hstep : ∀ {s i t s'}, R s s' → step s i t → ∃ t', step' s' (g i) t' ∧ R t t') (h : Steps step s is t) {s' : T}
    (hs : R s s') : ∃ t', Steps step' s' (is.map g) t' ∧ R t t' := by
  induction h with
  | nil => exact ⟨s', .nil, hs⟩
  | snoc _ hi ih =>
      obtain ⟨t', hrun, ht⟩ := ih
      obtain ⟨u', hstep', hu⟩ := hstep ht hi
      rw [List.map_append]
      exact ⟨u', hrun.snoc hstep', hu⟩

theorem Steps.flatMap {T J : Type} {step' : T → J → T → Prop} (f : S → T) (g : I → List J)
    (hstep : ∀ {s i t}, step s i t → Steps step' (f s) (g i) (f t)) (h : Steps step s is t) :
    Steps step' (f s) (is.flatMap g) (f t) := by
  induction h with
  | nil => exact .nil
  | snoc _ hi ih =>
      rw [List.flatMap_append, List.flatMap_singleton]
      exact ih.append (hstep hi)

theorem Steps.unique (hstep : ∀ {s i t u}, step s i t → step s i u → t = u) (h : Steps step s is t)
    (k : Steps step s is u) : t = u := by
  induction h generalizing u with
  | nil => exact (steps_nil_iff.mp k).symm
  | snoc _ hi ih =>
      obtain ⟨v, hv, hstepv⟩ := steps_snoc_iff.mp k
      obtain rfl := ih hv
      exact hstep hi hstepv

theorem Steps.unique_of_ok {E : Type} {f : S → I → Except E S} (h : Steps (fun s i t => f s i = .ok t) s is t)
    (k : Steps (fun s i t => f s i = .ok t) s is u) : t = u :=
  h.unique (fun ht hu => Except.ok.inj (ht.symm.trans hu)) k

theorem Steps.exists_of_any {f : S → I → Option S} {p : S → Bool} (hstep : ∀ {s i t}, f s i = some t → step s i t)
    (h : (is.foldlM f s).any p = true) : ∃ t, Steps step s is t ∧ p t = true := by
  induction is generalizing s with
  | nil => exact ⟨s, .nil, h⟩
  | cons i is ih =>
      rw [List.foldlM_cons] at h
      cases hi : f s i with
      | none => rw [hi] at h; cases h
      | some t =>
          rw [hi] at h
          obtain ⟨u, hrun, hu⟩ := ih h
          exact ⟨u, steps_cons_iff.mpr ⟨t, hstep hi, hrun⟩, hu⟩

theorem foldl_view_eq_last {V : Type} {view : S → V} {f : S → I → S} {sets : I → Option V}
    (hstep : ∀ i ∈ is, ∀ s, view (f s i) = (sets i).getD (view s)) :
    view (is.foldl f s) = (is.filterMap sets).getLast?.getD (view s) := by
  induction is using List.reverseRecOn with
  | nil => rfl
  | append_singleton is i ih =>
      rw [List.foldl_append, List.filterMap_append, List.foldl_cons, List.foldl_nil, hstep i (by simp),
        ih fun j hj => hstep j (List.mem_append_left _ hj)]
      cases hset : sets i <;> simp [hset]

variable {time : I → ℤ} {start n m : ℤ}

/-- No reading so far, the first one included, is later than `n`. -/
structure Upto (time : I → ℤ) (start : ℤ) (is : List I) (n : ℤ) : Prop where
  start_le : start ≤ n
  le : ∀ i ∈ is, time i ≤ n

/-- The clock never steps back. -/
def Nondecreasing (time : I → ℤ) (start : ℤ) (is : List I) : Prop :=
  (start :: is.map time).Pairwise (· ≤ ·)

theorem upto_snoc : Upto time start (is ++ [i]) n ↔ Upto time start is n ∧ time i ≤ n := by
  constructor
  · rintro ⟨h, k⟩
    exact ⟨⟨h, fun j hj => k j (List.mem_append_left _ hj)⟩, k i (by simp)⟩
  · rintro ⟨⟨h, k⟩, hi⟩
    refine ⟨h, fun j hj => ?_⟩
    rcases List.mem_append.mp hj with hj | hj
    · exact k j hj
    · exact List.mem_singleton.mp hj ▸ hi

theorem nondecreasing_snoc :
    Nondecreasing time start (is ++ [i]) ↔ Nondecreasing time start is ∧ Upto time start is (time i) := by
  rw [Nondecreasing]
  rw [List.map_append, ← List.cons_append, List.pairwise_append]
  simp only [List.map_singleton, List.pairwise_singleton, true_and, List.mem_cons, List.not_mem_nil,
    false_implies, implies_true, and_true, List.mem_map, forall_eq_or_imp, forall_exists_index, and_imp,
    forall_apply_eq_imp_iff₂]
  exact and_congr_right fun _ => ⟨fun ⟨h, k⟩ => ⟨h, k⟩, fun h => ⟨h.start_le, h.le⟩⟩

theorem Nondecreasing.of_append (h : Nondecreasing time start (is ++ js)) : Nondecreasing time start is := by
  rw [Nondecreasing] at *
  rw [List.map_append, ← List.cons_append, List.pairwise_append] at h
  exact h.1

theorem nondecreasing_cons :
    Nondecreasing time start (i :: is) ↔ start ≤ time i ∧ Nondecreasing time (time i) is := by
  rw [Nondecreasing, List.map_cons, List.pairwise_cons]
  constructor
  · exact fun ⟨hstart, htail⟩ => ⟨hstart _ List.mem_cons_self, htail⟩
  · refine fun ⟨hstart, htail⟩ => ⟨fun n hn => ?_, htail⟩
    rcases List.mem_cons.mp hn with rfl | hn
    · exact hstart
    · exact hstart.trans ((List.pairwise_cons.mp htail).1 n hn)

theorem upto_cons (h : start ≤ time i) : Upto time start (i :: is) n ↔ Upto time (time i) is n := by
  constructor
  · exact fun hn => ⟨hn.le i (by simp), fun j hj => hn.le j (List.mem_cons_of_mem _ hj)⟩
  · exact fun hn => ⟨h.trans hn.start_le, List.forall_mem_cons.mpr ⟨hn.start_le, hn.le⟩⟩

theorem Nondecreasing.split (h : Nondecreasing time start is) : ∃ m, Upto time start is m ∧
    ∀ js, Nondecreasing time start (is ++ js) →
      Nondecreasing time m js ∧ ∀ n, Upto time start (is ++ js) n ↔ Upto time m js n := by
  induction is generalizing start with
  | nil => exact ⟨start, ⟨le_rfl, by simp⟩, fun js hjs => ⟨hjs, fun n => Iff.rfl⟩⟩
  | cons i is ih =>
      obtain ⟨hi, his⟩ := nondecreasing_cons.mp h
      obtain ⟨m, hm, hrest⟩ := ih his
      refine ⟨m, (upto_cons hi).mpr hm, fun js hjs => ?_⟩
      obtain ⟨-, hjs⟩ := nondecreasing_cons.mp hjs
      exact ⟨(hrest js hjs).1, fun n => (upto_cons hi).trans ((hrest js hjs).2 n)⟩

theorem Upto.append (h : Upto time start is n) (hjs : ∀ j ∈ js, time j = n) : Upto time start (is ++ js) n :=
  ⟨h.start_le, fun i hi => (List.mem_append.mp hi).elim (h.le i) fun hi => (hjs i hi).le⟩

theorem Nondecreasing.append (h : Nondecreasing time start is) (hn : Upto time start is n)
    (hjs : ∀ j ∈ js, time j = n) : Nondecreasing time start (is ++ js) := by
  induction js using List.reverseRecOn with
  | nil => simpa using h
  | append_singleton js j ih =>
      rw [← List.append_assoc, nondecreasing_snoc]
      have hkept : ∀ k ∈ js, time k = n := fun k hk => hjs k (List.mem_append_left _ hk)
      exact ⟨ih hkept, hjs j (by simp) ▸ hn.append hkept⟩

section Flattened

variable {J : Type} {time' : J → ℤ} {g : I → List J}

theorem Upto.flatMap (h : Upto time start is n) (htime : ∀ i, ∀ j ∈ g i, time' j = time i) :
    Upto time' start (is.flatMap g) n := by
  refine ⟨h.start_le, fun j hj => ?_⟩
  obtain ⟨i, hi, hj⟩ := List.mem_flatMap.mp hj
  exact (htime i j hj).trans_le (h.le i hi)

theorem Nondecreasing.flatMap (h : Nondecreasing time start is) (htime : ∀ i, ∀ j ∈ g i, time' j = time i) :
    Nondecreasing time' start (is.flatMap g) := by
  induction is using List.reverseRecOn with
  | nil => exact h
  | append_singleton is i ih =>
      obtain ⟨his, hupto⟩ := nondecreasing_snoc.mp h
      rw [List.flatMap_append, List.flatMap_singleton]
      exact (ih his).append (hupto.flatMap htime) (htime i)

end Flattened

/-- Lists of inputs that differ in hidden inputs only. -/
inductive Woven (hidden : I → Prop) : List I → List I → Prop
  | nil : Woven hidden [] []
  | shared {is js : List I} (i : I) (h : Woven hidden is js) : Woven hidden (is ++ [i]) (js ++ [i])
  | left {is js : List I} {i : I} (hi : hidden i) (h : Woven hidden is js) : Woven hidden (is ++ [i]) js
  | right {is js : List I} {j : I} (hj : hidden j) (h : Woven hidden is js) : Woven hidden is (js ++ [j])

variable {hidden : I → Prop}

theorem Woven.of_filter_eq [DecidablePred hidden]
    (h : is.filter (fun i => ¬ hidden i) = js.filter fun i => ¬ hidden i) : Woven hidden is js := by
  induction is using List.reverseRecOn generalizing js with
  | nil =>
      induction js using List.reverseRecOn with
      | nil => exact .nil
      | append_singleton js j ihj =>
          rw [List.filter_append, eq_comm, List.filter_nil, List.append_eq_nil_iff] at h
          exact .right (by simpa using h.2) (ihj h.1.symm)
  | append_singleton is i ihi =>
      by_cases hi : hidden i
      · exact .left hi (ihi (by simpa [List.filter_append, hi] using h))
      · induction js using List.reverseRecOn with
        | nil => simp [List.filter_append, hi] at h
        | append_singleton js j ihj =>
            by_cases hj : hidden j
            · exact .right hj (ihj (by simpa [List.filter_append, hi, hj] using h))
            · simp only [List.filter_append, List.filter_singleton, hi, hj, not_false_eq_true, decide_true,
                cond_true] at h
              obtain ⟨htail, hij⟩ := List.append_inj' h rfl
              obtain rfl : i = j := List.singleton_injective hij
              exact .shared i (ihi htail)

/-- What a shared step keeps between two runs, and a hidden step of either
run keeps, holds between two runs that differ in hidden inputs only. -/
theorem Woven.simulate {s' : S} {admissible : List I → Prop} {R : List I → List I → S → S → Prop}
    (hinitial : ∀ is i, admissible (is ++ [i]) → admissible is) (hnil : R [] [] s s')
    (hshared : ∀ is js i t u t' u', admissible (is ++ [i]) → admissible (js ++ [i]) → R is js t u →
      step t i t' → step u i u' → R (is ++ [i]) (js ++ [i]) t' u')
    (hleft : ∀ is js i t u t', admissible (is ++ [i]) → hidden i → R is js t u → step t i t' →
      R (is ++ [i]) js t' u)
    (hright : ∀ is js j t u u', admissible (js ++ [j]) → hidden j → R is js t u → step u j u' →
      R is (js ++ [j]) t u')
    (h : Woven hidden is js) (his : admissible is) (hjs : admissible js) (ht : Steps step s is t)
    (hu : Steps step s' js u) : R is js t u := by
  induction h generalizing t u with
  | nil =>
      obtain rfl := steps_nil_iff.mp ht
      obtain rfl := steps_nil_iff.mp hu
      exact hnil
  | shared i _ ih =>
      obtain ⟨t₁, ht₁, hti⟩ := steps_snoc_iff.mp ht
      obtain ⟨u₁, hu₁, hui⟩ := steps_snoc_iff.mp hu
      exact hshared _ _ i t₁ u₁ t u his hjs (ih (hinitial _ i his) (hinitial _ i hjs) ht₁ hu₁) hti hui
  | left hi _ ih =>
      obtain ⟨t₁, ht₁, hti⟩ := steps_snoc_iff.mp ht
      exact hleft _ _ _ t₁ u t his hi (ih (hinitial _ _ his) hjs ht₁ hu) hti
  | right hj _ ih =>
      obtain ⟨u₁, hu₁, huj⟩ := steps_snoc_iff.mp hu
      exact hright _ _ _ t u₁ u hjs hj (ih his (hinitial _ _ hjs) ht hu₁) huj

end PretradeRisk.Run
