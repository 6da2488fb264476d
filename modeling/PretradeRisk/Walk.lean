import Mathlib.Tactic

namespace PretradeRisk.Walk

variable {S G D E : Type}

def firstObjection (runs : S → G → Bool) (check : G → S → Except E (Option D × S)) :
    List G → S → Except E (Option D × S)
  | [], s => .ok (none, s)
  | g :: guards, s =>
      if runs s g then do
        let (objection, s) ← check g s
        match objection with
        | some d => return (some d, s)
        | none => firstObjection runs check guards s
      else firstObjection runs check guards s

/-- One answer of a guard that permits exactly when `P` holds, objects by
`objects`, raises by `raises`, and leaves a state that `similar` accepts. -/
inductive Answer (P : Prop) (objects : D → Prop) (raises : E → Prop) (similar : S → Prop) :
    Except E (Option D × S) → Prop
  | pass (s : S) (hp : P) (hs : similar s) : Answer P objects raises similar (.ok (none, s))
  | object (d : D) (s : S) (hp : ¬ P) (hd : objects d) (hs : similar s) :
      Answer P objects raises similar (.ok (some d, s))
  | raise (e : E) (hp : ¬ P) (he : raises e) : Answer P objects raises similar (.error e)

/-- Guards over states up to `similar`: which of them run and what they
permit is the same in similar states, and every running guard answers. -/
structure Sound (runs : S → G → Bool) (check : G → S → Except E (Option D × S))
    (permits : S → G → Prop) (objects : G → D → Prop) (raises : E → Prop)
    (similar : S → S → Prop) (guards : List G) : Prop where
  refl : ∀ s, similar s s
  trans : ∀ {s t u}, similar s t → similar t u → similar s u
  runs_eq : ∀ {s t g}, g ∈ guards → similar s t → runs t g = runs s g
  permits_iff : ∀ {s t g}, similar s t → (permits t g ↔ permits s g)
  answer : ∀ {g s}, g ∈ guards → runs s g = true →
    Answer (permits s g) (objects g) raises (similar s) (check g s)

variable {runs : S → G → Bool} {check : G → S → Except E (Option D × S)} {permits : S → G → Prop}
  {objects : G → D → Prop} {raises : E → Prop} {similar : S → S → Prop} {guards : List G}

theorem Sound.tail {g : G} (h : Sound runs check permits objects raises similar (g :: guards)) :
    Sound runs check permits objects raises similar guards :=
  ⟨h.refl, h.trans, fun hg => h.runs_eq (List.mem_cons_of_mem _ hg), h.permits_iff,
    fun hg => h.answer (List.mem_cons_of_mem _ hg)⟩

def Earliest (runs : S → G → Bool) (permits : S → G → Prop) (guards : List G) (s : S) (g : G) : Prop :=
  ∃ before after, guards = before ++ g :: after ∧ runs s g = true ∧ ¬ permits s g ∧
    ∀ b ∈ before, runs s b = true → permits s b

section Earliest

variable {g : G} {s : S}

theorem Earliest.mem (h : Earliest runs permits guards s g) : g ∈ guards := by
  obtain ⟨before, after, rfl, -⟩ := h
  simp

theorem Earliest.running (h : Earliest runs permits guards s g) : runs s g = true := by
  obtain ⟨-, -, -, hr, -⟩ := h
  exact hr

theorem Earliest.not_permits (h : Earliest runs permits guards s g) : ¬ permits s g := by
  obtain ⟨-, -, -, -, hp, -⟩ := h
  exact hp

end Earliest

theorem Earliest.cons {g b : G} {s : S} (h : Earliest runs permits guards s g)
    (hb : runs s b = true → permits s b) : Earliest runs permits (b :: guards) s g := by
  obtain ⟨before, after, rfl, hr, hp, hbefore⟩ := h
  refine ⟨b :: before, after, rfl, hr, hp, fun c hc => ?_⟩
  rcases List.mem_cons.mp hc with rfl | hc
  · exact hb
  · exact hbefore c hc

theorem Earliest.filter {which : G → Bool} {g : G} {s : S} (h : Earliest runs permits guards s g)
    (hg : which g = true) : Earliest runs permits (guards.filter which) s g := by
  obtain ⟨before, after, rfl, hr, hp, hbefore⟩ := h
  refine ⟨before.filter which, after.filter which, ?_, hr, hp, fun b hb => hbefore b (List.mem_of_mem_filter hb)⟩
  rw [List.filter_append, List.filter_cons_of_pos hg]

theorem Earliest.unique {g b : G} {s : S} (h : Earliest runs permits guards s g)
    (k : Earliest runs permits guards s b) : g = b := by
  obtain ⟨before, after, rfl, hr, hp, hbefore⟩ := h
  obtain ⟨before', after', hseq, hr', hp', hbefore'⟩ := k
  rcases List.append_eq_append_iff.mp hseq with ⟨mid, rfl, htail⟩ | ⟨mid, rfl, htail⟩
  · cases mid with
    | nil => exact (List.cons.inj htail).1
    | cons c mid =>
        obtain ⟨rfl, -⟩ := List.cons.inj htail
        exact absurd (hbefore' g (by simp) hr) hp
  · cases mid with
    | nil => exact (List.cons.inj htail).1.symm
    | cons c mid =>
        obtain ⟨rfl, -⟩ := List.cons.inj htail
        exact absurd (hbefore b (by simp) hr') hp'

theorem Earliest.transfer {g : G} {s t : S} (h : Earliest runs permits guards s g)
    (hsame : ∀ b ∈ guards, runs t b = runs s b ∧ (permits t b ↔ permits s b)) :
    Earliest runs permits guards t g := by
  obtain ⟨before, after, rfl, hr, hp, hbefore⟩ := h
  have hmem : g ∈ before ++ g :: after := List.mem_append_right _ List.mem_cons_self
  refine ⟨before, after, rfl, (hsame g hmem).1.trans hr, mt (hsame g hmem).2.mp hp, fun b hb hr => ?_⟩
  have hbmem : b ∈ before ++ g :: after := List.mem_append_left _ hb
  exact (hsame b hbmem).2.mpr (hbefore b hb ((hsame b hbmem).1.symm.trans hr))

theorem Earliest.congr (h : Sound runs check permits objects raises similar guards) {s t : S}
    (hst : similar s t) {g : G} (he : Earliest runs permits guards t g) :
    Earliest runs permits guards s g :=
  he.transfer fun _ hb => ⟨(h.runs_eq hb hst).symm, (h.permits_iff hst).symm⟩

/-- The walk passes when every running guard permits the state it starts in,
and otherwise ends at the earliest one that does not. -/
theorem firstObjection_answer (h : Sound runs check permits objects raises similar guards) (s : S) :
    Answer (∀ g ∈ guards, runs s g = true → permits s g)
      (fun d => ∃ g, Earliest runs permits guards s g ∧ objects g d) raises (similar s)
      (firstObjection runs check guards s) := by
  induction guards generalizing s with
  | nil => exact .pass s (by simp) (h.refl s)
  | cons g guards ih =>
      by_cases hr : runs s g = true
      · have ha := h.answer (List.mem_cons_self) hr
        have hnot (hp : ¬ permits s g) : ¬ ∀ b ∈ g :: guards, runs s b = true → permits s b :=
          fun hall => hp (hall g List.mem_cons_self hr)
        rw [firstObjection, if_pos hr]
        generalize hres : check g s = result at ha
        cases ha with
        | object d t hp hd ht =>
            exact .object d t (hnot hp) ⟨g, ⟨[], guards, rfl, hr, hp, by simp⟩, hd⟩ ht
        | raise e hp he => exact .raise e (hnot hp) he
        | pass t hp ht =>
            have htail := ih h.tail t
            change Answer _ _ _ _ (firstObjection runs check guards t)
            have hiff : (∀ b ∈ guards, runs t b = true → permits t b) ↔
                ∀ b ∈ g :: guards, runs s b = true → permits s b := by
              simp only [List.forall_mem_cons, h.permits_iff ht, hp, implies_true, true_and]
              exact forall₂_congr fun b hb => by rw [h.runs_eq (List.mem_cons_of_mem _ hb) ht]
            generalize firstObjection runs check guards t = result at htail ⊢
            cases htail with
            | pass u hu hs => exact .pass u (hiff.mp hu) (h.trans ht hs)
            | object d u hu hd hs =>
                obtain ⟨b, hb, hd⟩ := hd
                exact .object d u (mt hiff.mpr hu)
                  ⟨b, (Earliest.congr h.tail ht hb).cons fun _ => hp, hd⟩ (h.trans ht hs)
            | raise e hu he => exact .raise e (mt hiff.mpr hu) he
      · have htail := ih h.tail s
        rw [firstObjection, if_neg hr]
        have hiff : (∀ b ∈ guards, runs s b = true → permits s b) ↔
            ∀ b ∈ g :: guards, runs s b = true → permits s b := by
          simp only [List.forall_mem_cons, hr, Bool.false_eq_true, false_implies, true_and]
        generalize firstObjection runs check guards s = result at htail ⊢
        cases htail with
        | pass u hu hs => exact .pass u (hiff.mp hu) hs
        | object d u hu hd hs =>
            obtain ⟨b, hb, hd⟩ := hd
            exact .object d u (mt hiff.mpr hu) ⟨b, hb.cons fun h => absurd h hr, hd⟩ hs
        | raise e hu he => exact .raise e (mt hiff.mpr hu) he

/-- What every check keeps, the walk keeps. -/
theorem firstObjection_preserves {P : S → Prop} {s t : S} {o : Option D}
    (hcheck : ∀ g ∈ guards, ∀ s o t, P s → check g s = .ok (o, t) → P t) (hs : P s)
    (h : firstObjection runs check guards s = .ok (o, t)) : P t := by
  induction guards generalizing s with
  | nil => cases h; exact hs
  | cons g guards ih =>
      have htail {u : S} (hu : P u) (h : firstObjection runs check guards u = .ok (o, t)) : P t :=
        ih (fun g hg => hcheck g (List.mem_cons_of_mem _ hg)) hu h
      rw [firstObjection] at h
      split at h
      · cases hres : check g s with
        | error x => rw [hres] at h; cases h
        | ok result =>
            obtain ⟨_ | d, u⟩ := result
            · rw [hres] at h
              exact htail (hcheck g List.mem_cons_self s none u hs hres) h
            · rw [hres] at h
              cases h
              exact hcheck g List.mem_cons_self s (some d) _ hs hres
      · exact htail hs h

variable {T D' : Type} {runs' : T → G → Bool} {check' : G → T → Except E (Option D' × T)}

/-- Results that pass together, object together with related objections, or
raise the same, and leave related states. -/
inductive Lockstep (objections : D → D' → Prop) (related : S → T → Prop) :
    Except E (Option D × S) → Except E (Option D' × T) → Prop
  | pass {s : S} {t : T} (h : related s t) : Lockstep objections related (.ok (none, s)) (.ok (none, t))
  | object {d : D} {d' : D'} {s : S} {t : T} (hd : objections d d') (h : related s t) :
      Lockstep objections related (.ok (some d, s)) (.ok (some d', t))
  | raise (x : E) : Lockstep objections related (.error x) (.error x)

theorem firstObjection_lockstep {objections : D → D' → Prop} {related : S → T → Prop} {s : S} {t : T}
    (hruns : ∀ g ∈ guards, ∀ s t, related s t → runs' t g = runs s g)
    (hcheck : ∀ g ∈ guards, ∀ s t, related s t → runs s g = true →
      Lockstep objections related (check g s) (check' g t))
    (h : related s t) :
    Lockstep objections related (firstObjection runs check guards s) (firstObjection runs' check' guards t) := by
  induction guards generalizing s t with
  | nil => exact .pass h
  | cons g guards ih =>
      have htail {u : S} {v : T} (huv : related u v) :
          Lockstep objections related (firstObjection runs check guards u) (firstObjection runs' check' guards v) :=
        ih (fun g hg => hruns g (List.mem_cons_of_mem _ hg)) (fun g hg => hcheck g (List.mem_cons_of_mem _ hg)) huv
      rw [firstObjection, firstObjection, hruns g List.mem_cons_self s t h]
      by_cases hr : runs s g = true
      · have hg := hcheck g List.mem_cons_self s t h hr
        rw [if_pos hr, if_pos hr]
        generalize check g s = x, check' g t = y at hg
        cases hg with
        | pass huv => exact htail huv
        | object hd huv => exact .object hd huv
        | raise x => exact .raise x
      · rw [if_neg hr, if_neg hr]
        exact htail h

theorem firstObjection_map {H : Type} (f : H → G) (guards : List H) (s : S) :
    firstObjection runs check (guards.map f) s =
      firstObjection (fun s h => runs s (f h)) (fun h => check (f h)) guards s := by
  induction guards generalizing s with
  | nil => rfl
  | cons h guards ih =>
      rw [List.map_cons, firstObjection, firstObjection]
      simp only [ih]

def ends : Except E (Option D) → Bool
  | .ok none => false
  | _ => true

def firstVerdict (verdicts : List (Except E (Option D))) : Except E (Option D) :=
  (verdicts.find? ends).getD (.ok none)

def asked (runs : S → G → Bool) (check : G → S → Except E (Option D × S)) : List G → S → List G
  | [], _ => []
  | g :: guards, s =>
      if runs s g then
        g :: match check g s with
          | .ok (none, s) => asked runs check guards s
          | _ => []
      else asked runs check guards s

/-- In every state the walk reaches, the guards run and answer as they do in
the state it starts in. -/
structure Steady (runs : S → G → Bool) (check : G → S → Except E (Option D × S)) (reaches : S → Prop)
    (s : S) (guards : List G) : Prop where
  runs_eq : ∀ g ∈ guards, ∀ t, reaches t → runs t g = runs s g
  verdict_eq : ∀ g ∈ guards, ∀ t, reaches t → (check g t).map Prod.fst = (check g s).map Prod.fst
  keeps : ∀ g ∈ guards, ∀ t o u, reaches t → check g t = .ok (o, u) → reaches u

theorem Steady.tail {reaches : S → Prop} {s : S} {g : G} (h : Steady runs check reaches s (g :: guards)) :
    Steady runs check reaches s guards :=
  ⟨fun g hg => h.runs_eq g (List.mem_cons_of_mem _ hg), fun g hg => h.verdict_eq g (List.mem_cons_of_mem _ hg),
    fun g hg => h.keeps g (List.mem_cons_of_mem _ hg)⟩

theorem firstVerdict_cons_of_ends {v : Except E (Option D)} (vs : List (Except E (Option D))) (h : ends v = true) :
    firstVerdict (v :: vs) = v := by
  rw [firstVerdict, List.find?_cons_of_pos h]; rfl

@[simp] theorem firstVerdict_cons_pass (vs : List (Except E (Option D))) :
    firstVerdict (.ok none :: vs) = firstVerdict vs := rfl

theorem eq_pass_of_ends {v : Except E (Option D)} (h : ends v = false) : v = .ok none := by
  rcases v with _ | _ | _
  · cases h
  · rfl
  · cases h

theorem firstVerdict_append_of_pass {before : List (Except E (Option D))} (after : List (Except E (Option D)))
    (h : ∀ b ∈ before, b = .ok none) : firstVerdict (before ++ after) = firstVerdict after := by
  induction before with
  | nil => rfl
  | cons b before ih =>
      obtain rfl : b = .ok none := h b List.mem_cons_self
      exact ih fun b hb => h b (List.mem_cons_of_mem _ hb)

section Filtered

variable {which : G → Bool} {verdict : G → Except E (Option D)}

theorem firstVerdict_of_pass (h : ∀ g ∈ guards, which g = true → verdict g = .ok none) :
    firstVerdict ((guards.filter which).map verdict) = .ok none := by
  rw [← List.append_nil ((guards.filter which).map verdict)]
  refine firstVerdict_append_of_pass [] fun v hv => ?_
  obtain ⟨g, hg, rfl⟩ := List.mem_map.mp hv
  exact h g (List.mem_filter.mp hg).1 (List.mem_filter.mp hg).2

theorem firstVerdict_of_ends {before after : List G} {g : G} (hg : which g = true) (hends : ends (verdict g) = true)
    (hbefore : ∀ b ∈ before, which b = true → verdict b = .ok none) :
    firstVerdict (((before ++ g :: after).filter which).map verdict) = verdict g := by
  rw [List.filter_append, List.map_append, List.filter_cons_of_pos hg, List.map_cons]
  refine (firstVerdict_append_of_pass _ fun v hv => ?_).trans (firstVerdict_cons_of_ends _ hends)
  obtain ⟨b, hb, rfl⟩ := List.mem_map.mp hv
  exact hbefore b (List.mem_filter.mp hb).1 (List.mem_filter.mp hb).2

theorem firstVerdict_cases (which : G → Bool) (verdict : G → Except E (Option D)) (guards : List G) :
    (∀ g ∈ guards, which g = true → verdict g = .ok none) ∨
      ∃ before g after, guards = before ++ g :: after ∧ which g = true ∧ ends (verdict g) = true ∧
        ∀ b ∈ before, which b = true → verdict b = .ok none := by
  induction guards with
  | nil => exact .inl (by simp)
  | cons g guards ih =>
      by_cases hg : which g = true ∧ ends (verdict g) = true
      · exact .inr ⟨[], g, guards, rfl, hg.1, hg.2, by simp⟩
      · have hpass (hwhich : which g = true) : verdict g = .ok none :=
          eq_pass_of_ends (Bool.eq_false_iff.mpr fun h => hg ⟨hwhich, h⟩)
        rcases ih with hall | ⟨before, h, after, rfl, hwhich, hends, hbefore⟩
        · exact .inl (List.forall_mem_cons.mpr ⟨hpass, hall⟩)
        · exact .inr ⟨g :: before, h, after, rfl, hwhich, hends, List.forall_mem_cons.mpr ⟨hpass, hbefore⟩⟩

end Filtered

section Steady

variable {reaches : S → Prop} {s t : S}

theorem firstObjection_eq_firstVerdict (h : Steady runs check reaches s guards) (ht : reaches t) :
    (firstObjection runs check guards t).map Prod.fst =
      firstVerdict ((guards.filter (runs s)).map fun g => (check g s).map Prod.fst) := by
  induction guards generalizing t with
  | nil => rfl
  | cons g guards ih =>
      have hruns := h.runs_eq g List.mem_cons_self t ht
      by_cases hr : runs s g = true
      · have hverdict := h.verdict_eq g List.mem_cons_self t ht
        rw [firstObjection, if_pos (hruns.trans hr), List.filter_cons_of_pos hr, List.map_cons, ← hverdict]
        cases hres : check g t with
        | error x => exact (firstVerdict_cons_of_ends _ rfl).symm
        | ok result =>
            obtain ⟨_ | d, u⟩ := result
            · exact ih h.tail (h.keeps g List.mem_cons_self t none u ht hres)
            · exact (firstVerdict_cons_of_ends _ rfl).symm
      · rw [firstObjection, if_neg (hruns ▸ hr), List.filter_cons_of_neg hr]
        exact ih h.tail ht

theorem firstObjection_of_ends {g : G} (hr : runs s g = true) (h : ends ((check g s).map Prod.fst) = true) :
    firstObjection runs check (g :: guards) s = check g s := by
  rw [firstObjection, if_pos hr]
  cases hres : check g s with
  | error x => rfl
  | ok result =>
      obtain ⟨_ | d, u⟩ := result
      · rw [hres] at h; cases h
      · rfl

/-- Another check that answers alike up to a guard walks to that guard too. -/
theorem firstObjection_reaches {before after : List G} {g : G} {check' : G → S → Except E (Option D × S)}
    (h : Steady runs check reaches s (before ++ g :: after)) (ht : reaches t)
    (hpass : ∀ b ∈ before, runs s b = true → (check b s).map Prod.fst = .ok none)
    (hsame : ∀ b ∈ before, ∀ u, reaches u → runs u b = true → check' b u = check b u) :
    ∃ u, reaches u ∧
      firstObjection runs check (before ++ g :: after) t = firstObjection runs check (g :: after) u ∧
      firstObjection runs check' (before ++ g :: after) t = firstObjection runs check' (g :: after) u := by
  induction before generalizing t with
  | nil => exact ⟨t, ht, rfl, rfl⟩
  | cons b before ih =>
      rw [List.cons_append] at h
      have htail {u : S} (hu : reaches u) := ih h.tail hu (fun b hb => hpass b (List.mem_cons_of_mem _ hb))
        fun b hb => hsame b (List.mem_cons_of_mem _ hb)
      have hruns := h.runs_eq b List.mem_cons_self t ht
      rw [List.cons_append, firstObjection, firstObjection]
      by_cases hr : runs t b = true
      · rw [if_pos hr, if_pos hr, hsame b List.mem_cons_self t ht hr]
        have hverdict := (h.verdict_eq b List.mem_cons_self t ht).trans
          (hpass b List.mem_cons_self (hruns.symm.trans hr))
        cases hres : check b t with
        | error x => rw [hres] at hverdict; cases hverdict
        | ok result =>
            obtain ⟨_ | d, u⟩ := result
            · exact htail (h.keeps b List.mem_cons_self t none u ht hres)
            · rw [hres] at hverdict; cases hverdict
      · rw [if_neg hr, if_neg hr]
        exact htail ht

theorem firstObjection_congr {check' : G → S → Except E (Option D × S)}
    (h : Steady runs check reaches s guards) (ht : reaches t)
    (hsame : ∀ b ∈ guards, ∀ u, reaches u → runs u b = true → check' b u = check b u) :
    firstObjection runs check' guards t = firstObjection runs check guards t := by
  induction guards generalizing t with
  | nil => rfl
  | cons g guards ih =>
      have htail {u : S} (hu : reaches u) := ih h.tail hu fun b hb => hsame b (List.mem_cons_of_mem _ hb)
      rw [firstObjection, firstObjection]
      by_cases hr : runs t g = true
      · rw [if_pos hr, if_pos hr, hsame g List.mem_cons_self t ht hr]
        cases hres : check g t with
        | error x => rfl
        | ok result =>
            obtain ⟨_ | d, u⟩ := result
            · exact htail (h.keeps g List.mem_cons_self t none u ht hres)
            · rfl
      · rw [if_neg hr, if_neg hr]
        exact htail ht

theorem asked_prefix_running (h : Steady runs check reaches s guards) (ht : reaches t) :
    asked runs check guards t <+: guards.filter (runs s) := by
  induction guards generalizing t with
  | nil => exact List.nil_prefix
  | cons g guards ih =>
      have hruns := h.runs_eq g List.mem_cons_self t ht
      by_cases hr : runs s g = true
      · rw [asked, if_pos (hruns.trans hr), List.filter_cons_of_pos hr, List.prefix_cons_inj]
        split
        · next u hres => exact ih h.tail (h.keeps g List.mem_cons_self t none u ht hres)
        · exact List.nil_prefix
      · rw [asked, if_neg (hruns ▸ hr), List.filter_cons_of_neg hr]
        exact ih h.tail ht

/-- The walk is decided by the guards it asks. -/
theorem firstVerdict_asked (h : Steady runs check reaches s guards) (ht : reaches t) :
    firstVerdict ((asked runs check guards t).map fun g => (check g s).map Prod.fst) =
      (firstObjection runs check guards t).map Prod.fst := by
  induction guards generalizing t with
  | nil => rfl
  | cons g guards ih =>
      by_cases hr : runs t g = true
      · have hverdict := h.verdict_eq g List.mem_cons_self t ht
        rw [firstObjection, asked, if_pos hr, if_pos hr, List.map_cons, ← hverdict]
        cases hres : check g t with
        | error x => exact firstVerdict_cons_of_ends _ rfl
        | ok result =>
            obtain ⟨_ | d, u⟩ := result
            · exact ih h.tail (h.keeps g List.mem_cons_self t none u ht hres)
            · exact firstVerdict_cons_of_ends _ rfl
      · rw [firstObjection, asked, if_neg hr, if_neg hr]
        exact ih h.tail ht

theorem asked_of_pass (h : Steady runs check reaches s guards) (ht : reaches t)
    (hpass : (firstObjection runs check guards t).map Prod.fst = .ok none) :
    asked runs check guards t = guards.filter (runs s) := by
  induction guards generalizing t with
  | nil => rfl
  | cons g guards ih =>
      have hruns := h.runs_eq g List.mem_cons_self t ht
      by_cases hr : runs s g = true
      · rw [firstObjection, if_pos (hruns.trans hr)] at hpass
        rw [asked, if_pos (hruns.trans hr), List.filter_cons_of_pos hr]
        cases hres : check g t with
        | error x => rw [hres] at hpass; cases hpass
        | ok result =>
            obtain ⟨_ | d, u⟩ := result
            · rw [hres] at hpass
              exact congrArg _ (ih h.tail (h.keeps g List.mem_cons_self t none u ht hres) hpass)
            · rw [hres] at hpass; cases hpass
      · rw [firstObjection, if_neg (hruns ▸ hr)] at hpass
        rw [asked, if_neg (hruns ▸ hr), List.filter_cons_of_neg hr]
        exact ih h.tail ht hpass

theorem asked_of_ends {before after : List G} {g : G}
    (h : Steady runs check reaches s (before ++ g :: after)) (ht : reaches t) (hg : runs s g = true)
    (hends : ends ((check g s).map Prod.fst) = true)
    (hbefore : ∀ b ∈ before, runs s b = true → (check b s).map Prod.fst = .ok none) :
    asked runs check (before ++ g :: after) t = before.filter (runs s) ++ [g] := by
  induction before generalizing t with
  | nil =>
      have hruns := h.runs_eq g List.mem_cons_self t ht
      rw [← h.verdict_eq g List.mem_cons_self t ht] at hends
      rw [List.nil_append, asked, if_pos (hruns.trans hg)]
      split
      · next u hres => rw [hres] at hends; cases hends
      · rfl
  | cons b before ih =>
      have hruns := h.runs_eq b List.mem_cons_self t ht
      have htail : ∀ b ∈ before, runs s b = true → (check b s).map Prod.fst = .ok none :=
        fun b hb => hbefore b (List.mem_cons_of_mem _ hb)
      rw [List.cons_append] at h ⊢
      by_cases hr : runs s b = true
      · have hpass := (h.verdict_eq b List.mem_cons_self t ht).trans (hbefore b List.mem_cons_self hr)
        rw [asked, if_pos (hruns.trans hr), List.filter_cons_of_pos hr, List.cons_append]
        cases hres : check b t with
        | error x => rw [hres] at hpass; cases hpass
        | ok result =>
            obtain ⟨_ | d, u⟩ := result
            · exact congrArg _ (ih h.tail (h.keeps b List.mem_cons_self t none u ht hres) htail)
            · rw [hres] at hpass; cases hpass
      · rw [asked, if_neg (hruns ▸ hr), List.filter_cons_of_neg hr]
        exact ih h.tail ht htail

end Steady

end PretradeRisk.Walk
