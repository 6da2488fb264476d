import Mathlib.Algebra.Order.Group.Defs
import Mathlib.Data.List.DropRight
import Mathlib.Tactic

namespace PretradeRisk.Recall

variable {κ α : Type}

/-- A call puts a key down, asks after one, or empties everything. -/
inductive Call (κ α : Type) where
  | record (key : κ) (now : α)
  | ask (key : κ) (now : α)
  | reset

def Call.instant : Call κ α → Option α
  | record _ now => some now
  | ask _ now => some now
  | reset => none

def Call.recorded : Call κ α → List (κ × α)
  | record key now => [(key, now)]
  | ask _ _ => []
  | reset => []

def recordedSince (calls : List (Call κ α)) : List (κ × α) :=
  (calls.rtakeWhile fun call => call.instant.isSome).flatMap Call.recorded

theorem recordedSince_snoc (calls : List (Call κ α)) {call : Call κ α} (h : call.instant.isSome) :
    recordedSince (calls ++ [call]) = recordedSince calls ++ call.recorded := by
  rw [recordedSince, List.rtakeWhile_concat_pos (fun c : Call κ α => c.instant.isSome) _ _ h,
    List.flatMap_append, recordedSince]
  simp

@[simp] theorem recordedSince_reset (calls : List (Call κ α)) : recordedSince (calls ++ [.reset]) = [] := by
  rw [recordedSince, List.rtakeWhile_concat_neg (fun c : Call κ α => c.instant.isSome) _ _ (by simp [Call.instant]),
    List.flatMap_nil]

variable [AddCommGroup α] [LinearOrder α] {width t m n : α} {key : κ} {call : Call κ α} {calls : List (Call κ α)}

/-- What was put down at `t` outlasts the call. -/
def Call.Keeps (width t : α) : Call κ α → Prop
  | record _ now => t ≤ now ∧ now < t + width
  | ask _ now => t ≤ now ∧ now < t + width
  | reset => False

instance (width t : α) : (call : Call κ α) → Decidable (call.Keeps width t)
  | .record _ now => inferInstanceAs (Decidable (t ≤ now ∧ now < t + width))
  | .ask _ now => inferInstanceAs (Decidable (t ≤ now ∧ now < t + width))
  | .reset => inferInstanceAs (Decidable False)

@[simp] theorem Call.not_keeps_reset : ¬ (reset : Call κ α).Keeps width t := id

/-- What was put down and outlasts every call made after. -/
def remembered (width : α) : List (Call κ α) → List (κ × α)
  | [] => []
  | .record key t :: later =>
      if ∀ call ∈ later, call.Keeps width t then (key, t) :: remembered width later
      else remembered width later
  | _ :: later => remembered width later

/-- The key's most recent record was made at `t`, and outlasts every call made
after. -/
def Holds (width : α) (key : κ) (t : α) (calls : List (Call κ α)) : Prop :=
  ∃ before later, calls = before ++ .record key t :: later ∧ (∀ m, .record key m ∉ later) ∧
    ∀ call ∈ later, call.Keeps width t

def Nondecreasing (calls : List (Call κ α)) : Prop := (calls.filterMap Call.instant).Pairwise (· ≤ ·)

theorem remembered_snoc (width : α) (calls : List (Call κ α)) (call : Call κ α) :
    remembered width (calls ++ [call]) =
      ((remembered width calls).filter fun s => call.Keeps width s.2) ++ call.recorded := by
  induction calls with
  | nil => cases call <;> rfl
  | cons c later ih =>
      cases c with
      | record key t =>
          have hall : (∀ c ∈ later ++ [call], c.Keeps width t) ↔
              (∀ c ∈ later, c.Keeps width t) ∧ call.Keeps width t := by
            simp [or_imp, forall_and]
          rw [List.cons_append, remembered, remembered, ih]
          by_cases hlater : ∀ c ∈ later, c.Keeps width t
          · by_cases hcall : call.Keeps width t
            · rw [if_pos (hall.mpr ⟨hlater, hcall⟩), if_pos hlater, List.filter_cons_of_pos (by simpa using hcall),
                List.cons_append]
            · rw [if_neg fun h => hcall (hall.mp h).2, if_pos hlater, List.filter_cons_of_neg (by simpa using hcall)]
          · rw [if_neg fun h => hlater (hall.mp h).1, if_neg hlater]
      | ask key t => exact ih
      | reset => exact ih

theorem not_holds_nil : ¬ Holds width key t ([] : List (Call κ α)) := by
  rintro ⟨before, later, h, -⟩
  exact List.append_ne_nil_of_right_ne_nil before (List.cons_ne_nil _ later) h.symm

theorem holds_snoc : Holds width key t (calls ++ [call]) ↔
    call = .record key t ∨ Holds width key t calls ∧ (∀ m, call ≠ .record key m) ∧ call.Keeps width t := by
  constructor
  · rintro ⟨before, later, h, hlast, hkeeps⟩
    rcases List.eq_nil_or_concat later with rfl | ⟨later, c, rfl⟩
    · exact .inl (List.singleton_inj.mp (List.append_inj' h rfl).2)
    · rw [List.concat_eq_append] at h hlast hkeeps
      rw [← List.cons_append, ← List.append_assoc] at h
      obtain ⟨hcalls, hc⟩ := List.append_inj' h rfl
      obtain rfl : call = c := List.singleton_inj.mp hc
      refine .inr ⟨⟨before, later, hcalls, fun m hm => hlast m (List.mem_append_left _ hm),
        fun c hc => hkeeps c (List.mem_append_left _ hc)⟩, fun m hm => hlast m ?_, hkeeps call ?_⟩
      · exact List.mem_append_right _ (hm ▸ List.mem_singleton_self call)
      · exact List.mem_append_right _ (List.mem_singleton_self call)
  · rintro (rfl | ⟨⟨before, later, rfl, hlast, hkeeps⟩, hcall, hkeep⟩)
    · exact ⟨calls, [], rfl, fun _ h => absurd h List.not_mem_nil, fun _ h => absurd h List.not_mem_nil⟩
    · refine ⟨before, later ++ [call], by simp, fun m hm => ?_, fun c hc => ?_⟩
      · rcases List.mem_append.mp hm with hm | hm
        · exact hlast m hm
        · exact hcall m (List.mem_singleton.mp hm).symm
      · rcases List.mem_append.mp hc with hc | hc
        · exact hkeeps c hc
        · exact List.mem_singleton.mp hc ▸ hkeep

omit [AddCommGroup α] [LinearOrder α] in
theorem record_mem_of_mem_recordedSince {s : κ × α} (h : s ∈ recordedSince calls) : .record s.1 s.2 ∈ calls := by
  obtain ⟨c, hc, hs⟩ := List.mem_flatMap.mp h
  have hcalls : c ∈ calls := (List.rtakeWhile_suffix _ calls).subset hc
  cases c with
  | record key t =>
      obtain rfl : s = (key, t) := List.mem_singleton.mp hs
      exact hcalls
  | ask | reset => exact absurd hs List.not_mem_nil

theorem record_mem_of_mem_remembered {s : κ × α} (h : s ∈ remembered width calls) : .record s.1 s.2 ∈ calls := by
  induction calls with
  | nil => exact absurd h List.not_mem_nil
  | cons c later ih =>
      cases c with
      | record key t =>
          rw [remembered] at h
          split at h
          · rcases List.mem_cons.mp h with rfl | h
            · exact List.mem_cons_self
            · exact List.mem_cons_of_mem _ (ih h)
          · exact List.mem_cons_of_mem _ (ih h)
      | ask | reset => exact List.mem_cons_of_mem _ (ih h)

theorem Holds.record_mem (h : Holds width key t calls) : .record key t ∈ calls := by
  obtain ⟨before, later, rfl, -⟩ := h
  exact List.mem_append_right _ List.mem_cons_self

omit [AddCommGroup α] in
theorem Nondecreasing.of_snoc (h : Nondecreasing (calls ++ [call])) : Nondecreasing calls := by
  rw [Nondecreasing, List.filterMap_append] at h
  exact (List.pairwise_append.mp h).1

omit [AddCommGroup α] in
theorem Nondecreasing.instant_le (h : Nondecreasing (calls ++ [call])) (hm : call.instant = some m) :
    ∀ c ∈ calls, ∀ t ∈ c.instant, t ≤ m := by
  intro c hc t ht
  rw [Nondecreasing, List.filterMap_append] at h
  refine (List.pairwise_append.mp h).2.2 t (List.mem_filterMap.mpr ⟨c, hc, ht⟩) m ?_
  exact List.mem_filterMap.mpr ⟨call, List.mem_singleton_self call, hm⟩

omit [AddCommGroup α] in
theorem Nondecreasing.le_last (h : Nondecreasing (calls ++ [call])) (hm : call.instant = some m)
    (hrec : .record key t ∈ calls) : t ≤ m :=
  h.instant_le hm _ hrec t rfl

variable [IsOrderedAddMonoid α]

theorem Call.keeps_iff (hm : call.instant = some m) : call.Keeps width t ↔ m - width < t ∧ t ≤ m := by
  cases call with
  | record key now | ask key now =>
      obtain rfl : now = m := Option.some.inj hm
      rw [sub_lt_iff_lt_add, and_comm]
      rfl
  | reset => cases hm

theorem remembered_snoc_of_instant (hm : call.instant = some m) : remembered width (calls ++ [call]) =
    ((remembered width calls).filter fun s => m - width < s.2 ∧ s.2 ≤ m) ++ call.recorded := by
  rw [remembered_snoc]
  congr 1
  exact List.filter_congr fun s _ => decide_eq_decide.mpr (Call.keeps_iff hm)

theorem filter_of_le {l : List (κ × α)} (hl : ∀ s ∈ l, s.2 ≤ m) (hmn : m ≤ n) :
    (l.filter fun s => m - width < s.2 ∧ s.2 ≤ m).filter (fun s => n - width < s.2 ∧ s.2 ≤ n) =
      l.filter fun s => n - width < s.2 ∧ s.2 ≤ n := by
  rw [List.filter_filter]
  refine List.filter_congr fun s hs => ?_
  have hlo : n - width < s.2 → m - width < s.2 := (sub_le_sub_right hmn width).trans_lt
  have hhi := hl s hs
  by_cases h : n - width < s.2
  · simp [h, hlo h, hhi]
  · simp [h]

theorem filter_remembered (hord : Nondecreasing calls) (hn : ∀ c ∈ calls, ∀ m ∈ c.instant, m ≤ n) :
    (remembered width calls).filter (fun s => n - width < s.2 ∧ s.2 ≤ n) =
      (recordedSince calls).filter fun s => n - width < s.2 ∧ s.2 ≤ n := by
  induction calls using List.reverseRecOn with
  | nil => rfl
  | append_singleton calls call ih =>
      have ih := ih hord.of_snoc fun c hc => hn c (List.mem_append_left _ hc)
      cases hm : call.instant with
      | none =>
          obtain rfl : call = .reset := by cases call <;> first | rfl | cases hm
          simp [remembered_snoc, Call.recorded]
      | some m =>
          have hmn : m ≤ n := hn call List.mem_concat_self m hm
          have hpast : ∀ s ∈ remembered width calls, s.2 ≤ m :=
            fun s hs => hord.le_last hm (record_mem_of_mem_remembered hs)
          rw [remembered_snoc_of_instant hm, recordedSince_snoc calls (by simp [hm]), List.filter_append,
            List.filter_append, filter_of_le hpast hmn, ih]

/-- What is left at an ask is what its window holds of the records. -/
theorem remembered_ask_of_nondecreasing (hord : Nondecreasing (calls ++ [.ask key n])) :
    remembered width (calls ++ [.ask key n]) =
      (recordedSince calls).filter fun s => n - width < s.2 ∧ s.2 ≤ n := by
  rw [remembered_snoc_of_instant (m := n) rfl, Call.recorded, List.append_nil,
    filter_remembered hord.of_snoc (hord.instant_le rfl)]

theorem holds_snoc_of_ne (hord : Nondecreasing (calls ++ [call])) (hmn : m ≤ n) (hm : call.instant = some m)
    (hne : ∀ t, call ≠ .record key t) :
    (∃ t, Holds width key t (calls ++ [call]) ∧ n - width < t ∧ t ≤ n) ↔
      ∃ t, Holds width key t calls ∧ n - width < t ∧ t ≤ n := by
  refine exists_congr fun t => and_congr_left fun ht => ?_
  rw [holds_snoc, Call.keeps_iff hm]
  constructor
  · rintro (h | ⟨h, -⟩)
    · exact absurd h (hne t)
    · exact h
  · intro h
    exact .inr ⟨h, hne, (sub_le_sub_right hmn width).trans_lt ht.1, hord.le_last hm h.record_mem⟩

theorem holds_iff_recordedSince (hord : Nondecreasing calls) (hn : ∀ c ∈ calls, ∀ m ∈ c.instant, m ≤ n) :
    (∃ t, Holds width key t calls ∧ n - width < t ∧ t ≤ n) ↔
      ∃ t, (key, t) ∈ recordedSince calls ∧ n - width < t ∧ t ≤ n := by
  induction calls using List.reverseRecOn with
  | nil => simp [not_holds_nil, recordedSince]
  | append_singleton calls call ih =>
      have ih := ih hord.of_snoc fun c hc => hn c (List.mem_append_left _ hc)
      cases call with
      | reset => simp [holds_snoc]
      | ask k m =>
          rw [recordedSince_snoc calls rfl, Call.recorded, List.append_nil, ← ih]
          exact holds_snoc_of_ne hord (hn _ List.mem_concat_self m rfl) rfl nofun
      | record k m =>
          have hmn : m ≤ n := hn _ List.mem_concat_self m rfl
          rw [recordedSince_snoc calls rfl, Call.recorded]
          by_cases hk : k = key
          · -- the record is the key's latest, and any earlier one in the window leaves it there too
            subst hk
            constructor
            · rintro ⟨t, h, ht⟩
              rcases holds_snoc.mp h with h | ⟨-, h, -⟩
              · obtain rfl : m = t := (Call.record.inj h).2
                exact ⟨m, List.mem_concat_self, ht⟩
              · exact absurd rfl (h m)
            · rintro ⟨t, h, ht⟩
              refine ⟨m, holds_snoc.mpr (.inl rfl), ?_, hmn⟩
              rcases List.mem_append.mp h with h | h
              · exact ht.1.trans_le (hord.le_last rfl (record_mem_of_mem_recordedSince h))
              · obtain rfl : t = m := congrArg Prod.snd (List.mem_singleton.mp h)
                exact ht.1
          · have hne : ∀ t, (key, t) ∈ recordedSince calls ++ [(k, m)] ↔ (key, t) ∈ recordedSince calls := by
              intro t
              simp [Ne.symm hk]
            simp only [hne, ← ih]
            exact holds_snoc_of_ne hord hmn rfl fun _ h => hk (Call.record.inj h).1

theorem holds_ask_of_nondecreasing (hord : Nondecreasing (calls ++ [.ask key n])) :
    (∃ t, Holds width key t (calls ++ [.ask key n])) ↔
      ∃ t, (key, t) ∈ recordedSince calls ∧ n - width < t ∧ t ≤ n := by
  rw [← holds_iff_recordedSince hord.of_snoc (hord.instant_le rfl)]
  refine exists_congr fun t => ?_
  rw [holds_snoc, Call.keeps_iff (m := n) rfl]
  simp

end PretradeRisk.Recall
