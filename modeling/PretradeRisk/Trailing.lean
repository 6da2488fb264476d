import Mathlib.Algebra.Order.Floor.Ring
import Mathlib.Algebra.Order.Group.Defs
import Mathlib.Data.List.DropRight
import Mathlib.Tactic

namespace PretradeRisk.Trailing

variable {α : Type} [AddCommGroup α] [LinearOrder α] {width m n : α} {ts : List α}

/-- The window is half open: an instant exactly `width` old has left it. -/
def trailing (width n : α) (ts : List α) : List α := ts.filter fun t => n - width < t ∧ t ≤ n

omit [AddCommGroup α] in
theorem dropWhile_eq_filter (h : ts.Pairwise (· ≤ ·)) (c : α) :
    ts.dropWhile (· ≤ c) = ts.filter (c < ·) := by
  induction ts with
  | nil => rfl
  | cons t ts ih =>
      obtain ⟨hle, hts⟩ := List.pairwise_cons.mp h
      by_cases ht : t ≤ c
      · rw [List.dropWhile_cons_of_pos (by simpa using ht), ih hts, List.filter_cons_of_neg (by simpa using ht)]
      · have hall : ∀ s ∈ t :: ts, decide (c < s) = true := by
          rw [not_le] at ht
          simp only [List.mem_cons, forall_eq_or_imp, decide_eq_true_eq]
          exact ⟨ht, fun s hs => ht.trans_le (hle s hs)⟩
        rw [List.dropWhile_cons_of_neg (by simpa using ht), List.filter_eq_self.mpr hall]

omit [AddCommGroup α] in
theorem rdropWhile_eq_filter (h : ts.Pairwise (· ≤ ·)) (c : α) :
    ts.rdropWhile (c < ·) = ts.filter (· ≤ c) := by
  induction ts using List.reverseRecOn with
  | nil => rfl
  | append_singleton ts t ih =>
      obtain ⟨hts, -, hle⟩ := List.pairwise_append.mp h
      by_cases ht : c < t
      · rw [List.rdropWhile_concat_pos _ _ _ (by simpa using ht), ih hts, List.filter_append,
          List.filter_cons_of_neg (by simpa using ht), List.filter_nil, List.append_nil]
      · have hall : ∀ s ∈ ts ++ [t], decide (s ≤ c) = true := by
          rw [not_lt] at ht
          intro s hs
          rcases List.mem_append.mp hs with hs | hs
          · exact decide_eq_true ((hle s hs t (List.mem_singleton_self t)).trans ht)
          · exact decide_eq_true (List.mem_singleton.mp hs ▸ ht)
        rw [List.rdropWhile_concat_neg _ _ _ (by simpa using ht), List.filter_eq_self.mpr hall]

theorem trailing_eq_filter (h : ∀ t ∈ ts, t ≤ n) : trailing width n ts = ts.filter (n - width < ·) := by
  refine List.filter_congr fun t ht => ?_
  simp [h t ht]

variable [IsOrderedAddMonoid α]

theorem filter_trailing (h : ∀ t ∈ ts, t ≤ m) (hmn : m ≤ n) :
    (trailing width m ts).filter (n - width < ·) = trailing width n ts := by
  rw [trailing_eq_filter h, trailing_eq_filter fun t ht => (h t ht).trans hmn, List.filter_filter]
  refine List.filter_congr fun t _ => ?_
  have hle : m - width ≤ n - width := sub_le_sub_right hmn width
  by_cases ht : n - width < t
  · simp [ht, hle.trans_lt ht]
  · simp [ht]

theorem length_trailing_le_of_le (width : α) (h : ∀ t ∈ ts, t ≤ m) (hmn : m ≤ n) :
    (trailing width n ts).length ≤ (trailing width m ts).length := by
  rw [← filter_trailing h hmn]
  exact List.length_filter_le _ _

theorem length_trailing_snoc_le (width : α) (h : ∀ t ∈ ts, t ≤ m) (n : α) :
    (trailing width n (ts ++ [m])).length ≤
      max (trailing width n ts).length ((trailing width m ts).length + 1) := by
  by_cases hm : n - width < m ∧ m ≤ n
  · have hlen : (trailing width n (ts ++ [m])).length = (trailing width n ts).length + 1 := by
      simp [trailing, List.filter_append, hm]
    rw [hlen]
    refine le_max_of_le_right (Nat.succ_le_succ ?_)
    rw [trailing, trailing, ← List.countP_eq_length_filter, ← List.countP_eq_length_filter]
    refine List.countP_mono_left fun t ht hin => ?_
    rw [decide_eq_true_eq] at hin ⊢
    exact ⟨(sub_le_sub_right hm.2 width).trans_lt hin.1, h t ht⟩
  · have hlen : trailing width n (ts ++ [m]) = trailing width n ts := by
      simp [trailing, List.filter_append, hm]
    rw [hlen]
    exact le_max_left _ _

/-- Between two whole instants a window over whole instants does not change. -/
theorem length_trailing_floor {K : Type} [Ring K] [LinearOrder K] [IsStrictOrderedRing K] [FloorRing K]
    (width : ℤ) (t : K) (ts : List ℤ) :
    (trailing (width : K) t (ts.map (Int.cast : ℤ → K))).length = (trailing width ⌊t⌋ ts).length := by
  rw [trailing, List.filter_map, List.length_map, trailing]
  refine congrArg List.length (List.filter_congr fun s _ => ?_)
  have hlo : t - width < s ↔ ⌊t⌋ - width < s := by
    rw [sub_lt_iff_lt_add, sub_lt_iff_lt_add, Int.floor_lt]
    push_cast
    rfl
  simp only [Function.comp_apply, hlo, Int.le_floor]

end PretradeRisk.Trailing
