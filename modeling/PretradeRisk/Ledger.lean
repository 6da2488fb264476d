import Mathlib.Algebra.BigOperators.Group.List.Basic
import Mathlib.Algebra.Order.Group.Defs
import Mathlib.Order.Bounds.Basic
import Mathlib.Tactic

namespace PretradeRisk.Ledger

variable {α : Type} [AddCommGroup α] [LinearOrder α]

/-- The greatest running total, that of the empty prefix included. -/
def IsHighWater (xs : List α) (peak : α) : Prop := IsGreatest (Set.range fun k => (xs.take k).sum) peak

omit [LinearOrder α] in
theorem range_take_sum_snoc (xs : List α) (x : α) :
    (Set.range fun k => ((xs ++ [x]).take k).sum) =
      insert (xs.sum + x) (Set.range fun k => (xs.take k).sum) := by
  ext y
  simp only [Set.mem_range, Set.mem_insert_iff]
  constructor
  · rintro ⟨k, rfl⟩
    rcases Nat.lt_or_ge xs.length k with hk | hk
    · left
      rw [List.take_of_length_le (by simpa using hk), List.sum_append, List.sum_singleton]
    · right
      exact ⟨k, by rw [List.take_append_of_le_length hk]⟩
  · rintro (rfl | ⟨k, rfl⟩)
    · exact ⟨xs.length + 1, by rw [List.take_of_length_le (by simp), List.sum_append, List.sum_singleton]⟩
    · refine ⟨min k xs.length, ?_⟩
      rw [List.take_append_of_le_length (Nat.min_le_right _ _)]
      rcases Nat.le_total k xs.length with hk | hk
      · rw [Nat.min_eq_left hk]
      · rw [Nat.min_eq_right hk, List.take_length, List.take_of_length_le hk]

theorem isHighWater_nil : IsHighWater ([] : List α) 0 :=
  ⟨⟨0, rfl⟩, fun y ⟨k, hk⟩ => by simp [← hk]⟩

theorem IsHighWater.snoc {xs : List α} {peak : α} (h : IsHighWater xs peak) (x : α) :
    IsHighWater (xs ++ [x]) (max peak (xs.sum + x)) := by
  rw [IsHighWater]
  rw [range_take_sum_snoc, max_comm]
  exact IsGreatest.insert _ h

/-- How far the running total is below its high water mark. -/
def drawdown (xs : List α) : α := xs.foldl (fun d x => max (d - x) 0) 0

theorem drawdown_snoc (xs : List α) (x : α) : drawdown (xs ++ [x]) = max (drawdown xs - x) 0 := by
  rw [drawdown, List.foldl_append]
  rfl

theorem drawdown_nonneg (xs : List α) : 0 ≤ drawdown xs := by
  induction xs using List.reverseRecOn with
  | nil => exact le_rfl
  | append_singleton xs x _ =>
      rw [drawdown_snoc]
      exact le_max_right _ _

theorem IsHighWater.nonneg {xs : List α} {peak : α} (h : IsHighWater xs peak) : 0 ≤ peak :=
  h.2 ⟨0, rfl⟩

theorem IsHighWater.sum_le {xs : List α} {peak : α} (h : IsHighWater xs peak) : xs.sum ≤ peak :=
  h.2 ⟨xs.length, by simp⟩

section Drawdown

variable [IsOrderedAddMonoid α]

theorem exists_isHighWater (xs : List α) : ∃ peak, IsHighWater xs peak ∧ drawdown xs = peak - xs.sum := by
  induction xs using List.reverseRecOn with
  | nil => exact ⟨0, isHighWater_nil, by simp [drawdown]⟩
  | append_singleton xs x ih =>
      obtain ⟨peak, hpeak, hdrawdown⟩ := ih
      refine ⟨_, hpeak.snoc x, ?_⟩
      rw [drawdown_snoc, hdrawdown, List.sum_append, List.sum_singleton, ← max_sub_sub_right, sub_self, sub_sub]

theorem IsHighWater.drawdown_eq {xs : List α} {peak : α} (h : IsHighWater xs peak) : drawdown xs = peak - xs.sum := by
  obtain ⟨peak', hpeak', hdrawdown⟩ := exists_isHighWater xs
  rw [hdrawdown, h.unique hpeak']

theorem drawdown_snoc_le (xs : List α) (x : α) : drawdown (xs ++ [x]) ≤ drawdown xs + max (-x) 0 := by
  rw [drawdown_snoc]
  refine max_le ?_ (add_nonneg (drawdown_nonneg xs) (le_max_right _ _))
  calc drawdown xs - x = drawdown xs + -x := sub_eq_add_neg _ _
    _ ≤ drawdown xs + max (-x) 0 := add_le_add_right (le_max_left _ _) _

end Drawdown

end PretradeRisk.Ledger
