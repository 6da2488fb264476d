import Mathlib.Algebra.Order.BigOperators.Group.List
import Mathlib.Tactic

namespace PretradeRisk.Tickets

variable {α : Type} [AddCommGroup α] [LinearOrder α] [IsOrderedAddMonoid α]

/-- What is used and the tickets that are out overshoot the capacity by all
the tickets that can be out but one. -/
structure Within (cap most : α) (slots : ℕ) (used : α) (out : List α) : Prop where
  length : out.length ≤ slots
  amounts : ∀ x ∈ out, 0 ≤ x ∧ x ≤ most
  sum : used + out.sum + most ≤ cap + slots • most

variable {cap most used used' x : α} {slots : ℕ} {out before after : List α}

theorem sum_le_nsmul (h : ∀ x ∈ out, 0 ≤ x ∧ x ≤ most) : out.sum ≤ out.length • most :=
  List.sum_le_card_nsmul out most fun x hx => (h x hx).2

theorem within_fresh (hlength : out.length ≤ slots) (hamounts : ∀ x ∈ out, 0 ≤ x ∧ x ≤ most) (hpos : 0 ≤ most)
    (hmost : most ≤ cap) : Within cap most slots 0 out := by
  refine ⟨hlength, hamounts, ?_⟩
  have hsum : out.sum ≤ slots • most := (sum_le_nsmul hamounts).trans (nsmul_le_nsmul_left hpos hlength)
  calc 0 + out.sum + most = out.sum + most := by rw [zero_add]
    _ ≤ slots • most + cap := add_le_add hsum hmost
    _ = cap + slots • most := add_comm _ _

theorem within_start (hpos : 0 ≤ most) (hmost : most ≤ cap) : Within cap most slots 0 [] :=
  within_fresh (Nat.zero_le _) (by simp) hpos hmost

theorem Within.issue (h : Within cap most slots used out) (hx : 0 ≤ x ∧ x ≤ most) (hroom : used + x ≤ cap)
    (hslot : out.length < slots) : Within cap most slots used (x :: out) := by
  refine ⟨hslot, List.forall_mem_cons.mpr ⟨hx, h.amounts⟩, ?_⟩
  have hsum : out.sum + most ≤ slots • most := by
    calc out.sum + most ≤ out.length • most + most := add_le_add_left (sum_le_nsmul h.amounts) most
      _ = (out.length + 1) • most := (succ_nsmul most out.length).symm
      _ ≤ slots • most := nsmul_le_nsmul_left (hx.1.trans hx.2) hslot
  calc used + (x :: out).sum + most = used + x + (out.sum + most) := by rw [List.sum_cons]; abel
    _ ≤ cap + slots • most := add_le_add hroom hsum

theorem Within.draw {y : α} (h : Within cap most slots used (before ++ x :: after)) (hy : 0 ≤ y ∧ y ≤ x) :
    Within cap most slots (used + y) (before ++ (x - y) :: after) := by
  have hsum := h.sum
  rw [List.sum_append, List.sum_cons] at hsum
  refine ⟨by simpa only [List.length_append, List.length_cons] using h.length, fun z hz => ?_, ?_⟩
  · rcases List.mem_append.mp hz with hz | hz
    · exact h.amounts z (List.mem_append_left _ hz)
    · rcases List.mem_cons.mp hz with rfl | hz
      · exact ⟨sub_nonneg.mpr hy.2, (sub_le_self x hy.1).trans (h.amounts x (by simp)).2⟩
      · exact h.amounts z (List.mem_append_right _ (List.mem_cons_of_mem _ hz))
  · calc used + y + (before ++ (x - y) :: after).sum + most = used + (before.sum + (x + after.sum)) + most := by
          rw [List.sum_append, List.sum_cons]; abel
      _ ≤ cap + slots • most := hsum

omit [IsOrderedAddMonoid α] in
theorem Within.spend (h : Within cap most slots used (before ++ x :: after)) :
    Within cap most slots (used + x) (before ++ after) := by
  have hlength := h.length
  have hsum := h.sum
  rw [List.sum_append, List.sum_cons] at hsum
  refine ⟨by simp only [List.length_append, List.length_cons] at hlength ⊢; omega, fun y hy => h.amounts y ?_, ?_⟩
  · exact (List.Sublist.append_left (List.sublist_cons_self x after) before).mem hy
  · calc used + x + (before ++ after).sum + most = used + (before.sum + (x + after.sum)) + most := by
          rw [List.sum_append]; abel
      _ ≤ cap + slots • most := hsum

theorem Within.ease (h : Within cap most slots used out) (hle : used' ≤ used) : Within cap most slots used' out :=
  ⟨h.length, h.amounts, (add_le_add_left (add_le_add_left hle out.sum) most).trans h.sum⟩

theorem Within.void (h : Within cap most slots used (before ++ x :: after)) :
    Within cap most slots used (before ++ after) :=
  h.spend.ease (le_add_of_nonneg_right (h.amounts x (by simp)).1)

theorem Within.used_le (h : Within cap most slots used out) : used + most ≤ cap + slots • most := by
  have hpos : 0 ≤ out.sum := List.sum_nonneg fun x hx => (h.amounts x hx).1
  exact (add_le_add_left (le_add_of_nonneg_right hpos) most).trans h.sum

end PretradeRisk.Tickets
