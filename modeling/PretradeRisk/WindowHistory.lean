import PretradeRisk.Recall
import PretradeRisk.Trailing
import PretradeRisk.Windows

namespace PretradeRisk.WindowHistory

open Windows Recall

def rateCall (w : RateWindow) : Call Unit ℤ → RateWindow
  | .record _ nowMillis => w.record nowMillis
  | .ask _ nowMillis => (w.count nowMillis).2
  | .reset => w.reset

def duplicateCall (w : DuplicateWindow) : Call String ℤ → DuplicateWindow
  | .record fingerprint nowMillis => w.record fingerprint nowMillis
  | .ask fingerprint nowMillis => (w.seenWithinWindow fingerprint nowMillis).2
  | .reset => w.reset

variable {width : ℤ} (hwidth : 0 < width)

def newRate : RateWindow := ⟨width, hwidth, []⟩

def newDuplicate : DuplicateWindow := ⟨width, hwidth, fun _ => none⟩

theorem prune_events {w : RateWindow} (h : w.events.Pairwise (· ≤ ·)) (n : ℤ) :
    (w.prune n).events = w.events.filter fun t => n - w.windowMillis < t ∧ t ≤ n := by
  have hdrop := h.sublist (List.dropWhile_sublist (· ≤ n - w.windowMillis))
  simp only [RateWindow.prune]
  rw [Trailing.rdropWhile_eq_filter hdrop, Trailing.dropWhile_eq_filter h, List.filter_filter]
  exact List.filter_congr fun t _ => by simp [and_comm]

theorem prune_sorted {w : RateWindow} (h : w.events.Pairwise (· ≤ ·)) (n : ℤ) :
    (w.prune n).events.Pairwise (· ≤ ·) := by
  rw [prune_events h]
  exact h.filter _

theorem rateCall_sorted {w : RateWindow} (h : w.events.Pairwise (· ≤ ·)) (call : Call Unit ℤ) :
    (rateCall w call).events.Pairwise (· ≤ ·) := by
  cases call with
  | record _ n =>
      refine List.pairwise_append.mpr ⟨prune_sorted h n, List.pairwise_singleton _ n, fun t ht m hm => ?_⟩
      rw [prune_events h, List.mem_filter, decide_eq_true_eq] at ht
      exact List.mem_singleton.mp hm ▸ ht.2.2
  | ask _ n => exact prune_sorted h n
  | reset => exact List.Pairwise.nil

/-- The window after the calls remembers what the calls allow. -/
structure Remembers (w : RateWindow) (width : ℤ) (calls : List (Call Unit ℤ)) : Prop where
  width_eq : w.windowMillis = width
  sorted : w.events.Pairwise (· ≤ ·)
  events_eq : w.events = (remembered width calls).map Prod.snd

theorem Remembers.call {w : RateWindow} {calls : List (Call Unit ℤ)} (h : Remembers w width calls)
    (call : Call Unit ℤ) : Remembers (rateCall w call) width (calls ++ [call]) := by
  refine ⟨?_, rateCall_sorted h.sorted call, ?_⟩
  · cases call with
    | record | ask | reset => exact h.width_eq
  · have hprune : ∀ n, (w.prune n).events =
        ((remembered width calls).filter fun s => n - width < s.2 ∧ s.2 ≤ n).map Prod.snd := by
      intro n
      rw [prune_events h.sorted, h.events_eq, h.width_eq, List.filter_map]
      rfl
    cases call with
    | record k n =>
        rw [remembered_snoc_of_instant (m := n) rfl, List.map_append, ← hprune]
        rfl
    | ask k n =>
        rw [remembered_snoc_of_instant (m := n) rfl, Call.recorded, List.append_nil, ← hprune]
        rfl
    | reset => simp [remembered_snoc, Call.recorded, rateCall, RateWindow.reset]

theorem remembers_after (calls : List (Call Unit ℤ)) :
    Remembers (calls.foldl rateCall (newRate hwidth)) width calls := by
  induction calls using List.reverseRecOn with
  | nil => exact ⟨rfl, List.Pairwise.nil, rfl⟩
  | append_singleton calls call ih =>
      rw [List.foldl_append]
      exact ih.call call

theorem Remembers.count_eq {w : RateWindow} {calls : List (Call Unit ℤ)} (h : Remembers w width calls) (n : ℤ) :
    (w.count n).1 = (remembered width (calls ++ [.ask () n])).length := by
  have hask := (h.call (.ask () n)).events_eq
  rw [← List.length_map (f := Prod.snd), ← hask]
  rfl

/-- A fingerprint is in the window iff the calls let it stay. -/
structure Recalls (w : DuplicateWindow) (width : ℤ) (calls : List (Call String ℤ)) : Prop where
  width_eq : w.windowMillis = width
  seen_iff : ∀ key t, w.seen key = some t ↔ Holds width key t calls

theorem Recalls.call {w : DuplicateWindow} {calls : List (Call String ℤ)} (h : Recalls w width calls)
    (call : Call String ℤ) : Recalls (duplicateCall w call) width (calls ++ [call]) := by
  have hprune : ∀ n key t, (w.prune n).seen key = some t ↔ Holds width key t calls ∧ n - width < t ∧ t ≤ n := by
    intro n key t
    rw [DuplicateWindow.seen_prune_eq_some, h.seen_iff, h.width_eq]
  refine ⟨?_, fun key t => ?_⟩
  · cases call with
    | record | ask | reset => exact h.width_eq
  · cases call with
    | record fingerprint n =>
        rw [holds_snoc, Call.keeps_iff (m := n) rfl]
        by_cases hkey : key = fingerprint
        · subst hkey
          simp [duplicateCall, DuplicateWindow.record]
        · simp [duplicateCall, DuplicateWindow.record, Function.update_of_ne hkey, hprune, Ne.symm hkey]
    | ask fingerprint n =>
        rw [holds_snoc, Call.keeps_iff (m := n) rfl]
        simp [duplicateCall, DuplicateWindow.seenWithinWindow, hprune]
    | reset => simp [duplicateCall, DuplicateWindow.reset, holds_snoc]

theorem recalls_after (calls : List (Call String ℤ)) :
    Recalls (calls.foldl duplicateCall (newDuplicate hwidth)) width calls := by
  induction calls using List.reverseRecOn with
  | nil => exact ⟨rfl, fun key t => iff_of_false nofun not_holds_nil⟩
  | append_singleton calls call ih =>
      rw [List.foldl_append]
      exact ih.call call

theorem Recalls.seenWithinWindow_iff {w : DuplicateWindow} {calls : List (Call String ℤ)}
    (h : Recalls w width calls) (fingerprint : String) (n : ℤ) :
    (w.seenWithinWindow fingerprint n).1 = true ↔
      ∃ t, Holds width fingerprint t (calls ++ [.ask fingerprint n]) := by
  rw [DuplicateWindow.seenWithinWindow, Option.isSome_iff_exists]
  exact exists_congr fun t => (h.call (.ask fingerprint n)).seen_iff fingerprint t

/-- The windows remember what the calls allow, whatever their instants. Where
no instant goes back, that is what was put down in the half-open window behind
the last one. -/
theorem windows_remember :
    (∀ (calls : List (Call Unit ℤ)) (n : ℤ),
      let w := calls.foldl rateCall (newRate hwidth)
      w.events.Pairwise (· ≤ ·) ∧
      (w.count n).1 = (remembered width (calls ++ [.ask () n])).length ∧
      (Nondecreasing (calls ++ [.ask () n]) →
        (w.count n).1 = ((recordedSince calls).filter fun s => n - width < s.2 ∧ s.2 ≤ n).length)) ∧
    ∀ (calls : List (Call String ℤ)) (fingerprint : String) (n : ℤ),
      let w := calls.foldl duplicateCall (newDuplicate hwidth)
      ((w.seenWithinWindow fingerprint n).1 = true ↔
        ∃ t, Holds width fingerprint t (calls ++ [.ask fingerprint n])) ∧
      (Nondecreasing (calls ++ [.ask fingerprint n]) → ((w.seenWithinWindow fingerprint n).1 = true ↔
        ∃ t, (fingerprint, t) ∈ recordedSince calls ∧ n - width < t ∧ t ≤ n)) := by
  constructor
  · intro calls n w
    have h : Remembers w width calls := remembers_after hwidth calls
    refine ⟨h.sorted, h.count_eq n, fun hord => ?_⟩
    rw [h.count_eq, remembered_ask_of_nondecreasing hord]
  · intro calls fingerprint n w
    have h : Recalls w width calls := recalls_after hwidth calls
    refine ⟨h.seenWithinWindow_iff fingerprint n, fun hord => ?_⟩
    rw [h.seenWithinWindow_iff, holds_ask_of_nondecreasing hord]

/-- What a step back of the clock has lost is not found again once the clock
has caught up. -/
theorem windows_remember_step_back :
    (([.record () 5, .record () 9, .ask () 6].foldl rateCall (newRate (by decide : (0 : ℤ) < 10))).count 9).1 = 1 ∧
    ¬ (([.record "a" 9, .ask "b" 6].foldl duplicateCall
      (newDuplicate (by decide : (0 : ℤ) < 10))).seenWithinWindow "a" 9).1 = true := by
  obtain ⟨hrate, hduplicate⟩ := windows_remember (by decide : (0 : ℤ) < 10)
  refine ⟨(hrate _ 9).2.1, ?_⟩
  rw [(hduplicate _ "a" 9).1]
  rintro ⟨t, h⟩
  have h' : Holds 10 "a" t ((([] ++ [.record "a" 9]) ++ [.ask "b" 6]) ++ [.ask "a" 9]) := h
  rw [holds_snoc, holds_snoc, holds_snoc] at h'
  have hback : (9 = t ∧ t ≤ 6 ∧ 6 < t + 10) ∧ t ≤ 9 ∧ 9 < t + 10 := by simpa [not_holds_nil, Call.Keeps] using h'
  omega

end PretradeRisk.WindowHistory
