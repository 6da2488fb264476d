import Mathlib.Data.List.DropRight
import Mathlib.Tactic

namespace PretradeRisk.Windows

/-- A trailing window of event instants, oldest first. The constructor raises
on a length that is not positive. -/
@[ext] structure RateWindow where
  windowMillis : ℤ
  positive : 0 < windowMillis
  events : List ℤ

/-- Drop the expired instants from the left end, and the instants a backward
step has left in the future from the right end. -/
def RateWindow.prune (w : RateWindow) (nowMillis : ℤ) : RateWindow :=
  let cutoff := nowMillis - w.windowMillis
  { w with events := (w.events.dropWhile (· ≤ cutoff)).rdropWhile (nowMillis < ·) }

def RateWindow.count (w : RateWindow) (nowMillis : ℤ) : ℕ × RateWindow :=
  let w := w.prune nowMillis
  (w.events.length, w)

def RateWindow.record (w : RateWindow) (nowMillis : ℤ) : RateWindow :=
  let w := w.prune nowMillis
  { w with events := w.events ++ [nowMillis] }

def RateWindow.reset (w : RateWindow) : RateWindow := { w with events := [] }

/-- The fingerprints seen recently, each with its latest instant. -/
@[ext] structure DuplicateWindow where
  windowMillis : ℤ
  positive : 0 < windowMillis
  seen : String → Option ℤ

def DuplicateWindow.prune (w : DuplicateWindow) (nowMillis : ℤ) : DuplicateWindow :=
  let cutoff := nowMillis - w.windowMillis
  { w with seen := fun key => (w.seen key).filter fun seenAt => ¬ (seenAt ≤ cutoff ∨ nowMillis < seenAt) }

def DuplicateWindow.seenWithinWindow (w : DuplicateWindow) (fingerprint : String) (nowMillis : ℤ) :
    Bool × DuplicateWindow :=
  let w := w.prune nowMillis
  ((w.seen fingerprint).isSome, w)

def DuplicateWindow.record (w : DuplicateWindow) (fingerprint : String) (nowMillis : ℤ) :
    DuplicateWindow :=
  let w := w.prune nowMillis
  { w with seen := Function.update w.seen fingerprint (some nowMillis) }

def DuplicateWindow.reset (w : DuplicateWindow) : DuplicateWindow := { w with seen := fun _ => none }

@[simp] theorem RateWindow.prune_windowMillis (w : RateWindow) (n : ℤ) :
    (w.prune n).windowMillis = w.windowMillis := rfl

@[simp] theorem RateWindow.record_windowMillis (w : RateWindow) (n : ℤ) :
    (w.record n).windowMillis = w.windowMillis := rfl

@[simp] theorem DuplicateWindow.prune_windowMillis (w : DuplicateWindow) (n : ℤ) :
    (w.prune n).windowMillis = w.windowMillis := rfl

@[simp] theorem DuplicateWindow.record_windowMillis (w : DuplicateWindow) (fp : String) (n : ℤ) :
    (w.record fp n).windowMillis = w.windowMillis := rfl

theorem DuplicateWindow.eq_of_unseen {a b : Option DuplicateWindow} (ha : ∀ w ∈ a, w.seen = fun _ => none)
    (hb : ∀ w ∈ b, w.seen = fun _ => none) (h : a.map windowMillis = b.map windowMillis) : a = b := by
  cases a with
  | none => cases b with
    | none => rfl
    | some w => cases h
  | some v => cases b with
    | none => cases h
    | some w =>
        have hmillis : v.windowMillis = w.windowMillis := Option.some.inj h
        exact congrArg some (DuplicateWindow.ext hmillis ((ha v rfl).trans (hb w rfl).symm))

theorem drop_ends_idem {α : Type} (p q : α → Bool) (l : List α) :
    (((l.dropWhile p).rdropWhile q).dropWhile p).rdropWhile q = (l.dropWhile p).rdropWhile q := by
  have hhead : ((l.dropWhile p).rdropWhile q).dropWhile p = (l.dropWhile p).rdropWhile q := by
    rw [List.dropWhile_eq_self_iff]
    intro hpos
    have hpre := List.rdropWhile_prefix q (l.dropWhile p)
    have hlen : 0 < (l.dropWhile p).length := hpos.trans_le hpre.length_le
    have hget : ((l.dropWhile p).rdropWhile q)[0] = (l.dropWhile p)[0] := hpre.getElem hpos
    have hdrop := List.dropWhile_get_zero_not p l hlen
    simpa [hget] using hdrop
  rw [hhead, List.rdropWhile_idempotent]

@[simp] theorem RateWindow.prune_prune (w : RateWindow) (n : ℤ) :
    (w.prune n).prune n = w.prune n :=
  RateWindow.ext rfl (drop_ends_idem _ _ _)

@[simp] theorem DuplicateWindow.prune_prune (w : DuplicateWindow) (n : ℤ) :
    (w.prune n).prune n = w.prune n := by
  refine DuplicateWindow.ext rfl (funext fun key => ?_)
  simp only [DuplicateWindow.prune, Option.filter_filter]
  congr 1
  funext seenAt
  exact Bool.and_self _

def RateWindow.Past (w : RateWindow) (n : ℤ) : Prop := ∀ t ∈ w.events, t ≤ n

def DuplicateWindow.Past (w : DuplicateWindow) (n : ℤ) : Prop := ∀ key t, w.seen key = some t → t ≤ n

theorem RateWindow.prune_events_of_past {w : RateWindow} {n : ℤ} (h : w.Past n) :
    (w.prune n).events = w.events.dropWhile (· ≤ n - w.windowMillis) := by
  refine List.rdropWhile_eq_self_iff.mpr fun hne hlast => ?_
  have hmem := (List.dropWhile_sublist _).mem (List.getLast_mem hne)
  exact absurd (h _ hmem) (not_le.mpr (by simpa using hlast))

theorem RateWindow.mem_of_mem_prune {w : RateWindow} {n t : ℤ} (h : t ∈ (w.prune n).events) : t ∈ w.events :=
  (List.dropWhile_sublist _).mem ((List.rdropWhile_prefix _ _).mem h)

theorem RateWindow.Past.prune {w : RateWindow} {m n : ℤ} (h : w.Past m) : (w.prune n).Past m :=
  fun t ht => h t (RateWindow.mem_of_mem_prune ht)

theorem RateWindow.Past.record {w : RateWindow} {m n : ℤ} (h : w.Past m) (hnm : n ≤ m) : (w.record n).Past m := by
  intro t ht
  rcases List.mem_append.mp (show t ∈ (w.prune n).events ++ [n] from ht) with ht | ht
  · exact h.prune t ht
  · exact List.mem_singleton.mp ht ▸ hnm

theorem dropWhile_dropWhile_of_imp {α : Type} {p q : α → Bool} (h : ∀ a, p a = true → q a = true) (l : List α) :
    (l.dropWhile p).dropWhile q = l.dropWhile q := by
  induction l with
  | nil => rfl
  | cons a l ih =>
      by_cases hp : p a = true
      · rw [List.dropWhile_cons_of_pos hp, ih, List.dropWhile_cons_of_pos (h a hp)]
      · rw [List.dropWhile_cons_of_neg hp]

theorem RateWindow.prune_prune_of_past {w : RateWindow} {m n : ℤ} (h : w.Past m) (hmn : m ≤ n) :
    (w.prune m).prune n = w.prune n := by
  have hm : (w.prune m).Past n := fun t ht => (h t (mem_of_mem_prune ht)).trans hmn
  refine RateWindow.ext rfl ?_
  rw [prune_events_of_past hm, prune_events_of_past h, prune_events_of_past fun t ht => (h t ht).trans hmn]
  refine dropWhile_dropWhile_of_imp (fun t ht => ?_) _
  rw [decide_eq_true_eq] at ht ⊢
  exact ht.trans (sub_le_sub_right hmn _)

theorem DuplicateWindow.seen_prune_eq_some {w : DuplicateWindow} {n t : ℤ} {key : String} :
    (w.prune n).seen key = some t ↔ w.seen key = some t ∧ n - w.windowMillis < t ∧ t ≤ n := by
  simp [DuplicateWindow.prune, Option.filter_eq_some_iff]

theorem DuplicateWindow.Past.prune {w : DuplicateWindow} {m n : ℤ} (h : w.Past m) : (w.prune n).Past m :=
  fun key t ht => h key t (DuplicateWindow.seen_prune_eq_some.mp ht).1

theorem DuplicateWindow.Past.record {w : DuplicateWindow} {m n : ℤ} {fingerprint : String} (h : w.Past m)
    (hnm : n ≤ m) : (w.record fingerprint n).Past m := by
  intro key t ht
  by_cases hkey : key = fingerprint
  · obtain rfl : n = t := by simpa [DuplicateWindow.record, hkey] using ht
    exact hnm
  · exact h.prune key t (by simpa [DuplicateWindow.record, Function.update_of_ne hkey] using ht)

theorem DuplicateWindow.prune_prune_of_past {w : DuplicateWindow} {m n : ℤ} (h : w.Past m) (hmn : m ≤ n) :
    (w.prune m).prune n = w.prune n := by
  refine DuplicateWindow.ext rfl (funext fun key => Option.ext fun t => ?_)
  rw [seen_prune_eq_some, seen_prune_eq_some, seen_prune_eq_some]
  constructor
  · rintro ⟨⟨hs, -⟩, hw⟩
    exact ⟨hs, hw⟩
  · rintro ⟨hs, hlo, hhi⟩
    have hlo' : m - w.windowMillis < t := (sub_le_sub_right hmn _).trans_lt hlo
    exact ⟨⟨hs, hlo', h key t hs⟩, hlo, hhi⟩

end PretradeRisk.Windows
