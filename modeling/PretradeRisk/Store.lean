import Mathlib.Logic.Function.Basic
import Mathlib.Data.List.Basic
import Mathlib.Tactic

namespace PretradeRisk.Store

inductive Key
  | tradingDay
  | liveRealizedPnl
  | simulatedRealizedPnl
  | livePeakPnl
  | simulatedPeakPnl
  | dailyNotional
  | consecutiveRejects
  | executionsSinceRearm
  | lossLimitBypass
  | lossLimitBypassExpiresAt
  | lossLimitBypassActor
  | lossLimitBypassReason
  | lossLimitBypassSetAt
  | runtimeMaxOrderNotional
  | runtimeMaxOrderQuantity
  deriving DecidableEq, Repr

def counterKeys : List Key :=
  [.tradingDay, .liveRealizedPnl, .simulatedRealizedPnl, .livePeakPnl, .simulatedPeakPnl,
    .dailyNotional, .consecutiveRejects, .executionsSinceRearm]

def overrideKeys : List Key :=
  [.lossLimitBypass, .lossLimitBypassExpiresAt, .lossLimitBypassActor, .lossLimitBypassReason,
    .lossLimitBypassSetAt, .runtimeMaxOrderNotional, .runtimeMaxOrderQuantity]

theorem notMem_counterKeys {key : Key} (h : key ∈ overrideKeys) : key ∉ counterKeys := by
  cases key <;> simp_all [counterKeys, overrideKeys]

abbrev StateStore := Key → Option String

abbrev Entries := List (Key × String)

def empty : StateStore := fun _ => none

def set (s : StateStore) (key : Key) (value : String) : StateStore :=
  Function.update s key (some value)

/-- `set_many`, one entry after the other; every prefix of the batch is a
state a crash can leave behind where the batch is not atomic. -/
def setMany (s : StateStore) (entries : Entries) : StateStore :=
  entries.foldl (fun s entry => set s entry.1 entry.2) s

def getMany (s : StateStore) (keys : List Key) : StateStore := fun key => if key ∈ keys then s key else none

theorem getMany_congr {s t : StateStore} {keys : List Key} (h : ∀ key ∈ keys, t key = s key) :
    getMany t keys = getMany s keys := by
  funext key
  by_cases hkey : key ∈ keys
  · simp only [getMany, hkey, if_true, h key hkey]
  · simp only [getMany, hkey, if_false]

@[simp] theorem setMany_nil (s : StateStore) : setMany s [] = s := rfl

@[simp] theorem setMany_cons (s : StateStore) (entry : Key × String) (entries : Entries) :
    setMany s (entry :: entries) = setMany (set s entry.1 entry.2) entries := rfl

theorem setMany_of_notMem (s : StateStore) (entries : Entries) {key : Key}
    (h : key ∉ entries.map Prod.fst) : setMany s entries key = s key := by
  induction entries generalizing s with
  | nil => rfl
  | cons entry entries ih =>
      rw [List.map_cons, List.mem_cons, not_or] at h
      rw [setMany_cons, ih _ h.2, set, Function.update_of_ne h.1]

theorem setMany_congr {s t : StateStore} {entries : Entries} {key : Key} (h : t key = s key) :
    setMany t entries key = setMany s entries key := by
  induction entries generalizing s t with
  | nil => exact h
  | cons entry entries ih =>
      refine ih ?_
      change set t entry.1 entry.2 key = set s entry.1 entry.2 key
      by_cases hkey : key = entry.1
      · rw [hkey, Store.set, Store.set, Function.update_self, Function.update_self]
      · rw [Store.set, Store.set, Function.update_of_ne hkey, Function.update_of_ne hkey, h]

theorem setMany_of_mem (s : StateStore) {entries : Entries} {key : Key} {value : String}
    (hnodup : (entries.map Prod.fst).Nodup) (h : (key, value) ∈ entries) :
    setMany s entries key = some value := by
  induction entries generalizing s with
  | nil => cases h
  | cons entry entries ih =>
      rw [List.map_cons, List.nodup_cons] at hnodup
      rw [setMany_cons]
      rcases List.mem_cons.mp h with rfl | h
      · rw [setMany_of_notMem _ _ hnodup.1, set, Function.update_self]
      · exact ih _ hnodup.2 h

theorem setMany_perm (s : StateStore) {entries entries' : Entries} (h : entries.Perm entries')
    (hnodup : (entries.map Prod.fst).Nodup) : setMany s entries = setMany s entries' := by
  have hnodup' : (entries'.map Prod.fst).Nodup := (h.map Prod.fst).nodup_iff.mp hnodup
  funext key
  by_cases hkey : key ∈ entries.map Prod.fst
  · obtain ⟨⟨key, value⟩, hentry, rfl⟩ := List.mem_map.mp hkey
    rw [setMany_of_mem s hnodup hentry, setMany_of_mem s hnodup' (h.mem_iff.mp hentry)]
  · have hkey' : key ∉ entries'.map Prod.fst := fun hmem => hkey ((h.map Prod.fst).mem_iff.mpr hmem)
    rw [setMany_of_notMem _ _ hkey, setMany_of_notMem _ _ hkey']

end PretradeRisk.Store
