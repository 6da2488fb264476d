import Mathlib.Tactic

namespace PretradeRisk.Journal

variable {E : Type}

/-- The entries on the medium, and those only the memory holds. -/
@[ext] structure Log (E : Type) where
  committed : List E
  pending : List E

inductive Event (E : Type)
  /-- an entry, and whether the write that follows it lands -/
  | append (entry : E) (lands : Bool)
  /-- a write without an entry -/
  | flush
  | crash

def Log.empty : Log E := ⟨[], []⟩

def Log.all (log : Log E) : List E := log.committed ++ log.pending

/-- A write takes everything pending with it. -/
def Log.after (log : Log E) : Event E → Log E
  | .append entry true => ⟨log.all ++ [entry], []⟩
  | .append entry false => ⟨log.committed, log.pending ++ [entry]⟩
  | .flush => ⟨log.all, []⟩
  | .crash => ⟨log.committed, []⟩

def Log.afterAll (log : Log E) (events : List (Event E)) : Log E := events.foldl Log.after log

def logOf (events : List (Event E)) : Log E := Log.empty.afterAll events

def Event.entry : Event E → Option E
  | .append entry _ => some entry
  | .flush | .crash => none

def Event.Lands : Event E → Prop
  | .append _ lands => lands = true
  | .flush | .crash => True

variable {log : Log E} {entry : E} {event : Event E} {events later : List (Event E)}

@[simp] theorem all_append (lands : Bool) : (log.after (.append entry lands)).all = log.all ++ [entry] := by
  cases lands <;> simp [Log.after, Log.all]

@[simp] theorem all_flush : (log.after .flush).all = log.all := by simp [Log.after, Log.all]

@[simp] theorem all_crash : (log.after .crash).all = log.committed := by simp [Log.after, Log.all]

theorem afterAll_snoc : log.afterAll (events ++ [event]) = (log.afterAll events).after event := by
  simp [Log.afterAll, List.foldl_append]

theorem logOf_snoc : logOf (events ++ [event]) = (logOf events).after event := afterAll_snoc

theorem logOf_append : logOf (events ++ later) = (logOf events).afterAll later := by
  simp [logOf, Log.afterAll, List.foldl_append]

/-- Of the events to come the first write that lands comes before the first
crash. -/
def reachesMedium : List (Event E) → Bool
  | [] => false
  | .append _ true :: _ => true
  | .append _ false :: later => reachesMedium later
  | .flush :: _ => true
  | .crash :: _ => false

/-- The entries that were written, by the write that followed them or by one
that came before a crash. -/
def written : List (Event E) → List E
  | [] => []
  | .append entry lands :: later =>
      if lands || reachesMedium later then entry :: written later else written later
  | .flush :: later => written later
  | .crash :: later => written later

theorem committed_afterAll (log : Log E) (events : List (Event E)) : (log.afterAll events).committed =
    log.committed ++ (if reachesMedium events then log.pending else []) ++ written events := by
  induction events generalizing log with
  | nil => simp [Log.afterAll, reachesMedium, written]
  | cons event later ih =>
      rw [Log.afterAll, List.foldl_cons, ← Log.afterAll, ih]
      cases event with
      | append entry lands =>
          cases lands
          · cases hlater : reachesMedium later <;> simp [Log.after, reachesMedium, written, hlater]
          · simp [Log.after, Log.all, reachesMedium, written]
      | flush => simp [Log.after, Log.all, reachesMedium, written]
      | crash => simp [Log.after, reachesMedium, written]

theorem committed_logOf (events : List (Event E)) : (logOf events).committed = written events := by
  rw [logOf, committed_afterAll]
  simp [Log.empty]

theorem all_logOf (events : List (Event E)) : (logOf events).all = written (events ++ [.flush]) := by
  rw [← committed_logOf, logOf_snoc]
  rfl

theorem written_sublist (events : List (Event E)) : (written events).Sublist (events.filterMap Event.entry) := by
  induction events with
  | nil => exact List.Sublist.slnil
  | cons event later ih =>
      cases event with
      | append entry lands =>
          change List.Sublist (ite _ _ _) (entry :: later.filterMap Event.entry)
          split
          · exact ih.cons_cons entry
          · exact ih.cons entry
      | flush => exact ih
      | crash => exact ih

theorem written_of_lands (h : ∀ event ∈ events, event.Lands) : written events = events.filterMap Event.entry := by
  induction events with
  | nil => rfl
  | cons event later ih =>
      have hlater := ih fun e he => h e (List.mem_cons_of_mem _ he)
      cases event with
      | append entry lands =>
          have hlands : lands = true := h _ List.mem_cons_self
          rw [written, hlands, Bool.true_or, if_pos rfl, hlater]
          rfl
      | flush => exact hlater
      | crash => exact hlater

theorem filterMap_entry_snoc (h : event.entry = none) :
    (events ++ [event]).filterMap Event.entry = events.filterMap Event.entry := by
  simp [h]

theorem all_eq_of_append (h : (logOf (events ++ later)).all = (events ++ later).filterMap Event.entry) :
    (logOf events).all = events.filterMap Event.entry := by
  induction later using List.reverseRecOn with
  | nil => simpa using h
  | append_singleton later event ih =>
      refine ih ?_
      rw [← List.append_assoc, logOf_snoc] at h
      cases event with
      | append entry lands =>
          rw [all_append, List.filterMap_append] at h
          exact List.append_cancel_right h
      | flush => rwa [all_flush, filterMap_entry_snoc rfl] at h
      | crash =>
          rw [all_crash, filterMap_entry_snoc rfl] at h
          have hlength := (written_sublist (events ++ later ++ [.flush])).length_le
          rw [← all_logOf, Log.all, h, filterMap_entry_snoc rfl, List.length_append] at hlength
          have hpending : (logOf (events ++ later)).pending = [] := List.eq_nil_of_length_eq_zero (by omega)
          rw [Log.all, hpending, List.append_nil, h]

theorem pending_of_lands (h : ∀ event ∈ events, event.Lands) : (logOf events).pending = [] := by
  induction events using List.reverseRecOn with
  | nil => rfl
  | append_singleton events event ih =>
      have hevent := h event (by simp)
      rw [logOf_snoc]
      cases event with
      | append entry lands => rw [show lands = true from hevent]; rfl
      | flush => rfl
      | crash => rfl

theorem all_of_lands (h : ∀ event ∈ events, event.Lands) : (logOf events).all = events.filterMap Event.entry := by
  rw [Log.all, pending_of_lands h, List.append_nil, committed_logOf, written_of_lands h]

end PretradeRisk.Journal
