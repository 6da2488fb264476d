import Mathlib.Data.List.Nodup
import Mathlib.Logic.Function.Basic
import PretradeRisk.Run

namespace PretradeRisk.KeyValue

open Run

variable {κ ν σ τ : Type} [DecidableEq κ]

/-- What a store holds: `none` is a missing key. -/
abbrev Contents (κ ν : Type) := κ → Option ν

def Contents.nothing : Contents κ ν := fun _ => none

def Contents.put (s : Contents κ ν) (entry : κ × ν) : Contents κ ν := Function.update s entry.1 (some entry.2)

def Contents.putAll (s : Contents κ ν) (entries : List (κ × ν)) : Contents κ ν := entries.foldl Contents.put s

inductive Request (κ ν : Type)
  | get (key : κ)
  | getMany (keys : List κ)
  | set (key : κ) (value : ν)
  | setMany (entries : List (κ × ν))

/-- A mapping in an answer is what looking its keys up finds. -/
inductive Answer (κ ν : Type)
  | value (found : Option ν)
  | values (found : κ → Option (Option ν))
  | done

def asked (s : Contents κ ν) (keys : List κ) : κ → Option (Option ν) :=
  fun key => if key ∈ keys then some (s key) else none

def serve (s : Contents κ ν) : Request κ ν → Contents κ ν × Answer κ ν
  | .get key => (s, .value (s key))
  | .getMany keys => (s, .values (asked s keys))
  | .set key value => (s.put (key, value), .done)
  | .setMany entries => (s.putAll entries, .done)

/-- What happens to a store: it answers a request, or a batch is cut short. -/
inductive Event (κ ν : Type)
  | served (request : Request κ ν) (answer : Answer κ ν)
  | broken (entries : List (κ × ν))

def Event.request : Event κ ν → Option (Request κ ν)
  | .served request _ => some request
  | .broken _ => none

/-- A store: how it starts, how it serves a request, and what a batch that is
cut short may leave. -/
structure Backend (σ κ ν : Type) where
  fresh : σ → Prop
  serves : σ → Request κ ν → σ → Answer κ ν → Prop
  breaks : σ → List (κ × ν) → σ → Prop

def Backend.Happens (b : Backend σ κ ν) (x : σ) (event : Event κ ν) (x' : σ) : Prop :=
  match event with
  | .served request answer => b.serves x request x' answer
  | .broken entries => b.breaks x entries x'

abbrev Backend.Runs (b : Backend σ κ ν) (x : σ) (events : List (Event κ ν)) (x' : σ) : Prop :=
  Steps b.Happens x events x'

/-- Which parts of a batch may be all that is written of it. -/
abbrev Parts (κ ν : Type) := List (κ × ν) → List (κ × ν) → Prop

def AllOrNone : Parts κ ν := fun entries part => part = [] ∨ part = entries

def Beginnings : Parts κ ν := fun entries part => part <+: entries

def contract (parts : Parts κ ν) : Backend (Contents κ ν) κ ν where
  fresh s := s = Contents.nothing
  serves s request s' answer := (s', answer) = serve s request
  breaks s entries s' := ∃ part, parts entries part ∧ s' = s.putAll part

/-- Whatever a store does, the contract does to its contents. -/
structure Implements (b : Backend σ κ ν) (parts : Parts κ ν) (contents : σ → Contents κ ν) : Prop where
  fresh : ∀ {x}, b.fresh x → contents x = Contents.nothing
  total : ∀ x request, ∃ x' answer, b.serves x request x' answer
  serves : ∀ {x request x' answer}, b.serves x request x' answer →
    (contract parts).serves (contents x) request (contents x') answer
  breaks : ∀ {x entries x'}, b.breaks x entries x' → (contract parts).breaks (contents x) entries (contents x')

variable {b : Backend σ κ ν} {parts : Parts κ ν} {contents : σ → Contents κ ν} {x x' : σ} {s s' : Contents κ ν}
  {events events' : List (Event κ ν)}

theorem Implements.runs (h : Implements b parts contents) (hrun : b.Runs x events x') :
    (contract parts).Runs (contents x) events (contents x') := by
  rw [← List.map_id events]
  refine Steps.map contents id ?_ hrun
  rintro y (⟨request, answer⟩ | entries) y' hstep
  · exact h.serves hstep
  · exact h.breaks hstep

theorem Implements.exists_runs (h : Implements b parts contents) (x : σ) (requests : List (Request κ ν)) :
    ∃ events x', b.Runs x events x' ∧ events.map Event.request = requests.map some := by
  induction requests using List.reverseRecOn with
  | nil => exact ⟨[], x, .nil, rfl⟩
  | append_singleton requests request ih =>
      obtain ⟨events, y, hrun, hrequests⟩ := ih
      obtain ⟨z, answer, hserves⟩ := h.total y request
      have hsnoc : b.Runs x (events ++ [.served request answer]) z := hrun.snoc hserves
      exact ⟨_, z, hsnoc, by rw [List.map_append, hrequests, List.map_append]; rfl⟩

theorem contract_unique {parts' : Parts κ ν} (hrun : (contract parts).Runs s events s') {t' : Contents κ ν}
    (hrun' : (contract parts').Runs s events' t') {requests : List (Request κ ν)}
    (h : events.map Event.request = requests.map some) (h' : events'.map Event.request = requests.map some) :
    events = events' ∧ s' = t' := by
  induction requests using List.reverseRecOn generalizing events events' s' t' with
  | nil =>
      rw [List.map_nil, List.map_eq_nil_iff] at h h'
      subst h h'
      exact ⟨rfl, (steps_nil_iff.mp hrun).trans (steps_nil_iff.mp hrun').symm⟩
  | append_singleton requests request ih =>
      rw [List.map_append, List.map_singleton] at h h'
      obtain ⟨before, last, rfl, hbefore, hlast⟩ := List.map_eq_append_iff.mp h
      obtain ⟨before', last', rfl, hbefore', hlast'⟩ := List.map_eq_append_iff.mp h'
      obtain ⟨event, rfl, hevent⟩ := List.map_eq_singleton_iff.mp hlast
      obtain ⟨event', rfl, hevent'⟩ := List.map_eq_singleton_iff.mp hlast'
      obtain ⟨u, hu, hstep⟩ := steps_snoc_iff.mp hrun
      obtain ⟨v, hv, hstep'⟩ := steps_snoc_iff.mp hrun'
      obtain ⟨rfl, rfl⟩ := ih hu hv hbefore hbefore'
      cases event with
      | broken entries => cases hevent
      | served r answer => cases event' with
        | broken entries => cases hevent'
        | served r' answer' =>
            cases hevent
            cases hevent'
            have hsame : (s', answer) = (t', answer') := Eq.trans hstep hstep'.symm
            cases hsame
            exact ⟨rfl, rfl⟩

abbrev Dict (κ ν : Type) := List (κ × ν)

def Dict.get : Dict κ ν → κ → Option ν
  | [], _ => none
  | entry :: d, key => if entry.1 = key then some entry.2 else get d key

/-- A key that is there keeps its place. -/
def Dict.set : Dict κ ν → κ × ν → Dict κ ν
  | [], entry => [entry]
  | e :: d, entry => if e.1 = entry.1 then entry :: d else e :: set d entry

def Dict.update (d : Dict κ ν) (entries : List (κ × ν)) : Dict κ ν := entries.foldl Dict.set d

/-- `{key: f(key) for key in keys}` -/
def Dict.of (keys : List κ) (f : κ → ν) : Dict κ ν := Dict.update [] (keys.map fun key => (key, f key))

theorem get_set (d : Dict κ ν) (entry : κ × ν) : (d.set entry).get = Contents.put d.get entry := by
  funext key
  induction d with
  | nil =>
      rw [Dict.set, Dict.get]
      by_cases h : entry.1 = key
      · rw [if_pos h, Contents.put, ← h, Function.update_self]
      · rw [if_neg h, Contents.put, Function.update_of_ne (Ne.symm h)]
  | cons e d ih =>
      rw [Dict.set]
      by_cases he : e.1 = entry.1
      · rw [if_pos he, Dict.get]
        by_cases h : entry.1 = key
        · rw [if_pos h, Contents.put, ← h, Function.update_self]
        · rw [if_neg h, Contents.put, Function.update_of_ne (Ne.symm h), Dict.get, if_neg (he ▸ h)]
      · rw [if_neg he, Dict.get]
        by_cases h : e.1 = key
        · rw [if_pos h, Contents.put, Function.update_of_ne (fun hk => he (h.trans hk)), Dict.get, if_pos h]
        · rw [if_neg h, ih, Contents.put, Contents.put, Function.update_apply, Function.update_apply, Dict.get,
            if_neg h]

theorem get_update (d : Dict κ ν) (entries : List (κ × ν)) : (d.update entries).get = Contents.putAll d.get entries := by
  induction entries generalizing d with
  | nil => rfl
  | cons entry entries ih =>
      rw [Dict.update, List.foldl_cons, ← Dict.update, ih, get_set]
      rfl

theorem putAll_snoc (s : Contents κ ν) (entries : List (κ × ν)) (entry : κ × ν) :
    s.putAll (entries ++ [entry]) = (s.putAll entries).put entry := by
  rw [Contents.putAll, List.foldl_append]
  rfl

theorem get_of (keys : List κ) (f : κ → ν) :
    (Dict.of keys f).get = fun key => if key ∈ keys then some (f key) else none := by
  rw [Dict.of, get_update]
  induction keys using List.reverseRecOn with
  | nil => rfl
  | append_singleton keys last ih =>
      rw [List.map_append, List.map_singleton, putAll_snoc, ih]
      funext key
      by_cases h : key = last
      · subst h
        simp [Contents.put]
      · simp [Contents.put, h]

theorem get_of_eq_asked (keys : List κ) (s : Contents κ ν) : (Dict.of keys s).get = asked s keys := get_of keys s

theorem set_of_notMem {d : Dict κ ν} {entry : κ × ν} (h : entry.1 ∉ d.map Prod.fst) : d.set entry = d ++ [entry] := by
  induction d with
  | nil => rfl
  | cons e d ih =>
      rw [List.map_cons, List.mem_cons, not_or] at h
      rw [Dict.set, if_neg (Ne.symm h.1), ih h.2, List.cons_append]

theorem update_of_nodup {d entries : Dict κ ν} (h : ((d ++ entries).map Prod.fst).Nodup) :
    d.update entries = d ++ entries := by
  induction entries generalizing d with
  | nil => simp [Dict.update]
  | cons entry entries ih =>
      have hnew : entry.1 ∉ d.map Prod.fst := by
        rw [List.map_append, List.map_cons] at h
        exact fun hmem => (List.nodup_append.mp h).2.2 _ hmem _ List.mem_cons_self rfl
      rw [Dict.update, List.foldl_cons, ← Dict.update, set_of_notMem hnew]
      rw [ih (by simpa using h), List.append_assoc, List.singleton_append]

theorem get_eq_some_iff {d : Dict κ ν} (hnodup : (d.map Prod.fst).Nodup) {key : κ} {value : ν} :
    d.get key = some value ↔ (key, value) ∈ d := by
  induction d with
  | nil => simp [Dict.get]
  | cons e d ih =>
      rw [List.map_cons, List.nodup_cons] at hnodup
      rw [Dict.get, List.mem_cons]
      by_cases h : e.1 = key
      · subst h
        have hnot : (e.1, value) ∉ d := fun hmem => hnodup.1 (List.mem_map.mpr ⟨(e.1, value), hmem, rfl⟩)
        rw [if_pos rfl, Option.some.injEq]
        constructor
        · rintro rfl; exact .inl rfl
        · rintro (heq | hmem)
          · exact congrArg Prod.snd heq.symm
          · exact absurd hmem hnot
      · rw [if_neg h, ih hnodup.2]
        exact (or_iff_right fun heq => h (congrArg Prod.fst heq).symm).symm

end PretradeRisk.KeyValue
