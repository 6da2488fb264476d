import Mathlib.Data.List.TakeWhile
import PretradeRisk.Host

namespace PretradeRisk.Encoding

open Host

variable {F : Type}

def dropSign : List Char → List Char
  | '+' :: cs | '-' :: cs => cs
  | cs => cs

def isDigits (cs : List Char) : Bool := !cs.isEmpty && cs.all Char.isDigit

def matchesExponent : List Char → Bool
  | [] => true
  | c :: cs => (c == 'e' || c == 'E') && isDigits (dropSign cs)

/-- `_NUMBER_RE`, read from left to right: the runs of digits are followed by
something else, so a longest match is the only one. -/
def matchesNumber (raw : String) : Bool :=
  let cs := dropSign raw.toList
  match cs.takeWhile Char.isDigit, cs.dropWhile Char.isDigit with
  | [], '.' :: cs =>
      !(cs.takeWhile Char.isDigit).isEmpty && matchesExponent (cs.dropWhile Char.isDigit)
  | [], _ => false
  | _ :: _, '.' :: cs => matchesExponent (cs.dropWhile Char.isDigit)
  | _ :: _, cs => matchesExponent cs

example : ["1", "-15", "+.5", "2.", "1e-07"].all matchesNumber = true ∧
    ["", "nan", "1_0", " 1", "1.0\n", ".", "0x1p3", "1e"].any matchesNumber = false := by decide

def encodeFloat [PyFloat F] (value : F) : String :=
  if PyFloat.isfinite value then PyFloat.format ".17g" value else "0"

def decodeFloat [PyFloat F] : Option String → Option F
  | none => none
  | some raw =>
      if matchesNumber raw then
        let value := PyFloat.float raw
        if PyFloat.isfinite value then some value else none
      else none

def decodePositiveFloat [Zero F] [LE F] [DecidableLE F] [PyFloat F] (raw : Option String) : Option F :=
  match decodeFloat raw with
  | none => none
  | some value => if value ≤ 0 then none else some value

def encodeBool (value : Bool) : String := if value then "1" else "0"

def decodeBool (raw : Option String) : Bool := raw == some "1"

def RoundTrips [PyFloat F] (x : F) : Prop := decodeFloat (some (encodeFloat x)) = some x

instance [PyFloat F] [DecidableEq F] (x : F) : Decidable (RoundTrips x) :=
  inferInstanceAs (Decidable (_ = _))

@[simp] theorem decodeFloat_none [PyFloat F] : decodeFloat (none : Option String) = (none : Option F) := rfl

def Damaged : Option String → Prop
  | none => True
  | some raw => matchesNumber raw = false

theorem Damaged.decodeFloat [PyFloat F] {raw : Option String} (h : Damaged raw) :
    decodeFloat raw = (none : Option F) := by
  cases raw with
  | none => rfl
  | some raw => simp only [Damaged] at h; simp [Encoding.decodeFloat, h]

theorem Damaged.decodePositiveFloat [Zero F] [LE F] [DecidableLE F] [PyFloat F]
    {raw : Option String} (h : Damaged raw) : decodePositiveFloat raw = (none : Option F) := by
  rw [Encoding.decodePositiveFloat, h.decodeFloat]

theorem Damaged.decodeBool {raw : Option String} (h : Damaged raw) : decodeBool raw = false := by
  cases raw with
  | none => rfl
  | some raw =>
      have hne : raw ≠ "1" := by
        rintro rfl
        exact absurd (show matchesNumber "1" = false from h) (by decide)
      simpa [Encoding.decodeBool] using hne

theorem decodePositiveFloat_pos [PyFloat ℚ] {raw : Option String} {x : ℚ}
    (h : decodePositiveFloat raw = some x) : 0 < x := by
  rw [decodePositiveFloat] at h
  split at h
  · cases h
  · split at h
    · cases h
    · cases h; exact not_le.mp ‹_›

def IsNumberChar (c : Char) : Prop := c.isDigit = true ∨ c ∈ ['+', '-', '.', 'e', 'E']

theorem isNumberChar_of_dropSign {cs : List Char} (h : ∀ c ∈ dropSign cs, IsNumberChar c) :
    ∀ c ∈ cs, IsNumberChar c := by
  rw [dropSign.eq_def] at h
  split at h
  · exact List.forall_mem_cons.mpr ⟨.inr (by simp), h⟩
  · exact List.forall_mem_cons.mpr ⟨.inr (by simp), h⟩
  · exact h

theorem isNumberChar_of_isDigits {cs : List Char} (h : isDigits cs = true) : ∀ c ∈ cs, IsNumberChar c := by
  rw [isDigits, Bool.and_eq_true, List.all_eq_true] at h
  exact fun c hc => .inl (h.2 c hc)

theorem isNumberChar_of_matchesExponent {cs : List Char} (h : matchesExponent cs = true) :
    ∀ c ∈ cs, IsNumberChar c := by
  cases cs with
  | nil => simp
  | cons c cs =>
      rw [matchesExponent, Bool.and_eq_true, Bool.or_eq_true, beq_iff_eq, beq_iff_eq] at h
      obtain ⟨hc, hdigits⟩ := h
      refine List.forall_mem_cons.mpr ⟨.inr ?_, isNumberChar_of_dropSign (isNumberChar_of_isDigits hdigits)⟩
      rcases hc with rfl | rfl <;> simp

theorem isNumberChar_of_dropWhile {cs : List Char} (h : ∀ c ∈ cs.dropWhile Char.isDigit, IsNumberChar c) :
    ∀ c ∈ cs, IsNumberChar c := by
  intro c hc
  rw [← List.takeWhile_append_dropWhile (p := Char.isDigit) (l := cs), List.mem_append] at hc
  rcases hc with hc | hc
  · exact .inl (List.mem_takeWhile_imp hc)
  · exact h c hc

theorem isNumberChar_of_point {cs : List Char} (h : matchesExponent (cs.dropWhile Char.isDigit) = true) :
    ∀ c ∈ '.' :: cs, IsNumberChar c :=
  List.forall_mem_cons.mpr ⟨.inr (by simp), isNumberChar_of_dropWhile (isNumberChar_of_matchesExponent h)⟩

theorem isNumberChar_of_matchesNumber {raw : String} (h : matchesNumber raw = true) :
    ∀ c ∈ raw.toList, IsNumberChar c := by
  rw [matchesNumber] at h
  refine isNumberChar_of_dropSign (isNumberChar_of_dropWhile ?_)
  split at h
  · next hdrop =>
      rw [Bool.and_eq_true] at h
      rw [hdrop]
      exact isNumberChar_of_point h.2
  · cases h
  · next hdrop =>
      rw [hdrop]
      exact isNumberChar_of_point h
  · exact isNumberChar_of_matchesExponent h

end PretradeRisk.Encoding
