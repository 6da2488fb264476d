import Mathlib.Algebra.Order.Field.Basic
import Mathlib.Tactic

namespace PretradeRisk.Host

inductive PyError
  | valueError (message : String)
  | typeError
  | zeroDivisionError
  | overflowError
  | osError
  deriving DecidableEq, Repr

/-- What a Python `float` offers beyond arithmetic and comparison. -/
class PyFloat (F : Type) where
  /-- `math.isfinite(x)` -/
  isfinite : F → Bool
  /-- `format(x, spec)` -/
  format : String → F → String
  /-- `repr(x)` -/
  repr : F → String
  /-- `float(s)`, for a string of the number grammar -/
  float : String → F
  /-- `int(x)`, truncating -/
  int : F → ℤ
  /-- whether `float(n)` is in range -/
  fits : ℤ → Bool

/-- `if p: raise ValueError(message)` -/
def refuse (p : Prop) [Decidable p] (message : String) : Except PyError Unit :=
  if p then .error (.valueError message) else .ok ()

def toFloat (F : Type) [IntCast F] [PyFloat F] (n : ℤ) : Except PyError F :=
  if PyFloat.fits F n then .ok n else .error .overflowError

/-- A value used where `None` raises: an operand of a comparison, or an
object whose method is called. -/
def operand {α : Type} : Option α → Except PyError α
  | none => .error .typeError
  | some x => .ok x

/-- `max(a, b)`: the first argument unless the second is greater. -/
def pyMax {F : Type} [LT F] [DecidableLT F] (a b : F) : F := if a < b then b else a

def pyAbs {F : Type} [Zero F] [Neg F] [LT F] [DecidableLT F] (x : F) : F := if x < 0 then -x else x

def pyDiv {F : Type} [Zero F] [Div F] [LE F] [DecidableLE F] (a b : F) : Except PyError F :=
  if b ≤ 0 ∧ 0 ≤ b then .error .zeroDivisionError else .ok (a / b)

/-- `str.isspace` of one character, which is what `str.strip` removes. -/
def isspace (c : Char) : Bool :=
  let n := c.toNat
  (0x09 ≤ n && n ≤ 0x0D) || (0x1C ≤ n && n ≤ 0x20) || n == 0x85 || n == 0xA0 || n == 0x1680 ||
    (0x2000 ≤ n && n ≤ 0x200A) || n == 0x2028 || n == 0x2029 || n == 0x202F || n == 0x205F ||
    n == 0x3000

/-- `not s.strip()` -/
def blank (s : String) : Bool := s.toList.all isspace

@[simp] theorem ok_bind {ε α β : Type} (a : α) (f : α → Except ε β) : (Except.ok a >>= f) = f a := rfl

@[simp] theorem error_bind {ε α β : Type} (x : ε) (f : α → Except ε β) :
    ((Except.error x : Except ε α) >>= f) = .error x := rfl

@[simp] theorem pure_eq_ok {ε α : Type} (a : α) : (pure a : Except ε α) = .ok a := rfl

theorem bind_eq_ok {ε α β : Type} {x : Except ε α} {f : α → Except ε β} {b : β} :
    (x >>= f) = .ok b ↔ ∃ a, x = .ok a ∧ f a = .ok b := by
  cases x with
  | error e => exact ⟨fun h => (by cases h), fun ⟨_, h, _⟩ => (by cases h)⟩
  | ok a => exact ⟨fun h => ⟨a, rfl, h⟩, fun ⟨_, h, hf⟩ => by cases h; exact hf⟩

theorem map_eq_ok {ε α β : Type} {x : Except ε α} {f : α → β} {b : β} :
    x.map f = .ok b ↔ ∃ a, x = .ok a ∧ f a = b := by
  cases x with
  | error e => exact ⟨fun h => (by cases h), fun ⟨_, h, _⟩ => (by cases h)⟩
  | ok a => exact ⟨fun h => ⟨a, rfl, Except.ok.inj h⟩, fun ⟨_, h, hf⟩ => by cases h; exact congrArg _ hf⟩

theorem map_eq_error {ε α β : Type} {x : Except ε α} {f : α → β} {y : ε} :
    x.map f = .error y ↔ x = .error y := by
  cases x with
  | error e => exact ⟨fun h => congrArg _ (Except.error.inj h), fun h => congrArg _ (Except.error.inj h)⟩
  | ok a => exact ⟨fun h => (by cases h), fun h => (by cases h)⟩

theorem exists_ok_of_any {ε α : Type} {x : Except ε α} {p : α → Bool} (h : x.toOption.any p = true) :
    ∃ a, x = .ok a ∧ p a = true := by
  cases x with
  | error e => cases h
  | ok a => exact ⟨a, rfl, h⟩

theorem toOption_eq_some {ε α : Type} {x : Except ε α} {a : α} (h : x.toOption = some a) : x = .ok a := by
  cases x with
  | error e => cases h
  | ok b => exact congrArg _ (Option.some.inj h)

theorem eq_ok_of_any {ε : Type} {x : Except ε Bool} {b : Bool} (h : x.toOption.any (· == b) = true) : x = .ok b := by
  obtain ⟨a, rfl, ha⟩ := exists_ok_of_any h
  rw [eq_of_beq ha]

theorem refuse_eq_ok {p : Prop} [Decidable p] {message : String} {u : Unit} :
    refuse p message = .ok u ↔ ¬ p := by
  rw [refuse]
  split <;> simp_all

theorem toFloat_eq_ok {F : Type} [IntCast F] [PyFloat F] {n : ℤ} {x : F} :
    toFloat F n = .ok x ↔ PyFloat.fits F n = true ∧ x = n := by
  rw [toFloat]
  split
  · next h => simp [h, eq_comm (a := x)]
  · next h => simp [h]

@[simp] theorem operand_some {α : Type} (x : α) : operand (some x) = .ok x := rfl

@[simp] theorem pyMax_eq_max {α : Type} [LinearOrder α] (a b : α) : pyMax a b = max a b := by
  rw [pyMax]
  split
  · exact (max_eq_right (le_of_lt ‹_›)).symm
  · exact (max_eq_left (not_lt.mp ‹_›)).symm

@[simp] theorem pyAbs_eq_abs (x : ℚ) : pyAbs x = |x| := by
  rw [pyAbs]
  split
  · exact (abs_of_neg ‹_›).symm
  · exact (abs_of_nonneg (not_lt.mp ‹_›)).symm

theorem pyDiv_of_not_le {F : Type} [Zero F] [Div F] [LE F] [DecidableLE F] {a b : F} (h : ¬ b ≤ 0) :
    pyDiv a b = .ok (a / b) := if_neg fun hb => h hb.1

/-- Exact arithmetic: a number is a rational, every value is finite, and an
integer is itself as a float. -/
class ExactFloat [PyFloat ℚ] : Prop where
  isfinite (x : ℚ) : PyFloat.isfinite x = true
  int_intCast (n : ℤ) : PyFloat.int (n : ℚ) = n
  fits (n : ℤ) : PyFloat.fits ℚ n = true

end PretradeRisk.Host
