import Mathlib.Data.List.TakeWhile
import PretradeRisk.Encoding

namespace PretradeRisk.Decimal

open Encoding Host

def digits (cs : List Char) : ℤ := Nat.ofDigitChars 10 (cs.takeWhile Char.isDigit) 0

def readInteger (cs : List Char) : ℤ :=
  if cs.head? = some '-' then -digits (dropSign cs) else digits (dropSign cs)

def signed (n : ℤ) : String := if n < 0 then toString n else "+" ++ toString n

def truncate (x : ℚ) : ℤ := x.num.tdiv x.den

scoped instance wholeNumbers : PyFloat ℚ where
  isfinite _ := true
  format spec x :=
    let n := truncate x
    match spec with
    | ".2f" => toString n ++ ".00"
    | "+.2f" => signed n ++ ".00"
    | "+.4g" => signed n
    | ".2%" => toString (truncate (100 * x)) ++ ".00%"
    | _ => toString n
  repr x := toString (truncate x) ++ ".0"
  float s := readInteger s.toList
  int := truncate
  fits _ := true

theorem truncate_intCast (n : ℤ) : truncate n = n := by simp [truncate]

instance : ExactFloat where
  isfinite _ := rfl
  int_intCast := truncate_intCast
  fits _ := rfl

theorem isDigit_of_mem {k : ℕ} {c : Char} (h : c ∈ Nat.toDigits 10 k) : c.isDigit = true :=
  Nat.isDigit_of_mem_toDigits (by decide) (by decide) h

theorem takeWhile_toDigits (k : ℕ) :
    (Nat.toDigits 10 k).takeWhile Char.isDigit = Nat.toDigits 10 k :=
  List.takeWhile_eq_self_iff.mpr fun _ => isDigit_of_mem

theorem dropWhile_toDigits (k : ℕ) : (Nat.toDigits 10 k).dropWhile Char.isDigit = [] :=
  List.dropWhile_eq_nil_iff.mpr fun _ => isDigit_of_mem

theorem digits_toDigits (k : ℕ) : digits (Nat.toDigits 10 k) = k := by
  rw [digits, takeWhile_toDigits, Nat.ofDigitChars_ten_toDigits]

theorem toList_toString (n : ℤ) : (toString n).toList =
    if n < 0 then '-' :: Nat.toDigits 10 n.natAbs else Nat.toDigits 10 n.natAbs := by
  cases n with
  | ofNat k => exact Nat.toList_repr
  | negSucc k =>
      have h : toString (Int.negSucc k) = "-" ++ (k + 1).repr := rfl
      rw [h, String.toList_append, Nat.toList_repr, if_pos (Int.negSucc_lt_zero k)]; rfl

theorem dropSign_toDigits (k : ℕ) : dropSign (Nat.toDigits 10 k) = Nat.toDigits 10 k := by
  have h (c : Char) (hc : c ∈ Nat.toDigits 10 k) : c ≠ '+' ∧ c ≠ '-' := by
    have hd := isDigit_of_mem hc
    constructor <;> rintro rfl <;> exact absurd hd (by decide)
  unfold dropSign
  split <;> simp_all

theorem head?_toDigits (k : ℕ) : (Nat.toDigits 10 k).head? ≠ some '-' := by
  intro h
  have hd := isDigit_of_mem (List.mem_of_mem_head? h)
  exact absurd hd (by decide)

theorem readInteger_toString (n : ℤ) : readInteger (toString n).toList = n := by
  rw [toList_toString, readInteger]
  split
  · simp only [List.head?_cons, if_true, dropSign, digits_toDigits]; omega
  · rw [if_neg (head?_toDigits _), dropSign_toDigits, digits_toDigits]; omega

theorem matchesNumber_toString (n : ℤ) : matchesNumber (toString n) = true := by
  have h (k : ℕ) : dropSign (toString n).toList = Nat.toDigits 10 k → matchesNumber (toString n) = true := by
    intro hk
    have hne : Nat.toDigits 10 k ≠ [] := Nat.toDigits_ne_nil
    simp only [matchesNumber, hk, takeWhile_toDigits, dropWhile_toDigits]
    cases hcs : Nat.toDigits 10 k with
    | nil => exact absurd hcs hne
    | cons c cs => rfl
  apply h n.natAbs
  rw [toList_toString]
  split
  · rfl
  · exact dropSign_toDigits _

theorem roundTrips_intCast (n : ℤ) : RoundTrips (n : ℚ) := by
  have hformat : encodeFloat (n : ℚ) = toString n := by
    change toString (truncate n) = _
    rw [truncate_intCast]
  rw [RoundTrips, hformat]
  simp only [decodeFloat, matchesNumber_toString, if_true]
  change some (((readInteger (toString n).toList : ℤ) : ℚ)) = _
  rw [readInteger_toString]

end PretradeRisk.Decimal
