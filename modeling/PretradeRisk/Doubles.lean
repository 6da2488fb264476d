import PretradeRisk.Encoding
import PretradeRisk.Ieee
import PretradeRisk.Numerals

namespace PretradeRisk.Doubles

open Encoding Host Ieee Numerals

/-- The text of a value that is no number, or of a finite one. -/
def text (plus : Bool) (digits : ℚ → List Char) : Float64 → String
  | .nan => if plus then "+nan" else "nan"
  | .infinite true => "-inf"
  | .infinite false => if plus then "+inf" else "inf"
  | .finite x _ => String.ofList (if plus ∧ 0 ≤ x then '+' :: digits x else digits x)

def generalText (digits : ℕ) (x : ℚ) : List Char := (general (digits - 1) x).spell

def fixedText (places : ℕ) (x : ℚ) : List Char := (fixed places x).spell

/-- `repr` has an exponent from ten to the sixteenth up, and a point where it
has none. -/
def reprText (x : ℚ) : List Char :=
  if x = 0 then "0.0".toList else
    let (d, e) := scientific 16 (shortest |x|)
    let digits := (layout (decide (x < 0)) 15 d e).spell
    if '.' ∈ digits ∨ 'e' ∈ digits then digits else digits ++ ".0".toList

instance : PyFloat Float64 where
  isfinite
    | .finite _ _ => true
    | _ => false
  format spec x :=
    match spec with
    | "g" => text false (generalText 6) x
    | "+.4g" => text true (generalText 4) x
    | ".2f" => text false (fixedText 2) x
    | "+.2f" => text true (fixedText 2) x
    | ".2%" => text false (fixedText 2) (x * (100 : ℤ)) ++ "%"
    | _ => text false (generalText 17) x
  repr := text false reprText
  float s := .ofRat (read s.toList)
  int
    | .finite x _ => x.num.tdiv x.den
    | _ => 0
  fits n := decide (|Binary64.round n| < 2 ^ 1024)

theorem dropSign_spell (n : Numeral) : dropSign n.spell =
    n.whole ++ (spellFraction n.fraction ++ spellExponent n.exponent) := by
  have h (cs : List Char) : dropSign cs = (readSign cs).2 := by
    unfold dropSign readSign
    split <;> simp_all
  rw [h, readSign_spell]

theorem isDigits_padded (k m : ℕ) : isDigits (List.replicate k '0' ++ Nat.toDigits 10 m) = true := by
  rw [isDigits, Bool.and_eq_true, List.all_eq_true]
  refine ⟨?_, fun c hc => isDigit_zeros_append c hc⟩
  have hne : Nat.toDigits 10 m ≠ [] := Nat.toDigits_ne_nil
  simp [hne]

theorem matchesExponent_spell (e : Option ℤ) : matchesExponent (spellExponent e) = true := by
  cases e with
  | none => rfl
  | some e =>
      have hsign (cs : List Char) : dropSign ((if e < 0 then '-' else '+') :: cs) = cs := by
        by_cases he : e < 0
        · rw [if_pos he, dropSign]
        · rw [if_neg he, dropSign]
      rw [spellExponent, matchesExponent, hsign, isDigits_padded]
      rfl

theorem matchesNumber_spell (n : Numeral) : matchesNumber (String.ofList n.spell) = true := by
  have hexp := noDigitFirst_spellExponent n.exponent
  have hrest := noDigitFirst_spellFraction n.fraction hexp
  rw [matchesNumber, String.toList_ofList, dropSign_spell]
  simp only [takeWhile_digits_append n.whole_digits hrest, dropWhile_digits_append n.whole_digits hrest]
  obtain ⟨c, cs, hwhole⟩ := List.exists_cons_of_ne_nil n.whole_ne_nil
  rw [hwhole]
  have hread := matchesExponent_spell n.exponent
  cases hf : n.fraction with
  | nil =>
      rw [spellFraction, List.nil_append]
      cases he : n.exponent with
      | none => rfl
      | some e =>
          rw [he] at hread
          exact hread
  | cons d ds =>
      have hdigits := n.fraction_digits
      rw [hf] at hdigits
      simp only [spellFraction, List.cons_append]
      rw [← List.cons_append, dropWhile_digits_append hdigits hexp]
      exact hread

theorem encodeFloat_nan : encodeFloat Float64.nan = "0" := rfl

theorem encodeFloat_infinite (negative : Bool) : encodeFloat (Float64.infinite negative) = "0" := rfl

theorem matchesNumber_encodeFloat (v : Float64) : matchesNumber (encodeFloat v) = true := by
  cases v with
  | nan => rw [encodeFloat_nan]; decide
  | infinite negative => rw [encodeFloat_infinite]; decide
  | finite x h => exact matchesNumber_spell _

theorem decodeFloat_encodeFloat {x : ℚ} (h : Representable x) :
    decodeFloat (some (encodeFloat (Float64.finite x h))) =
    some (Float64.finite x h) := by
  have hread : PyFloat.float (encodeFloat (Float64.finite x h)) = Float64.finite x h := by
    change Float64.ofRat (Numerals.read (String.ofList (general 16 x).spell).toList) = _
    rw [String.toList_ofList, read_spell]
    exact Float64.ofRat_of_near h (general_near x)
  rw [decodeFloat, if_pos (matchesNumber_encodeFloat _)]
  simp only [hread]
  rfl

/-- Seventeen significant digits tell the finite values apart, in the number
grammar. -/
theorem seventeen_digits_round_trip (x : ℚ) (h : Representable x) :
    matchesNumber (encodeFloat (Float64.finite x h)) = true ∧
      decodeFloat (some (encodeFloat (Float64.finite x h))) = some (Float64.finite x h) ∧
      ∀ (y : ℚ) (hy : Representable y),
        encodeFloat (Float64.finite x h) = encodeFloat (Float64.finite y hy) → x = y := by
  refine ⟨matchesNumber_encodeFloat _, decodeFloat_encodeFloat h, fun y hy heq => ?_⟩
  have hx := decodeFloat_encodeFloat h
  rw [heq, decodeFloat_encodeFloat hy] at hx
  cases hx
  rfl

theorem representable_least : Representable (2 ^ (-1074 : ℤ)) :=
  ⟨1, -1074, by norm_num, by norm_num, by norm_num, by simp⟩

theorem seventeen_digits_round_trip_least :
    matchesNumber (encodeFloat (Float64.finite _ representable_least)) = true ∧
      decodeFloat (some (encodeFloat (Float64.finite _ representable_least))) =
        some (Float64.finite _ representable_least) ∧
      ∀ (y : ℚ) (hy : Representable y),
        encodeFloat (Float64.finite _ representable_least) = encodeFloat (Float64.finite y hy) →
          2 ^ (-1074 : ℤ) = y :=
  seventeen_digits_round_trip _ representable_least

end PretradeRisk.Doubles
