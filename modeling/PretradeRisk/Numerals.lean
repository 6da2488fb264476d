import Mathlib.Data.List.DropRight
import Mathlib.Data.List.TakeWhile
import PretradeRisk.Binary64

namespace PretradeRisk.Numerals

open Binary64

/-- The digits before and after the point, and a power of ten. -/
structure Numeral where
  negative : Bool
  whole : List Char
  fraction : List Char
  exponent : Option ℤ
  whole_digits : ∀ c ∈ whole, c.isDigit = true
  fraction_digits : ∀ c ∈ fraction, c.isDigit = true
  whole_ne_nil : whole ≠ []

def digitsValue (cs : List Char) : ℕ := Nat.ofDigitChars 10 cs 0

def Numeral.value (n : Numeral) : ℚ :=
  (if n.negative then -1 else 1) *
    (digitsValue (n.whole ++ n.fraction) * 10 ^ (n.exponent.getD 0 - n.fraction.length))

/-- An exponent has a sign and at least two digits. -/
def spellExponent : Option ℤ → List Char
  | none => []
  | some e =>
      let digits := Nat.toDigits 10 e.natAbs
      'e' :: (if e < 0 then '-' else '+') :: (List.replicate (2 - digits.length) '0' ++ digits)

def spellFraction : List Char → List Char
  | [] => []
  | c :: cs => '.' :: c :: cs

def Numeral.spell (n : Numeral) : List Char :=
  (if n.negative then ['-'] else []) ++ (n.whole ++ (spellFraction n.fraction ++ spellExponent n.exponent))

def readSign : List Char → Bool × List Char
  | '-' :: cs => (true, cs)
  | '+' :: cs => (false, cs)
  | cs => (false, cs)

def readExponent : List Char → ℤ
  | [] => 0
  | _ :: cs =>
      let (negative, digits) := readSign cs
      if negative then -(digitsValue digits : ℤ) else digitsValue digits

def readUnsigned (cs : List Char) : ℚ :=
  let whole := cs.takeWhile Char.isDigit
  match cs.dropWhile Char.isDigit with
  | '.' :: cs =>
      let fraction := cs.takeWhile Char.isDigit
      digitsValue (whole ++ fraction) * 10 ^ (readExponent (cs.dropWhile Char.isDigit) - fraction.length)
  | cs => digitsValue whole * 10 ^ readExponent cs

def read (cs : List Char) : ℚ :=
  let (negative, cs) := readSign cs
  (if negative then -1 else 1) * readUnsigned cs

def NoDigitFirst (cs : List Char) : Prop := ∀ c ∈ cs.head?, c.isDigit = false

theorem takeWhile_digits_append {ds cs : List Char} (hd : ∀ c ∈ ds, c.isDigit = true) (hc : NoDigitFirst cs) :
    (ds ++ cs).takeWhile Char.isDigit = ds := by
  rw [List.takeWhile_append_of_pos hd]
  cases cs with
  | nil => simp
  | cons c cs => rw [List.takeWhile_cons_of_neg (by simp [hc c rfl]), List.append_nil]

theorem dropWhile_digits_append {ds cs : List Char} (hd : ∀ c ∈ ds, c.isDigit = true) (hc : NoDigitFirst cs) :
    (ds ++ cs).dropWhile Char.isDigit = cs := by
  rw [List.dropWhile_append_of_pos hd]
  cases cs with
  | nil => rfl
  | cons c cs => exact List.dropWhile_cons_of_neg (by simp [hc c rfl])

theorem noDigitFirst_spellExponent (e : Option ℤ) : NoDigitFirst (spellExponent e) := by
  cases e with
  | none => simp [NoDigitFirst, spellExponent]
  | some e =>
      rintro c hc
      cases hc
      decide

theorem noDigitFirst_spellFraction (fraction : List Char) {cs : List Char} (h : NoDigitFirst cs) :
    NoDigitFirst (spellFraction fraction ++ cs) := by
  cases fraction with
  | nil => exact h
  | cons c fraction =>
      rintro c hc
      cases hc
      decide

theorem isDigit_of_mem_toDigits {n : ℕ} {c : Char} (h : c ∈ Nat.toDigits 10 n) : c.isDigit = true :=
  Nat.isDigit_of_mem_toDigits (by decide) (by decide) h

theorem readSign_of_digit {c : Char} {cs : List Char} (h : c.isDigit = true) :
    readSign (c :: cs) = (false, c :: cs) := by
  unfold readSign
  split
  · next heq => cases heq; exact absurd h (by decide)
  · next heq => cases heq; exact absurd h (by decide)
  · rfl

theorem digitsValue_padded (k n : ℕ) : digitsValue (List.replicate k '0' ++ Nat.toDigits 10 n) = n := by
  rw [digitsValue, Nat.ofDigitChars_append, Nat.ofDigitChars_replicate_zero, Nat.mul_zero,
    Nat.ofDigitChars_ten_toDigits]

theorem readExponent_spell (e : Option ℤ) : readExponent (spellExponent e) = e.getD 0 := by
  cases e with
  | none => rfl
  | some e =>
      rw [spellExponent, readExponent]
      by_cases he : e < 0
      · simp only [if_pos he, readSign, if_true, digitsValue_padded, Option.getD_some]
        omega
      · simp only [if_neg he, readSign, digitsValue_padded, Option.getD_some]
        simp only [Bool.false_eq_true, if_false]
        omega

theorem readUnsigned_spell (n : Numeral) :
    readUnsigned (n.whole ++ (spellFraction n.fraction ++ spellExponent n.exponent)) =
      digitsValue (n.whole ++ n.fraction) * 10 ^ (n.exponent.getD 0 - n.fraction.length) := by
  have hexp := noDigitFirst_spellExponent n.exponent
  have hrest := noDigitFirst_spellFraction n.fraction hexp
  rw [readUnsigned, takeWhile_digits_append n.whole_digits hrest, dropWhile_digits_append n.whole_digits hrest]
  cases hf : n.fraction with
  | nil =>
      have hread := readExponent_spell n.exponent
      rw [spellFraction, List.nil_append, List.append_nil, List.length_nil, Nat.cast_zero, sub_zero, ← hread]
      cases n.exponent <;> rfl
  | cons c cs =>
      have hdigits := n.fraction_digits
      rw [hf] at hdigits
      simp only [spellFraction, List.cons_append]
      rw [← List.cons_append, takeWhile_digits_append hdigits hexp, dropWhile_digits_append hdigits hexp,
        readExponent_spell]

theorem readSign_spell (n : Numeral) : readSign n.spell =
    (n.negative, n.whole ++ (spellFraction n.fraction ++ spellExponent n.exponent)) := by
  rw [Numeral.spell]
  cases hn : n.negative with
  | true => rfl
  | false =>
      obtain ⟨c, cs, hc⟩ := List.exists_cons_of_ne_nil n.whole_ne_nil
      have hdigit : c.isDigit = true := n.whole_digits c (hc ▸ List.mem_cons_self)
      rw [hc, if_neg Bool.false_ne_true, List.nil_append, List.cons_append]
      exact readSign_of_digit hdigit

theorem read_spell (n : Numeral) : read n.spell = n.value := by
  rw [read, readSign_spell, Numeral.value, ← readUnsigned_spell]

/-- The digits as one integer, and the power of ten of the first. -/
def scientific (p : ℕ) (a : ℚ) : ℕ × ℤ :=
  let e := Int.log 10 a
  let d := (roundHalfEven (a / 10 ^ (e - p))).toNat
  if d = 10 ^ (p + 1) then (10 ^ p, e + 1) else (d, e)

theorem scaled_bounds {p : ℕ} {a : ℚ} (ha : 0 < a) :
    10 ^ p ≤ a / 10 ^ (Int.log 10 a - p) ∧ a / 10 ^ (Int.log 10 a - p) < 10 ^ (p + 1) := by
  have hpos : (0 : ℚ) < 10 ^ (Int.log 10 a - p) := by positivity
  have hlo : (10 : ℚ) ^ Int.log 10 a ≤ a := by exact_mod_cast Int.zpow_log_le_self (b := 10) (by norm_num) ha
  have hhi : a < (10 : ℚ) ^ (Int.log 10 a + 1) := by
    exact_mod_cast Int.lt_zpow_succ_log_self (b := 10) (by norm_num) a
  have hsplit (k : ℕ) (e : ℤ) (he : k + (Int.log 10 a - p) = e) :
      (10 : ℚ) ^ k * 10 ^ (Int.log 10 a - p) = 10 ^ e := by
    rw [← zpow_natCast, ← zpow_add₀ (by norm_num), he]
  rw [le_div_iff₀ hpos, div_lt_iff₀ hpos, hsplit p (Int.log 10 a) (by omega),
    hsplit (p + 1) (Int.log 10 a + 1) (by push_cast; omega)]
  exact ⟨hlo, hhi⟩

theorem roundHalfEven_bounds {p : ℕ} {q : ℚ} (hlo : 10 ^ p ≤ q) (hhi : q < 10 ^ (p + 1)) :
    10 ^ p ≤ (roundHalfEven q).toNat ∧ (roundHalfEven q).toNat ≤ 10 ^ (p + 1) ∧
      ((roundHalfEven q).toNat : ℤ) = roundHalfEven q := by
  have hge : (10 : ℤ) ^ p ≤ roundHalfEven q := le_roundHalfEven (by exact_mod_cast hlo)
  have hpos : (0 : ℤ) < 10 ^ p := by positivity
  have hnat : ((roundHalfEven q).toNat : ℤ) = roundHalfEven q := Int.toNat_of_nonneg (by omega)
  have hle : roundHalfEven q ≤ 10 ^ (p + 1) := by
    by_contra hlt
    have hnear := (abs_le.mp (abs_roundHalfEven_sub_le q)).2
    have hge : (10 : ℚ) ^ (p + 1) + 1 ≤ roundHalfEven q := by exact_mod_cast not_le.mp hlt
    linarith
  refine ⟨?_, ?_, hnat⟩
  · exact_mod_cast hnat ▸ hge
  · exact_mod_cast hnat ▸ hle

theorem scientific_spec (p : ℕ) {a : ℚ} (ha : 0 < a) :
    10 ^ p ≤ (scientific p a).1 ∧ (scientific p a).1 < 10 ^ (p + 1) ∧
      |(scientific p a).1 * 10 ^ ((scientific p a).2 - p) - a| ≤ 10 ^ (Int.log 10 a - p) / 2 := by
  obtain ⟨hlo, hhi⟩ := scaled_bounds (p := p) ha
  obtain ⟨hge, hle, hnat⟩ := roundHalfEven_bounds hlo hhi
  have hunit : (0 : ℚ) < 10 ^ (Int.log 10 a - p) := by positivity
  have hnear : |((roundHalfEven (a / 10 ^ (Int.log 10 a - p))).toNat : ℚ) * 10 ^ (Int.log 10 a - p) - a| ≤
      10 ^ (Int.log 10 a - p) / 2 := by
    have hround := abs_roundHalfEven_sub_le (a / 10 ^ (Int.log 10 a - p))
    have hcast : ((roundHalfEven (a / 10 ^ (Int.log 10 a - p))).toNat : ℚ) =
        roundHalfEven (a / 10 ^ (Int.log 10 a - p)) := by exact_mod_cast hnat
    have hscale : (roundHalfEven (a / 10 ^ (Int.log 10 a - p)) : ℚ) * 10 ^ (Int.log 10 a - p) - a =
        (roundHalfEven (a / 10 ^ (Int.log 10 a - p)) - a / 10 ^ (Int.log 10 a - p)) *
          10 ^ (Int.log 10 a - p) := by
      rw [sub_mul, div_mul_cancel₀ _ hunit.ne']
    rw [hcast, hscale, abs_mul, abs_of_pos hunit]
    calc _ ≤ 1 / 2 * (10 : ℚ) ^ (Int.log 10 a - p) := mul_le_mul_of_nonneg_right hround hunit.le
      _ = 10 ^ (Int.log 10 a - p) / 2 := by ring
  rw [scientific]
  split
  · next hcarry =>
      refine ⟨le_rfl, Nat.pow_lt_pow_right (by norm_num) (by omega), ?_⟩
      rw [hcarry] at hnear
      have hsame : ((10 ^ p : ℕ) : ℚ) * 10 ^ (Int.log 10 a + 1 - p) =
          ((10 ^ (p + 1) : ℕ) : ℚ) * 10 ^ (Int.log 10 a - p) := by
        rw [show Int.log 10 a + 1 - (p : ℤ) = Int.log 10 a - p + 1 by ring, zpow_add_one₀ (by norm_num)]
        push_cast
        ring
      rw [hsame]
      exact hnear
  · next hcarry => exact ⟨hge, lt_of_le_of_ne hle hcarry, hnear⟩

def stripZeros (cs : List Char) : List Char := cs.rdropWhile fun c => decide (c = '0')

theorem stripZeros_append (cs : List Char) : ∃ k, cs = stripZeros cs ++ List.replicate k '0' := by
  let isZero : Char → Bool := fun c => decide (c = '0')
  have htail : cs.rtakeWhile isZero = List.replicate (cs.rtakeWhile isZero).length '0' := by
    refine List.eq_replicate_of_mem fun c hc => ?_
    have hzero : isZero c = true := List.mem_rtakeWhile_imp hc
    exact of_decide_eq_true hzero
  refine ⟨(cs.rtakeWhile isZero).length, ?_⟩
  calc cs = cs.rdropWhile isZero ++ cs.rtakeWhile isZero := by simp
    _ = stripZeros cs ++ List.replicate (cs.rtakeWhile isZero).length '0' := by rw [← htail, stripZeros]

theorem isDigit_of_mem_stripZeros {cs : List Char} (h : ∀ c ∈ cs, c.isDigit = true) :
    ∀ c ∈ stripZeros cs, c.isDigit = true :=
  fun c hc => h c ((List.rdropWhile_prefix _ _).mem hc)

theorem value_stripZeros (whole fraction : List Char) (e : ℤ) :
    (digitsValue (whole ++ stripZeros fraction) : ℚ) * 10 ^ (e - (stripZeros fraction).length) =
      digitsValue (whole ++ fraction) * 10 ^ (e - fraction.length) := by
  obtain ⟨k, hk⟩ := stripZeros_append fraction
  have hdigits : digitsValue (whole ++ fraction) = 10 ^ k * digitsValue (whole ++ stripZeros fraction) := by
    conv_lhs => rw [hk, ← List.append_assoc]
    rw [digitsValue, Nat.ofDigitChars_append, Nat.ofDigitChars_replicate_zero, ← digitsValue]
  have hlength : (fraction.length : ℤ) = (stripZeros fraction).length + k := by
    conv_lhs => rw [hk, List.length_append, List.length_replicate]
    push_cast
    ring
  have hpow : (10 : ℚ) ^ (e - (stripZeros fraction).length) = 10 ^ k * 10 ^ (e - fraction.length) := by
    rw [hlength, ← zpow_natCast, ← zpow_add₀ (by norm_num)]
    congr 1
    ring
  rw [hdigits, hpow]
  push_cast
  ring

theorem isDigit_zeros_append {k d : ℕ} : ∀ c ∈ List.replicate k '0' ++ Nat.toDigits 10 d, c.isDigit = true := by
  intro c hc
  rcases List.mem_append.mp hc with hc | hc
  · rw [List.eq_of_mem_replicate hc]
    decide
  · exact isDigit_of_mem_toDigits hc

theorem take_toDigits_ne_nil (k d : ℕ) : (Nat.toDigits 10 d).take (k + 1) ≠ [] := by
  simp

/-- The `%g` layout of a first digit at ten to the `e`: an exponent below the
minus fourth and above the `last` power, and no zeros at the end of the
fraction. -/
def layout (negative : Bool) (last d : ℕ) (e : ℤ) : Numeral :=
  let digits := Nat.toDigits 10 d
  if e < -4 ∨ (last : ℤ) < e then
    { negative, whole := digits.take 1, fraction := stripZeros (digits.drop 1), exponent := some e
      whole_digits := fun _ hc => isDigit_of_mem_toDigits (List.mem_of_mem_take hc)
      fraction_digits := isDigit_of_mem_stripZeros fun _ hc => isDigit_of_mem_toDigits (List.mem_of_mem_drop hc)
      whole_ne_nil := take_toDigits_ne_nil 0 d }
  else if e < 0 then
    { negative, whole := ['0'], fraction := stripZeros (List.replicate (-e - 1).toNat '0' ++ digits), exponent := none
      whole_digits := List.forall_mem_singleton.mpr rfl
      fraction_digits := isDigit_of_mem_stripZeros isDigit_zeros_append
      whole_ne_nil := List.cons_ne_nil _ _ }
  else
    { negative, whole := digits.take (e.toNat + 1), fraction := stripZeros (digits.drop (e.toNat + 1)), exponent := none
      whole_digits := fun _ hc => isDigit_of_mem_toDigits (List.mem_of_mem_take hc)
      fraction_digits := isDigit_of_mem_stripZeros fun _ hc => isDigit_of_mem_toDigits (List.mem_of_mem_drop hc)
      whole_ne_nil := take_toDigits_ne_nil e.toNat d }

def integer (negative : Bool) (n : ℕ) : Numeral where
  negative := negative
  whole := Nat.toDigits 10 n
  fraction := []
  exponent := none
  whole_digits _ := isDigit_of_mem_toDigits
  fraction_digits := by simp
  whole_ne_nil := Nat.toDigits_ne_nil

theorem value_integer (negative : Bool) (n : ℕ) :
    (integer negative n).value = (if negative then -1 else 1) * n := by
  cases negative <;> simp [Numeral.value, integer, digitsValue, Nat.ofDigitChars_ten_toDigits]

theorem length_toDigits {p d : ℕ} (hlo : 10 ^ p ≤ d) (hhi : d < 10 ^ (p + 1)) :
    (Nat.toDigits 10 d).length = p + 1 := by
  have hle := (Nat.length_toDigits_le_iff (n := d) (k := p + 1) (b := 10) (by norm_num) (by omega)).mpr hhi
  have hge : ¬ (Nat.toDigits 10 d).length ≤ p := by
    rcases Nat.eq_zero_or_pos p with rfl | hp
    · have := Nat.length_toDigits_pos (b := 10) (n := d)
      omega
    · rw [Nat.length_toDigits_le_iff (by norm_num) hp]
      omega
  omega

theorem value_layout {negative : Bool} {p last d : ℕ} {e : ℤ} (hlast : last ≤ p) (hlo : 10 ^ p ≤ d)
    (hhi : d < 10 ^ (p + 1)) :
    (layout negative last d e).value = (if negative then -1 else 1) * (d * 10 ^ (e - p)) := by
  have hlength := length_toDigits hlo hhi
  have hsplit (k : ℕ) : digitsValue ((Nat.toDigits 10 d).take k ++ (Nat.toDigits 10 d).drop k) = d := by
    rw [List.take_append_drop, digitsValue, Nat.ofDigitChars_ten_toDigits]
  have hdrop (k : ℕ) : ((Nat.toDigits 10 d).drop k).length = p + 1 - k := by rw [List.length_drop, hlength]
  rw [layout]
  split
  · rw [Numeral.value]
    simp only [Option.getD_some]
    rw [value_stripZeros, hsplit, hdrop]
    congr 3
  · split
    · rw [Numeral.value]
      simp only [Option.getD_none]
      rw [value_stripZeros, List.length_append, List.length_replicate, hlength, List.cons_append, List.nil_append,
        ← List.cons_append, ← List.replicate_succ, digitsValue_padded]
      congr 3
      omega
    · rw [Numeral.value]
      simp only [Option.getD_none]
      rw [value_stripZeros, hsplit, hdrop]
      congr 3
      omega

/-- `%.{p+1}g` -/
def general (p : ℕ) (x : ℚ) : Numeral :=
  if x = 0 then integer false 0 else
    layout (decide (x < 0)) p (scientific p |x|).1 (scientific p |x|).2

/-- `%.{k}f` -/
def fixed (k : ℕ) (x : ℚ) : Numeral :=
  let n := (roundHalfEven (|x| * 10 ^ k)).toNat
  let digits := Nat.toDigits 10 (n % 10 ^ k)
  { integer (decide (x < 0)) (n / 10 ^ k) with
    fraction := if k = 0 then [] else List.replicate (k - digits.length) '0' ++ digits
    fraction_digits := by
      split
      · simp
      · exact isDigit_zeros_append }

/-- The shortest decimal that rounds to a positive binary64 number. -/
def shortest (a : ℚ) : ℚ :=
  let candidates := (List.range 17).flatMap fun p =>
    [((scientific p a).1 : ℚ) * 10 ^ ((scientific p a).2 - p), ((scientific p a).1 + 1) * 10 ^ ((scientific p a).2 - p)]
  (candidates.find? fun q => decide (Binary64.round q = a)).getD a

theorem value_general (p : ℕ) {x : ℚ} (hx : x ≠ 0) :
    (general p x).value =
      (if x < 0 then -1 else 1) * ((scientific p |x|).1 * 10 ^ ((scientific p |x|).2 - p)) := by
  obtain ⟨hlo, hhi, -⟩ := scientific_spec p (abs_pos.mpr hx)
  rw [general, if_neg hx, value_layout le_rfl hlo hhi]
  simp only [decide_eq_true_eq]

/-- Seventeen significant digits are within one part in `2 * 10 ^ 16`. -/
theorem general_near (x : ℚ) : |(general 16 x).value - x| * (2 * 10 ^ 16) ≤ |x| := by
  rcases eq_or_ne x 0 with rfl | hx
  · have hvalue : (general 16 0).value = 0 := by simp [general, value_integer]
    simp [hvalue]
  · have ha : 0 < |x| := abs_pos.mpr hx
    obtain ⟨-, -, hnear⟩ := scientific_spec 16 ha
    have hlog : (10 : ℚ) ^ Int.log 10 |x| ≤ |x| := by
      exact_mod_cast Int.zpow_log_le_self (b := 10) (by norm_num) ha
    have hunit : (10 : ℚ) ^ (Int.log 10 |x| - (16 : ℕ)) / 2 * (2 * 10 ^ 16) = 10 ^ Int.log 10 |x| := by
      rw [zpow_sub₀ (by norm_num), zpow_natCast]
      field_simp
    have hsign : |(general 16 x).value - x| =
        abs (((scientific 16 |x|).1 : ℚ) * 10 ^ ((scientific 16 |x|).2 - (16 : ℕ)) - |x|) := by
      rw [value_general 16 hx]
      split
      · next hneg =>
          rw [abs_of_neg hneg, ← abs_neg]
          congr 1
          ring
      · next hpos => rw [abs_of_nonneg (not_lt.mp hpos), one_mul]
    rw [hsign]
    calc _ ≤ (10 : ℚ) ^ (Int.log 10 |x| - (16 : ℕ)) / 2 * (2 * 10 ^ 16) :=
          mul_le_mul_of_nonneg_right hnear (by norm_num)
      _ ≤ |x| := hunit.le.trans hlog

end PretradeRisk.Numerals
