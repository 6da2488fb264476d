import Mathlib.Computability.RegularExpressions
import PretradeRisk.Numerals

namespace PretradeRisk.Literals

open Numerals RegularExpression

def IsDigits (cs : List Char) : Prop := ∀ c ∈ cs, c.isDigit = true

/-- An exponent as it is written: `e` or `E`, a sign or none, and its digits. -/
structure Power where
  upper : Bool
  sign : Option Bool
  digits : List Char
  isDigits : IsDigits digits
  digits_ne_nil : digits ≠ []

/-- A literal as it is written. A sign is `-` or not; a fraction may be empty
after its point, but not where nothing stands before it. -/
structure Literal where
  sign : Option Bool
  whole : List Char
  fraction : Option (List Char)
  power : Option Power
  whole_isDigits : IsDigits whole
  fraction_isDigits : ∀ ds, fraction = some ds → IsDigits ds
  nonempty : whole = [] → ∃ c cs, fraction = some (c :: cs)

def signed : Option Bool → ℤ
  | some true => -1
  | _ => 1

def Power.value (p : Power) : ℤ := signed p.sign * digitsValue p.digits

def Literal.value (l : Literal) : ℚ :=
  signed l.sign * (digitsValue (l.whole ++ l.fraction.getD []) *
    10 ^ (l.power.elim 0 Power.value - (l.fraction.getD []).length))

def spellSign : Option Bool → List Char
  | none => []
  | some true => ['-']
  | some false => ['+']

def Power.spell (p : Power) : List Char :=
  (if p.upper then 'E' else 'e') :: (spellSign p.sign ++ p.digits)

def spellPower (p : Option Power) : List Char := p.elim [] Power.spell

def spellPoint (ds : Option (List Char)) : List Char := ds.elim [] ('.' :: ·)

def Literal.spell (l : Literal) : List Char :=
  spellSign l.sign ++ (l.whole ++ (spellPoint l.fraction ++ spellPower l.power))

def NoSignFirst (cs : List Char) : Prop := ∀ c ∈ cs.head?, c ≠ '+' ∧ c ≠ '-'

theorem noSignFirst_digits {ds cs : List Char} (hd : IsDigits ds) (hne : ds ≠ []) : NoSignFirst (ds ++ cs) := by
  obtain ⟨d, ds, rfl⟩ := List.exists_cons_of_ne_nil hne
  rintro c hc
  obtain rfl : d = c := Option.some.inj hc
  have hdigit : d.isDigit = true := hd d List.mem_cons_self
  constructor <;> rintro rfl <;> exact absurd hdigit (by decide)

theorem noSignFirst_of_digits {ds : List Char} (hd : IsDigits ds) (hne : ds ≠ []) : NoSignFirst ds := by
  rw [← List.append_nil ds]
  exact noSignFirst_digits hd hne

theorem noDigitFirst_power (p : Option Power) : NoDigitFirst (spellPower p) := by
  cases p with
  | none => exact fun c hc => by cases hc
  | some p =>
      rintro c hc
      obtain rfl : (if p.upper then 'E' else 'e') = c := Option.some.inj hc
      cases p.upper <;> decide

theorem noDigitFirst_point (ds : Option (List Char)) (p : Option Power) : NoDigitFirst (spellPoint ds ++ spellPower p) := by
  cases ds with
  | none => exact noDigitFirst_power p
  | some ds =>
      rintro c hc
      obtain rfl : '.' = c := Option.some.inj hc
      decide

theorem noSignFirst_unsigned (l : Literal) : NoSignFirst (l.whole ++ (spellPoint l.fraction ++ spellPower l.power)) := by
  by_cases hwhole : l.whole = []
  · obtain ⟨d, ds, hfraction⟩ := l.nonempty hwhole
    rw [hwhole, hfraction]
    rintro c hc
    obtain rfl : '.' = c := Option.some.inj hc
    decide
  · exact noSignFirst_digits l.whole_isDigits hwhole

theorem readSign_spellSign (s : Option Bool) {cs : List Char} (h : NoSignFirst cs) :
    readSign (spellSign s ++ cs) = (decide (s = some true), cs) := by
  cases s with
  | none =>
      rw [spellSign, List.nil_append]
      cases cs with
      | nil => rfl
      | cons c cs =>
          obtain ⟨hplus, hminus⟩ := h c rfl
          unfold readSign
          split
          · next heq => exact absurd (List.cons.inj heq).1 hminus
          · next heq => exact absurd (List.cons.inj heq).1 hplus
          · rfl
  | some negative => cases negative <;> rfl

theorem spellSign_append_inj {s t : Option Bool} {cs ds : List Char} (hc : NoSignFirst cs) (hd : NoSignFirst ds)
    (h : spellSign s ++ cs = spellSign t ++ ds) : s = t ∧ cs = ds := by
  have hread := readSign_spellSign s hc
  rw [h, readSign_spellSign t hd, Prod.mk.injEq] at hread
  obtain ⟨hsign, rfl⟩ := hread
  have hlength := congrArg List.length h
  refine ⟨?_, rfl⟩
  rcases s with _ | _ | _ <;> rcases t with _ | _ | _ <;>
    first | rfl | exact absurd hsign (by decide) | simp [spellSign] at hlength

theorem digits_append_inj {xs ys cs ds : List Char} (hxs : IsDigits xs) (hys : IsDigits ys) (hc : NoDigitFirst cs)
    (hd : NoDigitFirst ds) (h : xs ++ cs = ys ++ ds) : xs = ys ∧ cs = ds := by
  constructor
  · rw [← takeWhile_digits_append hxs hc, h, takeWhile_digits_append hys hd]
  · rw [← dropWhile_digits_append hxs hc, h, dropWhile_digits_append hys hd]

theorem Power.spell_injective : Function.Injective Power.spell := by
  intro p q h
  obtain ⟨upper, sign, digits, hdigits, hne⟩ := p
  obtain ⟨upper', sign', digits', hdigits', hne'⟩ := q
  obtain ⟨hupper, hrest⟩ := List.cons.inj h
  obtain ⟨rfl, rfl⟩ := spellSign_append_inj (noSignFirst_of_digits hdigits hne) (noSignFirst_of_digits hdigits' hne') hrest
  obtain rfl : upper = upper' := by
    cases upper <;> cases upper' <;> first | rfl | cases hupper
  rfl

theorem spellPower_injective : Function.Injective spellPower := by
  intro p q h
  cases p with
  | none => cases q with
    | none => rfl
    | some q => cases h
  | some p => cases q with
    | none => cases h
    | some q => rw [Power.spell_injective h]

theorem spellPower_ne_point (p : Option Power) (cs : List Char) : spellPower p ≠ '.' :: cs := by
  cases p with
  | none => exact (List.cons_ne_nil _ _).symm
  | some p =>
      intro h
      obtain ⟨hupper, -⟩ := List.cons.inj h
      cases hu : p.upper <;> rw [hu] at hupper <;> cases hupper

theorem Literal.spell_injective : Function.Injective Literal.spell := by
  intro l m h
  obtain ⟨hsign, hrest⟩ := spellSign_append_inj (noSignFirst_unsigned l) (noSignFirst_unsigned m) h
  obtain ⟨hwhole, htail⟩ := digits_append_inj l.whole_isDigits m.whole_isDigits (noDigitFirst_point _ _)
    (noDigitFirst_point _ _) hrest
  have hparts : l.fraction = m.fraction ∧ l.power = m.power := by
    cases hl : l.fraction with
    | none => cases hm : m.fraction with
      | none =>
          rw [hl, hm] at htail
          exact ⟨rfl, spellPower_injective htail⟩
      | some ds =>
          rw [hl, hm] at htail
          exact absurd htail (spellPower_ne_point _ _)
    | some ds => cases hm : m.fraction with
      | none =>
          rw [hl, hm] at htail
          exact absurd htail.symm (spellPower_ne_point _ _)
      | some es =>
          rw [hl, hm] at htail
          obtain ⟨rfl, hpower⟩ := digits_append_inj (l.fraction_isDigits ds hl) (m.fraction_isDigits es hm)
            (noDigitFirst_power _) (noDigitFirst_power _) (List.cons.inj htail).2
          exact ⟨rfl, spellPower_injective hpower⟩
  obtain ⟨hfraction, hpower⟩ := hparts
  cases l
  cases m
  cases hsign
  cases hwhole
  cases hfraction
  cases hpower
  rfl

theorem signed_eq (s : Option Bool) : signed s = if decide (s = some true) then -1 else 1 := by
  rcases s with _ | _ | _ <;> rfl

theorem readExponent_cons (c : Char) (cs : List Char) : readExponent (c :: cs) =
    if (readSign cs).1 then -(digitsValue (readSign cs).2 : ℤ) else digitsValue (readSign cs).2 := rfl

theorem readExponent_spellPower (p : Option Power) : readExponent (spellPower p) = p.elim 0 Power.value := by
  cases p with
  | none => rfl
  | some p =>
      have hsign := noSignFirst_of_digits p.isDigits p.digits_ne_nil
      rw [spellPower, Option.elim_some, Power.spell, readExponent_cons, readSign_spellSign _ hsign, Option.elim_some,
        Power.value, signed_eq]
      cases decide (p.sign = some true) <;> simp

theorem Literal.read_spell (l : Literal) : Numerals.read l.spell = l.value := by
  rw [Numerals.read, Literal.spell, readSign_spellSign _ (noSignFirst_unsigned l), Literal.value, signed_eq]
  have hunsigned : readUnsigned (l.whole ++ (spellPoint l.fraction ++ spellPower l.power)) =
      digitsValue (l.whole ++ l.fraction.getD []) * 10 ^ (l.power.elim 0 Power.value - (l.fraction.getD []).length) := by
    have hpoint := noDigitFirst_point l.fraction l.power
    rw [readUnsigned, takeWhile_digits_append l.whole_isDigits hpoint, dropWhile_digits_append l.whole_isDigits hpoint]
    cases hf : l.fraction with
    | none =>
        have hread := readExponent_spellPower l.power
        rw [spellPoint, Option.elim_none, List.nil_append, Option.getD_none, List.append_nil, List.length_nil,
          Nat.cast_zero, sub_zero, ← hread]
        split
        · next heq => exact absurd heq (spellPower_ne_point _ _)
        · rfl
    | some ds =>
        have hdigits := l.fraction_isDigits ds hf
        simp only [spellPoint, Option.elim_some, List.cons_append]
        rw [takeWhile_digits_append hdigits (noDigitFirst_power _), dropWhile_digits_append hdigits (noDigitFirst_power _),
          readExponent_spellPower, Option.getD_some]
  simp only [hunsigned]
  cases decide (l.sign = some true) <;> simp

def digit : RegularExpression Char :=
  char '0' + char '1' + char '2' + char '3' + char '4' + char '5' + char '6' + char '7' + char '8' + char '9'

def sign : RegularExpression Char := char '+' + char '-' + 1

/-- `[+-]?(?:[0-9]+(?:\.[0-9]*)?|\.[0-9]+)(?:[eE][+-]?[0-9]+)?` -/
def number : RegularExpression Char :=
  sign * (digit * star digit * (char '.' * star digit + 1) + char '.' * (digit * star digit)) *
    ((char 'e' + char 'E') * sign * (digit * star digit) + 1)

variable {cs : List Char}

theorem isDigit_iff (c : Char) : c.isDigit = true ↔ c ∈ ['0', '1', '2', '3', '4', '5', '6', '7', '8', '9'] := by
  constructor
  · intro h
    obtain ⟨hlo, hhi⟩ : 48 ≤ c.toNat ∧ c.toNat ≤ 57 := Char.isDigit_iff_toNat.mp h
    rw [← Char.ofNat_toNat c]
    interval_cases c.toNat <;> decide
  · intro h
    simp only [List.mem_cons, List.not_mem_nil, or_false] at h
    rcases h with rfl | rfl | rfl | rfl | rfl | rfl | rfl | rfl | rfl | rfl <;> rfl

theorem mem_digit : cs ∈ digit.matches' ↔ ∃ c : Char, c.isDigit = true ∧ cs = [c] := by
  simp only [isDigit_iff, List.exists_mem_cons_iff, List.not_mem_nil, false_and, exists_false, or_false, digit, matches'_add,
    matches'_char, Language.mem_add, or_assoc]
  rfl

theorem mem_star_digit : cs ∈ (star digit).matches' ↔ IsDigits cs := by
  rw [matches'_star, Language.mem_kstar]
  constructor
  · rintro ⟨parts, rfl, hparts⟩ c hc
    obtain ⟨part, hpart, hc⟩ := List.mem_flatten.mp hc
    obtain ⟨d, hd, rfl⟩ := mem_digit.mp (hparts part hpart)
    rwa [List.mem_singleton.mp hc]
  · intro h
    refine ⟨cs.map fun c => [c], by rw [← List.flatMap_def, List.flatMap_singleton'], fun part hpart => ?_⟩
    obtain ⟨c, hc, rfl⟩ := List.mem_map.mp hpart
    exact mem_digit.mpr ⟨c, h c hc, rfl⟩

theorem mem_digits : cs ∈ (digit * star digit).matches' ↔ IsDigits cs ∧ cs ≠ [] := by
  rw [matches'_mul, Language.mem_mul]
  constructor
  · rintro ⟨_, hd, ds, hds, rfl⟩
    obtain ⟨d, hdigit, rfl⟩ := mem_digit.mp hd
    exact ⟨List.forall_mem_cons.mpr ⟨hdigit, mem_star_digit.mp hds⟩, List.cons_ne_nil _ _⟩
  · rintro ⟨h, hne⟩
    obtain ⟨d, ds, rfl⟩ := List.exists_cons_of_ne_nil hne
    rw [IsDigits, List.forall_mem_cons] at h
    exact ⟨[d], mem_digit.mpr ⟨d, h.1, rfl⟩, ds, mem_star_digit.mpr h.2, rfl⟩

theorem mem_sign : cs ∈ sign.matches' ↔ ∃ s, spellSign s = cs := by
  simp only [sign, matches'_add, matches'_char, matches'_epsilon, Language.mem_add, Language.mem_one]
  constructor
  · rintro ((h | h) | h)
    · exact ⟨some false, h.symm⟩
    · exact ⟨some true, h.symm⟩
    · exact ⟨none, h.symm⟩
  · rintro ⟨_ | _ | _, rfl⟩
    · exact .inr rfl
    · exact .inl (.inl rfl)
    · exact .inl (.inr rfl)

theorem mem_mantissa :
    cs ∈ (digit * star digit * (char '.' * star digit + 1) + char '.' * (digit * star digit)).matches' ↔
      ∃ whole fraction, IsDigits whole ∧ (∀ ds, fraction = some ds → IsDigits ds) ∧
        (whole = [] → ∃ c cs, fraction = some (c :: cs)) ∧ whole ++ spellPoint fraction = cs := by
  rw [matches'_add, Language.mem_add, matches'_mul (digit * star digit), Language.mem_mul, matches'_add, matches'_mul,
    matches'_mul (char '.'), matches'_char, matches'_epsilon]
  constructor
  · rintro (⟨whole, hwhole, point, hpoint, rfl⟩ | h)
    · obtain ⟨hwhole, hne⟩ := mem_digits.mp hwhole
      rcases hpoint with hpoint | hpoint
      · obtain ⟨_, rfl, ds, hds, rfl⟩ := Language.mem_mul.mp hpoint
        exact ⟨whole, some ds, hwhole, by rintro _ ⟨⟩; exact mem_star_digit.mp hds, fun h => absurd h hne, rfl⟩
      · obtain rfl : point = [] := hpoint
        exact ⟨whole, none, hwhole, by rintro _ ⟨⟩, fun h => absurd h hne, rfl⟩
    · obtain ⟨_, rfl, ds, hds, rfl⟩ := Language.mem_mul.mp h
      obtain ⟨hds, hne⟩ := mem_digits.mp hds
      refine ⟨[], some ds, by simp [IsDigits], by rintro _ ⟨⟩; exact hds, fun _ => ?_, rfl⟩
      obtain ⟨d, ds, rfl⟩ := List.exists_cons_of_ne_nil hne
      exact ⟨d, ds, rfl⟩
  · rintro ⟨whole, fraction, hwhole, hfraction, hnonempty, rfl⟩
    by_cases hne : whole = []
    · obtain ⟨d, ds, rfl⟩ := hnonempty hne
      refine .inr (Language.mem_mul.mpr ⟨['.'], rfl, d :: ds, mem_digits.mpr ⟨hfraction _ rfl, List.cons_ne_nil _ _⟩, ?_⟩)
      rw [hne]
      rfl
    · refine .inl ⟨whole, mem_digits.mpr ⟨hwhole, hne⟩, spellPoint fraction, ?_, rfl⟩
      cases fraction with
      | none => exact .inr rfl
      | some ds => exact .inl (Language.mem_mul.mpr ⟨['.'], rfl, ds, mem_star_digit.mpr (hfraction ds rfl), rfl⟩)

theorem mem_power : cs ∈ ((char 'e' + char 'E') * sign * (digit * star digit) + 1).matches' ↔
    ∃ p, spellPower p = cs := by
  rw [matches'_add, Language.mem_add, matches'_epsilon, Language.mem_one, matches'_mul, matches'_mul, Language.mem_mul]
  constructor
  · rintro (⟨_, hmark, digits, hdigits, rfl⟩ | rfl)
    · obtain ⟨mark, hletter, _, hsign, rfl⟩ := Language.mem_mul.mp hmark
      obtain ⟨s, rfl⟩ := mem_sign.mp hsign
      obtain ⟨hdigits, hne⟩ := mem_digits.mp hdigits
      rcases hletter with rfl | rfl
      · exact ⟨some ⟨false, s, digits, hdigits, hne⟩, by simp [spellPower, Power.spell]⟩
      · exact ⟨some ⟨true, s, digits, hdigits, hne⟩, by simp [spellPower, Power.spell]⟩
    · exact ⟨none, rfl⟩
  · rintro ⟨_ | p, rfl⟩
    · exact .inr rfl
    · refine .inl ⟨_, Language.mem_mul.mpr ⟨[if p.upper then 'E' else 'e'], ?_, spellSign p.sign, mem_sign.mpr ⟨_, rfl⟩, rfl⟩,
        p.digits, mem_digits.mpr ⟨p.isDigits, p.digits_ne_nil⟩, by simp [spellPower, Power.spell]⟩
      cases p.upper
      · exact .inl rfl
      · exact .inr rfl

theorem mem_number : cs ∈ number.matches' ↔ ∃ l : Literal, l.spell = cs := by
  rw [number, matches'_mul, matches'_mul, Language.mem_mul]
  constructor
  · rintro ⟨_, hleft, power, hpower, rfl⟩
    obtain ⟨sign, hsign, mantissa, hmantissa, rfl⟩ := Language.mem_mul.mp hleft
    obtain ⟨s, rfl⟩ := mem_sign.mp hsign
    obtain ⟨p, rfl⟩ := mem_power.mp hpower
    obtain ⟨whole, fraction, hwhole, hfraction, hnonempty, rfl⟩ := mem_mantissa.mp hmantissa
    exact ⟨⟨s, whole, fraction, p, hwhole, hfraction, hnonempty⟩, by simp [Literal.spell]⟩
  · rintro ⟨l, rfl⟩
    refine ⟨_, Language.mem_mul.mpr ⟨spellSign l.sign, mem_sign.mpr ⟨_, rfl⟩, l.whole ++ spellPoint l.fraction,
      mem_mantissa.mpr ⟨l.whole, l.fraction, l.whole_isDigits, l.fraction_isDigits, l.nonempty, rfl⟩, rfl⟩,
      spellPower l.power, mem_power.mpr ⟨_, rfl⟩, by simp [Literal.spell]⟩

end PretradeRisk.Literals
