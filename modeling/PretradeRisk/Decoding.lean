import PretradeRisk.Doubles
import PretradeRisk.Literals

namespace PretradeRisk.Decoding

open Encoding Host Ieee Literals Numerals

variable {cs : List Char} {raw : String}

theorem dropSign_eq (cs : List Char) : dropSign cs = (readSign cs).2 := by
  unfold dropSign readSign
  split <;> simp_all

theorem dropSign_spellSign (s : Option Bool) (h : NoSignFirst cs) : dropSign (spellSign s ++ cs) = cs := by
  rw [dropSign_eq, readSign_spellSign s h]

theorem exists_spellSign (cs : List Char) : ∃ s, cs = spellSign s ++ dropSign cs := by
  unfold dropSign
  split
  · exact ⟨some false, rfl⟩
  · exact ⟨some true, rfl⟩
  · exact ⟨none, rfl⟩

theorem isDigits_iff : isDigits cs = true ↔ cs ≠ [] ∧ IsDigits cs := by
  rw [isDigits, Bool.and_eq_true, List.all_eq_true, Bool.not_eq_true', List.isEmpty_eq_false_iff]
  rfl

theorem matchesExponent_iff : matchesExponent cs = true ↔ ∃ p, spellPower p = cs := by
  constructor
  · intro h
    cases cs with
    | nil => exact ⟨none, rfl⟩
    | cons c cs =>
        rw [matchesExponent, Bool.and_eq_true, Bool.or_eq_true, beq_iff_eq, beq_iff_eq, isDigits_iff] at h
        obtain ⟨hletter, hne, hdigits⟩ := h
        obtain ⟨s, hs⟩ := exists_spellSign cs
        rcases hletter with rfl | rfl
        · exact ⟨some ⟨false, s, dropSign cs, hdigits, hne⟩, congrArg ('e' :: ·) hs.symm⟩
        · exact ⟨some ⟨true, s, dropSign cs, hdigits, hne⟩, congrArg ('E' :: ·) hs.symm⟩
  · rintro ⟨_ | p, rfl⟩
    · rfl
    · have hsign := noSignFirst_of_digits p.isDigits p.digits_ne_nil
      have hdigits : isDigits (dropSign (spellSign p.sign ++ p.digits)) = true := by
        rw [dropSign_spellSign _ hsign]
        exact isDigits_iff.mpr ⟨p.digits_ne_nil, p.isDigits⟩
      change (((if p.upper then 'E' else 'e') == 'e' || (if p.upper then 'E' else 'e') == 'E') &&
        isDigits (dropSign (spellSign p.sign ++ p.digits))) = true
      rw [hdigits]
      cases p.upper <;> rfl

theorem isDigits_takeWhile (cs : List Char) : IsDigits (cs.takeWhile Char.isDigit) := fun _ h => List.mem_takeWhile_imp h

theorem dropSign_spell (l : Literal) : dropSign l.spell = l.whole ++ (spellPoint l.fraction ++ spellPower l.power) :=
  dropSign_spellSign _ (noSignFirst_unsigned l)

theorem matchesNumber_of_spell {l : Literal} (h : l.spell = raw.toList) : matchesNumber raw = true := by
  have hpoint := noDigitFirst_point l.fraction l.power
  have hexponent : matchesExponent (spellPower l.power) = true := matchesExponent_iff.mpr ⟨_, rfl⟩
  rw [matchesNumber, ← h, dropSign_spell]
  simp only [takeWhile_digits_append l.whole_isDigits hpoint, dropWhile_digits_append l.whole_isDigits hpoint]
  cases hf : l.fraction with
  | none =>
      obtain ⟨d, ds, hwhole⟩ : ∃ d ds, l.whole = d :: ds := by
        cases hwhole : l.whole with
        | nil =>
            obtain ⟨c, cs, hsome⟩ := l.nonempty hwhole
            cases hf.symm.trans hsome
        | cons d ds => exact ⟨d, ds, rfl⟩
      rw [hwhole, spellPoint, Option.elim_none, List.nil_append]
      split
      · exact absurd ‹d :: ds = []› (List.cons_ne_nil _ _)
      · exact absurd ‹d :: ds = []› (List.cons_ne_nil _ _)
      · next heq => exact absurd heq (spellPower_ne_point _ _)
      · exact hexponent
  | some ds =>
      have hdigits := l.fraction_isDigits ds hf
      simp only [spellPoint, Option.elim_some, List.cons_append]
      cases hwhole : l.whole with
      | nil =>
          obtain ⟨c, cs, hsome⟩ := l.nonempty hwhole
          obtain rfl : ds = c :: cs := Option.some.inj (hf.symm.trans hsome)
          simp only [takeWhile_digits_append hdigits (noDigitFirst_power _),
            dropWhile_digits_append hdigits (noDigitFirst_power _), hexponent]
          rfl
      | cons d whole =>
          simp only [dropWhile_digits_append hdigits (noDigitFirst_power _), hexponent]

theorem exists_literal_of_matchesNumber (h : matchesNumber raw = true) : ∃ l : Literal, l.spell = raw.toList := by
  obtain ⟨s, hs⟩ := exists_spellSign raw.toList
  have hunsigned := List.takeWhile_append_dropWhile (p := Char.isDigit) (l := dropSign raw.toList)
  have hwhole := isDigits_takeWhile (dropSign raw.toList)
  rw [matchesNumber] at h
  -- the branches of the matcher: a point with digits after it or before it, and no point
  generalize (dropSign raw.toList).takeWhile Char.isDigit = whole at *
  generalize (dropSign raw.toList).dropWhile Char.isDigit = rest at *
  have hspell (fraction : Option (List Char)) (p : Option Power) (hrest : spellPoint fraction ++ spellPower p = rest)
      (hfraction : ∀ ds, fraction = some ds → IsDigits ds) (hne : whole = [] → ∃ c cs, fraction = some (c :: cs)) :
      ∃ l : Literal, l.spell = raw.toList :=
    ⟨⟨s, whole, fraction, p, hwhole, hfraction, hne⟩, by rw [Literal.spell, hrest, hunsigned, ← hs]⟩
  have hpointed {cs : List Char} (hcs : '.' :: cs = rest) (hexponent : matchesExponent (cs.dropWhile Char.isDigit) = true)
      (hne : whole = [] → cs.takeWhile Char.isDigit ≠ []) : ∃ l : Literal, l.spell = raw.toList := by
    obtain ⟨p, hp⟩ := matchesExponent_iff.mp hexponent
    refine hspell (some (cs.takeWhile Char.isDigit)) p ?_ ?_ fun hnil => ?_
    · rw [hp, ← hcs]
      exact congrArg ('.' :: ·) List.takeWhile_append_dropWhile
    · rintro _ ⟨⟩
      exact isDigits_takeWhile cs
    · obtain ⟨c, ds, hcs⟩ := List.exists_cons_of_ne_nil (hne hnil)
      exact ⟨c, ds, congrArg some hcs⟩
  split at h
  · rw [Bool.and_eq_true, Bool.not_eq_true', List.isEmpty_eq_false_iff] at h
    exact hpointed rfl h.2 fun _ => h.1
  · cases h
  · exact hpointed rfl h (by simp)
  · obtain ⟨p, hp⟩ := matchesExponent_iff.mp h
    exact hspell none p hp (by simp) (by simp)

theorem matchesNumber_iff : matchesNumber raw = true ↔ ∃ l : Literal, l.spell = raw.toList :=
  ⟨exists_literal_of_matchesNumber, by rintro ⟨l, hl⟩; exact matchesNumber_of_spell hl⟩

theorem decodeFloat_iff {v : Float64} : decodeFloat (some raw) = some v ↔
    ∃ l : Literal, l.spell = raw.toList ∧ |l.value| < 2 ^ 1024 - 2 ^ 970 ∧ v = .ofRat l.value := by
  have hfinite (q : ℚ) : PyFloat.isfinite (Float64.ofRat q) = true ↔ |q| < 2 ^ 1024 - 2 ^ 970 := by
    rw [← abs_round_lt_iff, Float64.ofRat]
    split
    · next h => exact iff_of_true rfl h
    · next h => exact iff_of_false Bool.false_ne_true h
  have hread {l : Literal} (h : l.spell = raw.toList) : PyFloat.float raw = Float64.ofRat l.value := by
    change Float64.ofRat (Numerals.read raw.toList) = _
    rw [← h, l.read_spell]
  rw [decodeFloat]
  constructor
  · intro h
    split at h
    · next hmatches =>
        obtain ⟨l, hl⟩ := matchesNumber_iff.mp hmatches
        simp only [hread hl] at h
        split at h
        · next hv => exact ⟨l, hl, (hfinite _).mp hv, (Option.some.inj h).symm⟩
        · cases h
    · cases h
  · rintro ⟨l, hl, hlt, rfl⟩
    rw [if_pos (matchesNumber_iff.mpr ⟨l, hl⟩)]
    simp only [hread hl]
    rw [if_pos ((hfinite _).mpr hlt)]

/-- `decode_float` takes the strings of its grammar whose numbers are short of
the overflow, each to the nearest value of the one number it spells. -/
theorem decodeFloat_reads (raw : String) :
    (matchesNumber raw = true ↔ raw.toList ∈ number.matches') ∧
    (∀ v : Float64, decodeFloat (some raw) = some v ↔
      ∃! l : Literal, l.spell = raw.toList ∧ |l.value| < 2 ^ 1024 - 2 ^ 970 ∧ v = .ofRat l.value) ∧
    ∀ x h, decodeFloat (some raw) = some (Float64.finite x h) →
      ∀ l : Literal, l.spell = raw.toList → ∀ y, Representable y → |x - l.value| ≤ |y - l.value| := by
  refine ⟨matchesNumber_iff.trans mem_number.symm, fun v => ?_, fun x h hdecode l hl y hy => ?_⟩
  · rw [decodeFloat_iff]
    constructor
    · rintro ⟨l, hl⟩
      exact ⟨l, hl, fun m hm => Literal.spell_injective (hm.1.trans hl.1.symm)⟩
    · rintro ⟨l, hl, -⟩
      exact ⟨l, hl⟩
  · obtain ⟨m, hm, hlt, hv⟩ := decodeFloat_iff.mp hdecode
    obtain rfl := Literal.spell_injective (hm.trans hl.symm)
    rw [Float64.ofRat, dif_pos ((abs_round_lt_iff _).mpr hlt)] at hv
    cases hv
    exact abs_round_sub_le_abs hy m.value

end PretradeRisk.Decoding
