import Mathlib.Algebra.Ring.Nat
import ScriptFront.Number.Double

set_option autoImplicit false

/-! # Doubles and their roundings

Every pattern of 64 bits is that of its number, except that all patterns of not-a-numbers are taken
for one (`Double.toBits_ofBits`). Rounding a quotient of units depends on the quotient alone and not
on how it is written (`Double.ofQuotient_congr`), it gives back every number that there is
(`Double.ofQuotient_units`), and it does not depend on the sign (`Double.ofQuotient_true`). -/

namespace ScriptFront.Double

/-! ## Bit patterns -/

/-- The eleven bits of exponent in a pattern. -/
def exponentBits (bits : Nat) : Nat := bits / Nat.pow 2 52 % Nat.pow 2 11

/-- The 52 bits of fraction in a pattern. -/
def fractionBits (bits : Nat) : Nat := bits % Nat.pow 2 52

/-- A pattern is put together from its sign, its exponent and its fraction. -/
theorem bits_eq {bits : Nat} (h : bits < 2 ^ 64) :
    bits = (if bits.testBit 63 then Nat.pow 2 63 else 0) +
      exponentBits bits * Nat.pow 2 52 + fractionBits bits := by
  unfold exponentBits fractionBits
  simp only [Nat.testBit_eq_decide_div_mod_eq, decide_eq_true_eq, Nat.pow_eq]
  split <;> omega

/-- What a pattern of bits stands for: no number, an infinity, or a number in its one form. -/
theorem ofBits_cases (bits : Nat) :
    (ofBits bits = nan ∧ exponentBits bits = 2047 ∧ fractionBits bits ≠ 0) ∨
    (ofBits bits = infinite (bits.testBit 63) ∧ exponentBits bits = 2047 ∧
      fractionBits bits = 0) ∨
    ∃ mantissa scale canonical,
      ofBits bits = finite (bits.testBit 63) mantissa scale canonical ∧
      exponentBits bits ≠ 2047 ∧
      scale * Nat.pow 2 52 + mantissa = exponentBits bits * Nat.pow 2 52 + fractionBits bits := by
  have hexponent : exponentBits bits < Nat.pow 2 11 := Nat.mod_lt _ (by decide)
  have hfraction : fractionBits bits < Nat.pow 2 52 := Nat.mod_lt _ (by decide)
  have hbits : ofBits bits =
      if exponentBits bits = 2047 then
        (if fractionBits bits = 0 then infinite (bits.testBit 63) else nan)
      else if exponentBits bits = 0 then ofParts (bits.testBit 63) (fractionBits bits) 0
      else ofParts (bits.testBit 63) (Nat.pow 2 52 + fractionBits bits) (exponentBits bits - 1) :=
    rfl
  rw [hbits]
  generalize exponentBits bits = exponent at *
  generalize fractionBits bits = fraction at *
  simp only [Nat.pow_eq] at *
  split
  · split
    · exact .inr (.inl ⟨rfl, ‹_›, ‹_›⟩)
    · exact .inl ⟨rfl, ‹_›, ‹_›⟩
  · refine .inr (.inr ?_)
    split
    · have hcanonical : Canonical fraction 0 :=
        ⟨by simp only [Nat.pow_eq]; omega, by omega, .inl rfl⟩
      exact ⟨fraction, 0, hcanonical, dif_pos hcanonical, ‹_›, by omega⟩
    · have hcanonical : Canonical (2 ^ 52 + fraction) (exponent - 1) :=
        ⟨by simp only [Nat.pow_eq]; omega, by omega, .inr (Nat.le_add_right _ _)⟩
      exact ⟨_, _, hcanonical, dif_pos hcanonical, ‹_›, by omega⟩

/-- The bits of a number are those that it was made from. -/
theorem toBits_ofBits {bits : Nat} (h : bits < 2 ^ 64) (hnumber : ofBits bits ≠ nan) :
    (ofBits bits).toBits = bits := by
  have hbits := bits_eq h
  rcases ofBits_cases bits with ⟨hnan, -⟩ | ⟨hinfinite, hexponent, hfraction⟩ |
    ⟨mantissa, scale, canonical, hfinite, -, hparts⟩
  · exact absurd hnan hnumber
  · rw [hexponent, hfraction] at hbits
    rw [hinfinite]
    exact hbits.symm
  · rw [hfinite]
    show _ + scale * Nat.pow 2 52 + mantissa = bits
    rw [Nat.add_assoc, hparts, ← Nat.add_assoc]
    exact hbits.symm

theorem ofBits_eq_nan_iff (bits : Nat) :
    ofBits bits = nan ↔ exponentBits bits = 2047 ∧ fractionBits bits ≠ 0 := by
  rcases ofBits_cases bits with ⟨hnan, hpattern⟩ | ⟨hinfinite, -, hfraction⟩ |
    ⟨mantissa, scale, canonical, hfinite, hexponent, -⟩
  · exact iff_of_true hnan hpattern
  · rw [hinfinite]
    exact iff_of_false nofun fun h => h.2 hfraction
  · rw [hfinite]
    exact iff_of_false nofun fun h => hexponent h.1

theorem ofBits_eq_finite {bits : Nat} (h : exponentBits bits ≠ 2047) :
    ∃ mantissa scale canonical,
      ofBits bits = finite (bits.testBit 63) mantissa scale canonical := by
  rcases ofBits_cases bits with ⟨-, hexponent, -⟩ | ⟨-, hexponent, -⟩ |
    ⟨mantissa, scale, canonical, hfinite, -⟩
  · exact absurd hexponent h
  · exact absurd hexponent h
  · exact ⟨mantissa, scale, canonical, hfinite⟩

/-! ## Nearest natural numbers -/

theorem nearest_mul_right (num den : Nat) {factor : Nat} (h : 0 < factor) :
    nearest (num * factor) (den * factor) = nearest num den := by
  have hlt : 2 * (num % den * factor) < den * factor ↔ 2 * (num % den) < den := by
    rw [← Nat.mul_assoc]; exact Nat.mul_lt_mul_right h
  have hgt : den * factor < 2 * (num % den * factor) ↔ den < 2 * (num % den) := by
    rw [← Nat.mul_assoc]; exact Nat.mul_lt_mul_right h
  unfold nearest
  simp only [Nat.mul_div_mul_right _ _ h, Nat.mul_mod_mul_right, hlt, hgt]

/-- A quotient that is a natural number is nearest to itself. -/
theorem nearest_mul (n : Nat) {den : Nat} (h : 0 < den) : nearest (n * den) den = n := by
  unfold nearest
  simp [Nat.mul_div_cancel n h, h]

/-! ## Nearest doubles -/

variable {negative : Bool}

theorem ofQuotient_mul_right (num den : Nat) {factor : Nat} (h : 0 < factor) :
    ofQuotient negative (num * factor) (den * factor) = ofQuotient negative num den := by
  unfold ofQuotient
  simp only [Nat.mul_div_mul_right _ _ h, Nat.mul_right_comm den factor, nearest_mul_right _ _ h]

/-- Quotients of the same value are rounded alike. -/
theorem ofQuotient_congr {num den num' den' : Nat} (hden : 0 < den) (hden' : 0 < den')
    (h : num * den' = num' * den) :
    ofQuotient negative num den = ofQuotient negative num' den' :=
  calc ofQuotient negative num den
      = ofQuotient negative (num * den') (den * den') := (ofQuotient_mul_right num den hden').symm
    _ = ofQuotient negative (num' * den) (den' * den) := by rw [h, Nat.mul_comm den]
    _ = ofQuotient negative num' den' := ofQuotient_mul_right num' den' hden

theorem units_pos {mantissa : Nat} (h : mantissa ≠ 0) (scale : Nat) : 0 < units mantissa scale :=
  Nat.mul_pos (Nat.pos_of_ne_zero h) (Nat.pow_pos (by decide))

theorem units_lt_pow {mantissa scale bits : Nat} (hlt : mantissa < 2 ^ 53)
    (hbits : 53 + scale ≤ bits) : units mantissa scale < Nat.pow 2 bits :=
  calc units mantissa scale
      < 2 ^ 53 * 2 ^ scale := (Nat.mul_lt_mul_right (Nat.pow_pos (by decide))).2 hlt
    _ = 2 ^ (53 + scale) := (Nat.pow_add 2 53 scale).symm
    _ ≤ Nat.pow 2 bits := Nat.pow_le_pow_right (by decide) hbits

/-- Every finite number lies before infinity. -/
theorem units_lt_infinityUnits {mantissa scale : Nat} (h : Canonical mantissa scale) :
    units mantissa scale < infinityUnits := by
  have hscale := h.2.1
  apply units_lt_pow h.1
  omega

/-- Zero has one form. -/
theorem scale_eq_zero {scale : Nat} (h : Canonical 0 scale) : scale = 0 :=
  h.2.2.resolve_right (by decide)

/-- The scale of a number is where rounding puts its units. -/
theorem log2_units {mantissa scale : Nat} (h : Canonical mantissa scale) :
    (units mantissa scale).log2 - 52 = scale := by
  obtain ⟨hlt, -, hfull⟩ := h
  rcases Nat.eq_zero_or_pos (units mantissa scale) with hzero | hpos
  · rcases hfull with rfl | hfull
    · rw [hzero]; rfl
    · have hne : mantissa ≠ 0 := Nat.ne_of_gt (Nat.lt_of_lt_of_le (by decide) hfull)
      exact absurd hzero (Nat.ne_of_gt (units_pos hne scale))
  · have hupper := (Nat.log2_lt (Nat.ne_of_gt hpos)).2 (units_lt_pow hlt (Nat.le_refl _))
    rcases hfull with rfl | hfull
    · omega
    · have habove : 2 ^ (52 + scale) ≤ units mantissa scale := by
        rw [Nat.pow_add]
        exact Nat.mul_le_mul_right _ hfull
      have hlower := (Nat.le_log2 (Nat.ne_of_gt hpos)).2 habove
      omega

/-- Rounding leaves alone what is a number already. -/
theorem ofQuotient_units {mantissa scale : Nat} (h : Canonical mantissa scale) :
    ofQuotient negative (units mantissa scale) 1 = finite negative mantissa scale h := by
  have hmantissa : nearest (units mantissa scale) (1 * Nat.pow 2 scale) = mantissa := by
    rw [Nat.one_mul]
    exact nearest_mul mantissa (Nat.pow_pos (by decide))
  unfold ofQuotient
  simp only [Nat.div_one, log2_units h, hmantissa]
  rw [if_neg (Nat.ne_of_lt h.1)]
  exact dif_pos h

/-! ## Signs -/

theorem ofParts_true (mantissa scale : Nat) :
    ofParts true mantissa scale = (ofParts false mantissa scale).neg := by
  unfold ofParts
  split <;> rfl

theorem ofQuotient_true (num den : Nat) :
    ofQuotient true num den = (ofQuotient false num den).neg := by
  unfold ofQuotient
  simp only [ofParts_true]
  split <;> rfl

end ScriptFront.Double
