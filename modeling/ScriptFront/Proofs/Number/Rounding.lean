import Mathlib.Tactic.Ring
import ScriptFront.Proofs.Number.Whole

set_option autoImplicit false

/-! # Rounding in whole numbers

A quotient of units is rounded at the least scale at which it has no more than 53 bits before the
point (`Double.scaleOf`), to the nearest mantissa (`Double.mantissaOf`). No double of either sign is
nearer to the quotient than this, because all that are not on the grid of this scale lie below a
number of the grid that the quotient has reached (`Double.gap_rounded`); and rounding gives this
double, unless its scale is too large (`Double.ofQuotient_cases`). Distances are compared as whole
numbers of the denominator's parts. -/

namespace ScriptFront.Double

/-! ## Nearest whole numbers -/

/-- How far a quotient is from a whole number, in parts of its denominator. -/
def gap (num : Int) (den : Nat) (n : Int) : Nat := (num - n * den).natAbs

section Nearest

variable {den floor remainder : Nat}

theorem gap_natCast (num den n : Nat) : gap num den n = ((num : Int) - (n * den : Nat)).natAbs := by
  unfold gap
  push_cast
  rfl

theorem gap_below (steps : Nat) :
    gap ((floor + steps) * den + remainder : Nat) den floor = steps * den + remainder := by
  rw [gap_natCast, Nat.add_mul]
  omega

theorem gap_above (hlt : remainder < den) (steps : Nat) :
    gap (floor * den + remainder : Nat) den (floor + 1 + steps : Nat) =
      steps * den + (den - remainder) := by
  rw [gap_natCast, Nat.add_mul, Nat.succ_mul]
  omega

theorem nearest_cases (num : Nat) (h : 0 < den) :
    ∃ floor remainder, num = floor * den + remainder ∧ remainder < den ∧
      ((nearest num den = floor ∧ 2 * remainder ≤ den ∧ (2 * remainder = den → floor % 2 = 0)) ∨
       (nearest num den = floor + 1 ∧ den ≤ 2 * remainder ∧
        (2 * remainder = den → floor % 2 = 1))) := by
  refine ⟨num / den, num % den, (Nat.div_add_mod' num den).symm, Nat.mod_lt _ h, ?_⟩
  unfold nearest
  simp only
  split
  · exact .inl ⟨rfl, by omega, by omega⟩
  · split
    · exact .inr ⟨rfl, by omega, by omega⟩
    · rcases Nat.mod_two_eq_zero_or_one (num / den) with heven | hodd
      · exact .inl ⟨by omega, by omega, fun _ => heven⟩
      · exact .inr ⟨by omega, by omega, fun _ => hodd⟩

/-- No whole number is nearer to a quotient than the nearest one, and one that is as near is the
    other neighbour of an even number. -/
theorem gap_nearest (num : Nat) (h : 0 < den) (n : Nat) :
    gap num den (nearest num den) ≤ gap num den n ∧
      (gap num den (nearest num den) = gap num den n →
        n = nearest num den ∨ nearest num den % 2 = 0) := by
  obtain ⟨floor, remainder, rfl, hlt, hnearest⟩ := nearest_cases num h
  have hfloor : gap (floor * den + remainder : Nat) den floor = remainder := by
    simpa using @gap_below den floor remainder 0
  have hceiling : gap (floor * den + remainder : Nat) den (floor + 1 : Nat) = den - remainder := by
    simpa using @gap_above den floor remainder hlt 0
  have hnone {steps : Nat} (hzero : steps * den = 0) : steps = 0 :=
    (Nat.mul_eq_zero.1 hzero).resolve_right (Nat.ne_of_gt h)
  rcases Nat.lt_or_ge floor n with hn | hn
  · obtain ⟨steps, rfl⟩ := Nat.exists_eq_add_of_le hn
    have hgap := @gap_above den floor remainder hlt steps
    have hsteps := @hnone steps
    rcases hnearest with ⟨hnear, hhalf, htie⟩ | ⟨hnear, hhalf, htie⟩ <;> rw [hnear]
    · rw [hfloor, hgap]
      omega
    · rw [hceiling, hgap]
      omega
  · obtain ⟨steps, rfl⟩ := Nat.exists_eq_add_of_le hn
    have hgap := @gap_below den n remainder steps
    have hsteps := @hnone steps
    rcases hnearest with ⟨hnear, hhalf, htie⟩ | ⟨hnear, hhalf, htie⟩ <;> rw [hnear]
    · rw [hfloor, hgap]
      omega
    · rw [hceiling, hgap]
      omega

end Nearest

section Scale

variable {num den : Nat}

/-- A quotient below a whole number is at most rounded up to it. -/
theorem nearest_le {n : Nat} (h : 0 < den) (hlt : num < n * den) : nearest num den ≤ n := by
  obtain ⟨floor, remainder, rfl, -, hnearest⟩ := nearest_cases num h
  have hfloor : floor < n :=
    Nat.lt_of_mul_lt_mul_right (Nat.lt_of_le_of_lt (Nat.le_add_right _ _) hlt)
  rcases hnearest with ⟨hnear, -⟩ | ⟨hnear, -⟩ <;> omega

theorem le_nearest {n : Nat} (h : 0 < den) (hle : n * den ≤ num) : n ≤ nearest num den := by
  obtain ⟨floor, remainder, rfl, hlt, hnearest⟩ := nearest_cases num h
  have hfloor : n * den < (floor + 1) * den := by
    rw [Nat.succ_mul]
    omega
  have hle := Nat.lt_of_mul_lt_mul_right hfloor
  rcases hnearest with ⟨hnear, -⟩ | ⟨hnear, -⟩ <;> omega

/-- A quotient below an even number is rounded up to it from half a step before it on. -/
theorem nearest_eq_even_iff {n : Nat} (h : 0 < den) (heven : n % 2 = 0) (hpos : 0 < n)
    (hlt : num < n * den) : nearest num den = n ↔ (2 * n - 1) * den ≤ 2 * num := by
  obtain ⟨floor, remainder, rfl, hremainder, hnearest⟩ := nearest_cases num h
  obtain ⟨n, rfl⟩ := Nat.exists_eq_succ_of_ne_zero (Nat.ne_of_gt hpos)
  have hfloor : floor < n + 1 :=
    Nat.lt_of_mul_lt_mul_right (Nat.lt_of_le_of_lt (Nat.le_add_right _ _) hlt)
  have hodd : (2 * (n + 1) - 1) * den = 2 * (n * den) + den := by
    rw [show 2 * (n + 1) - 1 = 2 * n + 1 by omega, Nat.succ_mul, Nat.mul_assoc]
  rw [hodd]
  rcases Nat.lt_or_ge floor n with hbelow | habove
  · have hstep : (floor + 1) * den ≤ n * den := Nat.mul_le_mul_right _ hbelow
    rw [Nat.succ_mul] at hstep
    rcases hnearest with ⟨hnear, -⟩ | ⟨hnear, -⟩ <;> omega
  · obtain rfl : floor = n := by omega
    rcases hnearest with ⟨hnear, hhalf, htie⟩ | ⟨hnear, hhalf, htie⟩ <;> omega

/-- The scale at which a quotient is rounded. -/
def scaleOf (num den : Nat) : Nat := (num / den).log2 - 52

/-- The mantissa to which a quotient is rounded, of 53 bits or with the first one of 54. -/
def mantissaOf (num den : Nat) : Nat := nearest num (den * 2 ^ scaleOf num den)

/-- At its scale a quotient has at most 53 bits before the point. -/
theorem lt_of_scaleOf (num : Nat) (h : 0 < den) : num < 2 ^ 53 * (den * 2 ^ scaleOf num den) := by
  have hbits : num / den < 2 ^ (53 + scaleOf num den) := by
    refine Nat.lt_of_lt_of_le Nat.lt_log2_self (Nat.pow_le_pow_right (by decide) ?_)
    unfold scaleOf
    omega
  rw [Nat.div_lt_iff_lt_mul h, Nat.pow_add, Nat.mul_assoc, Nat.mul_comm _ den] at hbits
  exact hbits

/-- A scale other than zero is not greater than it needs to be. -/
theorem le_of_scaleOf (h : 0 < den) (hscale : scaleOf num den ≠ 0) :
    2 ^ 52 * (den * 2 ^ scaleOf num den) ≤ num := by
  have hlog : 52 + scaleOf num den = (num / den).log2 := by
    unfold scaleOf at *
    omega
  have hne : num / den ≠ 0 := by
    intro hzero
    rw [scaleOf, hzero] at hscale
    exact hscale rfl
  have hbits : 2 ^ (52 + scaleOf num den) ≤ num / den := by
    rw [hlog]
    exact Nat.log2_self_le hne
  rw [Nat.le_div_iff_mul_le h, Nat.pow_add, Nat.mul_assoc, Nat.mul_comm _ den] at hbits
  exact hbits

theorem units_mul (n scale den : Nat) : units n scale * den = n * (den * 2 ^ scale) := by
  rw [units, Nat.pow_eq, Nat.mul_assoc, Nat.mul_comm (2 ^ scale)]

/-- A mantissa at a greater scale is a greater mantissa at a smaller one. -/
theorem units_add (mantissa scale more : Nat) :
    units mantissa (scale + more) = units (mantissa * 2 ^ more) scale := by
  rw [units, units, Nat.pow_eq, Nat.pow_eq, Nat.add_comm scale, Nat.pow_add, Nat.mul_assoc]

/-- All numbers of a scale are less than what has a full mantissa at a greater one. -/
theorem units_lt_full {mantissa scale full : Nat} (canonical : Canonical mantissa scale)
    (h : scale < full) : units mantissa scale < units (2 ^ 52) full :=
  calc units mantissa scale
      < Nat.pow 2 (53 + scale) := units_lt_pow canonical.1 (Nat.le_refl _)
    _ ≤ 2 ^ (52 + full) := Nat.pow_le_pow_right (by decide) (by omega)
    _ = units (2 ^ 52) full := Nat.pow_add ..

theorem gap_units (num den n scale : Nat) :
    gap num den (units n scale) = gap num (den * 2 ^ scale) n := by
  rw [gap_natCast, gap_natCast, units_mul]

/-- No double is nearer to a quotient than what it is rounded to, and one that is as near is the
    other neighbour of an even mantissa. -/
theorem gap_mantissaOf (num : Nat) (h : 0 < den) {mantissa scale : Nat}
    (canonical : Canonical mantissa scale) :
    gap num den (units (mantissaOf num den) (scaleOf num den)) ≤
        gap num den (units mantissa scale) ∧
      (gap num den (units (mantissaOf num den) (scaleOf num den)) =
          gap num den (units mantissa scale) →
        units mantissa scale = units (mantissaOf num den) (scaleOf num den) ∨
          mantissaOf num den % 2 = 0) := by
  have hwidth : 0 < den * 2 ^ scaleOf num den := Nat.mul_pos h (Nat.two_pow_pos _)
  have hnearest := gap_nearest num hwidth
  rw [gap_units]
  by_cases hscale : scaleOf num den ≤ scale
  · -- the double lies on the grid of this scale
    obtain ⟨more, rfl⟩ := Nat.exists_eq_add_of_le hscale
    rw [units_add, gap_units]
    refine ⟨(hnearest _).1, fun htie => ?_⟩
    rcases (hnearest _).2 htie with heq | heven
    · exact .inl (congrArg (units · _) heq)
    · exact .inr heven
  · -- the double lies below the grid of 53 bits, of which the least number is nearer
    have hleast := le_of_scaleOf h (show scaleOf num den ≠ 0 by omega)
    have hbelow := units_lt_full canonical (show scale < scaleOf num den by omega)
    have hcloser : gap num (den * 2 ^ scaleOf num den) (2 ^ 52 : Nat) <
        gap num den (units mantissa scale) := by
      have hless := Nat.mul_lt_mul_of_pos_right hbelow h
      rw [← gap_units, gap_natCast, gap_natCast]
      rw [← units_mul] at hleast
      omega
    have hlt := Nat.lt_of_le_of_lt (hnearest (2 ^ 52)).1 hcloser
    exact ⟨Nat.le_of_lt hlt, fun htie => absurd htie (Nat.ne_of_lt hlt)⟩

end Scale

/-! ## Overflow -/

section Overflow

variable {num den : Nat} {negative : Bool}

/-- From here on units are rounded to infinity: half a step behind the greatest finite number. -/
def overflowUnits : Nat := (2 ^ 54 - 1) * 2 ^ 2044

theorem mantissaOf_le (num : Nat) (h : 0 < den) : mantissaOf num den ≤ 2 ^ 53 :=
  nearest_le (Nat.mul_pos h (Nat.two_pow_pos _)) (lt_of_scaleOf num h)

theorem le_mantissaOf (h : 0 < den) (hscale : scaleOf num den ≠ 0) : 2 ^ 52 ≤ mantissaOf num den :=
  le_nearest (Nat.mul_pos h (Nat.two_pow_pos _)) (le_of_scaleOf h hscale)

/-- A quotient lies half a step behind the greatest mantissa of a scale or further if its scale is
    greater, or becomes greater by a carry. -/
theorem half_behind_le_iff (h : 0 < den) (top : Nat) : (2 ^ 54 - 1) * 2 ^ top * den ≤ num ↔
    top + 1 < scaleOf num den ∨ scaleOf num den = top + 1 ∧ mantissaOf num den = 2 ^ 53 := by
  have hupper := lt_of_scaleOf num h
  have hpowers : ∀ {a b : Nat}, a ≤ b → den * 2 ^ a ≤ den * 2 ^ b := fun hle =>
    Nat.mul_le_mul_left _ (Nat.pow_le_pow_right (by decide) hle)
  rw [Nat.mul_assoc, Nat.mul_comm (2 ^ top)]
  rcases Nat.lt_trichotomy (scaleOf num den) (top + 1) with hsmall | hlast | hlarge
  · have hpower := hpowers (Nat.le_of_lt_succ hsmall)
    omega
  · have hcarry := nearest_eq_even_iff (Nat.mul_pos h (Nat.two_pow_pos _)) (by decide) (by decide)
      hupper
    rw [← mantissaOf] at hcarry
    rw [hcarry, hlast, @Nat.pow_succ 2 top, ← Nat.mul_assoc den]
    omega
  · have hlower := le_of_scaleOf h (show scaleOf num den ≠ 0 by omega)
    have hpower := hpowers hlarge
    rw [Nat.pow_succ, Nat.pow_succ, ← Nat.mul_assoc, ← Nat.mul_assoc] at hpower
    omega

theorem overflowUnits_mul_le_iff (h : 0 < den) : overflowUnits * den ≤ num ↔
    2045 < scaleOf num den ∨ scaleOf num den = 2045 ∧ mantissaOf num den = 2 ^ 53 :=
  half_behind_le_iff h 2044

/-- What a quotient is rounded to: infinity if it overflows, and otherwise its mantissa at its
    scale, which keeps an even last bit in a carry. -/
theorem ofQuotient_cases (h : 0 < den) :
    (ofQuotient negative num den = infinite negative ∧ overflowUnits * den ≤ num) ∨
    ∃ mantissa scale canonical,
      ofQuotient negative num den = finite negative mantissa scale canonical ∧
      ¬ overflowUnits * den ≤ num ∧
      units mantissa scale = units (mantissaOf num den) (scaleOf num den) ∧
      (mantissaOf num den % 2 = 0 → mantissa % 2 = 0) := by
  have hparts : ofQuotient negative num den =
      if mantissaOf num den = 2 ^ 53 then
        ofParts negative (Nat.pow 2 52) (scaleOf num den + 1)
      else ofParts negative (mantissaOf num den) (scaleOf num den) := rfl
  have hle := mantissaOf_le num h
  have hfull := @le_mantissaOf num den h
  rw [hparts, overflowUnits_mul_le_iff h]
  unfold ofParts
  by_cases hcarry : mantissaOf num den = 2 ^ 53
  · rw [if_pos hcarry]
    by_cases hscale : scaleOf num den + 1 ≤ 2045
    · have hcanonical : Canonical (Nat.pow 2 52) (scaleOf num den + 1) :=
        ⟨by decide, hscale, .inr (Nat.le_refl _)⟩
      refine .inr ⟨_, _, hcanonical, dif_pos hcanonical, by omega, ?_, fun _ => by decide⟩
      simp only [hcarry, units, Nat.pow_eq, Nat.pow_succ (2 : Nat) (scaleOf num den)]
      ring
    · exact .inl ⟨dif_neg fun hcanonical => hscale hcanonical.2.1, by omega⟩
  · rw [if_neg hcarry]
    by_cases hscale : scaleOf num den ≤ 2045
    · have hcanonical : Canonical (mantissaOf num den) (scaleOf num den) := by
        refine ⟨Nat.lt_of_le_of_ne hle hcarry, hscale, ?_⟩
        by_cases hzero : scaleOf num den = 0
        · exact .inl hzero
        · exact .inr (hfull hzero)
      exact .inr ⟨_, _, hcanonical, dif_pos hcanonical, by omega, rfl, id⟩
    · exact .inl ⟨dif_neg fun hcanonical => hscale hcanonical.2.1, .inl (by omega)⟩

end Overflow

/-! ## Signs -/

section Signs

variable {num den : Nat}

/-- A whole number with a sign. -/
def withSign (negative : Bool) (n : Nat) : Int := if negative then -(n : Int) else n

theorem gap_withSign (negative : Bool) (num den n : Nat) :
    gap (withSign negative num) den (withSign negative n) = gap num den n := by
  unfold gap withSign
  cases negative with
  | false => rfl
  | true => simp only [if_true, Int.neg_mul]; omega

theorem gap_withSign_not (negative : Bool) (num den n : Nat) :
    gap (withSign negative num) den (withSign (!negative) n) = num + n * den := by
  unfold gap withSign
  rw [← Int.natAbs_natCast (num + n * den)]
  push_cast
  cases negative with
  | false => simp only [Bool.not_false, if_true, Int.neg_mul, Bool.false_eq_true, if_false]; omega
  | true => simp only [Bool.not_true, if_true, Bool.false_eq_true, if_false]; omega

theorem withSign_zero (negative : Bool) : withSign negative 0 = 0 := by
  cases negative <;> rfl

theorem signedUnits_eq (negative : Bool) (mantissa scale : Nat) :
    signedUnits negative mantissa scale = withSign negative (units mantissa scale) := rfl

/-- No double of either sign is nearer to a quotient than what it is rounded to. -/
theorem gap_rounded (num : Nat) (h : 0 < den) (negative negative' : Bool) {mantissa scale : Nat}
    (canonical : Canonical mantissa scale) :
    let rounded := withSign negative (units (mantissaOf num den) (scaleOf num den))
    gap (withSign negative num) den rounded ≤
        gap (withSign negative num) den (signedUnits negative' mantissa scale) ∧
      (gap (withSign negative num) den rounded =
          gap (withSign negative num) den (signedUnits negative' mantissa scale) →
        signedUnits negative' mantissa scale = rounded ∨ mantissaOf num den % 2 = 0) := by
  intro rounded
  have hnearest := gap_mantissaOf num h canonical
  rw [signedUnits_eq, gap_withSign]
  by_cases hsign : negative' = negative
  · subst hsign
    rw [gap_withSign]
    exact ⟨hnearest.1, fun htie => (hnearest.2 htie).imp_left (congrArg _)⟩
  · -- a double of the other sign is nearest at best when it is a zero
    obtain rfl : negative' = !negative := by
      cases negative <;> cases negative' <;> simp_all
    have hzero := gap_mantissaOf num h (show Canonical 0 0 by decide)
    have hnum : gap num den (units 0 0) = num := by simp [gap, units]
    rw [hnum] at hzero
    rw [gap_withSign_not]
    refine ⟨Nat.le_add_right_of_le hzero.1, fun htie => ?_⟩
    have hnone : units mantissa scale * den = 0 := by omega
    have hother : units mantissa scale = 0 :=
      (Nat.mul_eq_zero.1 hnone).resolve_right (Nat.ne_of_gt h)
    refine (hzero.2 (by omega)).imp_left fun heq => ?_
    have hrounded : units (mantissaOf num den) (scaleOf num den) = 0 := by
      rw [← heq, units, Nat.zero_mul]
    simp only [rounded, hrounded, hother, withSign_zero]

end Signs

end ScriptFront.Double
