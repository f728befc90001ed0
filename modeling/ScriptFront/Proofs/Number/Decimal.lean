import ScriptFront.Number.Decimal
import ScriptFront.Proofs.Number.Double

set_option autoImplicit false

/-! # Decimals and doubles

The double nearest to a decimal depends on the value of the decimal and not on its zeros
(`Decimal.toDouble_mul_pow`). The decimal that is found for a double is read back as this double
(`Decimal.toDouble_shortest`): the search only ever stops at such decimals, and at the finest grid
there is always one, because there the double is written exactly. -/

namespace ScriptFront

/-! ## Numerals -/

namespace Numeral

/-- A numeral times a power of ten has as many zeros more. -/
theorem ofNat_mul_pow {n : Nat} (h : 0 < n) (zeros : Nat) :
    ofNat (n * 10 ^ zeros) = ofNat n ++ List.replicate zeros '0' := by
  induction zeros with
  | zero => simp
  | succ zeros ih =>
      have hpos : 0 < n * 10 ^ zeros := Nat.mul_pos h (Nat.pow_pos (by decide))
      have hsucc : n * 10 ^ (zeros + 1) = 10 * (n * 10 ^ zeros) + 0 := by
        rw [Nat.pow_succ, Nat.add_zero, Nat.mul_comm 10, Nat.mul_assoc]
      have happend := Nat.toDigits_append_toDigits (d := 0) (b := 10) (by decide) hpos (by decide)
      rw [hsucc, ofNat, ← happend, List.replicate_succ', ← List.append_assoc, ← ih]
      rfl

theorem length_ofNat_pos (n : Nat) : 0 < (ofNat n).length := Nat.length_toDigits_pos

/-- How long a numeral is says between which powers of ten the number is. -/
theorem length_ofNat_le_iff {n k : Nat} (h : 0 < k) : (ofNat n).length ≤ k ↔ n < 10 ^ k :=
  Nat.length_toDigits_le_iff (by decide) h

theorem lt_length_ofNat_iff {n k : Nat} (h : 0 < k) : k < (ofNat n).length ↔ 10 ^ k ≤ n := by
  rw [← Nat.not_le, length_ofNat_le_iff h, Nat.not_lt]

end Numeral

namespace Decimal

/-! ## From decimals to doubles -/

variable {negative : Bool}

theorem toDouble_zero (exponent : Int) : toDouble negative ⟨0, exponent⟩ = .zero negative := rfl

/-- A decimal that is neither zero nor far out is the quotient that it stands for. -/
theorem toDouble_eq_ofQuotient {decimal : Decimal} (hdigits : decimal.digits ≠ 0)
    (hle : (Numeral.ofNat decimal.digits).length + decimal.exponent ≤ 310)
    (hge : -330 ≤ (Numeral.ofNat decimal.digits).length + decimal.exponent) :
    toDouble negative decimal = .ofQuotient negative decimal.quotient.1 decimal.quotient.2 := by
  unfold toDouble
  simp only
  rw [if_neg hdigits, if_neg (Int.not_lt.2 hle), if_neg (Int.not_lt.2 hge)]

theorem quotient_pos (decimal : Decimal) : 0 < decimal.quotient.2 := Nat.pow_pos (by decide)

/-- A decimal with more zeros and the exponent lowered to match is the same quotient. -/
theorem quotient_mul_pow (digits zeros : Nat) (exponent : Int) :
    (quotient ⟨digits * 10 ^ zeros, exponent - zeros⟩).1 * (quotient ⟨digits, exponent⟩).2 =
      (quotient ⟨digits, exponent⟩).1 * (quotient ⟨digits * 10 ^ zeros, exponent - zeros⟩).2 := by
  have hpower : zeros + (exponent - zeros).toNat + (-exponent).toNat =
      exponent.toNat + (-(exponent - zeros)).toNat := by omega
  unfold quotient
  simp only [Nat.pow_eq]
  generalize Double.unitsPerOne = unit
  calc digits * 10 ^ zeros * unit * 10 ^ (exponent - zeros).toNat * 10 ^ (-exponent).toNat
      = digits * unit * 10 ^ (zeros + (exponent - zeros).toNat + (-exponent).toNat) := by
        rw [Nat.pow_add, Nat.pow_add]; ac_rfl
    _ = digits * unit * 10 ^ exponent.toNat * 10 ^ (-(exponent - zeros)).toNat := by
        rw [hpower, Nat.pow_add]; ac_rfl

/-- Zeros at the end of the digits do not count when the exponent is lowered to match. -/
theorem toDouble_mul_pow (digits zeros : Nat) (exponent : Int) :
    toDouble negative ⟨digits * 10 ^ zeros, exponent - zeros⟩ =
      toDouble negative ⟨digits, exponent⟩ := by
  rcases Nat.eq_zero_or_pos digits with rfl | hpos
  · rw [Nat.zero_mul, toDouble_zero, toDouble_zero]
  · have hne : digits * 10 ^ zeros ≠ 0 :=
      Nat.ne_of_gt (Nat.mul_pos hpos (Nat.pow_pos (by decide)))
    have hlength : (((Numeral.ofNat (digits * 10 ^ zeros)).length : Int) + (exponent - zeros)) =
        (Numeral.ofNat digits).length + exponent := by
      rw [Numeral.ofNat_mul_pow hpos, List.length_append, List.length_replicate]
      omega
    unfold toDouble
    simp only [hne, Nat.ne_of_gt hpos, hlength, if_false]
    rw [Double.ofQuotient_congr (quotient_pos _) (quotient_pos _)
      (quotient_mul_pow digits zeros exponent)]

/-- The sign of a decimal is the sign of the double. -/
theorem toDouble_true (decimal : Decimal) :
    toDouble true decimal = (toDouble false decimal).neg := by
  unfold toDouble
  simp only [Double.ofQuotient_true]
  split
  · rfl
  · split
    · rfl
    · split <;> rfl

theorem toDouble_of_eq_finite {decimal : Decimal} {mantissa scale : Nat}
    {canonical : Double.Canonical mantissa scale}
    (h : toDouble false decimal = .finite false mantissa scale canonical) (negative : Bool) :
    toDouble negative decimal = .finite negative mantissa scale canonical := by
  cases negative with
  | false => exact h
  | true => rw [toDouble_true, h]; rfl

/-! ## From doubles to decimals -/

variable {mantissa scale : Nat}

/-- A number other than zero makes neither too few nor too many finest steps to be written out. -/
theorem finestSteps_bounds {units : Nat} (hpos : 0 < units) (hlt : units < Double.infinityUnits) :
    10 ^ 743 ≤ finestSteps units ∧ finestSteps units < 10 ^ 1384 := by
  have hleast : 10 ^ 743 ≤ Nat.pow 5 1074 := by decide +kernel
  have hgreatest : Double.infinityUnits * Nat.pow 5 1074 < 10 ^ 1384 := by decide +kernel
  unfold finestSteps
  generalize Nat.pow 5 1074 = five at *
  exact ⟨Nat.le_trans hleast (Nat.le_mul_of_pos_left _ hpos),
    Nat.lt_of_le_of_lt (Nat.mul_le_mul_right _ (Nat.le_of_lt hlt)) hgreatest⟩

/-- The quotient of a number of finest steps is the number of units that makes them. -/
theorem quotient_finest (units : Nat) :
    (atGrid (finestSteps units) 0).quotient.1 =
      units * (atGrid (finestSteps units) 0).quotient.2 := by
  have hnum : ((0 : Nat) - 1074 : Int).toNat = 0 := rfl
  have hden : (-((0 : Nat) - 1074 : Int)).toNat = 1074 := rfl
  unfold quotient atGrid finestSteps Double.unitsPerOne
  dsimp only
  rw [hnum, hden]
  generalize 1074 = places
  show units * 5 ^ places * 2 ^ places * 1 = units * 10 ^ places
  rw [Nat.mul_one, Nat.mul_assoc, ← Nat.mul_pow]

/-- On the finest grid a number is written exactly. -/
theorem toDouble_finest (canonical : Double.Canonical mantissa scale) (h : mantissa ≠ 0) :
    toDouble false (atGrid (finestSteps (Double.units mantissa scale)) 0) =
      .finite false mantissa scale canonical := by
  obtain ⟨hleast, hgreatest⟩ := finestSteps_bounds (Double.units_pos h scale)
    (Double.units_lt_infinityUnits canonical)
  have hquotient := quotient_finest (Double.units mantissa scale)
  generalize finestSteps (Double.units mantissa scale) = steps at *
  have hlong : 743 < (Numeral.ofNat steps).length := by
    rw [Numeral.lt_length_ofNat_iff (by decide)]
    exact hleast
  have hshort : (Numeral.ofNat steps).length ≤ 1384 := by
    rw [Numeral.length_ofNat_le_iff (by decide)]
    exact hgreatest
  have hne : steps ≠ 0 := fun hzero => absurd (hzero ▸ hlong) (by decide)
  rw [toDouble_eq_ofQuotient hne (by simp only [atGrid]; omega) (by simp only [atGrid]; omega),
    ← Double.ofQuotient_units canonical]
  exact Double.ofQuotient_congr (quotient_pos _) Nat.one_pos (by rw [hquotient, Nat.mul_one])

/-! ## The search -/

section Search

variable {readsBack : Decimal → Bool}

theorem choose_cases {floor remainder width n : Nat} {floorFits ceilingFits : Bool}
    (h : choose floor remainder width floorFits ceilingFits = some n) :
    (n = floor ∧ floorFits = true) ∨ (n = floor + 1 ∧ ceilingFits = true) := by
  unfold choose at h
  cases floorFits <;> cases ceilingFits <;> simp only [Option.some.injEq, reduceCtorEq] at h
  · exact .inr ⟨h.symm, rfl⟩
  · exact .inl ⟨h.symm, rfl⟩
  · split at h
    · exact .inl ⟨(Option.some.inj h).symm, rfl⟩
    · split at h
      · exact .inr ⟨(Option.some.inj h).symm, rfl⟩
      · have hn := Option.some.inj h
        rcases Nat.mod_two_eq_zero_or_one floor with heven | hodd
        · exact .inl ⟨by omega, rfl⟩
        · exact .inr ⟨by omega, rfl⟩

/-- What is found on a grid is read back. -/
theorem readsBack_of_onGrid? {steps grid : Nat} {decimal : Decimal}
    (h : onGrid? readsBack steps grid = some decimal) : readsBack decimal = true := by
  unfold onGrid? at h
  obtain ⟨n, hn, rfl⟩ := Option.map_eq_some_iff.1 h
  rcases choose_cases hn with ⟨rfl, hfits⟩ | ⟨rfl, hfits⟩
  · exact hfits
  · exact hfits

/-- What the search ends with is read back, if what the finest grid has is. -/
theorem readsBack_search {steps : Nat} (hfinest : readsBack (atGrid steps 0) = true) (grid : Nat) :
    readsBack (search readsBack steps grid) = true := by
  induction grid with
  | zero => exact hfinest
  | succ grid ih =>
      unfold search
      cases hfound : onGrid? readsBack steps (grid + 1) with
      | none => exact ih
      | some decimal => exact readsBack_of_onGrid? hfound

end Search

/-- The decimal of a number other than zero is read back as this number. -/
theorem toDouble_shortest (canonical : Double.Canonical mantissa scale) (h : mantissa ≠ 0)
    (negative : Bool) :
    toDouble negative (shortest mantissa scale canonical) =
      .finite negative mantissa scale canonical := by
  have hread := @readsBack_search
    (fun decimal => decide (toDouble false decimal = .finite false mantissa scale canonical)) _
    (decide_eq_true (toDouble_finest canonical h))
  exact toDouble_of_eq_finite (of_decide_eq_true (hread _)) negative

/-- The decimal of a number other than zero has digits other than zero. -/
theorem digits_shortest_ne_zero (canonical : Double.Canonical mantissa scale) (h : mantissa ≠ 0) :
    (shortest mantissa scale canonical).digits ≠ 0 := by
  intro hzero
  have hread := toDouble_shortest canonical h false
  unfold toDouble at hread
  rw [if_pos hzero] at hread
  exact h (Double.finite.inj hread).2.1.symm

end Decimal

end ScriptFront
