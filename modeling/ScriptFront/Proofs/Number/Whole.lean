import ScriptFront.Proofs.Number.Plain
import ScriptFront.Proofs.Number.Value

set_option autoImplicit false

/-! # Whole numbers as doubles

An integer of at most 53 bits is a double (`Double.ofInt_eq_finite`), so it is compared, negated and
subtracted without rounding. Its text is its numeral (`formatDouble_ofInt`): among the decimals on
grids of whole numbers only the integer itself is read back, so the search for the shortest decimal
ends at the integer without some zeros at its end, and writing it without an exponent fills them in
again. -/

namespace ScriptFront

namespace Double

/-! ## Whole numbers as doubles -/

theorem units_eq_zero_iff (mantissa scale : Nat) : units mantissa scale = 0 ↔ mantissa = 0 := by
  have hpower : Nat.pow 2 scale ≠ 0 := Nat.ne_of_gt (Nat.two_pow_pos scale)
  rw [units, Nat.mul_eq_zero, or_iff_left hpower]

/-- Whatever has at most 53 bits at some scale has a form. -/
theorem exists_canonical {mantissa scale : Nat} (hlt : mantissa < 2 ^ 53) (hscale : scale ≤ 2045) :
    ∃ mantissa' scale', Canonical mantissa' scale' ∧
      units mantissa' scale' = units mantissa scale := by
  induction scale generalizing mantissa with
  | zero => exact ⟨mantissa, 0, ⟨hlt, hscale, .inl rfl⟩, rfl⟩
  | succ scale ih =>
      by_cases hfull : 2 ^ 52 ≤ mantissa
      · exact ⟨mantissa, scale + 1, ⟨hlt, hscale, .inr hfull⟩, rfl⟩
      · -- there is room for one more bit
        obtain ⟨mantissa', scale', canonical, hunits⟩ :=
          ih (show 2 * mantissa < 2 ^ 53 by omega) (Nat.le_of_succ_le hscale)
        refine ⟨mantissa', scale', canonical, hunits.trans ?_⟩
        rw [units, units, Nat.pow_eq, Nat.pow_eq, Nat.pow_succ]
        ac_rfl

theorem units_ones (n : Nat) : units n 1074 = n * unitsPerOne := by
  unfold unitsPerOne
  generalize 1074 = places
  rfl

/-- An integer of at most 53 bits is a double. -/
theorem ofInt_eq_finite {n : Int} (h : n.natAbs < 2 ^ 53) :
    ∃ mantissa scale canonical, ofInt n = finite (decide (n < 0)) mantissa scale canonical ∧
      units mantissa scale = n.natAbs * unitsPerOne := by
  obtain ⟨mantissa, scale, canonical, hunits⟩ :=
    exists_canonical h (show 1074 ≤ 2045 by decide)
  rw [units_ones] at hunits
  refine ⟨mantissa, scale, canonical, ?_, hunits⟩
  rw [ofInt, ← hunits, ofQuotient_units canonical]

theorem signedUnits_of_units {n : Int} {mantissa scale : Nat}
    (h : units mantissa scale = n.natAbs * unitsPerOne) :
    signedUnits (decide (n < 0)) mantissa scale = n * unitsPerOne := by
  unfold signedUnits
  rw [h, Int.natCast_mul]
  by_cases hneg : n < 0
  · rw [decide_eq_true hneg, if_pos rfl, ← Int.neg_mul]
    congr 1
    omega
  · rw [decide_eq_false hneg, if_neg Bool.false_ne_true]
    congr 1
    omega

/-- Such an integer keeps its value. -/
theorem value?_ofInt {n : Int} (h : n.natAbs < 2 ^ 53) :
    (ofInt n).value? = some ((n : ℚ) : ExtendedRat) := by
  obtain ⟨mantissa, scale, canonical, hfinite, hunits⟩ := ofInt_eq_finite h
  rw [hfinite, value?, signedUnits_of_units hunits, ofUnits_mul_unitsPerOne]

theorem valueOfInt_strictMono : StrictMono fun n : Int => ((n : ℚ) : ExtendedRat) :=
  WithBotTop.coe_strictMono.comp Int.cast_strictMono

/-- Integers of at most 53 bits are compared as such. -/
theorem compare?_ofInt {m n : Int} (hm : m.natAbs < 2 ^ 53) (hn : n.natAbs < 2 ^ 53) :
    (ofInt m).compare? (ofInt n) = some (compare m n) := by
  rw [compare?_eq, value?_ofInt hm, value?_ofInt hn, Option.map₂_some_some]
  have hcompare := valueOfInt_strictMono.cmp_map_eq m n
  rw [cmp_eq_compare, cmp_eq_compare] at hcompare
  rw [hcompare]

/-! ## Arithmetic -/

theorem ofInt_zero : ofInt 0 = zero false := by
  have hcanonical : Canonical 0 0 := ⟨by decide, by decide, .inl rfl⟩
  rw [ofInt, Int.natAbs_zero, Nat.zero_mul]
  exact ofQuotient_units hcanonical

/-- The opposite number has the opposite value. -/
theorem value?_neg_ofInt {n : Int} (h : n.natAbs < 2 ^ 53) :
    (ofInt n).neg.value? = some (((-n : Int) : ℚ) : ExtendedRat) := by
  obtain ⟨mantissa, scale, canonical, hfinite, hunits⟩ := ofInt_eq_finite h
  have hopposite : signedUnits (!decide (n < 0)) mantissa scale = -n * unitsPerOne := by
    rw [Int.neg_mul, ← signedUnits_of_units hunits]
    cases decide (n < 0) <;> simp [signedUnits]
  rw [hfinite, neg, value?, hopposite, ofUnits_mul_unitsPerOne]

/-- The difference of two such integers is rounded only if it needs more than 53 bits. -/
theorem sub_ofInt {m n : Int} (hm : m.natAbs < 2 ^ 53) (hn : n.natAbs < 2 ^ 53) :
    (ofInt m).sub (ofInt n) = ofInt (m - n) := by
  obtain ⟨ma, sa, ha, hfinite, hunits⟩ := ofInt_eq_finite hm
  obtain ⟨mb, sb, hb, hfinite', hunits'⟩ := ofInt_eq_finite hn
  rw [hfinite, hfinite', sub]
  simp only [signedUnits_of_units hunits, signedUnits_of_units hunits', ← Int.sub_mul]
  have hunit : (0 : Int) < unitsPerOne := Int.natCast_pos.2 unitsPerOne_pos
  by_cases hzero : m - n = 0
  · obtain rfl : m = n := by omega
    rw [hzero, Int.zero_mul, if_pos rfl, Bool.and_not_self, ofInt_zero]
  · have hne : (m - n) * unitsPerOne ≠ 0 := Int.mul_ne_zero hzero (Int.ne_of_gt hunit)
    have hsign : (m - n) * unitsPerOne < 0 ↔ m - n < 0 := by
      have hscaled := @Int.mul_lt_mul_right unitsPerOne (m - n) 0 hunit
      rwa [Int.zero_mul] at hscaled
    rw [if_neg hne, ofInt, Int.natAbs_mul, Int.natAbs_natCast]
    simp only [hsign]

theorem ofInt_inj {m n : Int} (hm : m.natAbs < 2 ^ 53) (hn : n.natAbs < 2 ^ 53)
    (h : ofInt m = ofInt n) : m = n := by
  have hvalue := congrArg value? h
  rw [value?_ofInt hm, value?_ofInt hn] at hvalue
  exact valueOfInt_strictMono.injective (Option.some.inj hvalue)

end Double

namespace Decimal

/-! ## Whole decimals -/

open Double (ofInt ofInt_zero ofInt_inj)

/-- A whole decimal that is not too large stands for an integer. -/
theorem toDouble_whole {digits zeros : Nat} (h : digits * 10 ^ zeros < 10 ^ 310) :
    toDouble false ⟨digits, zeros⟩ = ofInt ((digits * 10 ^ zeros : Nat) : Int) := by
  rcases Nat.eq_zero_or_pos digits with rfl | hpos
  · rw [Nat.zero_mul, toDouble_zero]
    exact ofInt_zero.symm
  · rw [← Numeral.length_ofNat_le_iff (by decide), Numeral.ofNat_mul_pow hpos, List.length_append,
      List.length_replicate] at h
    have hnum : (quotient ⟨digits, zeros⟩).1 = digits * 10 ^ zeros * Double.unitsPerOne := by
      simp only [quotient, Int.toNat_natCast, Nat.pow_eq]
      exact Nat.mul_right_comm ..
    have hden : (quotient ⟨digits, zeros⟩).2 = 1 := by
      simp [quotient]
    rw [toDouble_eq_ofQuotient (Nat.ne_of_gt hpos) (by simp only; omega) (by simp only; omega),
      hnum, hden, ofInt, Int.natAbs_natCast, decide_eq_false (Int.not_lt.2 (Int.natCast_nonneg _))]

theorem atGrid_whole (steps zeros : Nat) : atGrid steps (1074 + zeros) = ⟨steps, zeros⟩ := by
  have hexponent : ((1074 + zeros : Nat) : Int) - 1074 = zeros := by omega
  rw [atGrid, hexponent]

theorem choose_floor (floor remainder width : Nat) (floorFits : Bool) :
    choose floor remainder width floorFits false = if floorFits then some floor else none := by
  cases floorFits <;> rfl

/-- Whether a decimal is read back as the given whole number. -/
def readsBackAs (n : Nat) (decimal : Decimal) : Bool := decide (toDouble false decimal = ofInt n)

theorem readsBackAs_whole {n digits zeros : Nat} (hlt : n < 2 ^ 53)
    (hdecimal : digits * 10 ^ zeros < 2 ^ 53) :
    readsBackAs n ⟨digits, zeros⟩ = decide (digits * 10 ^ zeros = n) := by
  have hbound : digits * 10 ^ zeros < 10 ^ 310 :=
    Nat.lt_of_lt_of_le hdecimal (by decide +kernel)
  rw [readsBackAs, toDouble_whole hbound, decide_eq_decide]
  constructor
  · intro h
    exact Int.natCast_inj.1 (ofInt_inj hdecimal hlt h)
  · intro h
    rw [h]

/-- On a grid of whole numbers only the number itself is read back, and it is on the grid if the
    power of ten divides it. -/
theorem onGrid?_whole {n zeros : Nat} (hlt : n < 2 ^ 52) (hzeros : 10 ^ zeros ≤ n) :
    onGrid? (readsBackAs n) (n * 10 ^ 1074) (1074 + zeros) =
      if n / 10 ^ zeros * 10 ^ zeros = n then some ⟨n / 10 ^ zeros, zeros⟩ else none := by
  have hpos : 0 < 10 ^ zeros := Nat.pow_pos (by decide)
  have hfloor : n * 10 ^ 1074 / Nat.pow 10 (1074 + zeros) = n / 10 ^ zeros := by
    generalize 1074 = places
    rw [Nat.pow_eq, Nat.pow_add, Nat.mul_comm (10 ^ places),
      Nat.mul_div_mul_right _ _ (Nat.pow_pos (by decide))]
  have hle : n / 10 ^ zeros * 10 ^ zeros ≤ n := Nat.div_mul_le_self n _
  have hnext : n < (n / 10 ^ zeros + 1) * 10 ^ zeros := by
    rw [Nat.mul_comm]
    exact Nat.lt_mul_div_succ n hpos
  -- the upper neighbour is too large, but not so large that it would be rounded
  have hceiling : readsBackAs n ⟨n / 10 ^ zeros + 1, zeros⟩ = false := by
    have hbound : (n / 10 ^ zeros + 1) * 10 ^ zeros < 2 ^ 53 := by
      rw [Nat.succ_mul]
      omega
    rw [readsBackAs_whole (by omega) hbound]
    exact decide_eq_false (Nat.ne_of_gt hnext)
  rw [onGrid?]
  simp only [hfloor, atGrid_whole, hceiling, choose_floor]
  rw [readsBackAs_whole (by omega) (by omega)]
  by_cases h : n / 10 ^ zeros * 10 ^ zeros = n
  · simp [h]
  · simp [h]

theorem search_succ (readsBack : Decimal → Bool) (steps grid : Nat) :
    search readsBack steps (grid + 1) =
      (onGrid? readsBack steps (grid + 1)).getD (search readsBack steps grid) := by
  rw [search]
  cases onGrid? readsBack steps (grid + 1) <;> rfl

theorem search_grid_whole {n zeros : Nat} (hlt : n < 2 ^ 52) (hzeros : 10 ^ zeros ≤ n) :
    search (readsBackAs n) (n * 10 ^ 1074) (1074 + zeros) =
      if n / 10 ^ zeros * 10 ^ zeros = n then ⟨n / 10 ^ zeros, zeros⟩
      else search (readsBackAs n) (n * 10 ^ 1074) (1073 + zeros) := by
  have hgrid : 1074 + zeros = 1073 + zeros + 1 := by omega
  rw [hgrid, search_succ, ← hgrid, onGrid?_whole hlt hzeros]
  split <;> rfl

/-- The search over grids of whole numbers ends at a decimal that is the number itself. -/
theorem search_whole {n zeros : Nat} (hlt : n < 2 ^ 52) (hzeros : 10 ^ zeros ≤ n) :
    ∃ digits places : Nat,
      search (readsBackAs n) (n * 10 ^ 1074) (1074 + zeros) = ⟨digits, places⟩ ∧
      digits * 10 ^ places = n := by
  induction zeros with
  | zero =>
      have hwhole : n / 10 ^ 0 * 10 ^ 0 = n := by rw [Nat.pow_zero, Nat.div_one, Nat.mul_one]
      exact ⟨_, 0, (search_grid_whole hlt hzeros).trans (if_pos hwhole), hwhole⟩
  | succ zeros ih =>
      by_cases hwhole : n / 10 ^ (zeros + 1) * 10 ^ (zeros + 1) = n
      · exact ⟨_, zeros + 1, (search_grid_whole hlt hzeros).trans (if_pos hwhole), hwhole⟩
      · have hfewer : 10 ^ zeros ≤ n :=
          Nat.le_trans (Nat.pow_le_pow_right (by decide) (Nat.le_succ zeros)) hzeros
        rw [search_grid_whole hlt hzeros, if_neg hwhole, Nat.add_comm zeros, ← Nat.add_assoc]
        exact ih hfewer

/-- The decimal of a whole number is this number. -/
theorem shortest_whole {n mantissa scale : Nat} (hpos : 0 < n) (hlt : n < 2 ^ 52)
    (canonical : Double.Canonical mantissa scale)
    (hfinite : ofInt n = .finite false mantissa scale canonical)
    (hunits : Double.units mantissa scale = n * Double.unitsPerOne) :
    ∃ digits places : Nat, shortest mantissa scale canonical = ⟨digits, places⟩ ∧
      digits * 10 ^ places = n := by
  have hsteps : finestSteps (Double.units mantissa scale) = n * 10 ^ 1074 := by
    rw [hunits]
    unfold finestSteps Double.unitsPerOne
    generalize 1074 = places
    rw [Nat.pow_eq, Nat.pow_eq, Nat.mul_assoc, ← Nat.mul_pow]
  have hdigits := Numeral.length_ofNat_pos n
  have hlength : (Numeral.ofNat (n * 10 ^ 1074)).length - 1 =
      1074 + ((Numeral.ofNat n).length - 1) := by
    rw [Numeral.ofNat_mul_pow hpos, List.length_append, List.length_replicate]
    omega
  have hzeros : 10 ^ ((Numeral.ofNat n).length - 1) ≤ n := by
    rcases Nat.eq_zero_or_pos ((Numeral.ofNat n).length - 1) with hsingle | hmore
    · rw [hsingle]
      exact hpos
    · rw [← Numeral.lt_length_ofNat_iff hmore]
      omega
  obtain ⟨digits, places, hsearch, hvalue⟩ := search_whole hlt hzeros
  refine ⟨digits, places, ?_, hvalue⟩
  rw [shortest]
  simp only [hsteps, hlength, ← hfinite]
  exact hsearch

end Decimal

/-! ## The text of whole numbers -/

theorem Numeral.ofInt_eq (n : Int) :
    Numeral.ofInt n = NumberLayout.sign (decide (n < 0)) ++ Numeral.ofNat n.natAbs := by
  cases n with
  | ofNat n => rfl
  | negSucc n => rw [decide_eq_true (Int.negSucc_lt_zero n)]; rfl

theorem Numeral.ofInt_eq_toString (n : Int) : Numeral.ofInt n = (toString n).toList := by
  cases n with
  | ofNat n => simp [toString, Int.repr, Numeral.ofInt, Numeral.ofNat, Nat.repr]
  | negSucc n => simp [toString, Int.repr, Numeral.ofInt, Numeral.ofNat, Nat.repr]

namespace NumberLayout

theorem positionalForm_whole {digits : Text} (h : digits ≠ []) (zeros : Nat) :
    positionalForm false digits (digits.length + zeros : Nat) =
      digits ++ List.replicate zeros '0' := by
  have hpos := List.length_pos_iff.2 h
  have hpoint : ¬ ((digits.length + zeros : Nat) : Int) ≤ 0 := by omega
  rw [positionalForm, if_neg hpoint, Int.toNat_natCast, if_pos (Nat.le_add_right _ _),
    Nat.add_sub_cancel_left, if_neg Bool.false_ne_true, List.append_nil]

/-- A whole decimal is written as the numeral of its value: the zeros that were left away at the end
    of its digits are filled in again. -/
theorem writeDecimal_whole {digits : Nat} (h : digits ≠ 0) (places : Nat) :
    plain.writeDecimal ⟨digits, places⟩ = Numeral.ofNat (digits * 10 ^ places) := by
  obtain ⟨zeros, hdigits⟩ := @significant_append_zeros ⟨digits, places⟩ h
  have hsignificant := @isSignificant ⟨digits, places⟩ h
  have hpoint : pointPlace ⟨digits, places⟩ =
      ((significant ⟨digits, places⟩).length + (zeros + places) : Nat) := by
    rw [pointPlace, if_neg h, hdigits, List.length_append, List.length_replicate]
    simp only
    omega
  calc plain.writeDecimal ⟨digits, places⟩
      = positionalForm false (significant ⟨digits, places⟩) (pointPlace ⟨digits, places⟩) := rfl
    _ = significant ⟨digits, places⟩ ++ List.replicate (zeros + places) '0' := by
        rw [hpoint, positionalForm_whole hsignificant.ne_nil]
    _ = Numeral.ofNat digits ++ List.replicate places '0' := by
        rw [hdigits, List.append_assoc, List.replicate_append_replicate]
    _ = Numeral.ofNat (digits * 10 ^ places) :=
        (Numeral.ofNat_mul_pow (Nat.pos_of_ne_zero h) places).symm

end NumberLayout

/-- The double of an integer is written as the numeral of this integer. -/
theorem formatDouble_ofInt {n : Int} (h : n.natAbs < 2 ^ 52) :
    formatDouble (.ofInt n) = Numeral.ofInt n := by
  obtain ⟨mantissa, scale, canonical, hfinite, hunits⟩ :=
    Double.ofInt_eq_finite (Nat.lt_of_lt_of_le h (by decide))
  rw [hfinite, Numeral.ofInt_eq, formatDouble, NumberLayout.write]
  congr 1
  have hmantissa : mantissa = 0 ↔ n.natAbs = 0 := by
    rw [← Double.units_eq_zero_iff mantissa scale, hunits, Nat.mul_eq_zero,
      or_iff_left (Nat.ne_of_gt Double.unitsPerOne_pos)]
  rcases Nat.eq_zero_or_pos n.natAbs with hzero | hpos
  · rw [if_pos (hmantissa.2 hzero), hzero]
    rfl
  · have hpositive : Double.ofInt n.natAbs = .finite false mantissa scale canonical := by
      rw [Double.ofInt, Int.natAbs_natCast, ← hunits, Double.ofQuotient_units canonical,
        decide_eq_false (Int.not_lt.2 (Int.natCast_nonneg _))]
    obtain ⟨digits, places, hshortest, hvalue⟩ :=
      Decimal.shortest_whole hpos h canonical hpositive hunits
    have hdigits : digits ≠ 0 := by
      rintro rfl
      omega
    rw [if_neg (mt hmantissa.1 (Nat.ne_of_gt hpos)), hshortest,
      NumberLayout.writeDecimal_whole hdigits, hvalue]

/-- The numeral of an integer is read as its double. -/
theorem toDouble_ofInt {n : Int} (h : n.natAbs < 2 ^ 52) :
    Numeral.toDouble (Numeral.ofInt n) = .ofInt n := by
  rw [← formatDouble_ofInt h, toDouble_formatDouble]

end ScriptFront
