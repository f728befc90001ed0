import ScriptFront.Proofs.Number.Nearest

set_option autoImplicit false

/-! # Division of doubles

What the standard for doubles asks of a quotient (`Double.DivisionLaws`): when it is no number, its
sign, when it is infinite or zero, and otherwise that it is the double nearest to the exact
quotient. The laws leave only one double (`Double.DivisionLaws.unique`), and division obeys them
(`Double.divisionLaws_div`), also where zero divisors are caught beforehand
(`Double.divGuarded_eq`). -/

namespace ScriptFront.Double

/-! ## Zeros and infinities -/

theorem eq_zero_of_isZero {x : Double} (h : x.isZero) : x = zero x.isNegative := by
  cases x with
  | nan | infinite => cases h
  | finite negative mantissa scale canonical =>
      obtain rfl : mantissa = 0 := of_decide_eq_true h
      obtain rfl := scale_eq_zero canonical
      rfl

theorem eq_infinite_of_isInfinite {x : Double} (h : x.isInfinite) : x = infinite x.isNegative := by
  cases x with
  | nan | finite => cases h
  | infinite => rfl

theorem signedUnits_eq_zero_iff (negative : Bool) (mantissa scale : Nat) :
    signedUnits negative mantissa scale = 0 ↔ mantissa = 0 := by
  rw [← units_eq_zero_iff mantissa scale]
  unfold signedUnits
  split <;> omega

/-- What is neither infinite nor a zero has an exact value other than zero. -/
theorem exists_value_of_finite {x : Double} (hnumber : x ≠ nan) (hfinite : ¬ x.isInfinite)
    (hzero : ¬ x.isZero) : ∃ r : ℚ, x.value? = some (r : ExtendedRat) ∧ r ≠ 0 := by
  cases x with
  | nan => exact absurd rfl hnumber
  | infinite => exact absurd rfl hfinite
  | finite negative mantissa scale canonical =>
      refine ⟨_, rfl, fun hvalue => hzero (decide_eq_true ?_)⟩
      rw [← ofUnits_zero] at hvalue
      exact (signedUnits_eq_zero_iff _ _ _).1 (ofUnits_injective hvalue)

/-- Being equal to zero is being one of the two zeros. -/
theorem same_zero (x : Double) : x.same (zero false) = x.isZero := by
  cases x with
  | nan => rfl
  | infinite negative =>
      have hpos := infinityUnits_pos
      refine decide_eq_false ?_
      simp only [signedUnits, units]
      split <;> omega
  | finite negative mantissa scale canonical =>
      refine decide_eq_decide.2 ?_
      rw [← signedUnits_eq_zero_iff negative mantissa scale]
      simp [signedUnits, units]

/-! ## The laws of division -/

/-- What a number has to be in order to be the quotient of two others. -/
structure DivisionLaws (x y z : Double) : Prop where
  noNumber : z = nan ↔ x = nan ∨ y = nan ∨ (x.isZero ∧ y.isZero) ∨ (x.isInfinite ∧ y.isInfinite)
  sign : z ≠ nan → z.isNegative = (x.isNegative ^^ y.isNegative)
  infinite : z ≠ nan → x.isInfinite ∨ y.isZero → z.isInfinite
  zero : z ≠ nan → x.isZero ∨ y.isInfinite → z.isZero
  /-- The quotient of finite numbers other than zero is rounded once. -/
  rounded {p q : ℚ} : x.value? = some (p : ExtendedRat) → y.value? = some (q : ExtendedRat) →
    p ≠ 0 → q ≠ 0 → RoundedFrom (p / q) z
  underflow {p q : ℚ} : x.value? = some (p : ExtendedRat) → y.value? = some (q : ExtendedRat) →
    p ≠ 0 → q ≠ 0 → (z.isZero ↔ |p / q| ≤ underflowBound)

/-- The laws leave no choice. -/
theorem DivisionLaws.unique {x y z w : Double} (h : DivisionLaws x y z) (h' : DivisionLaws x y w) :
    z = w := by
  by_cases hz : z = nan
  · rw [hz, h'.noNumber.2 (h.noNumber.1 hz)]
  have hw : w ≠ nan := fun hw => hz (h.noNumber.2 (h'.noNumber.1 hw))
  have hsign : z.isNegative = w.isNegative := (h.sign hz).trans (h'.sign hw).symm
  by_cases hinfinite : x.isInfinite ∨ y.isZero
  · rw [eq_infinite_of_isInfinite (h.infinite hz hinfinite),
      eq_infinite_of_isInfinite (h'.infinite hw hinfinite), hsign]
  by_cases hzero : x.isZero ∨ y.isInfinite
  · rw [eq_zero_of_isZero (h.zero hz hzero), eq_zero_of_isZero (h'.zero hw hzero), hsign]
  rw [not_or] at hinfinite hzero
  have hnumbers := mt h.noNumber.2 hz
  simp only [not_or] at hnumbers
  obtain ⟨p, hx, hp⟩ := exists_value_of_finite hnumbers.1 hinfinite.1 hzero.1
  obtain ⟨q, hy, hq⟩ := exists_value_of_finite hnumbers.2.1 hzero.2 hinfinite.2
  exact (h.rounded hx hy hp hq).unique (h'.rounded hx hy hp hq) hsign

/-! ## Finite operands -/

section Finite

variable {a b : Bool} {ma sa mb sb : Nat}

theorem div_by_zero (ca : Canonical ma sa) (cb : Canonical mb sb) (hb : mb = 0) :
    (finite a ma sa ca).div (finite b mb sb cb) = if ma = 0 then nan else infinite (a ^^ b) :=
  if_pos hb

theorem div_finite (ca : Canonical ma sa) (cb : Canonical mb sb) (hb : mb ≠ 0) :
    (finite a ma sa ca).div (finite b mb sb cb) =
      ofQuotient (a ^^ b) (units ma sa * unitsPerOne) (units mb sb) := if_neg hb

/-- The exact quotient of two numbers is the quotient of units that is rounded. -/
theorem ofUnits_div_ofUnits (hb : mb ≠ 0) :
    ofUnits (signedUnits a ma sa) / ofUnits (signedUnits b mb sb) =
      ofQuotientUnits (withSign (a ^^ b) (units ma sa * unitsPerOne)) (units mb sb) := by
  have hunit : (unitsPerOne : ℚ) ≠ 0 := Nat.cast_ne_zero.2 (Nat.ne_of_gt unitsPerOne_pos)
  have hunits : (units mb sb : ℚ) ≠ 0 := Nat.cast_ne_zero.2 (Nat.ne_of_gt (units_pos hb sb))
  unfold ofUnits ofQuotientUnits signedUnits withSign
  generalize unitsPerOne = perOne at *
  cases a <;> cases b <;> simp <;> field_simp

theorem roundedFrom_div_finite (ca : Canonical ma sa) (cb : Canonical mb sb) (hb : mb ≠ 0) :
    RoundedFrom (ofUnits (signedUnits a ma sa) / ofUnits (signedUnits b mb sb))
      ((finite a ma sa ca).div (finite b mb sb cb)) := by
  rw [div_finite ca cb hb, ofUnits_div_ofUnits hb]
  exact roundedFrom_ofQuotient _ _ (units_pos hb sb)

end Finite

/-! ## Any operands -/

/-- How a division ends: with no number, with an infinity or a zero that the operands call for, or
    with a quotient that is rounded. -/
inductive DivEnds : Double → Double → Double → Prop
  | noNumber {x y : Double} :
      x = nan ∨ y = nan ∨ (x.isZero ∧ y.isZero) ∨ (x.isInfinite ∧ y.isInfinite) → DivEnds x y nan
  | infinite {x y : Double} : x ≠ nan → y ≠ nan → ¬ x.isZero → ¬ y.isInfinite →
      DivEnds x y (infinite (x.isNegative ^^ y.isNegative))
  | zero {x y : Double} : x ≠ nan → ¬ x.isInfinite → y.isInfinite →
      DivEnds x y (zero (x.isNegative ^^ y.isNegative))
  | rounded {a b : Bool} {ma sa mb sb : Nat} (ca : Canonical ma sa) (cb : Canonical mb sb) :
      mb ≠ 0 → DivEnds (finite a ma sa ca) (finite b mb sb cb)
        ((finite a ma sa ca).div (finite b mb sb cb))

theorem divEnds_div (x y : Double) : DivEnds x y (x.div y) := by
  cases x with
  | nan => exact .noNumber (.inl rfl)
  | infinite a =>
      cases y with
      | nan => exact .noNumber (.inr (.inl rfl))
      | infinite b => exact .noNumber (.inr (.inr (.inr ⟨rfl, rfl⟩)))
      | finite => exact .infinite nofun nofun Bool.false_ne_true Bool.false_ne_true
  | finite a ma sa ca =>
      cases y with
      | nan => exact .noNumber (.inr (.inl rfl))
      | infinite b => exact .zero nofun Bool.false_ne_true rfl
      | finite b mb sb cb =>
          by_cases hb : mb = 0
          · rw [div_by_zero ca cb hb]
            by_cases ha : ma = 0
            · rw [if_pos ha]
              exact .noNumber (.inr (.inr (.inl ⟨decide_eq_true ha, decide_eq_true hb⟩)))
            · rw [if_neg ha]
              exact .infinite nofun nofun (mt of_decide_eq_true ha) Bool.false_ne_true
          · exact .rounded ca cb hb

section Operands

variable {x y : Double}

theorem div_eq_nan_iff (x y : Double) : x.div y = nan ↔
    x = nan ∨ y = nan ∨ (x.isZero ∧ y.isZero) ∨ (x.isInfinite ∧ y.isInfinite) := by
  have hends := divEnds_div x y
  generalize x.div y = z at hends ⊢
  cases hends with
  | noNumber h => exact iff_of_true rfl h
  | infinite hx hy hzero hfinite => exact iff_of_false nofun (by simp [hx, hy, hzero, hfinite])
  | zero hx hfinite hinfinite =>
      rw [eq_infinite_of_isInfinite hinfinite]
      exact iff_of_false nofun (by simp [hx, hfinite, isZero])
  | rounded ca cb hb =>
      exact iff_of_false (roundedFrom_div_finite ca cb hb).isNumber
        (by simp [isZero, isInfinite, hb])

theorem isNegative_div (h : x.div y ≠ nan) :
    (x.div y).isNegative = (x.isNegative ^^ y.isNegative) := by
  have hends := divEnds_div x y
  generalize x.div y = z at hends h ⊢
  cases hends with
  | noNumber => exact absurd rfl h
  | infinite | zero => rfl
  | rounded ca cb hb =>
      rw [div_finite ca cb hb]
      exact isNegative_ofQuotient ..

theorem isInfinite_div (h : x.div y ≠ nan) (hspecial : x.isInfinite ∨ y.isZero) :
    (x.div y).isInfinite := by
  have hends := divEnds_div x y
  generalize x.div y = z at hends h ⊢
  cases hends with
  | noNumber => exact absurd rfl h
  | infinite => rfl
  | zero _ hfinite hinfinite =>
      rw [eq_infinite_of_isInfinite hinfinite] at hspecial
      exact absurd hspecial (not_or.2 ⟨hfinite, Bool.false_ne_true⟩)
  | rounded _ _ hb => exact absurd hspecial (by simp [isInfinite, isZero, hb])

/-- Zero divided by a number is a zero, and so is a number divided by infinity. -/
theorem isZero_div (h : x.div y ≠ nan) (hspecial : x.isZero ∨ y.isInfinite) :
    (x.div y).isZero := by
  have hends := divEnds_div x y
  generalize x.div y = z at hends h ⊢
  cases hends with
  | noNumber => exact absurd rfl h
  | infinite _ _ hzero hfinite => exact absurd hspecial (not_or.2 ⟨hzero, hfinite⟩)
  | zero => rfl
  | @rounded a b ma sa mb sb ca cb hb =>
      obtain rfl : ma = 0 := of_decide_eq_true (hspecial.resolve_right Bool.false_ne_true)
      rw [(roundedFrom_div_finite ca cb hb).isZero_iff, (signedUnits_eq_zero_iff _ _ _).2 rfl,
        ofUnits_zero, zero_div, abs_zero]
      exact le_of_lt underflowBound_pos

/-- A quotient of finite numbers is rounded once. -/
theorem roundedFrom_div {p q : ℚ} (hx : x.value? = some (p : ExtendedRat))
    (hy : y.value? = some (q : ExtendedRat)) (hq : q ≠ 0) : RoundedFrom (p / q) (x.div y) := by
  obtain ⟨a, ma, sa, ca, rfl, rfl⟩ := (value?_eq_coe_iff x p).1 hx
  obtain ⟨b, mb, sb, cb, rfl, rfl⟩ := (value?_eq_coe_iff y q).1 hy
  refine roundedFrom_div_finite ca cb fun hb => hq ?_
  rw [(signedUnits_eq_zero_iff _ _ _).2 hb, ofUnits_zero]

end Operands

/-- Division obeys its laws. -/
theorem divisionLaws_div (x y : Double) : DivisionLaws x y (x.div y) where
  noNumber := div_eq_nan_iff x y
  sign := isNegative_div
  infinite := isInfinite_div
  zero := isZero_div
  rounded hx hy _ hq := roundedFrom_div hx hy hq
  underflow hx hy _ hq := (roundedFrom_div hx hy hq).isZero_iff

/-! ## Where zero divisors are caught -/

theorem isNegative_mul_copySign (x y : Double) :
    ((one.copySign x).mul (one.copySign y)).isNegative = (x.isNegative ^^ y.isNegative) := by
  have hmul : ∀ {a b : Bool} {ma sa mb sb : Nat} (ca : Canonical ma sa) (cb : Canonical mb sb),
      (finite a ma sa ca).mul (finite b mb sb cb) =
        ofQuotient (a ^^ b) (units ma sa * units mb sb) unitsPerOne := fun _ _ => rfl
  rw [one, copySign, copySign, hmul]
  exact isNegative_ofQuotient ..

/-- Catching zero divisors beforehand changes nothing, and no quotient is refused. -/
theorem divGuarded_eq (x y : Double) : x.divGuarded y = some (x.div y) := by
  unfold divGuarded div?
  rw [same_zero, same_zero]
  cases hzero : y.isZero with
  | false => simp
  | true =>
      have hinfinity : (infinite false).copySign ((one.copySign x).mul (one.copySign y)) =
          infinite (x.isNegative ^^ y.isNegative) := by
        rw [copySign, isNegative_mul_copySign]
      rw [hinfinity, eq_zero_of_isZero hzero]
      cases x with
      | nan => rfl
      | infinite a => rfl
      | finite a ma sa ca =>
          rw [zero, div_by_zero ca _ rfl]
          by_cases ha : ma = 0
          · simp [ha, isZero]
          · simp [ha, isZero, isNaN, isNegative]

end ScriptFront.Double
