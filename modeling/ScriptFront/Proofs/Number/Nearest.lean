import Mathlib.Algebra.Order.Field.Basic
import Mathlib.Tactic.FieldSimp
import Mathlib.Tactic.Linarith
import Mathlib.Tactic.NormNum
import Mathlib.Tactic.Ring
import ScriptFront.Proofs.Number.Rounding

set_option autoImplicit false

/-! # The nearest double

What the standard for doubles asks of rounding, in exact values (`Double.RoundedFrom`): a number
that no other is nearer than, an even one of two that are equally near, and infinity from halfway
behind the greatest finite number on. There is only one such double of each sign
(`Double.RoundedFrom.unique`), it is zero for values up to half of the least positive number
(`Double.RoundedFrom.isZero_iff`), and it is what a quotient of units is rounded to
(`Double.roundedFrom_ofQuotient`). -/

namespace ScriptFront.Double

/-! ## Rounding exact values -/

/-- From here on numbers are rounded to infinity: halfway between the greatest finite number and the
    next power of two, which is `2 ^ 1024`. -/
def overflowBound : ℚ := (2 ^ 54 - 1) * 2 ^ 970

/-- Up to here numbers are rounded to zero: half of the least positive number. -/
def underflowBound : ℚ := 1 / 2 ^ 1075

/-- Whether the last bit of a finite number is zero. -/
def isEven : Double → Bool
  | finite _ mantissa _ _ => mantissa % 2 = 0
  | _ => false

/-- The double that an exact value is rounded to, up to its sign when it is an infinity or a zero: a
    number nearest to it, an even one in a tie, and infinity from a bound on. -/
structure RoundedFrom (exact : ℚ) (z : Double) : Prop where
  isNumber : z ≠ nan
  overflow : z.isInfinite ↔ overflowBound ≤ |exact|
  nearest {r s : ℚ} {w : Double} : z.value? = some (r : ExtendedRat) →
    w.value? = some (s : ExtendedRat) → |exact - r| ≤ |exact - s|
  tiesToEven {r s : ℚ} {w : Double} : z.value? = some (r : ExtendedRat) →
    w.value? = some (s : ExtendedRat) → |exact - r| = |exact - s| → s = r ∨ z.isEven

theorem value?_eq_coe_iff (x : Double) (r : ℚ) : x.value? = some (r : ExtendedRat) ↔
    ∃ negative mantissa scale canonical, x = finite negative mantissa scale canonical ∧
      r = ofUnits (signedUnits negative mantissa scale) := by
  cases x with
  | nan => simp [value?]
  | infinite negative =>
      have hne : (if negative then (⊥ : ExtendedRat) else ⊤) ≠ (r : ExtendedRat) := by
        split
        · exact (WithBotTop.coe_ne_bot r).symm
        · exact (WithBotTop.coe_ne_top r).symm
      simp [value?, hne]
  | finite negative mantissa scale canonical =>
      have hinj : ((ofUnits (signedUnits negative mantissa scale) : ℚ) : ExtendedRat) = (r : ℚ) ↔
          ofUnits (signedUnits negative mantissa scale) = r := WithBotTop.coe_injective.eq_iff
      simp only [value?, Option.some.injEq, hinj]
      constructor
      · intro h
        exact ⟨_, _, _, canonical, rfl, h.symm⟩
      · rintro ⟨_, _, _, _, heq, rfl⟩
        cases heq
        rfl

/-- The exact value of a quotient of units. -/
def ofQuotientUnits (num : Int) (den : Nat) : ℚ := num / (den * unitsPerOne)

theorem abs_sub_ofUnits (num : Int) {den : Nat} (h : 0 < den) (n : Int) :
    |ofQuotientUnits num den - ofUnits n| = gap num den n / (den * unitsPerOne) := by
  have hden : (0 : ℚ) < den := Nat.cast_pos.2 h
  have hunit : (0 : ℚ) < unitsPerOne := Nat.cast_pos.2 unitsPerOne_pos
  have hsub : ofQuotientUnits num den - ofUnits n =
      ((num - n * den : Int) : ℚ) / (den * unitsPerOne) := by
    unfold ofQuotientUnits ofUnits
    push_cast
    field_simp
  rw [hsub, abs_div, abs_of_pos (mul_pos hden hunit), gap, Nat.cast_natAbs, Int.cast_abs]

theorem ofUnits_zero : ofUnits 0 = 0 := by
  rw [ofUnits, Int.cast_zero, zero_div]

theorem abs_ofQuotientUnits (negative : Bool) (num : Nat) {den : Nat} (h : 0 < den) :
    |ofQuotientUnits (withSign negative num) den| = num / (den * unitsPerOne) := by
  have hgap : gap (withSign negative num) den 0 = num := by
    rw [← withSign_zero negative]
    exact (gap_withSign negative num den 0).trans (by simp [gap])
  rw [← sub_zero (ofQuotientUnits _ _), ← ofUnits_zero, abs_sub_ofUnits _ h, hgap]

theorem overflowBound_eq : overflowBound = (overflowUnits : ℚ) / unitsPerOne := by
  have hexponents : 2044 = 970 + 1074 := rfl
  unfold overflowBound overflowUnits unitsPerOne
  generalize 2044 = high at hexponents ⊢
  generalize 970 = low at hexponents ⊢
  generalize 1074 = places at hexponents ⊢
  rw [hexponents, Nat.pow_eq, eq_div_iff (Nat.cast_ne_zero.2 (Nat.ne_of_gt (Nat.two_pow_pos _)))]
  push_cast
  ring

theorem overflowBound_le_iff (num : Nat) {den : Nat} (h : 0 < den) :
    overflowBound ≤ num / (den * unitsPerOne) ↔ overflowUnits * den ≤ num := by
  have hden : (0 : ℚ) < den := Nat.cast_pos.2 h
  have hunit : (0 : ℚ) < unitsPerOne := Nat.cast_pos.2 unitsPerOne_pos
  rw [overflowBound_eq, ← div_div, div_le_div_iff_of_pos_right hunit, le_div_iff₀ hden]
  exact_mod_cast Iff.rfl

/-- No number is nearer to a quotient than the finite number that it is rounded to. -/
theorem nearest_finite {num den mantissa scale : Nat} {negative : Bool}
    {canonical : Canonical mantissa scale} (h : 0 < den)
    (hunits : units mantissa scale = units (mantissaOf num den) (scaleOf num den)) {r s : ℚ}
    {w : Double} (hr : (finite negative mantissa scale canonical).value? = some (r : ExtendedRat))
    (hs : w.value? = some (s : ExtendedRat)) :
    |ofQuotientUnits (withSign negative num) den - r| ≤
        |ofQuotientUnits (withSign negative num) den - s| ∧
      (|ofQuotientUnits (withSign negative num) den - r| =
          |ofQuotientUnits (withSign negative num) den - s| →
        s = r ∨ mantissaOf num den % 2 = 0) := by
  have hwidth : (0 : ℚ) < den * unitsPerOne :=
    mul_pos (Nat.cast_pos.2 h) (Nat.cast_pos.2 unitsPerOne_pos)
  obtain ⟨_, _, _, _, hself, rfl⟩ := (value?_eq_coe_iff _ _).1 hr
  cases hself
  obtain ⟨negative', mantissa', scale', canonical', rfl, rfl⟩ := (value?_eq_coe_iff _ _).1 hs
  have hgap := gap_rounded num h negative negative' canonical'
  rw [← hunits] at hgap
  rw [abs_sub_ofUnits _ h, abs_sub_ofUnits _ h, div_le_div_iff_of_pos_right hwidth,
    div_left_inj' (ne_of_gt hwidth), Nat.cast_le, Nat.cast_inj]
  exact ⟨hgap.1, fun htie => (hgap.2 htie).imp_left (congrArg ofUnits)⟩

/-- **Quotients are rounded as they should be.** -/
theorem roundedFrom_ofQuotient (negative : Bool) (num : Nat) {den : Nat} (h : 0 < den) :
    RoundedFrom (ofQuotientUnits (withSign negative num) den) (ofQuotient negative num den) := by
  have hoverflow : overflowBound ≤ |ofQuotientUnits (withSign negative num) den| ↔
      overflowUnits * den ≤ num := by
    rw [abs_ofQuotientUnits negative num h, overflowBound_le_iff num h]
  rcases @ofQuotient_cases num den negative h with ⟨hinfinite, hover⟩ |
    ⟨mantissa, scale, canonical, hfinite, hunder, hunits, heven⟩
  · rw [hinfinite]
    have hnone : ∀ {r : ℚ}, (infinite negative).value? ≠ some (r : ExtendedRat) := by
      intro r hr
      obtain ⟨_, _, _, _, hfinite, -⟩ := (value?_eq_coe_iff _ _).1 hr
      cases hfinite
    exact ⟨nofun, iff_of_true rfl (hoverflow.2 hover), fun hr => absurd hr hnone,
      fun hr => absurd hr hnone⟩
  · rw [hfinite]
    exact ⟨nofun, iff_of_false nofun (mt hoverflow.1 hunder),
      fun hr hs => (nearest_finite h hunits hr hs).1,
      fun hr hs htie => ((nearest_finite h hunits hr hs).2 htie).imp_right fun h =>
        decide_eq_true (heven h)⟩

theorem isNegative_ofQuotient (negative : Bool) (num den : Nat) :
    (ofQuotient negative num den).isNegative = negative := by
  have hparts : ∀ mantissa scale, (ofParts negative mantissa scale).isNegative = negative := by
    intro mantissa scale
    unfold ofParts
    split <;> rfl
  unfold ofQuotient
  simp only
  split <;> exact hparts _ _

/-! ## Only one double -/

theorem finite_congr {negative : Bool} {mantissa scale mantissa' scale' : Nat}
    (canonical : Canonical mantissa scale) (canonical' : Canonical mantissa' scale')
    (h : units mantissa scale = units mantissa' scale') :
    finite negative mantissa scale canonical = finite negative mantissa' scale' canonical' := by
  rw [← ofQuotient_units canonical, ← ofQuotient_units canonical', h]

/-- A greater number has at least one mantissa more at the scale of a smaller one. -/
theorem units_succ_le {mantissa scale mantissa' scale' : Nat} (canonical : Canonical mantissa scale)
    (canonical' : Canonical mantissa' scale')
    (h : units mantissa scale < units mantissa' scale') :
    units (mantissa + 1) scale ≤ units mantissa' scale' := by
  by_cases hscale : scale ≤ scale'
  · obtain ⟨more, rfl⟩ := Nat.exists_eq_add_of_le hscale
    rw [units_add] at h ⊢
    exact Nat.mul_le_mul_right _ (Nat.lt_of_mul_lt_mul_right h)
  · have hfull : 2 ^ 52 ≤ mantissa := canonical.2.2.resolve_left (by omega)
    have hbelow := units_lt_full canonical' (show scale' < scale by omega)
    exact absurd h (Nat.lt_asymm (Nat.lt_of_lt_of_le hbelow (Nat.mul_le_mul_right _ hfull)))

/-- What lies between two points that are equally far away is nearer than they are. -/
theorem abs_sub_lt_of_between {q a b c : ℚ} (h : |q - a| = |q - c|) (hab : a < b) (hbc : b < c) :
    |q - b| < |q - a| := by
  rcases abs_eq_abs.1 h with heq | heq
  · linarith
  · rw [abs_of_pos (show 0 < q - a by linarith), abs_lt]
    constructor <;> linarith

theorem ofUnits_injective : Function.Injective ofUnits :=
  StrictMono.injective fun _ _ => ofUnits_lt

theorem withSign_inj {negative : Bool} {a b : Nat} (h : withSign negative a = withSign negative b) :
    a = b := by
  unfold withSign at h
  split at h <;> omega

theorem ofUnits_withSign_between {a b c : Nat} (negative : Bool) (hab : a < b) (hbc : b < c) :
    (ofUnits (withSign negative a) < ofUnits (withSign negative b) ∧
      ofUnits (withSign negative b) < ofUnits (withSign negative c)) ∨
    (ofUnits (withSign negative c) < ofUnits (withSign negative b) ∧
      ofUnits (withSign negative b) < ofUnits (withSign negative a)) := by
  unfold withSign
  cases negative with
  | false => exact .inl ⟨ofUnits_lt (by simp; omega), ofUnits_lt (by simp; omega)⟩
  | true => exact .inr ⟨ofUnits_lt (by simp; omega), ofUnits_lt (by simp; omega)⟩

theorem value?_finite {negative : Bool} {mantissa scale : Nat}
    (canonical : Canonical mantissa scale) : (finite negative mantissa scale canonical).value? =
      some ((ofUnits (withSign negative (units mantissa scale)) : ℚ) : ExtendedRat) := rfl

namespace RoundedFrom

variable {exact : ℚ} {negative : Bool} {mantissa scale mantissa' scale' : Nat}
  {canonical : Canonical mantissa scale} {canonical' : Canonical mantissa' scale'}

/-- Of two numbers that a value may be rounded to, none is the greater one: if they were neighbours
    they could not both be even, and otherwise there were a nearer number between them. -/
theorem not_units_lt (h : RoundedFrom exact (finite negative mantissa scale canonical))
    (h' : RoundedFrom exact (finite negative mantissa' scale' canonical')) :
    ¬ units mantissa scale < units mantissa' scale' := by
  intro hlt
  have hvalue := @value?_finite negative mantissa scale canonical
  have hvalue' := @value?_finite negative mantissa' scale' canonical'
  have htie := le_antisymm (h.nearest hvalue hvalue') (h'.nearest hvalue' hvalue)
  have hne : ofUnits (withSign negative (units mantissa' scale')) ≠
      ofUnits (withSign negative (units mantissa scale)) := fun heq =>
    Nat.ne_of_gt hlt (withSign_inj (ofUnits_injective heq))
  have heven : mantissa % 2 = 0 :=
    of_decide_eq_true ((h.tiesToEven hvalue hvalue' htie).resolve_left hne)
  have heven' : mantissa' % 2 = 0 :=
    of_decide_eq_true ((h'.tiesToEven hvalue' hvalue htie.symm).resolve_left hne.symm)
  have hlast := canonical.1
  have hnext : Canonical (mantissa + 1) scale := by
    refine ⟨?_, canonical.2.1, canonical.2.2.imp_right Nat.le_succ_of_le⟩
    simp only [Nat.pow_eq] at *
    omega
  rcases Nat.eq_or_lt_of_le (units_succ_le canonical canonical' hlt) with heq | hbetween
  · cases @finite_congr negative _ _ _ _ hnext canonical' heq
    omega
  · have hstep : units mantissa scale < units (mantissa + 1) scale :=
      Nat.mul_lt_mul_of_pos_right (Nat.lt_succ_self _) (Nat.two_pow_pos _)
    have hmiddle := @value?_finite negative _ _ hnext
    rcases ofUnits_withSign_between negative hstep hbetween with ⟨hab, hbc⟩ | ⟨hcb, hba⟩
    · exact absurd (h.nearest hvalue hmiddle) (not_le.2 (abs_sub_lt_of_between htie hab hbc))
    · exact absurd (h'.nearest hvalue' hmiddle)
        (not_le.2 (abs_sub_lt_of_between htie.symm hcb hba))

theorem unique {z z' : Double} (h : RoundedFrom exact z) (h' : RoundedFrom exact z')
    (hsign : z.isNegative = z'.isNegative) : z = z' := by
  have hoverflow := h.overflow.trans h'.overflow.symm
  cases z with
  | nan => exact absurd rfl h.isNumber
  | infinite negative =>
      cases z' with
      | nan => exact absurd rfl h'.isNumber
      | infinite negative' => exact congrArg infinite hsign
      | finite => simp [isInfinite] at hoverflow
  | finite negative mantissa scale canonical =>
      cases z' with
      | nan => exact absurd rfl h'.isNumber
      | infinite negative' => simp [isInfinite] at hoverflow
      | finite negative' mantissa' scale' canonical' =>
          obtain rfl : negative = negative' := hsign
          exact finite_congr canonical canonical'
            (Nat.le_antisymm (Nat.not_lt.1 (h'.not_units_lt h)) (Nat.not_lt.1 (h.not_units_lt h')))

end RoundedFrom

/-! ## Underflow -/

theorem underflowBound_eq : 2 * underflowBound = ofUnits 1 := by
  have hexponents : 1075 = 1074 + 1 := rfl
  unfold underflowBound ofUnits unitsPerOne
  generalize 1075 = half at hexponents ⊢
  generalize 1074 = places at hexponents ⊢
  have hpower : (2 : ℚ) ^ places ≠ 0 := pow_ne_zero _ (by norm_num)
  rw [hexponents, Nat.pow_eq]
  push_cast
  field_simp
  ring

theorem underflowBound_pos : 0 < underflowBound := by
  unfold underflowBound
  generalize 1075 = places
  positivity

theorem underflowBound_lt_overflowBound : underflowBound < overflowBound := by
  have hunder : underflowBound ≤ 1 := by
    unfold underflowBound
    generalize 1075 = places
    exact div_le_one_of_le₀ (one_le_pow₀ (by norm_num)) (by positivity)
  have hover : (1 : ℚ) * 2 ≤ overflowBound := by
    unfold overflowBound
    generalize 970 = places
    have hpower : (1 : ℚ) ≤ 2 ^ places := one_le_pow₀ (by norm_num)
    linarith
  linarith

theorem ofUnits_eq_mul (n : Int) : ofUnits n = n * ofUnits 1 := by
  unfold ofUnits
  push_cast
  ring

theorem ofUnits_one_pos : 0 < ofUnits 1 := by
  rw [← ofUnits_zero]
  exact ofUnits_lt (by decide)

/-- A whole number of units that is not zero is one unit or more. -/
theorem ofUnits_one_le_abs {n : Int} (h : n ≠ 0) : ofUnits 1 ≤ |ofUnits n| := by
  have hone : (1 : ℚ) ≤ |(n : ℚ)| := by exact_mod_cast Int.one_le_abs h
  rw [ofUnits_eq_mul n, abs_mul, abs_of_pos ofUnits_one_pos]
  exact le_mul_of_one_le_left (le_of_lt ofUnits_one_pos) hone

/-- What has a single unit has the mantissa one. -/
theorem mantissa_eq_one {negative : Bool} {mantissa scale : Nat}
    (h : |ofUnits (signedUnits negative mantissa scale)| = ofUnits 1) : mantissa = 1 := by
  have habs : |((signedUnits negative mantissa scale : Int) : ℚ)| = 1 := by
    rw [ofUnits_eq_mul, abs_mul, abs_of_pos ofUnits_one_pos] at h
    exact mul_right_cancel₀ (ne_of_gt ofUnits_one_pos) (h.trans (one_mul _).symm)
  have hunits : units mantissa scale = 1 := by
    have hint : |signedUnits negative mantissa scale| = 1 := by exact_mod_cast habs
    unfold signedUnits at hint
    split at hint <;> simpa using hint
  exact Nat.eq_one_of_mul_eq_one_right hunits

/-- What is as near to zero as to a distance on either side of it lies within half of the
    distance. -/
theorem two_mul_abs_le {q distance : ℚ} (hpos : 0 < distance) (hbelow : |q| ≤ |q - distance|)
    (habove : |q| ≤ |q + distance|) : 2 * |q| ≤ distance := by
  rcases le_total 0 q with hq | hq
  · rw [abs_of_nonneg hq] at hbelow ⊢
    rcases abs_cases (q - distance) with ⟨habs, -⟩ | ⟨habs, -⟩ <;> linarith
  · rw [abs_of_nonpos hq] at habove ⊢
    rcases abs_cases (q + distance) with ⟨habs, -⟩ | ⟨habs, -⟩ <;> linarith

theorem value?_zero (negative : Bool) : (zero negative).value? = some ((0 : ℚ) : ExtendedRat) := by
  rw [zero, value?_finite, units, Nat.zero_mul, withSign_zero, ofUnits_zero]

namespace RoundedFrom

variable {exact : ℚ} {negative : Bool} {mantissa scale : Nat}
  {canonical : Canonical mantissa scale}

/-- What is rounded to zero is as near to it as to the least positive number and its opposite. -/
theorem abs_le_of_zero (h : RoundedFrom exact (zero negative)) : |exact| ≤ underflowBound := by
  have hbelow := h.nearest (value?_zero negative) (@value?_finite false 1 0 (by decide))
  have habove := h.nearest (value?_zero negative) (@value?_finite true 1 0 (by decide))
  have hleast : ofUnits (withSign true (units 1 0)) = -ofUnits 1 := by
    rw [ofUnits_eq_mul]
    simp [withSign, units]
  rw [sub_zero, hleast, sub_neg_eq_add] at habove
  rw [sub_zero] at hbelow
  have hhalf := two_mul_abs_le ofUnits_one_pos hbelow habove
  have hbound := underflowBound_eq
  linarith

/-- What is rounded to another number is too large for zero: otherwise the number were a single
    unit that is no nearer than zero, and not even. -/
theorem underflowBound_lt (h : RoundedFrom exact (finite negative mantissa scale canonical))
    (hne : mantissa ≠ 0) : underflowBound < |exact| := by
  by_contra hsmall
  have hbound := underflowBound_eq
  have hunits : signedUnits negative mantissa scale ≠ 0 := by
    intro hunits
    have hnone := withSign_inj (hunits.trans (withSign_zero negative).symm)
    exact hne ((units_eq_zero_iff _ _).1 hnone)
  have hvalue := @value?_finite negative mantissa scale canonical
  rw [← signedUnits_eq] at hvalue
  have hone := ofUnits_one_le_abs hunits
  have hnearest := h.nearest hvalue (value?_zero negative)
  have htriangle := abs_sub_abs_le_abs_sub (ofUnits (signedUnits negative mantissa scale)) exact
  rw [abs_sub_comm] at htriangle
  rw [sub_zero] at hnearest
  have hsingle : |ofUnits (signedUnits negative mantissa scale)| ≤ ofUnits 1 := by linarith
  obtain rfl : mantissa = 1 := mantissa_eq_one (le_antisymm hsingle hone)
  have htie : |exact - ofUnits (signedUnits negative 1 scale)| = |exact - 0| := by
    rw [sub_zero]
    linarith
  rcases h.tiesToEven hvalue (value?_zero negative) htie with hzero | heven
  · rw [← hzero, abs_zero] at hone
    exact absurd hone (not_le.2 ofUnits_one_pos)
  · exact absurd heven (by simp [isEven])

/-- What is rounded to zero are the values of at most half of the least positive number. -/
theorem isZero_iff {z : Double} (h : RoundedFrom exact z) :
    z.isZero ↔ |exact| ≤ underflowBound := by
  cases z with
  | nan => exact absurd rfl h.isNumber
  | infinite negative =>
      have hover := h.overflow.1 rfl
      exact iff_of_false nofun (not_le.2 (underflowBound_lt_overflowBound.trans_le hover))
  | finite negative mantissa scale canonical =>
      by_cases hzero : mantissa = 0
      · subst hzero
        obtain rfl := scale_eq_zero canonical
        exact iff_of_true rfl h.abs_le_of_zero
      · exact iff_of_false (mt of_decide_eq_true hzero) (not_le.2 (h.underflowBound_lt hzero))

end RoundedFrom

end ScriptFront.Double
