import Mathlib.Algebra.Order.Field.Rat
import Mathlib.Algebra.Order.Ring.Cast
import Mathlib.Data.Int.ConditionallyCompleteOrder
import Mathlib.Data.Option.NAry
import Mathlib.Order.Interval.Set.Defs
import Mathlib.Order.Monotone.Basic
import Mathlib.Order.WithBotTop
import ScriptFront.Proofs.Number.Double

set_option autoImplicit false

/-! # The exact values of doubles

A finite double stands for a rational number, a whole number of units; the infinities are the two
ends of the line (`Double.value?`). The order of doubles is the order of these values
(`Double.compare?_eq`), so its laws are those of a linear order, as far as there are values. -/

namespace ScriptFront

/-- The rational numbers with an end of the line on either side. -/
abbrev ExtendedRat := WithBotTop ℚ

namespace Double

/-! ## Values -/

/-- The rational number that so many units make. -/
def ofUnits (units : Int) : ℚ := units / unitsPerOne

/-- The exact value of a number. -/
def value? : Double → Option ExtendedRat
  | nan => none
  | infinite negative => some (if negative then ⊥ else ⊤)
  | finite negative mantissa scale _ => some (ofUnits (signedUnits negative mantissa scale) : ℚ)

theorem value?_eq_none_iff (x : Double) : x.value? = none ↔ x = nan := by
  cases x <;> simp [value?]

theorem unitsPerOne_pos : 0 < unitsPerOne := by
  unfold unitsPerOne
  generalize 1074 = places
  exact Nat.two_pow_pos places

theorem ofUnits_lt {a b : Int} (h : a < b) : ofUnits a < ofUnits b :=
  div_lt_div_of_pos_right (Int.cast_lt.2 h) (Nat.cast_pos.2 unitsPerOne_pos)

theorem ofUnits_mul_unitsPerOne (n : Int) : ofUnits (n * unitsPerOne) = n := by
  have hunit : (unitsPerOne : ℚ) ≠ 0 := Nat.cast_ne_zero.2 (Nat.ne_of_gt unitsPerOne_pos)
  rw [ofUnits, Int.cast_mul, Int.cast_natCast, mul_div_cancel_right₀ _ hunit]

/-! ## Places -/

/-- The value that stands in a place of the line. -/
def atPlace (place : Int) : ExtendedRat :=
  if place = -infinityUnits then ⊥
  else if place = infinityUnits then ⊤
  else (ofUnits place : ℚ)

theorem infinityUnits_pos : 0 < infinityUnits := by
  unfold infinityUnits
  generalize 2098 = places
  exact Nat.two_pow_pos places

/-- The places of finite numbers lie between those of the infinities. -/
theorem signedUnits_bounds {mantissa scale : Nat} (h : Canonical mantissa scale)
    (negative : Bool) :
    -(infinityUnits : Int) < signedUnits negative mantissa scale ∧
      signedUnits negative mantissa scale < infinityUnits := by
  have hlt := units_lt_infinityUnits h
  unfold signedUnits
  generalize infinityUnits = bound at *
  split <;> omega

theorem place_mem {x : Double} {place : Int} (h : x.place? = some place) :
    place ∈ Set.Icc (-(infinityUnits : Int)) infinityUnits := by
  have hpos := infinityUnits_pos
  cases x with
  | nan => cases h
  | infinite negative =>
      obtain rfl := Option.some.inj h
      generalize infinityUnits = bound at *
      rw [Set.mem_Icc]
      split <;> omega
  | finite negative mantissa scale canonical =>
      obtain rfl := Option.some.inj h
      have hbounds := signedUnits_bounds canonical negative
      exact ⟨Int.le_of_lt hbounds.1, Int.le_of_lt hbounds.2⟩

theorem value?_eq (x : Double) : x.value? = x.place?.map atPlace := by
  have hpos := infinityUnits_pos
  cases x with
  | nan => rfl
  | infinite negative =>
      cases negative with
      | true => simp only [value?, place?, Option.map_some, atPlace, if_true]
      | false =>
          simp only [value?, place?, Option.map_some, atPlace, Bool.false_eq_true, if_false]
          rw [if_neg (by omega), if_pos trivial]
  | finite negative mantissa scale canonical =>
      have hbounds := signedUnits_bounds canonical negative
      simp only [value?, place?, Option.map_some, atPlace]
      rw [if_neg (by omega), if_neg (by omega)]

theorem atPlace_strictMonoOn :
    StrictMonoOn atPlace (Set.Icc (-(infinityUnits : Int)) infinityUnits) := by
  intro a ha b hb hlt
  simp only [Set.mem_Icc] at ha hb
  simp only [atPlace]
  rw [if_neg (show b ≠ -infinityUnits by omega), if_neg (show a ≠ infinityUnits by omega)]
  split
  · split
    · exact WithBot.bot_lt_coe ⊤
    · exact WithBot.bot_lt_coe _
  · split
    · exact WithBot.coe_lt_coe.2 (WithTop.coe_lt_top _)
    · exact WithBotTop.coe_lt_coe.2 (ofUnits_lt hlt)

/-- Two numbers are compared like their exact values, if both have one. -/
theorem compare?_eq (x y : Double) : x.compare? y = Option.map₂ compare x.value? y.value? := by
  rw [value?_eq, value?_eq, compare?]
  cases hx : x.place? with
  | none => rfl
  | some a =>
      cases hy : y.place? with
      | none => rfl
      | some b =>
          have hcompare := atPlace_strictMonoOn.cmp_map_eq (place_mem hx) (place_mem hy)
          rw [cmp_eq_compare, cmp_eq_compare] at hcompare
          exact congrArg some hcompare.symm

/-! ## The laws of the order -/

theorem compare?_eq_none_iff (x y : Double) : x.compare? y = none ↔ x = nan ∨ y = nan := by
  rw [compare?_eq, Option.map₂_eq_none_iff, value?_eq_none_iff, value?_eq_none_iff]

theorem compare?_swap (x y : Double) : y.compare? x = (x.compare? y).map Ordering.swap := by
  rw [compare?_eq, compare?_eq, Option.map_map₂, Option.map₂_swap]
  congr 1
  funext v w
  exact Std.OrientedCmp.eq_swap

theorem compare?_self {x : Double} {order : Ordering} (h : x.compare? x = some order) :
    order = .eq := by
  rw [compare?_eq] at h
  obtain ⟨v, w, hv, hw, rfl⟩ := Option.map₂_eq_some_iff.1 h
  obtain rfl := Option.mem_unique hv hw
  exact compare_eq_iff_eq.2 rfl

/-- A number that is at most another, which is at most a third, is at most the third, and it is less
    if it is less in one of the two steps. -/
theorem compare?_trans {x y z : Double} {first second : Ordering}
    (hxy : x.compare? y = some first) (hyz : y.compare? z = some second)
    (hfirst : first ≠ .gt) (hsecond : second ≠ .gt) :
    ∃ order, x.compare? z = some order ∧ order ≠ .gt ∧
      (first = .lt ∨ second = .lt → order = .lt) := by
  rw [compare?_eq] at hxy hyz
  obtain ⟨u, v, hu, hv, rfl⟩ := Option.map₂_eq_some_iff.1 hxy
  obtain ⟨v', w, hv', hw, rfl⟩ := Option.map₂_eq_some_iff.1 hyz
  obtain rfl := Option.mem_unique hv hv'
  rw [compare_le_iff_le] at hfirst hsecond
  refine ⟨compare u w, ?_, compare_le_iff_le.2 (hfirst.trans hsecond), ?_⟩
  · rw [compare?_eq]
    exact Option.map₂_eq_some_iff.2 ⟨u, w, hu, hw, rfl⟩
  · simp only [compare_lt_iff_lt]
    rintro (hlt | hlt)
    · exact hlt.trans_le hsecond
    · exact hfirst.trans_lt hlt

theorem lt_iff (x y : Double) : x.lt y ↔ x.compare? y = some .lt := by
  unfold lt related compare?
  split
  · simp [Int.compare_eq_lt]
  · simp

theorem le_iff (x y : Double) :
    x.le y ↔ x.compare? y = some .lt ∨ x.compare? y = some .eq := by
  unfold le related compare?
  split
  · simp [Int.compare_eq_lt, Int.le_iff_lt_or_eq]
  · simp

end Double

end ScriptFront
