import Mathlib.Tactic.NormNum
import ScriptFront.Literal
import ScriptFront.Proofs.Number.Division

set_option autoImplicit false

/-! # Literals as numbers

Literals are compared, subtracted and divided as the numbers that they are read as. For integers
this is exact; the order is a partial preorder, by the exact values of the numbers; and division is
the one that the standard for doubles asks for. -/

namespace ScriptFront.Literal

/-! ## Integers

The integers of the language have 32 bits, and a double holds every integer of 53. So an integer
literal is read as a number of exactly its value; comparing, negating and subtracting such numbers
is exact as well; and writing the number and reading the text leads back to it. -/

theorem ofInt_of_inRange {n : Int} (h : intMin ≤ n ∧ n ≤ intMax) :
    ofInt n = .ok (integer n h) :=
  dif_pos h

theorem ofInt_natCast {n : Nat} (h : (n : Int) ≤ intMax) :
    ∃ inRange, ofInt n = .ok (integer n inRange) := by
  have hrange : intMin ≤ (n : Int) ∧ (n : Int) ≤ intMax := by
    unfold intMin
    omega
  exact ⟨hrange, ofInt_of_inRange hrange⟩

/-- An integer of the language is far from where doubles have gaps between integers. -/
theorem natAbs_lt_of_inRange {n : Int} (h : intMin ≤ n ∧ n ≤ intMax) : n.natAbs < 2 ^ 32 := by
  unfold intMin intMax at h
  omega

/-- **Integer literals survive as numbers.** For any two integers of the language there are
    literals: the number that such a literal is read as has the value of the integer; the order of
    two literals is the sign of the difference of the integers; their difference and the opposite
    are exact; and as text the number is the decimal numeral of the integer, which is read as the
    same number again. -/
theorem integers_survive {m n : Int} (hm : intMin ≤ m ∧ m ≤ intMax)
    (hn : intMin ≤ n ∧ n ≤ intMax) :
    ∃ a b, ofInt m = .ok a ∧ ofInt n = .ok b ∧
      b.toDouble.value? = some ((n : ℚ) : ExtendedRat) ∧
      a.compare? b = some (compare (m - n) 0) ∧
      (a.sub b).value? = some (((m - n : Int) : ℚ) : ExtendedRat) ∧
      b.neg.value? = some (((-n : Int) : ℚ) : ExtendedRat) ∧
      (float b.toDouble).toText = b.toText ∧ b.toText = (toString n).toList ∧
      Numeral.toDouble b.toText = b.toDouble := by
  have hm' := natAbs_lt_of_inRange hm
  have hn' := natAbs_lt_of_inRange hn
  have hm53 : m.natAbs < 2 ^ 53 := by omega
  have hn53 : n.natAbs < 2 ^ 53 := by omega
  have hn52 : n.natAbs < 2 ^ 52 := by omega
  have hdifference : (m - n).natAbs < 2 ^ 53 := by omega
  refine ⟨_, _, ofInt_of_inRange hm, ofInt_of_inRange hn, Double.value?_ofInt hn53, ?_, ?_,
    Double.value?_neg_ofInt hn53, formatDouble_ofInt hn52, Numeral.ofInt_eq_toString n,
    toDouble_ofInt hn52⟩
  · rw [← cmp_eq_compare, cmp_sub_zero, cmp_eq_compare]
    exact Double.compare?_ofInt hm53 hn53
  · rw [← Double.value?_ofInt hdifference, ← Double.sub_ofInt hm53 hn53]
    rfl

/-- The least integer and the greatest one, whose difference has 33 bits. -/
theorem integers_survive_extremes :
    (intMin ≤ intMin ∧ intMin ≤ intMax) ∧ (intMin ≤ intMax ∧ intMax ≤ intMax) ∧
    ∃ a b, ofInt intMin = .ok a ∧ ofInt intMax = .ok b ∧ a.compare? b = some .lt ∧
      (a.sub b).value? = some ((-4294967295 : ℚ) : ExtendedRat) ∧
      b.toText = "2147483647".toList ∧ Numeral.toDouble b.toText = b.toDouble := by
  have hmin : intMin ≤ intMin ∧ intMin ≤ intMax := by decide
  have hmax : intMin ≤ intMax ∧ intMax ≤ intMax := by decide
  obtain ⟨a, b, ha, hb, -, hcompare, hsub, -, -, htext, hread⟩ := integers_survive hmin hmax
  have hdifference : ((intMin - intMax : Int) : ℚ) = -4294967295 := by
    simp only [intMin, intMax]
    norm_num
  rw [hdifference] at hsub
  exact ⟨hmin, hmax, a, b, ha, hb, hcompare.trans (by decide), hsub, htext.trans (by decide), hread⟩

/-! ## The order

Literals are compared as the numbers that they are read as, and numbers by their exact values. So
the comparison and the four relations are one partial preorder: it leaves out the literals that are
read as no number, and otherwise it is a linear order up to literals of the same value. -/

/-- The laws of the order, for three literals. -/
structure OrderLaws (a b c : Literal) : Prop where
  /-- The order is that of the exact values. -/
  byValue : a.compare? b = Option.map₂ compare a.toDouble.value? b.toDouble.value?
  unordered : a.compare? b = Option.none ↔ a.toDouble = .nan ∨ b.toDouble = .nan
  opposite : b.compare? a = (a.compare? b).map Ordering.swap
  self : a.compare? a = Option.none ∨ a.compare? a = some .eq
  /-- Two steps up are a step up, and a proper one if one of the two is. -/
  chained : ∀ first second, a.compare? b = some first → b.compare? c = some second →
    first ≠ .gt → second ≠ .gt →
      ∃ order, a.compare? c = some order ∧ order ≠ .gt ∧
        (first = .lt ∨ second = .lt → order = .lt)
  less : a.lt b ↔ a.compare? b = some .lt
  atMost : a.le b ↔ a.compare? b = some .lt ∨ a.compare? b = some .eq
  greater : a.gt b ↔ a.compare? b = some .gt
  atLeast : a.ge b ↔ a.compare? b = some .eq ∨ a.compare? b = some .gt

/-- The relations the other way round are read off the same comparison. -/
theorem compare?_swap_eq_some_iff (a b : Literal) (order : Ordering) :
    b.compare? a = some order ↔ a.compare? b = some order.swap := by
  rw [compare?, compare?, Double.compare?_swap a.toDouble b.toDouble, Option.map_eq_some_iff]
  constructor
  · rintro ⟨other, hother, rfl⟩
    rw [hother, Ordering.swap_swap]
  · intro horder
    exact ⟨order.swap, horder, Ordering.swap_swap⟩

/-- **The order of literals is one partial preorder.** The comparison of two literals fails exactly
    when one of them is read as no number; otherwise it is antisymmetric, reflexive and transitive,
    and each of the four relations holds for the results that its name says. -/
theorem order_laws (a b c : Literal) : OrderLaws a b c where
  byValue := Double.compare?_eq _ _
  unordered := Double.compare?_eq_none_iff _ _
  opposite := Double.compare?_swap _ _
  self := by
    cases hself : a.compare? a with
    | none => exact .inl rfl
    | some order => exact .inr (congrArg some (Double.compare?_self hself))
  chained := by
    intro first second hfirst hsecond hle hle'
    exact Double.compare?_trans hfirst hsecond hle hle'
  less := Double.lt_iff _ _
  atMost := Double.le_iff _ _
  greater := (Double.lt_iff _ _).trans (compare?_swap_eq_some_iff a b .lt)
  atLeast := by
    rw [ge, Double.le_iff, or_comm]
    exact or_congr (compare?_swap_eq_some_iff a b .eq) (compare?_swap_eq_some_iff a b .lt)

/-- Literals of three kinds: a truth value that is as great as a text, and an integer that is
    greater. -/
theorem order_laws_truth_text_integer :
    (boolean true).compare? (string "1e0".toList) = some .eq ∧
      (string "1e0".toList).compare? (integer 2 (by decide)) = some .lt ∧
      (boolean true).compare? (integer 2 (by decide)) = some .lt := by
  have hfirst : (boolean true).compare? (string "1e0".toList) = some .eq := by decide +kernel
  have hsecond : (string "1e0".toList).compare? (integer 2 (by decide)) = some .lt := by
    decide +kernel
  have hlaws := order_laws (boolean true) (string "1e0".toList) (integer 2 (by decide))
  obtain ⟨order, horder, -, hlt⟩ := hlaws.chained _ _ hfirst hsecond (by decide) (by decide)
  rw [hlt (.inr rfl)] at horder
  exact ⟨hfirst, hsecond, horder⟩

/-! ## The quotient

Literals are divided as the numbers that they are read as. The quotient is never refused, whatever
the literals are, and it is the one that the standard for doubles asks for. -/

/-- **Division of literals follows the standard.** Any two literals have a quotient, although a
    machine is not asked for quotients by zero, and it is the only number that obeys the laws of
    division. -/
theorem division_laws (a b : Literal) :
    ∃ z, a.toDouble.divGuarded b.toDouble = some z ∧ a.div b = z ∧
      a.operate? (.literal b) .div = some (.number z) ∧
      Double.DivisionLaws a.toDouble b.toDouble z ∧
      ∀ w, Double.DivisionLaws a.toDouble b.toDouble w → w = z := by
  have hlaws := Double.divisionLaws_div a.toDouble b.toDouble
  exact ⟨a.div b, Double.divGuarded_eq _ _, rfl, rfl, hlaws, fun w hw => hw.unique hlaws⟩

/-- One divided by the text of negative zero. -/
example : (boolean true).div (string "-0".toList) = .infinite true := by decide +kernel

/-- A third lies below a half of the last bit. -/
example : (integer 1 (by decide)).div (string "3e0".toList) =
    .finite false 6004799503160661 1020 (by decide) := by decide +kernel

end ScriptFront.Literal
