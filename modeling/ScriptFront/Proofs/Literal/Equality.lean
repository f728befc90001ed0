import ScriptFront.Proofs.Distinct
import ScriptFront.Proofs.Number.Division

set_option autoImplicit false

/-! # Equality of literals

Literals are equal if they are identical, apart from two exceptions that doubles make: a
not-a-number equals nothing, and the two zeros are equal (`Literal.same_iff`). So equality is
symmetric and transitive, and what literals are read as respects it, except that the two zeros have
different texts. -/

namespace ScriptFront

namespace Double

theorem same_iff_place? (x y : Double) :
    x.same y ↔ ∃ place, x.place? = some place ∧ y.place? = some place := by
  unfold same related
  cases x.place? <;> cases y.place? <;> simp [eq_comm]

@[simp] theorem place?_zero (negative : Bool) : (zero negative).place? = some 0 := by
  cases negative <;> decide

/-- Only the two zeros share a place. -/
theorem eq_or_isZero_of_place? {x y : Double} {place : Int} (hx : x.place? = some place)
    (hy : y.place? = some place) : x = y ∨ (x.isZero ∧ y.isZero) := by
  have hpos := infinityUnits_pos
  cases x with
  | nan => cases hx
  | infinite a =>
      obtain rfl := Option.some.inj hx
      cases y with
      | nan => cases hy
      | infinite b =>
          have hsame := Option.some.inj hy
          refine .inl (congrArg infinite ?_)
          generalize infinityUnits = bound at *
          cases a <;> cases b <;> simp at hsame ⊢ <;> omega
      | finite b mb sb cb =>
          have hsame := Option.some.inj hy
          have hbounds := signedUnits_bounds cb b
          generalize infinityUnits = bound at *
          split at hsame <;> omega
  | finite a ma sa ca =>
      obtain rfl := Option.some.inj hx
      cases y with
      | nan => cases hy
      | infinite b =>
          have hsame := Option.some.inj hy
          have hbounds := signedUnits_bounds ca a
          generalize infinityUnits = bound at *
          split at hsame <;> omega
      | finite b mb sb cb =>
          have hsame : signedUnits b mb sb = signedUnits a ma sa := Option.some.inj hy
          by_cases hsign : a = b
          · subst hsign
            exact .inl (finite_congr ca cb (withSign_inj hsame).symm)
          · -- numbers of different signs share a place only if they have no units
            obtain rfl : b = !a := by cases a <;> cases b <;> simp_all
            have hnone : units ma sa = 0 ∧ units mb sb = 0 := by
              unfold signedUnits at hsame
              cases a <;> simp at hsame <;> omega
            exact .inr ⟨decide_eq_true ((units_eq_zero_iff _ _).1 hnone.1),
              decide_eq_true ((units_eq_zero_iff _ _).1 hnone.2)⟩

/-- Numbers are equal if they are identical or both zeros. -/
theorem same_iff (x y : Double) : x.same y ↔ x ≠ nan ∧ (x = y ∨ (x.isZero ∧ y.isZero)) := by
  rw [same_iff_place?]
  constructor
  · rintro ⟨place, hx, hy⟩
    refine ⟨?_, eq_or_isZero_of_place? hx hy⟩
    rintro rfl
    cases hx
  · rintro ⟨hnumber, rfl | ⟨hx, hy⟩⟩
    · cases x with
      | nan => exact absurd rfl hnumber
      | infinite | finite => exact ⟨_, rfl, rfl⟩
    · rw [eq_zero_of_isZero hx, eq_zero_of_isZero hy]
      exact ⟨0, place?_zero _, place?_zero _⟩

end Double

/-- Hashes that are the values themselves as far as those are numbers. -/
def Hashing.byPlace : Hashing where
  text text := text.length
  integer value := value
  double x := x.place?.getD 0
  truth value := if value then 1 else 0
  nothing := 0
  pair kind value := 31 * kind + value
  double_congr h := by
    obtain ⟨place, hx, hy⟩ := (Double.same_iff_place? _ _).1 h
    rw [hx, hy]

namespace Literal

/-- The two zeros among the numbers. -/
def OppositeZeros (a b : Literal) : Prop :=
  ∃ negative, a = float (.zero negative) ∧ b = float (.zero !negative)

theorem OppositeZeros.symm {a b : Literal} (h : a.OppositeZeros b) : b.OppositeZeros a := by
  obtain ⟨negative, rfl, rfl⟩ := h
  exact ⟨!negative, rfl, by rw [Bool.not_not]⟩

theorem not_oppositeZeros_self (a : Literal) : ¬ a.OppositeZeros a := by
  rintro ⟨negative, hleft, hright⟩
  cases negative <;> cases hleft.symm.trans hright

theorem oppositeZeros_of_isZero {x y : Double} (hx : x.isZero) (hy : y.isZero) (hne : x ≠ y) :
    OppositeZeros (float x) (float y) := by
  rw [Double.eq_zero_of_isZero hx, Double.eq_zero_of_isZero hy] at hne ⊢
  refine ⟨x.isNegative, rfl, ?_⟩
  cases hsign : x.isNegative <;> cases hsign' : y.isNegative <;> simp_all

/-- Literals are equal if they are identical or opposite zeros. -/
theorem same_iff (a b : Literal) :
    a.same b ↔ a ≠ float .nan ∧ (a = b ∨ a.OppositeZeros b) := by
  cases a with
  | float x =>
      cases b with
      | float y =>
          show x.same y ↔ _
          rw [Double.same_iff, ne_eq, ne_eq, float.injEq, float.injEq]
          refine and_congr_right fun _ => ⟨?_, ?_⟩
          · rintro (heq | ⟨hx, hy⟩)
            · exact .inl heq
            · by_cases heq : x = y
              · exact .inl heq
              · exact .inr (oppositeZeros_of_isZero hx hy heq)
          · rintro (heq | ⟨negative, hx, hy⟩)
            · exact .inl heq
            · rw [float.injEq] at hx hy
              exact .inr ⟨hx ▸ rfl, hy ▸ rfl⟩
      | string | integer | boolean | none => simp [same, OppositeZeros]
  | string text => cases b <;> simp [same, OppositeZeros]
  | integer value => cases b <;> simp [same, OppositeZeros]
  | boolean value => cases b <;> simp [same, OppositeZeros]
  | none => cases b <;> simp [same, OppositeZeros]

theorem partialEquivalence_same : PartialEquivalence same where
  symm {a b} h := by
    rw [same_iff] at h ⊢
    obtain ⟨hnumber, rfl | hzeros⟩ := h
    · exact ⟨hnumber, .inl rfl⟩
    · refine ⟨?_, .inr hzeros.symm⟩
      obtain ⟨negative, -, rfl⟩ := hzeros
      exact nofun
  trans {a b c} h h' := by
    rw [same_iff] at h h' ⊢
    obtain ⟨hnumber, rfl | hzeros⟩ := h
    · exact ⟨hnumber, h'.2⟩
    · obtain ⟨-, rfl | hzeros'⟩ := h'
      · exact ⟨hnumber, .inr hzeros⟩
      · -- the opposite of the opposite zero is the zero again
        obtain ⟨negative, rfl, rfl⟩ := hzeros
        obtain ⟨negative', hzero, rfl⟩ := hzeros'
        obtain rfl : (!negative) = negative' := by
          cases negative <;> cases negative' <;> first | rfl | cases hzero
        exact ⟨hnumber, .inl (by rw [Bool.not_not])⟩

/-! ## What respects equality -/

/-- What is the same for the two zeros is the same for all equal literals. -/
theorem congr_of_same {β : Type} {a b : Literal} (h : a.same b) (f : Literal → β)
    (hzeros : ∀ negative, f (float (.zero negative)) = f (float (.zero !negative))) :
    f a = f b := by
  obtain ⟨-, rfl | ⟨negative, rfl, rfl⟩⟩ := (same_iff a b).1 h
  · rfl
  · exact hzeros negative

/-- The laws of equality, for three literals. -/
structure EqualityLaws (a b c : Literal) : Prop where
  symmetric : a.same b → b.same a
  transitive : a.same b → b.same c → a.same c
  reflexive : a.same a ↔ a ≠ float .nan
  noNumber : (float .nan).same b = false ∧ b.same (float .nan) = false
  kinds : a.kindName ≠ b.kindName → a.same b = false
  truth : a.same b → a.toBool = b.toBool
  number : a.same b → (a.toDouble = .nan ↔ b.toDouble = .nan)
  order : a.same b → a.compare? c = b.compare? c ∧ c.compare? a = c.compare? b
  /-- Only the texts of the two zeros are different. -/
  text : a.same b → (a.toText = b.toText ↔ ¬ a.OppositeZeros b)

theorem equalityLaws (a b c : Literal) : EqualityLaws a b c where
  symmetric := partialEquivalence_same.symm
  transitive := partialEquivalence_same.trans
  reflexive := by simp [same_iff]
  noNumber := by
    have hnone : (float .nan).same b = false := by
      rw [Bool.eq_false_iff, Ne, same_iff]
      exact fun h => h.1 rfl
    exact ⟨hnone, (partialEquivalence_same.comm b _).trans hnone⟩
  kinds := by
    intro hkinds
    rw [Bool.eq_false_iff]
    exact fun h => hkinds (congr_of_same h kindName fun _ => rfl)
  truth h := congr_of_same h toBool fun _ => rfl
  number h := iff_of_eq (congr_of_same h (·.toDouble = .nan) (by decide))
  order h := ⟨congr_of_same h (·.compare? c) (by simp [compare?, toDouble, Double.compare?]),
    congr_of_same h (c.compare? ·) (by simp [compare?, toDouble, Double.compare?])⟩
  text := by
    intro h
    obtain ⟨-, rfl | hzeros⟩ := (same_iff a b).1 h
    · exact iff_of_true rfl (not_oppositeZeros_self a)
    · refine iff_of_false ?_ (not_not_intro hzeros)
      obtain ⟨negative, rfl, rfl⟩ := hzeros
      cases negative <;> decide

/-! ## Counting -/

/-- The laws of counting distinct literals. -/
structure CountingLaws (literals : List Literal) : Prop where
  classes : countDistinct literals = Nat.card (Classes partialEquivalence_same literals)
  /-- A not-a-number is in a class of its own. -/
  alone {i j : Fin literals.length} : literals[i] = float .nan →
    (positionSetoid partialEquivalence_same literals).r i j → i = j
  kept (hashing : Hashing) : (kept hashing literals).length = countDistinct literals
  reordered {others : List Literal} : literals.Perm others →
    countDistinct others = countDistinct literals

theorem hash_congr (hashing : Hashing) {a b : Literal} (h : a.same b) :
    a.hash hashing = b.hash hashing :=
  congr_of_same h (hash hashing) fun negative =>
    congrArg (hashing.pair _) (hashing.double_congr (by cases negative <;> decide))

theorem countingLaws (literals : List Literal) : CountingLaws literals where
  classes := countDistinct_eq_card partialEquivalence_same literals
  alone := by
    intro i j hnan hclass
    rcases hclass with heq | hsame
    · exact heq
    · exact absurd hnan ((same_iff _ _).1 hsame).1
  kept hashing := length_keepDistinct partialEquivalence_same (hash_congr hashing) literals
  reordered hperm := (countDistinct_perm partialEquivalence_same hperm).symm

/-- **Equality of literals is a partial equivalence that their readings respect.** Only a
    not-a-number is not equal to itself, equal literals are read alike except for the texts of the
    two zeros, and the number of distinct literals is the number of classes of equal ones, in any
    order and in any hash set. -/
theorem equality_laws (a b c : Literal) (literals : List Literal) :
    EqualityLaws a b c ∧ CountingLaws literals :=
  ⟨equalityLaws a b c, countingLaws literals⟩

/-- Two literals that are no numbers, the two zeros and an integer, which are in four classes. -/
theorem equality_laws_zeros :
    (float (.zero true)).same (float (.zero false)) ∧
    (float (.zero true)).toText ≠ (float (.zero false)).toText ∧
    countDistinct [float (.zero true), integer 0 (by decide), float .nan, float (.zero false),
      float .nan] = 4 ∧
    countDistinct [float .nan, float (.zero true), float .nan, float (.zero false),
      integer 0 (by decide)] = 4 ∧
    (kept .byPlace [float (.zero true), integer 0 (by decide), float .nan, float (.zero false),
      float .nan]).length = 4 := by
  obtain ⟨hequality, hcounting⟩ := equality_laws (float (.zero true)) (float (.zero false)) none
    [float (.zero true), integer 0 (by decide), float .nan, float (.zero false), float .nan]
  have hsame : (float (.zero true)).same (float (.zero false)) := by decide
  have hzeros : (float (.zero true)).OppositeZeros (float (.zero false)) := ⟨true, rfl, rfl⟩
  have hfour : countDistinct [float (.zero true), integer 0 (by decide), float .nan,
      float (.zero false), float .nan] = 4 := by decide
  exact ⟨hsame, mt (hequality.text hsame).1 (not_not_intro hzeros), hfour,
    (hcounting.reordered (by decide)).trans hfour, (hcounting.kept .byPlace).trans hfour⟩

/-- A truth value and an integer are as great as each other and still not equal. -/
example : (boolean true).compare? (integer 1 (by decide)) = some .eq ∧
    (boolean true).same (integer 1 (by decide)) = false := by decide +kernel

end Literal

end ScriptFront
