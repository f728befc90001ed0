import Mathlib.Data.Fintype.Fin
import Mathlib.SetTheory.Cardinal.Finite
import ScriptFront.Literal

set_option autoImplicit false

/-! # Classes of items

Under a comparison that is symmetric and transitive the positions of a list fall into classes, where
an item that is not the same as itself is in a class of its own (`positionSetoid`). The number of
distinct items is the number of these classes (`countDistinct_eq_card`), because each class has one
last position; it does not depend on the order of the list (`countDistinct_perm`), and it is the
number of items that a hash set keeps (`length_keepDistinct`). -/

namespace ScriptFront

variable {α : Type} {same : α → α → Bool}

/-- A comparison that is symmetric and transitive. -/
structure PartialEquivalence (same : α → α → Bool) : Prop where
  symm {x y : α} : same x y → same y x
  trans {x y z : α} : same x y → same y z → same x z

namespace PartialEquivalence

theorem comm (h : PartialEquivalence same) (x y : α) : same x y = same y x :=
  Bool.eq_iff_iff.2 ⟨h.symm, h.symm⟩

theorem congr (h : PartialEquivalence same) {x y : α} (hxy : same x y) : same x = same y := by
  funext z
  exact Bool.eq_iff_iff.2 ⟨fun hxz => h.trans (h.symm hxy) hxz, fun hyz => h.trans hxy hyz⟩

end PartialEquivalence

/-! ## Order -/

/-- Two items at the front of a list may be exchanged. -/
theorem countDistinct_swap (h : PartialEquivalence same) (x y : α) (items : List α) :
    countDistinct same (y :: x :: items) = countDistinct same (x :: y :: items) := by
  simp only [countDistinct, List.any_cons]
  by_cases hxy : same x y
  · simp [hxy, h.symm hxy, h.congr hxy]
  · have hyx : same y x = false := by simpa [h.comm y x] using hxy
    simp only [hxy, hyx, Bool.false_or]
    omega

/-- The number of distinct items does not depend on the order of the items. -/
theorem countDistinct_perm (h : PartialEquivalence same) {items others : List α}
    (hperm : items.Perm others) : countDistinct same items = countDistinct same others := by
  induction hperm with
  | nil => rfl
  | cons x hperm ih => simp only [countDistinct, hperm.any_eq, ih]
  | swap x y items => exact countDistinct_swap h x y items
  | trans _ _ ih ih' => exact ih.trans ih'

/-! ## Hash sets -/

/-- Looking only at items of the same hash overlooks none that is the same. -/
theorem any_hash_eq (h : PartialEquivalence same) {hash : α → Int}
    (hhash : ∀ {x y : α}, same x y → hash x = hash y) (x : α) (kept : List α) :
    (kept.any fun y => hash y = hash x && same y x) = kept.any (same x) := by
  congr 1
  funext y
  rw [h.comm x y]
  cases hsame : same y x with
  | false => exact Bool.and_false _
  | true => simp [hhash hsame]

/-- If the items of a set are distinct, then putting a list into it leaves the distinct items of
    both. -/
theorem length_keepDistinct_append (h : PartialEquivalence same) {hash : α → Int}
    (hhash : ∀ {x y : α}, same x y → hash x = hash y) (items kept : List α)
    (hkept : countDistinct same kept = kept.length) :
    (keepDistinct hash same kept items).length = countDistinct same (items.reverse ++ kept) := by
  induction items generalizing kept with
  | nil => exact hkept.symm
  | cons x items ih =>
      rw [keepDistinct, any_hash_eq h hhash, List.reverse_cons, List.append_assoc,
        List.singleton_append]
      by_cases hany : kept.any (same x) = true
      · -- one of the set stands for the new item, which then does not count
        have hall : (items.reverse ++ kept).any (same x) = true := by
          rw [List.any_append, hany, Bool.or_true]
        rw [if_pos hany, ih kept hkept, countDistinct_perm h List.perm_middle, countDistinct,
          if_pos hall, Nat.zero_add]
      · have hnew : countDistinct same (x :: kept) = (x :: kept).length := by
          rw [countDistinct, if_neg hany, hkept, List.length_cons, Nat.add_comm]
        rw [if_neg hany, ih (x :: kept) hnew]

/-- A hash set has as many items as there are distinct ones. -/
theorem length_keepDistinct (h : PartialEquivalence same) {hash : α → Int}
    (hhash : ∀ {x y : α}, same x y → hash x = hash y) (items : List α) :
    (keepDistinct hash same [] items).length = countDistinct same items := by
  rw [length_keepDistinct_append h hhash items [] rfl, List.append_nil]
  exact countDistinct_perm h items.reverse_perm

/-! ## Classes -/

/-- Two positions are in one class if they are one, or if their items are the same. -/
def positionSetoid (h : PartialEquivalence same) (items : List α) : Setoid (Fin items.length) where
  r i j := i = j ∨ same items[i] items[j]
  iseqv := {
    refl := fun i => .inl rfl
    symm := by
      rintro i j (rfl | hsame)
      · exact .inl rfl
      · exact .inr (h.symm hsame)
    trans := by
      rintro i j k (rfl | hsame) (rfl | hsame')
      · exact .inl rfl
      · exact .inr hsame'
      · exact .inr hsame
      · exact .inr (h.trans hsame hsame') }

/-- The classes into which the positions of a list fall. -/
abbrev Classes (h : PartialEquivalence same) (items : List α) : Type :=
  Quotient (positionSetoid h items)

/-- A position is the last of its class if no later item is the same. -/
def IsLast (same : α → α → Bool) (items : List α) (i : Fin items.length) : Prop :=
  ∀ j, i < j → ¬ same items[i] items[j]

instance (same : α → α → Bool) (items : List α) : DecidablePred (IsLast same items) := fun i =>
  inferInstanceAs (Decidable (∀ j, i < j → ¬ same items[i] items[j]))

/-- The first position is the last one of its class if no other item is the same. -/
theorem isLast_zero (same : α → α → Bool) (x : α) (items : List α) :
    IsLast same (x :: items) (0 : Fin (items.length + 1)) ↔ ¬ items.any (same x) := by
  rw [List.any_eq_true]
  constructor
  · rintro hlast ⟨y, hy, hsame⟩
    obtain ⟨n, hn, rfl⟩ := List.getElem_of_mem hy
    exact hlast (Fin.succ ⟨n, hn⟩) (Fin.succ_pos _) hsame
  · intro hnone j hj hsame
    cases j using Fin.cases with
    | zero => exact absurd hj (lt_irrefl _)
    | succ j => exact hnone ⟨_, items.getElem_mem j.isLt, hsame⟩

theorem isLast_succ (same : α → α → Bool) (x : α) (items : List α) (i : Fin items.length) :
    IsLast same (x :: items) i.succ ↔ IsLast same items i := by
  unfold IsLast
  constructor
  · intro hlast j hij
    exact hlast j.succ (Fin.succ_lt_succ_iff.2 hij)
  · intro hlast j hij
    cases j using Fin.cases with
    | zero => exact absurd hij (Fin.not_lt_zero _)
    | succ j => exact hlast j (Fin.succ_lt_succ_iff.1 hij)

/-- The items that count are those at the last positions of classes. -/
theorem countDistinct_eq_card_isLast (same : α → α → Bool) (items : List α) :
    countDistinct same items = Fintype.card { i // IsLast same items i } := by
  induction items with
  | nil => rfl
  | cons x items ih =>
      rw [Fintype.card_subtype] at ih ⊢
      rw [countDistinct, ih]
      refine Eq.trans ?_ (Fin.card_filter_univ_succ' (IsLast same (x :: items))).symm
      simp only [isLast_zero, isLast_succ, ite_not]

/-- Every position has a last one in its class. -/
theorem exists_isLast (h : PartialEquivalence same) (items : List α) (i : Fin items.length) :
    ∃ j, IsLast same items j ∧ (positionSetoid h items).r i j := by
  induction i using WellFoundedGT.induction with
  | ind i ih =>
      by_cases hlast : IsLast same items i
      · exact ⟨i, hlast, .inl rfl⟩
      · unfold IsLast at hlast
        push Not at hlast
        obtain ⟨k, hik, hsame⟩ := hlast
        obtain ⟨j, hj, hkj⟩ := ih k hik
        exact ⟨j, hj, (positionSetoid h items).trans (.inr hsame) hkj⟩

/-- Every class has one last position. -/
theorem isLast_bijective (h : PartialEquivalence same) (items : List α) :
    Function.Bijective fun i : { i // IsLast same items i } =>
      (Quotient.mk (positionSetoid h items) i.1 : Classes h items) := by
  constructor
  · rintro ⟨i, hi⟩ ⟨j, hj⟩ hclass
    refine Subtype.ext ?_
    rcases (Quotient.exact hclass : (positionSetoid h items).r i j) with heq | hsame
    · exact heq
    · rcases Nat.lt_trichotomy i j with hlt | heq | hlt
      · exact absurd hsame (hi j hlt)
      · exact Fin.ext heq
      · exact absurd (h.symm hsame) (hj i hlt)
  · intro c
    induction c using Quotient.inductionOn with
    | h i =>
        obtain ⟨j, hj, hclass⟩ := exists_isLast h items i
        exact ⟨⟨j, hj⟩, (Quotient.sound hclass).symm⟩

/-- The number of distinct items is the number of classes. -/
theorem countDistinct_eq_card (h : PartialEquivalence same) (items : List α) :
    countDistinct same items = Nat.card (Classes h items) := by
  rw [countDistinct_eq_card_isLast, ← Nat.card_eq_fintype_card]
  exact Nat.card_eq_of_bijective _ (isLast_bijective h items)

end ScriptFront
