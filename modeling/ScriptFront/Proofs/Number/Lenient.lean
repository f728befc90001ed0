import ScriptFront.Proofs.Number.Numeral
import ScriptFront.Proofs.Text.Numeral

set_option autoImplicit false

/-! # The guard before a lenient reader

Every character of a numeral is of ASCII and neither a blank nor an underscore, so the guard lets
all numerals pass (`Lenient.passes_of_isNumeral`). What it lets pass the lenient reader takes as it
stands (`Lenient.read?_of_passes`), and it refuses whatever is neither a numeral nor the word that
stands for not-a-number. -/

namespace ScriptFront

open Numeral (IsNumeral IsDecimal isDigit isInfinity splitSign)

namespace Lenient

variable {alphabet : Alphabet} {text : Text}

/-! ## Passing the guard -/

/-- What the guard asks for. -/
structure Passes (alphabet : Alphabet) (text : Text) : Prop where
  ne_nil : text ≠ []
  ascii : ∀ c ∈ text, isAscii c
  unsurrounded : strip alphabet.blank text = text
  unseparated : '_' ∉ text

theorem guarded_of_passes (h : Passes alphabet text) :
    guarded alphabet text = (read? alphabet text).getD .nan := by
  have hascii : text.all isAscii := List.all_eq_true.2 h.ascii
  rw [guarded, if_neg]
  rintro (hnil | hother | hsurrounded | hseparated)
  · exact h.ne_nil hnil
  · exact hother hascii
  · exact hsurrounded h.unsurrounded.symm
  · exact h.unseparated hseparated

theorem guarded_of_not_passes (h : ¬ Passes alphabet text) : guarded alphabet text = .nan := by
  rw [guarded, if_pos]
  by_contra hnone
  simp only [not_or, Decidable.not_not] at hnone
  obtain ⟨hne, hascii, hunsurrounded, hunseparated⟩ := hnone
  exact h ⟨hne, List.all_eq_true.1 hascii, hunsurrounded.symm, hunseparated⟩

/-- The guard lets every numeral pass. -/
theorem passes_of_isNumeral (alphabet : Alphabet) (h : IsNumeral text) :
    Passes alphabet text := by
  have hplain := h.isPlainChar
  have hascii : ∀ c ∈ text, isAscii c := by
    intro c hc
    have hbounds := hplain c hc
    unfold Numeral.IsPlainChar at hbounds
    exact decide_eq_true (by omega)
  have hne : text ≠ [] := by
    rintro rfl
    exact (Numeral.toDouble_ne_nan_iff []).2 h rfl
  refine ⟨hne, hascii, strip_of_not_blank fun c hc => ?_, fun hmem => ?_⟩
  · have hbounds := hplain c hc
    unfold Numeral.IsPlainChar at hbounds
    rw [Alphabet.blank, if_pos (hascii c hc)]
    simp [isSpace, ← Char.toNat_inj]
    omega
  · exact (hplain '_' hmem).2.2 rfl

/-! ## Reading what has passed -/

/-- What has passed the guard is read as it stands. -/
theorem read?_of_passes (h : Passes alphabet text) : read? alphabet text = number? text := by
  have hstrip : strip isSpace text = text := by
    refine strip_eq_self_of_imp (fun c hc hspace => ?_) h.unsurrounded
    rw [Alphabet.blank, if_pos (h.ascii c hc), hspace, Bool.true_or]
  rw [read?, normal?_of_plain h.ascii hstrip h.unseparated]
  rfl

/-- The word for not-a-number is none of the words for infinity, and no decimal. -/
theorem toDouble_of_nan_word (h : (splitSign text).2.map Char.toLower = "nan".toList) :
    Numeral.toDouble text = .nan := by
  by_contra hnumber
  rcases (Numeral.toDouble_ne_nan_iff_body text).1 hnumber with hinfinity | hdecimal
  · rw [isInfinity, h] at hinfinity
    exact absurd hinfinity (by decide)
  · obtain ⟨c, rest, hcons, hc⟩ := hdecimal.head
    rw [hcons, List.map_cons] at h
    have hlower : c.toLower = 'n' := (List.cons.inj h).1
    rcases hc with hdigit | rfl
    · have hbounds := Numeral.isDigit_iff.1 hdigit
      rw [← Char.toNat_inj, Numeral.toNat_toLower, if_neg (by omega)] at hlower
      rw [hlower] at hbounds
      exact absurd hbounds (by decide)
    · exact absurd hlower (by decide)

theorem number?_getD (text : Text) : (number? text).getD .nan = Numeral.toDouble text := by
  by_cases hnan : (splitSign text).2.map Char.toLower = "nan".toList
  · rw [toDouble_of_nan_word hnan, number?]
    simp only [hnan, if_true]
    rfl
  · rw [number?, Numeral.toDouble]
    simp only [hnan, if_false]
    split
    · rfl
    · cases Numeral.decimal? (splitSign text).2 <;> rfl

/-- The guarded reading is the strict one. -/
theorem guarded_eq (alphabet : Alphabet) (text : Text) :
    guarded alphabet text = Numeral.toDouble text := by
  by_cases hpasses : Passes alphabet text
  · rw [guarded_of_passes hpasses, read?_of_passes hpasses, number?_getD]
  · rw [guarded_of_not_passes hpasses]
    by_contra hnumber
    exact hpasses (passes_of_isNumeral alphabet
      ((Numeral.toDouble_ne_nan_iff text).1 (Ne.symm hnumber)))

/-- **Exactly the numerals are read as numbers.** Whatever a lenient reader takes for blanks and
    digits beyond ASCII, behind the guard it gives a number other than not-a-number exactly to the
    numerals, and this is the strict reading. -/
theorem numerals_are_read (alphabet : Alphabet) (text : Text) :
    guarded alphabet text = Numeral.toDouble text ∧
      (Numeral.toDouble text ≠ .nan ↔ IsNumeral text) :=
  ⟨guarded_eq alphabet text, Numeral.toDouble_ne_nan_iff text⟩

end Lenient

end ScriptFront
