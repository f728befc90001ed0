import Mathlib.Data.List.DropRight
import Mathlib.Data.List.TakeDrop
import ScriptFront.Number.Layout
import ScriptFront.Number.Reading
import ScriptFront.Proofs.Number.Decimal

set_option autoImplicit false

/-! # Plain decimals

A number is written as a plain decimal: an optional sign, digits, and a point with more digits where
there is something behind it, in the one form that has no superfluous zeros. Reading such a text
gives the value of its digits, so the text of a number is read back as this number. -/

namespace ScriptFront

/-! ## Plain texts -/

/-- The digits before and behind the point of a plain decimal: no leading zero before it, unless
    there is only this one, and no zero at the end behind it. -/
structure IsPlain (whole fraction : Text) : Prop where
  whole_digits : ∀ c ∈ whole, Numeral.isDigit c
  fraction_digits : ∀ c ∈ fraction, Numeral.isDigit c
  lead : whole = ['0'] ∨ (whole ≠ [] ∧ whole.head? ≠ some '0')
  finish : fraction.getLast? ≠ some '0'

/-- Digits behind a point, if there are any. -/
def pointed (fraction : Text) : Text := if fraction = [] then [] else '.' :: fraction

/-- The text of a plain decimal. -/
def plainText (negative : Bool) (whole fraction : Text) : Text :=
  NumberLayout.sign negative ++ (whole ++ pointed fraction)

theorem IsPlain.whole_ne_nil {whole fraction : Text} (h : IsPlain whole fraction) : whole ≠ [] := by
  rcases h.lead with hzero | hlead
  · rw [hzero]; exact List.cons_ne_nil _ _
  · exact hlead.1

/-! ## Reading -/

namespace Numeral

theorem value_zeros_append (zeros : Nat) (digits : Text) :
    value (List.replicate zeros '0' ++ digits) = value digits := by
  rw [value, Nat.ofDigitChars_append, Nat.ofDigitChars_replicate_zero]
  rfl

theorem value_append_zeros (digits : Text) (zeros : Nat) :
    value (digits ++ List.replicate zeros '0') = value digits * 10 ^ zeros := by
  rw [value, Nat.ofDigitChars_append, Nat.ofDigitChars_replicate_zero, Nat.mul_comm]
  rfl

/-- A run of digits is split off where it ends. -/
theorem span_digits {digits rest : Text} (hdigits : ∀ c ∈ digits, isDigit c)
    (hrest : ∀ c others, rest = c :: others → isDigit c = false) :
    (digits ++ rest).span isDigit = (digits, rest) := by
  rw [List.span_eq_takeWhile_dropWhile, List.takeWhile_append_of_pos hdigits,
    List.dropWhile_append_of_pos hdigits]
  cases rest with
  | nil => simp
  | cons c others => simp [hrest c others rfl]

theorem splitFraction_pointed {fraction : Text} (h : ∀ c ∈ fraction, isDigit c) :
    splitFraction (pointed fraction) = (fraction, []) := by
  unfold pointed
  split
  · next hnil => rw [hnil]; rfl
  · have hspan := @span_digits fraction [] h nofun
    rw [List.append_nil] at hspan
    simpa [splitFraction] using hspan

/-- A plain decimal stands for the value of all its digits, as many places down as there are digits
    behind the point. -/
theorem decimal?_plain {whole fraction : Text} (h : IsPlain whole fraction) :
    decimal? (whole ++ pointed fraction) =
      some ⟨value (whole ++ fraction), -(fraction.length : Int)⟩ := by
  have hpoint : ∀ c others, pointed fraction = c :: others → isDigit c = false := by
    intro c others hcons
    unfold pointed at hcons
    split at hcons
    · exact absurd hcons (by simp)
    · rw [← (List.cons.inj hcons).1]; decide
  have hne : whole ++ fraction ≠ [] := List.append_ne_nil_of_left_ne_nil h.whole_ne_nil _
  unfold decimal?
  simp only [span_digits h.whole_digits hpoint, splitFraction_pointed h.fraction_digits, hne,
    if_false, exponent?, Option.map_some, Int.zero_sub]

/-- What begins with a digit is no word. -/
theorem isInfinity_of_digit {c : Char} (h : isDigit c) (rest : Text) :
    isInfinity (c :: rest) = false := by
  rw [isDigit_iff] at h
  have hlower : c.toLower = c := by
    unfold Char.toLower
    rw [dif_neg]
    rintro ⟨hletter, -⟩
    have : 65 ≤ c.toNat := hletter
    omega
  have hi : c ≠ 'i' := by rintro rfl; exact absurd h (by decide)
  simp [isInfinity, hlower, hi]

theorem splitSign_sign {negative : Bool} {c : Char} (h : isDigit c) (rest : Text) :
    splitSign (NumberLayout.sign negative ++ c :: rest) = (negative, c :: rest) := by
  cases negative with
  | true => rfl
  | false =>
      have hminus : c ≠ '-' := by rintro rfl; exact absurd h (by decide)
      have hplus : c ≠ '+' := by rintro rfl; exact absurd h (by decide)
      simp [splitSign, NumberLayout.sign, hminus, hplus]

/-- The number that a plain decimal is read as. -/
theorem toDouble_plainText {whole fraction : Text} (h : IsPlain whole fraction) (negative : Bool) :
    toDouble (plainText negative whole fraction) =
      Decimal.toDouble negative ⟨value (whole ++ fraction), -(fraction.length : Int)⟩ := by
  obtain ⟨c, others, hwhole⟩ := List.exists_cons_of_ne_nil h.whole_ne_nil
  have hc : isDigit c := h.whole_digits c (by rw [hwhole]; exact List.mem_cons_self)
  have hcons : whole ++ pointed fraction = c :: (others ++ pointed fraction) := by
    rw [hwhole, List.cons_append]
  have hdecimal := decimal?_plain h
  unfold toDouble plainText
  rw [hcons] at hdecimal ⊢
  simp only [splitSign_sign hc, isInfinity_of_digit hc, hdecimal, Bool.false_eq_true, if_false]

/-! ## Digits -/

/-- A numeral does not begin with a zero. -/
theorem head?_ofNat {n : Nat} (h : 0 < n) : (ofNat n).head? ≠ some '0' := by
  induction n using Nat.strongRecOn with
  | ind n ih =>
      unfold ofNat
      by_cases hlt : n < 10
      · rw [Nat.toDigits_of_lt_base hlt]
        have hdigits : ∀ n < 10, 0 < n → n.digitChar ≠ '0' := by decide
        simpa using hdigits n hlt h
      · have hquotient : 0 < n / 10 := Nat.div_pos (Nat.le_of_not_lt hlt) (by decide)
        have hhead := ih (n / 10) (Nat.div_lt_self h (by decide)) hquotient
        rw [Nat.toDigits_of_base_le (by decide) (Nat.le_of_not_lt hlt)]
        cases hdigits : Nat.toDigits 10 (n / 10) with
        | nil => exact absurd hdigits (List.length_pos_iff.1 Nat.length_toDigits_pos)
        | cons c others =>
            rw [ofNat, hdigits] at hhead
            exact hhead

end Numeral

/-! ## Writing -/

/-- Digits of which none is superfluous: there is no zero at either end. -/
structure IsSignificant (digits : Text) : Prop where
  isDigit : ∀ c ∈ digits, Numeral.isDigit c
  ne_nil : digits ≠ []
  head : digits.head? ≠ some '0'
  last : digits.getLast? ≠ some '0'

namespace NumberLayout

theorem significant_eq {decimal : Decimal} (h : decimal.digits ≠ 0) :
    significant decimal = (Numeral.ofNat decimal.digits).rdropWhile (· = '0') :=
  if_neg h

/-- The significant digits of a decimal are its digits without some zeros at their end. -/
theorem significant_append_zeros {decimal : Decimal} (h : decimal.digits ≠ 0) :
    ∃ zeros, Numeral.ofNat decimal.digits =
      significant decimal ++ List.replicate zeros '0' := by
  have hzeros : ∀ c ∈ (Numeral.ofNat decimal.digits).rtakeWhile (· = '0'), c = '0' :=
    fun c hc => by simpa using List.mem_rtakeWhile_imp hc
  refine ⟨((Numeral.ofNat decimal.digits).rtakeWhile (· = '0')).length, ?_⟩
  rw [significant_eq h, ← List.eq_replicate_of_mem hzeros, List.rdropWhile_append_rtakeWhile]

theorem isSignificant {decimal : Decimal} (h : decimal.digits ≠ 0) :
    IsSignificant (significant decimal) := by
  obtain ⟨zeros, hdigits⟩ := significant_append_zeros h
  have hhead := Numeral.head?_ofNat (Nat.pos_of_ne_zero h)
  have hne : significant decimal ≠ [] := by
    intro hnil
    -- nothing but zeros would begin with a zero
    have hlength := Numeral.length_ofNat_pos decimal.digits
    rw [hdigits, hnil, List.nil_append] at hhead hlength
    rw [List.length_replicate] at hlength
    exact hhead (by rw [List.head?_replicate, if_neg (Nat.ne_of_gt hlength)])
  refine ⟨fun c hc => ?_, hne, ?_, ?_⟩
  · exact Numeral.isDigit_of_mem_ofNat (hdigits ▸ List.mem_append_left _ hc)
  · rw [hdigits, List.head?_append_of_ne_nil _ hne] at hhead
    exact hhead
  · rw [List.getLast?_eq_some_getLast hne]
    have hlast := List.rdropWhile_last_not (· = '0') (Numeral.ofNat decimal.digits)
      (significant_eq h ▸ hne)
    simp only [← significant_eq h, decide_eq_true_eq] at hlast
    exact fun hzero => hlast (Option.some.inj hzero)

/-- Leaving the zeros at the end away does not change the value of a decimal, which is that of its
    significant digits with the point at its place. -/
theorem toDouble_significant {decimal : Decimal} (h : decimal.digits ≠ 0) (negative : Bool) :
    Decimal.toDouble negative
        ⟨Numeral.value (significant decimal), pointPlace decimal - (significant decimal).length⟩ =
      decimal.toDouble negative := by
  obtain ⟨zeros, hdigits⟩ := significant_append_zeros h
  have hvalue : decimal.digits = Numeral.value (significant decimal) * 10 ^ zeros := by
    rw [← Numeral.value_append_zeros, ← hdigits, Numeral.value_ofNat]
  have hlength : (Numeral.ofNat decimal.digits).length = (significant decimal).length + zeros := by
    rw [hdigits, List.length_append, List.length_replicate]
  have hplace : pointPlace decimal - (significant decimal).length = decimal.exponent + zeros := by
    unfold pointPlace
    rw [if_neg h, hlength]
    omega
  have hexponent : decimal.exponent = (decimal.exponent + zeros) - zeros := by omega
  rw [hplace, ← Decimal.toDouble_mul_pow _ zeros, ← hvalue, ← hexponent]

/-! Where the point goes -/

/-- The text is a plain decimal of the same value as some digits with a point at a place. -/
structure Places (digits : Text) (point : Int) (whole fraction text : Text) : Prop where
  isPlain : IsPlain whole fraction
  text_eq : text = whole ++ pointed fraction
  value_eq : ∀ negative, Decimal.toDouble negative
      ⟨Numeral.value (whole ++ fraction), -(fraction.length : Int)⟩ =
    Decimal.toDouble negative ⟨Numeral.value digits, point - digits.length⟩

section Places

variable {digits : Text} {point : Int}

theorem isDigit_of_mem_zeros {zeros : Nat} {c : Char} (h : c ∈ List.replicate zeros '0') :
    Numeral.isDigit c := by
  rw [List.eq_of_mem_replicate h]
  rfl

theorem places_before (h : IsSignificant digits) (hpoint : point ≤ 0) :
    Places digits point ['0'] (List.replicate (-point).toNat '0' ++ digits)
      ("0.".toList ++ List.replicate (-point).toNat '0' ++ digits) := by
  refine ⟨⟨List.forall_mem_singleton.2 rfl, fun c hc => ?_, .inl rfl, ?_⟩, ?_, fun negative => ?_⟩
  · exact (List.mem_append.1 hc).elim isDigit_of_mem_zeros (h.isDigit c)
  · rw [List.getLast?_append_of_ne_nil _ h.ne_nil]
    exact h.last
  · rw [pointed, if_neg (List.append_ne_nil_of_right_ne_nil _ h.ne_nil)]
    rfl
  · have hplace : -((List.replicate (-point).toNat '0' ++ digits).length : Int) =
        point - digits.length := by
      rw [List.length_append, List.length_replicate]
      omega
    have hvalue : Numeral.value (['0'] ++ (List.replicate (-point).toNat '0' ++ digits)) =
        Numeral.value digits :=
      (Numeral.value_zeros_append 1 _).trans (Numeral.value_zeros_append _ _)
    rw [hplace, hvalue]

theorem places_behind (h : IsSignificant digits) (hpoint : digits.length ≤ point.toNat) :
    Places digits point (digits ++ List.replicate (point.toNat - digits.length) '0') []
      (digits ++ List.replicate (point.toNat - digits.length) '0') := by
  have hpos := List.length_pos_iff.2 h.ne_nil
  refine ⟨⟨fun c hc => ?_, nofun, .inr ⟨List.append_ne_nil_of_left_ne_nil h.ne_nil _, ?_⟩, nofun⟩,
    (List.append_nil _).symm, fun negative => ?_⟩
  · exact (List.mem_append.1 hc).elim (h.isDigit c) isDigit_of_mem_zeros
  · rw [List.head?_append_of_ne_nil _ h.ne_nil]
    exact h.head
  · have hplace : -(([] : Text).length : Int) =
        point - digits.length - (point.toNat - digits.length : Nat) := by
      rw [List.length_nil]
      omega
    rw [List.append_nil, Numeral.value_append_zeros, hplace, Decimal.toDouble_mul_pow]

theorem places_between (h : IsSignificant digits) (hpos : 0 < point)
    (hlt : point.toNat < digits.length) :
    Places digits point (digits.take point.toNat) (digits.drop point.toNat)
      (digits.take point.toNat ++ ['.'] ++ digits.drop point.toNat) := by
  refine ⟨⟨fun c hc => ?_, fun c hc => ?_, .inr ⟨fun hnil => ?_, ?_⟩, ?_⟩, ?_, fun negative => ?_⟩
  · exact h.isDigit c (List.mem_of_mem_take hc)
  · exact h.isDigit c (List.mem_of_mem_drop hc)
  · rcases List.take_eq_nil_iff.1 hnil with hzero | hnil
    · omega
    · exact h.ne_nil hnil
  · rw [List.head?_take, if_neg (by omega)]
    exact h.head
  · rw [List.getLast?_drop, if_neg (by omega)]
    exact h.last
  · rw [pointed, if_neg (by rw [List.drop_eq_nil_iff]; omega), List.append_assoc]
    rfl
  · have hplace : -((digits.drop point.toNat).length : Int) = point - digits.length := by
      rw [List.length_drop]
      omega
    rw [hplace, List.take_append_drop]

/-- Digits with a point at a place are a plain decimal of the same value. -/
theorem places_positionalForm (h : IsSignificant digits) (point : Int) :
    ∃ whole fraction, Places digits point whole fraction (positionalForm false digits point) := by
  unfold positionalForm
  split
  · exact ⟨_, _, places_before h ‹_›⟩
  · split
    · have hplaces := places_behind h ‹_›
      exact ⟨_, _, by simpa using hplaces⟩
    · exact ⟨_, _, places_between h (by omega) (by omega)⟩

end Places

end NumberLayout

/-! ## Numbers -/

/-- The text of a finite number is a plain decimal that is read back as this number. -/
theorem formatDouble_finite (negative : Bool) (mantissa scale : Nat)
    (canonical : Double.Canonical mantissa scale) :
    ∃ whole fraction, IsPlain whole fraction ∧
      formatDouble (.finite negative mantissa scale canonical) =
        plainText negative whole fraction ∧
      Numeral.toDouble (plainText negative whole fraction) =
        .finite negative mantissa scale canonical := by
  by_cases hzero : mantissa = 0
  · subst hzero
    obtain rfl := Double.scale_eq_zero canonical
    have hplain : IsPlain ['0'] [] := ⟨List.forall_mem_singleton.2 rfl, nofun, .inl rfl, nofun⟩
    exact ⟨['0'], [], hplain, rfl, Numeral.toDouble_plainText hplain negative⟩
  · have hdigits := Decimal.digits_shortest_ne_zero canonical hzero
    have hread := Decimal.toDouble_shortest canonical hzero negative
    have hformat : formatDouble (.finite negative mantissa scale canonical) =
        NumberLayout.sign negative ++
          NumberLayout.plain.writeDecimal (Decimal.shortest mantissa scale canonical) := by
      simp only [formatDouble, NumberLayout.write, hzero, if_false]
    rw [hformat]
    generalize Decimal.shortest mantissa scale canonical = decimal at *
    obtain ⟨whole, fraction, hplaces⟩ := NumberLayout.places_positionalForm
      (NumberLayout.isSignificant hdigits) (NumberLayout.pointPlace decimal)
    refine ⟨whole, fraction, hplaces.isPlain, congrArg _ hplaces.text_eq, ?_⟩
    rw [Numeral.toDouble_plainText hplaces.isPlain, hplaces.value_eq,
      NumberLayout.toDouble_significant hdigits, hread]

/-- The text of a number is read back as this number. -/
theorem toDouble_formatDouble (x : Double) : Numeral.toDouble (formatDouble x) = x := by
  cases x with
  | nan => decide
  | infinite negative => cases negative <;> decide
  | finite negative mantissa scale canonical =>
      obtain ⟨whole, fraction, -, hformat, hread⟩ :=
        formatDouble_finite negative mantissa scale canonical
      rw [hformat, hread]

/-- **The texts of numbers can be read back.** For every pattern of 64 bits, the text of its number
    is read as this number, bit for bit, or as no number where the pattern is none. The text of a
    finite number is a plain decimal without superfluous zeros, with a sign exactly when the sign
    bit is set. -/
theorem formatDouble_ofBits {bits : Nat} (h : bits < 2 ^ 64) :
    Numeral.toDouble (formatDouble (.ofBits bits)) = .ofBits bits ∧
      (Double.ofBits bits = .nan ↔
        Double.exponentBits bits = 2047 ∧ Double.fractionBits bits ≠ 0) ∧
      (Double.ofBits bits ≠ .nan →
        (Numeral.toDouble (formatDouble (.ofBits bits))).toBits = bits) ∧
      (Double.exponentBits bits ≠ 2047 → ∃ whole fraction, IsPlain whole fraction ∧
        formatDouble (.ofBits bits) = plainText (bits.testBit 63) whole fraction) := by
  refine ⟨toDouble_formatDouble _, Double.ofBits_eq_nan_iff bits, fun hnumber => ?_,
    fun hexponent => ?_⟩
  · rw [toDouble_formatDouble]
    exact Double.toBits_ofBits h hnumber
  · obtain ⟨mantissa, scale, canonical, hfinite⟩ := Double.ofBits_eq_finite hexponent
    obtain ⟨whole, fraction, hplain, hformat, -⟩ :=
      formatDouble_finite (bits.testBit 63) mantissa scale canonical
    exact ⟨whole, fraction, hplain, hfinite ▸ hformat⟩

/-- The greatest negative number, which has 324 digits behind the point. -/
theorem formatDouble_ofBits_subnormal :
    2 ^ 63 + 1 < 2 ^ 64 ∧
      (Numeral.toDouble (formatDouble (.ofBits (2 ^ 63 + 1)))).toBits = 2 ^ 63 + 1 ∧
      ∃ whole fraction, IsPlain whole fraction ∧
        formatDouble (.ofBits (2 ^ 63 + 1)) = plainText true whole fraction :=
  have hbits := formatDouble_ofBits (show 2 ^ 63 + 1 < 2 ^ 64 by decide)
  ⟨by decide, hbits.2.2.1 (by decide), hbits.2.2.2 (by decide)⟩

end ScriptFront
