import Mathlib.Data.List.Forall2
import ScriptFront.Proofs.Number.Plain

set_option autoImplicit false

/-! # Numerals

The texts that are read as numbers: an optional sign, and then either digits with at most one point
and an optional exponent, or a word for infinity (`Numeral.IsNumeral`). Reading takes such a text
apart from the left. Each part ends where the next one begins, because no digit is a point, no point
the letter of an exponent, and neither a digit nor a point begins a word; so it succeeds on these
texts and on no others (`Numeral.toDouble_ne_nan_iff`). Every character of a numeral is of ASCII and
neither a blank nor an underscore (`Numeral.IsNumeral.isPlainChar`). -/

namespace ScriptFront

namespace Numeral

/-! ## The form of a numeral -/

/-- A text of nothing but digits. -/
def IsDigits (text : Text) : Prop := ∀ c ∈ text, isDigit c

/-- An optional sign. -/
inductive IsSign : Text → Prop
  | absent : IsSign []
  | plus : IsSign ['+']
  | minus : IsSign ['-']

/-- An optional exponent: a letter, an optional sign and at least one digit. -/
inductive IsExponent : Text → Prop
  | absent : IsExponent []
  | present {letter : Char} {sign digits : Text} (hletter : letter = 'e' ∨ letter = 'E')
      (hsign : IsSign sign) (hdigits : IsDigits digits) (hne : digits ≠ []) :
      IsExponent (letter :: (sign ++ digits))

/-- An unsigned decimal: at least one digit, at most one point, and an optional exponent. -/
inductive IsDecimal : Text → Prop
  | whole {digits exponent : Text} (hdigits : IsDigits digits) (hne : digits ≠ [])
      (hexponent : IsExponent exponent) : IsDecimal (digits ++ exponent)
  | pointed {whole fraction exponent : Text} (hwhole : IsDigits whole)
      (hfraction : IsDigits fraction) (hne : whole ++ fraction ≠ [])
      (hexponent : IsExponent exponent) : IsDecimal (whole ++ '.' :: (fraction ++ exponent))

/-- The letters of a word, each small or capital. -/
def InAnyCase (word text : Text) : Prop :=
  List.Forall₂ (fun c letter => c = letter ∨ c = letter.toUpper) text word

/-- A text that stands for a number. -/
inductive IsNumeral : Text → Prop
  | decimal {sign body : Text} (hsign : IsSign sign) (hbody : IsDecimal body) :
      IsNumeral (sign ++ body)
  | infinity {sign body : Text} (hsign : IsSign sign)
      (hbody : InAnyCase "inf".toList body ∨ InAnyCase "infinity".toList body) :
      IsNumeral (sign ++ body)

/-! ## Signs -/

theorem splitSign_cases (text : Text) :
    ∃ sign, IsSign sign ∧ text = sign ++ (splitSign text).2 := by
  cases text with
  | nil => exact ⟨[], .absent, rfl⟩
  | cons c rest =>
      by_cases hminus : c = '-'
      · exact ⟨['-'], .minus, by simp [splitSign, hminus]⟩
      · by_cases hplus : c = '+'
        · exact ⟨['+'], .plus, by simp [splitSign, hplus]⟩
        · exact ⟨[], .absent, by simp [splitSign, hminus, hplus]⟩

/-- The text goes on with something that is no sign. -/
def Unsigned (text : Text) : Prop := text.head? ≠ some '+' ∧ text.head? ≠ some '-'

theorem splitSign_append {sign body : Text} (hsign : IsSign sign) (hbody : Unsigned body) :
    (splitSign (sign ++ body)).2 = body := by
  cases hsign with
  | plus => rfl
  | minus => rfl
  | absent =>
      cases body with
      | nil => rfl
      | cons c rest =>
          have hplus : c ≠ '+' := fun h => hbody.1 (congrArg some h)
          have hminus : c ≠ '-' := fun h => hbody.2 (congrArg some h)
          simp [splitSign, hplus, hminus]

theorem unsigned_cons {c : Char} (rest : Text) (hplus : c ≠ '+') (hminus : c ≠ '-') :
    Unsigned (c :: rest) := by
  simp [Unsigned, hplus, hminus]

/-- Neither a digit nor a point is a sign. -/
theorem unsigned_cons_of_isDigit {c : Char} (rest : Text) (hc : isDigit c ∨ c = '.') :
    Unsigned (c :: rest) := by
  refine unsigned_cons rest ?_ ?_
  · rintro rfl
    exact absurd hc (by decide)
  · rintro rfl
    exact absurd hc (by decide)

theorem unsigned_of_digits {digits : Text} (hdigits : IsDigits digits) (hne : digits ≠ []) :
    Unsigned digits := by
  obtain ⟨c, others, rfl⟩ := List.exists_cons_of_ne_nil hne
  exact unsigned_cons_of_isDigit others (.inl (hdigits c List.mem_cons_self))

/-! ## Exponents -/

theorem exponent?_cons_isSome_iff (c : Char) (rest : Text) :
    (exponent? (c :: rest)).isSome ↔
      (c = 'e' ∨ c = 'E') ∧ (splitSign rest).2 ≠ [] ∧ IsDigits (splitSign rest).2 := by
  unfold exponent? IsDigits
  simp only
  split
  · split <;> simp_all
  · simp_all

theorem exponent?_isSome_iff (text : Text) : (exponent? text).isSome ↔ IsExponent text := by
  constructor
  · intro h
    cases text with
    | nil => exact .absent
    | cons c rest =>
        obtain ⟨sign, hsign, hrest⟩ := splitSign_cases rest
        obtain ⟨hletter, hne, hdigits⟩ := (exponent?_cons_isSome_iff c rest).1 h
        rw [hrest]
        exact .present hletter hsign hdigits hne
  · rintro (_ | ⟨hletter, hsign, hdigits, hne⟩)
    · rfl
    · rw [exponent?_cons_isSome_iff, splitSign_append hsign (unsigned_of_digits hdigits hne)]
      exact ⟨hletter, hne, hdigits⟩

/-- An exponent begins with a letter, so neither digits nor a point run into it. -/
theorem IsExponent.head {text : Text} (h : IsExponent text) (c : Char) (rest : Text)
    (hcons : text = c :: rest) : isDigit c = false ∧ c ≠ '.' := by
  cases h with
  | absent => exact absurd hcons (by simp)
  | present hletter =>
      obtain ⟨rfl, -⟩ := List.cons.inj hcons
      rcases hletter with rfl | rfl <;> decide

theorem IsExponent.splitFraction {text : Text} (h : IsExponent text) :
    splitFraction text = ([], text) := by
  cases text with
  | nil => rfl
  | cons c rest => rw [Numeral.splitFraction, if_neg (h.head c rest rfl).2]

/-! ## Decimals -/

theorem span_isDigit (text : Text) :
    IsDigits (text.span isDigit).1 ∧ text = (text.span isDigit).1 ++ (text.span isDigit).2 := by
  rw [List.span_eq_takeWhile_dropWhile, List.takeWhile_append_dropWhile]
  exact ⟨fun c hc => List.mem_takeWhile_imp hc, rfl⟩

theorem decimal?_isSome_iff_parts (text : Text) :
    (decimal? text).isSome ↔
      (text.span isDigit).1 ++ (splitFraction (text.span isDigit).2).1 ≠ [] ∧
        IsExponent (splitFraction (text.span isDigit).2).2 := by
  rw [← exponent?_isSome_iff, decimal?]
  simp only
  split <;> simp_all

theorem decimal?_isSome_iff (text : Text) : (decimal? text).isSome ↔ IsDecimal text := by
  rw [decimal?_isSome_iff_parts]
  constructor
  · obtain ⟨hwhole, htext⟩ := span_isDigit text
    generalize (text.span isDigit).1 = whole at *
    generalize (text.span isDigit).2 = rest at *
    rintro ⟨hne, hexponent⟩
    subst htext
    cases rest with
    | nil =>
        rw [splitFraction, List.append_nil] at hne
        exact .whole hwhole hne .absent
    | cons c rest =>
        by_cases hpoint : c = '.'
        · obtain ⟨hfraction, hrest⟩ := span_isDigit rest
          rw [splitFraction, if_pos hpoint] at hne hexponent
          rw [hpoint, hrest]
          exact .pointed hwhole hfraction hne hexponent
        · rw [splitFraction, if_neg hpoint] at hne hexponent
          rw [List.append_nil] at hne
          exact .whole hwhole hne hexponent
  · intro h
    cases h with
    | whole hdigits hne hexponent =>
        rw [span_digits hdigits fun c others hcons => (hexponent.head c others hcons).1,
          hexponent.splitFraction, List.append_nil]
        exact ⟨hne, hexponent⟩
    | @pointed whole fraction exponent hwhole hfraction hne hexponent =>
        have hpoint : ∀ c others, '.' :: (fraction ++ exponent) = c :: others →
            isDigit c = false := by
          intro c others hcons
          obtain ⟨rfl, -⟩ := List.cons.inj hcons
          decide
        rw [span_digits hwhole hpoint, splitFraction, if_pos rfl,
          span_digits hfraction fun c others hcons => (hexponent.head c others hcons).1]
        exact ⟨hne, hexponent⟩

/-- A decimal begins with a digit or with its point. -/
theorem IsDecimal.head {text : Text} (h : IsDecimal text) :
    ∃ c rest, text = c :: rest ∧ (isDigit c ∨ c = '.') := by
  cases h with
  | whole hdigits hne =>
      obtain ⟨c, others, rfl⟩ := List.exists_cons_of_ne_nil hne
      exact ⟨c, _, rfl, .inl (hdigits c List.mem_cons_self)⟩
  | @pointed whole fraction exponent hwhole =>
      cases whole with
      | nil => exact ⟨'.', _, rfl, .inr rfl⟩
      | cons c others => exact ⟨c, _, rfl, .inl (hwhole c List.mem_cons_self)⟩

theorem IsDecimal.unsigned {text : Text} (h : IsDecimal text) : Unsigned text := by
  obtain ⟨c, rest, rfl, hc⟩ := h.head
  exact unsigned_cons_of_isDigit rest hc

/-! ## Words -/

theorem toNat_toLower (c : Char) :
    c.toLower.toNat = if 65 ≤ c.toNat ∧ c.toNat ≤ 90 then c.toNat + 32 else c.toNat := by
  have hcapital : c.val ≥ 'A'.val ∧ c.val ≤ 'Z'.val ↔ 65 ≤ c.toNat ∧ c.toNat ≤ 90 := Iff.rfl
  unfold Char.toLower
  by_cases h : c.val ≥ 'A'.val ∧ c.val ≤ 'Z'.val
  · have hbounds := hcapital.1 h
    rw [dif_pos h, if_pos hbounds]
    have hadd : (c.val + 32).toNat = (c.toNat + 32) % 2 ^ 32 := UInt32.toNat_add ..
    show (c.val + 32).toNat = c.toNat + 32
    omega
  · rw [dif_neg h, if_neg (mt hcapital.2 h)]

theorem isLower_iff {c : Char} : c.isLower ↔ 97 ≤ c.toNat ∧ c.toNat ≤ 122 := by
  have hbounds : c.isLower = (decide (97 ≤ c.toNat) && decide (c.toNat ≤ 122)) := rfl
  rw [hbounds, Bool.and_eq_true, decide_eq_true_eq, decide_eq_true_eq]

theorem toNat_toUpper {c : Char} (h : c.isLower) : c.toUpper.toNat = c.toNat - 32 := by
  have hbounds := isLower_iff.1 h
  have hsmall : 'a'.val ≤ c.val ∧ c.val ≤ 'z'.val := hbounds
  have hadd : (c.val + 4294967264).toNat = (c.toNat + 4294967264) % 2 ^ 32 := UInt32.toNat_add ..
  unfold Char.toUpper
  rw [dif_pos hsmall]
  show (c.val + 4294967264).toNat = c.toNat - 32
  omega

/-- A character becomes a small letter if it is this letter or its capital. -/
theorem toLower_eq_iff {c letter : Char} (h : letter.isLower) :
    c.toLower = letter ↔ c = letter ∨ c = letter.toUpper := by
  have hbounds := isLower_iff.1 h
  rw [← Char.toNat_inj, ← Char.toNat_inj, ← Char.toNat_inj, toNat_toLower, toNat_toUpper h]
  split <;> omega

theorem map_toLower_eq_iff {word text : Text} (h : word.all Char.isLower) :
    text.map Char.toLower = word ↔ InAnyCase word text := by
  induction word generalizing text with
  | nil => rw [InAnyCase, List.forall₂_nil_right_iff, List.map_eq_nil_iff]
  | cons letter word ih =>
      rw [List.all_cons, Bool.and_eq_true] at h
      obtain ⟨hletter, hword⟩ := h
      cases text with
      | nil => exact iff_of_false nofun nofun
      | cons c text =>
          rw [List.map_cons, List.cons.injEq, toLower_eq_iff hletter, ih hword, InAnyCase,
            InAnyCase, List.forall₂_cons]

theorem isInfinity_iff (text : Text) :
    isInfinity text ↔ InAnyCase "inf".toList text ∨ InAnyCase "infinity".toList text := by
  rw [← map_toLower_eq_iff (by decide), ← map_toLower_eq_iff (by decide), isInfinity]
  simp only [Bool.or_eq_true, decide_eq_true_eq]

theorem InAnyCase.unsigned {word text : Text} (h : InAnyCase ('i' :: word) text) :
    Unsigned text := by
  cases h with
  | cons hhead =>
      rcases hhead with rfl | rfl
      · exact unsigned_cons _ (by decide) (by decide)
      · exact unsigned_cons _ (by decide) (by decide)

/-! ## Numbers -/

theorem ofParts_ne_nan (negative : Bool) (mantissa scale : Nat) :
    Double.ofParts negative mantissa scale ≠ .nan := by
  unfold Double.ofParts
  split <;> exact Double.noConfusion

theorem ofQuotient_ne_nan (negative : Bool) (num den : Nat) :
    Double.ofQuotient negative num den ≠ .nan := by
  unfold Double.ofQuotient
  simp only
  split <;> exact ofParts_ne_nan _ _ _

/-- A decimal is always read as some number. -/
theorem toDouble_decimal_ne_nan (negative : Bool) (decimal : Decimal) :
    decimal.toDouble negative ≠ .nan := by
  unfold Decimal.toDouble
  simp only
  split
  · nofun
  · split
    · nofun
    · split
      · nofun
      · exact ofQuotient_ne_nan _ _ _

/-- Reading succeeds on what stands behind the sign, or not at all. -/
theorem toDouble_ne_nan_iff_body (text : Text) :
    toDouble text ≠ .nan ↔ isInfinity (splitSign text).2 ∨ IsDecimal (splitSign text).2 := by
  rw [← decimal?_isSome_iff, toDouble]
  simp only
  by_cases hinfinity : isInfinity (splitSign text).2
  · rw [if_pos hinfinity]
    exact iff_of_true nofun (.inl hinfinity)
  · rw [if_neg hinfinity, or_iff_right hinfinity]
    cases decimal? (splitSign text).2 with
    | none => exact iff_of_false (fun h => h rfl) nofun
    | some decimal => exact iff_of_true (toDouble_decimal_ne_nan _ _) rfl

theorem toDouble_ne_nan_iff (text : Text) : toDouble text ≠ .nan ↔ IsNumeral text := by
  rw [toDouble_ne_nan_iff_body, isInfinity_iff]
  constructor
  · intro h
    obtain ⟨sign, hsign, htext⟩ := splitSign_cases text
    rw [htext]
    exact h.elim (.infinity hsign) (.decimal hsign)
  · intro h
    cases h with
    | decimal hsign hbody =>
        rw [splitSign_append hsign hbody.unsigned]
        exact .inr hbody
    | infinity hsign hbody =>
        rw [splitSign_append hsign (hbody.elim (·.unsigned) (·.unsigned))]
        exact .inl hbody

-- a point without digits, an exponent without digits or without a mantissa, a sign alone
example : [".", "1e+", ".e1", "+", "+-1", "nan", " 1", "1_0", "0x10", "١", ""].all
    (fun text => toDouble text.toList = .nan) := by
  decide +kernel

/-! ## The characters of a numeral -/

/-- A sign, a point, a digit or a letter lies here; blanks, the underscore and all that is not ASCII
    do not. -/
def IsPlainChar (c : Char) : Prop := 43 ≤ c.toNat ∧ c.toNat ≤ 122 ∧ c.toNat ≠ 95

theorem IsDigits.isPlainChar {text : Text} (h : IsDigits text) : ∀ c ∈ text, IsPlainChar c := by
  intro c hc
  have hdigit := isDigit_iff.1 (h c hc)
  unfold IsPlainChar
  omega

theorem IsSign.isPlainChar {text : Text} (h : IsSign text) : ∀ c ∈ text, IsPlainChar c := by
  cases h <;> simp [IsPlainChar]

theorem IsExponent.isPlainChar {text : Text} (h : IsExponent text) :
    ∀ c ∈ text, IsPlainChar c := by
  cases h with
  | absent => nofun
  | present hletter hsign hdigits =>
      rw [List.forall_mem_cons, List.forall_mem_append]
      refine ⟨?_, hsign.isPlainChar, hdigits.isPlainChar⟩
      rcases hletter with rfl | rfl <;> simp [IsPlainChar]

theorem IsDecimal.isPlainChar {text : Text} (h : IsDecimal text) : ∀ c ∈ text, IsPlainChar c := by
  cases h with
  | whole hdigits _ hexponent =>
      rw [List.forall_mem_append]
      exact ⟨hdigits.isPlainChar, hexponent.isPlainChar⟩
  | pointed hwhole hfraction _ hexponent =>
      rw [List.forall_mem_append, List.forall_mem_cons, List.forall_mem_append]
      refine ⟨hwhole.isPlainChar, ?_, hfraction.isPlainChar, hexponent.isPlainChar⟩
      simp [IsPlainChar]

theorem InAnyCase.isPlainChar {word text : Text} (h : InAnyCase word text)
    (hword : word.all Char.isLower) : ∀ c ∈ text, IsPlainChar c := by
  rw [← map_toLower_eq_iff hword] at h
  intro c hc
  have hlower := List.all_eq_true.1 hword c.toLower (h ▸ List.mem_map_of_mem hc)
  have hletter := isLower_iff.1 hlower
  rw [toNat_toLower] at hletter
  unfold IsPlainChar
  split at hletter <;> omega

theorem IsNumeral.isPlainChar {text : Text} (h : IsNumeral text) : ∀ c ∈ text, IsPlainChar c := by
  cases h with
  | decimal hsign hbody =>
      rw [List.forall_mem_append]
      exact ⟨hsign.isPlainChar, hbody.isPlainChar⟩
  | infinity hsign hbody =>
      rw [List.forall_mem_append]
      refine ⟨hsign.isPlainChar, ?_⟩
      rcases hbody with hbody | hbody
      · exact hbody.isPlainChar (by decide)
      · exact hbody.isPlainChar (by decide)

end Numeral

end ScriptFront
