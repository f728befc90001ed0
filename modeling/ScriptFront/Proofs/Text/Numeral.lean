import Mathlib.Data.List.DropRight
import Mathlib.Data.Nat.Digits.Defs
import ScriptFront.Text.Numeral

set_option autoImplicit false

/-! # Reading integers

A run of digits has its positional value, and a lenient reader takes it as it stands. Whether an
integer is too large for the language is decided by the number of its digits without leading zeros
if there are many, and by its value otherwise; for runs of digits of any length this agrees with
their positional value (`readInteger_eq`). What is asked of the machine has so few characters that
it refuses none for its length (`readInteger_limit`), whatever text is read. -/

namespace ScriptFront

namespace Numeral

/-! ## Positional values -/

/-- The positional value of a run of digits: each digit times a power of ten, by its place counted
    from the end. -/
def positional (digits : Text) : Nat :=
  Nat.ofDigits 10 (digits.reverse.map fun c => c.toNat - '0'.toNat)

/-- The first digit has the highest place, as many as there are digits behind it. -/
theorem value_cons (c : Char) (digits : Text) :
    value (c :: digits) = 10 ^ digits.length * (c.toNat - '0'.toNat) + value digits := by
  rw [value, Nat.ofDigitChars_cons, Nat.ofDigitChars_eq_ofDigitChars_zero, Nat.mul_zero,
    Nat.zero_add]
  rfl

/-- Reading digit by digit from the front gives the positional value. -/
theorem value_eq_positional (digits : Text) : value digits = positional digits := by
  induction digits with
  | nil => rfl
  | cons c digits ih =>
      have hpositional : positional (c :: digits) =
          positional digits + 10 ^ digits.length * (c.toNat - '0'.toNat) := by
        rw [positional, List.reverse_cons, List.map_append, Nat.ofDigits_append, List.length_map,
          List.length_reverse, List.map_singleton, Nat.ofDigits_singleton]
        rfl
      rw [value_cons, hpositional, ih, Nat.add_comm]

theorem pow_le_value_cons (digits : Text) {c : Char} (h : 48 < c.toNat) :
    10 ^ digits.length ≤ value (c :: digits) := by
  have hzero : '0'.toNat = 48 := rfl
  rw [value_cons]
  exact Nat.le_add_right_of_le (Nat.le_mul_of_pos_right _ (by omega))

theorem value_lt_pow {digits : Text} (h : ∀ c ∈ digits, isDigit c) :
    value digits < 10 ^ digits.length := by
  induction digits with
  | nil => exact Nat.one_pos
  | cons c digits ih =>
      obtain ⟨hc, hdigits⟩ := List.forall_mem_cons.1 h
      have hnine : c.toNat - '0'.toNat ≤ 9 := Nat.sub_le_of_le_add (isDigit_iff.1 hc).2
      have hhead := Nat.mul_le_mul_left (10 ^ digits.length) hnine
      have hrest := ih hdigits
      rw [value_cons, List.length_cons, Nat.pow_succ]
      omega

/-! ## Significant digits -/

/-- Leading zeros do not count. -/
theorem value_dropWhile_zero (digits : Text) :
    value (digits.dropWhile (· = '0')) = value digits := by
  induction digits with
  | nil => rfl
  | cons c digits ih =>
      by_cases hc : c = '0'
      · subst hc
        rw [List.dropWhile_cons_of_pos (by simp), ih, value_cons]
        simp
      · rw [List.dropWhile_cons_of_neg (by simpa using hc)]

theorem significantDigits_ne_nil (text : Text) : significantDigits text ≠ [] := by
  unfold significantDigits
  split
  · simp
  · assumption

theorem value_significantDigits (text : Text) : value (significantDigits text) = value text := by
  rw [← value_dropWhile_zero text]
  unfold significantDigits
  split
  · rw [‹text.dropWhile (· = '0') = []›]
    rfl
  · rfl

theorem isDigit_of_mem_significantDigits {text : Text} (h : ∀ c ∈ text, isDigit c) {c : Char}
    (hc : c ∈ significantDigits text) : isDigit c := by
  unfold significantDigits at hc
  split at hc
  · obtain rfl := List.mem_singleton.1 hc
    decide
  · exact h c ((List.dropWhile_sublist _).subset hc)

/-- What has more than one significant digit does not begin with a zero. -/
theorem pow_le_value_of_lt_length {text : Text} (h : ∀ c ∈ text, isDigit c) {n : Nat} (hn : 1 ≤ n)
    (hlength : n < (significantDigits text).length) : 10 ^ n ≤ value text := by
  unfold significantDigits at hlength
  split at hlength
  · simp only [List.length_cons, List.length_nil] at hlength
    omega
  cases hdigits : text.dropWhile (· = '0') with
  | nil => exact absurd hdigits ‹_›
  | cons c others =>
      have hmem : c ∈ text := by
        have hsub : text.dropWhile (· = '0') ⊆ text := (List.dropWhile_sublist _).subset
        exact hsub (hdigits ▸ List.mem_cons_self)
      have hc : c ≠ '0' := by
        have hhead := List.head?_dropWhile_not (· = '0') text
        rw [hdigits] at hhead
        simpa using hhead
      have hpos : 48 < c.toNat := by
        have hdigit := isDigit_iff.1 (h c hmem)
        have hne : c.toNat ≠ '0'.toNat := fun heq => hc (Char.toNat_inj.1 heq)
        have hzero : '0'.toNat = 48 := rfl
        omega
      rw [hdigits, List.length_cons] at hlength
      have hpower := Nat.pow_le_pow_right (show 0 < 10 by decide) (Nat.le_of_lt_succ hlength)
      rw [← value_dropWhile_zero, hdigits]
      exact Nat.le_trans hpower (pow_le_value_cons others hpos)

end Numeral

/-! ## Lenient reading -/

namespace Lenient

variable {alphabet : Alphabet} {text : Text}

/-- Nothing is taken away if nothing is taken away at either end. -/
theorem strip_eq_self_iff (blank : Char → Bool) (text : Text) :
    strip blank text = text ↔ text.dropWhile blank = text ∧ text.rdropWhile blank = text := by
  have hstrip : strip blank text = (text.dropWhile blank).rdropWhile blank := rfl
  constructor
  · intro h
    rw [hstrip] at h
    have hshorter := (List.rdropWhile_prefix blank (l := text.dropWhile blank)).length_le
    rw [h] at hshorter
    have hfront := (List.dropWhile_suffix blank).eq_of_length_le hshorter
    rw [hfront] at h
    exact ⟨hfront, h⟩
  · rintro ⟨hfront, hback⟩
    rw [hstrip, hfront, hback]

/-- With fewer blanks, no more is taken away. -/
theorem strip_eq_self_of_imp {blank blank' : Char → Bool}
    (himp : ∀ c ∈ text, blank c → blank' c) (h : strip blank' text = text) :
    strip blank text = text := by
  rw [strip_eq_self_iff, List.dropWhile_eq_self_iff, List.rdropWhile_eq_self_iff] at h ⊢
  refine ⟨fun hlength hblank => ?_, fun hne hblank => ?_⟩
  · exact h.1 hlength (himp _ (List.getElem_mem hlength) hblank)
  · exact h.2 hne (himp _ (List.getLast_mem hne) hblank)

theorem strip_of_not_blank {blank : Char → Bool} (h : ∀ c ∈ text, ¬ blank c) :
    strip blank text = text := by
  have hnone : strip (fun _ => false) text = text := by simp [strip_eq_self_iff]
  exact strip_eq_self_of_imp (fun c hc hblank => absurd hblank (h c hc)) hnone

theorem unseparated?_of_not_mem (previous : Char) (h : '_' ∉ text) :
    unseparated? previous text = some text := by
  induction text generalizing previous with
  | nil => rfl
  | cons c rest ih =>
      rw [List.mem_cons, not_or] at h
      rw [unseparated?, if_neg (Ne.symm h.1), ih c h.2]
      rfl

theorem map_toAscii (h : ∀ c ∈ text, isAscii c) : text.map alphabet.toAscii = text := by
  have hsame : ∀ c ∈ text, alphabet.toAscii c = id c := by
    intro c hc
    rw [Alphabet.toAscii, if_pos (h c hc)]
    rfl
  rw [List.map_congr_left hsame, List.map_id]

/-- In ASCII, without blanks around it and without underscores, a text is read as it stands. -/
theorem normal?_of_plain (hascii : ∀ c ∈ text, isAscii c) (hstrip : strip isSpace text = text)
    (hseparator : '_' ∉ text) : normal? alphabet text = some text := by
  rw [normal?, map_toAscii hascii, hstrip, unseparated?_of_not_mem ' ' hseparator]

theorem length_unseparated?_le {previous : Char} {rest : Text}
    (h : unseparated? previous text = some rest) : rest.length ≤ text.length := by
  induction text generalizing previous rest with
  | nil =>
      obtain rfl := Option.some.inj h
      exact Nat.le_refl _
  | cons c text ih =>
      unfold unseparated? at h
      split at h
      · split at h
        · exact Nat.le_succ_of_le (ih h)
        · cases h
      · obtain ⟨others, hothers, rfl⟩ := Option.map_eq_some_iff.1 h
        exact Nat.succ_le_succ (ih hothers)

/-- Reading leniently adds no characters. -/
theorem length_normal?_le {normal : Text} (h : normal? alphabet text = some normal) :
    normal.length ≤ text.length := by
  have hmap : (text.map alphabet.toAscii).length = text.length := List.length_map _
  have hfront := (List.dropWhile_suffix isSpace (l := text.map alphabet.toAscii)).length_le
  have hback := (List.rdropWhile_prefix isSpace
    (l := (text.map alphabet.toAscii).dropWhile isSpace)).length_le
  exact (length_unseparated?_le h).trans (hback.trans (hfront.trans hmap.le))

/-- What is read as an integer has, without a sign, some digits and not too many. -/
theorem integer?_eq_some_iff {limit : Nat} {n : Int} :
    integer? alphabet limit text = some n ↔ ∃ normal, normal? alphabet text = some normal ∧
      (Numeral.splitSign normal).2 ≠ [] ∧ (∀ c ∈ (Numeral.splitSign normal).2, Numeral.isDigit c) ∧
      (Numeral.splitSign normal).2.length ≤ limit ∧
      n = if (Numeral.splitSign normal).1 then -(Numeral.value (Numeral.splitSign normal).2 : Int)
        else Numeral.value (Numeral.splitSign normal).2 := by
  unfold integer?
  cases normal? alphabet text with
  | none => simp
  | some normal =>
      have hdigits := List.all_eq_true (l := (Numeral.splitSign normal).2) (p := Numeral.isDigit)
      simp only [Option.bind_eq_bind, Option.bind_some, Option.ite_none_right_eq_some, hdigits,
        Option.some.injEq, exists_eq_left', and_assoc]
      simp only [eq_comm (b := n)]

/-- A sign is no digit. -/
theorem splitSign_of_digits (h : ∀ c ∈ text, Numeral.isDigit c) :
    Numeral.splitSign text = (false, text) := by
  cases text with
  | nil => rfl
  | cons c rest =>
      have hc := h c List.mem_cons_self
      have hminus : c ≠ '-' := by rintro rfl; exact absurd hc (by decide)
      have hplus : c ≠ '+' := by rintro rfl; exact absurd hc (by decide)
      rw [Numeral.splitSign, if_neg hminus, if_neg hplus]

/-- A minus sign takes a character. -/
theorem length_splitSign_le (text : Text) : (Numeral.splitSign text).2.length +
    (Numeral.splitSign text).1.toNat ≤ text.length := by
  cases text with
  | nil => exact Nat.le_refl _
  | cons c rest =>
      by_cases hminus : c = '-'
      · rw [Numeral.splitSign, if_pos hminus]
        exact Nat.le_refl _
      by_cases hplus : c = '+'
      · rw [Numeral.splitSign, if_neg hminus, if_pos hplus]
        exact Nat.le_succ _
      · rw [Numeral.splitSign, if_neg hminus, if_neg hplus]
        exact Nat.le_refl _

/-- A run of digits is read as its value, if there are any and not too many. -/
theorem integer?_of_digits (h : ∀ c ∈ text, Numeral.isDigit c) (hne : text ≠ []) {limit : Nat}
    (hlimit : text.length ≤ limit) :
    integer? alphabet limit text = some (Numeral.value text : Int) := by
  have hascii : ∀ c ∈ text, isAscii c := fun c hc =>
    decide_eq_true (Nat.lt_of_le_of_lt (Numeral.isDigit_iff.1 (h c hc)).2 (by decide))
  have hblank : ∀ c ∈ text, ¬ isSpace c := by
    intro c hc
    have hbounds := Numeral.isDigit_iff.1 (h c hc)
    simp [isSpace, ← Char.toNat_inj]
    omega
  have hseparator : '_' ∉ text := fun hmem => absurd (h '_' hmem) (by decide)
  have hnormal : normal? alphabet text = some text :=
    normal?_of_plain hascii (strip_of_not_blank hblank) hseparator
  refine integer?_eq_some_iff.2 ⟨text, hnormal, ?_⟩
  rw [splitSign_of_digits h]
  exact ⟨hne, h, hlimit, rfl⟩

/-- A limit that the length of the text does not exceed makes no difference. -/
theorem integer?_limit {limit limit' : Nat} (hlimit : text.length ≤ limit)
    (hlimit' : text.length ≤ limit') :
    integer? alphabet limit text = integer? alphabet limit' text := by
  refine Option.ext fun n => ?_
  rw [integer?_eq_some_iff, integer?_eq_some_iff]
  refine exists_congr fun normal => and_congr_right fun hnormal => ?_
  have hsign := length_splitSign_le normal
  have hlength := length_normal?_le hnormal
  have hle : (Numeral.splitSign normal).2.length ≤ limit := by omega
  have hle' : (Numeral.splitSign normal).2.length ≤ limit' := by omega
  simp only [hle, hle']

/-- An integer has no more digits than its text has characters, and a negative one has fewer. -/
theorem bounds_of_integer? {limit : Nat} {n : Int} (h : integer? alphabet limit text = some n) :
    -(10 ^ (text.length - 1) : Nat) < n ∧ n < (10 ^ text.length : Nat) := by
  obtain ⟨normal, hnormal, -, hdigits, -, rfl⟩ := integer?_eq_some_iff.1 h
  have hvalue := Numeral.value_lt_pow hdigits
  have hsign := length_splitSign_le normal
  have hlength := length_normal?_le hnormal
  cases hnegative : (Numeral.splitSign normal).1 with
  | true =>
      rw [hnegative, Bool.toNat_true] at hsign
      have hpower := Nat.pow_le_pow_right (show 0 < 10 by decide)
        (show (Numeral.splitSign normal).2.length ≤ text.length - 1 by omega)
      have hpositive : 0 < 10 ^ text.length := Nat.pow_pos (by decide)
      simp only [if_true]
      omega
  | false =>
      have hpower := Nat.pow_le_pow_right (show 0 < 10 by decide)
        (show (Numeral.splitSign normal).2.length ≤ text.length by omega)
      have hpositive : 0 < 10 ^ (text.length - 1) := Nat.pow_pos (by decide)
      simp only [Bool.false_eq_true, if_false]
      omega

end Lenient

/-! ## The integers of the language -/

theorem length_ofInt_intMax : (Numeral.ofInt intMax).length = 10 := by decide

/-- If the machine converts runs of ten digits, the shortcut reads exactly the values in range, and
    no conversion is refused. -/
theorem readInteger_eq {limit : Nat} {text : Text} (h : ∀ c ∈ text, Numeral.isDigit c)
    (hlimit : 10 ≤ limit) : readInteger limit text =
      if intMax < (Numeral.value text : Int) then .error .outOfRange
      else .ok (Numeral.value text) := by
  simp only [readInteger, length_ofInt_intMax, gt_iff_lt]
  by_cases hmany : 10 < (Numeral.significantDigits text).length
  · have hvalue := Numeral.pow_le_value_of_lt_length h (by decide) hmany
    rw [if_pos hmany, if_pos (by unfold intMax; omega)]
  · have hread := @Lenient.integer?_of_digits .unicode _
      (fun c hc => Numeral.isDigit_of_mem_significantDigits h hc)
      (Numeral.significantDigits_ne_nil text) limit (by omega)
    rw [if_neg hmany, hread, Numeral.value_significantDigits]

/-- Whatever the text is, no conversion is refused for its length. -/
theorem readInteger_limit {limit limit' : Nat} (hlimit : 10 ≤ limit) (hlimit' : 10 ≤ limit')
    (text : Text) : readInteger limit text = readInteger limit' text := by
  simp only [readInteger, length_ofInt_intMax, gt_iff_lt]
  split
  · rfl
  · have hlength : (Numeral.significantDigits text).length ≤ 10 := by omega
    rw [Lenient.integer?_limit (hlength.trans hlimit) (hlength.trans hlimit')]

/-- Whatever is read is in the range of the language. -/
theorem inRange_of_readInteger {limit : Nat} {text : Text} {n : Int}
    (h : readInteger limit text = .ok n) : intMin ≤ n ∧ n ≤ intMax := by
  simp only [readInteger, length_ofInt_intMax, gt_iff_lt] at h
  split at h
  · cases h
  split at h
  · cases h
  split at h
  · cases h
  · obtain rfl := Except.ok.inj h
    have hlower := (Lenient.bounds_of_integer? ‹_›).1
    have hpower := Nat.pow_le_pow_right (show 0 < 10 by decide)
      (show (Numeral.significantDigits text).length - 1 ≤ 9 by omega)
    unfold intMin
    omega

end ScriptFront
