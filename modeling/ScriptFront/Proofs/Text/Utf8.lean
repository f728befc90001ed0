import ScriptFront.Span

set_option autoImplicit false

/-! # Decoding what was encoded

The decoder gives back every text from its bytes. So a span that covers a piece of a source from
the first of its characters to the last is cut out of the source as that piece. -/

namespace ScriptFront

namespace Utf8

/-! ## One character -/

/-- What a lead byte of two bytes starts. -/
theorem start_two : ∀ n < 32, 2 ≤ n → start (n + 0xC0) = (some ⟨1, n, 0x80, 0xBF⟩, []) := by
  decide

/-- What a lead byte of three bytes starts: no overlong form and no surrogate. -/
theorem start_three : ∀ n < 16, start (n + 0xE0) =
    (some ⟨2, n, if n = 0 then 0xA0 else 0x80, if n = 0xD then 0x9F else 0xBF⟩, []) := by
  decide

/-- What a lead byte of four bytes starts: no overlong form and nothing beyond the last
    character. -/
theorem start_four : ∀ n < 5, start (n + 0xF0) =
    (some ⟨3, n, if n = 0 then 0x90 else 0x80, if n = 4 then 0x8F else 0xBF⟩, []) := by
  decide

theorem run_cons {n : Nat} (hn : n < 256) (state : State) (bytes : List UInt8) :
    run state (UInt8.ofNat n :: bytes) = (step state n).2 ++ run (step state n).1 bytes := by
  have hbyte : (UInt8.ofNat n).toNat = n := by rw [UInt8.toNat_ofNat']; omega
  rw [run, hbyte]

theorem run_lead {n : Nat} (hn : n < 256) {pending : Pending}
    (hstart : start n = (some pending, [])) (bytes : List UInt8) :
    run none (UInt8.ofNat n :: bytes) = run (some pending) bytes := by
  rw [run_cons hn, step, hstart]
  rfl

/-- A continuation byte in range adds its six bits. -/
theorem run_continued {missing bits low high n : Nat} (hlow : low ≤ n + 0x80)
    (hhigh : n + 0x80 ≤ high) (hn : n < 64) (bytes : List UInt8) :
    run (some ⟨missing + 2, bits, low, high⟩) (UInt8.ofNat (n + 0x80) :: bytes) =
      run (some ⟨missing + 1, bits * 0x40 + n, 0x80, 0xBF⟩) bytes := by
  rw [run_cons (by omega), step, if_pos ⟨hlow, hhigh⟩, if_neg (by simp), Nat.add_sub_cancel]
  rfl

/-- The last continuation byte completes the character. -/
theorem run_completed {bits low high n : Nat} (hlow : low ≤ n + 0x80) (hhigh : n + 0x80 ≤ high)
    (hn : n < 64) (bytes : List UInt8) :
    run (some ⟨1, bits, low, high⟩) (UInt8.ofNat (n + 0x80) :: bytes) =
      some (Char.ofNat (bits * 0x40 + n)) :: run none bytes := by
  rw [run_cons (by omega), step, if_pos ⟨hlow, hhigh⟩, if_pos (Nat.le_refl 1),
    Nat.add_sub_cancel]
  rfl

/-- A character is decoded from its bytes, and nothing is left under construction. -/
theorem run_encodeChar (c : Char) (bytes : List UInt8) :
    run none (String.utf8EncodeChar c ++ bytes) = some c :: run none bytes := by
  have hvalid : c.toNat < 0xD800 ∨ 0xDFFF < c.toNat ∧ c.toNat < 0x110000 := c.valid
  have hchar {n : Nat} (hn : n = c.toNat) : Char.ofNat n = c := by rw [hn, Char.ofNat_toNat]
  have hval : c.val.toNat = c.toNat := rfl
  unfold String.utf8EncodeChar
  rw [hval]
  by_cases h₁ : c.toNat ≤ 0x7F
  · rw [if_pos h₁, List.singleton_append, run_cons (by omega), step, start, if_pos (by omega),
      Char.ofNat_toNat]
    rfl
  by_cases h₂ : c.toNat ≤ 0x7FF
  · rw [if_neg h₁, if_pos h₂, List.cons_append, List.singleton_append,
      run_lead (by omega) (start_two _ (by omega) (by omega)),
      run_completed (by omega) (by omega) (by omega), hchar (by omega)]
  by_cases h₃ : c.toNat ≤ 0xFFFF
  · rw [if_neg h₁, if_neg h₂, if_pos h₃, List.cons_append, List.cons_append,
      List.singleton_append, run_lead (by omega) (start_three _ (by omega)),
      run_continued (by split <;> omega) (by split <;> omega) (by omega),
      run_completed (by omega) (by omega) (by omega), hchar (by omega)]
  · rw [if_neg h₁, if_neg h₂, if_neg h₃, List.cons_append, List.cons_append, List.cons_append,
      List.singleton_append, run_lead (by omega) (start_four _ (by omega)),
      run_continued (by split <;> omega) (by split <;> omega) (by omega),
      run_continued (by omega) (by omega) (by omega),
      run_completed (by omega) (by omega) (by omega), hchar (by omega)]

/-- A character that is cut short is no character, and one part, however many bytes are left. -/
theorem run_take_encodeChar {c : Char} {count : Nat} (hpos : 0 < count)
    (hcut : count < c.utf8Size) :
    run none ((String.utf8EncodeChar c).take count) = [none] := by
  have hvalid : c.toNat < 0xD800 ∨ 0xDFFF < c.toNat ∧ c.toNat < 0x110000 := c.valid
  have hval : c.val.toNat = c.toNat := rfl
  rw [← String.length_utf8EncodeChar] at hcut
  unfold String.utf8EncodeChar at hcut ⊢
  rw [hval] at hcut ⊢
  by_cases h₁ : c.toNat ≤ 0x7F
  · rw [if_pos h₁, List.length_singleton] at hcut
    omega
  by_cases h₂ : c.toNat ≤ 0x7FF
  · rw [if_neg h₁, if_pos h₂] at hcut ⊢
    obtain rfl : count = 1 := by
      simp at hcut
      omega
    exact run_lead (by omega) (start_two _ (by omega) (by omega)) []
  by_cases h₃ : c.toNat ≤ 0xFFFF
  · rw [if_neg h₁, if_neg h₂, if_pos h₃] at hcut ⊢
    have hcount : count = 1 ∨ count = 2 := by
      simp at hcut
      omega
    rcases hcount with rfl | rfl
    · rw [List.take_succ_cons, run_lead (by omega) (start_three _ (by omega))]
      rfl
    · rw [List.take_succ_cons, List.take_succ_cons,
        run_lead (by omega) (start_three _ (by omega)),
        run_continued (by split <;> omega) (by split <;> omega) (by omega)]
      rfl
  · rw [if_neg h₁, if_neg h₂, if_neg h₃] at hcut ⊢
    have hcount : count = 1 ∨ count = 2 ∨ count = 3 := by
      simp at hcut
      omega
    rcases hcount with rfl | rfl | rfl
    · rw [List.take_succ_cons, run_lead (by omega) (start_four _ (by omega))]
      rfl
    · rw [List.take_succ_cons, List.take_succ_cons,
        run_lead (by omega) (start_four _ (by omega)),
        run_continued (by split <;> omega) (by split <;> omega) (by omega)]
      rfl
    · rw [List.take_succ_cons, List.take_succ_cons, List.take_succ_cons,
        run_lead (by omega) (start_four _ (by omega)),
        run_continued (by split <;> omega) (by split <;> omega) (by omega),
        run_continued (by omega) (by omega) (by omega)]
      rfl

/-! ## Texts -/

theorem decode_encode (text : Text) : decode (encode text) = text.map some := by
  induction text with
  | nil => rfl
  | cons c text ih =>
      show run none (String.utf8EncodeChar c ++ encode text) = _
      rw [run_encodeChar]
      exact congrArg (some c :: ·) ih

@[simp] theorem decode?_encode (text : Text) : decode? (encode text) = some text := by
  rw [decode?, decode_encode]
  induction text with
  | nil => rfl
  | cons c text ih => simp [ih]

@[simp] theorem decodeLossy_encode (text : Text) : decodeLossy (encode text) = text := by
  rw [decodeLossy, decode_encode, List.map_map]
  exact List.map_id text

theorem size_pos {text : Text} (h : text ≠ []) : 0 < size text := by
  cases text with
  | nil => exact absurd rfl h
  | cons c text => rw [size_cons]; exact Nat.add_pos_left c.utf8Size_pos _

end Utf8

/-- The bytes before the end of a beginning of a text are those of that beginning. -/
theorem Slice.upTo_encode (before rest : Text) :
    Slice.upTo (Utf8.encode (before ++ rest)) (Utf8.size before : Int) = Utf8.encode before := by
  unfold Slice.upTo
  rw [Position.clamp_natCast, Utf8.length_encode, Utf8.size_append,
    Nat.min_eq_left (Nat.le_add_right _ _), Utf8.encode_append,
    List.take_left' (Utf8.length_encode before)]

/-- A span from the first to the last character of a piece of a source covers its bytes. -/
theorem Span.bytes_append (before piece after : Text) :
    Span.bytes ⟨Utf8.size before, (Utf8.size before + Utf8.size piece : Nat)⟩
      (before ++ piece ++ after) = Utf8.encode piece := by
  have hhigh := Slice.upTo_encode (before ++ piece) after
  rw [Utf8.size_append] at hhigh
  unfold Span.bytes Slice.between
  rw [hhigh, Position.clamp_natCast, Utf8.length_encode, Utf8.size_append, Utf8.size_append,
    Nat.min_eq_left (by omega), Utf8.encode_append, List.drop_left' (Utf8.length_encode before)]

/-- So it is cut out of the source as that piece. -/
theorem Span.slice?_append (before piece after : Text) :
    Span.slice? ⟨Utf8.size before, (Utf8.size before + Utf8.size piece : Nat)⟩
      (before ++ piece ++ after) = some piece := by
  rw [Span.slice?, Span.bytes_append, Utf8.decode?_encode]

/-- A span between two places at which characters of the source begin can be cut out of it. -/
theorem Span.exists_slice? {source before after before' after' : Text}
    (h : source = before ++ after) (h' : source = before' ++ after')
    (hle : Utf8.size before ≤ Utf8.size before') :
    ∃ piece, Span.slice? ⟨Utf8.size before, Utf8.size before'⟩ source = some piece := by
  obtain ⟨piece, rfl⟩ : ∃ piece, before' = before ++ piece := by
    rcases List.append_eq_append_iff.1 (h.symm.trans h') with ⟨piece, hpiece, -⟩ | ⟨more, hmore, -⟩
    · exact ⟨piece, hpiece⟩
    · have hnil : more = [] := Decidable.byContradiction fun hne => by
        have hpos := Utf8.size_pos hne
        rw [hmore, Utf8.size_append] at hle
        omega
      exact ⟨[], by rw [hmore, hnil, List.append_nil, List.append_nil]⟩
  refine ⟨piece, ?_⟩
  rw [Utf8.size_append, h']
  exact Span.slice?_append before piece after'

end ScriptFront
