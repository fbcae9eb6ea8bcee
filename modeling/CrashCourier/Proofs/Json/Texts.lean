import CrashCourier.Proofs.Json.Numerals

namespace CrashCourier.Json

theorem quad_hexDigitByte : ∀ n < 32,
    quad zeroDigit zeroDigit (hexDigitByte (n / 16)) (hexDigitByte (n % 16)) = some n := by
  decide

theorem utf8EncodeChar_ofNat : ∀ n < 32,
    String.utf8EncodeChar (Char.ofNat n) = [UInt8.ofNat n] := by
  decide

/-- A byte is written with a letter, with its number, or as it is. -/
theorem escapeByte_cases (b : UInt8) :
    (∃ e, escapeByte b = [backslash, e] ∧ shortEscapes.lookup e = some b ∧ e ≠ unicodeMark ∧
      0x20 ≤ e) ∨
    (b < 0x20 ∧ escapeByte b = [backslash, unicodeMark, zeroDigit, zeroDigit,
      hexDigitByte (b.toNat / 16), hexDigitByte (b.toNat % 16)]) ∨
    (b ≠ quote ∧ b ≠ backslash ∧ ¬ b < 0x20 ∧ escapeByte b = [b]) := by
  by_cases h : b ∈ [quote, backslash, 0x08, 0x09, 0x0a, 0x0c, 0x0d]
  · left
    simp only [List.mem_cons, List.not_mem_nil, or_false] at h
    rcases h with rfl | rfl | rfl | rfl | rfl | rfl | rfl <;> exact ⟨_, rfl, by decide⟩
  · right
    simp only [List.mem_cons, List.not_mem_nil, or_false, not_or] at h
    obtain ⟨hq, hb, h8, h9, ha, hc, hd⟩ := h
    by_cases hlt : b < 0x20
    · exact Or.inl ⟨hlt, by simp only [escapeByte, hq, hb, h8, h9, ha, hc, hd, hlt, ↓reduceIte]⟩
    · exact Or.inr ⟨hq, hb, hlt,
        by simp only [escapeByte, hq, hb, h8, h9, ha, hc, hd, hlt, ↓reduceIte]⟩

/-- The escape with a number that a control character gets. -/
theorem unescape_numbered {b : UInt8} (h : b < 0x20) (done rest : Bytes) :
    unescape done (backslash :: unicodeMark :: zeroDigit :: zeroDigit ::
      hexDigitByte (b.toNat / 16) :: hexDigitByte (b.toNat % 16) :: rest) =
      unescape (b :: done) rest := by
  have hn : b.toNat < 32 := UInt8.lt_iff_toNat_lt.mp h
  have hl : isLowSurrogate b.toNat = false := by
    simp only [isLowSurrogate, Bool.and_eq_false_iff, decide_eq_false_iff_not]
    omega
  have hh : isHighSurrogate b.toNat = false := by
    simp only [isHighSurrogate, Bool.and_eq_false_iff, decide_eq_false_iff_not]
    omega
  have hq : backslash ≠ quote := by decide
  rw [unescape]
  simp only [hq, ↓reduceIte, quad_hexDigitByte _ hn, hl, hh, Bool.false_eq_true, pushChar,
    utf8EncodeChar_ofNat _ hn, UInt8.ofNat_toNat, List.reverse_singleton, List.singleton_append]

/-- The escape with a letter that some characters get. -/
theorem unescape_lettered {e c : UInt8} (he : shortEscapes.lookup e = some c)
    (hu : e ≠ unicodeMark) (done rest : Bytes) :
    unescape done (backslash :: e :: rest) = unescape (c :: done) rest := by
  have hq : backslash ≠ quote := by decide
  conv => lhs; unfold unescape
  simp only [hq, ↓reduceIte, hu, he]

theorem unescape_plain {b : UInt8} (hq : b ≠ quote) (hb : b ≠ backslash) (hc : ¬ b < 0x20)
    (done rest : Bytes) : unescape done (b :: rest) = unescape (b :: done) rest := by
  conv => lhs; unfold unescape
  simp only [hq, hb, hc, ↓reduceIte]

theorem unescape_escapeByte (b : UInt8) (done rest : Bytes) :
    unescape done (escapeByte b ++ rest) = unescape (b :: done) rest := by
  rcases escapeByte_cases b with ⟨e, heq, he, hu, _⟩ | ⟨hc, heq⟩ | ⟨hq, hb, hc, heq⟩
  · rw [heq]
    exact unescape_lettered he hu done rest
  · rw [heq]
    exact unescape_numbered hc done rest
  · rw [heq]
    exact unescape_plain hq hb hc done rest

theorem unescape_escaped (content done rest : Bytes) :
    unescape done (content.flatMap escapeByte ++ quote :: rest) =
      .ok (done.reverse ++ content, rest) := by
  induction content generalizing done with
  | nil =>
    rw [List.flatMap_nil, List.nil_append, unescape.eq_def]
    simp
  | cons b content ih =>
    rw [List.flatMap_cons, List.append_assoc, unescape_escapeByte, ih]
    simp

/-- The part of a written text after its opening quote. -/
theorem readText_escaped (s : String) (rest : Bytes) :
    readText ((Text.bytes s).flatMap escapeByte ++ quote :: rest) = .ok (s, rest) := by
  simp [readText, unescape_escaped, Text.ofBytes?_bytes, bind, Except.bind]

theorem writeText_append (s : String) (rest : Bytes) :
    writeText s ++ rest = quote :: ((Text.bytes s).flatMap escapeByte ++ quote :: rest) := by
  simp [writeText]

theorem readScalar_writeText (s : String) (rest : Bytes) :
    readScalar quote ((Text.bytes s).flatMap escapeByte ++ quote :: rest) =
      .ok (.string s, rest) := by
  simp [readScalar, readText_escaped, Except.map]

theorem le_hexDigitByte : ∀ n < 16, 0x20 ≤ hexDigitByte n := by decide

theorem le_of_mem_escapeByte {b c : UInt8} (h : c ∈ escapeByte b) : 0x20 ≤ c := by
  rcases escapeByte_cases b with ⟨e, heq, _, _, he⟩ | ⟨hb, heq⟩ | ⟨_, _, hb, heq⟩
  · rw [heq] at h
    rcases List.mem_cons.mp h with rfl | h
    · decide
    · obtain rfl := List.mem_singleton.mp h
      exact he
  · have hn : b.toNat < 32 := UInt8.lt_iff_toNat_lt.mp hb
    have h₁ := le_hexDigitByte (b.toNat / 16) (by omega)
    have h₂ := le_hexDigitByte (b.toNat % 16) (by omega)
    rw [heq] at h
    simp only [List.mem_cons, List.not_mem_nil, or_false] at h
    rcases h with rfl | rfl | rfl | rfl | rfl | rfl
    · decide
    · decide
    · decide
    · decide
    · exact h₁
    · exact h₂
  · rw [heq] at h
    obtain rfl := List.mem_singleton.mp h
    exact UInt8.not_lt.mp hb

theorem le_of_mem_writeText {s : String} {b : UInt8} (h : b ∈ writeText s) : 0x20 ≤ b := by
  simp only [writeText, List.mem_cons, List.mem_append, List.mem_flatMap, List.not_mem_nil,
    or_false] at h
  rcases h with rfl | ⟨c, _, hb⟩ | rfl
  · decide
  · exact le_of_mem_escapeByte hb
  · decide

end CrashCourier.Json
