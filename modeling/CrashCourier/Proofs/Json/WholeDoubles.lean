import CrashCourier.Proofs.Decimal.Whole
import CrashCourier.Proofs.Json.ReadBack

namespace CrashCourier.Json

open Double

theorem writeDouble_ofNat {n : Nat} (hpos : 0 < n) (hlt : n < exactLimit) :
    writeDouble (ofNat n) = decimal n ++ [point, zeroDigit] := by
  have hnormal := normal_nearestMagnitude hpos hlt
  have hmagnitude : (ofNat n).magnitude = nearestMagnitude n 1 :=
    magnitude_ofMagnitude hnormal.lt_signWeight
  have hfinite : (ofNat n).isFinite = true := isFinite_ofNat hlt
  have hnegative : (ofNat n).isNegative = false := isNegative_ofMagnitude hnormal.lt_signWeight
  have hzero : (ofNat n).isZero = false := by
    have hle := hnormal.low
    have heq := hnormal.eq
    have hstep : 0 < stepWeight := by decide
    rw [isZero, hmagnitude, decide_eq_false_iff_not]
    omega
  obtain ⟨c, k, hshortest, rfl⟩ := Decimal.shortest_ofNat hpos hlt
  have hc : 0 < c := Nat.pos_of_mul_pos_right hpos
  have hdigits : (Nat.toDigits 10 (c * 10 ^ k)).length ≤ 16 := by
    rw [Nat.length_toDigits_le_iff (by omega) (by omega)]
    exact Nat.lt_of_lt_of_le hlt (by decide)
  have hwhole : numberLayout.digits ⟨c, k⟩ = toString (c * 10 ^ k) ++ ".0" :=
    Decimal.Layout.digits_whole hc (by decide) (by simp only [numberLayout]; omega)
  have htail : Text.bytes ".0" = [point, zeroDigit] := by decide
  rw [writeDouble, if_pos hfinite, Decimal.Layout.text, hnegative, hzero, hshortest]
  simp only [Bool.false_eq_true, ↓reduceIte, hwhole]
  rw [Text.bytes_append, Text.bytes_append, htail]
  rfl

/-- A point and a zero after the digits make tenths. -/
theorem readNumeral_tenths {n : Nat} {rest : Bytes} (hlt : 10 * n < significandLimit)
    (hr : EndsNumber rest) : readNumeral (decimal n ++ point :: zeroDigit :: rest) =
      .ok (.scaled (10 * n) (-1), rest) := by
  have hpoint : ∀ b ∈ (point :: zeroDigit :: rest).head?, isDigit b = false := by
    intro b hb
    obtain rfl := Option.some.inj hb
    rfl
  have hzero : isDigit zeroDigit = true := rfl
  have hvalue : 10 * n + digitValue zeroDigit = 10 * n := rfl
  rw [readNumeral_decimal_append (by omega) hpoint]
  simp only [readTail, ↓reduceIte, readFraction, hzero, hvalue, hlt]
  cases rest with
  | nil => rfl
  | cons b rest =>
    obtain ⟨hdigit, -, hmark⟩ := hr b (by simp)
    simp [readFraction, hdigit, readScale, hmark]

/-- Below a tenth of `2 ^ 53` a whole number is read as it was. -/
theorem legible_ofNat {n : Nat} (hpos : 0 < n) (hlt : 10 * n < exactLimit) :
    Legible (.double (ofNat n)) := by
  intro d hd _
  obtain rfl := Value.double.inj hd
  obtain ⟨b, more, he, hb, -⟩ := decimal_eq_cons n
  have hwrite := writeDouble_ofNat hpos (by omega : n < exactLimit)
  rw [he] at hwrite
  refine ⟨b, more ++ [point, zeroDigit], hwrite, hb, fun rest hr => ?_⟩
  have hlimit : 10 * n < significandLimit := by
    simp only [exactLimit, significandLimit] at hlt ⊢
    omega
  have hnumeral := readNumeral_tenths hlimit hr
  rw [he, List.cons_append] at hnumeral
  rw [readScalar_of_isDigit hb, List.append_assoc, readNumber, List.cons_append, List.cons_append,
    List.nil_append, hnumeral]
  simp [Numeral.value?, Decimal.read_tenths hlt, bind, Except.bind]

end CrashCourier.Json
