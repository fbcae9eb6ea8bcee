import CrashCourier.Envelope
import CrashCourier.Proofs.Decimal.Nearness
import CrashCourier.Proofs.DoubleValue
import CrashCourier.Proofs.Json.ReadBack
import Mathlib.Data.List.TakeWhile

namespace CrashCourier

namespace Json

open Decimal (Leading refusedFrom)

variable {start n : Nat} {ds rest : Bytes}

theorem digitValue_lt {b : UInt8} (h : isDigit b = true) : digitValue b < 10 := by
  simp only [isDigit, Bool.and_eq_true, decide_eq_true_eq] at h
  have hb : b.toNat ≤ 0x39 := UInt8.le_iff_toNat_le.mp h.2
  simp only [digitValue]
  omega

/-- Further digits fill the places below the digits of `start`. -/
theorem digitsValue_bounds (start : Nat) (hds : ∀ b ∈ ds, isDigit b = true) :
    start * 10 ^ ds.length ≤ digitsValue start ds ∧
      digitsValue start ds < (start + 1) * 10 ^ ds.length := by
  induction ds generalizing start with
  | nil => simp [digitsValue]
  | cons d ds ih =>
    obtain ⟨hd, hds⟩ := List.forall_mem_cons.mp hds
    have hlt := digitValue_lt hd
    have heq : digitsValue start (d :: ds) = digitsValue (10 * start + digitValue d) ds := rfl
    obtain ⟨hlow, hhigh⟩ := ih (10 * start + digitValue d) hds
    have hpow : ∀ m, m * 10 ^ (d :: ds).length = 10 * m * 10 ^ ds.length := by
      intro m
      rw [List.length_cons, Nat.pow_succ', ← Nat.mul_assoc, Nat.mul_comm m]
    rw [heq, hpow, hpow]
    constructor
    · exact Nat.le_trans (Nat.mul_le_mul_right _ (by omega)) hlow
    · exact Nat.lt_of_lt_of_le hhigh (Nat.mul_le_mul_right _ (by omega))

/-- What the digits of `n` are read as: `n` itself if it fits 64 bits, otherwise its first digits
and the count of the others. -/
inductive Scanned (n : Nat) : Numeral → Prop
  | whole (h : n < significandLimit) : Scanned n (.whole n)
  | scaled {s k : Nat} (h : Leading n s k) (hlarge : significandLimit ≤ n) :
    Scanned n (.scaled s k)

theorem readLong_of_endsNumber (significand : Nat) (hds : ∀ b ∈ ds, isDigit b = true)
    (hr : EndsNumber rest) :
    readLong significand (ds ++ rest) = .ok (.scaled significand ds.length, rest) := by
  have hdigit : ∀ b ∈ rest.head?, isDigit b = false := fun b hb => (hr b hb).1
  rw [readLong, takeWhile_isDigit hds hdigit, dropWhile_isDigit hds hdigit]
  cases rest with
  | nil => rfl
  | cons b rest =>
    have hpoint : b ≠ point := (hr b (by simp)).2.1
    simp only [hpoint, ↓reduceIte]
    exact readScale_of_endsNumber significand ds.length hr

/-- The digits end where one more does not fit, or all of them fit. -/
theorem scanned_readDigits (hstart : start < significandLimit) (hds : ∀ b ∈ ds, isDigit b = true)
    (hr : EndsNumber rest) : ∃ numeral, Scanned (digitsValue start ds) numeral ∧
      readDigits start (ds ++ rest) = .ok (numeral, rest) := by
  induction ds generalizing start with
  | nil =>
    refine ⟨.whole start, .whole hstart, ?_⟩
    rw [List.nil_append, readDigits_of_not_digit start fun b hb => (hr b hb).1]
    exact readTail_of_endsNumber start hr
  | cons d ds ih =>
    obtain ⟨hd, hds'⟩ := List.forall_mem_cons.mp hds
    have heq : digitsValue start (d :: ds) = digitsValue (10 * start + digitValue d) ds := rfl
    rcases Nat.lt_or_ge (10 * start + digitValue d) significandLimit with hfits | hfull
    · obtain ⟨numeral, hscanned, hread⟩ := ih hfits hds'
      refine ⟨numeral, heq ▸ hscanned, ?_⟩
      simp only [List.cons_append, readDigits, hd, hfits, ↓reduceIte]
      exact hread
    · have hlt := digitValue_lt hd
      have hle := le_digitsValue (10 * start + digitValue d) ds
      obtain ⟨hlow, hhigh⟩ := digitsValue_bounds start hds
      have hleading : Leading (digitsValue start (d :: ds)) start (d :: ds).length :=
        ⟨hstart, by omega, hlow, hhigh⟩
      refine ⟨_, .scaled hleading (by omega), ?_⟩
      have hnot : ¬ 10 * start + digitValue d < significandLimit := Nat.not_lt.mpr hfull
      rw [← readLong_of_endsNumber start hds hr]
      simp only [List.cons_append, readDigits, hd, hnot, ↓reduceIte]

/-- A fault at the end of a text of one line. -/
theorem place_here (reason : Reason) {text : Bytes} (h : lineFeed ∉ text) :
    (here reason []).place text = ⟨reason, 1, text.length⟩ := by
  have hline : text.reverse.takeWhile (· ≠ lineFeed) = text.reverse := by
    apply List.takeWhile_eq_self_iff.mpr
    intro b hb
    have hne : b ≠ lineFeed := by
      rintro rfl
      exact h (List.mem_reverse.mp hb)
    simpa using hne
  have hcount : text.count lineFeed = 0 := List.count_eq_zero.mpr h
  simp only [here, Stop.place, Json.place, List.length_nil, Nat.sub_zero, List.take_length, hcount,
    hline, List.length_reverse]

/-- An integer as it is written: a zero comes first only if it is the only digit. -/
structure IntegerLiteral where
  negative : Bool
  digits : Bytes
  run : DigitRun digits
  leading : digits.head? = some zeroDigit → digits = [zeroDigit]

namespace IntegerLiteral

variable (l : IntegerLiteral)

def text : Bytes := (if l.negative then [minus] else []) ++ l.digits

def magnitude : Nat := digitsValue 0 l.digits

def number : Int := if l.negative then -l.magnitude else l.magnitude

/-- The integer as it is written shortest. -/
def ofNat (negative : Bool) (n : Nat) : IntegerLiteral where
  negative
  digits := decimal n
  run := digitRun_decimal n
  leading := by
    intro hhead
    obtain ⟨d, ds, he, -, hzero⟩ := decimal_eq_cons n
    rw [he] at hhead
    have hd : d = zeroDigit := Option.some.inj hhead
    have hn : n = 0 := by
      apply Nat.eq_zero_of_not_pos
      intro hpos
      exact hzero hpos hd
    rw [hn]
    exact decimal_of_lt (by omega)

theorem magnitude_ofNat (negative : Bool) (n : Nat) : (ofNat negative n).magnitude = n :=
  digitsValue_decimal n

theorem number_ofNat (negative : Bool) (n : Nat) :
    (ofNat negative n).number = if negative then -(n : Int) else n := by
  rw [number, magnitude_ofNat]
  rfl

/-- The digits are a zero, or they start with another one. -/
theorem digits_cases : l.digits = [zeroDigit] ∨ ∃ d ds, l.digits = d :: ds ∧
    isDigit d = true ∧ d ≠ zeroDigit ∧ ∀ b ∈ ds, isDigit b = true := by
  obtain ⟨d, ds, he, hd, hds⟩ := l.run.eq_cons
  by_cases hzero : d = zeroDigit
  · apply Or.inl
    apply l.leading
    rw [he, hzero]
    rfl
  · exact Or.inr ⟨d, ds, he, hd, hzero, hds⟩

theorem magnitude_eq_zero_iff : l.magnitude = 0 ↔ l.digits = [zeroDigit] := by
  constructor
  · intro hmagnitude
    rcases l.digits_cases with hzero | ⟨d, ds, he, hd, hne, -⟩
    · exact hzero
    · have hle := le_digitsValue (10 * 0 + digitValue d) ds
      have heq : l.magnitude = digitsValue (10 * 0 + digitValue d) ds := by
        rw [magnitude, he]
        rfl
      have hpos : 0 < digitValue d := by
        simp only [isDigit, Bool.and_eq_true, decide_eq_true_eq] at hd
        have hlow : 0x30 ≤ d.toNat := UInt8.le_iff_toNat_le.mp hd.1
        have hnot : d.toNat ≠ 0x30 := fun h => hne (UInt8.toNat_inj.mp h)
        simp only [digitValue]
        omega
      omega
  · intro hdigits
    rw [magnitude, hdigits]
    rfl

theorem text_eq_minusZero_iff :
    l.text = Text.bytes "-0" ↔ l.negative = true ∧ l.magnitude = 0 := by
  have hbytes : Text.bytes "-0" = [minus, zeroDigit] := by decide
  rw [hbytes, magnitude_eq_zero_iff, text]
  cases l.negative with
  | true => simp
  | false =>
    obtain ⟨d, ds, he, hd, -⟩ := l.run.eq_cons
    have hne : d ≠ minus := by
      rintro rfl
      exact absurd hd (by decide)
    simp [he, hne]

theorem scanned_readNumeral (hr : EndsNumber rest) : ∃ numeral, Scanned l.magnitude numeral ∧
    readNumeral (l.digits ++ rest) = .ok (numeral, rest) := by
  rcases l.digits_cases with hzero | ⟨d, ds, he, hd, hne, hds⟩
  · have hmagnitude := l.magnitude_eq_zero_iff.mpr hzero
    have hscanned : Scanned l.magnitude (.whole 0) := by
      rw [hmagnitude]
      exact .whole (by decide)
    refine ⟨.whole 0, hscanned, ?_⟩
    have hread := readNumeral_decimal (n := 0) (by decide) hr
    rwa [decimal_of_lt (by omega), show [digitByte 0] = l.digits from hzero.symm] at hread
  · have hstart : digitValue d < significandLimit := by
      have hlt := digitValue_lt hd
      simp only [significandLimit]
      omega
    have heq : l.magnitude = digitsValue (digitValue d) ds := by
      rw [magnitude, he]
      simp [digitsValue]
    obtain ⟨numeral, hscanned, hread⟩ := scanned_readDigits hstart hds hr
    refine ⟨numeral, heq ▸ hscanned, ?_⟩
    rw [he, List.cons_append, readNumeral, if_neg hne, if_pos hd, hread]

theorem readValue_text (n : Nat) (rest : Bytes) :
    readValue n (l.text ++ rest) = readNumber l.negative (l.digits ++ rest) := by
  cases hnegative : l.negative with
  | true =>
    have htext : l.text ++ rest = minus :: (l.digits ++ rest) := by
      rw [text, hnegative]
      rfl
    rw [htext, readValue_scalar (by decide) (by decide) (by decide)]
    rfl
  | false =>
    obtain ⟨d, ds, he, hd, -⟩ := l.run.eq_cons
    have htext : l.text ++ rest = d :: (ds ++ rest) := by
      rw [text, hnegative, he]
      rfl
    have hstart : d = minus ∨ isDigit d = true := Or.inr hd
    rw [htext, he, List.cons_append, readValue_scalar (isBlank_of_numberStart hstart)
      (ne_of_numberStart hstart (by decide) rfl) (ne_of_numberStart hstart (by decide) rfl),
      readScalar_of_isDigit hd]

theorem lineFeed_notMem_text : lineFeed ∉ l.text := by
  intro hmem
  rcases List.mem_append.mp hmem with hsign | hdigit
  · cases hnegative : l.negative <;> simp [hnegative, lineFeed, minus] at hsign
  · exact absurd (l.run.digits lineFeed hdigit) (by decide)

/-- The number of a literal decides what is read of it. -/
theorem read_text : ∃ numeral, Scanned l.magnitude numeral ∧ Json.read l.text =
    match numeral.value? l.negative with
    | some v => .ok v
    | none => .error ⟨.numberOutOfRange, 1, l.text.length⟩ := by
  obtain ⟨numeral, hscanned, hnumeral⟩ := l.scanned_readNumeral endsNumber_nil
  refine ⟨numeral, hscanned, ?_⟩
  have hvalue := l.readValue_text deepest []
  rw [List.append_nil] at hnumeral
  rw [List.append_nil, List.append_nil] at hvalue
  have hplace := place_here .numberOutOfRange l.lineFeed_notMem_text
  cases hv : numeral.value? l.negative with
  | some v =>
    have hnumber : readNumber l.negative l.digits = .ok (v, []) := by
      simp only [readNumber, hnumeral, bind, Except.bind, hv]
    rw [Json.read, readAll, hvalue, hnumber]
    rfl
  | none =>
    have hnumber : readNumber l.negative l.digits = .error (here .numberOutOfRange []) := by
      simp only [readNumber, hnumeral, bind, Except.bind, hv]
    rw [Json.read, readAll, hvalue, hnumber, ← hplace]
    rfl

/-- The integers that fit 32 bits, all but one: `-0` is a double. -/
def Fits : Prop :=
  -0x80000000 ≤ l.number ∧ l.number < 0x80000000 ∧ l.text ≠ Text.bytes "-0"

theorem value?_whole_of_fits (h : l.Fits) :
    (Numeral.whole l.magnitude).value? l.negative = some (.int (Int32.ofInt l.number)) := by
  obtain ⟨hlow, hhigh, hzero⟩ := h
  rw [Ne, text_eq_minusZero_iff] at hzero
  simp only [number] at hlow hhigh ⊢
  cases hnegative : l.negative with
  | true =>
    simp only [hnegative, ↓reduceIte, true_and] at hlow hhigh hzero ⊢
    have hbound : l.magnitude ≤ intLimit := by
      simp only [intLimit]
      omega
    simp only [Numeral.value?, ↓reduceIte, hzero, hbound]
  | false =>
    simp only [hnegative, Bool.false_eq_true, ↓reduceIte] at hlow hhigh ⊢
    have hbound : l.magnitude < intLimit := by
      simp only [intLimit]
      omega
    simp only [Numeral.value?, Bool.false_eq_true, ↓reduceIte, hbound]

theorem natAbs_number : l.number.natAbs = l.magnitude := by
  rw [number]
  split <;> omega

/-- A finite double with the sign of a literal, near its number. -/
structure Approximates (d : Double) : Prop where
  finite : d.isFinite = true
  sign : d.isNegative = l.negative
  near : d.Near l.magnitude

theorem approximates_ofInt (hlimit : l.magnitude < significandLimit) (hne : l.number ≠ 0) :
    l.Approximates (Double.ofInt l.number) := by
  have hpos : 0 < l.magnitude := by
    have habs := l.natAbs_number
    omega
  have hfinite := Decimal.nearestMagnitude_lt_of_lt_limit hlimit
  rw [Double.ofInt, natAbs_number]
  refine ⟨?_, ?_, Double.near_ofRatio_one _ hpos hfinite⟩
  · rw [Double.isFinite, Double.magnitude_ofRatio, decide_eq_true_iff]
    exact hfinite
  · rw [Double.isNegative_ofRatio, number]
    cases l.negative with
    | true => simpa using hpos
    | false => simp

theorem approximates_minusZero (hnegative : l.negative = true) (hzero : l.magnitude = 0) :
    l.Approximates (Double.ofNat 0).neg := by
  have hunits : (Double.ofNat 0).neg.units = 0 := by decide +kernel
  refine ⟨by decide +kernel, ?_, ?_⟩
  · rw [hnegative]
    decide +kernel
  · rw [Double.Near, hunits, hzero, Nat.zero_mul]
    exact ⟨by decide, by decide⟩

theorem value?_whole_of_not_fits (h : ¬ l.Fits) (hlimit : l.magnitude < significandLimit) :
    ∃ d, (Numeral.whole l.magnitude).value? l.negative = some (.double d) ∧ l.Approximates d ∧
      (l.number ≠ 0 → d = Double.ofInt l.number) := by
  by_cases hzero : l.negative = true ∧ l.magnitude = 0
  · obtain ⟨hnegative, hmagnitude⟩ := hzero
    have hnumber : l.number = 0 := by
      have habs := l.natAbs_number
      omega
    refine ⟨(Double.ofNat 0).neg, ?_, l.approximates_minusZero hnegative hmagnitude,
      fun hne => absurd hnumber hne⟩
    rw [Numeral.value?, if_pos hnegative, if_pos hmagnitude]
  · have hbounds : ¬ (-0x80000000 ≤ l.number ∧ l.number < 0x80000000) := by
      intro hbounds
      exact h ⟨hbounds.1, hbounds.2, mt l.text_eq_minusZero_iff.mp hzero⟩
    have hne : l.number ≠ 0 := by omega
    refine ⟨Double.ofInt l.number, ?_, l.approximates_ofInt hlimit hne, fun _ => rfl⟩
    rw [number] at hbounds ⊢
    cases hnegative : l.negative with
    | true =>
      simp only [hnegative, ↓reduceIte] at hbounds ⊢
      have hmagnitude : l.magnitude ≠ 0 := by omega
      have hbound : ¬ l.magnitude ≤ intLimit := by
        simp only [intLimit]
        omega
      rw [Numeral.value?, if_pos rfl, if_neg hmagnitude, if_neg hbound]
    | false =>
      simp only [hnegative, Bool.false_eq_true, ↓reduceIte] at hbounds ⊢
      have hbound : ¬ l.magnitude < intLimit := by
        simp only [intLimit]
        omega
      rw [Numeral.value?, if_neg Bool.false_ne_true, if_neg hbound, Double.ofInt_ofNat]

theorem magnitude_le_of_fits (h : l.Fits) : l.magnitude ≤ 0x80000000 := by
  have habs := l.natAbs_number
  have hlow := h.1
  have hhigh := h.2.1
  omega

theorem read_of_fits (h : l.Fits) :
    ∃ i : Int32, i.toInt = l.number ∧ Json.read l.text = .ok (.int i) := by
  have hint : (Int32.ofInt l.number).toInt = l.number := Int32.toInt_ofInt_of_le h.1 h.2.1
  obtain ⟨numeral, hscanned, hread⟩ := l.read_text
  refine ⟨Int32.ofInt l.number, hint, ?_⟩
  cases hscanned with
  | whole hsmall => rw [hread, l.value?_whole_of_fits h]
  | scaled hleading hlarge =>
    have hbound := l.magnitude_le_of_fits h
    simp only [significandLimit] at hlarge
    omega

theorem read_of_not_fits (h : ¬ l.Fits) (hless : l.magnitude < refusedFrom) :
    ∃ d, Json.read l.text = .ok (.double d) ∧ l.Approximates d ∧
      (l.magnitude < significandLimit → l.number ≠ 0 → d = Double.ofInt l.number) := by
  obtain ⟨numeral, hscanned, hread⟩ := l.read_text
  cases hscanned with
  | whole hsmall =>
    obtain ⟨d, hd, happroximates, hnearest⟩ := l.value?_whole_of_not_fits h hsmall
    refine ⟨d, ?_, happroximates, fun _ => hnearest⟩
    rw [hread, hd]
  | @scaled s k hleading hlarge =>
    have hsome : Decimal.read l.negative s k ≠ none := by
      rw [Ne, hleading.read_eq_none_iff]
      exact Nat.not_le.mpr hless
    obtain ⟨d, hd⟩ := Option.ne_none_iff_exists'.mp hsome
    obtain ⟨hfinite, hsign, hnear⟩ := hleading.near_of_read hd
    refine ⟨d, ?_, ⟨hfinite, hsign, hnear⟩, fun hsmall => absurd hlarge (Nat.not_le.mpr hsmall)⟩
    rw [hread, Numeral.value?, hd]
    rfl

theorem read_of_refusedFrom_le (h : refusedFrom ≤ l.magnitude) :
    Json.read l.text = .error ⟨.numberOutOfRange, 1, l.text.length⟩ := by
  obtain ⟨numeral, hscanned, hread⟩ := l.read_text
  cases hscanned with
  | whole hsmall =>
    have hlimit := Nat.lt_of_lt_of_le hsmall Decimal.significandLimit_le_refusedFrom
    exact absurd h (Nat.not_le.mpr hlimit)
  | scaled hleading hlarge =>
    have hnone := (hleading.read_eq_none_iff l.negative).mpr h
    rw [hread, Numeral.value?, hnone]
    rfl

/-- No double is nearer to an integer below 64 bits than the one it is read as. -/
theorem ofInt_number_nearest (h : l.magnitude < significandLimit) (d : Double) :
    |(Double.ofInt l.number).toRat - l.number| ≤ |d.toRat - l.number| := by
  refine Double.nearest_ofInt l.number ?_ d
  rw [natAbs_number]
  exact Decimal.nearestMagnitude_lt_of_lt_limit h

end IntegerLiteral

end Json

open Json (IntegerLiteral)

/-- An integer that fits 32 bits is read as itself. Any other one is read as a finite double near
it, below 64 bits as the nearest one, and it is refused for its greatness from `Decimal.refusedFrom`
on. No literal is read as an integer other than its own. -/
theorem EnvelopeItem.value_integer (headers : Value) (l : IntegerLiteral) :
    (l.Fits → ∃ i : Int32, i.toInt = l.number ∧
      EnvelopeItem.value ⟨headers, l.text⟩ = .ok (.int i)) ∧
    (¬ l.Fits → l.magnitude < Decimal.refusedFrom → ∃ d,
      EnvelopeItem.value ⟨headers, l.text⟩ = .ok (.double d) ∧ l.Approximates d ∧
      (l.magnitude < Json.significandLimit → l.number ≠ 0 → d = Double.ofInt l.number)) ∧
    (Decimal.refusedFrom ≤ l.magnitude → ∃ e,
      EnvelopeItem.value ⟨headers, l.text⟩ = .error e ∧ e.reason = .numberOutOfRange) ∧
    ∀ i : Int32, EnvelopeItem.value ⟨headers, l.text⟩ = .ok (.int i) → i.toInt = l.number := by
  simp only [EnvelopeItem.value]
  refine ⟨l.read_of_fits, l.read_of_not_fits, fun hlarge => ?_, fun i hi => ?_⟩
  · exact ⟨_, l.read_of_refusedFrom_le hlarge, rfl⟩
  · by_cases hfits : l.Fits
    · obtain ⟨j, hj, hread⟩ := l.read_of_fits hfits
      rw [hread] at hi
      have hij : j = i := Value.int.inj (Except.ok.inj hi)
      rw [← hij, hj]
    · rcases Nat.lt_or_ge l.magnitude Decimal.refusedFrom with hless | hlarge
      · obtain ⟨d, hread, -, -⟩ := l.read_of_not_fits hfits hless
        rw [hread] at hi
        cases hi
      · rw [l.read_of_refusedFrom_le hlarge] at hi
        cases hi

/-- At the bounds of 32 bits, and where doubles end. -/
theorem EnvelopeItem.value_integer_bounds :
    let least := IntegerLiteral.ofNat true 0x80000000
    let next := IntegerLiteral.ofNat false 0x80000000
    let huge := IntegerLiteral.ofNat true Decimal.refusedFrom
    least.Fits ∧ (∃ i : Int32, i.toInt = -0x80000000 ∧
      EnvelopeItem.value ⟨.null, least.text⟩ = .ok (.int i)) ∧
    ¬ next.Fits ∧ next.magnitude < Decimal.refusedFrom ∧
    EnvelopeItem.value ⟨.null, next.text⟩ = .ok (.double (Double.ofInt 0x80000000)) ∧
    Decimal.refusedFrom ≤ huge.magnitude ∧
    ∃ e, EnvelopeItem.value ⟨.null, huge.text⟩ = .error e ∧ e.reason = .numberOutOfRange := by
  intro least next huge
  have hleast : least.number = -0x80000000 := IntegerLiteral.number_ofNat true 0x80000000
  have hnext : next.number = 0x80000000 := IntegerLiteral.number_ofNat false 0x80000000
  have hlimit : next.magnitude < Json.significandLimit := by
    rw [IntegerLiteral.magnitude_ofNat]
    decide
  have hless := Nat.lt_of_lt_of_le hlimit Decimal.significandLimit_le_refusedFrom
  have hhuge := Nat.le_of_eq (IntegerLiteral.magnitude_ofNat true Decimal.refusedFrom).symm
  have hfits : least.Fits := by
    refine ⟨by omega, by omega, ?_⟩
    rw [Ne, IntegerLiteral.text_eq_minusZero_iff, IntegerLiteral.magnitude_ofNat]
    decide
  have hnot : ¬ next.Fits := by
    intro h
    have hhigh := h.2.1
    omega
  obtain ⟨i, hi, hread⟩ := (EnvelopeItem.value_integer .null least).1 hfits
  obtain ⟨d, hdouble, -, hnearest⟩ := (EnvelopeItem.value_integer .null next).2.1 hnot hless
  have hd : d = Double.ofInt 0x80000000 := by
    rw [hnearest hlimit (by omega), hnext]
  exact ⟨hfits, ⟨i, hi.trans hleast, hread⟩, hnot, hless, hd ▸ hdouble, hhuge,
    (EnvelopeItem.value_integer .null huge).2.2.1 hhuge⟩

/-- The greatest double is a whole number, and yet it is refused. -/
theorem EnvelopeItem.value_greatest_double :
    ∃ d : Double, d.isFinite = true ∧ d.isNegative = false ∧
      d.units = (2 ^ 1024 - 2 ^ 971) * Double.unit ∧ ∃ e, EnvelopeItem.value
        ⟨.null, (IntegerLiteral.ofNat false (2 ^ 1024 - 2 ^ 971)).text⟩ = .error e := by
  have hlarge : Decimal.refusedFrom ≤
      (IntegerLiteral.ofNat false (2 ^ 1024 - 2 ^ 971)).magnitude := by
    rw [IntegerLiteral.magnitude_ofNat]
    decide +kernel
  exact ⟨Double.ofMagnitude false (Double.infinite - 1), by decide +kernel, by decide +kernel,
    by decide +kernel, _, IntegerLiteral.read_of_refusedFrom_le _ hlarge⟩

end CrashCourier
