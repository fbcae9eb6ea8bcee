import CrashCourier.Proofs.DoubleError
import CrashCourier.Value
import Mathlib.Data.Rat.Floor

namespace CrashCourier

namespace Double

def exponentBits (d : Double) : Nat := d.bits.toNat / 2 ^ 52 % 2 ^ 11

def fractionBits (d : Double) : Nat := d.bits.toNat % 2 ^ 52

/-- The number that the fields of a double stand for, unless all bits of its exponent are set. -/
def toRat (d : Double) : ℚ :=
  (if 2 ^ 63 ≤ d.bits.toNat then -1 else 1) *
    if d.exponentBits = 0 then (d.fractionBits : ℚ) * 2 ^ (-1074 : ℤ)
    else (2 ^ 52 + d.fractionBits : ℚ) * 2 ^ (d.exponentBits - 1075 : ℤ)

/-- A number without its fraction. -/
def towardZero (q : ℚ) : ℤ := if q < 0 then ⌈q⌉ else ⌊q⌋

/-- A double as a 64-bit integer: without its fraction, or the bound that it lies behind. What is
not a number counts as zero. -/
def toInt64 (d : Double) : ℤ :=
  if d.exponentBits = 2047 then
    if d.fractionBits ≠ 0 then 0 else if 2 ^ 63 ≤ d.bits.toNat then -2 ^ 63 else 2 ^ 63 - 1
  else max (-2 ^ 63) (min (2 ^ 63 - 1) (towardZero d.toRat))

variable {d : Double} {n num den : Nat}

theorem exponentBits_eq (d : Double) : d.exponentBits = d.magnitude / stepWeight := by
  have hbits := d.bits.toNat_lt
  rw [exponentBits, magnitude, signWeight, stepWeight]
  omega

theorem fractionBits_eq (d : Double) : d.fractionBits = d.magnitude % stepWeight := by
  rw [fractionBits, magnitude, signWeight, stepWeight]
  omega

theorem units_of_exponentBits_eq_zero (h : d.exponentBits = 0) : d.units = d.fractionBits := by
  have hstep : 0 < stepWeight := by decide
  rw [exponentBits_eq] at h
  have hsmall : d.magnitude < stepWeight := (Nat.div_eq_zero_iff_lt hstep).mp h
  rw [units, exponent, h, significand, if_pos hsmall, fractionBits_eq, Nat.mod_eq_of_lt hsmall]
  rfl

theorem units_of_exponentBits_eq_succ (h : d.exponentBits = n + 1) :
    d.units = (2 ^ 52 + d.fractionBits) * 2 ^ n := by
  have hstep : 0 < stepWeight := by decide
  rw [exponentBits_eq] at h
  have hlarge : ¬ d.magnitude < stepWeight := by
    intro hsmall
    rw [Nat.div_eq_of_lt hsmall] at h
    omega
  rw [units, exponent, h, significand, if_neg hlarge, fractionBits_eq, Nat.shiftLeft_eq,
    Nat.add_sub_cancel]
  rfl

theorem cast_one_shiftLeft (k : Nat) : ((1 <<< k : Nat) : ℚ) = 2 ^ (k : ℤ) := by
  rw [Nat.one_shiftLeft, Nat.cast_pow, zpow_natCast]
  rfl

theorem cast_unit : (unit : ℚ) = 2 ^ (1074 : ℤ) := cast_one_shiftLeft 1074

theorem toRat_eq (d : Double) :
    d.toRat = (if d.isNegative then -1 else 1) * ((d.units : ℚ) / unit) := by
  have hsign : d.isNegative = decide (2 ^ 63 ≤ d.bits.toNat) := rfl
  have htwo : (2 : ℚ) ≠ 0 := two_ne_zero
  rw [toRat, hsign, cast_unit]
  simp only [decide_eq_true_eq]
  congr 1
  rcases hbits : d.exponentBits with _ | n
  · rw [if_pos rfl, units_of_exponentBits_eq_zero hbits, zpow_neg, div_eq_mul_inv]
  · have hshift : ((n + 1 : Nat) : ℤ) - 1075 = n - 1074 := by omega
    rw [if_neg (Nat.succ_ne_zero n), units_of_exponentBits_eq_succ hbits, hshift,
      zpow_sub₀ htwo, zpow_natCast 2 n, Nat.cast_mul, Nat.cast_add, Nat.cast_pow, Nat.cast_pow,
      Nat.cast_ofNat, mul_div_assoc]

theorem unit_cast_pos : (0 : ℚ) < unit := Nat.cast_pos.mpr unit_pos

theorem towardZero_toRat (d : Double) :
    towardZero d.toRat = if d.isNegative then -((d.units / unit : Nat) : ℤ)
      else (d.units / unit : Nat) := by
  have hnonneg : 0 ≤ (d.units : ℚ) / unit := by positivity
  have hfloor : ⌊(d.units : ℚ) / unit⌋ = ((d.units / unit : Nat) : ℤ) := by
    exact_mod_cast Rat.floor_natCast_div_natCast d.units unit
  rw [toRat_eq, towardZero]
  cases d.isNegative with
  | false =>
    have hnot : ¬ (d.units : ℚ) / unit < 0 := not_lt.mpr hnonneg
    simp only [Bool.false_eq_true, ↓reduceIte, one_mul, if_neg hnot, hfloor]
  | true =>
    simp only [↓reduceIte, neg_one_mul, neg_lt_zero, Int.ceil_neg, Int.floor_neg, hfloor]
    split
    · rfl
    · next hnot =>
      have hzero : (d.units : ℚ) / unit = 0 := le_antisymm (not_lt.mp hnot) hnonneg
      rw [hzero, Int.floor_zero] at hfloor
      rw [hzero, Int.ceil_zero, ← hfloor]

theorem isNaN_iff (d : Double) : d.isNaN ↔ d.exponentBits = 2047 ∧ d.fractionBits ≠ 0 := by
  rw [exponentBits_eq, fractionBits_eq, isNaN, decide_eq_true_iff, infinite, stepWeight]
  have hlt := d.magnitude_lt
  rw [signWeight] at hlt
  omega

theorem le_units_of_exponentBits (h : d.exponentBits = n + 1) (hlarge : 1085 ≤ n) :
    2 ^ 63 * unit ≤ d.units := by
  obtain ⟨k, hk⟩ := Nat.exists_eq_add_of_le hlarge
  obtain ⟨m, hm⟩ : ∃ m, 1074 = m := ⟨1074, rfl⟩
  have hn : n = 11 + (m + k) := by omega
  have hunit : unit ≤ 2 ^ (m + k) := by
    rw [Nat.pow_add, ← unit_eq hm]
    exact Nat.le_mul_of_pos_right unit (Nat.two_pow_pos k)
  rw [units_of_exponentBits_eq_succ h, hn, Nat.pow_add, ← Nat.mul_assoc]
  exact Nat.mul_le_mul (by omega) hunit

theorem truncate_eq (d : Double) : d.truncate = d.toInt64 := by
  have hwhole := towardZero_toRat d
  have hsign : d.isNegative = decide (2 ^ 63 ≤ d.bits.toNat) := rfl
  rw [truncate, toInt64, hwhole]
  by_cases hexp : d.exponentBits = 2047
  · by_cases hfraction : d.fractionBits = 0
    · have hnan : d.isNaN = false := by
        rw [← Bool.not_eq_true, isNaN_iff]
        exact fun h => h.2 hfraction
      have hlarge : 2 ^ 63 ≤ d.units / unit :=
        (Nat.le_div_iff_mul_le unit_pos).mpr (le_units_of_exponentBits hexp (by omega))
      simp only [hnan, hsign, hexp, hfraction, ne_eq, not_true_eq_false, Bool.false_eq_true,
        decide_eq_true_eq, ↓reduceIte, leastInt64, greatestInt64]
      split <;> omega
    · have hnan : d.isNaN = true := (isNaN_iff d).mpr ⟨hexp, hfraction⟩
      simp only [hnan, hexp, hfraction, ne_eq, not_false_eq_true, ↓reduceIte]
  · have hnan : d.isNaN = false := by
      rw [← Bool.not_eq_true, isNaN_iff]
      exact fun h => hexp h.1
    simp only [hnan, hexp, Bool.false_eq_true, ↓reduceIte]
    rfl

/-- A rounded quotient is nearest to the quotient. -/
theorem nearestQuotient_nearest (num k : Nat) (hden : 0 < den) :
    ((nearestQuotient num den * den : Nat) - num : ℤ).natAbs ≤
      ((k * den : Nat) - num : ℤ).natAbs := by
  obtain ⟨hbelow, habove⟩ := nearestQuotient_half num hden
  rcases Nat.lt_trichotomy (nearestQuotient num den) k with hlt | rfl | hgt
  · have hmul := Nat.mul_le_mul_right den hlt
    rw [Nat.succ_mul] at hmul
    omega
  · exact Nat.le_refl _
  · have hmul := Nat.mul_le_mul_right den hgt
    rw [Nat.succ_mul] at hmul
    omega

/-- A double with no smaller exponent denotes a multiple of what is rounded to, and one with a
smaller exponent lies below the least quotient. -/
theorem nearest_units (negative : Bool) (hden : 0 < den)
    (hfinite : nearestMagnitude num den < infinite) (d : Double) :
    (((ofRatio negative num den).units * den : Nat) - (num * unit : Nat) : ℤ).natAbs ≤
      ((d.units * den : Nat) - (num * unit : Nat) : ℤ).natAbs := by
  have hunits := units_ofRatio negative hden hfinite
  have hlarge : 0 < (num * unit / den).log2 - 52 →
      stepWeight * (den <<< ((num * unit / den).log2 - 52)) ≤ num * unit := fun hshift =>
    stepWeight_mul_le (num * unit) hden (by omega)
  generalize (num * unit / den).log2 - 52 = shift at hunits hlarge
  generalize num * unit = scaled at hunits hlarge ⊢
  have hpos : 0 < den <<< shift := by
    rw [Nat.shiftLeft_eq]
    exact Nat.mul_pos hden (Nat.two_pow_pos shift)
  have hback : ∀ k, k * 2 ^ shift * den = k * (den <<< shift) := by
    intro k
    rw [Nat.shiftLeft_eq, Nat.mul_assoc, Nat.mul_comm den]
  rw [hunits, hback]
  rcases Nat.lt_or_ge d.exponent shift with hless | hmore
  · have hstep : d.magnitude / stepWeight ≤ shift := by
      rw [exponent] at hless
      omega
    have hbelow : d.units ≤ stepWeight * 2 ^ shift :=
      Nat.le_trans (Nat.le_of_lt d.units_lt)
        (Nat.mul_le_mul_left _ (Nat.pow_le_pow_right Nat.two_pos hstep))
    have hmul := Nat.mul_le_mul_right den hbelow
    rw [hback] at hmul
    have hnearest := nearestQuotient_nearest scaled stepWeight hpos
    have hleast := hlarge (by omega)
    omega
  · obtain ⟨more, hmore⟩ := Nat.exists_eq_add_of_le hmore
    have hmultiple : d.units = d.significand * 2 ^ more * 2 ^ shift := by
      rw [units, Nat.shiftLeft_eq, hmore, Nat.add_comm, Nat.pow_add, Nat.mul_assoc]
    rw [hmultiple, hback]
    exact nearestQuotient_nearest scaled _ hpos

theorem abs_div_sub_div (u : Nat) (hden : 0 < den) :
    |(u : ℚ) / unit - num / den| =
      ((((u * den : Nat) - (num * unit : Nat) : ℤ).natAbs : Nat) : ℚ) / (unit * den) := by
  have hunit := unit_cast_pos
  have hden' : (0 : ℚ) < den := Nat.cast_pos.mpr hden
  rw [div_sub_div _ _ hunit.ne' hden'.ne', abs_div, abs_of_pos (mul_pos hunit hden'),
    Nat.cast_natAbs]
  push_cast
  rw [mul_comm (num : ℚ)]

/-- Signs do not bring two magnitudes nearer to each other. -/
theorem abs_sub_le_signed {x y : ℚ} (hx : 0 ≤ x) (hy : 0 ≤ y) (a b : Bool) :
    |x - y| ≤ |(if a then -1 else 1) * x - (if b then -1 else 1) * y| := by
  cases a <;> cases b <;> simp only [Bool.false_eq_true, ↓reduceIte, one_mul, neg_one_mul] <;> grind

/-- The result of rounding a ratio is nearest to it among all doubles, unless it is infinite. -/
theorem nearest_ofRatio (negative : Bool) (hden : 0 < den)
    (hfinite : nearestMagnitude num den < infinite) (d : Double) :
    |(ofRatio negative num den).toRat - (if negative then -1 else 1) * ((num : ℚ) / den)| ≤
      |d.toRat - (if negative then -1 else 1) * ((num : ℚ) / den)| := by
  have hmagnitude : |((ofRatio negative num den).units : ℚ) / unit - num / den| ≤
      |(d.units : ℚ) / unit - num / den| := by
    rw [abs_div_sub_div _ hden, abs_div_sub_div _ hden]
    exact div_le_div_of_nonneg_right (Nat.cast_le.mpr (nearest_units negative hden hfinite d))
      (mul_nonneg unit_cast_pos.le (Nat.cast_nonneg den))
  have hnum : 0 ≤ (num : ℚ) / den := div_nonneg (Nat.cast_nonneg num) (Nat.cast_nonneg den)
  have hd : 0 ≤ (d.units : ℚ) / unit := div_nonneg (Nat.cast_nonneg d.units) unit_cast_pos.le
  have hsign : |(if negative then -1 else 1 : ℚ)| = 1 := by cases negative <;> simp
  rw [toRat_eq, toRat_eq, isNegative_ofRatio, ← mul_sub, abs_mul, hsign, one_mul]
  exact hmagnitude.trans (abs_sub_le_signed hd hnum d.isNegative negative)

theorem nearest_ofInt (k : ℤ) (hfinite : nearestMagnitude k.natAbs 1 < infinite) (d : Double) :
    |(ofInt k).toRat - k| ≤ |d.toRat - k| := by
  have hnearest := nearest_ofRatio (k < 0) Nat.one_pos hfinite d
  have hk : (if decide (k < 0) then -1 else 1 : ℚ) * ((k.natAbs : ℚ) / (1 : Nat)) = k := by
    rw [Nat.cast_one, div_one, Nat.cast_natAbs]
    rcases lt_or_ge k 0 with hneg | hnonneg
    · simp only [hneg, decide_true, ↓reduceIte, abs_of_neg hneg, Int.cast_neg, neg_one_mul, neg_neg]
    · simp only [not_lt.mpr hnonneg, decide_false, Bool.false_eq_true, ↓reduceIte,
        abs_of_nonneg hnonneg, one_mul]
  rwa [hk] at hnearest

end Double

namespace Value

/-- How many bytes a value counts as a length: none if it is no number. -/
def asCount : Value → ℤ
  | int n => n.toInt
  | double d => d.toInt64
  | _ => 0

theorem truncate_asDouble (v : Value) : v.asDouble.truncate = v.asCount := by
  cases v with
  | int n =>
    have hlow := n.le_toInt
    have hhigh := n.toInt_lt
    refine Double.truncate_ofInt ?_
    rw [Double.exactLimit]
    omega
  | double d => exact d.truncate_eq
  | _ => rfl

end Value

end CrashCourier
