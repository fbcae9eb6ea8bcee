import CrashCourier.Double
import Mathlib.Algebra.Group.Nat.Defs

namespace CrashCourier.Double

theorem one_shiftLeft_eq {k m : Nat} (h : k = m) : 1 <<< k = 2 ^ m := by
  rw [h, Nat.one_shiftLeft]

/-- The exponent is a variable: as a literal Lean would compute with it. -/
theorem unit_eq {m : Nat} (h : 1074 = m) : unit = 2 ^ m := one_shiftLeft_eq h

theorem one_shiftLeft_pos (k : Nat) : 0 < 1 <<< k := by
  rw [Nat.one_shiftLeft]
  exact Nat.two_pow_pos k

theorem unit_pos : 0 < unit := one_shiftLeft_pos 1074

theorem toNat_bits_ofMagnitude {negative : Bool} {m : Nat} (h : m < signWeight) :
    (ofMagnitude negative m).bits.toNat = m + if negative then signWeight else 0 := by
  simp only [ofMagnitude, signWeight] at h ⊢
  rw [UInt64.toNat_ofNat', Nat.mod_eq_of_lt]
  split <;> omega

theorem magnitude_ofMagnitude {negative : Bool} {m : Nat} (h : m < signWeight) :
    (ofMagnitude negative m).magnitude = m := by
  rw [magnitude, toNat_bits_ofMagnitude h]
  simp only [signWeight] at h ⊢
  split <;> omega

theorem isNegative_ofMagnitude {negative : Bool} {m : Nat} (h : m < signWeight) :
    (ofMagnitude negative m).isNegative = negative := by
  rw [isNegative, toNat_bits_ofMagnitude h]
  simp only [signWeight] at h ⊢
  cases negative
  · simp only [Bool.false_eq_true, ↓reduceIte, decide_eq_false_iff_not]
    omega
  · simp only [↓reduceIte, decide_eq_true_eq]
    omega

/-- A pattern with the significand `q`, the hidden digit included, and a shift. -/
structure Normal (m q shift : Nat) : Prop where
  eq : m = shift * stepWeight + q
  low : stepWeight ≤ q
  high : q < 2 * stepWeight
  finite : m < infinite

theorem Normal.lt_signWeight {m q shift : Nat} (h : Normal m q shift) : m < signWeight := by
  have := h.finite
  simp only [infinite, signWeight] at this ⊢
  omega

theorem Normal.significand {m q shift : Nat} (h : Normal m q shift) (negative : Bool) :
    (ofMagnitude negative m).significand = q := by
  rw [Double.significand, magnitude_ofMagnitude h.lt_signWeight]
  obtain ⟨heq, hlow, hhigh, _⟩ := h
  have hge : ¬ m < stepWeight := by
    rw [heq]
    exact Nat.not_lt.mpr (Nat.le_add_left_of_le hlow)
  rw [if_neg hge]
  simp only [stepWeight] at heq hlow hhigh ⊢
  omega

theorem Normal.exponent {m q shift : Nat} (h : Normal m q shift) (negative : Bool) :
    (ofMagnitude negative m).exponent = shift := by
  rw [Double.exponent, magnitude_ofMagnitude h.lt_signWeight]
  obtain ⟨heq, hlow, hhigh, _⟩ := h
  simp only [stepWeight] at heq hlow hhigh ⊢
  omega

theorem Normal.units {m q shift : Nat} (h : Normal m q shift) (negative : Bool) :
    (ofMagnitude negative m).units = q * 2 ^ shift := by
  rw [Double.units, h.significand, h.exponent, Nat.shiftLeft_eq]

/-- A ratio that a pattern denotes exactly is not rounded. -/
theorem nearestMagnitude_exact {num den q shift : Nat} (hden : 0 < den)
    (heq : num * unit = q * 2 ^ shift * den) (hlow : stepWeight ≤ q) (hhigh : q < 2 * stepWeight) :
    nearestMagnitude num den = min infinite (shift * stepWeight + q) := by
  have hstep : stepWeight = 2 ^ 52 := by decide
  have hpow : 0 < 2 ^ shift := Nat.two_pow_pos shift
  have hq : q * 2 ^ shift ≠ 0 := by
    have : 0 < q * 2 ^ shift := Nat.mul_pos (by rw [hstep] at hlow; omega) hpow
    omega
  have hlog : (q * 2 ^ shift).log2 = 52 + shift := by
    rw [Nat.log2_eq_iff hq, Nat.pow_add, show 52 + shift + 1 = 53 + shift by omega, Nat.pow_add]
    constructor
    · exact Nat.mul_le_mul_right _ (hstep ▸ hlow)
    · exact Nat.mul_lt_mul_of_pos_right (by rw [hstep] at hhigh; omega) hpow
  have hquot : nearestQuotient (q * 2 ^ shift * den) (den <<< shift) = q := by
    have hd : q * 2 ^ shift * den = q * (den <<< shift) := by
      rw [Nat.shiftLeft_eq, Nat.mul_assoc, Nat.mul_comm (2 ^ shift)]
    have hpos : 0 < den <<< shift := by
      rw [Nat.shiftLeft_eq]
      exact Nat.mul_pos hden hpow
    rw [hd, nearestQuotient, Nat.mul_mod_left, Nat.mul_div_cancel _ hpos]
    simp [hpos]
  simp only [nearestMagnitude, heq, Nat.mul_div_cancel _ hden, hlog, hquot,
    show 52 + shift - 52 = shift by omega]

def exactLimit : Nat := 0x20000000000000

theorem normal_nearestMagnitude {n : Nat} (hpos : 0 < n) (hlt : n < exactLimit) :
    Normal (nearestMagnitude n 1) (n * 2 ^ (52 - n.log2)) (n.log2 + 1022) := by
  have hne : n ≠ 0 := by omega
  have hlog : n.log2 < 53 := (Nat.log2_lt hne).mpr hlt
  have hself := Nat.log2_self_le hne
  have hnext : n < 2 ^ (n.log2 + 1) := Nat.lt_log2_self
  have hstep : stepWeight = 2 ^ n.log2 * 2 ^ (52 - n.log2) := by
    rw [← Nat.pow_add, show n.log2 + (52 - n.log2) = 52 by omega]
    rfl
  have hpow : 0 < 2 ^ (52 - n.log2) := Nat.two_pow_pos _
  have hlow : stepWeight ≤ n * 2 ^ (52 - n.log2) := by
    rw [hstep]
    exact Nat.mul_le_mul_right _ hself
  have hhigh : n * 2 ^ (52 - n.log2) < 2 * stepWeight := by
    rw [hstep, ← Nat.mul_assoc, ← Nat.pow_succ']
    exact Nat.mul_lt_mul_of_pos_right hnext hpow
  have heq : n * unit = n * 2 ^ (52 - n.log2) * 2 ^ (n.log2 + 1022) * 1 := by
    have hsum : 1074 = 52 - n.log2 + (n.log2 + 1022) := by omega
    rw [Nat.mul_one, Nat.mul_assoc, ← Nat.pow_add, unit_eq hsum]
  have hbound : (n.log2 + 1022) * stepWeight + n * 2 ^ (52 - n.log2) < infinite := by
    simp only [stepWeight, infinite] at hhigh ⊢
    omega
  have hexact := nearestMagnitude_exact (by omega) heq hlow hhigh
  rw [Nat.min_eq_right (by omega)] at hexact
  exact ⟨hexact, hlow, hhigh, hexact ▸ hbound⟩

theorem units_ofRatio_one {n : Nat} (negative : Bool) (hlt : n < exactLimit) :
    (ofRatio negative n 1).units = n * unit := by
  rcases Nat.eq_zero_or_pos n with rfl | hpos
  · cases negative <;> decide
  · have h := normal_nearestMagnitude hpos hlt
    have hlog : n.log2 < 53 := (Nat.log2_lt (by omega)).mpr hlt
    have hsum : 1074 = 52 - n.log2 + (n.log2 + 1022) := by omega
    rw [ofRatio, h.units, Nat.mul_assoc, ← Nat.pow_add, ← unit_eq hsum]

theorem nearestMagnitude_lt {n : Nat} (hlt : n < exactLimit) : nearestMagnitude n 1 < infinite := by
  rcases Nat.eq_zero_or_pos n with rfl | hpos
  · decide
  · exact (normal_nearestMagnitude hpos hlt).finite

theorem isFinite_ofNat {n : Nat} (hlt : n < exactLimit) : (ofNat n).isFinite = true := by
  have hfinite := nearestMagnitude_lt hlt
  have hsign : nearestMagnitude n 1 < signWeight := by
    simp only [infinite, signWeight] at hfinite ⊢
    omega
  rw [ofNat, ofRatio, isFinite, magnitude_ofMagnitude hsign, decide_eq_true_eq]
  exact hfinite

/-- The whole part of a whole number below `2 ^ 53` is that number. -/
theorem truncate_ofRatio_one {n : Nat} (negative : Bool) (hlt : n < exactLimit) :
    (ofRatio negative n 1).truncate = if negative then -(n : Int) else n := by
  have hfin := nearestMagnitude_lt hlt
  have hsign : nearestMagnitude n 1 < signWeight := by
    simp only [infinite, signWeight] at hfin ⊢
    omega
  have hnan : (ofRatio negative n 1).isNaN = false := by
    rw [ofRatio, isNaN, magnitude_ofMagnitude hsign, decide_eq_false_iff_not]
    omega
  have hneg : (ofRatio negative n 1).isNegative = negative := isNegative_ofMagnitude hsign
  have hunits : (ofRatio negative n 1).units = n * unit := units_ofRatio_one negative hlt
  simp only [truncate, hnan, hneg, hunits, Nat.mul_div_cancel _ unit_pos, Bool.false_eq_true,
    ↓reduceIte, leastInt64, greatestInt64]
  simp only [exactLimit] at hlt
  split <;> omega

theorem truncate_ofNat {n : Nat} (hlt : n < exactLimit) : (ofNat n).truncate = n :=
  truncate_ofRatio_one false hlt

theorem truncate_ofInt {k : Int} (hlt : k.natAbs < exactLimit) : (ofInt k).truncate = k := by
  rw [ofInt, truncate_ofRatio_one _ hlt]
  simp only [decide_eq_true_eq]
  split <;> omega

theorem ofInt_ofNat (n : Nat) : ofInt n = ofNat n := by
  have : ¬ (n : Int) < 0 := by omega
  simp [ofInt, ofNat, this]

end CrashCourier.Double
