import CrashCourier.Proofs.DoubleOrder
import Mathlib.Tactic.Ring

namespace CrashCourier

/-- `a` lies between `low` and `high` parts of `b`, of which `per` make the whole. -/
structure Between (low high per a b : Nat) : Prop where
  le : b * low ≤ a * per
  ge : a * per ≤ b * high

namespace Between

variable {low high per low' high' per' a b c a' b' : Nat}

theorem mul (h : Between low high per a b) (h' : Between low' high' per' a' b') :
    Between (low * low') (high * high') (per * per') (a * a') (b * b') := by
  constructor
  · rw [Nat.mul_mul_mul_comm, Nat.mul_mul_mul_comm a]
    exact Nat.mul_le_mul h.le h'.le
  · rw [Nat.mul_mul_mul_comm, Nat.mul_mul_mul_comm b]
    exact Nat.mul_le_mul h.ge h'.ge

theorem trans (h : Between low high per a b) (h' : Between low' high' per' b c) :
    Between (low * low') (high * high') (per * per') a c := by
  constructor
  · calc c * (low * low') = c * low' * low := by ring
      _ ≤ b * per' * low := Nat.mul_le_mul_right low h'.le
      _ = b * low * per' := by ring
      _ ≤ a * per * per' := Nat.mul_le_mul_right per' h.le
      _ = a * (per * per') := by ring
  · calc a * (per * per') = a * per * per' := by ring
      _ ≤ b * high * per' := Nat.mul_le_mul_right per' h.ge
      _ = b * per' * high := by ring
      _ ≤ c * high' * high := Nat.mul_le_mul_right high h'.ge
      _ = c * (high * high') := by ring

/-- Wider bounds, with other parts. -/
theorem widen (h : Between low high per a b) (hper : 0 < per) (hlow : low' * per ≤ low * per')
    (hhigh : high * per' ≤ high' * per) : Between low' high' per' a b := by
  constructor
  · apply Nat.le_of_mul_le_mul_right _ hper
    calc b * low' * per = b * (low' * per) := by ring
      _ ≤ b * (low * per') := Nat.mul_le_mul_left b hlow
      _ = b * low * per' := by ring
      _ ≤ a * per * per' := Nat.mul_le_mul_right per' h.le
      _ = a * per' * per := by ring
  · apply Nat.le_of_mul_le_mul_right _ hper
    calc a * per' * per = a * per * per' := by ring
      _ ≤ b * high * per' := Nat.mul_le_mul_right per' h.ge
      _ = b * (high * per') := by ring
      _ ≤ b * (high' * per) := Nat.mul_le_mul_left b hhigh
      _ = b * high' * per := by ring

theorem scale (h : Between low high per a b) (c : Nat) : Between low high per (a * c) (b * c) := by
  constructor
  · calc b * c * low = b * low * c := by ring
      _ ≤ a * per * c := Nat.mul_le_mul_right c h.le
      _ = a * c * per := by ring
  · calc a * c * per = a * per * c := by ring
      _ ≤ b * high * c := Nat.mul_le_mul_right c h.ge
      _ = b * c * high := by ring

theorem cancel (h : Between low high per (a * c) (b * c)) (hc : 0 < c) :
    Between low high per a b := by
  constructor
  · apply Nat.le_of_mul_le_mul_right _ hc
    calc b * low * c = b * c * low := by ring
      _ ≤ a * c * per := h.le
      _ = a * per * c := by ring
  · apply Nat.le_of_mul_le_mul_right _ hc
    calc a * per * c = a * c * per := by ring
      _ ≤ b * c * high := h.ge
      _ = b * high * c := by ring

end Between

namespace Double

variable {num den : Nat}

/-- A quotient is rounded by half of the denominator at most. -/
theorem nearestQuotient_half (num : Nat) (hden : 0 < den) :
    2 * num ≤ 2 * (nearestQuotient num den * den) + den ∧
      2 * (nearestQuotient num den * den) ≤ 2 * num + den := by
  have hdiv := Nat.div_add_mod num den
  have hrest := Nat.mod_lt num hden
  rw [Nat.mul_comm] at hdiv
  unfold nearestQuotient
  dsimp only
  split
  · omega
  · split
    · rw [Nat.add_mul, Nat.one_mul]
      omega
    · rcases Nat.mod_two_eq_zero_or_one (num / den) with heven | hodd
      · rw [heven, Nat.add_zero]
        omega
      · rw [hodd, Nat.add_mul, Nat.one_mul]
        omega

/-- A ratio of one at least is shifted. -/
theorem lt_log2_of_le (hden : 0 < den) (h : den ≤ num) : 52 < (num * unit / den).log2 := by
  have hunit : unit ≤ num * unit / den := by
    apply (Nat.le_div_iff_mul_le hden).mpr
    rw [Nat.mul_comm]
    exact Nat.mul_le_mul_right unit h
  have hpow : 2 ^ 53 ≤ unit := by decide +kernel
  have hne : num * unit / den ≠ 0 := by
    have hpos := unit_pos
    omega
  exact (Nat.le_log2 hne).mpr (Nat.le_trans hpow hunit)

theorem units_ofMagnitude_of_lt (negative : Bool) {m : Nat} (h : m < stepWeight) :
    (ofMagnitude negative m).units = m := by
  have hsign : m < signWeight := Nat.lt_trans h (by decide)
  rw [units, significand, exponent, magnitude_ofMagnitude hsign, if_pos h, Nat.div_eq_of_lt h]
  rfl

/-- A finite number stands for the rounded quotient, shifted back. -/
theorem units_ofRatio (negative : Bool) (hden : 0 < den)
    (hfinite : nearestMagnitude num den < infinite) :
    (ofRatio negative num den).units =
      nearestQuotient (num * unit) (den <<< ((num * unit / den).log2 - 52)) *
        2 ^ ((num * unit / den).log2 - 52) := by
  have hlow : 0 < (num * unit / den).log2 - 52 → stepWeight ≤
      nearestQuotient (num * unit) (den <<< ((num * unit / den).log2 - 52)) := fun hshift =>
    le_nearestQuotient_shifted (num * unit) hden (by omega)
  have hhigh := nearestQuotient_shifted_le (num * unit) hden
  have heq : nearestMagnitude num den = min infinite (((num * unit / den).log2 - 52) * stepWeight +
      nearestQuotient (num * unit) (den <<< ((num * unit / den).log2 - 52))) := rfl
  generalize (num * unit / den).log2 - 52 = shift at hlow hhigh heq ⊢
  generalize nearestQuotient (num * unit) (den <<< shift) = q at hlow hhigh heq ⊢
  have hpattern : nearestMagnitude num den = shift * stepWeight + q := by omega
  rw [ofRatio]
  rcases Nat.lt_or_ge q stepWeight with hsmall | hlarge
  · -- Only a quotient that is not shifted may have fewer digits.
    obtain rfl : shift = 0 := by omega
    rw [Nat.zero_mul, Nat.zero_add] at hpattern
    rw [hpattern, units_ofMagnitude_of_lt negative hsmall, Nat.pow_zero, Nat.mul_one]
  rcases Nat.lt_or_eq_of_le hhigh with hlt | rfl
  · have hnormal : Normal (nearestMagnitude num den) q shift := ⟨hpattern, hlarge, hlt, hfinite⟩
    exact hnormal.units negative
  · -- The quotient was rounded up to a power of two: the next step of the exponent.
    have hnext : nearestMagnitude num den = (shift + 1) * stepWeight + stepWeight := by
      rw [hpattern, Nat.add_mul]
      omega
    have hnormal : Normal (nearestMagnitude num den) stepWeight (shift + 1) :=
      ⟨hnext, Nat.le_refl _, by decide, hfinite⟩
    rw [hnormal.units negative, Nat.pow_succ, Nat.mul_comm 2 stepWeight, Nat.mul_assoc,
      Nat.mul_comm 2]

theorem between_ofRatio (negative : Bool) (hden : 0 < den) (h : den ≤ num)
    (hfinite : nearestMagnitude num den < infinite) :
    Between (2 ^ 53 - 1) (2 ^ 53 + 1) (2 ^ 53) ((ofRatio negative num den).units * den)
      (num * unit) := by
  have hunits := units_ofRatio negative hden hfinite
  have hlarge := stepWeight_mul_le (num * unit) hden (lt_log2_of_le hden h)
  generalize (num * unit / den).log2 - 52 = shift at hunits hlarge
  have hshifted : 0 < den <<< shift := by
    rw [Nat.shiftLeft_eq]
    exact Nat.mul_pos hden (Nat.two_pow_pos shift)
  obtain ⟨hbelow, habove⟩ := nearestQuotient_half (num * unit) hshifted
  have hproduct : (ofRatio negative num den).units * den =
      nearestQuotient (num * unit) (den <<< shift) * (den <<< shift) := by
    rw [hunits, Nat.shiftLeft_eq, Nat.mul_assoc, Nat.mul_comm den]
  rw [hproduct]
  simp only [stepWeight] at hlarge
  constructor
  · omega
  · omega

/-- The magnitude of a double differs from a whole number by one part of it in `2 ^ 51` at most. -/
def Near (d : Double) (n : Nat) : Prop :=
  Between (2 ^ 51 - 1) (2 ^ 51 + 1) (2 ^ 51) d.units (n * unit)

theorem between_ofRatio_one (negative : Bool) {n : Nat} (hpos : 0 < n)
    (hfinite : nearestMagnitude n 1 < infinite) :
    Between (2 ^ 53 - 1) (2 ^ 53 + 1) (2 ^ 53) (ofRatio negative n 1).units (n * unit) := by
  have h := between_ofRatio negative (by omega) hpos hfinite
  rwa [Nat.mul_one] at h

theorem near_ofRatio_one (negative : Bool) {n : Nat} (hpos : 0 < n)
    (hfinite : nearestMagnitude n 1 < infinite) : (ofRatio negative n 1).Near n :=
  (between_ofRatio_one negative hpos hfinite).widen (by decide) (by decide) (by decide)

end Double

end CrashCourier
