import CrashCourier.Json.Reader
import CrashCourier.Proofs.DoubleOrder

namespace CrashCourier.Decimal

open Double
open Json (significandLimit)

variable {n s t j k : Nat}

theorem scaled_le (hs : s ≤ t) (hk : j ≤ k) : s * 10 ^ j ≤ t * 10 ^ k :=
  Nat.mul_le_mul hs (Nat.pow_le_pow_right (by omega) hk)

theorem pow_ten_mono (h : j ≤ k) : Nat.pow 10 j ≤ Nat.pow 10 k :=
  Nat.pow_le_pow_right (by omega) h

theorem units_powerOfTen_mono (h : j ≤ k) : (powerOfTen j).units ≤ (powerOfTen k).units :=
  units_ofNat_mono (pow_ten_mono h)

theorem isFinite_scaled_of_le (hs : s ≤ t) (hk : k ≤ j)
    (h : ((ofNat t).mul (powerOfTen j)).isFinite = true) :
    ((ofNat s).mul (powerOfTen k)).isFinite = true :=
  isFinite_mul_of_le (units_ofNat_mono hs) (units_powerOfTen_mono hk) h

theorem isZero_ofNat_of_pos (h : 0 < s) : (ofNat s).isZero = false := by
  have hone : nearestMagnitude 1 1 ≠ 0 := by decide +kernel
  have hmono : nearestMagnitude 1 1 ≤ nearestMagnitude s 1 := nearestMagnitude_mono (by omega) h
  rw [isZero, ofNat, magnitude_ofRatio, decide_eq_false_iff_not]
  omega

theorem scale_of_le_stepLimit (h : k ≤ stepLimit) (f : Double) : scale f k =
    if (f.mul (powerOfTen k)).isFinite then some (f.mul (powerOfTen k)) else none := by
  have hk : (0 : Int) ≤ k := by omega
  rw [scale, Int.natAbs_natCast, if_pos h, if_pos hk]

theorem scale_eq_none_iff (h : k ≤ stepLimit) (f : Double) :
    scale f k = none ↔ (f.mul (powerOfTen k)).isFinite = false := by
  rw [scale_of_le_stepLimit h]
  cases (f.mul (powerOfTen k)).isFinite <;> simp

theorem scale_eq_some_iff (h : k ≤ stepLimit) {f g : Double} :
    scale f k = some g ↔ f.mul (powerOfTen k) = g ∧ (f.mul (powerOfTen k)).isFinite = true := by
  rw [scale_of_le_stepLimit h]
  cases (f.mul (powerOfTen k)).isFinite <;> simp

/-- A power of ten beyond those of one step is refused, unless the number is zero. -/
theorem scale_of_stepLimit_lt (h : stepLimit < k) {f : Double} (hf : f.isZero = false) :
    scale f k = none := by
  have hk : (0 : Int) ≤ k := by omega
  rw [scale, Int.natAbs_natCast, if_neg (Nat.not_le.mpr h), hf, if_pos hk]
  rfl

/-- The first digits of `n`, as many as 64 bits hold, denote `s`, and `k` digits follow. -/
structure Leading (n s k : Nat) : Prop where
  lt_limit : s < significandLimit
  full : significandLimit ≤ 10 * s + 9
  low : s * 10 ^ k ≤ n
  high : n < (s + 1) * 10 ^ k

/-- No whole number from this one on is read. -/
def refusedFrom : Nat := 17976931348623156225 * 10 ^ 289

theorem significandLimit_le_refusedFrom : significandLimit ≤ refusedFrom := by decide +kernel

namespace Leading

variable (h : Leading n s k)
include h

theorem le_first : 1844674407370955161 ≤ s := by
  have hfull := h.full
  simp only [significandLimit] at hfull
  omega

theorem scale_of_stepLimit_lt (hfar : stepLimit < k) : scale (ofNat s) k = none := by
  have hpos : 0 < s := Nat.lt_of_lt_of_le (by decide) h.le_first
  exact Decimal.scale_of_stepLimit_lt hfar (isZero_ofNat_of_pos hpos)

/-- With 290 digits to follow, any first digits are too many. -/
theorem refusedFrom_le (hk : 290 ≤ k) : refusedFrom ≤ n := by
  calc refusedFrom ≤ 1844674407370955161 * 10 * 10 ^ 289 := Nat.mul_le_mul_right _ (by decide)
    _ = 1844674407370955161 * 10 ^ 290 := by rw [Nat.mul_assoc, ← pow_succ']
    _ ≤ s * 10 ^ k := scaled_le h.le_first hk
    _ ≤ n := h.low

/-- Below the bound the product is no greater than one of two that are finite. -/
theorem scale_ne_none (hn : n < refusedFrom) : scale (ofNat s) k ≠ none := by
  have hk : k < 290 := by
    apply Nat.lt_of_not_le
    intro hlong
    exact Nat.not_le.mpr hn (h.refusedFrom_le hlong)
  have hfinite : ((ofNat s).mul (powerOfTen k)).isFinite = true := by
    rcases Nat.lt_or_eq_of_le (Nat.le_of_lt_succ hk) with hshort | rfl
    · have hmost : ((ofNat 18446744073709551615).mul (powerOfTen 288)).isFinite = true := by
        decide +kernel
      exact isFinite_scaled_of_le (Nat.le_of_lt_succ h.lt_limit) (Nat.le_of_lt_succ hshort) hmost
    · have hlast : ((ofNat 17976931348623156224).mul (powerOfTen 289)).isFinite = true := by
        decide +kernel
      have hs : s < 17976931348623156225 :=
        Nat.lt_of_mul_lt_mul_right (Nat.lt_of_le_of_lt h.low hn)
      exact isFinite_scaled_of_le (Nat.le_of_lt_succ hs) (Nat.le_refl 289) hlast
  have hstep : k ≤ stepLimit := by
    simp only [stepLimit]
    omega
  rw [Ne, scale_eq_none_iff hstep, hfinite]
  exact Bool.noConfusion

/-- From the bound on the product is no smaller than one of two that are infinite, unless the power
of ten is itself too great. -/
theorem scale_eq_none (hn : refusedFrom ≤ n) : scale (ofNat s) k = none := by
  have hk : 289 ≤ k := by
    apply Nat.le_of_not_lt
    intro hshort
    have hless : n < refusedFrom :=
      calc n < (s + 1) * 10 ^ k := h.high
        _ ≤ significandLimit * 10 ^ 288 := scaled_le h.lt_limit (Nat.le_of_lt_succ hshort)
        _ ≤ 17976931348623156225 * 10 * 10 ^ 288 := Nat.mul_le_mul_right _ (by decide)
        _ = refusedFrom := by rw [refusedFrom, Nat.mul_assoc, ← pow_succ']
    exact Nat.not_le.mpr hless hn
  rcases Nat.lt_or_ge stepLimit k with hfar | hstep
  · exact h.scale_of_stepLimit_lt hfar
  · rw [scale_eq_none_iff hstep, ← Bool.not_eq_true]
    intro hfinite
    rcases Nat.lt_or_eq_of_le hk with hlong | rfl
    · have hleast : ((ofNat 1844674407370955161).mul (powerOfTen 290)).isFinite = false := by
        decide +kernel
      have hmono := isFinite_scaled_of_le h.le_first hlong hfinite
      rw [hleast] at hmono
      exact Bool.noConfusion hmono
    · have hfirst : ((ofNat 17976931348623156225).mul (powerOfTen 289)).isFinite = false := by
        decide +kernel
      have hs : 17976931348623156225 < s + 1 :=
        Nat.lt_of_mul_lt_mul_right (Nat.lt_of_le_of_lt hn h.high)
      have hmono := isFinite_scaled_of_le (Nat.le_of_lt_succ hs) (Nat.le_refl 289) hfinite
      rw [hfirst] at hmono
      exact Bool.noConfusion hmono

theorem read_eq_none_iff (negative : Bool) : read negative s k = none ↔ refusedFrom ≤ n := by
  rw [read, Option.map_eq_none_iff]
  constructor
  · intro hnone
    apply Nat.le_of_not_lt
    intro hless
    exact h.scale_ne_none hless hnone
  · exact h.scale_eq_none

end Leading

end CrashCourier.Decimal
