import CrashCourier.Proofs.Decimal.OutOfRange
import CrashCourier.Proofs.DoubleError

namespace CrashCourier.Decimal

open Double
open Json (significandLimit)

variable {n s k : Nat} {d : Double}

theorem nearestMagnitude_lt_of_lt_limit (h : s < significandLimit) :
    nearestMagnitude s 1 < infinite := by
  have hmost : nearestMagnitude 18446744073709551615 1 < infinite := by decide +kernel
  have hmono := nearestMagnitude_mono Nat.one_pos (Nat.le_of_lt_succ h)
  exact Nat.lt_of_le_of_lt hmono hmost

theorem nearestMagnitude_powerOfTen_lt (h : k ≤ stepLimit) :
    nearestMagnitude (Nat.pow 10 k) 1 < infinite := by
  have hmost : nearestMagnitude (Nat.pow 10 stepLimit) 1 < infinite := by decide +kernel
  have hmono := nearestMagnitude_mono Nat.one_pos (pow_ten_mono h)
  exact Nat.lt_of_le_of_lt hmono hmost

theorem unit_le_units_ofNat (h : 0 < n) : unit ≤ (ofNat n).units := by
  have hone : (ofNat 1).units = 1 * unit := units_ofRatio_one false (by decide)
  have hmono : (ofNat 1).units ≤ (ofNat n).units := units_ofNat_mono h
  omega

/-- Of three roundings each costs one part in `2 ^ 53`. -/
theorem between_scaled (hs : 0 < s) (hlimit : s < significandLimit) (hk : k ≤ stepLimit)
    (hfinite : ((ofNat s).mul (powerOfTen k)).isFinite = true) :
    Between ((2 ^ 53 - 1) * ((2 ^ 53 - 1) * (2 ^ 53 - 1)))
      ((2 ^ 53 + 1) * ((2 ^ 53 + 1) * (2 ^ 53 + 1))) (2 ^ 53 * (2 ^ 53 * 2 ^ 53))
      ((ofNat s).mul (powerOfTen k)).units (s * 10 ^ k * unit) := by
  have hten : 0 < Nat.pow 10 k := Nat.pow_pos (by omega)
  have hsignificand := between_ofRatio_one false hs (nearestMagnitude_lt_of_lt_limit hlimit)
  have hpower := between_ofRatio_one false hten (nearestMagnitude_powerOfTen_lt hk)
  have hfactors := hsignificand.mul hpower
  have hunits : unit * unit ≤ (ofNat s).units * (powerOfTen k).units :=
    Nat.mul_le_mul (unit_le_units_ofNat hs) (unit_le_units_ofNat hten)
  rw [isFinite_mul, decide_eq_true_iff] at hfinite
  have hproduct := between_ofRatio ((ofNat s).isNegative != (powerOfTen k).isNegative)
    (Nat.mul_pos unit_pos unit_pos) hunits hfinite
  rw [← Nat.mul_assoc] at hproduct
  have hrounded := (hproduct.cancel unit_pos).trans hfactors
  have hexact : s * unit * (Nat.pow 10 k * unit) = s * 10 ^ k * unit * unit := by
    rw [Nat.pow_eq]
    ring
  rw [hexact] at hrounded
  exact hrounded.cancel unit_pos

namespace Leading

variable (h : Leading n s k)
include h

/-- The digits passed over are less than one part in `2 ^ 60`. -/
theorem between_low : Between (2 ^ 60 - 1) (2 ^ 60) (2 ^ 60) (s * 10 ^ k) n := by
  have hfirst : 2 ^ 60 ≤ s := Nat.le_trans (by decide) h.le_first
  have hlow := h.low
  have hhigh := h.high
  have hrest : 2 ^ 60 * 10 ^ k ≤ s * 10 ^ k := Nat.mul_le_mul_right _ hfirst
  rw [Nat.add_mul, Nat.one_mul] at hhigh
  constructor
  · omega
  · exact Nat.mul_le_mul_right _ hlow

/-- What is read is finite, has its sign and is near the number. -/
theorem near_of_read {negative : Bool} (hread : read negative s k = some d) :
    d.isFinite = true ∧ d.isNegative = negative ∧ d.Near n := by
  obtain ⟨f, hscale, rfl⟩ := Option.map_eq_some_iff.mp hread
  have hstep : k ≤ stepLimit := by
    apply Nat.le_of_not_lt
    intro hfar
    rw [h.scale_of_stepLimit_lt hfar] at hscale
    cases hscale
  obtain ⟨rfl, hfinite⟩ := (scale_eq_some_iff hstep).mp hscale
  have hpos : 0 < s := Nat.lt_of_lt_of_le (by decide) h.le_first
  have hnear : ((ofNat s).mul (powerOfTen k)).Near n :=
    ((between_scaled hpos h.lt_limit hstep hfinite).trans (h.between_low.scale unit)).widen
      (by decide) (by decide) (by decide)
  have hsign : ((ofNat s).mul (powerOfTen k)).isNegative = false := by
    rw [mul, isNegative_ofRatio, powerOfTen, ofNat, ofNat, isNegative_ofRatio, isNegative_ofRatio]
    rfl
  cases negative with
  | false => exact ⟨hfinite, hsign, hnear⟩
  | true =>
    have hnegative : ((ofNat s).mul (powerOfTen k)).neg.isNegative = true := by
      rw [isNegative_neg, hsign]
      rfl
    refine ⟨(isFinite_neg _).trans hfinite, hnegative, ?_⟩
    rw [if_pos rfl, Near, units_neg]
    exact hnear

end Leading

end CrashCourier.Decimal
