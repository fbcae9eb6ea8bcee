import CrashCourier.Proofs.DoubleExact

namespace CrashCourier.Double

variable {m n den : Nat} {a b c d : Double}

theorem le_nearestQuotient (num den : Nat) : num / den ≤ nearestQuotient num den := by
  unfold nearestQuotient
  grind

theorem nearestQuotient_le (num den : Nat) : nearestQuotient num den ≤ num / den + 1 := by
  unfold nearestQuotient
  grind

theorem nearestQuotient_mono (h : m ≤ n) : nearestQuotient m den ≤ nearestQuotient n den := by
  have hdiv : m / den ≤ n / den := Nat.div_le_div_right h
  rcases Nat.lt_or_eq_of_le hdiv with hlt | heq
  · have hm := nearestQuotient_le m den
    have hn := le_nearestQuotient n den
    omega
  · have hm := Nat.div_add_mod m den
    have hn := Nat.div_add_mod n den
    rw [heq] at hm
    have hrest : m % den ≤ n % den := by omega
    unfold nearestQuotient
    rw [heq]
    grind

theorem log2_mono (h : m ≤ n) : m.log2 ≤ n.log2 := by
  rcases Nat.eq_zero_or_pos m with rfl | hpos
  · exact Nat.zero_le _
  · have hn : n ≠ 0 := by omega
    have hself := Nat.log2_self_le (show m ≠ 0 by omega)
    exact (Nat.le_log2 hn).mpr (Nat.le_trans hself h)

/-- A quotient has at most 53 binary digits once it is shifted. -/
theorem nearestQuotient_shifted_le (num : Nat) (hden : 0 < den) :
    nearestQuotient num (den <<< ((num / den).log2 - 52)) ≤ 2 * stepWeight := by
  generalize hshift : (num / den).log2 - 52 = shift
  have hpow : 2 ^ ((num / den).log2 + 1) ≤ 2 * stepWeight * 2 ^ shift := by
    rw [show 2 * stepWeight = 2 ^ 53 by decide, ← Nat.pow_add]
    exact Nat.pow_le_pow_right (by omega) (by omega)
  have hquotient : num / den < 2 * stepWeight * 2 ^ shift :=
    Nat.lt_of_lt_of_le Nat.lt_log2_self hpow
  have hnum : num < 2 * stepWeight * (den <<< shift) := by
    have hmul := (Nat.div_lt_iff_lt_mul hden).mp hquotient
    rwa [Nat.shiftLeft_eq, Nat.mul_comm den, ← Nat.mul_assoc]
  have hpos : 0 < den <<< shift := by
    rw [Nat.shiftLeft_eq]
    exact Nat.mul_pos hden (Nat.two_pow_pos shift)
  have hless := (Nat.div_lt_iff_lt_mul hpos).mpr hnum
  have hnearest := nearestQuotient_le num (den <<< shift)
  omega

/-- What is shifted has 53 binary digits at least. -/
theorem stepWeight_mul_le (num : Nat) (hden : 0 < den) (h : 52 < (num / den).log2) :
    stepWeight * (den <<< ((num / den).log2 - 52)) ≤ num := by
  have hne : num / den ≠ 0 := by
    intro hzero
    rw [hzero] at h
    exact absurd h (by decide)
  have hself := Nat.log2_self_le hne
  generalize hshift : (num / den).log2 - 52 = shift
  have hlog : (num / den).log2 = 52 + shift := by omega
  have hquotient : stepWeight * 2 ^ shift ≤ num / den := by
    rwa [hlog, Nat.pow_add] at hself
  have hmul := (Nat.le_div_iff_mul_le hden).mp hquotient
  rwa [Nat.shiftLeft_eq, Nat.mul_comm den, ← Nat.mul_assoc]

theorem le_nearestQuotient_shifted (num : Nat) (hden : 0 < den) (h : 52 < (num / den).log2) :
    stepWeight ≤ nearestQuotient num (den <<< ((num / den).log2 - 52)) := by
  have hnum := stepWeight_mul_le num hden h
  have hpos : 0 < den <<< ((num / den).log2 - 52) := by
    rw [Nat.shiftLeft_eq]
    exact Nat.mul_pos hden (Nat.two_pow_pos _)
  have hmany := (Nat.le_div_iff_mul_le hpos).mpr hnum
  exact Nat.le_trans hmany (le_nearestQuotient num _)

/-- A greater ratio has the same shift and no smaller quotient, or a greater shift: then it lies
behind all quotients of the smaller one. -/
theorem nearestMagnitude_mono (hden : 0 < den) (h : m ≤ n) :
    nearestMagnitude m den ≤ nearestMagnitude n den := by
  have hscaled : m * unit ≤ n * unit := Nat.mul_le_mul_right unit h
  have hlog : (m * unit / den).log2 ≤ (n * unit / den).log2 :=
    log2_mono (Nat.div_le_div_right hscaled)
  have hpattern : ((m * unit / den).log2 - 52) * stepWeight +
        nearestQuotient (m * unit) (den <<< ((m * unit / den).log2 - 52)) ≤
      ((n * unit / den).log2 - 52) * stepWeight +
        nearestQuotient (n * unit) (den <<< ((n * unit / den).log2 - 52)) := by
    rcases Nat.lt_or_ge ((m * unit / den).log2 - 52) ((n * unit / den).log2 - 52) with hlt | hge
    · have hlow := nearestQuotient_shifted_le (m * unit) hden
      have hhigh := le_nearestQuotient_shifted (n * unit) hden (by omega)
      have hshift := Nat.mul_le_mul_right stepWeight hlt
      rw [Nat.succ_mul] at hshift
      omega
    · have hsame : (m * unit / den).log2 - 52 = (n * unit / den).log2 - 52 := by omega
      rw [hsame]
      exact Nat.add_le_add_left (nearestQuotient_mono hscaled) _
  unfold nearestMagnitude
  apply Nat.le_min.mpr
  constructor
  · exact Nat.min_le_left _ _
  · exact Nat.le_trans (Nat.min_le_right _ _) hpattern

/-- What a pattern denotes lies below the next step of the exponent. -/
theorem units_lt (d : Double) : d.units < stepWeight * 2 ^ (d.magnitude / stepWeight) := by
  rw [units, Nat.shiftLeft_eq, exponent, significand]
  split
  · next hsmall =>
    have hstep : d.magnitude / stepWeight = 0 := Nat.div_eq_of_lt hsmall
    rw [hstep, Nat.pow_zero, Nat.mul_one, Nat.mul_one]
    exact hsmall
  · next hlarge =>
    have hstep : 0 < d.magnitude / stepWeight :=
      Nat.div_pos (Nat.le_of_not_lt hlarge) (by decide)
    have hrest : d.magnitude % stepWeight < stepWeight := Nat.mod_lt _ (by decide)
    obtain ⟨shift, hshift⟩ : ∃ shift, d.magnitude / stepWeight = shift + 1 :=
      ⟨d.magnitude / stepWeight - 1, by omega⟩
    rw [hshift, Nat.add_sub_cancel, Nat.pow_succ', ← Nat.mul_assoc]
    apply Nat.mul_lt_mul_of_pos_right
    · omega
    · exact Nat.two_pow_pos shift

theorem le_units (d : Double) (h : 0 < d.magnitude / stepWeight) :
    stepWeight * 2 ^ (d.magnitude / stepWeight - 1) ≤ d.units := by
  have hlarge : ¬ d.magnitude < stepWeight := by
    intro hsmall
    rw [Nat.div_eq_of_lt hsmall] at h
    exact Nat.lt_irrefl 0 h
  rw [units, Nat.shiftLeft_eq, exponent, significand, if_neg hlarge]
  exact Nat.mul_le_mul_right _ (Nat.le_add_right _ _)

/-- A greater pattern denotes no smaller magnitude. -/
theorem units_le_of_magnitude_le (h : a.magnitude ≤ b.magnitude) : a.units ≤ b.units := by
  have hsteps : a.magnitude / stepWeight ≤ b.magnitude / stepWeight := Nat.div_le_div_right h
  rcases Nat.lt_or_eq_of_le hsteps with hlt | heq
  · have hlow := units_lt a
    have hhigh := le_units b (Nat.zero_lt_of_lt hlt)
    have hpow : stepWeight * 2 ^ (a.magnitude / stepWeight) ≤
        stepWeight * 2 ^ (b.magnitude / stepWeight - 1) :=
      Nat.mul_le_mul_left _ (Nat.pow_le_pow_right (by omega) (Nat.le_sub_one_of_lt hlt))
    omega
  · have hsignificand : a.significand ≤ b.significand := by
      have ha := Nat.div_add_mod a.magnitude stepWeight
      have hb := Nat.div_add_mod b.magnitude stepWeight
      rw [heq] at ha
      have hrest : b.magnitude % stepWeight ≤ b.magnitude := Nat.mod_le _ _
      have hpos : 0 < stepWeight := by decide
      unfold significand
      split <;> split <;> omega
    rw [units, units, exponent, exponent, heq, Nat.shiftLeft_eq, Nat.shiftLeft_eq]
    exact Nat.mul_le_mul_right _ hsignificand

theorem nearestMagnitude_lt_signWeight (num den : Nat) :
    nearestMagnitude num den < signWeight := by
  have hle : nearestMagnitude num den ≤ infinite := Nat.min_le_left _ _
  simp only [infinite, signWeight] at hle ⊢
  omega

theorem magnitude_ofRatio (negative : Bool) (num den : Nat) :
    (ofRatio negative num den).magnitude = nearestMagnitude num den :=
  magnitude_ofMagnitude (nearestMagnitude_lt_signWeight num den)

theorem isNegative_ofRatio (negative : Bool) (num den : Nat) :
    (ofRatio negative num den).isNegative = negative :=
  isNegative_ofMagnitude (nearestMagnitude_lt_signWeight num den)

theorem magnitude_lt (d : Double) : d.magnitude < signWeight := Nat.mod_lt _ (by decide)

theorem magnitude_neg (d : Double) : d.neg.magnitude = d.magnitude :=
  magnitude_ofMagnitude d.magnitude_lt

theorem isNegative_neg (d : Double) : d.neg.isNegative = !d.isNegative :=
  isNegative_ofMagnitude d.magnitude_lt

theorem isFinite_neg (d : Double) : d.neg.isFinite = d.isFinite := by
  rw [isFinite, isFinite, magnitude_neg]

theorem units_neg (d : Double) : d.neg.units = d.units := by
  simp only [units, significand, exponent, magnitude_neg]

theorem units_ofNat_mono (h : m ≤ n) : (ofNat m).units ≤ (ofNat n).units := by
  apply units_le_of_magnitude_le
  rw [ofNat, ofNat, magnitude_ofRatio, magnitude_ofRatio]
  exact nearestMagnitude_mono (by omega) h

theorem isFinite_mul (a b : Double) : (a.mul b).isFinite =
    decide (nearestMagnitude (a.units * b.units) (unit * unit) < infinite) := by
  rw [mul, isFinite, magnitude_ofRatio]

/-- A product is finite if one of greater factors is. -/
theorem isFinite_mul_of_le (hac : a.units ≤ c.units) (hbd : b.units ≤ d.units)
    (h : (c.mul d).isFinite = true) : (a.mul b).isFinite = true := by
  rw [isFinite_mul, decide_eq_true_iff] at h ⊢
  have hunits : 0 < unit * unit := Nat.mul_pos unit_pos unit_pos
  have hmono := nearestMagnitude_mono hunits (Nat.mul_le_mul hac hbd)
  omega

end CrashCourier.Double
