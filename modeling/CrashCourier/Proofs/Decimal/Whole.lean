import CrashCourier.Decimal.Layout
import CrashCourier.Decimal.Scaled
import CrashCourier.Proofs.DoubleExact

namespace CrashCourier.Decimal

open Double

/-- An interval around a whole number that holds no other one. -/
structure Interval.Around (i : Interval) (n : Nat) : Prop where
  num : i.num = n * i.den
  below : 0 < i.below ∧ i.below < 4 * i.den
  above : 0 < i.above ∧ i.above < 4 * i.den

namespace Interval

variable {i : Interval} {n c k : Nat}

theorem Around.contains_iff (h : i.Around n) :
    (i.rescale (k : Int)).contains c = true ↔ c * 10 ^ k = n := by
  have hden : c * (i.den * 10 ^ k) = c * 10 ^ k * i.den := by
    rw [Nat.mul_comm i.den, Nat.mul_assoc]
  have hk : (0 : Int) ≤ k := by omega
  simp only [contains, rescale, if_pos hk, Int.toNat_natCast, Nat.pow_eq, hden, h.num]
  generalize c * 10 ^ k = m
  obtain ⟨hbelow, hbelow'⟩ := h.below
  obtain ⟨habove, habove'⟩ := h.above
  have hle : ∀ a b, 4 * (a * i.den) < 4 * (b * i.den) + 4 * i.den → a ≤ b := by
    intro a b hab
    have hsucc : a * i.den < (b + 1) * i.den := by
      rw [Nat.succ_mul]
      omega
    exact Nat.le_of_lt_succ (Nat.lt_of_mul_lt_mul_right hsucc)
  constructor
  · intro hc
    refine Nat.le_antisymm (hle m n ?_) (hle n m ?_)
    all_goals
      split at hc
      all_goals
        simp only [Bool.and_eq_true, decide_eq_true_eq] at hc
        omega
  · rintro rfl
    split
    all_goals
      simp only [Bool.and_eq_true, decide_eq_true_eq]
      omega

theorem contains_of_nearest? (h : i.nearest? = some c) : i.contains c = true := by
  unfold nearest? at h
  dsimp only at h
  split at h
  · next hlow hhigh =>
    split at h
    · exact Option.some.inj h ▸ hlow
    · split at h
      · exact Option.some.inj h ▸ hhigh
      · obtain rfl := Option.some.inj h
        rcases Nat.mod_two_eq_zero_or_one (i.num / i.den) with heven | hodd
        · rwa [heven]
        · rwa [hodd]
  · next hlow _ => exact Option.some.inj h ▸ hlow
  · next _ hhigh => exact Option.some.inj h ▸ hhigh
  · simp at h

theorem Around.nearest?_ne_none (h : i.Around n) :
    (i.rescale ((0 : Nat) : Int)).nearest? ≠ none := by
  have hden : 0 < i.den := by
    have := h.below
    omega
  have hcentre : i.num * 1 / (i.den * 1) = n := by
    rw [h.num, Nat.mul_one, Nat.mul_one, Nat.mul_div_cancel _ hden]
  have hself : (i.rescale ((0 : Nat) : Int)).contains n = true := by
    rw [h.contains_iff]
    simp
  have hquot : (i.rescale ((0 : Nat) : Int)).num / (i.rescale ((0 : Nat) : Int)).den = n := by
    simpa [rescale] using hcentre
  unfold nearest?
  simp only [hquot, hself]
  split
  · split
    · simp
    · split <;> simp
  · simp
  · next hlow _ => simp at hlow
  · next hlow _ => simp at hlow

end Interval

theorem two_pow_le_unit {k : Nat} (h : k ≤ 1074) : 2 ^ k ≤ unit := by
  obtain ⟨m, hm⟩ := Nat.exists_eq_add_of_le h
  rw [unit_eq hm]
  exact Nat.pow_le_pow_right Nat.two_pos (Nat.le_add_right k m)

theorem around_ofNat {n : Nat} (hpos : 0 < n) (hlt : n < exactLimit) :
    (Interval.ofDouble (ofNat n)).Around n := by
  have hnormal := normal_nearestMagnitude hpos hlt
  have hexponent : (ofNat n).exponent = n.log2 + 1022 := hnormal.exponent false
  have hunits : (ofNat n).units = n * unit := units_ofRatio_one false hlt
  have hlog : n.log2 < 53 := (Nat.log2_lt (by omega)).mpr hlt
  have hwide : 2 * 2 ^ (n.log2 + 1022) < 4 * unit := by
    have hle : n.log2 + 1022 ≤ 1074 := by omega
    have hunit := two_pow_le_unit hle
    have hpos := unit_pos
    omega
  have hpow : 0 < 2 ^ (n.log2 + 1022) := Nat.two_pow_pos _
  constructor
  case num => exact hunits
  case below =>
    simp only [Interval.ofDouble, hexponent, Nat.shiftLeft_eq]
    split
    · omega
    · omega
  case above =>
    simp only [Interval.ofDouble, hexponent, Nat.shiftLeft_eq]
    omega

theorem log2_shiftLeft {n : Nat} (hpos : 0 < n) (k : Nat) : (n <<< k).log2 = n.log2 + k := by
  have hne : n ≠ 0 := by omega
  have hshift : n * 2 ^ k ≠ 0 := Nat.mul_ne_zero hne (Nat.pos_iff_ne_zero.mp (Nat.two_pow_pos k))
  rw [Nat.shiftLeft_eq, Nat.log2_eq_iff hshift, Nat.add_right_comm, Nat.pow_add, Nat.pow_add]
  constructor
  · exact Nat.mul_le_mul_right _ (Nat.log2_self_le hne)
  · exact Nat.mul_lt_mul_of_pos_right Nat.lt_log2_self (Nat.two_pow_pos k)

theorem shiftLeft_eq_mul (n k : Nat) : n <<< k = n * (1 <<< k) := by
  rw [Nat.one_shiftLeft, Nat.shiftLeft_eq]

/-- A whole number has its leading digit before the point, and below `2 ^ 53` sixteen at most. -/
theorem leadingExponent_whole {n : Nat} (hpos : 0 < n) (hlt : n < exactLimit) :
    0 ≤ leadingExponent (n * unit) unit ∧ leadingExponent (n * unit) unit ≤ 16 := by
  have hlog : n.log2 < 53 := (Nat.log2_lt (by omega)).mpr hlt
  have hnum : (n * unit).log2 = n.log2 + 1074 := by
    have hshift : n <<< 1074 = n * unit := shiftLeft_eq_mul n 1074
    rw [← hshift, log2_shiftLeft hpos]
  have hden : unit.log2 = 1074 := by
    rw [unit, log2_shiftLeft Nat.one_pos]
    rfl
  have hone : leadingExponent.atLeast (n * unit) unit 0 = true := by
    simpa [leadingExponent.atLeast] using Nat.le_mul_of_pos_left unit hpos
  have hdiff : ((n.log2 + 1074 : Nat) : Int) - (1074 : Nat) = n.log2 := by omega
  have hguess : 0 ≤ ((n.log2 : Int) * 30103).fdiv 100000 ∧
      ((n.log2 : Int) * 30103).fdiv 100000 ≤ 15 := by
    rw [Int.fdiv_eq_ediv_of_nonneg _ (by omega)]
    omega
  unfold leadingExponent
  simp only [hnum, hden, hdiff]
  generalize ((n.log2 : Int) * 30103).fdiv 100000 = guess at hguess
  split
  · omega
  · split
    · omega
    · next hnot =>
      have hne : guess ≠ 0 := fun heq => hnot (heq ▸ hone)
      omega

theorem stripZeros_scales (fuel : Nat) (d : Digits) :
    ∃ j : Nat, (stripZeros fuel d).exponent = d.exponent + j ∧
      (stripZeros fuel d).digits * 10 ^ j = d.digits := by
  induction fuel generalizing d with
  | zero => exact ⟨0, by simp [stripZeros], by simp [stripZeros]⟩
  | succ fuel ih =>
    unfold stripZeros
    split
    · next hzero =>
      obtain ⟨j, hexponent, hdigits⟩ := ih ⟨d.digits / 10, d.exponent + 1⟩
      refine ⟨j + 1, ?_, ?_⟩
      · dsimp only at hexponent
        omega
      · dsimp only at hdigits
        rw [Nat.pow_succ, ← Nat.mul_assoc, hdigits]
        omega
    · exact ⟨0, by simp, by simp⟩

/-- The shortest digits of a whole number denote it, with zeros after them at most. -/
theorem shortest_ofNat {n : Nat} (hpos : 0 < n) (hlt : n < exactLimit) :
    ∃ c k : Nat, shortest (ofNat n) = ⟨c, k⟩ ∧ c * 10 ^ k = n := by
  have haround := around_ofNat hpos hlt
  have hunits : (Interval.ofDouble (ofNat n)).num = n * unit := haround.num
  have hden : (Interval.ofDouble (ofNat n)).den = unit := rfl
  obtain ⟨hlow, hhigh⟩ := leadingExponent_whole hpos hlt
  unfold shortest
  simp only [hunits, hden]
  generalize leadingExponent (n * unit) unit = top at hlow hhigh
  generalize hfound : (List.range enough).findSome? (fun (m : Nat) =>
    ((Interval.ofDouble (ofNat n)).rescale (top - m)).nearest?.map fun c =>
      (⟨c, top - m⟩ : Digits)) = found
  have htop : top.toNat ∈ List.range enough := List.mem_range.mpr (by simp only [enough]; omega)
  have hzero : top - (top.toNat : Int) = ((0 : Nat) : Int) := by omega
  cases found with
  | none =>
    have hall := List.findSome?_eq_none_iff.mp hfound top.toNat htop
    rw [hzero, Option.map_eq_none_iff] at hall
    exact absurd hall haround.nearest?_ne_none
  | some d =>
    obtain ⟨before, m, after, hrange, hm, hbefore⟩ := List.findSome?_eq_some_iff.mp hfound
    -- The grid of the whole numbers has a point, so that no finer one is tried.
    have hle : m ≤ top.toNat := by
      rw [hrange, List.mem_append, List.mem_cons] at htop
      have hsorted := List.pairwise_lt_range (n := enough)
      rw [hrange, List.pairwise_append, List.pairwise_cons] at hsorted
      rcases htop with htop | htop | htop
      · have hnone := hbefore _ htop
        rw [hzero, Option.map_eq_none_iff] at hnone
        exact absurd hnone haround.nearest?_ne_none
      · exact Nat.le_of_eq htop.symm
      · exact Nat.le_of_lt (hsorted.2.1.1 _ htop)
    obtain ⟨c, hc, rfl⟩ := Option.map_eq_some_iff.mp hm
    have hexponent : top - (m : Int) = ((top.toNat - m : Nat) : Int) := by omega
    have hvalue := Interval.contains_of_nearest? hc
    rw [hexponent, haround.contains_iff] at hvalue
    obtain ⟨j, hj, hdigits⟩ := stripZeros_scales enough ⟨c, top - m⟩
    refine ⟨(stripZeros enough ⟨c, top - m⟩).digits, top.toNat - m + j, ?_, ?_⟩
    · have hj' : (stripZeros enough ⟨c, top - m⟩).exponent = ((top.toNat - m + j : Nat) : Int) := by
        rw [hj]
        dsimp only
        omega
      rw [Option.getD_some, ← hj']
    · rw [Nat.add_comm, Nat.pow_add, ← Nat.mul_assoc, hdigits]
      exact hvalue

theorem toDigits_mul_pow {c : Nat} (hpos : 0 < c) (k : Nat) :
    Nat.toDigits 10 (c * 10 ^ k) = Nat.toDigits 10 c ++ List.replicate k '0' := by
  induction k with
  | zero => simp
  | succ k ih =>
    have hshift : c * 10 ^ (k + 1) = 10 * (c * 10 ^ k) := by
      rw [Nat.pow_succ, ← Nat.mul_assoc, Nat.mul_comm]
    have hleast : 0 < c * 10 ^ k := Nat.mul_pos hpos (Nat.pow_pos (by omega))
    have hdiv : c * 10 ^ (k + 1) / 10 = c * 10 ^ k := by omega
    have hmod : c * 10 ^ (k + 1) % 10 = 0 := by omega
    rw [Nat.toDigits_of_base_le (by omega) (by omega), hdiv, hmod, ih, List.append_assoc,
      List.replicate_succ']
    rfl

/-- A whole number of few enough digits is written with all of them. -/
theorem Layout.digits_whole {l : Layout} {c k : Nat} (hpos : 0 < c) (hleast : l.least ≤ 0)
    (hshort : ((Nat.toDigits 10 (c * 10 ^ k)).length : Int) ≤ l.greatest + 1) :
    l.digits ⟨c, k⟩ = toString (c * 10 ^ k) ++ l.wholeTail := by
  have hdigits := toDigits_mul_pow hpos k
  have hlength : (Nat.toDigits 10 (c * 10 ^ k)).length = (Nat.toDigits 10 c).length + k := by
    rw [hdigits, List.length_append, List.length_replicate]
  have hone := Nat.length_toDigits_pos (b := 10) (n := c)
  have hexponent : (k : Int) + (Nat.toDigits 10 c).length - 1 =
      (((Nat.toDigits 10 c).length + k - 1 : Nat) : Int) := by omega
  have hplaces : (Nat.toDigits 10 c).length + k - 1 + 1 = (Nat.toDigits 10 c).length + k := by omega
  have hrange : l.least ≤ (((Nat.toDigits 10 c).length + k - 1 : Nat) : Int) ∧
      (((Nat.toDigits 10 c).length + k - 1 : Nat) : Int) ≤ l.greatest := by omega
  have hsign : ¬ (((Nat.toDigits 10 c).length + k - 1 : Nat) : Int) < 0 := by omega
  unfold digits
  simp only [hexponent, if_pos hrange, if_neg hsign, Int.toNat_natCast, hplaces]
  rw [List.take_of_length_le (by omega), List.drop_eq_nil_of_le (by omega),
    Nat.toString_eq_ofList_toDigits, hdigits, String.ofList_append, Nat.add_sub_cancel_left]
  rfl

theorem nearestQuotient_mul {k : Nat} (hpos : 0 < k) (num den : Nat) :
    nearestQuotient (k * num) (k * den) = nearestQuotient num den := by
  have hlt : ∀ a b, 2 * (k * a) < k * b ↔ 2 * a < b := by
    intro a b
    rw [Nat.mul_left_comm, Nat.mul_lt_mul_left hpos]
  have hgt : ∀ a b, k * b < 2 * (k * a) ↔ b < 2 * a := by
    intro a b
    rw [Nat.mul_left_comm, Nat.mul_lt_mul_left hpos]
  simp only [nearestQuotient, Nat.mul_div_mul_left _ _ hpos, Nat.mul_mod_mul_left, hlt, hgt]

/-- The number nearest to a ratio depends on the ratio only. -/
theorem nearestMagnitude_mul {k : Nat} (hpos : 0 < k) (num den : Nat) :
    nearestMagnitude (k * num) (k * den) = nearestMagnitude num den := by
  have hshift : ∀ s, (k * den) <<< s = k * den <<< s := by
    intro s
    rw [Nat.shiftLeft_eq, Nat.shiftLeft_eq, Nat.mul_assoc]
  simp only [nearestMagnitude, Nat.mul_assoc k num, Nat.mul_div_mul_left _ _ hpos, hshift,
    nearestQuotient_mul hpos]

/-- Ten times a whole number, read as tenths, is that number. -/
theorem read_tenths {n : Nat} (hlt : 10 * n < exactLimit) :
    read false (10 * n) (-1) = some (ofNat n) := by
  have hnum : (ofNat (10 * n)).units = 10 * n * unit := units_ofRatio_one false hlt
  have hten : (powerOfTen 1).units = 10 * unit :=
    units_ofRatio_one false (by decide)
  have hsign : ∀ {m}, m < exactLimit → (ofNat m).isNegative = false := by
    intro m hm
    have hfinite := nearestMagnitude_lt hm
    apply isNegative_ofMagnitude
    simp only [infinite, signWeight] at hfinite ⊢
    omega
  have hquotient : (ofNat (10 * n)).div (powerOfTen 1) = ofNat n := by
    have hnegative : (powerOfTen 1).isNegative = false := hsign (by decide)
    have hratio := nearestMagnitude_mul (Nat.mul_pos (by omega) unit_pos : 0 < 10 * unit) n 1
    rw [Nat.mul_one] at hratio
    rw [div, hnum, hten, hsign hlt, hnegative, ofRatio, Nat.mul_right_comm, hratio]
    rfl
  unfold read scale
  simp [stepLimit, hquotient]

end CrashCourier.Decimal
