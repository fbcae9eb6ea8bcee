import CrashCourier.Json.Reader
import CrashCourier.Json.Writer
import CrashCourier.Proofs.Text.Ascii

namespace CrashCourier.Json

/-- These bytes cannot belong to a number that stands before them. -/
def EndsNumber (rest : Bytes) : Prop :=
  ∀ b ∈ rest.head?, isDigit b = false ∧ b ≠ point ∧ isExponentMark b = false

theorem endsNumber_nil : EndsNumber [] := by
  intro b hb
  simp at hb

theorem endsNumber_cons {b : UInt8} {rest : Bytes} (hd : isDigit b = false) (hp : b ≠ point)
    (he : isExponentMark b = false) : EndsNumber (b :: rest) := by
  intro c hc
  obtain rfl : b = c := by simpa using hc
  exact ⟨hd, hp, he⟩

theorem isDigit_of_mem_bytes {cs : List Char} (h : ∀ c ∈ cs, c.isDigit = true) :
    ∀ b ∈ Text.bytes (String.ofList cs), isDigit b = true := by
  have hrange : ∀ c ∈ cs, 48 ≤ c.toNat ∧ c.toNat ≤ 57 := by
    intro c hc
    have hd := h c hc
    simp only [Char.isDigit, Bool.and_eq_true, decide_eq_true_eq] at hd
    exact ⟨hd.1, hd.2⟩
  have hdigit : ∀ n < 58, 48 ≤ n → isDigit (UInt8.ofNat n) = true := by decide
  rw [Text.bytes_ofList_ascii fun c hc => by have := hrange c hc; omega]
  intro b hb
  obtain ⟨c, hc, rfl⟩ := List.mem_map.mp hb
  obtain ⟨hlow, hhigh⟩ := hrange c hc
  exact hdigit c.toNat (by omega) hlow

def digitByte (n : Nat) : UInt8 := UInt8.ofNat (0x30 + n)

theorem isDigit_digitByte : ∀ n < 10, isDigit (digitByte n) = true := by decide

theorem digitValue_digitByte : ∀ n < 10, digitValue (digitByte n) = n := by decide

/-- The number that digits denote after those of `start`. -/
def digitsValue (start : Nat) (ds : Bytes) : Nat :=
  ds.foldl (fun n b => 10 * n + digitValue b) start

theorem digitsValue_append (start : Nat) (ds es : Bytes) :
    digitsValue start (ds ++ es) = digitsValue (digitsValue start ds) es := by
  simp [digitsValue]

theorem le_digitsValue (start : Nat) (ds : Bytes) : start ≤ digitsValue start ds := by
  induction ds generalizing start with
  | nil => simp [digitsValue]
  | cons d ds ih =>
    have h := ih (10 * start + digitValue d)
    simp only [digitsValue, List.foldl_cons] at h ⊢
    omega

/-- The digits of a whole number, without leading zeros. -/
def decimal (n : Nat) : Bytes := Text.bytes (toString n)

theorem decimal_eq_map (n : Nat) :
    decimal n = (Nat.toDigits 10 n).map fun c => UInt8.ofNat c.toNat := by
  rw [decimal, Nat.toString_eq_ofList_toDigits]
  apply Text.bytes_ofList_ascii
  intro c hc
  have hd := Nat.isDigit_of_mem_toDigits (by omega) (by omega) hc
  simp only [Char.isDigit, Bool.and_eq_true, decide_eq_true_eq] at hd
  have : c.toNat ≤ 57 := hd.2
  omega

theorem decimal_of_lt {n : Nat} (h : n < 10) : decimal n = [digitByte n] := by
  rw [decimal_eq_map, Nat.toDigits_of_lt_base h]
  simp [digitByte, Nat.toNat_digitChar_of_lt_ten h]

theorem decimal_of_le {n : Nat} (h : 10 ≤ n) :
    decimal n = decimal (n / 10) ++ [digitByte (n % 10)] := by
  have hm : n % 10 < 10 := Nat.mod_lt _ (by omega)
  rw [decimal_eq_map, decimal_eq_map, Nat.toDigits_of_base_le (by omega) h]
  simp [digitByte, Nat.toNat_digitChar_of_lt_ten hm]

theorem isDigit_of_mem_decimal {n : Nat} : ∀ b ∈ decimal n, isDigit b = true := by
  rw [decimal, Nat.toString_eq_ofList_toDigits]
  exact isDigit_of_mem_bytes fun c hc => Nat.isDigit_of_mem_toDigits (by omega) (by omega) hc

theorem digitsValue_decimal (n : Nat) : digitsValue 0 (decimal n) = n := by
  induction n using Nat.strongRecOn with
  | ind n ih =>
    by_cases h : n < 10
    · rw [decimal_of_lt h]
      simpa [digitsValue] using digitValue_digitByte n h
    · have hm := digitValue_digitByte (n % 10) (Nat.mod_lt _ (by omega))
      rw [decimal_of_le (by omega), digitsValue_append, ih (n / 10) (by omega)]
      simp only [digitsValue, List.foldl_cons, List.foldl_nil, hm]
      omega

/-- Digits come first, and a zero only if it is the only one. -/
theorem decimal_eq_cons (n : Nat) :
    ∃ d ds, decimal n = d :: ds ∧ isDigit d = true ∧ (0 < n → d ≠ zeroDigit) := by
  induction n using Nat.strongRecOn with
  | ind n ih =>
    by_cases hn : n < 10
    · refine ⟨digitByte n, [], decimal_of_lt hn, isDigit_digitByte n hn, ?_⟩
      have : ∀ m < 10, 0 < m → digitByte m ≠ zeroDigit := by decide
      exact this n hn
    · obtain ⟨d, ds, he, hd, hz⟩ := ih (n / 10) (by omega)
      have heq : decimal n = d :: (ds ++ [digitByte (n % 10)]) := by
        rw [decimal_of_le (by omega), he]
        rfl
      exact ⟨d, _, heq, hd, fun _ => hz (by omega)⟩

theorem readTail_of_endsNumber (n : Nat) {rest : Bytes} (h : EndsNumber rest) :
    readTail n rest = .ok (.whole n, rest) := by
  cases rest with
  | nil => rfl
  | cons b rest =>
    obtain ⟨_, hp, he⟩ := h b (by simp)
    simp [readTail, hp, he]

/-- Digits that fit the significand are all read. -/
theorem readDigits_append {ds rest : Bytes} {start : Nat} (hds : ∀ b ∈ ds, isDigit b = true)
    (hlt : digitsValue start ds < significandLimit) (hr : ∀ b ∈ rest.head?, isDigit b = false) :
    readDigits start (ds ++ rest) = readTail (digitsValue start ds) rest := by
  induction ds generalizing start with
  | nil =>
    cases rest with
    | nil => rfl
    | cons b rest =>
      have hb := hr b (by simp)
      simp [readDigits, hb, digitsValue]
  | cons d ds ih =>
    have hd := hds d (by simp)
    have hle := le_digitsValue (10 * start + digitValue d) ds
    have heq : digitsValue start (d :: ds) = digitsValue (10 * start + digitValue d) ds := rfl
    rw [heq] at hlt ⊢
    have hnext : 10 * start + digitValue d < significandLimit := by omega
    simp only [List.cons_append, readDigits, hd, ↓reduceIte, hnext]
    exact ih (fun b hb => hds b (List.mem_cons_of_mem _ hb)) hlt

/-- A whole number is read up to what follows its digits. -/
theorem readNumeral_decimal_append {n : Nat} {rest : Bytes} (hlt : n < significandLimit)
    (hr : ∀ b ∈ rest.head?, isDigit b = false) :
    readNumeral (decimal n ++ rest) = readTail n rest := by
  rcases Nat.eq_zero_or_pos n with rfl | hpos
  · have hz : decimal 0 = [zeroDigit] := by
      rw [decimal_of_lt (by omega)]
      rfl
    have hh : rest.head?.any isDigit = false := by
      cases rest with
      | nil => rfl
      | cons b rest => simpa using hr b (by simp)
    simp [readNumeral, hz, hh]
  · obtain ⟨d, ds, he, hd, hnz⟩ := decimal_eq_cons n
    have hz := hnz hpos
    have hv := digitsValue_decimal n
    rw [he] at hv
    have hv' : digitsValue (digitValue d) ds = n := by simpa [digitsValue] using hv
    have hds : ∀ b ∈ ds, isDigit b = true := fun b hb =>
      isDigit_of_mem_decimal (n := n) b (he ▸ List.mem_cons_of_mem _ hb)
    rw [he, List.cons_append]
    simp only [readNumeral, hz, hd, ↓reduceIte]
    rw [readDigits_append hds (by omega) hr, hv']

theorem readNumeral_decimal {n : Nat} {rest : Bytes} (hlt : n < significandLimit)
    (hr : EndsNumber rest) : readNumeral (decimal n ++ rest) = .ok (.whole n, rest) := by
  rw [readNumeral_decimal_append hlt fun b hb => (hr b hb).1, readTail_of_endsNumber n hr]

theorem writeInt_of_nonneg {n : Int32} (h : 0 ≤ n.toInt) : writeInt n = decimal n.toInt.toNat := by
  obtain ⟨m, hm⟩ := Int.eq_ofNat_of_zero_le h
  rw [writeInt, hm]
  rfl

theorem writeInt_of_neg {n : Int32} (h : n.toInt < 0) :
    writeInt n = minus :: decimal n.toInt.natAbs := by
  obtain ⟨m, hm⟩ := Int.eq_negSucc_of_lt_zero h
  rw [writeInt, hm]
  have : toString (Int.negSucc m) = "-" ++ toString (m + 1) := rfl
  rw [this, Text.bytes_append]
  rfl

theorem readNumber_decimal {n : Nat} {rest : Bytes} {negative : Bool} {v : Value}
    (hlt : n < significandLimit) (hr : EndsNumber rest)
    (hv : (Numeral.whole n).value? negative = some v) :
    readNumber negative (decimal n ++ rest) = .ok (v, rest) := by
  simp [readNumber, readNumeral_decimal hlt hr, hv, bind, Except.bind]

theorem readScalar_of_isDigit {b : UInt8} {rest : Bytes} (h : isDigit b = true) :
    readScalar b rest = readNumber false (b :: rest) := by
  have hne : ∀ c, isDigit c = false → ¬ b = c := by
    rintro c hc rfl
    simp [h] at hc
  simp only [readScalar, hne quote rfl, hne 0x6e rfl, hne 0x74 rfl, hne 0x66 rfl, hne minus rfl, h,
    ↓reduceIte]

/-- An integer is read back, whatever follows. -/
theorem readScalar_writeInt (n : Int32) {rest : Bytes} (hr : EndsNumber rest) :
    ∃ b more, writeInt n = b :: more ∧ (b = minus ∨ isDigit b = true) ∧
      readScalar b (more ++ rest) = .ok (.int n, rest) := by
  have hlow := Int32.le_toInt n
  have hhigh := Int32.toInt_lt n
  by_cases h : n.toInt < 0
  · refine ⟨minus, decimal n.toInt.natAbs, writeInt_of_neg h, Or.inl rfl, ?_⟩
    have hv : (Numeral.whole n.toInt.natAbs).value? true = some (.int n) := by
      have h0 : n.toInt.natAbs ≠ 0 := by omega
      have h1 : n.toInt.natAbs ≤ intLimit := by simp only [intLimit]; omega
      have h2 : -(n.toInt.natAbs : Int) = n.toInt := by omega
      simp only [Numeral.value?, ↓reduceIte, h0, h1, h2, Int32.ofInt_toInt]
    have hread := readNumber_decimal (by simp only [significandLimit]; omega) hr hv
    simpa [readScalar, minus, quote] using hread
  · have hn : 0 ≤ n.toInt := by omega
    have hv : (Numeral.whole n.toInt.toNat).value? false = some (.int n) := by
      have h1 : n.toInt.toNat < intLimit := by simp only [intLimit]; omega
      have h2 : (n.toInt.toNat : Int) = n.toInt := by omega
      simp only [Numeral.value?, Bool.false_eq_true, ↓reduceIte, h1, h2, Int32.ofInt_toInt]
    have hread := readNumber_decimal (by simp only [significandLimit]; omega) hr hv
    obtain ⟨d, ds, he, hd, _⟩ := decimal_eq_cons n.toInt.toNat
    rw [he] at hread
    refine ⟨d, ds, by rw [writeInt_of_nonneg hn, he], Or.inr hd, ?_⟩
    rw [readScalar_of_isDigit hd]
    exact hread

end CrashCourier.Json
