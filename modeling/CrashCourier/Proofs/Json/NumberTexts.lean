import CrashCourier.Proofs.Json.Numerals

namespace CrashCourier.Json

/-- Of a text the same is taken whatever follows that is no part of a number: all of it, or none
because it is faulty. -/
def Takes {α : Type} (R : Reader α) (text : Bytes) : Prop :=
  ∃ taken : Option α, ∀ rest, EndsNumber rest →
    (R (text ++ rest)).toOption = taken.map fun a => (a, rest)

variable {α : Type} {R S : Reader α} {text more : Bytes}

theorem takes_of_ok {a : α} (h : ∀ rest, EndsNumber rest → R (text ++ rest) = .ok (a, rest)) :
    Takes R text :=
  ⟨some a, fun rest hr => by rw [h rest hr]; rfl⟩

theorem takes_of_error (h : ∀ rest, EndsNumber rest → ∃ e, R (text ++ rest) = .error e) :
    Takes R text := by
  refine ⟨none, fun rest hr => ?_⟩
  obtain ⟨e, he⟩ := h rest hr
  rw [he]
  rfl

theorem Takes.of_eq (hS : Takes S more)
    (h : ∀ rest, EndsNumber rest → R (text ++ rest) = S (more ++ rest)) : Takes R text := by
  obtain ⟨taken, htaken⟩ := hS
  exact ⟨taken, fun rest hr => by rw [h rest hr, htaken rest hr]⟩

structure DigitRun (ds : Bytes) : Prop where
  nonempty : ds ≠ []
  digits : ∀ b ∈ ds, isDigit b = true

theorem DigitRun.eq_cons {ds : Bytes} (h : DigitRun ds) :
    ∃ d more, ds = d :: more ∧ isDigit d = true ∧ ∀ b ∈ more, isDigit b = true := by
  obtain ⟨d, more, rfl⟩ := List.exists_cons_of_ne_nil h.nonempty
  obtain ⟨hd, hmore⟩ := List.forall_mem_cons.mp h.digits
  exact ⟨d, more, rfl, hd, hmore⟩

theorem DigitRun.append {ds es : Bytes} (h : DigitRun ds) (hes : ∀ b ∈ es, isDigit b = true) :
    DigitRun (ds ++ es) :=
  ⟨List.append_ne_nil_of_left_ne_nil h.nonempty es,
    List.forall_mem_append.mpr ⟨h.digits, hes⟩⟩

theorem DigitRun.append_left {ds es : Bytes} (h : DigitRun ds)
    (hes : ∀ b ∈ es, isDigit b = true) : DigitRun (es ++ ds) :=
  ⟨List.append_ne_nil_of_right_ne_nil es h.nonempty, List.forall_mem_append.mpr ⟨hes, h.digits⟩⟩

theorem digitRun_zero : DigitRun [zeroDigit] :=
  ⟨List.cons_ne_nil zeroDigit [], List.forall_mem_singleton.mpr rfl⟩

inductive Exponent : Bytes → Prop
  | none : Exponent []
  | some {sign : UInt8} {ds : Bytes} (hsign : sign = plus ∨ sign = minus) (hds : DigitRun ds) :
    Exponent (0x65 :: sign :: ds)

/-- What may stand after the first digits of a number. -/
inductive AfterDigits : Bytes → Prop
  | exponent {text : Bytes} (h : Exponent text) : AfterDigits text
  | fraction {ds text : Bytes} (hds : DigitRun ds) (h : Exponent text) :
    AfterDigits (point :: (ds ++ text))

variable {ds rest : Bytes}

theorem afterDigits_point (h : DigitRun ds) : AfterDigits (point :: ds) := by
  rw [← List.append_nil ds]
  exact .fraction h .none

theorem Exponent.not_digit (h : Exponent text) (hr : EndsNumber rest) :
    ∀ b ∈ (text ++ rest).head?, isDigit b = false := by
  cases h with
  | none => exact fun b hb => (hr b hb).1
  | some hsign hds =>
    intro b hb
    obtain rfl := Option.some.inj hb
    rfl

theorem AfterDigits.not_digit (h : AfterDigits text) (hr : EndsNumber rest) :
    ∀ b ∈ (text ++ rest).head?, isDigit b = false := by
  cases h with
  | exponent h => exact h.not_digit hr
  | fraction hds h =>
    intro b hb
    obtain rfl := Option.some.inj hb
    rfl

theorem dropWhile_isDigit (hds : ∀ b ∈ ds, isDigit b = true)
    (h : ∀ b ∈ text.head?, isDigit b = false) : (ds ++ text).dropWhile isDigit = text := by
  rw [List.dropWhile_append_of_pos hds]
  cases text with
  | nil => rfl
  | cons b text => exact List.dropWhile_cons_of_neg (by simp [h b (by simp)])

theorem takeWhile_isDigit (hds : ∀ b ∈ ds, isDigit b = true)
    (h : ∀ b ∈ text.head?, isDigit b = false) : (ds ++ text).takeWhile isDigit = ds := by
  rw [List.takeWhile_append_of_pos hds]
  cases text with
  | nil => simp
  | cons b text => rw [List.takeWhile_cons_of_neg (by simp [h b (by simp)]), List.append_nil]

/-- Where a number could not go on, an exponent is complete. -/
theorem readExponentDigits_of_endsNumber (significand : Nat) (start : Int) (down : Bool) (e : Nat)
    (h : EndsNumber rest) : readExponentDigits significand start down e rest =
      .ok (.scaled significand (readExponentDigits.total start down e), rest) := by
  cases rest with
  | nil => rfl
  | cons c rest =>
    have hc := (h c (by simp)).1
    simp only [readExponentDigits, hc, Bool.false_eq_true, ↓reduceIte]

theorem takes_readExponentDigits (significand : Nat) (start : Int) (down : Bool) (e : Nat)
    (hds : ∀ b ∈ ds, isDigit b = true) :
    Takes (readExponentDigits significand start down e) ds := by
  induction ds generalizing e with
  | nil =>
    exact takes_of_ok fun rest hr =>
      readExponentDigits_of_endsNumber significand start down e hr
  | cons d ds ih =>
    obtain ⟨hd, hds⟩ := List.forall_mem_cons.mp hds
    by_cases hlt : 10 * e + digitValue d < exponentLimit
    · refine (ih (10 * e + digitValue d) hds).of_eq fun rest _ => ?_
      simp only [List.cons_append, readExponentDigits, hd, hlt, ↓reduceIte]
    · by_cases hup : (significand ≠ 0 && !down) = true
      · refine takes_of_error fun rest _ => ⟨here .numberOutOfRange (ds ++ rest), ?_⟩
        simp only [List.cons_append, readExponentDigits, hd, hlt, hup, ↓reduceIte]
      · refine ⟨some (.scaled 0 0), fun rest hr => ?_⟩
        have hdrop := dropWhile_isDigit hds fun b hb => (hr b hb).1
        simp only [List.cons_append, readExponentDigits, hd, hlt, hup, hdrop, ↓reduceIte]
        rfl

theorem takes_readExponent (significand : Nat) (start : Int) {sign : UInt8}
    (hsign : sign = plus ∨ sign = minus) (hds : DigitRun ds) :
    Takes (readExponent significand start) (sign :: ds) := by
  obtain ⟨d, ds, rfl, hd, hds⟩ := hds.eq_cons
  have hne : minus ≠ plus := by decide
  rcases hsign with rfl | rfl
  · refine (takes_readExponentDigits significand start false (digitValue d) hds).of_eq fun _ _ => ?_
    simp only [List.cons_append, readExponent, hd, ↓reduceIte]
  · refine (takes_readExponentDigits significand start true (digitValue d) hds).of_eq fun _ _ => ?_
    simp only [List.cons_append, readExponent, hd, hne, ↓reduceIte]

/-- Where a number could not go on, it has no exponent. -/
theorem readScale_of_endsNumber (significand : Nat) (exponent : Int) (h : EndsNumber rest) :
    readScale significand exponent rest = .ok (.scaled significand exponent, rest) := by
  cases rest with
  | nil => rfl
  | cons c rest =>
    have hc := (h c (by simp)).2.2
    simp only [readScale, hc, Bool.false_eq_true, ↓reduceIte]

theorem takes_readScale (significand : Nat) (exponent : Int) (h : Exponent text) :
    Takes (readScale significand exponent) text := by
  cases h with
  | none => exact takes_of_ok fun rest hr => readScale_of_endsNumber significand exponent hr
  | some hsign hds => exact (takes_readExponent significand exponent hsign hds).of_eq fun _ _ => rfl

theorem readFraction_of_not_digit (significand : Nat) (exponent : Int) {places : Nat}
    (hplaces : places ≠ 0) (h : ∀ b ∈ text.head?, isDigit b = false) :
    readFraction significand exponent places text =
      readScale significand (exponent - places) text := by
  cases text with
  | nil => simp only [readFraction, hplaces, ↓reduceIte, readScale]
  | cons b text =>
    have hb := h b (by simp)
    simp only [readFraction, hb, hplaces, ↓reduceIte, Bool.false_eq_true]

theorem takes_readFraction (significand : Nat) (exponent : Int) (places : Nat)
    (hds : ∀ b ∈ ds, isDigit b = true) (hsome : places ≠ 0 ∨ ds ≠ []) (h : Exponent text) :
    Takes (readFraction significand exponent places) (ds ++ text) := by
  induction ds generalizing significand places with
  | nil =>
    have hplaces : places ≠ 0 := hsome.resolve_right fun hne => hne rfl
    exact (takes_readScale significand (exponent - places) h).of_eq fun rest hr =>
      readFraction_of_not_digit significand exponent hplaces (h.not_digit hr)
  | cons d ds ih =>
    obtain ⟨hd, hds⟩ := List.forall_mem_cons.mp hds
    by_cases hlt : 10 * significand + digitValue d < significandLimit
    · refine (ih (10 * significand + digitValue d) (places + 1) hds
        (Or.inl (Nat.succ_ne_zero places))).of_eq fun rest _ => ?_
      simp only [List.cons_append, readFraction, hd, hlt, ↓reduceIte]
    · refine (takes_readScale significand (exponent - places) h).of_eq fun rest hr => ?_
      have hdrop := dropWhile_isDigit hds (h.not_digit hr)
      simp only [List.cons_append, List.append_assoc, readFraction, hd, hlt, hdrop, ↓reduceIte]

theorem takes_readTail (significand : Nat) (h : AfterDigits text) :
    Takes (readTail significand) text := by
  cases h with
  | exponent h =>
    cases h with
    | none => exact takes_of_ok fun rest hr => readTail_of_endsNumber significand hr
    | some hsign hds => exact (takes_readExponent significand 0 hsign hds).of_eq fun _ _ => rfl
  | fraction hds h =>
    exact (takes_readFraction significand 0 0 hds.digits (Or.inr hds.nonempty) h).of_eq
      fun _ _ => rfl

theorem takes_readLong (significand : Nat) (hds : ∀ b ∈ ds, isDigit b = true)
    (h : AfterDigits text) : Takes (readLong significand) (ds ++ text) := by
  have htake : ∀ rest, EndsNumber rest → (ds ++ (text ++ rest)).takeWhile isDigit = ds :=
    fun rest hr => takeWhile_isDigit hds (h.not_digit hr)
  have hdrop : ∀ rest, EndsNumber rest → (ds ++ (text ++ rest)).dropWhile isDigit = text ++ rest :=
    fun rest hr => dropWhile_isDigit hds (h.not_digit hr)
  cases h with
  | exponent h =>
    refine (takes_readScale significand ds.length h).of_eq fun rest hr => ?_
    simp only [readLong, List.append_assoc ds, htake rest hr, hdrop rest hr]
    cases h with
    | none =>
      cases rest with
      | nil => rfl
      | cons c rest => exact if_neg (hr c (by simp)).2.1
    | some hsign hes => rfl
  | fraction hes h =>
    refine (takes_readFraction significand ds.length 0 hes.digits (Or.inr hes.nonempty) h).of_eq
      fun rest hr => ?_
    simp only [readLong, List.append_assoc ds, htake rest hr, hdrop rest hr]
    rfl

theorem readDigits_of_not_digit (significand : Nat) (h : ∀ b ∈ text.head?, isDigit b = false) :
    readDigits significand text = readTail significand text := by
  cases text with
  | nil => rfl
  | cons b text =>
    have hb := h b (by simp)
    simp only [readDigits, hb, ↓reduceIte, Bool.false_eq_true]

theorem takes_readDigits (significand : Nat) (hds : ∀ b ∈ ds, isDigit b = true)
    (h : AfterDigits text) : Takes (readDigits significand) (ds ++ text) := by
  induction ds generalizing significand with
  | nil =>
    exact (takes_readTail significand h).of_eq fun rest hr =>
      readDigits_of_not_digit significand (h.not_digit hr)
  | cons d ds ih =>
    obtain ⟨hd, hds'⟩ := List.forall_mem_cons.mp hds
    by_cases hlt : 10 * significand + digitValue d < significandLimit
    · refine (ih (10 * significand + digitValue d) hds').of_eq fun rest _ => ?_
      simp only [List.cons_append, readDigits, hd, hlt, ↓reduceIte]
    · refine (takes_readLong significand hds h).of_eq fun rest _ => ?_
      simp only [List.cons_append, readDigits, hd, hlt, ↓reduceIte]

/-- A number with a zero before its other digits is refused. -/
theorem takes_readNumeral (hds : DigitRun ds) (h : AfterDigits text) :
    Takes readNumeral (ds ++ text) := by
  obtain ⟨d, ds, rfl, hd, hds⟩ := hds.eq_cons
  by_cases hz : d = zeroDigit
  · cases ds with
    | nil =>
      refine (takes_readTail 0 h).of_eq fun rest hr => ?_
      have hhead : (text ++ rest).head?.any isDigit = false := by
        cases hb : (text ++ rest).head? with
        | none => rfl
        | some b => exact h.not_digit hr b hb
      simp only [List.cons_append, List.nil_append, readNumeral, hz, hhead, ↓reduceIte,
        Bool.false_eq_true]
    | cons c ds =>
      have hc := hds c (by simp)
      refine takes_of_error fun rest _ => ⟨ahead .badNumber (c :: (ds ++ (text ++ rest))), ?_⟩
      simp only [List.cons_append, List.append_assoc, readNumeral, hz, ↓reduceIte, List.head?_cons,
        Option.any_some, hc]
  · refine (takes_readDigits (digitValue d) hds h).of_eq fun rest _ => ?_
    simp only [List.cons_append, readNumeral, hz, hd, ↓reduceIte]

theorem toOption_readNumber (negative : Bool) (text : Bytes) :
    (readNumber negative text).toOption = (readNumeral text).toOption.bind fun read =>
      (read.1.value? negative).map fun v => (v, read.2) := by
  unfold readNumber
  cases readNumeral text with
  | error e => rfl
  | ok read =>
    simp only [bind, Except.bind, Except.toOption, Option.bind_some]
    cases read.1.value? negative <;> rfl

theorem takes_readNumber (negative : Bool) (hds : DigitRun ds) (h : AfterDigits text) :
    Takes (readNumber negative) (ds ++ text) := by
  obtain ⟨numeral, hnumeral⟩ := takes_readNumeral hds h
  refine ⟨numeral.bind fun numeral => numeral.value? negative, fun rest hr => ?_⟩
  rw [toOption_readNumber, hnumeral rest hr]
  cases numeral with
  | none => rfl
  | some numeral => rfl

theorem digitRun_ofList {cs : List Char} (h : ∀ c ∈ cs, c.isDigit = true) (hne : cs ≠ []) :
    DigitRun (Text.bytes (String.ofList cs)) := by
  refine ⟨?_, isDigit_of_mem_bytes h⟩
  obtain ⟨c, cs, rfl⟩ := List.exists_cons_of_ne_nil hne
  rw [Text.bytes_ofList, List.flatMap_cons]
  exact List.append_ne_nil_of_left_ne_nil (by simp [String.utf8EncodeChar_ne_nil]) _

theorem digitRun_decimal (n : Nat) : DigitRun (Text.bytes (toString n)) := by
  obtain ⟨d, ds, he, -⟩ := decimal_eq_cons n
  refine ⟨?_, isDigit_of_mem_decimal (n := n)⟩
  change decimal n ≠ []
  rw [he]
  exact List.cons_ne_nil d ds

theorem isDigit_of_mem_zeros (n : Nat) :
    ∀ b ∈ Text.bytes (Decimal.Layout.zeros n), isDigit b = true := by
  apply isDigit_of_mem_bytes
  intro c hc
  obtain ⟨-, rfl⟩ := List.mem_replicate.mp hc
  rfl

theorem exists_bytes_mark (down : Prop) [Decidable down] :
    ∃ sign, (sign = plus ∨ sign = minus) ∧
      Text.bytes (if down then numberLayout.downMark else numberLayout.upMark) = [0x65, sign] := by
  split
  · exact ⟨minus, Or.inr rfl, by decide⟩
  · exact ⟨plus, Or.inl rfl, by decide⟩

/-- A zero and a point, digits with a point between them or after them, or one digit and an
exponent. -/
theorem bytes_digits (d : Decimal.Digits) : ∃ ds text, DigitRun ds ∧ AfterDigits text ∧
    Text.bytes (numberLayout.digits d) = ds ++ text := by
  have hpoint : Text.bytes "." = [point] := by decide
  have hdigits : ∀ c ∈ Nat.toDigits 10 d.digits, c.isDigit = true := fun c hc =>
    Nat.isDigit_of_mem_toDigits (by omega) (by omega) hc
  have hne : Nat.toDigits 10 d.digits ≠ [] := Nat.toDigits_ne_nil
  have htake : ∀ n,
      DigitRun (Text.bytes (String.ofList ((Nat.toDigits 10 d.digits).take (n + 1)))) :=
    fun n => digitRun_ofList (fun c hc => hdigits c (List.mem_of_mem_take hc)) (by simp [hne])
  have hdrop : ∀ n, (Nat.toDigits 10 d.digits).drop n ≠ [] →
      DigitRun (Text.bytes (String.ofList ((Nat.toDigits 10 d.digits).drop n))) :=
    fun n => digitRun_ofList fun c hc => hdigits c (List.mem_of_mem_drop hc)
  simp only [Decimal.Layout.digits]
  generalize d.exponent + ((Nat.toDigits 10 d.digits).length : Int) - 1 = e
  split
  · split
    · have hzero : Text.bytes "0." = [zeroDigit, point] := by decide
      have hzeros := isDigit_of_mem_zeros ((-e).toNat - 1)
      refine ⟨[zeroDigit], _, digitRun_zero,
        afterDigits_point ((digitRun_ofList hdigits hne).append_left hzeros), ?_⟩
      simp only [Text.bytes_append, hzero, List.cons_append, List.nil_append]
    · rw [Text.bytes_append, Text.bytes_append]
      refine ⟨_, _, (htake e.toNat).append (isDigit_of_mem_zeros _), ?_, rfl⟩
      split
      · exact afterDigits_point digitRun_zero
      · next hrest =>
        rw [Text.bytes_append, hpoint]
        exact afterDigits_point (hdrop _ fun h => hrest (List.isEmpty_iff.mpr h))
  · obtain ⟨sign, hsign, hmark⟩ := exists_bytes_mark (e < 0)
    have hexponent : Exponent (0x65 :: sign :: Text.bytes (toString e.natAbs)) :=
      .some hsign (digitRun_decimal e.natAbs)
    rw [Text.bytes_append, Text.bytes_append, Text.bytes_append, hmark, List.append_assoc,
      List.append_assoc]
    refine ⟨_, _, htake 0, ?_, rfl⟩
    split
    · exact .exponent hexponent
    · next hlength =>
      rw [Text.bytes_append, hpoint]
      exact .fraction (hdrop 1 fun h => hlength (List.drop_eq_nil_iff.mp h)) hexponent

/-- A sign, and the digits of a magnitude. -/
theorem bytes_writeDouble {d : Double} (hfinite : d.isFinite = true) :
    ∃ ds text, DigitRun ds ∧ AfterDigits text ∧
      writeDouble d = (if d.isNegative then [minus] else []) ++ (ds ++ text) := by
  have hsign : Text.bytes (if d.isNegative then "-" else "") =
      if d.isNegative then [minus] else [] := by
    cases d.isNegative <;> decide
  rw [writeDouble, if_pos hfinite, Decimal.Layout.text, Text.bytes_append, hsign]
  by_cases hzero : d.isZero = true
  · have hbytes : Text.bytes ("0" ++ numberLayout.wholeTail) =
        [zeroDigit] ++ point :: ([zeroDigit] ++ []) := by decide
    rw [if_pos hzero, hbytes]
    exact ⟨_, _, digitRun_zero, .fraction digitRun_zero .none, rfl⟩
  · obtain ⟨ds, text, hds, htext, hbytes⟩ := bytes_digits (Decimal.shortest d)
    rw [if_neg hzero, hbytes]
    exact ⟨ds, text, hds, htext, rfl⟩

/-- A finite double starts with a minus or a digit. -/
theorem takes_writeDouble {d : Double} (hfinite : d.isFinite = true) :
    ∃ b more, writeDouble d = b :: more ∧ (b = minus ∨ isDigit b = true) ∧
      Takes (readScalar b) more := by
  obtain ⟨ds, text, hds, htext, hwrite⟩ := bytes_writeDouble hfinite
  cases hnegative : d.isNegative with
  | true =>
    refine ⟨minus, ds ++ text, by rw [hwrite, hnegative]; rfl, Or.inl rfl, ?_⟩
    exact (takes_readNumber true hds htext).of_eq fun _ _ => rfl
  | false =>
    have hread := takes_readNumber false hds htext
    obtain ⟨b, ds, rfl, hb, -⟩ := hds.eq_cons
    refine ⟨b, ds ++ text, by rw [hwrite, hnegative]; rfl, Or.inr hb, ?_⟩
    exact hread.of_eq fun _ _ => readScalar_of_isDigit hb

end CrashCourier.Json
