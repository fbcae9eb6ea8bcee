import CrashCourier.Proofs.Json.ReadBack
import CrashCourier.Proofs.Json.Turns

namespace CrashCourier.Json

/-- What a reader takes from a text it takes as well if more follows. If it took the whole text,
this is asked only where a number could not go on. -/
def Extends {α : Type} (R : Reader α) : Prop :=
  ∀ ⦃text a rest⦄, R text = .ok (a, rest) → ∀ ⦃more⦄, (rest = [] → EndsNumber more) →
    R (text ++ more) = .ok (a, rest ++ more)

/-- The same of a reader that knows from its last byte that it is done. -/
def Closes {α : Type} (R : Reader α) : Prop :=
  ∀ ⦃text a rest⦄, R text = .ok (a, rest) → ∀ more, R (text ++ more) = .ok (a, rest ++ more)

theorem Closes.extends {α : Type} {R : Reader α} (h : Closes R) : Extends R :=
  fun _ _ _ hread more _ => h hread more

theorem skipBlanks_append_of_cons {text rest : Bytes} {b : UInt8}
    (h : skipBlanks text = b :: rest) (more : Bytes) :
    skipBlanks (text ++ more) = b :: (rest ++ more) := by
  unfold skipBlanks at h ⊢
  rw [List.dropWhile_append, h]
  rfl

theorem closes_unescape (done : Bytes) : Closes (unescape done) := by
  intro text content rest h more
  fun_induction unescape done text
  case case2 done rest' =>
    obtain ⟨rfl, rfl⟩ := Prod.mk.inj (Except.ok.inj h)
    rw [List.cons_append, unescape.eq_def]
    simp
  case case11 done a b c d n hn hl hh s hs u hu e f g i after m hm hlow hq ih =>
    have hread := ih h
    simp only [List.cons_append]
    rw [unescape.eq_def]
    simp only [hq, hn, hl, hh, hs, hu, hm, hlow, ↓reduceIte, Bool.false_eq_true, hread]
  case case14 done a b c d after n hn hl hh hq ih =>
    have hread := ih h
    simp only [List.cons_append]
    rw [unescape.eq_def]
    simp only [hq, hn, hl, hh, ↓reduceIte, Bool.false_eq_true, hread]
  case case16 done e after hu c hc _ ih =>
    rw [List.cons_append, List.cons_append, unescape_lettered hc hu, ih h]
  case case19 done b after hq hb hc ih =>
    rw [List.cons_append, unescape_plain hq hb hc, ih h]
  all_goals simp at h

theorem closes_readText : Closes readText := by
  intro text s rest h more
  obtain ⟨⟨content, after⟩, hread, h⟩ := bind_eq_ok_iff.mp h
  refine bind_eq_ok_iff.mpr ⟨(content, after ++ more), closes_unescape [] hread more, ?_⟩
  dsimp only at h ⊢
  split at h
  next t ht =>
    obtain ⟨rfl, rfl⟩ := Prod.mk.inj (Except.ok.inj h)
    rfl
  next => simp at h

theorem closes_readWord (v : Value) (word : Bytes) : Closes (readWord v word) := by
  intro text w rest h more
  induction word generalizing text with
  | nil =>
    obtain ⟨rfl, rfl⟩ := Prod.mk.inj (Except.ok.inj h)
    rfl
  | cons e word ih =>
    cases text with
    | nil => simp [readWord] at h
    | cons b text =>
      simp only [readWord] at h
      split at h
      next hb =>
        simp only [List.cons_append, readWord, hb, ↓reduceIte]
        exact ih h
      next => simp at h

theorem dropWhile_isDigit_append {text more : Bytes}
    (h : text.dropWhile isDigit = [] → EndsNumber more) :
    (text ++ more).dropWhile isDigit = text.dropWhile isDigit ++ more := by
  rw [List.dropWhile_append]
  split
  next hnil =>
    have hnil := List.isEmpty_iff.mp hnil
    rw [hnil, List.nil_append]
    cases more with
    | nil => rfl
    | cons c more => exact List.dropWhile_cons_of_neg (by simp [(h hnil c (by simp)).1])
  next => rfl

theorem takeWhile_isDigit_append {text more : Bytes}
    (h : text.dropWhile isDigit = [] → EndsNumber more) :
    (text ++ more).takeWhile isDigit = text.takeWhile isDigit := by
  have hall := List.takeWhile_append_dropWhile (p := isDigit) (l := text ++ more)
  have htext := List.takeWhile_append_dropWhile (p := isDigit) (l := text)
  rw [dropWhile_isDigit_append h] at hall
  have heq : (text ++ more).takeWhile isDigit ++ (text.dropWhile isDigit ++ more) =
      text.takeWhile isDigit ++ (text.dropWhile isDigit ++ more) := by
    rw [hall, ← List.append_assoc, htext]
  exact List.append_cancel_right heq

theorem extends_readExponentDigits (significand : Nat) (start : Int) (down : Bool) (e : Nat) :
    Extends (readExponentDigits significand start down e) := by
  intro text numeral rest h more hm
  induction text generalizing e with
  | nil =>
    obtain ⟨rfl, rfl⟩ := Prod.mk.inj (Except.ok.inj h)
    exact readExponentDigits_of_endsNumber significand start down e (hm rfl)
  | cons b text ih =>
    simp only [readExponentDigits] at h
    simp only [List.cons_append, readExponentDigits]
    split at h
    next hb =>
      simp only [hb, ↓reduceIte]
      split at h
      next hlt =>
        simp only [hlt, ↓reduceIte]
        exact ih _ h
      next hlt =>
        simp only [hlt, ↓reduceIte]
        split at h
        next => simp at h
        next hzero =>
          obtain ⟨rfl, rfl⟩ := Prod.mk.inj (Except.ok.inj h)
          simp only [hzero, Bool.false_eq_true, ↓reduceIte, dropWhile_isDigit_append hm]
    next hb =>
      obtain ⟨rfl, rfl⟩ := Prod.mk.inj (Except.ok.inj h)
      simp [hb]

/-- An exponent after its sign. -/
def readExponentAfter (significand : Nat) (start : Int) (down : Bool) : Reader Numeral
  | [] => .error (here .endInValue [])
  | b :: rest =>
    if isDigit b then readExponentDigits significand start down (digitValue b) rest
    else .error (here .badNumber rest)

theorem readExponent_cons (significand : Nat) (start : Int) (b : UInt8) (rest : Bytes) :
    readExponent significand start (b :: rest) =
      if b = plus then readExponentAfter significand start false rest
      else if b = minus then readExponentAfter significand start true rest
      else readExponentAfter significand start false (b :: rest) := by
  unfold readExponent
  by_cases hp : b = plus
  · simp only [hp, ↓reduceIte]
    cases rest <;> rfl
  · by_cases hn : b = minus
    · simp only [hn, ↓reduceIte]
      cases rest <;> rfl
    · simp only [hp, hn, ↓reduceIte, readExponentAfter]

theorem extends_readExponentAfter (significand : Nat) (start : Int) (down : Bool) :
    Extends (readExponentAfter significand start down) := by
  intro text numeral rest h more hm
  cases text with
  | nil => simp [readExponentAfter] at h
  | cons b text =>
    simp only [List.cons_append, readExponentAfter] at h ⊢
    split at h
    next hb =>
      rw [if_pos hb]
      exact extends_readExponentDigits _ _ _ _ h hm
    next => simp at h

theorem extends_readExponent (significand : Nat) (start : Int) :
    Extends (readExponent significand start) := by
  intro text numeral rest h more hm
  cases text with
  | nil => simp [readExponent] at h
  | cons b text =>
    rw [readExponent_cons] at h
    rw [List.cons_append, readExponent_cons]
    split at h
    next hp =>
      rw [if_pos hp]
      exact extends_readExponentAfter _ _ _ h hm
    next hp =>
      rw [if_neg hp]
      split at h
      next hn =>
        rw [if_pos hn]
        exact extends_readExponentAfter _ _ _ h hm
      next hn =>
        rw [if_neg hn]
        exact extends_readExponentAfter _ _ _ h hm

theorem extends_readScale (significand : Nat) (exponent : Int) :
    Extends (readScale significand exponent) := by
  intro text numeral rest h more hm
  cases text with
  | nil =>
    obtain ⟨rfl, rfl⟩ := Prod.mk.inj (Except.ok.inj h)
    exact readScale_of_endsNumber significand exponent (hm rfl)
  | cons b text =>
    simp only [readScale, List.cons_append] at h ⊢
    split at h
    next hb =>
      rw [if_pos hb]
      exact extends_readExponent _ _ h hm
    next hb =>
      rw [if_neg hb]
      obtain ⟨rfl, rfl⟩ := Prod.mk.inj (Except.ok.inj h)
      rfl

theorem extends_readFraction (significand : Nat) (exponent : Int) (places : Nat) :
    Extends (readFraction significand exponent places) := by
  intro text numeral rest h more hm
  induction text generalizing significand places with
  | nil =>
    simp only [readFraction] at h
    split at h
    next => simp at h
    next hplaces =>
      obtain ⟨rfl, rfl⟩ := Prod.mk.inj (Except.ok.inj h)
      cases more with
      | nil => simp [readFraction, hplaces]
      | cons c more =>
        have hc := (hm rfl c (by simp)).1
        simp only [List.nil_append, readFraction, hc, Bool.false_eq_true, ↓reduceIte, hplaces]
        exact readScale_of_endsNumber _ _ (hm rfl)
  | cons b text ih =>
    simp only [readFraction] at h
    simp only [List.cons_append, readFraction]
    split at h
    next hb =>
      simp only [hb, ↓reduceIte]
      split at h
      next hlt =>
        simp only [hlt, ↓reduceIte]
        exact ih _ _ h
      next hlt =>
        have hdrop : text.dropWhile isDigit = [] → EndsNumber more := by
          intro hnil
          rw [hnil] at h
          exact hm (Prod.mk.inj (Except.ok.inj h)).2.symm
        simp only [hlt, ↓reduceIte, dropWhile_isDigit_append hdrop]
        exact extends_readScale _ _ h hm
    next hb =>
      split at h
      next => simp at h
      next hplaces =>
        simp only [hb, hplaces, ↓reduceIte]
        exact extends_readScale _ _ h hm

theorem extends_readLong (significand : Nat) : Extends (readLong significand) := by
  intro text numeral rest h more hm
  have hdrop : text.dropWhile isDigit = [] → EndsNumber more := by
    intro hnil
    simp only [readLong, hnil] at h
    exact hm (Prod.mk.inj (Except.ok.inj h)).2.symm
  simp only [readLong] at h
  simp only [readLong, dropWhile_isDigit_append hdrop, takeWhile_isDigit_append hdrop]
  cases htail : text.dropWhile isDigit with
  | nil =>
    have hends := hdrop htail
    rw [htail] at h
    obtain ⟨rfl, rfl⟩ := Prod.mk.inj (Except.ok.inj h)
    cases more with
    | nil => rfl
    | cons c more =>
      have hc := (hends c (by simp)).2.1
      simp only [List.nil_append, hc, ↓reduceIte]
      exact readScale_of_endsNumber _ _ hends
  | cons b tail =>
    rw [htail] at h
    simp only [List.cons_append] at h ⊢
    split at h
    next hb =>
      rw [if_pos hb]
      exact extends_readFraction _ _ _ h hm
    next hb =>
      rw [if_neg hb]
      exact extends_readScale _ _ h hm

theorem extends_readTail (significand : Nat) : Extends (readTail significand) := by
  intro text numeral rest h more hm
  cases text with
  | nil =>
    obtain ⟨rfl, rfl⟩ := Prod.mk.inj (Except.ok.inj h)
    exact readTail_of_endsNumber significand (hm rfl)
  | cons b text =>
    simp only [readTail, List.cons_append] at h ⊢
    split at h
    next hb =>
      rw [if_pos hb]
      exact extends_readFraction _ _ _ h hm
    next hb =>
      rw [if_neg hb]
      split at h
      next hmark =>
        rw [if_pos hmark]
        exact extends_readExponent _ _ h hm
      next hmark =>
        rw [if_neg hmark]
        obtain ⟨rfl, rfl⟩ := Prod.mk.inj (Except.ok.inj h)
        rfl

theorem extends_readDigits (significand : Nat) : Extends (readDigits significand) := by
  intro text numeral rest h more hm
  induction text generalizing significand with
  | nil =>
    obtain ⟨rfl, rfl⟩ := Prod.mk.inj (Except.ok.inj h)
    cases more with
    | nil => rfl
    | cons c more =>
      have hc := (hm rfl c (by simp)).1
      simp only [List.nil_append, readDigits, hc, Bool.false_eq_true, ↓reduceIte]
      exact readTail_of_endsNumber significand (hm rfl)
  | cons b text ih =>
    simp only [readDigits] at h
    simp only [List.cons_append, readDigits]
    split at h
    next hb =>
      simp only [hb, ↓reduceIte]
      split at h
      next hlt =>
        simp only [hlt, ↓reduceIte]
        exact ih _ h
      next hlt =>
        simp only [hlt, ↓reduceIte]
        exact extends_readLong _ h hm
    next hb =>
      simp only [hb]
      exact extends_readTail _ h hm

theorem extends_readNumeral : Extends readNumeral := by
  intro text numeral rest h more hm
  cases text with
  | nil => simp [readNumeral] at h
  | cons b text =>
    simp only [readNumeral] at h
    simp only [List.cons_append, readNumeral]
    split at h
    next hb =>
      rw [if_pos hb]
      split at h
      next => simp at h
      next hhead =>
        have hhead' : ¬ (text ++ more).head?.any isDigit = true := by
          cases text with
          | nil =>
            obtain ⟨rfl, rfl⟩ := Prod.mk.inj (Except.ok.inj h)
            cases more with
            | nil => simp
            | cons c more => simpa using (hm rfl c (by simp)).1
          | cons c text => exact hhead
        rw [if_neg hhead']
        exact extends_readTail _ h hm
    next hb =>
      rw [if_neg hb]
      split at h
      next hdigit =>
        rw [if_pos hdigit]
        exact extends_readDigits _ h hm
      next => simp at h

theorem extends_readNumber (negative : Bool) : Extends (readNumber negative) := by
  intro text v rest h more hm
  obtain ⟨⟨numeral, after⟩, hread, h⟩ := bind_eq_ok_iff.mp h
  dsimp only at h
  split at h
  next w hv =>
    obtain ⟨rfl, rfl⟩ := Prod.mk.inj (Except.ok.inj h)
    refine bind_eq_ok_iff.mpr ⟨(numeral, after ++ more), extends_readNumeral hread hm, ?_⟩
    simp [hv]
  next => simp at h

theorem Extends.ite {α : Type} {R S : Reader α} {c : Prop} [Decidable c] (hR : c → Extends R)
    (hS : ¬ c → Extends S) : Extends fun text => if c then R text else S text := by
  by_cases hc : c
  · simpa only [hc, ↓reduceIte] using hR hc
  · simpa only [hc, ↓reduceIte] using hS hc

/-- A scalar's first byte tells which reader goes on. -/
theorem extends_readScalar (b : UInt8) : Extends (readScalar b) := by
  have hword : ∀ (v : Value) (word : Bytes), Extends (readWord v word) := fun v word =>
    (closes_readWord v word).extends
  have htext : Extends fun text => (readText text).map fun p => (Value.string p.1, p.2) := by
    intro text v rest h more _
    obtain ⟨⟨s, after⟩, hread, heq⟩ := map_eq_ok_iff.mp h
    obtain ⟨rfl, rfl⟩ := Prod.mk.inj heq
    exact map_eq_ok_iff.mpr ⟨(s, after ++ more), closes_readText hread more, rfl⟩
  have hdigits : Extends fun text => readNumber false (b :: text) := fun _ _ _ h _ hm =>
    extends_readNumber false h hm
  have hnone : Extends fun text => (.error (ahead .expectedValue (b :: text)) :
      Except Stop (Value × Bytes)) := by
    intro text v rest h
    simp at h
  refine Extends.ite (fun _ => htext) fun _ => ?_
  refine Extends.ite (fun _ => hword .null _) fun _ => ?_
  refine Extends.ite (fun _ => hword (.bool true) _) fun _ => ?_
  refine Extends.ite (fun _ => hword (.bool false) _) fun _ => ?_
  exact Extends.ite (fun _ => extends_readNumber true) fun _ =>
    Extends.ite (fun _ => hdigits) fun _ => hnone

variable {readItem : Reader Value}

/-- A list is closed by a byte of its own, so its items may even be numbers. -/
theorem readItems_extend (hR : Extends readItem) {fuel turns : Nat} (hle : fuel ≤ turns)
    {done items : List Value} {text rest : Bytes}
    (h : readItems readItem fuel done text = .ok (items, rest)) (more : Bytes) :
    readItems readItem turns done (text ++ more) = .ok (items, rest ++ more) := by
  induction fuel generalizing turns done text with
  | zero => simp [readItems] at h
  | succ fuel ih =>
    obtain ⟨turns, rfl⟩ : ∃ t, turns = t + 1 := ⟨turns - 1, by omega⟩
    obtain ⟨item, after, hitem, hturn⟩ := readItems_eq_ok_iff.mp h
    have hafter : after = [] → EndsNumber more := by
      rintro rfl
      rcases hturn with ⟨hskip, -⟩ | ⟨next, c, tail, hskip, -⟩ <;> simp [skipBlanks] at hskip
    refine readItems_eq_ok_iff.mpr ⟨item, after ++ more, hR hitem hafter, ?_⟩
    rcases hturn with ⟨hskip, rfl⟩ | ⟨next, c, tail, hskip, hnext, hc, h⟩
    · exact Or.inl ⟨skipBlanks_append_of_cons hskip more, rfl⟩
    · exact Or.inr ⟨next ++ more, c, tail ++ more, skipBlanks_append_of_cons hskip more,
        skipBlanks_append_of_cons hnext more, hc, ih (by omega) h⟩

theorem closes_readList (hR : Extends readItem) : Closes (readList readItem) := by
  intro text items rest h more
  rcases readList_eq_ok_iff.mp h with ⟨hskip, rfl⟩ | ⟨b, tail, hskip, hb, h⟩
  · exact readList_eq_ok_iff.mpr (Or.inl ⟨skipBlanks_append_of_cons hskip more, rfl⟩)
  · have hle : text.length ≤ (text ++ more).length := by simp
    exact readList_eq_ok_iff.mpr (Or.inr ⟨b, tail ++ more, skipBlanks_append_of_cons hskip more,
      hb, readItems_extend hR hle h more⟩)

theorem extends_readEntry (hR : Extends readItem) : Extends (readEntry readItem) := by
  rintro text ⟨key, item⟩ rest h more hm
  obtain ⟨after, tail, hkey, hskip, hitem⟩ := readEntry_eq_ok_iff.mp h
  exact readEntry_eq_ok_iff.mpr ⟨after ++ more, tail ++ more, closes_readText hkey more,
    skipBlanks_append_of_cons hskip more, hR hitem hm⟩

theorem readEntries_extend (hR : Extends readItem) {fuel turns : Nat} (hle : fuel ≤ turns)
    {done es : Entries} {text rest : Bytes}
    (h : readEntries readItem fuel done text = .ok (es, rest)) (more : Bytes) :
    readEntries readItem turns done (text ++ more) = .ok (es, rest ++ more) := by
  induction fuel generalizing turns done text with
  | zero => simp [readEntries] at h
  | succ fuel ih =>
    obtain ⟨turns, rfl⟩ : ∃ t, turns = t + 1 := ⟨turns - 1, by omega⟩
    obtain ⟨key, item, after, hentry, hturn⟩ := readEntries_eq_ok_iff.mp h
    have hafter : after = [] → EndsNumber more := by
      rintro rfl
      rcases hturn with ⟨hskip, -⟩ | ⟨next, tail, hskip, -⟩ <;> simp [skipBlanks] at hskip
    refine readEntries_eq_ok_iff.mpr
      ⟨key, item, after ++ more, extends_readEntry hR hentry hafter, ?_⟩
    rcases hturn with ⟨hskip, rfl⟩ | ⟨next, tail, hskip, hnext, h⟩
    · exact Or.inl ⟨skipBlanks_append_of_cons hskip more, rfl⟩
    · exact Or.inr ⟨next ++ more, tail ++ more, skipBlanks_append_of_cons hskip more,
        skipBlanks_append_of_cons hnext more, ih (by omega) h⟩

theorem closes_readObject (hR : Extends readItem) : Closes (readObject readItem) := by
  intro text es rest h more
  rcases readObject_eq_ok_iff.mp h with ⟨hskip, rfl⟩ | ⟨tail, hskip, h⟩
  · exact readObject_eq_ok_iff.mpr (Or.inl ⟨skipBlanks_append_of_cons hskip more, rfl⟩)
  · have hle : text.length ≤ (text ++ more).length := by simp
    exact readObject_eq_ok_iff.mpr (Or.inr ⟨tail ++ more, skipBlanks_append_of_cons hskip more,
      readEntries_extend hR hle h more⟩)

theorem extends_readValue (n : Nat) : Extends (readValue n) := by
  induction n with
  | zero =>
    intro text v rest h more hm
    obtain ⟨b, tail, hskip, ⟨-, m, items, hn, -⟩ | ⟨-, m, es, hn, -⟩ | ⟨hl, ho, hscalar⟩⟩ :=
      readValue_eq_ok_iff.mp h
    · omega
    · omega
    · exact readValue_eq_ok_iff.mpr ⟨b, tail ++ more, skipBlanks_append_of_cons hskip more,
        Or.inr (Or.inr ⟨hl, ho, extends_readScalar b hscalar hm⟩)⟩
  | succ n ih =>
    intro text v rest h more hm
    obtain ⟨b, tail, hskip, hvalue⟩ := readValue_eq_ok_iff.mp h
    refine readValue_eq_ok_iff.mpr ⟨b, tail ++ more, skipBlanks_append_of_cons hskip more, ?_⟩
    rcases hvalue with ⟨hb, m, items, hn, hv, hlist⟩ | ⟨hb, m, es, hn, hv, hobject⟩ |
      ⟨hl, ho, hscalar⟩
    · obtain rfl : n = m := by omega
      exact Or.inl ⟨hb, n, items, rfl, hv, closes_readList ih hlist more⟩
    · obtain rfl : n = m := by omega
      exact Or.inr (Or.inl ⟨hb, n, es, rfl, hv, closes_readObject ih hobject more⟩)
    · exact Or.inr (Or.inr ⟨hl, ho, extends_readScalar b hscalar hm⟩)

/-- After its opening bracket a text holds an object, whatever follows it, or nothing. -/
theorem readValue_object_extend {n : Nat} {text rest : Bytes} {v : Value}
    (h : readValue n (openObject :: text) = .ok (v, rest)) (more : Bytes) :
    readValue n (openObject :: (text ++ more)) = .ok (v, rest ++ more) := by
  have hne : openObject ≠ openList := by decide
  cases n with
  | zero =>
    unfold readValue at h
    rw [skipBlanks_cons (by decide)] at h
    simp [hne] at h
  | succ n =>
    rw [readValue_object] at h ⊢
    obtain ⟨⟨es, after⟩, hread, heq⟩ := map_eq_ok_iff.mp h
    obtain ⟨rfl, rfl⟩ := Prod.mk.inj heq
    exact map_eq_ok_iff.mpr ⟨(es, after ++ more),
      closes_readObject (extends_readValue n) hread more, rfl⟩

/-- No start of the text of an object is itself a text, but for the whole of it. -/
theorem read_start_of_object {text more : Bytes} {v : Value}
    (h : readValue deepest (openObject :: (text ++ more)) = .ok (v, [])) (hm : more ≠ []) :
    ∃ e, read (openObject :: text) = .error e := by
  cases hread : read (openObject :: text) with
  | error e => exact ⟨e, rfl⟩
  | ok w =>
    obtain ⟨after, hvalue, -⟩ := read_eq_ok_iff.mp hread
    have hwhole := readValue_object_extend hvalue more
    rw [h] at hwhole
    have hnil := (Prod.mk.inj (Except.ok.inj hwhole)).2
    exact absurd (List.append_eq_nil_iff.mp hnil.symm).2 hm

end CrashCourier.Json
