import CrashCourier.Envelope

namespace CrashCourier.Envelope

def itemsOf (bytes : Bytes) : Except EnvelopeError (List EnvelopeItem) :=
  readItems bytes.length [] bytes

theorem skipLineFeed_length_le (bytes : Bytes) : (skipLineFeed bytes).length ≤ bytes.length := by
  cases bytes with
  | nil => simp [skipLineFeed]
  | cons b rest =>
    simp only [skipLineFeed]
    split
    · simp
    · simp

/-- What follows a payload is no longer than what it was split from. -/
theorem splitPayload_length_le {headers : Value} {bytes payload tail : Bytes}
    (h : splitPayload headers bytes = .ok (payload, tail)) : tail.length ≤ bytes.length := by
  unfold splitPayload at h
  split at h
  next =>
    have heq := Except.ok.inj h
    have hle := Bytes.splitLine_length_le bytes
    rwa [heq] at hle
  next =>
    split at h
    next => simp at h
    next n _ =>
      split at h
      next => simp at h
      next =>
        obtain ⟨_, rfl⟩ := Prod.mk.inj (Except.ok.inj h)
        have hle := skipLineFeed_length_le (bytes.drop n)
        simp only [List.length_drop] at hle
        omega

/-- One turn of the reader: an empty line, or the headers and the payload of an item. -/
theorem readItems_succ (fuel : Nat) (done : List EnvelopeItem) {bytes : Bytes} (h : bytes ≠ []) :
    readItems (fuel + 1) done bytes =
      if bytes.splitLine.1.isEmpty then readItems fuel done bytes.splitLine.2
      else
        match readHeaders bytes.splitLine.1 with
        | .error e => .error e
        | .ok headers =>
          match splitPayload headers bytes.splitLine.2 with
          | .error e => .error e
          | .ok (payload, tail) => readItems fuel (⟨headers, payload⟩ :: done) tail := by
  cases bytes with
  | nil => exact absurd rfl h
  | cons b rest => rfl

theorem readItems_of_nil (fuel : Nat) (done : List EnvelopeItem) :
    readItems fuel done [] = .ok done.reverse := by
  cases fuel <;> rfl

/-- Turns beyond the number of bytes change nothing. -/
theorem readItems_fuel {fuel more : Nat} {done : List EnvelopeItem} {bytes : Bytes}
    (h : bytes.length ≤ fuel) (hm : bytes.length ≤ more) :
    readItems fuel done bytes = readItems more done bytes := by
  induction fuel generalizing more done bytes with
  | zero =>
    obtain rfl := List.length_eq_zero_iff.mp (Nat.le_zero.mp h)
    rw [readItems_of_nil, readItems_of_nil]
  | succ fuel ih =>
    by_cases hb : bytes = []
    · rw [hb, readItems_of_nil, readItems_of_nil]
    · have hlt := Bytes.splitLine_length_lt hb
      obtain ⟨more, rfl⟩ : ∃ m, more = m + 1 := ⟨more - 1, by omega⟩
      rw [readItems_succ fuel done hb, readItems_succ more done hb]
      split
      · exact ih (by omega) (by omega)
      · cases readHeaders bytes.splitLine.1 with
        | error e => rfl
        | ok headers =>
          simp only
          cases hp : splitPayload headers bytes.splitLine.2 with
          | error e => rfl
          | ok r =>
            obtain ⟨payload, tail⟩ := r
            have hle := splitPayload_length_le hp
            exact ih (by omega) (by omega)

/-- The items read before stand before those that are read next. -/
theorem readItems_done (fuel : Nat) (done : List EnvelopeItem) (bytes : Bytes) :
    readItems fuel done bytes = (readItems fuel [] bytes).map (done.reverse ++ ·) := by
  induction fuel generalizing done bytes with
  | zero => cases bytes <;> simp [readItems, Except.map]
  | succ fuel ih =>
    by_cases hb : bytes = []
    · simp [hb, readItems_of_nil, Except.map]
    · rw [readItems_succ fuel done hb, readItems_succ fuel [] hb]
      split
      · exact ih done _
      · cases readHeaders bytes.splitLine.1 with
        | error e => rfl
        | ok headers =>
          simp only
          cases splitPayload headers bytes.splitLine.2 with
          | error e => rfl
          | ok r =>
            simp only
            rw [ih (_ :: done), ih [_]]
            cases readItems fuel [] r.2 <;> simp [Except.map]

theorem readItems_eq_map {fuel : Nat} (done : List EnvelopeItem) {bytes : Bytes}
    (h : bytes.length ≤ fuel) :
    readItems fuel done bytes = (itemsOf bytes).map (done.reverse ++ ·) := by
  rw [readItems_done, itemsOf, readItems_fuel h (Nat.le_refl _)]

theorem itemsOf_nil : itemsOf [] = .ok [] := rfl

/-- The first line of some bytes is empty, or holds the headers of their first item. -/
theorem itemsOf_eq {bytes : Bytes} (h : bytes ≠ []) :
    itemsOf bytes =
      if bytes.splitLine.1.isEmpty then itemsOf bytes.splitLine.2
      else
        match readHeaders bytes.splitLine.1 with
        | .error e => .error e
        | .ok headers =>
          match splitPayload headers bytes.splitLine.2 with
          | .error e => .error e
          | .ok (payload, tail) => (itemsOf tail).map (⟨headers, payload⟩ :: ·) := by
  have hlt := Bytes.splitLine_length_lt h
  obtain ⟨fuel, hf⟩ : ∃ f, bytes.length = f + 1 := ⟨bytes.length - 1, by omega⟩
  rw [itemsOf, hf, readItems_succ fuel [] h]
  split
  · exact readItems_fuel (by omega) (Nat.le_refl _)
  · cases readHeaders bytes.splitLine.1 with
    | error e => rfl
    | ok headers =>
      simp only
      cases hp : splitPayload headers bytes.splitLine.2 with
      | error e => rfl
      | ok r =>
        obtain ⟨payload, tail⟩ := r
        have hle := splitPayload_length_le hp
        exact readItems_eq_map [_] (by omega)

theorem ofWire_eq {bytes : Bytes} :
    ofWire bytes =
      if bytes.splitLine.1.isEmpty then .error .missingHeader
      else
        match readHeaders bytes.splitLine.1 with
        | .error e => .error e
        | .ok headers => (itemsOf bytes.splitLine.2).map (⟨headers, ·⟩) := by
  rw [ofWire, itemsOf]
  generalize bytes.splitLine = r
  obtain ⟨line, rest⟩ := r
  simp only
  split
  · rfl
  · cases readHeaders line with
    | error e => rfl
    | ok headers => cases readItems rest.length [] rest <;> rfl

end CrashCourier.Envelope
