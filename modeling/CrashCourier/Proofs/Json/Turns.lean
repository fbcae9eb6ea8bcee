import CrashCourier.Json.Reader

namespace CrashCourier.Json

theorem bind_eq_ok_iff {ε α β : Type} {x : Except ε α} {f : α → Except ε β} {b : β} :
    (x >>= f) = .ok b ↔ ∃ a, x = .ok a ∧ f a = .ok b := by
  cases x <;> simp [bind, Except.bind]

theorem map_eq_ok_iff {ε α β : Type} {x : Except ε α} {f : α → β} {b : β} :
    x.map f = .ok b ↔ ∃ a, x = .ok a ∧ f a = b := by
  cases x <;> simp [Except.map]

theorem mapError_eq_ok_iff {ε δ α : Type} {x : Except ε α} {f : ε → δ} {a : α} :
    x.mapError f = .ok a ↔ x = .ok a := by
  cases x with
  | error e => exact ⟨nofun, nofun⟩
  | ok b => constructor <;> exact fun h => congrArg Except.ok (Except.ok.inj h)

variable {readItem : Reader Value} {text rest : Bytes}

/-- The items from one on: it is the last one, or a comma and others follow. -/
theorem readItems_eq_ok_iff {fuel : Nat} {done items : List Value} :
    readItems readItem (fuel + 1) done text = .ok (items, rest) ↔
      ∃ item after, readItem text = .ok (item, after) ∧
        (skipBlanks after = closeList :: rest ∧ items = (item :: done).reverse ∨
          ∃ next c more, skipBlanks after = comma :: next ∧ skipBlanks next = c :: more ∧
            c ≠ closeList ∧
            readItems readItem fuel (item :: done) (c :: more) = .ok (items, rest)) := by
  simp only [readItems, bind_eq_ok_iff, Prod.exists]
  constructor
  · rintro ⟨item, after, hitem, h⟩
    refine ⟨item, after, hitem, ?_⟩
    split at h
    next => simp at h
    next b following hskip =>
      split at h
      next hb =>
        obtain ⟨rfl, rfl⟩ := Prod.mk.inj (Except.ok.inj h)
        exact Or.inl ⟨hb ▸ hskip, rfl⟩
      next =>
        split at h
        next hb =>
          split at h
          next => simp at h
          next c more hnext =>
            split at h
            next => simp at h
            next hc => exact Or.inr ⟨following, c, more, hb ▸ hskip, hnext, hc, h⟩
        next => simp at h
  · rintro ⟨item, after, hitem, ⟨hskip, rfl⟩ | ⟨next, c, more, hskip, hnext, hc, h⟩⟩
    · exact ⟨item, after, hitem, by simp [hskip]⟩
    · have hne : comma ≠ closeList := by decide
      refine ⟨item, after, hitem, ?_⟩
      simp only [hskip, hne, hnext, hc, ↓reduceIte]
      exact h

theorem readList_eq_ok_iff {items : List Value} :
    readList readItem text = .ok (items, rest) ↔
      skipBlanks text = closeList :: rest ∧ items = [] ∨
      ∃ b more, skipBlanks text = b :: more ∧ b ≠ closeList ∧
        readItems readItem text.length [] (b :: more) = .ok (items, rest) := by
  unfold readList
  constructor
  · intro h
    split at h
    next => simp at h
    next b more hskip =>
      split at h
      next hb =>
        obtain ⟨rfl, rfl⟩ := Prod.mk.inj (Except.ok.inj h)
        exact Or.inl ⟨hb ▸ hskip, rfl⟩
      next hb => exact Or.inr ⟨b, more, hskip, hb, h⟩
  · rintro (⟨hskip, rfl⟩ | ⟨b, more, hskip, hb, h⟩)
    · simp [hskip]
    · simp only [hskip, hb, ↓reduceIte]
      exact h

theorem readEntry_eq_ok_iff {key : String} {item : Value} :
    readEntry readItem text = .ok ((key, item), rest) ↔
      ∃ after more, readText text = .ok (key, after) ∧ skipBlanks after = colon :: more ∧
        readItem more = .ok (item, rest) := by
  simp only [readEntry, bind_eq_ok_iff, Prod.exists]
  constructor
  · rintro ⟨k, after, hkey, h⟩
    split at h
    next => simp at h
    next b more hskip =>
      split at h
      next hb =>
        obtain ⟨⟨read, last⟩, hitem, heq⟩ := bind_eq_ok_iff.mp h
        obtain ⟨hentry, rfl⟩ := Prod.mk.inj (Except.ok.inj heq)
        obtain ⟨rfl, rfl⟩ := Prod.mk.inj hentry
        exact ⟨after, more, hkey, hb ▸ hskip, hitem⟩
      next => simp at h
  · rintro ⟨after, more, hkey, hskip, hitem⟩
    refine ⟨key, after, hkey, ?_⟩
    simp only [hskip, ↓reduceIte]
    exact bind_eq_ok_iff.mpr ⟨(item, rest), hitem, rfl⟩

/-- The entries from one on: it is the last one, or a comma and others follow. -/
theorem readEntries_eq_ok_iff {fuel : Nat} {done es : Entries} :
    readEntries readItem (fuel + 1) done text = .ok (es, rest) ↔
      ∃ key item after, readEntry readItem text = .ok ((key, item), after) ∧
        (skipBlanks after = closeObject :: rest ∧ es = Entries.insert done key item ∨
          ∃ next more, skipBlanks after = comma :: next ∧ skipBlanks next = quote :: more ∧
            readEntries readItem fuel (Entries.insert done key item) more = .ok (es, rest)) := by
  simp only [readEntries, bind_eq_ok_iff, Prod.exists]
  constructor
  · rintro ⟨key, item, after, hentry, h⟩
    refine ⟨key, item, after, hentry, ?_⟩
    split at h
    next => simp at h
    next b following hskip =>
      split at h
      next hb =>
        obtain ⟨rfl, rfl⟩ := Prod.mk.inj (Except.ok.inj h)
        exact Or.inl ⟨hb ▸ hskip, rfl⟩
      next =>
        split at h
        next hb =>
          split at h
          next => simp at h
          next c more hnext =>
            split at h
            next hc => exact Or.inr ⟨following, more, hb ▸ hskip, hc ▸ hnext, h⟩
            next => split at h <;> simp at h
        next => simp at h
  · rintro ⟨key, item, after, hentry, ⟨hskip, rfl⟩ | ⟨next, more, hskip, hnext, h⟩⟩
    · exact ⟨key, item, after, hentry, by simp [hskip]⟩
    · have hne : comma ≠ closeObject := by decide
      refine ⟨key, item, after, hentry, ?_⟩
      simp only [hskip, hne, hnext, ↓reduceIte]
      exact h

theorem readObject_eq_ok_iff {es : Entries} :
    readObject readItem text = .ok (es, rest) ↔
      skipBlanks text = closeObject :: rest ∧ es = [] ∨
      ∃ more, skipBlanks text = quote :: more ∧
        readEntries readItem text.length [] more = .ok (es, rest) := by
  have hne : quote ≠ closeObject := by decide
  unfold readObject
  constructor
  · intro h
    split at h
    next => simp at h
    next b more hskip =>
      split at h
      next hb =>
        obtain ⟨rfl, rfl⟩ := Prod.mk.inj (Except.ok.inj h)
        exact Or.inl ⟨hb ▸ hskip, rfl⟩
      next =>
        split at h
        next hb => exact Or.inr ⟨more, hb ▸ hskip, h⟩
        next => simp at h
  · rintro (⟨hskip, rfl⟩ | ⟨more, hskip, h⟩)
    · simp [hskip]
    · simp only [hskip, hne, ↓reduceIte]
      exact h

/-- A value is a list, an object or a scalar, told apart by its first byte. -/
theorem readValue_eq_ok_iff {n : Nat} {v : Value} :
    readValue n text = .ok (v, rest) ↔
      ∃ b more, skipBlanks text = b :: more ∧
        (b = openList ∧ (∃ m items, n = m + 1 ∧ v = .list items ∧
            readList (readValue m) more = .ok (items, rest)) ∨
          b = openObject ∧ (∃ m es, n = m + 1 ∧ v = .object es ∧
            readObject (readValue m) more = .ok (es, rest)) ∨
          b ≠ openList ∧ b ≠ openObject ∧ readScalar b more = .ok (v, rest)) := by
  have hne : openObject ≠ openList := by decide
  constructor
  · intro h
    unfold readValue at h
    split at h
    next => simp at h
    next b more hskip =>
      refine ⟨b, more, hskip, ?_⟩
      split at h
      next hb =>
        split at h
        next => simp at h
        next m =>
          obtain ⟨⟨items, after⟩, hitems, heq⟩ := map_eq_ok_iff.mp h
          obtain ⟨rfl, rfl⟩ := Prod.mk.inj heq
          exact Or.inl ⟨hb, m, items, rfl, rfl, hitems⟩
      next hl =>
        split at h
        next hb =>
          split at h
          next => simp at h
          next m =>
            obtain ⟨⟨es, after⟩, hes, heq⟩ := map_eq_ok_iff.mp h
            obtain ⟨rfl, rfl⟩ := Prod.mk.inj heq
            exact Or.inr (Or.inl ⟨hb, m, es, rfl, rfl, hes⟩)
        next ho => exact Or.inr (Or.inr ⟨hl, ho, h⟩)
  · rintro ⟨b, more, hskip, ⟨rfl, m, items, rfl, rfl, h⟩ | ⟨rfl, m, es, rfl, rfl, h⟩ |
      ⟨hl, ho, h⟩⟩
    · unfold readValue
      simp [hskip, h, Except.map]
    · unfold readValue
      simp [hskip, hne, h, Except.map]
    · unfold readValue
      simp only [hskip, hl, ho, ↓reduceIte]
      exact h

theorem read_eq_ok_iff {v : Value} :
    read text = .ok v ↔
      ∃ after, readValue deepest text = .ok (v, after) ∧ skipBlanks after = [] := by
  have hread : read text = .ok v ↔ readAll text = .ok v := mapError_eq_ok_iff
  simp only [hread, readAll, bind_eq_ok_iff, Prod.exists]
  constructor
  · rintro ⟨w, after, hvalue, h⟩
    split at h
    next hskip =>
      obtain rfl := Except.ok.inj h
      exact ⟨after, hvalue, hskip⟩
    next => simp at h
  · rintro ⟨after, hvalue, hskip⟩
    exact ⟨v, after, hvalue, by simp [hskip]⟩

end CrashCourier.Json
