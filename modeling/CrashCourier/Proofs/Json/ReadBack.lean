import CrashCourier.Proofs.Json.NumberTexts
import CrashCourier.Proofs.Json.Texts
import CrashCourier.Proofs.ValueShape

namespace CrashCourier.Json

open Value

structure Spacing.Blank (s : Spacing) : Prop where
  lineBreak : ∀ depth, ∀ b ∈ s.lineBreak depth, isBlank b = true
  afterColon : ∀ b ∈ s.afterColon, isBlank b = true

theorem Spacing.blank_compact : Spacing.compact.Blank :=
  ⟨by simp [Spacing.compact], by simp [Spacing.compact]⟩

theorem Spacing.blank_indented : Spacing.indented.Blank := by
  refine ⟨fun depth b hb => ?_, by simp [Spacing.indented, isBlank]⟩
  rcases List.mem_cons.mp hb with rfl | hb
  · rfl
  · obtain ⟨_, rfl⟩ := List.mem_replicate.mp hb
    rfl

theorem skipBlanks_append {bs : Bytes} (h : ∀ b ∈ bs, isBlank b = true) (rest : Bytes) :
    skipBlanks (bs ++ rest) = skipBlanks rest :=
  List.dropWhile_append_of_pos h

theorem skipBlanks_cons {b : UInt8} (h : isBlank b = false) (rest : Bytes) :
    skipBlanks (b :: rest) = b :: rest :=
  List.dropWhile_cons_of_neg (by simp [h])

theorem endsNumber_of_blank {b : UInt8} (h : isBlank b = true) (rest : Bytes) :
    EndsNumber (b :: rest) := by
  simp only [isBlank, Bool.or_eq_true, decide_eq_true_eq] at h
  rcases h with ((rfl | rfl) | rfl) | rfl <;> exact endsNumber_cons rfl (by decide) rfl

theorem endsNumber_append {bs rest : Bytes} (h : ∀ b ∈ bs, isBlank b = true)
    (hr : EndsNumber rest) : EndsNumber (bs ++ rest) := by
  cases bs with
  | nil => exact hr
  | cons b bs => exact endsNumber_of_blank (h b (by simp)) _

theorem readValue_append {bs : Bytes} (h : ∀ b ∈ bs, isBlank b = true) (n : Nat) (rest : Bytes) :
    readValue n (bs ++ rest) = readValue n rest := by
  conv => lhs; unfold readValue
  conv => rhs; unfold readValue
  rw [skipBlanks_append h]

theorem readValue_scalar {b : UInt8} (hb : isBlank b = false) (hl : b ≠ openList)
    (ho : b ≠ openObject) (n : Nat) (rest : Bytes) :
    readValue n (b :: rest) = readScalar b rest := by
  unfold readValue
  simp only [skipBlanks_cons hb, hl, ho, ↓reduceIte]

theorem readValue_list (n : Nat) (rest : Bytes) :
    readValue (n + 1) (openList :: rest) =
      (readList (readValue n) rest).map fun r => (.list r.1, r.2) := by
  conv => lhs; unfold readValue
  rw [skipBlanks_cons (by decide)]
  rfl

theorem readValue_object (n : Nat) (rest : Bytes) :
    readValue (n + 1) (openObject :: rest) =
      (readObject (readValue n) rest).map fun r => (.object r.1, r.2) := by
  conv => lhs; unfold readValue
  rw [skipBlanks_cons (by decide)]
  rfl

/-- A finite double is read back, whatever follows. -/
def Legible (v : Value) : Prop :=
  ∀ d, v = .double d → d.isFinite = true → ∃ b more, writeDouble d = b :: more ∧
    isDigit b = true ∧ ∀ rest, EndsNumber rest → readScalar b (more ++ rest) = .ok (v, rest)

theorem legible_of_notFinite {v : Value} (h : NotFinite v) : Legible v := by
  intro d hd hfinite
  simp [h d hd] at hfinite

theorem ne_of_numberStart {b c : UInt8} (hb : b = minus ∨ isDigit b = true) (hm : c ≠ minus)
    (hd : isDigit c = false) : b ≠ c := by
  rintro rfl
  rcases hb with h | h
  · exact hm h
  · simp [h] at hd

theorem isBlank_of_numberStart {b : UInt8} (hb : b = minus ∨ isDigit b = true) :
    isBlank b = false := by
  have h₁ := ne_of_numberStart (c := 0x20) hb (by decide) rfl
  have h₂ := ne_of_numberStart (c := 0x09) hb (by decide) rfl
  have h₃ := ne_of_numberStart (c := 0x0a) hb (by decide) rfl
  have h₄ := ne_of_numberStart (c := 0x0d) hb (by decide) rfl
  simp [isBlank, h₁, h₂, h₃, h₄]

theorem readValue_writeInt (i : Int32) (n : Nat) {rest : Bytes} (hr : EndsNumber rest) :
    readValue n (writeInt i ++ rest) = .ok (.int i, rest) := by
  obtain ⟨b, more, he, hb, hread⟩ := readScalar_writeInt i hr
  rw [he, List.cons_append, readValue_scalar (isBlank_of_numberStart hb)
    (ne_of_numberStart hb (by decide) rfl) (ne_of_numberStart hb (by decide) rfl), hread]

theorem readValue_writeText (s : String) (n : Nat) (rest : Bytes) :
    readValue n (writeText s ++ rest) = .ok (.string s, rest) := by
  rw [writeText_append, readValue_scalar (by decide) (by decide) (by decide), readScalar_writeText]

theorem readValue_nullWord (n : Nat) (rest : Bytes) :
    readValue n (nullWord ++ rest) = .ok (.null, rest) := by
  rw [nullWord, List.cons_append, readValue_scalar (by decide) (by decide) (by decide)]
  rfl

theorem readValue_boolWord (b : Bool) (n : Nat) (rest : Bytes) :
    readValue n ((if b then trueWord else falseWord) ++ rest) = .ok (.bool b, rest) := by
  cases b
  · rw [if_neg (by decide), falseWord, List.cons_append,
      readValue_scalar (by decide) (by decide) (by decide)]
    rfl
  · rw [if_pos rfl, trueWord, List.cons_append,
      readValue_scalar (by decide) (by decide) (by decide)]
    rfl

/-- A value starts with a byte that is not blank and ends no list. -/
theorem write_eq_cons (s : Spacing) (depth : Nat) (v : Value) :
    ∃ b more, write s depth v = b :: more ∧ isBlank b = false ∧ b ≠ closeList := by
  cases v with
  | null => exact ⟨_, _, by rw [write, nullWord], rfl, by decide⟩
  | bool b => cases b <;> exact ⟨_, _, rfl, rfl, by decide⟩
  | int i =>
    obtain ⟨b, more, he, hb, _⟩ := readScalar_writeInt i endsNumber_nil
    exact ⟨b, more, by rw [write, he], isBlank_of_numberStart hb,
      ne_of_numberStart hb (by decide) rfl⟩
  | double d =>
    cases hfinite : d.isFinite with
    | true =>
      obtain ⟨b, more, he, hb, -⟩ := takes_writeDouble hfinite
      exact ⟨b, more, by rw [write, he], isBlank_of_numberStart hb,
        ne_of_numberStart hb (by decide) rfl⟩
    | false => exact ⟨_, _, by rw [write, writeDouble, hfinite]; rfl, rfl, by decide⟩
  | string t => exact ⟨_, _, by rw [write, writeText], rfl, by decide⟩
  | list xs => cases xs <;> exact ⟨_, _, by rw [write], rfl, by decide⟩
  | object es => cases es <;> exact ⟨_, _, by rw [write], rfl, by decide⟩

/-- With nesting to `n`, the text of a value at a depth is read as another value. -/
def ReadsAs (s : Spacing) (n depth : Nat) (v w : Value) : Prop :=
  ∀ rest, EndsNumber rest → readValue n (write s depth v ++ rest) = .ok (w, rest)

/-- An item before another is read, and so is the comma after it. -/
theorem readItems_write_cons {s : Spacing} (hs : s.Blank) {n depth fuel : Nat} {x w : Value}
    {done : List Value} (hx : ReadsAs s n depth x w) (y : Value) (ys : List Value) (tail : Bytes) :
    readItems (readValue n) (fuel + 1) done
        (write s depth x ++ (writeItems s depth (y :: ys) ++ tail)) =
      readItems (readValue n) fuel (w :: done)
        (write s depth y ++ (writeItems s depth ys ++ tail)) := by
  obtain ⟨c, more, hc, hblank, hclose⟩ := write_eq_cons s depth y
  have hread := hx (comma :: (s.lineBreak depth ++ (write s depth y ++
    (writeItems s depth ys ++ tail)))) (endsNumber_cons rfl (by decide) rfl)
  have hne : comma ≠ closeList := by decide
  simp only [writeItems, List.cons_append, List.append_assoc, readItems, hread, bind, Except.bind,
    skipBlanks_cons (show isBlank comma = false by rfl), hne, ↓reduceIte,
    skipBlanks_append (hs.lineBreak depth)]
  rw [hc]
  simp only [List.cons_append, skipBlanks_cons hblank, hclose, ↓reduceIte]

theorem readItems_write_last {s : Spacing} (hs : s.Blank) {n depth fuel : Nat} {x w : Value}
    {done : List Value} (hx : ReadsAs s n depth x w) (outer : Nat) (rest : Bytes) :
    readItems (readValue n) (fuel + 1) done
        (write s depth x ++ (s.lineBreak outer ++ closeList :: rest)) =
      .ok ((w :: done).reverse, rest) := by
  have hread := hx (s.lineBreak outer ++ closeList :: rest)
    (endsNumber_append (hs.lineBreak outer) (endsNumber_cons rfl (by decide) rfl))
  simp only [readItems, hread, bind, Except.bind, skipBlanks_append (hs.lineBreak outer),
    skipBlanks_cons (show isBlank closeList = false by rfl), ↓reduceIte]

theorem readItems_of_error {n fuel : Nat} {text : Bytes} {e : Stop} {done : List Value}
    (h : readValue n text = .error e) :
    readItems (readValue n) (fuel + 1) done text = .error e := by
  rw [readItems, h]
  rfl

theorem length_le_length_writeItems (s : Spacing) (depth : Nat) (xs : List Value) :
    xs.length ≤ (writeItems s depth xs).length := by
  induction xs with
  | nil => simp
  | cons x xs ih =>
    simp only [writeItems, List.cons_append, List.length_cons, List.length_append]
    omega

/-- The items of a list start after its first line break, with turns enough for all of them. -/
theorem readList_write_cons {s : Spacing} (hs : s.Blank) (n depth : Nat) (x : Value)
    (xs : List Value) (tail : Bytes) :
    ∃ fuel, xs.length < fuel ∧
      readList (readValue n) (s.lineBreak depth ++ (write s depth x ++
        (writeItems s depth xs ++ tail))) =
      readItems (readValue n) fuel [] (write s depth x ++ (writeItems s depth xs ++ tail)) := by
  obtain ⟨c, more, hc, hblank, hclose⟩ := write_eq_cons s depth x
  have hlen := length_le_length_writeItems s depth xs
  generalize hfuel : (s.lineBreak depth ++ (write s depth x ++
    (writeItems s depth xs ++ tail))).length = fuel
  refine ⟨fuel, ?_, ?_⟩
  · rw [← hfuel, hc]
    simp only [List.length_append, List.length_cons]
    omega
  · rw [readList, hfuel, skipBlanks_append (hs.lineBreak depth), hc]
    simp only [List.cons_append, skipBlanks_cons hblank, hclose, ↓reduceIte]

/-- An entry before another is read, and so are the comma after it and the quote of the next. -/
theorem readEntries_write_cons {s : Spacing} (hs : s.Blank) {n depth fuel : Nat}
    {key other : String} {x y w : Value} {es done : Entries} (hx : ReadsAs s n depth x w)
    (tail : Bytes) :
    readEntries (readValue n) (fuel + 1) done ((Text.bytes key).flatMap escapeByte ++
        quote :: colon :: (s.afterColon ++ (write s depth x ++
          (writeEntries s depth ((other, y) :: es) ++ tail)))) =
      readEntries (readValue n) fuel (Entries.insert done key w)
        ((Text.bytes other).flatMap escapeByte ++ quote :: colon :: (s.afterColon ++
          (write s depth y ++ (writeEntries s depth es ++ tail)))) := by
  have hread := hx (comma :: (s.lineBreak depth ++ quote ::
    ((Text.bytes other).flatMap escapeByte ++ quote :: colon :: (s.afterColon ++
      (write s depth y ++ (writeEntries s depth es ++ tail))))))
    (endsNumber_cons rfl (by decide) rfl)
  have hne : comma ≠ closeObject := by decide
  simp only [writeEntries, List.cons_append, List.append_assoc, writeText_append, readEntries,
    readEntry, readText_escaped, readValue_append hs.afterColon, hread, bind, Except.bind,
    skipBlanks_cons (show isBlank colon = false by rfl),
    skipBlanks_cons (show isBlank comma = false by rfl),
    skipBlanks_cons (show isBlank quote = false by rfl), hne, ↓reduceIte,
    skipBlanks_append (hs.lineBreak depth)]

theorem readEntries_write_last {s : Spacing} (hs : s.Blank) {n depth fuel : Nat} {key : String}
    {x w : Value} {done : Entries} (hx : ReadsAs s n depth x w) (outer : Nat) (rest : Bytes) :
    readEntries (readValue n) (fuel + 1) done ((Text.bytes key).flatMap escapeByte ++
        quote :: colon :: (s.afterColon ++ (write s depth x ++
          (s.lineBreak outer ++ closeObject :: rest)))) =
      .ok (Entries.insert done key w, rest) := by
  have hread := hx (s.lineBreak outer ++ closeObject :: rest)
    (endsNumber_append (hs.lineBreak outer) (endsNumber_cons rfl (by decide) rfl))
  simp only [readEntries, readEntry, readText_escaped, readValue_append hs.afterColon, hread, bind,
    Except.bind, skipBlanks_append (hs.lineBreak outer),
    skipBlanks_cons (show isBlank colon = false by rfl),
    skipBlanks_cons (show isBlank closeObject = false by rfl), ↓reduceIte]

theorem readEntries_of_error {s : Spacing} (hs : s.Blank) {n fuel : Nat} {text : Bytes} {e : Stop}
    {done : Entries} (key : String) (h : readValue n text = .error e) :
    readEntries (readValue n) (fuel + 1) done ((Text.bytes key).flatMap escapeByte ++
      quote :: colon :: (s.afterColon ++ text)) = .error e := by
  simp only [readEntries, readEntry, readText_escaped, bind, Except.bind,
    skipBlanks_cons (show isBlank colon = false by rfl), ↓reduceIte,
    readValue_append hs.afterColon, h]

theorem length_le_length_writeEntries (s : Spacing) (depth : Nat) (es : Entries) :
    es.length ≤ (writeEntries s depth es).length := by
  induction es with
  | nil => simp
  | cons e es ih =>
    simp only [writeEntries, List.cons_append, List.length_cons, List.length_append]
    omega

/-- The entries of an object start after its first quote, with turns enough for all of them. -/
theorem readObject_write_cons {s : Spacing} (hs : s.Blank) (n depth : Nat) (key : String)
    (x : Value) (es : Entries) (tail : Bytes) :
    ∃ fuel, es.length < fuel ∧
      readObject (readValue n) (s.lineBreak depth ++ (writeText key ++ (colon ::
        (s.afterColon ++ (write s depth x ++ (writeEntries s depth es ++ tail)))))) =
      readEntries (readValue n) fuel [] ((Text.bytes key).flatMap escapeByte ++ quote :: colon ::
        (s.afterColon ++ (write s depth x ++ (writeEntries s depth es ++ tail)))) := by
  have hlen := length_le_length_writeEntries s depth es
  have hne : quote ≠ closeObject := by decide
  generalize hfuel : (s.lineBreak depth ++ (writeText key ++ (colon ::
    (s.afterColon ++ (write s depth x ++ (writeEntries s depth es ++ tail)))))).length = fuel
  refine ⟨fuel, ?_, ?_⟩
  · rw [← hfuel]
    simp only [List.length_append, List.length_cons]
    omega
  · rw [readObject, hfuel, writeText_append, skipBlanks_append (hs.lineBreak depth),
      skipBlanks_cons (by decide)]
    simp only [hne, ↓reduceIte]

mutual

/-- What is read of the text of a value in which brackets may nest `n` times: of a double what is
read of its own text, and of an object its entries set one after the other. -/
def reread (n : Nat) : Value → Option Value
  | .double d => (readValue 0 (writeDouble d)).toOption.map fun read => read.1
  | .list xs =>
    match n with
    | 0 => none
    | n + 1 => (rereadItems n xs).map .list
  | .object es =>
    match n with
    | 0 => none
    | n + 1 => (rereadEntries n [] es).map .object
  | v => some v

def rereadItems (n : Nat) : List Value → Option (List Value)
  | [] => some []
  | x :: xs => (reread n x).bind fun w => (rereadItems n xs).map fun ws => w :: ws

def rereadEntries (n : Nat) (done : Entries) : List (String × Value) → Option Entries
  | [] => some done
  | (key, x) :: es => (reread n x).bind fun w => rereadEntries n (Entries.insert done key w) es

end

/-- The text of a value at a depth is read as `reread` says, up to what follows it. -/
def Rereads (s : Spacing) (n depth : Nat) (v : Value) : Prop :=
  ∀ rest, EndsNumber rest →
    (readValue n (write s depth v ++ rest)).toOption = (reread n v).map fun w => (w, rest)

theorem toOption_eq_some_iff {ε α : Type} {x : Except ε α} {a : α} :
    x.toOption = some a ↔ x = .ok a := by
  cases x with
  | error e => exact ⟨nofun, nofun⟩
  | ok b => constructor <;> exact fun h => by cases h; rfl

theorem toOption_map {ε α β : Type} (x : Except ε α) (f : α → β) :
    (x.map f).toOption = x.toOption.map f := by
  cases x <;> rfl

variable {s : Spacing} {n depth : Nat} {v w : Value}

theorem Rereads.readsAs (h : Rereads s n depth v) (hw : reread n v = some w) :
    ReadsAs s n depth v w := by
  intro rest hr
  rw [← toOption_eq_some_iff, h rest hr, hw]
  rfl

theorem rereads_of_readsAs (hw : reread n v = some w) (h : ReadsAs s n depth v w) :
    Rereads s n depth v := by
  intro rest hr
  rw [h rest hr, hw]
  rfl

theorem rereads_double (s : Spacing) (n depth : Nat) (d : Double) :
    Rereads s n depth (.double d) := by
  cases hfinite : d.isFinite with
  | true =>
    obtain ⟨b, more, he, hb, taken, htaken⟩ := takes_writeDouble hfinite
    have hscalar : ∀ m rest, readValue m (writeDouble d ++ rest) = readScalar b (more ++ rest) := by
      intro m rest
      rw [he, List.cons_append, readValue_scalar (isBlank_of_numberStart hb)
        (ne_of_numberStart hb (by decide) rfl) (ne_of_numberStart hb (by decide) rfl)]
    have halone := htaken [] endsNumber_nil
    rw [← hscalar 0, List.append_nil] at halone
    intro rest hr
    rw [write, hscalar, htaken rest hr, reread, halone]
    cases taken <;> rfl
  | false =>
    have hnull : writeDouble d = nullWord := by rw [writeDouble, if_neg (by simp [hfinite])]
    refine rereads_of_readsAs (w := .null) ?_ fun rest _ => ?_
    · rw [reread, hnull]
      rfl
    · rw [write, hnull]
      exact readValue_nullWord n rest

theorem Rereads.error {rest : Bytes} (h : Rereads s n depth v) (hv : reread n v = none)
    (hr : EndsNumber rest) : ∃ e, readValue n (write s depth v ++ rest) = .error e := by
  have hread := h rest hr
  rw [hv] at hread
  cases hvalue : readValue n (write s depth v ++ rest) with
  | ok read => simp [hvalue, Except.toOption] at hread
  | error e => exact ⟨e, rfl⟩

theorem endsNumber_writeItems (hs : s.Blank) (outer : Nat) (xs : List Value) (rest : Bytes) :
    EndsNumber (writeItems s depth xs ++ (s.lineBreak outer ++ closeList :: rest)) := by
  cases xs with
  | nil =>
    rw [writeItems, List.nil_append]
    exact endsNumber_append (hs.lineBreak outer) (endsNumber_cons rfl (by decide) rfl)
  | cons x xs =>
    rw [writeItems]
    exact endsNumber_cons rfl (by decide) rfl

theorem endsNumber_writeEntries (hs : s.Blank) (outer : Nat) (es : Entries) (rest : Bytes) :
    EndsNumber (writeEntries s depth es ++ (s.lineBreak outer ++ closeObject :: rest)) := by
  cases es with
  | nil =>
    rw [writeEntries, List.nil_append]
    exact endsNumber_append (hs.lineBreak outer) (endsNumber_cons rfl (by decide) rfl)
  | cons e es =>
    rw [writeEntries]
    exact endsNumber_cons rfl (by decide) rfl

theorem toOption_readItems_write (hs : s.Blank) {outer fuel : Nat} {x : Value}
    {xs done : List Value} {rest : Bytes} (h : ∀ y ∈ x :: xs, Rereads s n depth y)
    (hf : xs.length < fuel) :
    (readItems (readValue n) fuel done (write s depth x ++ (writeItems s depth xs ++
      (s.lineBreak outer ++ closeList :: rest)))).toOption =
      (rereadItems n (x :: xs)).map fun ws => (done.reverse ++ ws, rest) := by
  -- an item that is refused ends the list; one that is read leaves the same of it in every spacing
  induction xs generalizing x done fuel with
  | nil =>
    obtain ⟨fuel, rfl⟩ : ∃ f, fuel = f + 1 := ⟨fuel - 1, by omega⟩
    have hx := h x (by simp)
    cases hw : reread n x with
    | none =>
      obtain ⟨e, he⟩ := hx.error hw (endsNumber_writeItems hs outer [] rest)
      rw [readItems_of_error he, rereadItems, hw]
      rfl
    | some w =>
      rw [writeItems, List.nil_append, readItems_write_last hs (hx.readsAs hw), rereadItems, hw,
        List.reverse_cons]
      rfl
  | cons y ys ih =>
    obtain ⟨fuel, rfl⟩ : ∃ f, fuel = f + 1 := ⟨fuel - 1, by omega⟩
    obtain ⟨hx, hys⟩ := List.forall_mem_cons.mp h
    have hf' : ys.length < fuel := by
      simp only [List.length_cons] at hf
      omega
    cases hw : reread n x with
    | none =>
      obtain ⟨e, he⟩ := hx.error hw (endsNumber_writeItems hs outer (y :: ys) rest)
      rw [readItems_of_error he, rereadItems, hw]
      rfl
    | some w =>
      rw [readItems_write_cons hs (hx.readsAs hw), ih hys hf', rereadItems.eq_2 n x, hw,
        List.reverse_cons]
      simp [Function.comp_def]

theorem toOption_readList_write (hs : s.Blank) {outer : Nat} {x : Value} {xs : List Value}
    (rest : Bytes) (h : ∀ y ∈ x :: xs, Rereads s n depth y) :
    (readList (readValue n) (s.lineBreak depth ++ (write s depth x ++ (writeItems s depth xs ++
      (s.lineBreak outer ++ closeList :: rest))))).toOption =
      (rereadItems n (x :: xs)).map fun ws => (ws, rest) := by
  obtain ⟨fuel, hf, heq⟩ := readList_write_cons hs n depth x xs
    (s.lineBreak outer ++ closeList :: rest)
  rw [heq, toOption_readItems_write hs h hf]
  rfl

theorem toOption_readEntries_write (hs : s.Blank) {outer fuel : Nat} {key : String} {x : Value}
    {es done : Entries} {rest : Bytes} (h : ∀ e ∈ (key, x) :: es, Rereads s n depth e.2)
    (hf : es.length < fuel) :
    (readEntries (readValue n) fuel done ((Text.bytes key).flatMap escapeByte ++ quote :: colon ::
      (s.afterColon ++ (write s depth x ++ (writeEntries s depth es ++
        (s.lineBreak outer ++ closeObject :: rest)))))).toOption =
      (rereadEntries n done ((key, x) :: es)).map fun read => (read, rest) := by
  induction es generalizing key x done fuel with
  | nil =>
    obtain ⟨fuel, rfl⟩ : ∃ f, fuel = f + 1 := ⟨fuel - 1, by omega⟩
    have hx := h (key, x) (by simp)
    cases hw : reread n x with
    | none =>
      obtain ⟨e, he⟩ := hx.error hw (endsNumber_writeEntries hs outer [] rest)
      rw [readEntries_of_error hs key he, rereadEntries, hw]
      rfl
    | some w =>
      rw [writeEntries, List.nil_append, readEntries_write_last hs (hx.readsAs hw), rereadEntries,
        hw]
      rfl
  | cons e es ih =>
    obtain ⟨fuel, rfl⟩ : ∃ f, fuel = f + 1 := ⟨fuel - 1, by omega⟩
    obtain ⟨other, y⟩ := e
    obtain ⟨hx, hes⟩ := List.forall_mem_cons.mp h
    have hf' : es.length < fuel := by
      simp only [List.length_cons] at hf
      omega
    cases hw : reread n x with
    | none =>
      obtain ⟨e, he⟩ := hx.error hw (endsNumber_writeEntries hs outer ((other, y) :: es) rest)
      rw [readEntries_of_error hs key he, rereadEntries, hw]
      rfl
    | some w =>
      rw [readEntries_write_cons hs (hx.readsAs hw), ih hes hf', rereadEntries.eq_2 n done key x,
        hw]
      rfl

theorem toOption_readObject_write (hs : s.Blank) {outer : Nat} {key : String} {x : Value}
    {es : Entries} (rest : Bytes) (h : ∀ e ∈ (key, x) :: es, Rereads s n depth e.2) :
    (readObject (readValue n) (s.lineBreak depth ++ (writeText key ++ (colon :: (s.afterColon ++
      (write s depth x ++ (writeEntries s depth es ++
        (s.lineBreak outer ++ closeObject :: rest)))))))).toOption =
      (rereadEntries n [] ((key, x) :: es)).map fun read => (read, rest) := by
  obtain ⟨fuel, hf, heq⟩ := readObject_write_cons hs n depth key x es
    (s.lineBreak outer ++ closeObject :: rest)
  rw [heq, toOption_readEntries_write hs h hf]

theorem readValue_zero_bracket {b : UInt8} (hb : b = openList ∨ b = openObject) (rest : Bytes) :
    readValue 0 (b :: rest) = .error (ahead .tooDeep (b :: rest)) := by
  rw [readValue.eq_def]
  rcases hb with rfl | rfl <;> rfl

/-- Whatever the spacing, the depth and what follows: of the text of a value the same is read. -/
theorem toOption_readValue_write (hs : s.Blank) (v : Value) (n depth : Nat) :
    Rereads s n depth v := by
  induction v using shapeInduction generalizing n depth with
  | null => exact rereads_of_readsAs (by simp [reread]) fun rest _ => readValue_nullWord n rest
  | bool b => exact rereads_of_readsAs (by simp [reread]) fun rest _ => readValue_boolWord b n rest
  | int i => exact rereads_of_readsAs (by simp [reread]) fun rest hr => readValue_writeInt i n hr
  | double d => exact rereads_double s n depth d
  | string t =>
    exact rereads_of_readsAs (by simp [reread]) fun rest _ => readValue_writeText t n rest
  | list xs ih =>
    intro rest hr
    cases n with
    | zero =>
      obtain ⟨more, he⟩ : ∃ more, write s depth (.list xs) = openList :: more := by
        cases xs <;> exact ⟨_, by rw [write]⟩
      rw [he, List.cons_append, readValue_zero_bracket (Or.inl rfl), reread]
      rfl
    | succ n =>
      cases xs with
      | nil => rfl
      | cons x xs =>
        simp only [write, List.cons_append, List.append_assoc, List.nil_append]
        rw [readValue_list, toOption_map,
          toOption_readList_write hs rest fun y hy => ih y hy n (depth + 1), reread, Option.map_map,
          Option.map_map]
        rfl
  | object es ih =>
    intro rest hr
    cases n with
    | zero =>
      obtain ⟨more, he⟩ : ∃ more, write s depth (.object es) = openObject :: more := by
        cases es <;> exact ⟨_, by rw [write]⟩
      rw [he, List.cons_append, readValue_zero_bracket (Or.inr rfl), reread]
      rfl
    | succ n =>
      cases es with
      | nil => rfl
      | cons e es =>
        obtain ⟨key, x⟩ := e
        simp only [write, List.cons_append, List.append_assoc, List.nil_append]
        rw [readValue_object, toOption_map,
          toOption_readObject_write hs rest fun e he => ih e he n (depth + 1), reread,
          Option.map_map, Option.map_map]
        rfl

theorem rereadItems_eq_normalItems {xs : List Value} (h : ∀ x ∈ xs, reread n x = some x.normal) :
    rereadItems n xs = some (normalItems xs) := by
  induction xs with
  | nil => rw [rereadItems, normalItems]
  | cons x xs ih =>
    obtain ⟨hx, hxs⟩ := List.forall_mem_cons.mp h
    rw [rereadItems, hx, ih hxs]
    rfl

theorem rereadEntries_eq_normalEntries {es done : Entries}
    (h : ∀ e ∈ es, reread n e.2 = some e.2.normal) :
    rereadEntries n done es = some (normalEntries done es) := by
  induction es generalizing done with
  | nil => rw [rereadEntries, normalEntries]
  | cons e es ih =>
    obtain ⟨key, x⟩ := e
    obtain ⟨hx, hes⟩ := List.forall_mem_cons.mp h
    rw [rereadEntries, hx, Option.bind_some, ih hes]
    rfl

theorem reread_eq_normal (hv : Everywhere Legible v) (hn : v.nesting ≤ n) :
    reread n v = some v.normal := by
  induction v using shapeInduction generalizing n with
  | double d =>
    cases hfinite : d.isFinite with
    | true =>
      obtain ⟨b, more, he, hb, hread⟩ := hv.here d rfl hfinite
      have hb := Or.inr (a := b = minus) hb
      have halone := hread [] endsNumber_nil
      rw [List.append_nil] at halone
      rw [reread, he, readValue_scalar (isBlank_of_numberStart hb)
        (ne_of_numberStart hb (by decide) rfl) (ne_of_numberStart hb (by decide) rfl), halone,
        normal, if_pos hfinite]
      rfl
    | false =>
      simp only [reread, writeDouble, hfinite, normal, Bool.false_eq_true, ↓reduceIte]
      rfl
  | list xs ih =>
    obtain ⟨n, rfl⟩ : ∃ m, n = m + 1 := ⟨n - 1, by simp only [nesting] at hn; omega⟩
    have hxs := (everywhere_list.mp hv).2
    have hdeep := nestingItems_le_iff.mp (Nat.le_of_succ_le_succ hn)
    have hitems := rereadItems_eq_normalItems fun x hx => ih x hx (hxs x hx) (hdeep x hx)
    simp only [reread, hitems, Option.map_some, normal]
  | object es ih =>
    obtain ⟨n, rfl⟩ : ∃ m, n = m + 1 := ⟨n - 1, by simp only [nesting] at hn; omega⟩
    have hes := (everywhere_object.mp hv).2
    have hdeep := nestingEntries_le_iff.mp (Nat.le_of_succ_le_succ hn)
    have hentries : rereadEntries n [] es = some (normalEntries [] es) :=
      rereadEntries_eq_normalEntries fun e he => ih e he (hes e he) (hdeep e he)
    simp only [reread, hentries, Option.map_some, normal]
  | _ => simp [reread, normal]

theorem readValue_write (hs : s.Blank) (hv : Everywhere Legible v) (hn : v.nesting ≤ n)
    (depth : Nat) {rest : Bytes} (hr : EndsNumber rest) :
    readValue n (write s depth v ++ rest) = .ok (v.normal, rest) :=
  (toOption_readValue_write hs v n depth).readsAs (reread_eq_normal hv hn) rest hr

theorem read_of_readsAs (h : ReadsAs s deepest 0 v w) : read (write s 0 v) = .ok w := by
  have hread := h [] endsNumber_nil
  rw [List.append_nil] at hread
  have hall : readAll (write s 0 v) = .ok w := by
    simp [readAll, hread, skipBlanks, bind, Except.bind]
  rw [read, hall]
  rfl

theorem toOption_read_write (hs : s.Blank) (v : Value) :
    (read (write s 0 v)).toOption = reread deepest v := by
  have hwrite := toOption_readValue_write hs v deepest 0
  cases hw : reread deepest v with
  | none =>
    obtain ⟨e, he⟩ := hwrite.error hw endsNumber_nil
    rw [List.append_nil] at he
    rw [read, readAll, he]
    rfl
  | some w => exact toOption_eq_some_iff.mpr (read_of_readsAs (hwrite.readsAs hw))

theorem read_write (hs : s.Blank) (hv : Everywhere Legible v) (hn : v.nesting ≤ deepest) :
    read (write s 0 v) = .ok v.normal := by
  rw [← toOption_eq_some_iff, toOption_read_write hs, reread_eq_normal hv hn]

theorem read_compact {v : Value} (hv : Everywhere Legible v) (hd : Everywhere Finite v)
    (hk : Everywhere DistinctKeys v) (hn : v.nesting ≤ deepest) : read (compact v) = .ok v := by
  have h := read_write Spacing.blank_compact hv hn
  rwa [normal_eq_self hd hk] at h

theorem read_compact_plain {v : Value} (h : v.Plain deepest) : read (compact v) = .ok v :=
  read_compact (h.noDouble.imp fun _ hd => legible_of_notFinite hd.notFinite)
    (h.noDouble.imp fun _ hd => hd.finite) h.distinct h.shallow

end CrashCourier.Json
