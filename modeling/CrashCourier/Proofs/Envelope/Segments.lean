import CrashCourier.Proofs.Envelope.Reencoding

namespace CrashCourier

/-- Some bytes begin with a line, and these come after it and its line feed. -/
structure Bytes.Begins (bytes line after : Bytes) : Prop where
  oneLine : lineFeed ∉ line
  whole : bytes = line ++ lineFeed :: after ∨ bytes = line ∧ after = []

theorem Bytes.begins_splitLine (bytes : Bytes) :
    bytes.Begins bytes.splitLine.1 bytes.splitLine.2 := by
  refine ⟨lineFeed_notMem_splitLine bytes, ?_⟩
  induction bytes with
  | nil => exact Or.inr ⟨rfl, rfl⟩
  | cons b rest ih =>
    unfold splitLine
    split
    · next h => exact Or.inl (by rw [h, List.nil_append])
    · rcases ih with h | ⟨h, hafter⟩
      · exact Or.inl (congrArg (b :: ·) h)
      · exact Or.inr ⟨congrArg (b :: ·) h, hafter⟩

theorem Bytes.Begins.splitLine {bytes line after : Bytes} (h : bytes.Begins line after) :
    bytes.splitLine = (line, after) := by
  rcases h.whole with rfl | ⟨rfl, rfl⟩
  · exact splitLine_append after h.oneLine
  · exact splitLine_eq_self h.oneLine

theorem Bytes.Begins.ne_nil {bytes line after : Bytes} (h : bytes.Begins line after)
    (notEmpty : line ≠ []) : bytes ≠ [] := by
  rintro rfl
  exact notEmpty (congrArg Prod.fst h.splitLine).symm

namespace Envelope

/-- Headers and the line that holds them. -/
structure HeaderLine (line : Bytes) (headers : Value) : Prop where
  notEmpty : line ≠ []
  oneLine : lineFeed ∉ line
  read : Json.read line = .ok headers
  object : ∃ es, headers = .object es

/-- Why a line does not hold headers. -/
inductive NoHeaders (line : Bytes) : EnvelopeError → Prop
  | json {e : Json.Error} (read : Json.read line = .error e) : NoHeaders line (.json e)
  | notObject {v : Value} (read : Json.read line = .ok v) (other : ∀ es, v ≠ .object es) :
      NoHeaders line .headerNotObject

inductive Segment where
  /-- A line feed that is no part of a line or a payload. -/
  | separator
  | headers (line : Bytes)
  | payload (bytes : Bytes)

def Segment.bytes : Segment → Bytes
  | separator => [lineFeed]
  | headers line => line
  | payload bytes => bytes

def joined (segs : List Segment) : Bytes := segs.flatMap Segment.bytes

/-- Segments that hold some items, with other bytes behind them. A payload is framed as its
headers say. It comes after the header line and a line feed, unless the bytes end with that line;
where the headers have no length, it ends its line. All else are line feeds. -/
inductive Laid (rest : Bytes) : List Segment → List EnvelopeItem → Prop
  | done : Laid rest [] []
  | blank {segs : List Segment} {items : List EnvelopeItem} (more : Laid rest segs items) :
      Laid rest (.separator :: segs) items
  | last {line : Bytes} {headers : Value} (header : HeaderLine line headers)
      (framed : (⟨headers, []⟩ : EnvelopeItem).Framed) (atEnd : rest = []) :
      Laid rest [.headers line, .payload []] [⟨headers, []⟩]
  | item {line payload : Bytes} {headers : Value} {segs : List Segment}
      {items : List EnvelopeItem} (header : HeaderLine line headers)
      (framed : (⟨headers, payload⟩ : EnvelopeItem).Framed)
      (ends : (headers.get "length").isNull = true → (joined segs ++ rest).EndsLine)
      (more : Laid rest segs items) :
      Laid rest (.headers line :: .separator :: .payload payload :: segs)
        (⟨headers, payload⟩ :: items)

/-- Segments that hold an envelope: its header line, a line feed, and its items. -/
inductive Accounts (rest : Bytes) : List Segment → Envelope → Prop
  | bare {line : Bytes} {headers : Value} (header : HeaderLine line headers) (atEnd : rest = []) :
      Accounts rest [.headers line] ⟨headers, []⟩
  | items {line : Bytes} {headers : Value} {segs : List Segment} {items : List EnvelopeItem}
      (header : HeaderLine line headers) (laid : Laid rest segs items) :
      Accounts rest (.headers line :: .separator :: segs) ⟨headers, items⟩

/-- Why no item can be read where some bytes begin. A length that is not null must not come out
negative, nor larger than what is left. -/
inductive Faulty (bytes : Bytes) : EnvelopeError → Prop
  | headers {line after : Bytes} {e : EnvelopeError} (begins : bytes.Begins line after)
      (notEmpty : line ≠ []) (fault : NoHeaders line e) : Faulty bytes e
  | negative {line after : Bytes} {headers : Value} (begins : bytes.Begins line after)
      (header : HeaderLine line headers) (length : (headers.get "length").isNull = false)
      (fault : (headers.get "length").asCount < 0) : Faulty bytes .negativeLength
  | truncated {line after : Bytes} {headers : Value} {n : Nat} (begins : bytes.Begins line after)
      (header : HeaderLine line headers) (length : (headers.get "length").isNull = false)
      (count : (headers.get "length").asCount = n) (fault : after.length < n) :
      Faulty bytes (.truncated n after.length)

/-- Why no envelope can be read from some bytes. -/
inductive Refused (bytes : Bytes) : EnvelopeError → Prop
  | missing (fault : bytes.EndsLine) : Refused bytes .missingHeader
  | headers {line after : Bytes} {e : EnvelopeError} (begins : bytes.Begins line after)
      (notEmpty : line ≠ []) (fault : NoHeaders line e) : Refused bytes e
  | item {segs : List Segment} {rest : Bytes} {e : Envelope} {error : EnvelopeError}
      (whole : joined segs ++ rest = bytes) (read : Accounts rest segs e)
      (fault : Faulty rest error) : Refused bytes error

variable {bytes line after payload tail rest : Bytes} {headers : Value} {e : EnvelopeError}
  {segs : List Segment} {items : List EnvelopeItem}

theorem HeaderLine.readHeaders (h : HeaderLine line headers) :
    readHeaders line = .ok headers := by
  obtain ⟨es, rfl⟩ := h.object
  rw [Envelope.readHeaders, h.read]

theorem HeaderLine.isEmpty (h : HeaderLine line headers) : line.isEmpty = false := by
  rw [List.isEmpty_eq_false_iff]
  exact h.notEmpty

theorem NoHeaders.readHeaders (h : NoHeaders line e) : readHeaders line = .error e := by
  cases h with
  | json read => rw [Envelope.readHeaders, read]
  | @notObject v read other =>
    rw [Envelope.readHeaders, read]
    cases v with
    | object es => exact absurd rfl (other es)
    | _ => rfl

/-- A line holds headers, or there is a reason why it does not. -/
theorem headerLine_or_noHeaders (notEmpty : line ≠ []) (oneLine : lineFeed ∉ line) :
    (∃ headers, HeaderLine line headers) ∨ ∃ e, NoHeaders line e := by
  cases hread : Json.read line with
  | error e => exact Or.inr ⟨_, .json hread⟩
  | ok v =>
    by_cases hobject : ∃ es, v = .object es
    · exact Or.inl ⟨v, notEmpty, oneLine, hread, hobject⟩
    · exact Or.inr ⟨_, .notObject hread fun es h => hobject ⟨es, h⟩⟩

/-- What is split off stands at the beginning, and its line is over if its headers have no
length. -/
theorem exists_of_splitPayload (h : splitPayload headers bytes = .ok (payload, tail)) :
    ∃ after, bytes = payload ++ after ∧ tail = skipLineFeed after ∧
      ((headers.get "length").isNull = true → after.EndsLine) := by
  cases hnull : (headers.get "length").isNull with
  | true =>
    have hbegins := Bytes.begins_splitLine bytes
    rw [Except.ok.inj ((splitPayload_line hnull).symm.trans h)] at hbegins
    rcases hbegins.whole with hwhole | ⟨hwhole, htail⟩
    · exact ⟨lineFeed :: tail, hwhole, rfl, fun _ => Or.inr ⟨tail, rfl⟩⟩
    · exact ⟨[], by rw [hwhole, List.append_nil], htail, fun _ => Or.inl rfl⟩
  | false =>
    rw [splitPayload_length hnull] at h
    split at h
    next => simp at h
    next n _ =>
      split at h
      next => simp at h
      next =>
        obtain ⟨rfl, rfl⟩ := Prod.mk.inj (Except.ok.inj h)
        exact ⟨bytes.drop n, (List.take_append_drop n bytes).symm, rfl, nofun⟩

theorem faulty_of_splitPayload (begins : bytes.Begins line after)
    (header : HeaderLine line headers) (h : splitPayload headers after = .error e) :
    Faulty bytes e := by
  cases hnull : (headers.get "length").isNull with
  | true => simp [splitPayload_line hnull] at h
  | false =>
    rw [splitPayload_length hnull] at h
    split at h
    next n hlength =>
      obtain rfl := Except.error.inj h
      exact .negative begins header hnull (hlength ▸ Int.negSucc_lt_zero n)
    next n hlength =>
      split at h
      next hshort =>
        obtain rfl := Except.error.inj h
        exact .truncated begins header hnull hlength hshort
      next => simp at h

theorem itemsOf_lineFeed (bytes : Bytes) : itemsOf (lineFeed :: bytes) = itemsOf bytes := by
  rw [itemsOf_eq (List.cons_ne_nil _ _)]
  rfl

theorem itemsOf_skipLineFeed (bytes : Bytes) : itemsOf (skipLineFeed bytes) = itemsOf bytes := by
  cases bytes with
  | nil => rfl
  | cons b rest =>
    by_cases hb : b = lineFeed
    · rw [hb, itemsOf_lineFeed, skipLineFeed, if_pos rfl]
    · rw [skipLineFeed, if_neg hb]

theorem itemsOf_of_begins (begins : bytes.Begins line (payload ++ after))
    (header : HeaderLine line headers) (framed : (⟨headers, payload⟩ : EnvelopeItem).Framed)
    (ends : (headers.get "length").isNull = true → after.EndsLine) :
    itemsOf bytes = (itemsOf after).map (⟨headers, payload⟩ :: ·) := by
  rw [itemsOf_eq (begins.ne_nil header.notEmpty), begins.splitLine]
  simp only [header.isEmpty, header.readHeaders, splitPayload_append framed ends,
    itemsOf_skipLineFeed, Bool.false_eq_true, ↓reduceIte]

theorem Laid.itemsOf (h : Laid rest segs items) :
    itemsOf (joined segs ++ rest) = (itemsOf rest).map (items ++ ·) := by
  induction h with
  | done => cases he : Envelope.itemsOf rest <;> simp [joined, he, Except.map]
  | @blank segs items more ih => exact (itemsOf_lineFeed _).trans ih
  | @last line headers header framed atEnd =>
    subst atEnd
    have hjoined : joined [.headers line, .payload []] ++ [] = line := by
      simp [joined, Segment.bytes]
    have hbegins : line.Begins line ([] ++ []) := ⟨header.oneLine, Or.inr ⟨rfl, rfl⟩⟩
    rw [hjoined, itemsOf_of_begins hbegins header framed fun _ => Or.inl rfl]
    rfl
  | @item line payload headers segs items header framed ends more ih =>
    have hjoined : joined (.headers line :: .separator :: .payload payload :: segs) ++ rest =
        line ++ lineFeed :: (payload ++ (joined segs ++ rest)) := by
      simp [joined, Segment.bytes]
    have hbegins : (line ++ lineFeed :: (payload ++ (joined segs ++ rest))).Begins line
        (payload ++ (joined segs ++ rest)) := ⟨header.oneLine, Or.inl rfl⟩
    rw [hjoined, itemsOf_of_begins hbegins header framed ends, ih]
    cases Envelope.itemsOf rest <;> rfl

theorem Faulty.itemsOf (h : Faulty bytes e) : itemsOf bytes = .error e := by
  cases h with
  | @headers line after e begins notEmpty fault =>
    have hempty : line.isEmpty = false := List.isEmpty_eq_false_iff.mpr notEmpty
    rw [itemsOf_eq (begins.ne_nil notEmpty), begins.splitLine]
    simp only [hempty, fault.readHeaders, Bool.false_eq_true, ↓reduceIte]
  | @negative line after headers begins header length fault =>
    obtain ⟨n, hn⟩ := Int.eq_negSucc_of_lt_zero fault
    rw [itemsOf_eq (begins.ne_nil header.notEmpty), begins.splitLine]
    simp only [header.isEmpty, header.readHeaders, splitPayload_length length, hn,
      Bool.false_eq_true, ↓reduceIte]
  | @truncated line after headers n begins header length count fault =>
    have hcount : (headers.get "length").asCount = .ofNat n := count
    rw [itemsOf_eq (begins.ne_nil header.notEmpty), begins.splitLine]
    simp only [header.isEmpty, header.readHeaders, splitPayload_length length, hcount,
      if_pos fault, Bool.false_eq_true, ↓reduceIte]

/-- Every turn of the reader accounts for a line feed, or for an item and what is around it. -/
theorem exists_laid (bytes : Bytes) : ∃ segs items rest, joined segs ++ rest = bytes ∧
    Laid rest segs items ∧ (rest = [] ∨ ∃ e, Faulty rest e) := by
  induction hn : bytes.length using Nat.strongRecOn generalizing bytes with
  | ind n ih =>
    subst hn
    by_cases hb : bytes = []
    · exact ⟨[], [], [], hb.symm, .done, Or.inl rfl⟩
    have hfault : ∀ {e}, Faulty bytes e → ∃ segs items rest, joined segs ++ rest = bytes ∧
        Laid rest segs items ∧ (rest = [] ∨ ∃ e, Faulty rest e) := fun h =>
      ⟨[], [], bytes, rfl, .done, Or.inr ⟨_, h⟩⟩
    have hbegins := Bytes.begins_splitLine bytes
    have hlt := Bytes.splitLine_length_lt hb
    generalize bytes.splitLine.1 = line at hbegins
    generalize bytes.splitLine.2 = after at hbegins hlt
    by_cases hline : line = []
    · subst hline
      rcases hbegins.whole with hwhole | ⟨hwhole, -⟩
      · obtain ⟨segs, items, rest, hjoined, hlaid, hend⟩ := ih after.length hlt after rfl
        refine ⟨.separator :: segs, items, rest, ?_, .blank hlaid, hend⟩
        rw [hwhole, ← hjoined]
        rfl
      · exact absurd hwhole hb
    rcases headerLine_or_noHeaders hline hbegins.oneLine with ⟨headers, header⟩ | ⟨e, he⟩
    · cases hsplit : splitPayload headers after with
      | error e => exact hfault (faulty_of_splitPayload hbegins header hsplit)
      | ok r =>
        obtain ⟨payload, tail⟩ := r
        have hframed := framed_of_splitPayload hsplit
        obtain ⟨next, hnext, htail, hends⟩ := exists_of_splitPayload hsplit
        rcases hbegins.whole with hwhole | ⟨hwhole, hafter⟩
        · have hshorter : next.length < bytes.length := by
            rw [hwhole, hnext]
            simp only [List.length_append, List.length_cons]
            omega
          obtain ⟨segs, items, rest, hjoined, hlaid, hend⟩ := ih next.length hshorter next rfl
          refine ⟨.headers line :: .separator :: .payload payload :: segs, _, rest, ?_,
            .item header hframed (fun hnull => hjoined ▸ hends hnull) hlaid, hend⟩
          rw [hwhole, hnext, ← hjoined]
          simp [joined, Segment.bytes]
        · obtain ⟨rfl, -⟩ := List.append_eq_nil_iff.mp (hnext.symm.trans hafter)
          refine ⟨[.headers line, .payload []], _, [], ?_, .last header hframed rfl, Or.inl rfl⟩
          simp [joined, Segment.bytes, hwhole]
    · exact hfault (.headers hbegins hline he)

theorem Accounts.ofWire {e : Envelope} (h : Accounts rest segs e) :
    ofWire (joined segs ++ rest) =
      (itemsOf rest).map fun items => ⟨e.headers, e.items ++ items⟩ := by
  cases h with
  | @bare line headers header atEnd =>
    subst atEnd
    have hjoined : joined [.headers line] ++ [] = line := by simp [joined, Segment.bytes]
    rw [hjoined, ofWire_eq, Bytes.splitLine_eq_self header.oneLine]
    simp only [header.isEmpty, header.readHeaders, Bool.false_eq_true, ↓reduceIte]
    rfl
  | @items line headers segs items header laid =>
    have hjoined : joined (.headers line :: .separator :: segs) ++ rest =
        line ++ lineFeed :: (joined segs ++ rest) := by simp [joined, Segment.bytes]
    rw [hjoined, ofWire_eq, Bytes.splitLine_append _ header.oneLine]
    simp only [header.isEmpty, header.readHeaders, laid.itemsOf, Bool.false_eq_true, ↓reduceIte]
    cases itemsOf rest <;> rfl

theorem Refused.ofWire (h : Refused bytes e) : ofWire bytes = .error e := by
  cases h with
  | missing fault =>
    rcases fault with rfl | ⟨more, rfl⟩
    · rfl
    · rw [ofWire_eq]
      rfl
  | @headers line after e begins notEmpty fault =>
    have hempty : line.isEmpty = false := List.isEmpty_eq_false_iff.mpr notEmpty
    rw [ofWire_eq, begins.splitLine]
    simp only [hempty, fault.readHeaders, Bool.false_eq_true, ↓reduceIte]
  | item whole read fault =>
    rw [← whole, read.ofWire, fault.itemsOf]
    rfl

theorem exists_accounts_or_refused (bytes : Bytes) :
    (∃ segs e, joined segs = bytes ∧ Accounts [] segs e) ∨ ∃ e, Refused bytes e := by
  have hbegins := Bytes.begins_splitLine bytes
  generalize bytes.splitLine.1 = line at hbegins
  generalize bytes.splitLine.2 = after at hbegins
  by_cases hline : line = []
  · subst hline
    refine Or.inr ⟨_, .missing ?_⟩
    rcases hbegins.whole with hwhole | ⟨hwhole, -⟩
    · exact Or.inr ⟨after, hwhole⟩
    · exact Or.inl hwhole
  rcases headerLine_or_noHeaders hline hbegins.oneLine with ⟨headers, header⟩ | ⟨e, he⟩
  · rcases hbegins.whole with hwhole | ⟨hwhole, -⟩
    · obtain ⟨segs, items, rest, hjoined, hlaid, hend⟩ := exists_laid after
      have hbytes : joined (.headers line :: .separator :: segs) ++ rest = bytes := by
        rw [hwhole, ← hjoined]
        simp [joined, Segment.bytes]
      rcases hend with rfl | ⟨error, hfault⟩
      · exact Or.inl ⟨_, _, by simpa using hbytes, .items header hlaid⟩
      · exact Or.inr ⟨error, .item hbytes (.items header hlaid) hfault⟩
    · exact Or.inl ⟨_, _, by simp [joined, Segment.bytes, hwhole], .bare header rfl⟩
  · exact Or.inr ⟨e, .headers hbegins hline he⟩

/-- An envelope is read from some bytes exactly if it accounts for all of them, and nothing is read
exactly if there is a fault, which is the error. -/
theorem ofWire_accounts (bytes : Bytes) :
    (∀ e, ofWire bytes = .ok e ↔ ∃ segs, joined segs = bytes ∧ Accounts [] segs e) ∧
      ∀ error, ofWire bytes = .error error ↔ Refused bytes error := by
  have hread : ∀ {segs e}, joined segs = bytes → Accounts [] segs e → ofWire bytes = .ok e := by
    intro segs e hjoined haccounts
    have hwhole := haccounts.ofWire
    rw [List.append_nil, hjoined, itemsOf_nil] at hwhole
    simpa [Except.map] using hwhole
  rcases exists_accounts_or_refused bytes with ⟨segs, e, hjoined, haccounts⟩ | ⟨error, hrefused⟩
  · have hok := hread hjoined haccounts
    refine ⟨fun f => ⟨fun hf => ?_, fun ⟨segs, hsegs, hf⟩ => hread hsegs hf⟩, fun error =>
      ⟨fun herror => ?_, Refused.ofWire⟩⟩
    · obtain rfl := Except.ok.inj (hok.symm.trans hf)
      exact ⟨segs, hjoined, haccounts⟩
    · simp [hok] at herror
  · have herror := hrefused.ofWire
    refine ⟨fun f => ⟨fun hf => ?_, fun ⟨segs, hsegs, hf⟩ => hread hsegs hf⟩, fun other =>
      ⟨fun hother => ?_, Refused.ofWire⟩⟩
    · simp [herror] at hf
    · obtain rfl := Except.error.inj (herror.symm.trans hother)
      exact hrefused

end Envelope

end CrashCourier
