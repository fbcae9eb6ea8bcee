import CrashCourier.Proofs.DoubleValue
import CrashCourier.Proofs.Envelope.Items
import CrashCourier.Proofs.Json.ControlFree
import CrashCourier.Proofs.Json.ReadBack

namespace CrashCourier

/-- The line is over: nothing follows, or a line feed. -/
def Bytes.EndsLine (after : Bytes) : Prop := after = [] ∨ ∃ more, after = lineFeed :: more

/-- Headers whose JSON text is read as these headers. -/
structure PlainHeaders (v : Value) : Prop where
  object : ∃ es, v = .object es
  plain : v.Plain Json.deepest

theorem plainHeaders_emptyObject : PlainHeaders Value.emptyObject :=
  ⟨⟨[], rfl⟩, Value.plain_object (n := 126) List.nodup_nil (by simp)⟩

theorem PlainHeaders.set {v x : Value} (h : PlainHeaders v) (key : String)
    (hx : x.Plain (Json.deepest - 1)) : PlainHeaders (v.set key x) :=
  ⟨Value.isObject_set h.object key x, h.plain.set key hx⟩

theorem PlainHeaders.setSome {v : Value} (h : PlainHeaders v) (key : String)
    (text : Option String) : PlainHeaders (v.setSome key text) := by
  cases text with
  | none => exact h
  | some s => exact h.set key (Value.plain_string _ s)

/-- Headers that are read back from their JSON text. -/
structure ReadableHeaders (v : Value) : Prop where
  object : ∃ es, v = .object es
  read : Json.read (Json.compact v) = .ok v

theorem PlainHeaders.readable {v : Value} (h : PlainHeaders v) : ReadableHeaders v :=
  ⟨h.object, Json.read_compact_plain h.plain⟩

namespace EnvelopeItem

/-- The headers tell where the payload ends: by its length, or by a line feed if they have no
length. -/
def Framed (i : EnvelopeItem) : Prop :=
  if (i.headers.get "length").isNull then lineFeed ∉ i.payload
  else (i.headers.get "length").asCount = i.payload.length

instance (i : EnvelopeItem) : Decidable i.Framed :=
  inferInstanceAs (Decidable (if (i.headers.get "length").isNull then lineFeed ∉ i.payload
    else (i.headers.get "length").asCount = i.payload.length))

structure WellFormed (i : EnvelopeItem) : Prop where
  headers : PlainHeaders i.headers
  framed : i.Framed

structure Readable (i : EnvelopeItem) : Prop where
  headers : ReadableHeaders i.headers
  framed : i.Framed

/-- The headers say how many bytes the payload has. -/
structure Measured (i : EnvelopeItem) : Prop where
  headers : PlainHeaders i.headers
  notNull : (i.headers.get "length").isNull = false
  length : (i.headers.get "length").asCount = i.payload.length

theorem Measured.wellFormed {i : EnvelopeItem} (h : i.Measured) : i.WellFormed := by
  refine ⟨h.headers, ?_⟩
  rw [Framed, h.notNull]
  exact h.length

/-- The lines of an item as they are read: its headers and its payload, each with a line feed. -/
def lines (i : EnvelopeItem) : Bytes :=
  Json.compact i.headers ++ lineFeed :: (i.payload ++ [lineFeed])

end EnvelopeItem

namespace Envelope

structure WellFormed (e : Envelope) : Prop where
  headers : PlainHeaders e.headers
  items : ∀ i ∈ e.items, i.WellFormed

structure Readable (e : Envelope) : Prop where
  headers : ReadableHeaders e.headers
  items : ∀ i ∈ e.items, i.Readable

theorem WellFormed.readable {e : Envelope} (h : e.WellFormed) : e.Readable :=
  ⟨h.headers.readable, fun i hi => ⟨(h.items i hi).headers.readable, (h.items i hi).framed⟩⟩

theorem readHeaders_compact {v : Value} (h : ReadableHeaders v) :
    readHeaders (Json.compact v) = .ok v := by
  obtain ⟨es, rfl⟩ := h.object
  rw [readHeaders, h.read]

theorem splitLine_compact (v : Value) (rest : Bytes) :
    (Json.compact v ++ lineFeed :: rest).splitLine = (Json.compact v, rest) :=
  Bytes.splitLine_append rest (Json.controlFree_compact v).lineFeed_notMem

theorem compact_isEmpty {v : Value} (h : ReadableHeaders v) :
    (Json.compact v).isEmpty = false := by
  cases he : Json.compact v with
  | nil =>
    have hread := h.read
    rw [he] at hread
    exact nomatch hread
  | cons b more => rfl

theorem splitPayload_line {headers : Value} {bytes : Bytes}
    (h : (headers.get "length").isNull = true) :
    splitPayload headers bytes = .ok bytes.splitLine := by
  unfold splitPayload
  split
  next => rfl
  next hnull =>
    cases hl : headers.get "length" with
    | null => exact absurd hl hnull
    | _ => simp [hl, Value.isNull] at h

theorem splitPayload_length {headers : Value} {bytes : Bytes}
    (h : (headers.get "length").isNull = false) :
    splitPayload headers bytes = match (headers.get "length").asCount with
      | .negSucc _ => .error .negativeLength
      | .ofNat n =>
        if bytes.length < n then .error (.truncated n bytes.length)
        else .ok (bytes.take n, skipLineFeed (bytes.drop n)) := by
  rw [← Value.truncate_asDouble]
  unfold splitPayload
  split
  next hnull => simp [hnull, Value.isNull] at h
  next => rfl

/-- A payload as its headers say is split off whole, with one line feed after it. -/
theorem splitPayload_append {headers : Value} {payload after : Bytes}
    (framed : (⟨headers, payload⟩ : EnvelopeItem).Framed)
    (ends : (headers.get "length").isNull = true → after.EndsLine) :
    splitPayload headers (payload ++ after) = .ok (payload, skipLineFeed after) := by
  unfold EnvelopeItem.Framed at framed
  cases hnull : (headers.get "length").isNull with
  | true =>
    rw [if_pos hnull] at framed
    rw [splitPayload_line hnull]
    rcases ends hnull with rfl | ⟨more, rfl⟩
    · rw [List.append_nil, Bytes.splitLine_eq_self framed]
      rfl
    · rw [Bytes.splitLine_append more framed]
      rfl
  | false =>
    rw [if_neg (by simp [hnull])] at framed
    have hcount : (headers.get "length").asCount = .ofNat payload.length := framed
    have hlength : ¬ (payload ++ after).length < payload.length := by
      rw [List.length_append]
      omega
    simp only [splitPayload_length hnull, hcount, if_neg hlength, List.take_left, List.drop_left]

theorem splitPayload_of_framed {i : EnvelopeItem} (h : i.Framed) (rest : Bytes) :
    splitPayload i.headers (i.payload ++ lineFeed :: rest) = .ok (i.payload, rest) :=
  splitPayload_append h fun _ => Or.inr ⟨rest, rfl⟩

theorem itemsOf_lines {i : EnvelopeItem} (h : i.Readable) (rest : Bytes) :
    itemsOf (i.lines ++ rest) = (itemsOf rest).map (i :: ·) := by
  have heq : i.lines ++ rest =
      Json.compact i.headers ++ lineFeed :: (i.payload ++ lineFeed :: rest) := by
    simp [EnvelopeItem.lines]
  have hne : i.lines ++ rest ≠ [] := by
    rw [heq]
    simp
  rw [itemsOf_eq hne, heq, splitLine_compact]
  simp only [compact_isEmpty h.headers, readHeaders_compact h.headers,
    splitPayload_of_framed h.framed, Bool.false_eq_true, ↓reduceIte]

theorem itemsOf_flatMap_lines {items : List EnvelopeItem} (h : ∀ i ∈ items, i.Readable)
    (rest : Bytes) :
    itemsOf (items.flatMap EnvelopeItem.lines ++ rest) = (itemsOf rest).map (items ++ ·) := by
  induction items with
  | nil => cases he : itemsOf rest <;> simp [he, Except.map]
  | cons i items ih =>
    obtain ⟨hi, hitems⟩ := List.forall_mem_cons.mp h
    rw [List.flatMap_cons, List.append_assoc, itemsOf_lines hi, ih hitems]
    cases itemsOf rest <;> simp [Except.map]

/-- The line feeds between the items may be counted to the item before. -/
theorem flatMap_wire (items : List EnvelopeItem) (rest : Bytes) :
    items.flatMap EnvelopeItem.wire ++ lineFeed :: rest =
      lineFeed :: (items.flatMap EnvelopeItem.lines ++ rest) := by
  induction items with
  | nil => rfl
  | cons i items ih =>
    rw [List.flatMap_cons, List.append_assoc, ih]
    simp [EnvelopeItem.wire, EnvelopeItem.lines]

theorem wire_append (e : Envelope) (rest : Bytes) :
    e.wire ++ rest = Json.compact e.headers ++ lineFeed ::
      (e.items.flatMap EnvelopeItem.lines ++ rest) := by
  rw [← flatMap_wire]
  simp [wire]

/-- Headers that are read back, followed by any lines. -/
theorem ofWire_compact_append {v : Value} (h : ReadableHeaders v) (rest : Bytes) :
    ofWire (Json.compact v ++ lineFeed :: rest) = (itemsOf rest).map (⟨v, ·⟩) := by
  rw [ofWire_eq, splitLine_compact, compact_isEmpty h, readHeaders_compact h]
  rfl

theorem ofWire_wire {e : Envelope} (h : e.Readable) (rest : Bytes) :
    ofWire (e.wire ++ rest) = (itemsOf rest).map fun items => ⟨e.headers, e.items ++ items⟩ := by
  rw [wire_append, ofWire_compact_append h.headers, itemsOf_flatMap_lines h.items]
  cases itemsOf rest <;> rfl

/-- An envelope made empty or of an event, to which items with payloads of less than `2 ^ 31` bytes
were added. The identifier that the event has is plain, so that the headers are. -/
inductive Built : Envelope → Prop
  | empty : Built Envelope.empty
  | ofEvent (event : Value) (dsn : Option String) (moment : String)
      (id : (event.get "event_id").Plain (Json.deepest - 1))
      (short : (Json.compact event).length < Json.intLimit) :
      Built (Envelope.ofEvent event dsn moment)
  | addItem {e : Envelope} (built : Built e) (type : String) (payload : Bytes)
      (short : payload.length < Json.intLimit) :
      Built (e.addItem (EnvelopeItem.ofPayload type payload))

theorem plainHeaders_ofEvent {event : Value} (dsn : Option String) (moment : String)
    (id : (event.get "event_id").Plain (Json.deepest - 1)) :
    PlainHeaders (ofEvent event dsn moment).headers := by
  have hnamed : PlainHeaders (if (event.get "event_id").isNull then Value.emptyObject
      else Value.emptyObject.set "event_id" (event.get "event_id")) := by
    split
    · exact plainHeaders_emptyObject
    · exact plainHeaders_emptyObject.set _ id
  exact (hnamed.setSome "dsn" dsn).set "sent_at" (Value.plain_string _ moment)

theorem headers_ofPayload (type : String) (payload : Bytes) :
    (EnvelopeItem.ofPayload type payload).headers =
      .object [("type", .string type), ("length", EnvelopeItem.lengthValue payload.length)] := by
  simp [EnvelopeItem.ofPayload, Value.emptyObject, Value.set_object, Entries.insert]

theorem lengthValue_of_lt {n : Nat} (h : n < Json.intLimit) :
    EnvelopeItem.lengthValue n = .int (Int32.ofInt n) := by
  rw [EnvelopeItem.lengthValue, if_pos h]

theorem asCount_lengthValue {n : Nat} (h : n < Json.intLimit) :
    (EnvelopeItem.lengthValue n).asCount = n := by
  have hlt : n < 2 ^ 31 := h
  rw [lengthValue_of_lt h, Value.asCount, Int32.toInt_ofInt_of_le (by omega) (by omega)]

theorem measured_ofPayload (type : String) {payload : Bytes}
    (h : payload.length < Json.intLimit) : (EnvelopeItem.ofPayload type payload).Measured := by
  have hget : (EnvelopeItem.ofPayload type payload).headers.get "length" =
      EnvelopeItem.lengthValue payload.length := by
    rw [headers_ofPayload]
    simp [Value.get_object, Entries.lookup]
  refine ⟨?_, ?_, ?_⟩
  · refine (plainHeaders_emptyObject.set "type" (Value.plain_string _ type)).set "length" ?_
    rw [lengthValue_of_lt h]
    exact Value.plain_int _ _
  · rw [hget, lengthValue_of_lt h]
    rfl
  · rw [hget, asCount_lengthValue h]
    rfl

theorem wellFormed_ofPayload (type : String) {payload : Bytes}
    (h : payload.length < Json.intLimit) : (EnvelopeItem.ofPayload type payload).WellFormed :=
  (measured_ofPayload type h).wellFormed

theorem Built.plainHeaders {e : Envelope} (h : Built e) : PlainHeaders e.headers := by
  induction h with
  | empty => exact plainHeaders_emptyObject
  | ofEvent event dsn moment id short => exact plainHeaders_ofEvent dsn moment id
  | addItem built type payload short ih => exact ih

theorem Built.measured {e : Envelope} (h : Built e) : ∀ i ∈ e.items, i.Measured := by
  induction h with
  | empty => simp [Envelope.empty]
  | ofEvent event dsn moment id short =>
    intro i hi
    obtain rfl := List.mem_singleton.mp hi
    exact measured_ofPayload "event" short
  | addItem built type payload short ih =>
    intro i hi
    rcases List.mem_append.mp hi with hi | hi
    · exact ih i hi
    · obtain rfl := List.mem_singleton.mp hi
      exact measured_ofPayload type short

theorem Built.wellFormed {e : Envelope} (h : Built e) : e.WellFormed :=
  ⟨h.plainHeaders, fun i hi => (h.measured i hi).wellFormed⟩

/-- What is built is well-formed; a well-formed envelope and any bytes after it are read as the
envelope and what these bytes are read as after empty headers; without bytes after it the envelope
is read as it was. -/
theorem ofWire_wire_append :
    (∀ e, Built e → e.WellFormed) ∧
    (∀ e : Envelope, e.WellFormed → ∀ rest,
      ofWire (e.wire ++ rest) =
        (ofWire (Json.openObject :: Json.closeObject :: lineFeed :: rest)).map fun r =>
          ⟨e.headers, e.items ++ r.items⟩) ∧
    ∀ e : Envelope, e.WellFormed → ofWire e.wire = .ok e := by
  refine ⟨fun e h => h.wellFormed, fun e h rest => ?_, fun e h => ?_⟩
  · have hempty := ofWire_compact_append plainHeaders_emptyObject.readable rest
    have hcompact : Json.compact Value.emptyObject = [Json.openObject, Json.closeObject] := rfl
    rw [hcompact, List.cons_append, List.singleton_append] at hempty
    rw [ofWire_wire h.readable, hempty]
    cases itemsOf rest <;> rfl
  · have hwire := ofWire_wire h.readable []
    simpa [itemsOf_nil, Except.map] using hwire

/-- An item that ends with its line, one that holds line feeds, and empty lines after them. -/
theorem ofWire_wire_append_binary :
    let note : EnvelopeItem := ⟨Value.emptyObject.set "type" (.string "note"), [0x61]⟩
    let binary := EnvelopeItem.ofPayload "binary" [lineFeed, 0x7b, lineFeed]
    let e : Envelope := ⟨Value.emptyObject, [note, binary]⟩
    e.WellFormed ∧ ofWire (e.wire ++ [lineFeed, lineFeed]) = .ok e := by
  intro note binary e
  have hnote : note.WellFormed :=
    ⟨plainHeaders_emptyObject.set _ (Value.plain_string _ _), by decide⟩
  have he : e.WellFormed := by
    refine ⟨plainHeaders_emptyObject, fun i hi => ?_⟩
    rcases List.mem_cons.mp hi with rfl | hi
    · exact hnote
    · obtain rfl := List.mem_singleton.mp hi
      exact wellFormed_ofPayload _ (by decide)
  refine ⟨he, ?_⟩
  rw [ofWire_wire_append.2.1 e he]
  rfl

end Envelope

end CrashCourier
