import CrashCourier.Proofs.Envelope.Framing
import CrashCourier.Proofs.Json.ReadShape

namespace CrashCourier

/-- Headers as the reader gives them. -/
structure AcceptedHeaders (v : Value) : Prop where
  object : ∃ es, v = .object es
  regular : v.Regular Json.deepest

theorem AcceptedHeaders.plainHeaders {v : Value} (h : AcceptedHeaders v)
    (hd : v.Everywhere Value.NotDouble) : PlainHeaders v :=
  ⟨h.object, h.regular.plain hd⟩

/-- An item as the reader gives it. -/
structure EnvelopeItem.Accepted (i : EnvelopeItem) : Prop where
  headers : AcceptedHeaders i.headers
  framed : i.Framed

namespace Envelope

/-- No headers hold a double, at any depth. -/
structure NoDoubles (e : Envelope) : Prop where
  headers : e.headers.Everywhere Value.NotDouble
  items : ∀ i ∈ e.items, i.headers.Everywhere Value.NotDouble

structure Accepted (e : Envelope) : Prop where
  headers : AcceptedHeaders e.headers
  items : ∀ i ∈ e.items, i.Accepted

theorem Accepted.wellFormed {e : Envelope} (h : e.Accepted) (hd : e.NoDoubles) : e.WellFormed :=
  ⟨h.headers.plainHeaders hd.headers, fun i hi =>
    ⟨(h.items i hi).headers.plainHeaders (hd.items i hi), (h.items i hi).framed⟩⟩

theorem readHeaders_accepted {line : Bytes} {v : Value} (h : readHeaders line = .ok v) :
    AcceptedHeaders v := by
  unfold readHeaders at h
  split at h
  next => simp at h
  next es hread =>
    obtain rfl := Except.ok.inj h
    exact ⟨⟨es, rfl⟩, Json.read_regular hread⟩
  next => simp at h

/-- A payload ends where the headers say: after its length, or else before a line feed. -/
theorem framed_of_splitPayload {headers : Value} {bytes payload tail : Bytes}
    (h : splitPayload headers bytes = .ok (payload, tail)) :
    (⟨headers, payload⟩ : EnvelopeItem).Framed := by
  cases hnull : (headers.get "length").isNull with
  | true =>
    rw [splitPayload_line hnull] at h
    have hline : bytes.splitLine.1 = payload := congrArg Prod.fst (Except.ok.inj h)
    rw [EnvelopeItem.Framed, if_pos hnull, ← hline]
    exact Bytes.lineFeed_notMem_splitLine bytes
  | false =>
    rw [splitPayload_length hnull] at h
    rw [EnvelopeItem.Framed, if_neg (by simp [hnull])]
    split at h
    next => simp at h
    next n hlength =>
      split at h
      next => simp at h
      next hle =>
        obtain ⟨rfl, -⟩ := Prod.mk.inj (Except.ok.inj h)
        have htake : (bytes.take n).length = n := List.length_take_of_le (by omega)
        rw [htake]
        exact hlength

theorem itemsOf_accepted {bytes : Bytes} {items : List EnvelopeItem}
    (h : itemsOf bytes = .ok items) : ∀ i ∈ items, i.Accepted := by
  induction hn : bytes.length using Nat.strongRecOn generalizing bytes items with
  | ind n ih =>
    by_cases hb : bytes = []
    · subst hb
      obtain rfl := Except.ok.inj h
      simp
    · have hlt := Bytes.splitLine_length_lt hb
      rw [itemsOf_eq hb] at h
      split at h
      · exact ih _ (by omega) h rfl
      · split at h
        next => simp at h
        next headers hheaders =>
          split at h
          next => simp at h
          next payload tail hsplit =>
            have hle := splitPayload_length_le hsplit
            obtain ⟨more, hmore, rfl⟩ := Json.map_eq_ok_iff.mp h
            refine List.forall_mem_cons.mpr ⟨?_, ih _ (by omega) hmore rfl⟩
            exact ⟨readHeaders_accepted hheaders, framed_of_splitPayload hsplit⟩

theorem ofWire_accepted {bytes : Bytes} {e : Envelope} (h : ofWire bytes = .ok e) :
    e.Accepted := by
  rw [ofWire_eq] at h
  split at h
  next => simp at h
  next =>
    split at h
    next => simp at h
    next headers hheaders =>
      obtain ⟨items, hitems, rfl⟩ := Json.map_eq_ok_iff.mp h
      exact ⟨readHeaders_accepted hheaders, itemsOf_accepted hitems⟩

/-- Whatever bytes an envelope was read from, it is read again from what is written for it. -/
theorem ofWire_wire_of_ofWire {bytes : Bytes} {e : Envelope} (h : ofWire bytes = .ok e)
    (hd : e.NoDoubles) : ofWire e.wire = .ok e := by
  have hwire := ofWire_wire ((ofWire_accepted h).wellFormed hd).readable []
  simpa [itemsOf_nil, Except.map] using hwire

/-- A repeated key and blanks in the headers, an empty line, a length that is a text, one that is
null, and no line feed at the end. -/
theorem ofWire_wire_of_ofWire_loose :
    let bytes := Text.bytes
      "\x7b \"a\" : 1 , \"a\" : [\x7b\x7d] \x7d\n\n\x7b\"length\":\"x\"\x7d\n\x7b\"\\u006cength\":null\x7d\nabc"
    let e : Envelope := ⟨.object [("a", .list [.object []])],
      [⟨.object [("length", .string "x")], []⟩,
        ⟨.object [("length", .null)], [0x61, 0x62, 0x63]⟩]⟩
    ofWire bytes = .ok e ∧ e.NoDoubles ∧ e.wire ≠ bytes ∧ ofWire e.wire = .ok e := by
  intro bytes e
  have hread : ofWire bytes = .ok e := rfl
  have hd : e.NoDoubles := by
    refine ⟨by simp [e, Value.Everywhere, Value.EverywhereEntries, Value.EverywhereItems,
      Value.NotDouble], fun i hi => ?_⟩
    simp only [e, List.mem_cons, List.not_mem_nil, or_false] at hi
    rcases hi with rfl | rfl <;>
      simp [Value.Everywhere, Value.EverywhereEntries, Value.NotDouble]
  exact ⟨hread, hd, by decide, ofWire_wire_of_ofWire hread hd⟩

end Envelope

end CrashCourier
