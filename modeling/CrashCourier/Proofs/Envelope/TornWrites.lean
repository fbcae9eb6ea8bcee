import CrashCourier.Proofs.Envelope.Framing
import CrashCourier.Proofs.Json.Extension

namespace CrashCourier

theorem PlainHeaders.compact_eq {v : Value} (h : PlainHeaders v) :
    ∃ text, Json.compact v = Json.openObject :: text ∧
      Json.readValue Json.deepest (Json.openObject :: text) = .ok (v, []) := by
  obtain ⟨es, rfl⟩ := h.object
  obtain ⟨text, htext⟩ : ∃ text, Json.compact (.object es) = Json.openObject :: text := by
    cases es <;> exact ⟨_, by rw [Json.compact, Json.write]⟩
  have hlegible : (Value.object es).Everywhere Json.Legible :=
    h.plain.noDouble.imp fun _ hd => Json.legible_of_notFinite hd.notFinite
  have hread := Json.readValue_write Json.Spacing.blank_compact hlegible h.plain.shallow 0
    Json.endsNumber_nil
  rw [Value.normal_eq_self (h.plain.noDouble.imp fun _ hd => hd.finite) h.plain.distinct,
    List.append_nil] at hread
  exact ⟨text, htext, htext ▸ hread⟩

/-- Bytes cut inside a line, at its end, or after its line feed. -/
theorem Bytes.start_of_line {line rest p more : Bytes}
    (h : p ++ more = line ++ lineFeed :: rest) :
    (∃ cut, cut ≠ [] ∧ line = p ++ cut) ∨ p = line ∨
      ∃ after, p = line ++ lineFeed :: after ∧ after ++ more = rest := by
  rcases List.append_eq_append_iff.mp h with ⟨cut, hline, -⟩ | ⟨after, hp, hafter⟩
  · by_cases hcut : cut = []
    · right
      left
      rw [hline, hcut, List.append_nil]
    · exact Or.inl ⟨cut, hcut, hline⟩
  · cases after with
    | nil => exact Or.inr (Or.inl (by rw [hp, List.append_nil]))
    | cons b after =>
      obtain ⟨rfl, rfl⟩ := List.cons.inj hafter
      exact Or.inr (Or.inr ⟨after, hp, rfl⟩)

namespace Envelope

/-- The items read are the first ones of these, or reading fails. -/
def ReadsStart (items : List EnvelopeItem)
    (r : Except EnvelopeError (List EnvelopeItem)) : Prop :=
  (∃ e, r = .error e) ∨ ∃ first, r = .ok first ∧ first <+: items

/-- A header line that is cut short holds no headers. -/
theorem readHeaders_cut {v : Value} (h : PlainHeaders v) {p cut : Bytes}
    (heq : Json.compact v = p ++ cut) (hp : p ≠ []) (hcut : cut ≠ []) :
    ∃ e, readHeaders p = .error e := by
  obtain ⟨text, htext, hread⟩ := h.compact_eq
  cases p with
  | nil => exact absurd rfl hp
  | cons b p =>
    rw [htext, List.cons_append] at heq
    obtain ⟨rfl, rfl⟩ := List.cons.inj heq
    obtain ⟨e, he⟩ := Json.read_start_of_object hread hcut
    exact ⟨.json e, by rw [readHeaders, he]⟩

theorem splitLine_cut {v : Value} {p cut : Bytes} (heq : Json.compact v = p ++ cut) :
    p.splitLine = (p, []) := by
  have hfree := (Json.controlFree_compact v).lineFeed_notMem
  rw [heq, List.mem_append, not_or] at hfree
  exact Bytes.splitLine_eq_self hfree.1

/-- A payload that is cut short is refused; without its line feed it is whole. -/
theorem splitPayload_start {i : EnvelopeItem} (h : i.Measured) {p more : Bytes}
    (heq : p ++ more = i.payload ++ [lineFeed]) :
    (∃ e, splitPayload i.headers p = .error e) ∨
      splitPayload i.headers p = .ok (i.payload, []) := by
  have hsplit : splitPayload i.headers p =
      if p.length < i.payload.length then .error (.truncated i.payload.length p.length)
      else .ok (p.take i.payload.length, skipLineFeed (p.drop i.payload.length)) := by
    have hcount : (i.headers.get "length").asCount = .ofNat i.payload.length := h.length
    simp only [splitPayload_length h.notNull, hcount]
  rw [hsplit]
  by_cases hlt : p.length < i.payload.length
  · exact Or.inl ⟨_, if_pos hlt⟩
  · right
    rw [if_neg hlt]
    have htake := congrArg (List.take i.payload.length) heq
    have hdrop := congrArg (List.drop i.payload.length) heq
    rw [List.take_append_of_le_length (by omega), List.take_left] at htake
    rw [List.drop_append_of_le_length (by omega), List.drop_left] at hdrop
    rw [htake]
    cases hd : p.drop i.payload.length with
    | nil => rfl
    | cons b rest =>
      rw [hd] at hdrop
      obtain ⟨rfl, hrest⟩ := List.cons.inj hdrop
      rw [(List.append_eq_nil_iff.mp hrest).1]
      rfl

/-- One item cut anywhere: it is refused, not there at all, or there as a whole. -/
theorem itemsOf_cut_lines {i : EnvelopeItem} (h : i.Measured) {p more : Bytes}
    (heq : p ++ more = i.lines) : ReadsStart [i] (itemsOf p) := by
  have hreadable := h.headers.readable
  -- the header line is there, and the payload is cut
  have hpayload : ∀ after rest, p.splitLine = (Json.compact i.headers, after) →
      after ++ rest = i.payload ++ [lineFeed] → ReadsStart [i] (itemsOf p) := by
    intro after rest hline hafter
    have hp : p ≠ [] := by
      rintro rfl
      have hempty := compact_isEmpty hreadable
      rw [← (Prod.mk.inj hline).1] at hempty
      simp at hempty
    rw [itemsOf_eq hp, hline]
    simp only [compact_isEmpty hreadable, readHeaders_compact hreadable, Bool.false_eq_true,
      ↓reduceIte]
    rcases splitPayload_start h hafter with ⟨e, he⟩ | hok
    · rw [he]
      exact Or.inl ⟨e, rfl⟩
    · rw [hok]
      exact Or.inr ⟨[i], rfl, List.prefix_rfl⟩
  rcases Bytes.start_of_line heq with ⟨cut, hcut, hline⟩ | hline | ⟨after, hline, hafter⟩
  · by_cases hp : p = []
    · subst hp
      exact Or.inr ⟨[], rfl, List.nil_prefix⟩
    · obtain ⟨e, he⟩ := readHeaders_cut h.headers hline hp hcut
      left
      refine ⟨e, ?_⟩
      rw [itemsOf_eq hp, splitLine_cut hline]
      simp [hp, he]
  · refine hpayload [] _ ?_ (List.nil_append _)
    rw [hline]
    exact splitLine_cut (List.append_nil _).symm
  · refine hpayload after _ ?_ hafter
    rw [hline]
    exact splitLine_compact i.headers after

theorem itemsOf_cut {items : List EnvelopeItem} (h : ∀ i ∈ items, i.Measured) {p more : Bytes}
    (heq : p ++ more = items.flatMap EnvelopeItem.lines) : ReadsStart items (itemsOf p) := by
  induction items generalizing p with
  | nil =>
    obtain ⟨rfl, -⟩ := List.append_eq_nil_iff.mp heq
    exact Or.inr ⟨[], rfl, List.nil_prefix⟩
  | cons i items ih =>
    obtain ⟨hi, hitems⟩ := List.forall_mem_cons.mp h
    rw [List.flatMap_cons] at heq
    rcases List.append_eq_append_iff.mp heq with ⟨cut, hlines, -⟩ | ⟨rest, rfl, hrest⟩
    · rcases itemsOf_cut_lines hi hlines.symm with herror | ⟨first, hfirst, hprefix⟩
      · exact Or.inl herror
      · exact Or.inr ⟨first, hfirst, hprefix.trans (List.prefix_append [i] items)⟩
    · have hwell := hi.wellFormed
      rw [itemsOf_lines ⟨hwell.headers.readable, hwell.framed⟩]
      rcases ih hitems hrest.symm with ⟨e, he⟩ | ⟨first, hfirst, hprefix⟩
      · exact Or.inl ⟨e, by rw [he]; rfl⟩
      · refine Or.inr ⟨i :: first, by rw [hfirst]; rfl, ?_⟩
        exact (List.prefix_cons_inj i).mpr hprefix

/-- Whatever start of an envelope was written, reading it fails or gives the headers of the envelope
and items of it, whole and from the first on. -/
theorem ofWire_of_prefix {e : Envelope} (built : Built e) {p : Bytes} (hp : p <+: e.wire) :
    (∃ error, ofWire p = .error error) ∨
      ∃ items, ofWire p = .ok ⟨e.headers, items⟩ ∧ items <+: e.items := by
  obtain ⟨more, heq⟩ := hp
  have hreadable := built.plainHeaders.readable
  rw [← List.append_nil e.wire, wire_append, List.append_nil] at heq
  rcases Bytes.start_of_line heq with ⟨cut, hcut, hline⟩ | hline | ⟨after, hline, hafter⟩
  · left
    by_cases hp : p = []
    · subst hp
      exact ⟨.missingHeader, rfl⟩
    · obtain ⟨error, he⟩ := readHeaders_cut built.plainHeaders hline hp hcut
      refine ⟨error, ?_⟩
      rw [ofWire_eq, splitLine_cut hline]
      simp [hp, he]
  · refine Or.inr ⟨[], ?_, List.nil_prefix⟩
    rw [ofWire_eq, hline, splitLine_cut (List.append_nil _).symm, compact_isEmpty hreadable,
      readHeaders_compact hreadable]
    rfl
  · rw [hline, ofWire_compact_append hreadable]
    rcases itemsOf_cut built.measured hafter with ⟨error, he⟩ | ⟨items, hitems, hprefix⟩
    · exact Or.inl ⟨error, by rw [he]; rfl⟩
    · exact Or.inr ⟨items, by rw [hitems]; rfl, hprefix⟩

/-- The cut is between two items; the payload of the first looks like a header line. -/
theorem ofWire_of_prefix_binary :
    let e := (Envelope.empty.addItem (EnvelopeItem.ofPayload "a" [0x7b, 0x7d, lineFeed])).addItem
      (EnvelopeItem.ofPayload "b" [])
    let p := e.wire.take 31
    Built e ∧ p <+: e.wire ∧ p ≠ e.wire ∧ ((∃ error, ofWire p = .error error) ∨
      ∃ items, ofWire p = .ok ⟨e.headers, items⟩ ∧ items <+: e.items) ∧
      (ofWire p).toOption.map (fun r => r.items.length) = some 1 := by
  intro e p
  have built : Built e := (Built.empty.addItem "a" _ (by decide)).addItem "b" _ (by decide)
  have hp : p <+: e.wire := List.take_prefix _ _
  exact ⟨built, hp, by decide, ofWire_of_prefix built hp, by decide +kernel⟩

end Envelope

end CrashCourier
