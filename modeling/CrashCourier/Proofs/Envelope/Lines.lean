import CrashCourier.Envelope
import CrashCourier.Proofs.Json.ControlFree

namespace CrashCourier

namespace Bytes

def ofLines (lines : List Bytes) : Bytes := lines.flatMap (· ++ [lineFeed])

variable {lines : List Bytes}

theorem ofLines_cons (line : Bytes) (lines : List Bytes) :
    ofLines (line :: lines) = line ++ lineFeed :: ofLines lines := by
  simp [ofLines]

/-- Lines without line feeds of their own are told apart again. -/
theorem splitOn_ofLines (h : ∀ line ∈ lines, lineFeed ∉ line) :
    (ofLines lines).splitOn lineFeed = lines ++ [[]] := by
  induction lines with
  | nil => rfl
  | cons line lines ih =>
    obtain ⟨hline, hlines⟩ := List.forall_mem_cons.mp h
    rw [ofLines_cons, List.splitOn_append_cons_self, List.splitOn_eq_singleton hline, ih hlines]
    rfl

theorem count_ofLines (h : ∀ line ∈ lines, lineFeed ∉ line) :
    (ofLines lines).count lineFeed = lines.length := by
  induction lines with
  | nil => rfl
  | cons line lines ih =>
    obtain ⟨hline, hlines⟩ := List.forall_mem_cons.mp h
    have hnone : line.count lineFeed = 0 := List.count_eq_zero.mpr hline
    rw [ofLines_cons, List.count_append, List.count_cons_self, ih hlines, hnone, Nat.zero_add,
      List.length_cons]

theorem getLast?_ofLines (h : lines ≠ []) : (ofLines lines).getLast? = some lineFeed := by
  have hlast := List.dropLast_concat_getLast h
  rw [← hlast, ofLines, List.flatMap_append, List.flatMap_singleton, ← List.append_assoc,
    List.getLast?_concat]

theorem eq_lineFeed_of_mem_ofLines (h : ∀ line ∈ lines, ControlFree line) {b : UInt8}
    (hb : b ∈ ofLines lines) (hcontrol : b < 0x20) : b = lineFeed := by
  obtain ⟨line, hline, hmem⟩ := List.mem_flatMap.mp hb
  rcases List.mem_append.mp hmem with hmem | hmem
  · exact absurd hcontrol (UInt8.not_lt.mpr (h line hline b hmem))
  · exact List.mem_singleton.mp hmem

end Bytes

namespace Envelope

/-- The lines of an envelope whose payloads are lines. -/
def lines (e : Envelope) : List Bytes :=
  Json.compact e.headers :: e.items.flatMap fun i => [Json.compact i.headers, i.payload]

theorem wire_eq_ofLines (e : Envelope) : e.wire = Bytes.ofLines e.lines := by
  obtain ⟨headers, items⟩ := e
  have hitems : ∀ line : Bytes, line ++ items.flatMap EnvelopeItem.wire ++ [lineFeed] =
      Bytes.ofLines (line :: items.flatMap fun i => [Json.compact i.headers, i.payload]) := by
    induction items with
    | nil =>
      intro line
      simp [Bytes.ofLines]
    | cons i items ih =>
      intro line
      have hnext := ih i.payload
      rw [List.flatMap_cons, List.flatMap_cons, List.cons_append, List.singleton_append,
        Bytes.ofLines_cons, Bytes.ofLines_cons, ← hnext]
      simp [EnvelopeItem.wire]
  exact hitems (Json.compact headers)

/-- The text of any value is a line. The envelope of an event is three of these, whatever the event
is and wherever it goes. -/
theorem wire_ofEvent_lines (event : Value) (dsn : Option String) (moment : String) :
    (∀ v, (Json.compact v).ControlFree) ∧
    ∃ item, (ofEvent event dsn moment).items = [item] ∧ item.payload = Json.compact event ∧
      (ofEvent event dsn moment).wire.splitOn lineFeed =
        [Json.compact (ofEvent event dsn moment).headers, Json.compact item.headers,
          Json.compact event, []] ∧
      (ofEvent event dsn moment).wire.count lineFeed = 3 ∧
      (ofEvent event dsn moment).wire.getLast? = some lineFeed ∧
      ∀ b ∈ (ofEvent event dsn moment).wire, b < 0x20 → b = lineFeed := by
  have hlines : ∀ line ∈ (ofEvent event dsn moment).lines, line.ControlFree := by
    intro line hline
    simp only [lines, ofEvent, List.flatMap_singleton, List.mem_cons, List.not_mem_nil,
      or_false] at hline
    rcases hline with rfl | rfl | rfl
    · exact Json.controlFree_compact _
    · exact Json.controlFree_compact _
    · exact Json.controlFree_compact event
  have hfeeds : ∀ line ∈ (ofEvent event dsn moment).lines, lineFeed ∉ line :=
    fun line hline => (hlines line hline).lineFeed_notMem
  refine ⟨Json.controlFree_compact, EnvelopeItem.ofPayload "event" (Json.compact event), rfl, rfl,
    ?_⟩
  rw [wire_eq_ofLines]
  refine ⟨Bytes.splitOn_ofLines hfeeds, Bytes.count_ofLines hfeeds,
    Bytes.getLast?_ofLines (List.cons_ne_nil _ _), ?_⟩
  intro b hb hcontrol
  exact Bytes.eq_lineFeed_of_mem_ofLines hlines hb hcontrol

end Envelope

end CrashCourier
