import CrashCourier.Envelope
import CrashCourier.Proofs.Json.ReadBack

namespace CrashCourier

namespace Json

open Value

variable {n : Nat}

/-- A double is read of its own text. -/
def ReadableDouble (v : Value) : Prop := ∀ d, v = .double d → (reread 0 v).isSome = true

theorem isSome_rereadItems_iff {xs : List Value} :
    (rereadItems n xs).isSome = true ↔ ∀ x ∈ xs, (reread n x).isSome = true := by
  induction xs with
  | nil => simp [rereadItems]
  | cons x xs ih =>
    rw [List.forall_mem_cons, ← ih, rereadItems]
    cases reread n x <;> simp

theorem isSome_rereadEntries_iff {es done : Entries} :
    (rereadEntries n done es).isSome = true ↔ ∀ e ∈ es, (reread n e.2).isSome = true := by
  induction es generalizing done with
  | nil => simp [rereadEntries]
  | cons e es ih =>
    obtain ⟨key, x⟩ := e
    rw [List.forall_mem_cons, rereadEntries]
    cases reread n x with
    | none => simp
    | some w => simpa using ih

theorem reread_double (n : Nat) (d : Double) : reread n (.double d) = reread 0 (.double d) := by
  rw [reread, reread]

/-- The text of a value is read unless it nests too deep or a double in it cannot be read. -/
theorem isSome_reread_iff {v : Value} :
    (reread n v).isSome = true ↔ v.nesting ≤ n ∧ v.Everywhere ReadableDouble := by
  induction v using shapeInduction generalizing n with
  | double d => simp [reread_double n, nesting, Everywhere, ReadableDouble]
  | list xs ih =>
    rw [everywhere_list, nesting]
    cases n with
    | zero => simp [reread]
    | succ n =>
      have hitems : (∀ x ∈ xs, (reread n x).isSome = true) ↔
          (∀ x ∈ xs, x.nesting ≤ n) ∧ ∀ x ∈ xs, x.Everywhere ReadableDouble :=
        ⟨fun h => ⟨fun x hx => ((ih x hx).mp (h x hx)).1, fun x hx => ((ih x hx).mp (h x hx)).2⟩,
          fun h x hx => (ih x hx).mpr ⟨h.1 x hx, h.2 x hx⟩⟩
      simp only [reread, Option.isSome_map, isSome_rereadItems_iff, hitems, Nat.succ_le_succ_iff,
        nestingItems_le_iff]
      simp [ReadableDouble]
  | object es ih =>
    rw [everywhere_object, nesting]
    cases n with
    | zero => simp [reread]
    | succ n =>
      have hentries : (∀ e ∈ es, (reread n e.2).isSome = true) ↔
          (∀ e ∈ es, e.2.nesting ≤ n) ∧ ∀ e ∈ es, e.2.Everywhere ReadableDouble :=
        ⟨fun h => ⟨fun e he => ((ih e he).mp (h e he)).1, fun e he => ((ih e he).mp (h e he)).2⟩,
          fun h e he => (ih e he).mpr ⟨h.1 e he, h.2 e he⟩⟩
      simp only [reread, Option.isSome_map, isSome_rereadEntries_iff, hentries,
        Nat.succ_le_succ_iff, nestingEntries_le_iff]
      simp [ReadableDouble]
  | _ => simp [reread, nesting, Everywhere, ReadableDouble]

theorem read_write_eq_ok_iff {s : Spacing} (hs : s.Blank) {v w : Value} :
    read (write s 0 v) = .ok w ↔ reread deepest v = some w := by
  rw [← toOption_read_write hs, toOption_eq_some_iff]

end Json

namespace EnvelopeItem

/-- The indented text of a value and its compact text are payloads of the same value, if of any:
they are of one unless brackets nest too deep or a double in the value is no payload of its own. -/
theorem value_pretty (v headers : Value) :
    (∀ w, value ⟨headers, Json.pretty v⟩ = .ok w ↔ value ⟨headers, Json.compact v⟩ = .ok w) ∧
    ((∃ w, value ⟨headers, Json.compact v⟩ = .ok w) ↔ v.nesting ≤ Json.deepest ∧
      v.Everywhere fun u => ∀ d, u = .double d →
        ∃ w, value ⟨headers, Json.compact u⟩ = .ok w) := by
  have hcompact : ∀ u w, value ⟨headers, Json.compact u⟩ = .ok w ↔
      Json.reread Json.deepest u = some w := fun u w =>
    Json.read_write_eq_ok_iff Json.Spacing.blank_compact
  have hpretty : ∀ w, value ⟨headers, Json.pretty v⟩ = .ok w ↔
      Json.reread Json.deepest v = some w := fun w =>
    Json.read_write_eq_ok_iff Json.Spacing.blank_indented
  refine ⟨fun w => (hpretty w).trans (hcompact v w).symm, ?_⟩
  have htold : Json.ReadableDouble = fun u => ∀ d, u = .double d →
      (Json.reread Json.deepest u).isSome = true := by
    funext u
    refine forall_congr fun d => ?_
    refine forall_congr fun hu => ?_
    rw [hu, Json.reread_double Json.deepest]
  simp only [hcompact, ← Option.isSome_iff_exists]
  rw [Json.isSome_reread_iff, htold]

end EnvelopeItem

end CrashCourier
