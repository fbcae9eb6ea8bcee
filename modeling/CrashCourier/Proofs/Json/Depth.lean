import CrashCourier.Envelope
import CrashCourier.Proofs.Json.ReadBack

namespace CrashCourier

namespace Value

theorem removeAll_concat (ks ds : List String) (key : String) :
    ks.removeAll (ds ++ [key]) = (ks.removeAll ds).filter fun k => !k == key := by
  simp only [List.removeAll, List.filter_filter]
  congr 1
  funext k
  by_cases hk : k = key <;> simp [hk]

/-- Every key stands where it occurs first. -/
theorem keys_normalEntries (done es : Entries) :
    Entries.keys (normalEntries done es) =
      Entries.keys done ++ ((Entries.keys es).removeAll (Entries.keys done)).eraseDups := by
  induction es generalizing done with
  | nil => simp [normalEntries]
  | cons e es ih =>
    obtain ⟨key, x⟩ := e
    rw [normalEntries, ih, Entries.keys_insert, Entries.keys_cons, List.cons_removeAll]
    by_cases hk : key ∈ Entries.keys done
    · simp [hk]
    · simp [hk, removeAll_concat, List.eraseDups_cons]

/-- Every key has the normal form of the value that it has last. -/
theorem lookup_normalEntries (done es : Entries) (key : String) :
    Entries.lookup (normalEntries done es) key =
      ((Entries.lookup es.reverse key).map normal).or (Entries.lookup done key) := by
  induction es generalizing done with
  | nil => simp [normalEntries, Entries.lookup]
  | cons e es ih =>
    obtain ⟨k, x⟩ := e
    rw [normalEntries, ih, Entries.lookup_insert, List.reverse_cons,
      Entries.lookup_append]
    cases Entries.lookup es.reverse key with
    | some y => simp
    | none => by_cases hk : k = key <;> simp [Entries.lookup, hk]

/-- The entries `ns` are those of `es` without repetitions: every key stands where it occurs first
and has the normal form of the value that it has last. -/
structure Settles (es ns : Entries) : Prop where
  keys : Entries.keys ns = (Entries.keys es).eraseDups
  values : ∀ key, Entries.lookup ns key = (Entries.lookup es.reverse key).map normal

theorem settles_normalEntries (es : Entries) : Settles es (normalEntries [] es) := by
  refine ⟨?_, fun key => ?_⟩
  · rw [keys_normalEntries, Entries.keys_nil, List.removeAll_nil, List.nil_append]
  · simp [lookup_normalEntries, Entries.lookup]

end Value

namespace Json

open Value

/-- With nesting to `n`, the text of a value at a depth is refused for its brackets. -/
def Refused (s : Spacing) (n depth : Nat) (v : Value) : Prop :=
  ∀ rest, ∃ left, readValue n (write s depth v ++ rest) = .error ⟨.tooDeep, left⟩

theorem refused_of_bracket {s : Spacing} {depth : Nat} {v : Value} {b : UInt8} {more : Bytes}
    (hb : b = openList ∨ b = openObject) (heq : write s depth v = b :: more) :
    Refused s 0 depth v := by
  intro rest
  refine ⟨(more ++ rest).length, ?_⟩
  rw [heq, List.cons_append, readValue_zero_bracket hb]
  rfl

/-- The items before the first that is too deep are read; that one ends the reading. -/
theorem readItems_write_deep {s : Spacing} (hs : s.Blank) {n depth fuel : Nat} {x : Value}
    {xs : List Value} (hv : ∀ y ∈ x :: xs, Everywhere Legible y)
    (hrefused : ∀ y ∈ x :: xs, n < y.nesting → Refused s n depth y)
    (hn : n < nestingItems (x :: xs)) (hf : xs.length < fuel) (done : List Value) (tail : Bytes) :
    ∃ left, readItems (readValue n) fuel done
      (write s depth x ++ (writeItems s depth xs ++ tail)) = .error ⟨.tooDeep, left⟩ := by
  induction xs generalizing x done fuel with
  | nil =>
    obtain ⟨fuel, rfl⟩ : ∃ f, fuel = f + 1 := ⟨fuel - 1, by omega⟩
    have hx : n < x.nesting := by
      simp only [nestingItems] at hn
      omega
    obtain ⟨left, hread⟩ := hrefused x (by simp) hx (writeItems s depth [] ++ tail)
    exact ⟨left, readItems_of_error hread⟩
  | cons y ys ih =>
    obtain ⟨fuel, rfl⟩ : ∃ f, fuel = f + 1 := ⟨fuel - 1, by omega⟩
    obtain ⟨hv₁, hv₂⟩ := List.forall_mem_cons.mp hv
    obtain ⟨hr₁, hr₂⟩ := List.forall_mem_cons.mp hrefused
    by_cases hx : n < x.nesting
    · obtain ⟨left, hread⟩ := hr₁ hx (writeItems s depth (y :: ys) ++ tail)
      exact ⟨left, readItems_of_error hread⟩
    · have hback : ReadsAs s n depth x x.normal := fun _ hr =>
        readValue_write hs hv₁ (Nat.le_of_not_lt hx) depth hr
      have hn' : n < nestingItems (y :: ys) := by
        rw [nestingItems] at hn
        omega
      have hf' : ys.length < fuel := by
        simp only [List.length_cons] at hf
        omega
      rw [readItems_write_cons hs hback]
      exact ih hv₂ hr₂ hn' hf' _

/-- The entries before the first that is too deep are read; that one ends the reading. -/
theorem readEntries_write_deep {s : Spacing} (hs : s.Blank) {n depth fuel : Nat} {key : String}
    {x : Value} {es : Entries} (hv : ∀ e ∈ (key, x) :: es, Everywhere Legible e.2)
    (hrefused : ∀ e ∈ (key, x) :: es, n < e.2.nesting → Refused s n depth e.2)
    (hn : n < nestingEntries ((key, x) :: es)) (hf : es.length < fuel) (done : Entries)
    (tail : Bytes) :
    ∃ left, readEntries (readValue n) fuel done ((Text.bytes key).flatMap escapeByte ++
      quote :: colon :: (s.afterColon ++ (write s depth x ++ (writeEntries s depth es ++ tail)))) =
      .error ⟨.tooDeep, left⟩ := by
  induction es generalizing key x done fuel with
  | nil =>
    obtain ⟨fuel, rfl⟩ : ∃ f, fuel = f + 1 := ⟨fuel - 1, by omega⟩
    have hx : n < x.nesting := by
      simp only [nestingEntries] at hn
      omega
    obtain ⟨left, hread⟩ := hrefused (key, x) (by simp) hx (writeEntries s depth [] ++ tail)
    exact ⟨left, readEntries_of_error hs key hread⟩
  | cons e es ih =>
    obtain ⟨fuel, rfl⟩ : ∃ f, fuel = f + 1 := ⟨fuel - 1, by omega⟩
    obtain ⟨other, y⟩ := e
    obtain ⟨hv₁, hv₂⟩ := List.forall_mem_cons.mp hv
    obtain ⟨hr₁, hr₂⟩ := List.forall_mem_cons.mp hrefused
    by_cases hx : n < x.nesting
    · obtain ⟨left, hread⟩ := hr₁ hx (writeEntries s depth ((other, y) :: es) ++ tail)
      exact ⟨left, readEntries_of_error hs key hread⟩
    · have hback : ReadsAs s n depth x x.normal := fun _ hr =>
        readValue_write hs hv₁ (Nat.le_of_not_lt hx) depth hr
      have hn' : n < nestingEntries ((other, y) :: es) := by
        rw [nestingEntries] at hn
        omega
      have hf' : es.length < fuel := by
        simp only [List.length_cons] at hf
        omega
      rw [readEntries_write_cons hs hback]
      exact ih hv₂ hr₂ hn' hf' _

theorem readValue_write_deep {s : Spacing} (hs : s.Blank) {v : Value} (hv : Everywhere Legible v)
    {n : Nat} (hn : n < v.nesting) (depth : Nat) : Refused s n depth v := by
  induction v using shapeInduction generalizing n depth with
  | list xs ih =>
    cases xs with
    | nil =>
      obtain rfl : n = 0 := Nat.lt_one_iff.mp hn
      exact refused_of_bracket (Or.inl rfl) rfl
    | cons x xs =>
      cases n with
      | zero => exact refused_of_bracket (Or.inl rfl) (by rw [write])
      | succ n =>
        have hxs := (everywhere_list.mp hv).2
        intro rest
        obtain ⟨fuel, hf, heq⟩ := readList_write_cons hs n (depth + 1) x xs
          (s.lineBreak depth ++ closeList :: rest)
        obtain ⟨left, hread⟩ := readItems_write_deep hs hxs
          (fun y hy hdeep => ih y hy (hxs y hy) hdeep (depth + 1)) (Nat.lt_of_succ_lt_succ hn) hf []
          (s.lineBreak depth ++ closeList :: rest)
        refine ⟨left, ?_⟩
        simp only [write, List.cons_append, List.append_assoc, List.nil_append]
        rw [readValue_list, heq, hread]
        rfl
  | object es ih =>
    cases es with
    | nil =>
      obtain rfl : n = 0 := Nat.lt_one_iff.mp hn
      exact refused_of_bracket (Or.inr rfl) rfl
    | cons e es =>
      obtain ⟨key, x⟩ := e
      cases n with
      | zero => exact refused_of_bracket (Or.inr rfl) (by rw [write])
      | succ n =>
        have hes := (everywhere_object.mp hv).2
        intro rest
        obtain ⟨fuel, hf, heq⟩ := readObject_write_cons hs n (depth + 1) key x es
          (s.lineBreak depth ++ closeObject :: rest)
        obtain ⟨left, hread⟩ := readEntries_write_deep hs hes
          (fun e he hdeep => ih e he (hes e he) hdeep (depth + 1)) (Nat.lt_of_succ_lt_succ hn) hf []
          (s.lineBreak depth ++ closeObject :: rest)
        refine ⟨left, ?_⟩
        simp only [write, List.cons_append, List.append_assoc, List.nil_append]
        rw [readValue_object, heq, hread]
        rfl
  | _ => simp [nesting] at hn

theorem read_write_deep {s : Spacing} (hs : s.Blank) {v : Value} (hv : Everywhere Legible v)
    (hn : deepest < v.nesting) : ∃ e, read (write s 0 v) = .error e ∧ e.reason = .tooDeep := by
  obtain ⟨left, hread⟩ := readValue_write_deep hs hv hn 0 []
  rw [List.append_nil] at hread
  refine ⟨Stop.place (write s 0 v) ⟨.tooDeep, left⟩, ?_, rfl⟩
  have hall : readAll (write s 0 v) = .error ⟨.tooDeep, left⟩ := by
    simp [readAll, hread, bind, Except.bind]
  rw [read, hall]
  rfl

end Json

namespace EnvelopeItem

open Value

/-- A payload that is the compact text of a value without finite doubles is read as the normal form
of this value, which is the value itself if it holds no double and no repeated key. It is refused if
brackets nest too deep in the value. -/
theorem value_compact {v : Value} (hv : v.Everywhere NotFinite) (headers : Value) :
    (v.nesting ≤ Json.deepest → value ⟨headers, Json.compact v⟩ = .ok v.normal) ∧
    (Json.deepest < v.nesting →
      ∃ e, value ⟨headers, Json.compact v⟩ = .error e ∧ e.reason = .tooDeep) ∧
    (v.Everywhere NotDouble → v.Everywhere DistinctKeys → v.nesting ≤ Json.deepest →
      value ⟨headers, Json.compact v⟩ = .ok v) ∧
    ∀ es, ∃ ns, (object es).normal = object ns ∧ Settles es ns := by
  have hlegible : v.Everywhere Json.Legible := hv.imp fun _ h => Json.legible_of_notFinite h
  refine ⟨fun hn => ?_, fun hn => ?_, fun hd hk hn => ?_, fun es => ?_⟩
  · exact Json.read_write Json.Spacing.blank_compact hlegible hn
  · exact Json.read_write_deep Json.Spacing.blank_compact hlegible hn
  · exact Json.read_compact_plain ⟨hd, hk, hn⟩
  · exact ⟨_, by rw [normal], settles_normalEntries es⟩

/-- A double that is not a number, the least integer, escapes, and a key repeated at two depths. -/
theorem value_compact_repeated :
    let v := object [("a", list [double Double.nan, string "\x01\"\\\n\u00e9"]),
      ("b", int (-2147483648)), ("a", object [("c", null), ("", list []), ("c", bool true)]),
      ("d", double (Double.infinity true))]
    v.Everywhere NotFinite ∧ v.nesting ≤ Json.deepest ∧
      value ⟨null, Json.compact v⟩ = .ok (object [("a", object [("c", bool true), ("", list [])]),
        ("b", int (-2147483648)), ("d", null)]) := by
  intro v
  have hv : v.Everywhere NotFinite := by
    simp [v, Everywhere, EverywhereEntries, EverywhereItems, NotFinite]
    decide
  have hn : v.nesting ≤ Json.deepest := by decide
  exact ⟨hv, hn, (value_compact hv null).1 hn⟩

end EnvelopeItem

end CrashCourier
