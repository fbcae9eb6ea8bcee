import CrashCourier.Proofs.Json.Turns
import CrashCourier.Proofs.ValueShape

namespace CrashCourier

namespace Value

/-- Without repeated keys, and not too deep. -/
structure Regular (depth : Nat) (v : Value) : Prop where
  distinct : v.Everywhere DistinctKeys
  shallow : v.nesting ≤ depth

/-- A value without brackets is neither a list nor an object. -/
theorem regular_scalar {v : Value} (h : v.nesting = 0) (n : Nat) : Regular n v := by
  refine ⟨?_, h ▸ Nat.zero_le n⟩
  cases v with
  | list xs => simp [nesting] at h
  | object es => simp [nesting] at h
  | _ => simp [Everywhere, DistinctKeys]

theorem regular_list {n : Nat} {xs : List Value} (h : ∀ x ∈ xs, Regular n x) :
    Regular (n + 1) (list xs) := by
  refine ⟨everywhere_list.mpr ⟨by simp [DistinctKeys], fun x hx => (h x hx).distinct⟩, ?_⟩
  exact Nat.succ_le_succ (nestingItems_le_iff.mpr fun x hx => (h x hx).shallow)

theorem regular_object {n : Nat} {es : Entries} (hk : (Entries.keys es).Nodup)
    (h : ∀ e ∈ es, Regular n e.2) : Regular (n + 1) (object es) := by
  refine ⟨everywhere_object.mpr ⟨?_, fun e he => (h e he).distinct⟩, ?_⟩
  · intro other heq
    exact object.inj heq ▸ hk
  · exact Nat.succ_le_succ (nestingEntries_le_iff.mpr fun e he => (h e he).shallow)

/-- A regular value without doubles is one that its JSON text keeps. -/
theorem Regular.plain {n : Nat} {v : Value} (h : Regular n v) (hd : v.Everywhere NotDouble) :
    Plain n v :=
  ⟨hd, h.distinct, h.shallow⟩

end Value

namespace Json

open Value

theorem readWord_ok {v w : Value} {word text rest : Bytes}
    (h : readWord v word text = .ok (w, rest)) : w = v := by
  induction word generalizing text with
  | nil => exact (Prod.mk.inj (Except.ok.inj h)).1.symm
  | cons e word ih =>
    cases text with
    | nil => simp [readWord] at h
    | cons b text =>
      simp only [readWord] at h
      split at h
      · exact ih h
      · simp at h

theorem readNumber_ok {negative : Bool} {text rest : Bytes} {v : Value}
    (h : readNumber negative text = .ok (v, rest)) :
    ∃ numeral, readNumeral text = .ok (numeral, rest) ∧ numeral.value? negative = some v := by
  obtain ⟨⟨numeral, after⟩, hread, h⟩ := bind_eq_ok_iff.mp h
  dsimp only at h
  split at h
  next w hv =>
    obtain ⟨rfl, rfl⟩ := Prod.mk.inj (Except.ok.inj h)
    exact ⟨numeral, hread, hv⟩
  next => simp at h

/-- A number is an integer or a double. -/
theorem Numeral.nesting_value? {negative : Bool} {numeral : Numeral} {v : Value}
    (h : numeral.value? negative = some v) : v.nesting = 0 := by
  cases numeral with
  | whole m =>
    simp only [Numeral.value?] at h
    split at h
    · split at h
      · exact Option.some.inj h ▸ rfl
      · split at h <;> exact Option.some.inj h ▸ rfl
    · split at h <;> exact Option.some.inj h ▸ rfl
  | scaled significand exponent =>
    obtain ⟨d, -, rfl⟩ := Option.map_eq_some_iff.mp h
    rfl

theorem nesting_readScalar {b : UInt8} {text rest : Bytes} {v : Value}
    (h : readScalar b text = .ok (v, rest)) : v.nesting = 0 := by
  have hnumber : ∀ {negative : Bool} {digits : Bytes},
      readNumber negative digits = .ok (v, rest) → v.nesting = 0 := by
    intro negative digits hread
    obtain ⟨numeral, -, hv⟩ := readNumber_ok hread
    exact numeral.nesting_value? hv
  unfold readScalar at h
  split at h
  · obtain ⟨⟨s, after⟩, -, heq⟩ := map_eq_ok_iff.mp h
    exact (Prod.mk.inj heq).1 ▸ rfl
  · split at h
    · exact readWord_ok h ▸ rfl
    · split at h
      · exact readWord_ok h ▸ rfl
      · split at h
        · exact readWord_ok h ▸ rfl
        · split at h
          · exact hnumber h
          · split at h
            · exact hnumber h
            · simp at h

variable {readItem : Reader Value} {P : Value → Prop}

theorem forall_mem_readItems (hread : ∀ {text v rest}, readItem text = .ok (v, rest) → P v)
    {fuel : Nat} {done items : List Value} {text rest : Bytes} (hdone : ∀ x ∈ done, P x)
    (h : readItems readItem fuel done text = .ok (items, rest)) : ∀ x ∈ items, P x := by
  induction fuel generalizing done text with
  | zero => simp [readItems] at h
  | succ fuel ih =>
    obtain ⟨item, after, hitem, ⟨-, rfl⟩ | ⟨next, c, more, -, -, -, h⟩⟩ := readItems_eq_ok_iff.mp h
    · intro x hx
      rcases List.mem_cons.mp (List.mem_reverse.mp hx) with rfl | hx
      · exact hread hitem
      · exact hdone x hx
    · exact ih (List.forall_mem_cons.mpr ⟨hread hitem, hdone⟩) h

theorem forall_mem_readList (hread : ∀ {text v rest}, readItem text = .ok (v, rest) → P v)
    {items : List Value} {text rest : Bytes} (h : readList readItem text = .ok (items, rest)) :
    ∀ x ∈ items, P x := by
  rcases readList_eq_ok_iff.mp h with ⟨-, rfl⟩ | ⟨b, more, -, -, h⟩
  · simp
  · exact forall_mem_readItems hread (by simp) h

theorem forall_mem_readEntries (hread : ∀ {text v rest}, readItem text = .ok (v, rest) → P v)
    {fuel : Nat} {done es : Entries} {text rest : Bytes} (hk : (Entries.keys done).Nodup)
    (hdone : ∀ e ∈ done, P e.2) (h : readEntries readItem fuel done text = .ok (es, rest)) :
    (Entries.keys es).Nodup ∧ ∀ e ∈ es, P e.2 := by
  induction fuel generalizing done text with
  | zero => simp [readEntries] at h
  | succ fuel ih =>
    obtain ⟨key, item, after, hentry, hturn⟩ := readEntries_eq_ok_iff.mp h
    obtain ⟨_, _, -, -, hitem⟩ := readEntry_eq_ok_iff.mp hentry
    have hk' := Entries.nodup_keys_insert key item hk
    have hdone' : ∀ e ∈ Entries.insert done key item, P e.2 := by
      intro e he
      rcases mem_insert he with heq | he
      · exact heq ▸ hread hitem
      · exact hdone e he
    rcases hturn with ⟨-, rfl⟩ | ⟨next, more, -, -, h⟩
    · exact ⟨hk', hdone'⟩
    · exact ih hk' hdone' h

theorem forall_mem_readObject (hread : ∀ {text v rest}, readItem text = .ok (v, rest) → P v)
    {es : Entries} {text rest : Bytes} (h : readObject readItem text = .ok (es, rest)) :
    (Entries.keys es).Nodup ∧ ∀ e ∈ es, P e.2 := by
  rcases readObject_eq_ok_iff.mp h with ⟨-, rfl⟩ | ⟨more, -, h⟩
  · simp
  · exact forall_mem_readEntries hread (by simp) (by simp) h

theorem readValue_regular {n : Nat} {text rest : Bytes} {v : Value}
    (h : readValue n text = .ok (v, rest)) : Regular n v := by
  induction n generalizing text rest v with
  | zero =>
    obtain ⟨b, more, -, ⟨-, m, items, hm, -⟩ | ⟨-, m, es, hm, -⟩ | ⟨-, -, hscalar⟩⟩ :=
      readValue_eq_ok_iff.mp h
    · omega
    · omega
    · exact regular_scalar (nesting_readScalar hscalar) 0
  | succ n ih =>
    obtain ⟨b, more, -, ⟨-, m, items, hm, rfl, hlist⟩ | ⟨-, m, es, hm, rfl, hobject⟩ |
      ⟨-, -, hscalar⟩⟩ := readValue_eq_ok_iff.mp h
    · obtain rfl : n = m := by omega
      exact regular_list (forall_mem_readList ih hlist)
    · obtain rfl : n = m := by omega
      obtain ⟨hk, hes⟩ := forall_mem_readObject ih hobject
      exact regular_object hk hes
    · exact regular_scalar (nesting_readScalar hscalar) (n + 1)

theorem read_regular {text : Bytes} {v : Value} (h : read text = .ok v) : Regular deepest v := by
  obtain ⟨after, hvalue, -⟩ := read_eq_ok_iff.mp h
  exact readValue_regular hvalue

end Json

end CrashCourier
