import CrashCourier.Proofs.Json.Texts
import CrashCourier.Proofs.ValueShape

namespace CrashCourier

def Bytes.ControlFree (bs : Bytes) : Prop := ∀ b ∈ bs, 0x20 ≤ b

instance (bs : Bytes) : Decidable bs.ControlFree :=
  List.decidableBAll (fun b => 0x20 ≤ b) bs

namespace Bytes.ControlFree

theorem append {xs ys : Bytes} (hx : ControlFree xs) (hy : ControlFree ys) :
    ControlFree (xs ++ ys) := by
  intro b hb
  rcases List.mem_append.mp hb with h | h
  · exact hx b h
  · exact hy b h

theorem cons {b : UInt8} {bs : Bytes} (hb : 0x20 ≤ b) (h : ControlFree bs) :
    ControlFree (b :: bs) :=
  List.forall_mem_cons.mpr ⟨hb, h⟩

theorem nil : ControlFree [] := by
  intro b hb
  simp at hb

theorem lineFeed_notMem {bs : Bytes} (h : ControlFree bs) : lineFeed ∉ bs := by
  intro hm
  exact absurd (h lineFeed hm) (by decide)

theorem text_append {s t : String} (hs : ControlFree (Text.bytes s))
    (ht : ControlFree (Text.bytes t)) : ControlFree (Text.bytes (s ++ t)) := by
  rw [Text.bytes_append]
  exact hs.append ht

theorem of_digits {cs : List Char} (h : ∀ c ∈ cs, c.isDigit = true) :
    ControlFree (Text.bytes (String.ofList cs)) := by
  intro b hb
  have hdigit := Json.isDigit_of_mem_bytes h b hb
  simp only [Json.isDigit, Bool.and_eq_true, decide_eq_true_eq] at hdigit
  exact UInt8.le_trans (by decide) hdigit.1

theorem decimal (n : Nat) : ControlFree (Text.bytes (toString n)) := by
  rw [Nat.toString_eq_ofList_toDigits]
  exact of_digits fun c hc => Nat.isDigit_of_mem_toDigits (by omega) (by omega) hc

end Bytes.ControlFree

open Bytes (ControlFree)

namespace Decimal.Layout

theorem controlFree_zeros (n : Nat) : ControlFree (Text.bytes (zeros n)) := by
  apply ControlFree.of_digits
  intro c hc
  obtain ⟨_, rfl⟩ := List.mem_replicate.mp hc
  rfl

/-- Digits are laid out without control characters if the marks of the layout hold none. -/
theorem controlFree_digits {l : Layout} (hw : ControlFree (Text.bytes l.wholeTail))
    (hu : ControlFree (Text.bytes l.upMark)) (hd : ControlFree (Text.bytes l.downMark))
    (d : Digits) : ControlFree (Text.bytes (l.digits d)) := by
  have hpoint : ControlFree (Text.bytes ".") := by decide
  have hds : ∀ c ∈ Nat.toDigits 10 d.digits, c.isDigit = true := fun c hc =>
    Nat.isDigit_of_mem_toDigits (by omega) (by omega) hc
  have htake : ∀ n, ControlFree (Text.bytes (String.ofList ((Nat.toDigits 10 d.digits).take n))) :=
    fun n => ControlFree.of_digits fun c hc => hds c (List.mem_of_mem_take hc)
  have hdrop : ∀ n, ControlFree (Text.bytes (String.ofList ((Nat.toDigits 10 d.digits).drop n))) :=
    fun n => ControlFree.of_digits fun c hc => hds c (List.mem_of_mem_drop hc)
  simp only [digits]
  split
  · split
    · exact ((ControlFree.text_append (by decide) (controlFree_zeros _)).text_append
        (ControlFree.of_digits hds))
    · refine ((htake _).text_append (controlFree_zeros _)).text_append ?_
      split
      · exact hw
      · exact hpoint.text_append (hdrop _)
  · refine (((htake _).text_append ?_).text_append ?_).text_append (ControlFree.decimal _)
    · split
      · exact ControlFree.nil
      · exact hpoint.text_append (hdrop _)
    · split
      · exact hd
      · exact hu

theorem controlFree_text {l : Layout} (hw : ControlFree (Text.bytes l.wholeTail))
    (hu : ControlFree (Text.bytes l.upMark)) (hd : ControlFree (Text.bytes l.downMark))
    (d : Double) : ControlFree (Text.bytes (l.text d)) := by
  rw [text]
  apply ControlFree.text_append
  · split
    · decide
    · exact ControlFree.nil
  · split
    · exact ControlFree.text_append (by decide) hw
    · exact controlFree_digits hw hu hd _

end Decimal.Layout

namespace Json

theorem controlFree_writeText (s : String) : ControlFree (writeText s) :=
  fun _ hb => le_of_mem_writeText hb

theorem controlFree_writeInt (n : Int32) : ControlFree (writeInt n) := by
  by_cases h : n.toInt < 0
  · rw [writeInt_of_neg h]
    exact ControlFree.cons (by decide) (ControlFree.decimal _)
  · rw [writeInt_of_nonneg (by omega)]
    exact ControlFree.decimal _

theorem controlFree_writeDouble (d : Double) : ControlFree (writeDouble d) := by
  rw [writeDouble]
  split
  · exact Decimal.Layout.controlFree_text (by decide) (by decide) (by decide) d
  · decide

theorem write_compact_list (depth : Nat) (x : Value) (xs : List Value) :
    write .compact depth (.list (x :: xs)) = openList :: (write .compact (depth + 1) x ++
      writeItems .compact (depth + 1) xs ++ [closeList]) := by
  simp [write, Spacing.compact]

theorem write_compact_object (depth : Nat) (key : String) (x : Value) (es : Entries) :
    write .compact depth (.object ((key, x) :: es)) = openObject :: (writeText key ++ colon ::
      (write .compact (depth + 1) x ++ writeEntries .compact (depth + 1) es ++
        [closeObject])) := by
  simp [write, Spacing.compact]

theorem controlFree_writeItems {depth : Nat} {xs : List Value}
    (h : ∀ x ∈ xs, ControlFree (write .compact depth x)) :
    ControlFree (writeItems .compact depth xs) := by
  induction xs with
  | nil => exact ControlFree.nil
  | cons x xs ih =>
    obtain ⟨hx, hxs⟩ := List.forall_mem_cons.mp h
    rw [writeItems]
    exact ControlFree.cons (by decide) (hx.append (ih hxs))

theorem controlFree_writeEntries {depth : Nat} {es : Entries}
    (h : ∀ e ∈ es, ControlFree (write .compact depth e.2)) :
    ControlFree (writeEntries .compact depth es) := by
  induction es with
  | nil => exact ControlFree.nil
  | cons e es ih =>
    obtain ⟨key, x⟩ := e
    obtain ⟨hx, hes⟩ := List.forall_mem_cons.mp h
    rw [writeEntries]
    exact ControlFree.cons (by decide) ((((controlFree_writeText key).append
      (ControlFree.cons (by decide) ControlFree.nil)).append hx).append (ih hes))

theorem controlFree_write (depth : Nat) (v : Value) : ControlFree (write .compact depth v) := by
  induction v using Value.shapeInduction generalizing depth with
  | null => exact (by decide : ControlFree nullWord)
  | bool b =>
    rw [write]
    split
    · decide
    · decide
  | int n => exact controlFree_writeInt n
  | double d => exact controlFree_writeDouble d
  | string s => exact controlFree_writeText s
  | list xs ih =>
    cases xs with
    | nil => exact (by decide : ControlFree [openList, closeList])
    | cons x xs =>
      obtain ⟨hx, hxs⟩ := List.forall_mem_cons.mp ih
      have hitems := controlFree_writeItems fun y hy => hxs y hy (depth + 1)
      rw [write_compact_list]
      exact ControlFree.cons (by decide) (((hx _).append hitems).append (by decide))
  | object es ih =>
    cases es with
    | nil => exact (by decide : ControlFree [openObject, closeObject])
    | cons e es =>
      obtain ⟨key, x⟩ := e
      obtain ⟨hx, hes⟩ := List.forall_mem_cons.mp ih
      have hentries := controlFree_writeEntries fun y hy => hes y hy (depth + 1)
      rw [write_compact_object]
      exact ControlFree.cons (by decide) ((controlFree_writeText key).append
        (ControlFree.cons (by decide) (((hx _).append hentries).append (by decide))))

/-- Compact text is a line without control characters. -/
theorem controlFree_compact (v : Value) : ControlFree (compact v) := controlFree_write 0 v

end Json

end CrashCourier
