import CrashCourier.Managed.Heap
import CrashCourier.Proofs.Managed.Copies
import CrashCourier.Proofs.Text.Ascii

namespace CrashCourier.Managed

namespace Heap

theorem text?_eq_some_iff {h : Heap} {r : Reference} {s : String} :
    h.text? r = some s ↔ h.object? r = some (.text s) := by
  unfold text?
  split
  · next t ht => simp [ht]
  · next hother => simpa using hother s

/-- The text of a string that can be converted, and whose size with a NUL after it fits 64 bits. -/
def readable? (h : Heap) (r : Reference) : Option String :=
  (h.text? r).filter fun s => decide (r ∉ h.corrupt ∧ Text.length s + 1 < sizeLimit)

theorem readable?_eq_some_iff {h : Heap} {r : Reference} {s : String} :
    h.readable? r = some s ↔
      h.text? r = some s ∧ r ∉ h.corrupt ∧ Text.length s + 1 < sizeLimit := by
  rw [readable?, Option.filter_eq_some_iff, decide_eq_true_iff]

end Heap

theorem run_textLength (h : Heap) (r : Reference) :
    (Host.textLength r).run h = (h.textLength r, h) := rfl

theorem run_writeText (h : Heap) (r : Reference) (slice : Bytes) :
    (Host.writeText r slice).run h = (h.writeText r slice, h) := rfl

theorem Heap.textLength_of_text? {h : Heap} {r : Reference} {s : String}
    (hs : h.text? r = some s) : h.textLength r = (Text.bytes s).length := by
  rw [textLength, hs]
  exact Text.length_eq_length_bytes s

theorem Heap.text?_of_writeText {h : Heap} {r : Reference} {slice : Bytes}
    {b : { b : Bytes // b.length = slice.length }} (hwrite : h.writeText r slice = (.ok (), b)) :
    ∃ s, h.text? r = some s ∧ r ∉ h.corrupt ∧ Text.bytes s = b.val := by
  unfold writeText at hwrite
  split at hwrite
  · next content hcontent =>
    obtain ⟨-, rfl⟩ := Prod.mk.inj hwrite
    unfold textBytes at hcontent
    split at hcontent
    · simp at hcontent
    · next hcorrupt =>
      split at hcontent
      · simp at hcontent
      · next s hs =>
        split at hcontent
        · exact ⟨s, hs, hcorrupt, congrArg Subtype.val (Except.ok.inj hcontent)⟩
        · simp at hcontent
  · simp at hwrite

/-- A heap converts its strings to their own bytes, but for those whose conversion is to fail. -/
theorem Heap.encodes_iff {h : Heap} {r : Reference} {content : Bytes} :
    Encodes r h content ↔ ∃ s, h.text? r = some s ∧ r ∉ h.corrupt ∧ Text.bytes s = content := by
  constructor
  · rintro ⟨n, h₁, slice, h₂, hlength, hwrite, rfl⟩
    obtain ⟨rfl, rfl⟩ := Prod.mk.inj hlength
    obtain ⟨hwritten, rfl⟩ := Prod.mk.inj hwrite
    exact text?_of_writeText hwritten
  · rintro ⟨s, hs, hcorrupt, rfl⟩
    have hlength := textLength_of_text? hs
    have hconverted : h.writeText r (List.replicate (Text.bytes s).length 0) =
        (.ok (), ⟨Text.bytes s, List.length_replicate.symm⟩) := by
      simp [writeText, textBytes, hcorrupt, hs]
    refine ⟨(Text.bytes s).length, h, ⟨Text.bytes s, List.length_replicate.symm⟩, h, ?_, ?_, rfl⟩
    · rw [run_textLength, hlength]
    · rw [run_writeText, hconverted]

theorem copyInto_snd (h : Heap) (source : Reference) (buffer : Bytes) :
    ((copyInto source buffer).run h).2 = h := by
  rw [copyInto, run_bind_of (run_textLength h source)]
  split
  · rfl
  · rw [run_bind_of (run_writeText h source _)]
    rcases h.writeText source (List.replicate (h.textLength source) 0) with ⟨e | ⟨⟩, slice⟩
    · rfl
    · rfl

theorem toBuffer_snd (h : Heap) (source : Reference) : ((toBuffer source).run h).2 = h := by
  have hcopy : ∀ buffer, (copyInto source buffer).run h = (((copyInto source buffer).run h).1, h) :=
    fun buffer => Prod.ext rfl (copyInto_snd h source buffer)
  rw [toBuffer, run_bind_of (run_textLength h source)]
  split
  · rfl
  · rw [run_bind_of (hcopy _)]
    rfl

/-- What can be read of a reference is copied into a buffer, and the heap stays as it is. -/
theorem run_toBuffer (h : Heap) (source : Reference) :
    (toBuffer source).run h = ((h.readable? source).map Buffer.ofText, h) := by
  refine Prod.ext (Option.ext fun b => ?_) (toBuffer_snd h source)
  rw [toBuffer_eq_some_iff (run_textLength h source), Option.map_eq_some_iff]
  constructor
  · rintro ⟨hfits, content, hencodes, -, hbytes⟩
    obtain ⟨s, hs, hcorrupt, rfl⟩ := Heap.encodes_iff.mp hencodes
    have hlength := Heap.textLength_of_text? hs
    rw [hlength, Nat.add_sub_cancel_left] at hbytes
    refine ⟨s, Heap.readable?_eq_some_iff.mpr ⟨hs, hcorrupt, ?_⟩, ?_⟩
    · rw [Text.length_eq_length_bytes, ← hlength]
      exact hfits
    · obtain ⟨bytes, hne⟩ := b
      obtain rfl := hbytes
      rfl
  · rintro ⟨s, hread, rfl⟩
    obtain ⟨hs, hcorrupt, hfits⟩ := Heap.readable?_eq_some_iff.mp hread
    have hlength := Heap.textLength_of_text? hs
    rw [hlength]
    refine ⟨Text.length_eq_length_bytes s ▸ hfits, Text.bytes s,
      Heap.encodes_iff.mpr ⟨s, hs, hcorrupt, rfl⟩, Nat.le_refl _, ?_⟩
    rw [Nat.add_sub_cancel_left]
    rfl

theorem bind_text?_ofText (text : Option String) :
    (text.map Buffer.ofText).bind Buffer.text? = text := by
  cases text with
  | none => rfl
  | some s => exact Buffer.text?_ofText s

theorem run_resolve (h : Heap) (source : Option Reference) :
    (resolve source).run h = (source.bind h.readable?, h) := by
  cases source with
  | none => rfl
  | some r =>
    unfold resolve
    rw [run_bind_of (run_toBuffer h r), bind_text?_ofText]
    rfl

/-- A text is copied as a whole, with a NUL after it, or not at all; which of the two is answered.
In a buffer of its own the last byte is a NUL whatever lengths were reported, and the text fills it
up to there if the same length was reported twice. There is no such buffer where its size would not
fit 64 bits. -/
theorem copyInto_exact :
    (∀ (σ ρ : Type) [Host σ ρ] (source : ρ) (s : σ),
      (∀ buffer : Bytes,
        (((copyInto source buffer).run s).1 = (false, buffer) ∨
          ∃ content, Encodes source s content ∧ ((copyInto source buffer).run s).1 =
            (true, content ++ 0 :: buffer.drop (content.length + 1))) ∧
        (((copyInto source buffer).run s).1.1 = true ↔
          reportedLength source s < buffer.length ∧ ∃ content, Encodes source s content)) ∧
      (∀ n s₁, (Host.textLength source).run s = (n, s₁) → reportedLength source s₁ = n →
        ((∃ b, ((toBuffer source).run s).1 = some b) ↔
          n + 1 < sizeLimit ∧ ∃ content, Encodes source s₁ content) ∧
        ∀ b, ((toBuffer source).run s).1 = some b →
          b.capacity = n + 1 ∧ Encodes source s₁ b.content) ∧
      ∀ b, ((toBuffer source).run s).1 = some b → b.bytes = b.content ++ [0]) ∧
    (∀ t, (Buffer.ofText t).bytes = (Buffer.ofText t).content ++ [0]) ∧
    ∀ (h : Heap) r t, h.object? r = some (.text t) → r ∉ h.corrupt →
      Text.length t + 1 < sizeLimit → (resolve (some r)).run h = (some t, h) := by
  refine ⟨fun σ ρ _ source s => ⟨fun buffer => ⟨?_, copyInto_eq_true_iff source buffer s⟩,
    fun n s₁ hlength hstable => ⟨exists_toBuffer_iff hlength hstable,
      fun b => capacity_of_toBuffer hlength hstable⟩, fun b => bytes_of_toBuffer⟩, fun t => ?_,
    fun h r t hobject hcorrupt hfits => ?_⟩
  · rcases copyInto_cases source buffer s with ⟨hout, -⟩ | ⟨content, hcontent, -, hout⟩
    · exact Or.inl hout
    · exact Or.inr ⟨content, hcontent, hout⟩
  · rw [Buffer.content_ofText]
    rfl
  · have hread : h.readable? r = some t :=
      Heap.readable?_eq_some_iff.mpr ⟨Heap.text?_eq_some_iff.mpr hobject, hcorrupt, hfits⟩
    rw [run_resolve, Option.bind_some, hread]

theorem copyInto_exact_nul :
    let h : Heap := { objects := [.text "a\x00é"] }
    let r : Reference := ⟨1⟩
    (Host.textLength r).run h = (4, h) ∧ reportedLength r h = 4 ∧
      h.object? r = some (.text "a\x00é") ∧
      r ∉ h.corrupt ∧ Text.length "a\x00é" + 1 < sizeLimit ∧
      (∃ b, ((toBuffer r).run h).1 = some b ∧ b.capacity = 5 ∧ b.bytes = b.content ++ [0]) ∧
      (resolve (some r)).run h = (some "a\x00é", h) := by
  intro h r
  have hlength : (Host.textLength r).run h = (4, h) := rfl
  have hencodes : Encodes r h [0x61, 0, 0xc3, 0xa9] :=
    Heap.encodes_iff.mpr ⟨"a\x00é", rfl, by decide, by decide⟩
  obtain ⟨hrun, -, hheap⟩ := copyInto_exact
  obtain ⟨-, hstable, hnul⟩ := hrun Heap Reference r h
  obtain ⟨hexists, hcapacity⟩ := hstable 4 h hlength rfl
  obtain ⟨b, hb⟩ := hexists.mpr ⟨by decide, _, hencodes⟩
  exact ⟨hlength, rfl, rfl, by decide, by decide, ⟨b, hb, (hcapacity b hb).1, hnul b hb⟩,
    hheap h r "a\x00é" rfl (by decide) (by decide)⟩

namespace Heap

/-- The text that an accessor returns in a new string: none for a null, and if it raises. -/
def lends? (h : Heap) (object : Reference) (o : TextOption) : Option String :=
  match h.object? object with
  | some (.options held) => if o.method ∈ h.failingMethods then none else held.text o
  | _ => none

/-- The text that is read of the string which an accessor returns; that string is the next object
of the heap. -/
def yields? (h : Heap) (object : Reference) (o : TextOption) : Option String :=
  (h.lends? object o).filter fun s =>
    decide (⟨h.objects.length + 1⟩ ∉ h.corrupt ∧ Text.length s + 1 < sizeLimit)

/-- The heap after an accessor was called and the string that it returned was given back. -/
def accessed (h : Heap) (object : Reference) (o : TextOption) : Heap :=
  match h.lends? object o with
  | some s => (h.lend (.text s)).2.takeBack (h.lend (.text s)).1
  | none => h

theorem readable?_lend (h : Heap) (s : String) :
    (h.lend (.text s)).2.readable? (h.lend (.text s)).1 =
      (some s).filter fun s =>
        decide (⟨h.objects.length + 1⟩ ∉ h.corrupt ∧ Text.length s + 1 < sizeLimit) := by
  have htext : (h.lend (.text s)).2.text? (h.lend (.text s)).1 = some s := by
    rw [text?_eq_some_iff]
    simp [lend, insert, object?]
  rw [readable?, htext]
  rfl

theorem toOption_textOption (h : Heap) (object : Reference) (o : TextOption) :
    (h.textOption object o.method).toOption.join = h.lends? object o := by
  unfold textOption refuseFailing options lends?
  rw [TextOption.ofMethod?_method]
  by_cases hfails : o.method ∈ h.failingMethods
  · simp only [if_pos hfails]
    rcases h.object? object with _ | (_ | _ | _ | _)
    all_goals rfl
  · simp only [if_neg hfails]
    rcases h.object? object with _ | (_ | _ | _ | _)
    all_goals rfl

end Heap

theorem run_callText (h : Heap) (object : Reference) (o : TextOption) :
    (∃ result, (Host.callText object o.method).run h = (result, h) ∧ h.lends? object o = none ∧
        result.toOption.join = none) ∨
      ∃ s, h.lends? object o = some s ∧ (Host.callText object o.method).run h =
        (.ok (some (h.lend (.text s)).1), (h.lend (.text s)).2) := by
  simp only [Host.callText, run_bind_of (StateT.run_get h),
    ← h.toOption_textOption object o]
  rcases h.textOption object o.method with e | (_ | s)
  · exact Or.inl ⟨_, rfl, rfl, rfl⟩
  · exact Or.inl ⟨_, rfl, rfl, rfl⟩
  · exact Or.inr ⟨s, rfl, rfl⟩

/-- An accessor is called, and the string that it returns is copied and given back. -/
theorem run_callForText (h : Heap) (object : Reference) (o : TextOption) :
    (callForText object o.method).run h =
      ((h.yields? object o).map Buffer.ofText, h.accessed object o) := by
  unfold callForText Heap.yields? Heap.accessed
  rcases run_callText h object o with ⟨result, hrun, hlends, hresult⟩ | ⟨s, hlends, hrun⟩
  · rw [run_bind_of hrun, hlends]
    cases result with
    | error e => rfl
    | ok returned =>
      obtain rfl : returned = none := hresult
      rfl
  · rw [run_bind_of hrun, hlends, ← Heap.readable?_lend]
    dsimp only
    unfold using?
    rw [run_bind_of (run_toBuffer (h.lend (.text s)).2 (h.lend (.text s)).1)]
    rfl

end CrashCourier.Managed
