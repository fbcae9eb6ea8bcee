import CrashCourier.Managed.Text

namespace CrashCourier.Managed

theorem run_bind_of {σ α β : Type} {call : StateM σ α} {next : α → StateM σ β} {a : α} {s s' : σ}
    (hcall : call.run s = (a, s')) : (call >>= next).run s = (next a).run s' := by
  rw [StateT.run_bind, hcall]
  rfl

variable {σ ρ : Type} [Host σ ρ]

/-- The number of bytes that a text is said to have. -/
def reportedLength (source : ρ) (s : σ) : Nat := ((Host.textLength source).run s).1

/-- Asked for its length and converted, a text does not raise and gives these bytes. -/
def Encodes (source : ρ) (s : σ) (content : Bytes) : Prop :=
  ∃ n s₁ slice s₂, (Host.textLength source).run s = (n, s₁) ∧
    (Host.writeText source (List.replicate n 0)).run s₁ = ((.ok (), slice), s₂) ∧
    slice.val = content

variable {source : ρ} {buffer content : Bytes} {s s₁ s₂ : σ} {n : Nat}

theorem Encodes.length (h : Encodes source s content) :
    content.length = reportedLength source s := by
  obtain ⟨n, s₁, slice, s₂, hlength, -, rfl⟩ := h
  have hsize : slice.val.length = n := slice.property.trans List.length_replicate
  rw [hsize, reportedLength, hlength]

theorem set_append_drop (hn : content.length = n) (hroom : n < buffer.length) :
    (content ++ buffer.drop n).set n 0 = content ++ 0 :: buffer.drop (n + 1) := by
  rw [List.set_append_right n 0 (Nat.le_of_eq hn), hn, Nat.sub_self,
    List.drop_eq_getElem_cons hroom, List.set_cons_zero]

theorem copyInto_of_encodes (h : Encodes source s content)
    (hroom : content.length < buffer.length) :
    ((copyInto source buffer).run s).1 =
      (true, content ++ 0 :: buffer.drop (content.length + 1)) := by
  obtain ⟨n, s₁, slice, s₂, hlength, hwrite, rfl⟩ := h
  have hsize : slice.val.length = n := slice.property.trans List.length_replicate
  have hcopied := set_append_drop hsize (hsize ▸ hroom)
  rw [copyInto, run_bind_of hlength, if_neg (by omega), run_bind_of hwrite, hsize]
  exact congrArg (true, ·) hcopied

/-- A buffer without room is left as it is, and so is one into which a text would be copied that
cannot be converted, whatever the conversion left in its slice. -/
theorem copyInto_of_not_encodes
    (h : ∀ content, Encodes source s content → buffer.length ≤ content.length) :
    ((copyInto source buffer).run s).1 = (false, buffer) := by
  obtain ⟨n, s₁, hlength⟩ : ∃ n s₁, (Host.textLength source).run s = (n, s₁) := ⟨_, _, rfl⟩
  obtain ⟨result, slice, s₂, hwrite⟩ : ∃ result slice s₂,
      (Host.writeText source (List.replicate n 0)).run s₁ = ((result, slice), s₂) :=
    ⟨_, _, _, rfl⟩
  have hsize : slice.val.length = n := slice.property.trans List.length_replicate
  rw [copyInto, run_bind_of hlength]
  split
  · rfl
  · next hroom =>
    cases result with
    | ok _ => exact absurd (h slice.val ⟨n, s₁, slice, s₂, hlength, hwrite, rfl⟩) (by omega)
    | error e =>
      rw [run_bind_of hwrite]
      rfl

theorem copyInto_cases (source : ρ) (buffer : Bytes) (s : σ) :
    ((copyInto source buffer).run s).1 = (false, buffer) ∧
        (∀ content, Encodes source s content → buffer.length ≤ content.length) ∨
      ∃ content, Encodes source s content ∧ content.length < buffer.length ∧
        ((copyInto source buffer).run s).1 =
          (true, content ++ 0 :: buffer.drop (content.length + 1)) := by
  by_cases h : ∃ content, Encodes source s content ∧ content.length < buffer.length
  · obtain ⟨content, hcontent, hroom⟩ := h
    exact Or.inr ⟨content, hcontent, hroom, copyInto_of_encodes hcontent hroom⟩
  · have hfull : ∀ content, Encodes source s content → buffer.length ≤ content.length :=
      fun content hcontent => Nat.not_lt.mp fun hroom => h ⟨content, hcontent, hroom⟩
    exact Or.inl ⟨copyInto_of_not_encodes hfull, hfull⟩

theorem copyInto_eq_true_iff (source : ρ) (buffer : Bytes) (s : σ) :
    ((copyInto source buffer).run s).1.1 = true ↔
      reportedLength source s < buffer.length ∧ ∃ content, Encodes source s content := by
  rcases copyInto_cases source buffer s with ⟨hout, hfull⟩ | ⟨content, hcontent, hroom, hout⟩
  · rw [hout]
    constructor
    · intro hfalse
      cases hfalse
    · rintro ⟨hroom, content, hcontent⟩
      have hfull := hfull content hcontent
      have hlength := hcontent.length
      omega
  · rw [hout]
    exact iff_of_true rfl ⟨hcontent.length ▸ hroom, content, hcontent⟩

theorem run_toBuffer_of {copied : Bool} {bytes : Bytes}
    (hlength : (Host.textLength source).run s = (n, s₁))
    (hcopy : (copyInto source (List.replicate (n + 1) 0)).run s₁ = ((copied, bytes), s₂)) :
    ((toBuffer source).run s).1 =
      if sizeLimit ≤ n + 1 then none
      else if h : copied ∧ bytes ≠ [] then some ⟨bytes, h.2⟩ else none := by
  rw [toBuffer, run_bind_of hlength]
  split
  · rfl
  · rw [run_bind_of hcopy]
    rfl

/-- The length is asked for twice. A text that tells a smaller one the second time is followed by
NULs up to the first. -/
theorem toBuffer_eq_some_iff {b : Buffer} (hlength : (Host.textLength source).run s = (n, s₁)) :
    ((toBuffer source).run s).1 = some b ↔
      n + 1 < sizeLimit ∧ ∃ content, Encodes source s₁ content ∧ content.length ≤ n ∧
        b.bytes = content ++ List.replicate (n + 1 - content.length) 0 := by
  obtain ⟨copied, bytes, s₂, hcopy⟩ : ∃ copied bytes s₂,
      (copyInto source (List.replicate (n + 1) 0)).run s₁ = ((copied, bytes), s₂) :=
    ⟨_, _, _, rfl⟩
  have hfilled : ∀ content, Encodes source s₁ content → content.length ≤ n →
      copied = true ∧ bytes = content ++ List.replicate (n + 1 - content.length) 0 := by
    intro content hcontent hle
    have hroom : content.length < (List.replicate (n + 1) (0 : UInt8)).length := by
      rw [List.length_replicate]
      omega
    have hzeros : n + 1 - content.length = (n + 1 - (content.length + 1)) + 1 := by omega
    have hout := copyInto_of_encodes hcontent hroom
    rw [hcopy, List.drop_replicate, ← List.replicate_succ, ← hzeros] at hout
    exact Prod.mk.inj hout
  rw [run_toBuffer_of hlength hcopy]
  by_cases hsize : sizeLimit ≤ n + 1
  · simp [hsize, Nat.not_lt.mpr hsize]
  · rw [if_neg hsize, and_iff_right (Nat.not_le.mp hsize)]
    constructor
    · intro h
      by_cases hencodes : ∃ content, Encodes source s₁ content ∧ content.length ≤ n
      · obtain ⟨content, hcontent, hle⟩ := hencodes
        obtain ⟨rfl, rfl⟩ := hfilled content hcontent hle
        split at h
        · exact ⟨content, hcontent, hle, (congrArg Buffer.bytes (Option.some.inj h)).symm⟩
        · simp at h
      · have hfull : ∀ content, Encodes source s₁ content →
            (List.replicate (n + 1) (0 : UInt8)).length ≤ content.length := by
          intro content hcontent
          rw [List.length_replicate]
          exact Nat.not_le.mp fun hle => hencodes ⟨content, hcontent, hle⟩
        have hout := copyInto_of_not_encodes hfull
        rw [hcopy] at hout
        obtain ⟨rfl, -⟩ := Prod.mk.inj hout
        simp at h
    · rintro ⟨content, hcontent, hle, hbytes⟩
      obtain ⟨rfl, rfl⟩ := hfilled content hcontent hle
      obtain ⟨bytes, hne⟩ := b
      obtain rfl := hbytes
      rw [dif_pos ⟨rfl, hne⟩]

theorem bytes_of_toBuffer {b : Buffer} (h : ((toBuffer source).run s).1 = some b) :
    b.bytes = b.content ++ [0] := by
  obtain ⟨n, s₁, hlength⟩ : ∃ n s₁, (Host.textLength source).run s = (n, s₁) := ⟨_, _, rfl⟩
  obtain ⟨-, content, -, hle, hbytes⟩ := (toBuffer_eq_some_iff hlength).mp h
  have hzeros : n + 1 - content.length = (n - content.length) + 1 := by omega
  rw [hzeros, List.replicate_succ', ← List.append_assoc] at hbytes
  rw [Buffer.content, hbytes, List.dropLast_concat]

/-- A text that tells the same length twice leaves no NULs but the last. -/
theorem toBuffer_eq_some_iff_of_stable {b : Buffer}
    (hlength : (Host.textLength source).run s = (n, s₁)) (hstable : reportedLength source s₁ = n) :
    ((toBuffer source).run s).1 = some b ↔
      n + 1 < sizeLimit ∧ ∃ content, Encodes source s₁ content ∧ b.bytes = content ++ [0] := by
  rw [toBuffer_eq_some_iff hlength]
  refine and_congr_right fun _ => exists_congr fun content => and_congr_right fun hcontent => ?_
  have hsize : content.length = n := hcontent.length.trans hstable
  have hone : n + 1 - content.length = 1 := by omega
  rw [hone, and_iff_right (Nat.le_of_eq hsize)]
  rfl

theorem exists_toBuffer_iff (hlength : (Host.textLength source).run s = (n, s₁))
    (hstable : reportedLength source s₁ = n) :
    (∃ b, ((toBuffer source).run s).1 = some b) ↔
      n + 1 < sizeLimit ∧ ∃ content, Encodes source s₁ content := by
  simp only [toBuffer_eq_some_iff_of_stable hlength hstable]
  constructor
  · rintro ⟨b, hfits, content, hcontent, -⟩
    exact ⟨hfits, content, hcontent⟩
  · rintro ⟨hfits, content, hcontent⟩
    exact ⟨⟨content ++ [0], by simp⟩, hfits, content, hcontent, rfl⟩

theorem capacity_of_toBuffer {b : Buffer} (hlength : (Host.textLength source).run s = (n, s₁))
    (hstable : reportedLength source s₁ = n) (h : ((toBuffer source).run s).1 = some b) :
    b.capacity = n + 1 ∧ Encodes source s₁ b.content := by
  obtain ⟨-, content, hcontent, hbytes⟩ := (toBuffer_eq_some_iff_of_stable hlength hstable).mp h
  have hsize : content.length = n := hcontent.length.trans hstable
  have hheld : b.content = content := by rw [Buffer.content, hbytes, List.dropLast_concat]
  refine ⟨?_, hheld ▸ hcontent⟩
  rw [Buffer.capacity, hbytes, List.length_append, hsize]
  rfl

end CrashCourier.Managed
