import CrashCourier.Proofs.Image.Extents
import CrashCourier.Proofs.Text.Identifiers
import CrashCourier.Proofs.ValueShape

namespace CrashCourier

namespace Uuid

/-- The bytes of an identifier with the low bytes of its first three fields first. -/
def littleEndian (u : Uuid) : Bytes :=
  (u.bytes.take 4).reverse ++ ((u.bytes.drop 4).take 2).reverse
    ++ ((u.bytes.drop 6).take 2).reverse ++ u.bytes.drop 8

/-- Groups of lowercase digits of base sixteen, joined by hyphens. -/
def IsHyphenated (s : String) : Prop :=
  ∃ parts : List (List Char), parts.map List.length = groups ∧
    (∀ part ∈ parts, ∀ c ∈ part, c ∈ "0123456789abcdef".toList) ∧
    s.toList = List.intercalate ['-'] parts

/-- Any sixteen bytes are those of an identifier with the low bytes first. -/
theorem exists_ofLittleEndian? {b : Bytes} (h : b.length = 16) :
    ∃ u, ofLittleEndian? b = some u ∧ u.littleEndian = b := by
  match b, h with
  | a₀ :: a₁ :: a₂ :: a₃ :: b₀ :: b₁ :: c₀ :: c₁ :: rest, h =>
    have hsize : (a₃ :: a₂ :: a₁ :: a₀ :: b₁ :: b₀ :: c₁ :: c₀ :: rest).length = 16 := h
    refine ⟨⟨_, hsize⟩, ?_, rfl⟩
    rw [ofLittleEndian?, ofBytes?, dif_pos hsize]

theorem ofLittleEndian?_littleEndian (u : Uuid) : ofLittleEndian? u.littleEndian = some u := by
  obtain ⟨bytes, size⟩ := u
  match bytes, size with
  | a₃ :: a₂ :: a₁ :: a₀ :: b₁ :: b₀ :: c₁ :: c₀ :: rest, size =>
    have hread : ofLittleEndian? (a₀ :: a₁ :: a₂ :: a₃ :: b₀ :: b₁ :: c₀ :: c₁ :: rest) =
        some ⟨a₃ :: a₂ :: a₁ :: a₀ :: b₁ :: b₀ :: c₁ :: c₀ :: rest, size⟩ := by
      rw [ofLittleEndian?, ofBytes?, dif_pos size]
    exact hread

theorem littleEndian_injective : Function.Injective littleEndian := by
  intro u w h
  have hu := ofLittleEndian?_littleEndian u
  rw [h, ofLittleEndian?_littleEndian] at hu
  exact (Option.some.inj hu).symm

theorem length_toList_hex (b : Bytes) : (Bytes.hex b).toList.length = 2 * b.length := by
  rw [Bytes.hex, String.toList_ofList]
  induction b with
  | nil => rfl
  | cons x b ih =>
    rw [List.flatMap_cons, List.length_append, ih]
    simp only [List.length_cons, List.length_nil]
    omega

theorem isHyphenated_hyphenated (u : Uuid) : IsHyphenated u.hyphenated := by
  have hdigit : ∀ n < 16, Bytes.hexDigit n ∈ "0123456789abcdef".toList := by decide
  refine ⟨[u.bytes.take 4, (u.bytes.drop 4).take 2, (u.bytes.drop 6).take 2,
    (u.bytes.drop 8).take 2, u.bytes.drop 10].map fun b => (Bytes.hex b).toList, ?_, ?_, ?_⟩
  · simp [length_toList_hex, u.size, groups]
  · intro part hpart c hc
    obtain ⟨b, -, rfl⟩ := List.mem_map.mp hpart
    obtain ⟨n, hn, rfl⟩ := Bytes.mem_hex hc
    exact hdigit n hn
  · simp [hyphenated, String.toList_append, List.intercalate]

theorem length_hyphenated (u : Uuid) : u.hyphenated.length = 36 := by
  rw [← String.length_toList]
  simp [hyphenated, String.toList_append, length_toList_hex, u.size]

end Uuid

namespace Image

/-- The first sixteen bytes, or fewer and then zeros. -/
def padded (id : Bytes) : Bytes := id.take 16 ++ List.replicate (16 - id.length) 0

theorem length_padded (id : Bytes) : (padded id).length = 16 := by
  rw [padded, List.length_append, List.length_take, List.length_replicate]
  omega

theorem debugId_eq (id : Bytes) : debugId id = Uuid.ofLittleEndian? (padded id) := by
  rw [debugId, List.take_append, List.take_replicate, padded]
  congr
  omega

variable {id : Bytes}

/-- An image without a build identifier tells its type, its place, its size and its file only. -/
theorem keys?_plainRecord (codeFile : String) (address : Nat) (size : Int32) :
    (plainRecord codeFile address size).keys? =
      some ["type", "image_addr", "image_size", "code_file"] := rfl

theorem record_ok {r : Range} {buildId : Option Bytes} {image : Value}
    (h : record r buildId = .ok image) :
    ∃ size, image = identified (plainRecord (String.ofList r.path) r.start size) buildId := by
  unfold record at h
  cases hsize : extent r with
  | error e => simp [hsize, Except.map] at h
  | ok size =>
    rw [hsize] at h
    exact ⟨size, (Except.ok.inj h).symm⟩

theorem identified_missing (image : Value) {missing : Option Bytes} (h : missing.getD [] = []) :
    identified image missing = image := by
  cases missing with
  | none => rfl
  | some id =>
    obtain rfl : id = [] := h
    rfl

/-- Both identifiers of an image with a build identifier. -/
theorem get_record {r : Range} {image : Value} (h : id ≠ [])
    (himage : record r (some id) = .ok image) :
    ∃ u : Uuid, u.littleEndian = padded id ∧
      image.get "code_id" = .string (Bytes.hex id) ∧
      image.get "debug_id" = .string u.hyphenated := by
  obtain ⟨size, rfl⟩ := record_ok himage
  obtain ⟨u, hu, hbytes⟩ := Uuid.exists_ofLittleEndian? (length_padded id)
  obtain ⟨es, hes⟩ : ∃ es, plainRecord (String.ofList r.path) r.start size = .object es :=
    ⟨_, rfl⟩
  have hrecord : identified (plainRecord (String.ofList r.path) r.start size) (some id) =
      ((Value.object es).set "code_id" (.string (Bytes.hex id))).set "debug_id"
        (.string u.hyphenated) := by
    have hsome : ¬ id.isEmpty = true := by simpa using h
    simp only [identified, hes, hsome, debugId_eq, hu]
    rfl
  have hne : ("debug_id" : String) ≠ "code_id" := by decide
  rw [hrecord, Value.set_object]
  refine ⟨u, hbytes, ?_, ?_⟩
  · rw [Value.get_set_object, if_neg hne, ← Value.set_object, Value.get_set_object, if_pos rfl]
  · rw [Value.get_set_object, if_pos rfl]

theorem hex_injective : Function.Injective Bytes.hex := by
  intro b c h
  have hb := Bytes.unhex?_digitPairs b
  rw [← Bytes.bytes_hex, h, Bytes.bytes_hex, Bytes.unhex?_digitPairs] at hb
  exact (Option.some.inj hb).symm

/-- The code identifier of an image gives its build identifier back, and its debug identifier gives
back the first sixteen bytes of it, filled up with zeros; images share one of them if and only if
they share what it gives back. An image without a build identifier, or with an empty one, has
neither. There is an image of every range that does not end before its start. -/
theorem record_identifiers :
    (∀ (r : Range) (id : Bytes) (image : Value), id ≠ [] → record r (some id) = .ok image →
      ∃ code debug u, image.get "code_id" = .string code ∧
      Bytes.unhex? (Text.bytes code) = some id ∧
      image.get "debug_id" = .string debug ∧ debug.length = 36 ∧
      Uuid.IsHyphenated debug ∧ Uuid.ofText? debug = some u ∧ u.littleEndian = padded id) ∧
    (∀ (r s : Range) (id other : Bytes) (image image' : Value), id ≠ [] → other ≠ [] →
      record r (some id) = .ok image → record s (some other) = .ok image' →
      (image.get "code_id" = image'.get "code_id" ↔ id = other) ∧
      (image.get "debug_id" = image'.get "debug_id" ↔ padded id = padded other)) ∧
    (∀ (r : Range) (missing : Option Bytes) (image : Value), missing.getD [] = [] →
      record r missing = .ok image →
      ∃ keys, image.keys? = some keys ∧ "code_id" ∉ keys ∧ "debug_id" ∉ keys) ∧
    ∀ (r : Range) (buildId : Option Bytes), r.start ≤ r.stop → ∃ image,
      record r buildId = .ok image := by
  refine ⟨fun r id image hid himage => ?_,
    fun r s id other image image' hid hother himage himage' => ?_,
    fun r missing image hmissing himage => ?_, fun r buildId hle => ?_⟩
  · obtain ⟨u, hbytes, hcode, hdebug⟩ := get_record hid himage
    have hback : Bytes.unhex? (Text.bytes (Bytes.hex id)) = some id := by
      rw [Bytes.bytes_hex, Bytes.unhex?_digitPairs]
    exact ⟨_, _, u, hcode, hback, hdebug, u.length_hyphenated, u.isHyphenated_hyphenated,
      u.ofText?_hyphenated, hbytes⟩
  · obtain ⟨u, hu, hcode, hdebug⟩ := get_record hid himage
    obtain ⟨w, hw, hcode', hdebug'⟩ := get_record hother himage'
    rw [hcode, hcode', hdebug, hdebug', ← hu, ← hw]
    simp only [Value.string.injEq, hex_injective.eq_iff, Uuid.hyphenated_injective.eq_iff,
      Uuid.littleEndian_injective.eq_iff, and_self]
  · obtain ⟨size, rfl⟩ := record_ok himage
    rw [identified_missing _ hmissing]
    refine ⟨_, keys?_plainRecord _ _ _, ?_⟩
    decide
  · obtain ⟨image, size, himage, -⟩ := record_of_ordered hle buildId
    exact ⟨image, himage⟩

/-- Two build identifiers of fewer than sixteen bytes that differ by a zero at the end, and none. -/
theorem record_identifiers_short :
    let r : Range := ⟨"/lib/a.so".toList, 0x1000, 0x3000⟩
    ∃ first second plain, record r (some [0xaa, 0xbb]) = .ok first ∧
    record r (some [0xaa, 0xbb, 0]) = .ok second ∧ record r none = .ok plain ∧
    first.get "code_id" ≠ second.get "code_id" ∧
    first.get "debug_id" = .string "0000bbaa-0000-0000-0000-000000000000" ∧
    second.get "debug_id" = .string "0000bbaa-0000-0000-0000-000000000000" ∧
    ∃ keys, plain.keys? = some keys ∧ "code_id" ∉ keys ∧ "debug_id" ∉ keys := by
  intro r
  obtain ⟨-, hsame, hmissing, hexists⟩ := record_identifiers
  obtain ⟨first, hfirst⟩ := hexists r (some [0xaa, 0xbb]) (by decide)
  obtain ⟨second, hsecond⟩ := hexists r (some [0xaa, 0xbb, 0]) (by decide)
  obtain ⟨plain, hplain⟩ := hexists r none (by decide)
  obtain ⟨hcode, hdebug⟩ := hsame r r _ _ first second (by decide) (by decide) hfirst hsecond
  have hguid : first.get "debug_id" = .string "0000bbaa-0000-0000-0000-000000000000" := by
    obtain rfl := Except.ok.inj hfirst
    rfl
  exact ⟨first, second, plain, hfirst, hsecond, hplain, mt hcode.mp (by decide), hguid,
    (hdebug.mpr (by decide)).symm.trans hguid, hmissing r none plain rfl hplain⟩

end Image

end CrashCourier
