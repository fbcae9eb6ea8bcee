import CrashCourier.Bytes

namespace CrashCourier.Text

theorem bytes_ofList (cs : List Char) :
    bytes (String.ofList cs) = cs.flatMap String.utf8EncodeChar := by
  simp [bytes, String.toUTF8, List.utf8Encode]

theorem utf8EncodeChar_of_lt {c : Char} (h : c.toNat < 0x80) :
    String.utf8EncodeChar c = [UInt8.ofNat c.toNat] := by
  have hv : c.val.toNat ≤ 127 := by
    have : c.toNat = c.val.toNat := rfl
    omega
  simp only [String.utf8EncodeChar, hv, ↓reduceIte]
  rfl

theorem bytes_ofList_ascii {cs : List Char} (h : ∀ c ∈ cs, c.toNat < 0x80) :
    bytes (String.ofList cs) = cs.map fun c => UInt8.ofNat c.toNat := by
  rw [bytes_ofList]
  induction cs with
  | nil => rfl
  | cons c cs ih =>
    have hc := utf8EncodeChar_of_lt (h c (by simp))
    have hcs := ih fun d hd => h d (List.mem_cons_of_mem _ hd)
    simp [hc, hcs]

theorem length_eq_length_bytes (s : String) : length s = (bytes s).length := by
  rw [length, bytes, Array.length_toList]
  rfl

end CrashCourier.Text
