import CrashCourier.Proofs.Text.Ascii
import CrashCourier.Uuid

namespace CrashCourier

namespace Bytes

def digitOf (n : Nat) : UInt8 := UInt8.ofNat (hexDigit n).toNat

def digitPairs (b : Bytes) : Bytes :=
  b.flatMap fun x => [digitOf (x.toNat / 16), digitOf (x.toNat % 16)]

theorem hexValue?_digitOf : ∀ n < 16, hexValue? (digitOf n) = some n := by decide

theorem mem_hex {b : Bytes} {c : Char} (h : c ∈ (hex b).toList) : ∃ n < 16, c = hexDigit n := by
  rw [hex, String.toList_ofList, List.mem_flatMap] at h
  obtain ⟨x, -, hc⟩ := h
  have hx : x.toNat < 256 := x.toNat_lt
  simp only [List.mem_cons, List.not_mem_nil, or_false] at hc
  rcases hc with rfl | rfl
  · exact ⟨_, by omega, rfl⟩
  · exact ⟨_, by omega, rfl⟩

theorem bytes_hex (b : Bytes) : Text.bytes (hex b) = digitPairs b := by
  have hascii : ∀ c ∈ (b.flatMap fun x => [hexDigit (x.toNat / 16), hexDigit (x.toNat % 16)]),
      c.toNat < 0x80 := by
    intro c hc
    have hall : ∀ n < 16, (hexDigit n).toNat < 0x80 := by decide
    obtain ⟨n, hn, rfl⟩ := mem_hex (b := b) (by rwa [hex, String.toList_ofList])
    exact hall n hn
  rw [hex, Text.bytes_ofList_ascii hascii, digitPairs, List.map_flatMap]
  rfl

theorem length_digitPairs (b : Bytes) : (digitPairs b).length = 2 * b.length := by
  induction b with
  | nil => rfl
  | cons x b ih =>
    simp only [digitPairs, List.flatMap_cons, List.length_append, List.length_cons,
      List.length_nil] at ih ⊢
    omega

theorem unhex?_digitPairs (b : Bytes) : unhex? (digitPairs b) = some b := by
  induction b with
  | nil => rfl
  | cons x b ih =>
    have hx : x.toNat < 256 := x.toNat_lt
    have hhigh := hexValue?_digitOf (x.toNat / 16) (by omega)
    have hlow := hexValue?_digitOf (x.toNat % 16) (by omega)
    have hbyte : 16 * (x.toNat / 16) + x.toNat % 16 = x.toNat := by omega
    have hcons : digitPairs (x :: b) =
        digitOf (x.toNat / 16) :: digitOf (x.toNat % 16) :: digitPairs b := rfl
    simp only [hcons, unhex?, hhigh, hlow, ih, hbyte, Option.bind_eq_bind, Option.bind_some,
      UInt8.ofNat_toNat]
    rfl

theorem digitPairs_append (b c : Bytes) : digitPairs (b ++ c) = digitPairs b ++ digitPairs c :=
  List.flatMap_append

theorem hyphen_notMem_digitPairs (b : Bytes) : Uuid.hyphen ∉ digitPairs b := by
  have hne : ∀ n < 16, Uuid.hyphen ≠ digitOf n := by decide
  intro h
  obtain ⟨x, -, hx⟩ := List.mem_flatMap.mp h
  have hlt : x.toNat < 256 := x.toNat_lt
  simp only [List.mem_cons, List.not_mem_nil, or_false] at hx
  rcases hx with hx | hx
  · exact hne _ (by omega) hx
  · exact hne _ (by omega) hx

end Bytes

namespace Uuid

open Bytes

theorem ofSimple?_digitPairs (u : Uuid) : ofSimple? (digitPairs u.bytes) = some u := by
  rw [ofSimple?, unhex?_digitPairs]
  simp [ofBytes?, u.size]

theorem ofText?_simple (u : Uuid) : ofText? u.simple = some u := by
  have hlength : (digitPairs u.bytes).length = 32 := by rw [length_digitPairs, u.size]
  unfold ofText? simple
  simp only [bytes_hex, hlength, ↓reduceIte]
  exact u.ofSimple?_digitPairs

theorem bytes_hyphenated (u : Uuid) : Text.bytes u.hyphenated =
    digitPairs (u.bytes.take 4) ++ hyphen :: (digitPairs ((u.bytes.drop 4).take 2) ++ hyphen ::
      (digitPairs ((u.bytes.drop 6).take 2) ++ hyphen :: (digitPairs ((u.bytes.drop 8).take 2) ++
        hyphen :: digitPairs (u.bytes.drop 10)))) := by
  have hhyphen : Text.bytes "-" = [hyphen] := by decide
  simp [hyphenated, bytes_hex, hhyphen]

theorem length_bytes_hyphenated (u : Uuid) : (Text.bytes u.hyphenated).length = 36 := by
  rw [bytes_hyphenated]
  simp [length_digitPairs, u.size]

theorem ofText?_hyphenated (u : Uuid) : ofText? u.hyphenated = some u := by
  have hsplit : (Text.bytes u.hyphenated).splitOn hyphen =
      [digitPairs (u.bytes.take 4), digitPairs ((u.bytes.drop 4).take 2),
        digitPairs ((u.bytes.drop 6).take 2), digitPairs ((u.bytes.drop 8).take 2),
        digitPairs (u.bytes.drop 10)] := by
    rw [bytes_hyphenated]
    iterate 4 rw [List.splitOn_append_cons_self_of_not_mem (hyphen_notMem_digitPairs _)]
    rw [List.splitOn_eq_singleton (hyphen_notMem_digitPairs _)]
  have hlengths : ((Text.bytes u.hyphenated).splitOn hyphen).map List.length = groups := by
    rw [hsplit]
    simp [length_digitPairs, u.size, groups]
  have hflatten : ((Text.bytes u.hyphenated).splitOn hyphen).flatten = digitPairs u.bytes := by
    rw [hsplit]
    simp only [List.flatten_cons, List.flatten_nil, List.append_nil, ← digitPairs_append]
    have hgroup : ∀ n m, (u.bytes.drop n).take m ++ u.bytes.drop (n + m) = u.bytes.drop n := by
      intro n m
      rw [← List.drop_drop, List.take_append_drop]
    rw [hgroup 8 2, hgroup 6 2, hgroup 4 2, List.take_append_drop]
  have hread : ofHyphenated? (Text.bytes u.hyphenated) = some u := by
    rw [ofHyphenated?, if_pos hlengths, hflatten]
    exact u.ofSimple?_digitPairs
  unfold ofText?
  simp only [length_bytes_hyphenated, Nat.reduceEqDiff, ↓reduceIte]
  exact hread

theorem mem_hyphenated {u : Uuid} {c : Char} (h : c ∈ u.hyphenated.toList) :
    c = '-' ∨ ∃ n < 16, c = Bytes.hexDigit n := by
  have hhyphen : ∀ c ∈ "-".toList, c = '-' := by simp
  simp only [hyphenated, String.toList_append, List.mem_append] at h
  grind [mem_hex]

theorem hyphenated_injective : Function.Injective hyphenated := fun u v h => by
  have hsome := (ofText?_hyphenated u).symm.trans (h ▸ ofText?_hyphenated v)
  exact Option.some.inj hsome

end Uuid

end CrashCourier
