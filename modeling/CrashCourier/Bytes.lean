namespace CrashCourier

abbrev Bytes := List UInt8

def lineFeed : UInt8 := 0x0a

namespace Text

def bytes (s : String) : Bytes := s.toUTF8.data.toList

/-- The text whose UTF-8 bytes these are, if they are well-formed. -/
def ofBytes? (b : Bytes) : Option String := String.fromUTF8? b.toByteArray

def length (s : String) : Nat := s.utf8ByteSize

@[simp] theorem bytes_append (s t : String) : bytes (s ++ t) = bytes s ++ bytes t := by
  simp [bytes, String.toUTF8, String.toByteArray_append]

theorem ofBytes?_bytes (s : String) : ofBytes? (bytes s) = some s := by
  have h : (bytes s).toByteArray = s.toByteArray := ByteArray.ext (by simp [bytes, String.toUTF8])
  simp only [ofBytes?, String.fromUTF8?, h]
  rw [dif_pos s.isValidUTF8]
  rfl

end Text

namespace Bytes

/-- The bytes before the first line feed, and those after it. -/
def splitLine : Bytes → Bytes × Bytes
  | [] => ([], [])
  | b :: rest =>
    if b = lineFeed then ([], rest)
    else
      let (line, after) := splitLine rest
      (b :: line, after)

theorem splitLine_length_le (b : Bytes) : (splitLine b).2.length ≤ b.length := by
  induction b with
  | nil => simp [splitLine]
  | cons b rest ih =>
    simp only [splitLine]
    split
    · simp
    · simp only [List.length_cons]
      omega

theorem splitLine_length_lt {b : Bytes} (h : b ≠ []) : (splitLine b).2.length < b.length := by
  cases b with
  | nil => exact absurd rfl h
  | cons b rest =>
    have := splitLine_length_le rest
    simp only [splitLine]
    split
    · simp
    · simp only [List.length_cons]
      omega

theorem lineFeed_notMem_splitLine (b : Bytes) : lineFeed ∉ (splitLine b).1 := by
  induction b with
  | nil => simp [splitLine]
  | cons b rest ih =>
    simp only [splitLine]
    split
    · simp
    · next h => simp [ih, Ne.symm h]

/-- A line that a line feed ends is split off whole. -/
theorem splitLine_append {line : Bytes} (rest : Bytes) (h : lineFeed ∉ line) :
    splitLine (line ++ lineFeed :: rest) = (line, rest) := by
  induction line with
  | nil => simp [splitLine]
  | cons b line ih =>
    have hb : ¬ b = lineFeed := fun e => h (by simp [e])
    simp [splitLine, hb, ih (fun m => h (by simp [m]))]

theorem splitLine_eq_self {line : Bytes} (h : lineFeed ∉ line) : splitLine line = (line, []) := by
  induction line with
  | nil => rfl
  | cons b line ih =>
    have hb : ¬ b = lineFeed := fun e => h (by simp [e])
    simp [splitLine, hb, ih (fun m => h (by simp [m]))]

def hexDigit (n : Nat) : Char :=
  if n < 10 then Char.ofNat (0x30 + n) else Char.ofNat (0x57 + n)

/-- The value of a digit of base sixteen, of either case. -/
def hexValue? (b : UInt8) : Option Nat :=
  if 0x30 ≤ b ∧ b ≤ 0x39 then some (b.toNat - 0x30)
  else if 0x61 ≤ b ∧ b ≤ 0x66 then some (b.toNat - 0x57)
  else if 0x41 ≤ b ∧ b ≤ 0x46 then some (b.toNat - 0x37)
  else none

def hex (b : Bytes) : String :=
  String.ofList (b.flatMap fun x => [hexDigit (x.toNat / 16), hexDigit (x.toNat % 16)])

def unhex? : Bytes → Option Bytes
  | [] => some []
  | [_] => none
  | high :: low :: rest => do
    let h ← hexValue? high
    let l ← hexValue? low
    let tail ← unhex? rest
    pure (UInt8.ofNat (16 * h + l) :: tail)

/-- Lowercase digits of base sixteen without leading zeros. -/
def hexOfNat (n : Nat) : String := String.ofList (Nat.toDigits 16 n)

/-- The bytes of a number, high bytes first. -/
def bigEndian : Nat → Nat → Bytes
  | 0, _ => []
  | size + 1, n => UInt8.ofNat (n >>> (8 * size)) :: bigEndian size n

theorem bigEndian_length (size n : Nat) : (bigEndian size n).length = size := by
  induction size with
  | zero => rfl
  | succ size ih => simp [bigEndian, ih]

def ofBigEndian (b : Bytes) : Nat := b.foldl (fun n x => 256 * n + x.toNat) 0

end Bytes

end CrashCourier
