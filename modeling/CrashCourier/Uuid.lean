import CrashCourier.Bytes

namespace CrashCourier

structure Uuid where
  bytes : Bytes
  size : bytes.length = 16
deriving DecidableEq

namespace Uuid

def ofBytes? (b : Bytes) : Option Uuid :=
  if h : b.length = 16 then some ⟨b, h⟩ else none

/-- An identifier whose first three fields are stored with their low bytes first. -/
def ofLittleEndian? : Bytes → Option Uuid
  | a₀ :: a₁ :: a₂ :: a₃ :: b₀ :: b₁ :: c₀ :: c₁ :: rest =>
    ofBytes? (a₃ :: a₂ :: a₁ :: a₀ :: b₁ :: b₀ :: c₁ :: c₀ :: rest)
  | _ => none

def simple (u : Uuid) : String := Bytes.hex u.bytes

/-- The sizes in digits of the groups between hyphens. -/
def groups : List Nat := [8, 4, 4, 4, 12]

def hyphenated (u : Uuid) : String :=
  Bytes.hex (u.bytes.take 4) ++ "-" ++ Bytes.hex ((u.bytes.drop 4).take 2) ++ "-"
    ++ Bytes.hex ((u.bytes.drop 6).take 2) ++ "-" ++ Bytes.hex ((u.bytes.drop 8).take 2) ++ "-"
    ++ Bytes.hex (u.bytes.drop 10)

instance : ToString Uuid := ⟨hyphenated⟩

/-- Whether it says that it is random, which is version four. Any variant may say so. -/
def isRandom (u : Uuid) : Bool := u.bytes[6]?.any fun b => b.toNat / 16 = 4

def ofSimple? (digits : Bytes) : Option Uuid := (Bytes.unhex? digits).bind ofBytes?

def hyphen : UInt8 := 0x2d

def ofHyphenated? (text : Bytes) : Option Uuid :=
  let parts := text.splitOn hyphen
  if parts.map List.length = groups then ofSimple? parts.flatten else none

def lowerByte (b : UInt8) : UInt8 := if 0x41 ≤ b ∧ b ≤ 0x5a then b + 0x20 else b

/-- The name before a hyphenated form: `urn:uuid:`. -/
def urnName : Bytes := [0x75, 0x72, 0x6e, 0x3a, 0x75, 0x75, 0x69, 0x64, 0x3a]

/-- The identifier that a text denotes in one of its four forms. -/
def ofText? (s : String) : Option Uuid :=
  let text := Text.bytes s
  if text.length = 32 then ofSimple? text
  else if text.length = 36 then ofHyphenated? text
  else if text.length = 38 ∧ text.head? = some 0x7b ∧ text.getLast? = some 0x7d then
    ofHyphenated? (text.drop 1).dropLast
  else if text.length = 45 ∧ (text.take 9).map lowerByte = urnName then ofHyphenated? (text.drop 9)
  else none

/-- The random identifier that sixteen bytes give, once its version and variant are put in. -/
def ofRandom? (b : Bytes) : Option Uuid :=
  let withVersion := b.modify 6 fun x => x % 16 + 0x40
  ofBytes? (withVersion.modify 8 fun x => x % 64 + 0x80)

/-- The random identifier that holds a number in its last six bytes. -/
def numbered (n : Nat) : Uuid where
  bytes := [0, 0, 0, 0, 0, 0, 0x40, 0, 0x80, 0] ++ Bytes.bigEndian 6 n
  size := by simp [Bytes.bigEndian_length]

end Uuid

end CrashCourier
