import CrashCourier.Decimal.Layout
import CrashCourier.Json.Mark
import CrashCourier.Value

namespace CrashCourier.Json

/-- What is written between the parts of a list or an object. -/
structure Spacing where
  /-- Before an item or a closing bracket at a depth. -/
  lineBreak : Nat → Bytes
  afterColon : Bytes

namespace Spacing

def compact : Spacing := ⟨fun _ => [], []⟩

def indented : Spacing := ⟨fun depth => 0x0a :: List.replicate (2 * depth) 0x20, [0x20]⟩

end Spacing

/-- Numbers are positional from `1e-5` to `1e15`, always with a point, and otherwise have an
exponent with its sign. -/
def numberLayout : Decimal.Layout := ⟨-5, 15, ".0", "e+", "e-"⟩

def hexDigitByte (n : Nat) : UInt8 :=
  if n < 10 then UInt8.ofNat (0x30 + n) else UInt8.ofNat (0x57 + n)

/-- Quotes, backslashes and control characters are escaped; all other bytes stand for themselves. -/
def escapeByte (b : UInt8) : Bytes :=
  if b = quote then [backslash, quote]
  else if b = backslash then [backslash, backslash]
  else if b = 0x08 then [backslash, 0x62]
  else if b = 0x09 then [backslash, 0x74]
  else if b = 0x0a then [backslash, 0x6e]
  else if b = 0x0c then [backslash, 0x66]
  else if b = 0x0d then [backslash, 0x72]
  else if b < 0x20 then
    [backslash, unicodeMark, zeroDigit, zeroDigit, hexDigitByte (b.toNat / 16),
      hexDigitByte (b.toNat % 16)]
  else [b]

def writeText (s : String) : Bytes := quote :: ((Text.bytes s).flatMap escapeByte ++ [quote])

def writeDouble (d : Double) : Bytes :=
  if d.isFinite then Text.bytes (numberLayout.text d) else nullWord

def writeInt (n : Int32) : Bytes := Text.bytes (toString n.toInt)

mutual

def write (spacing : Spacing) (depth : Nat) : Value → Bytes
  | .null => nullWord
  | .bool b => if b then trueWord else falseWord
  | .int n => writeInt n
  | .double d => writeDouble d
  | .string s => writeText s
  | .list [] => [openList, closeList]
  | .list (x :: xs) =>
    openList :: (spacing.lineBreak (depth + 1) ++ write spacing (depth + 1) x
      ++ writeItems spacing (depth + 1) xs ++ spacing.lineBreak depth ++ [closeList])
  | .object [] => [openObject, closeObject]
  | .object ((key, x) :: es) =>
    openObject :: (spacing.lineBreak (depth + 1) ++ writeText key ++ colon :: spacing.afterColon
      ++ write spacing (depth + 1) x ++ writeEntries spacing (depth + 1) es
      ++ spacing.lineBreak depth ++ [closeObject])

def writeItems (spacing : Spacing) (depth : Nat) : List Value → Bytes
  | [] => []
  | x :: xs =>
    comma :: (spacing.lineBreak depth ++ write spacing depth x) ++ writeItems spacing depth xs

def writeEntries (spacing : Spacing) (depth : Nat) : List (String × Value) → Bytes
  | [] => []
  | (key, x) :: es =>
    comma :: (spacing.lineBreak depth ++ writeText key ++ colon :: spacing.afterColon
      ++ write spacing depth x) ++ writeEntries spacing depth es

end

def compact (v : Value) : Bytes := write .compact 0 v

def pretty (v : Value) : Bytes := write .indented 0 v

end CrashCourier.Json
