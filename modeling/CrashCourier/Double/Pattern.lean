import CrashCourier.Bytes
import CrashCourier.Double

namespace CrashCourier.Double

def hex (d : Double) : String := Bytes.hex (Bytes.bigEndian 8 d.bits.toNat)

/-- The number with a pattern; none for anything but sixteen digits. -/
def ofHex? (s : String) : Option Double :=
  match Bytes.unhex? (Text.bytes s) with
  | some b => if b.length = 8 then some ⟨UInt64.ofNat (Bytes.ofBigEndian b)⟩ else none
  | none => none

end CrashCourier.Double
