import CrashCourier.Text.Quoted
import CrashCourier.Text.Utf8

namespace CrashCourier

structure Buffer where
  /-- All bytes, the last one included. -/
  bytes : Bytes
  nonempty : bytes ≠ []
deriving DecidableEq

namespace Buffer

def content (b : Buffer) : Bytes := b.bytes.dropLast

def capacity (b : Buffer) : Nat := b.bytes.length

/-- The content as a text, if it is well-formed. -/
def text? (b : Buffer) : Option String := Text.ofBytes? b.content

def debugText (b : Buffer) : String := "OwnedBuffer(" ++ Text.quoted (Text.lossy b.content) ++ ")"

def ofText (s : String) : Buffer := ⟨Text.bytes s ++ [0], by simp⟩

@[simp] theorem content_ofText (s : String) : (ofText s).content = Text.bytes s := by
  simp [content, ofText]

theorem text?_ofText (s : String) : (ofText s).text? = some s := by
  simp [text?, Text.ofBytes?_bytes]

end Buffer

end CrashCourier
