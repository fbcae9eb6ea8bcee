import CrashCourier.Buffer
import CrashCourier.Managed.Host

namespace CrashCourier.Managed

variable {σ ρ : Type} [Host σ ρ]

/-- Sizes keep within 64 bits. -/
def sizeLimit : Nat := 0x10000000000000000

/-- Writes a text and a NUL over the start of a buffer. Says whether it did, and what the buffer
holds now: the text is converted in a slice of its own, so that a failure changes nothing. -/
def copyInto (source : ρ) (buffer : Bytes) : StateM σ (Bool × Bytes) := do
  let n ← Host.textLength source
  if buffer.length ≤ n then pure (false, buffer)
  else
    let (result, staged) ← Host.writeText source (List.replicate n 0)
    match result with
    | .error _ => pure (false, buffer)
    | .ok () => pure (true, (staged.val ++ buffer.drop n).set n 0)

def toBuffer (source : ρ) : StateM σ (Option Buffer) := do
  let n ← Host.textLength source
  if sizeLimit ≤ n + 1 then pure none
  else
    let (copied, bytes) ← copyInto source (List.replicate (n + 1) 0)
    pure (if h : copied ∧ bytes ≠ [] then some ⟨bytes, h.2⟩ else none)

/-- The text of a reference; none for null, for a text that cannot be converted, and for bytes
that are not well-formed. -/
def resolve (source : Option ρ) : StateM σ (Option String) := do
  match source with
  | none => pure none
  | some r => pure ((← toBuffer r).bind Buffer.text?)

/-- Uses a reference, if there is one, and gives it back. -/
def using? {α : Type} (r : Option ρ) (use : Option ρ → StateM σ α) : StateM σ α := do
  let result ← use r
  match r with
  | some r => Host.delete r
  | none => pure ()
  pure result

/-- The text that a method returns, in a buffer. A null, an exception and a text that cannot be
converted are no text. -/
def callForText (object : ρ) (method : String) : StateM σ (Option Buffer) := do
  match ← Host.callText object method with
  | .error _ => pure none
  | .ok returned =>
    using? returned fun r =>
      match r with
      | some r => toBuffer r
      | none => pure none

end CrashCourier.Managed
