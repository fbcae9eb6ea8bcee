import CrashCourier.Bytes

namespace CrashCourier.Managed

/-- A call into the managed side raised an exception. -/
structure Thrown where
  message : String
deriving DecidableEq, Repr

inductive Argument (ρ : Type) where
  | reference (r : Option ρ)
  | long (n : Int64)

/-- The calls that the managed side offers. A reference stays valid until it is deleted, which is
to happen once to each that a call returned. -/
class Host (σ : Type) (ρ : outParam Type) where
  /-- The number of bytes of a text in its encoded form. -/
  textLength : ρ → StateM σ Nat
  /-- Writes the encoded form of a text over a slice of its size. An exception may leave anything in
  the slice. -/
  writeText : ρ → (slice : Bytes) →
    StateM σ (Except Thrown Unit × { b : Bytes // b.length = slice.length })
  newText : String → StateM σ (Option ρ)
  /-- Calls a method that returns a text or null. -/
  callText : ρ → String → StateM σ (Except Thrown (Option ρ))
  callBool : ρ → String → StateM σ (Except Thrown Bool)
  callInt : ρ → String → StateM σ (Except Thrown Int32)
  callSetter : ρ → String → Argument ρ → StateM σ (Except Thrown Unit)
  newObject : String → StateM σ (Option ρ)
  /-- An array of a class with so many empty slots. -/
  newArray : String → Nat → StateM σ (Option ρ)
  setElement : ρ → Nat → ρ → StateM σ (Except Thrown Unit)
  delete : ρ → StateM σ Unit

end CrashCourier.Managed
