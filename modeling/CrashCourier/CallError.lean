import CrashCourier.Failure
import CrashCourier.Managed.Host

namespace CrashCourier

inductive CallError where
  /-- A value that the call needs is not there. -/
  | missing (field : String)
  | badEncoding
  | pathTooLong (size limit : Nat)
  | notAllocated (className : String)
  | thrown (e : Managed.Thrown)
  | failed (e : Failure)
deriving DecidableEq, Repr

namespace CallError

def text : CallError → String
  | missing field => "missing required value: " ++ field
  | badEncoding => "invalid string encoding"
  | pathTooLong size limit =>
    "path too long: " ++ toString size ++ " bytes, limit " ++ toString limit
  | notAllocated className => "managed allocation failed: " ++ className
  | thrown e => "managed exception: " ++ e.message
  | failed e => "engine error: " ++ e.text

end CallError

end CrashCourier
