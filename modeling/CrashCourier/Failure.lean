import CrashCourier.Envelope
import CrashCourier.FileTree

namespace CrashCourier

namespace EnvelopeError

/-- What is wrong with an envelope whose headers are JSON. -/
def detail : EnvelopeError → String
  | json e => e.text
  | missingHeader => "missing envelope header"
  | headerNotObject => "header is not a JSON object"
  | negativeLength => "negative item length"
  | truncated expected found =>
    "item payload truncated: expected " ++ toString expected ++ " bytes, found " ++ toString found
  | other message => message

def text : EnvelopeError → String
  | json e => "JSON error: " ++ e.text
  | e => "invalid envelope: " ++ e.detail

end EnvelopeError

inductive Failure where
  | files (e : FileError)
  | envelope (e : EnvelopeError)
deriving DecidableEq, Repr

namespace Failure

def text : Failure → String
  | files e => "I/O error: " ++ e.text
  | envelope e => e.text

end Failure

end CrashCourier
