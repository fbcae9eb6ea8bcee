import CrashCourier.World

namespace CrashCourier.Outbox

/-- The most bytes that the path of an envelope may take, the NUL after it included. -/
def pathLimit : Nat := 4096

/-- The bytes that the path of an envelope takes: the outbox, a slash, an identifier, a NUL. -/
def pathSize (outbox : String) : Nat := Text.length outbox + 1 + 36 + 1

def envelopePath (outbox : String) (id : Uuid) : Option String :=
  if pathLimit < pathSize outbox then none else some (outbox ++ "/" ++ id.hyphenated)

/-- Whether a file is named as envelopes are: by a random identifier. -/
def isEnvelopeName (name : String) : Bool :=
  match Uuid.ofText? name with
  | some id => id.hyphenated == name && id.isRandom
  | none => false

/-- Stores an envelope under a fresh name in the outbox that the state names. Without such a state,
or where the file cannot be written, the envelope is lost, and no one is told. -/
def store (e : Envelope) (state : Option TransportState) (w : World) : World :=
  match state with
  | some (.outbox buffer) =>
    match buffer.text? with
    | none => w
    | some outbox =>
      let (id, w') := w.nextFileId
      match envelopePath outbox id with
      | none => w'
      | some path => { w' with files := (w'.files.write path e.wire).2 }
  | _ => w

/-- What is left of a state that the outbox gives up: a path vanishes, and any other state is
dropped as it is. -/
def release (state : TransportState) (w : World) : World :=
  w.note (.released state (some .outbox))

end CrashCourier.Outbox
