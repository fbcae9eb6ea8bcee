import CrashCourier.Buffer
import CrashCourier.Envelope
import CrashCourier.FileTree

namespace CrashCourier

/-- The moment that it is, what the system has to give, and what was asked of it so far: identifiers
in one series for events and in another for files, and threads for workers. -/
structure Supply where
  moment : String
  eventId : Nat → Uuid
  fileId : Nat → Uuid
  /-- Why the system does not start the `n`-th thread; none where it does. -/
  threadError : Nat → Option FileError := fun _ => none
  events : Nat := 0
  files : Nat := 0
  threads : Nat := 0

/-- A supply that counts, and in which threads are there for all. -/
def Supply.numbered (moment : String) : Supply where
  moment
  eventId := Uuid.numbered
  fileId := Uuid.numbered

/-- What a transport carries for its deliveries. -/
inductive TransportState where
  | numbered (n : Nat)
  | text (s : String)
  | outbox (path : Buffer)
deriving DecidableEq

/-- How a transport gives its state up. -/
inductive Release where
  | recorded
  | outbox
deriving DecidableEq, Repr

inductive Note where
  | sent (envelope : Envelope) (state : Option TransportState) (byWorker : Bool)
  | released (state : TransportState) (through : Option Release)

structure World where
  files : FileTree
  supply : Supply
  /-- Oldest first. -/
  notes : List Note := []

namespace World

def note (w : World) (n : Note) : World := { w with notes := w.notes ++ [n] }

def nextEventId (w : World) : Uuid × World :=
  (w.supply.eventId w.supply.events,
    { w with supply := { w.supply with events := w.supply.events + 1 } })

def nextFileId (w : World) : Uuid × World :=
  (w.supply.fileId w.supply.files,
    { w with supply := { w.supply with files := w.supply.files + 1 } })

/-- Asks the system for a thread. -/
def startThread (w : World) : Except FileError Unit × World :=
  (match w.supply.threadError w.supply.threads with
    | some e => .error e
    | none => .ok (),
    { w with supply := { w.supply with threads := w.supply.threads + 1 } })

def takeNotes (w : World) : List Note × World := (w.notes, { w with notes := [] })

end World

end CrashCourier
