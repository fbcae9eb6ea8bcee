import CrashCourier.Outbox

namespace CrashCourier

/-- What becomes of an envelope. -/
inductive Sender where
  | recorded
  | outbox
  /-- Its delivery ends whoever delivers it. -/
  | crashing
deriving DecidableEq, Repr

structure Transport where
  sender : Sender
  state : Option TransportState := none
  onRelease : Option Release := none
deriving DecidableEq

namespace Transport

def toOutbox (path : Buffer) : Transport := ⟨.outbox, some (.outbox path), some .outbox⟩

/-- From now on states are released in this way. -/
def releaseThrough (t : Transport) (r : Release) : Transport := { t with onRelease := some r }

def release (t : Transport) (state : TransportState) (w : World) : World :=
  w.note (.released state t.onRelease)

/-- Attaches a state; one attached before is released. -/
def attach (t : Transport) (state : TransportState) (w : World) : Transport × World :=
  ({ t with state := some state },
    match t.state with
    | some previous => t.release previous w
    | none => w)

def drop (t : Transport) (w : World) : World :=
  match t.state with
  | some state => t.release state w
  | none => w

def dropOption (t : Option Transport) (w : World) : World :=
  match t with
  | some t => t.drop w
  | none => w

/-- Delivers an envelope; none if that ends whoever does it. -/
def send (t : Transport) (e : Envelope) (byWorker : Bool) (w : World) : Option World :=
  match t.sender with
  | .recorded => some (w.note (.sent e t.state byWorker))
  | .outbox => some (Outbox.store e t.state w)
  | .crashing => none

def debugText (t : Transport) : String :=
  "Transport \x7b has_state: " ++ toString t.state.isSome ++ ", has_free_func: "
    ++ toString t.onRelease.isSome ++ " \x7d"

end Transport

/-- Delivers envelopes one after the other, in the order in which they were queued. -/
inductive Worker where
  | running (transport : Transport) (queue : List Envelope)
  /-- A delivery ended it. -/
  | gone

namespace Worker

def start (t : Transport) : Worker := running t []

def enqueue (wk : Worker) (e : Envelope) : Worker :=
  match wk with
  | running t queue => running t (queue ++ [e])
  | gone => gone

def step (wk : Worker) (w : World) : Worker × World :=
  match wk with
  | running t (e :: queue) =>
    match t.send e true w with
    | some w' => (running t queue, w')
    | none => (gone, t.drop w)
  | _ => (wk, w)

def deliver (t : Transport) : List Envelope → World → Worker × World
  | [], w => (running t [], w)
  | e :: queue, w =>
    match t.send e true w with
    | some w' => deliver t queue w'
    | none => (gone, t.drop w)

def drain (wk : Worker) (w : World) : Worker × World :=
  match wk with
  | running t queue => deliver t queue w
  | gone => (gone, w)

def isRunning : Worker → Bool
  | running _ _ => true
  | gone => false

def stop (wk : Worker) (w : World) : World :=
  match wk.drain w with
  | (running t _, w') => t.drop w'
  | (gone, w') => w'

end Worker

end CrashCourier
