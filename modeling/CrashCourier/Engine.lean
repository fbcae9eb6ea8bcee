import CrashCourier.Failure
import CrashCourier.Options
import CrashCourier.Scope

namespace CrashCourier

structure Session where
  options : Options
  worker : Option Worker

namespace Session

/-- A session whose worker has taken the transport over. -/
def ofOptions (o : Options) : Session :=
  ⟨{ o with transport := none }, o.transport.map Worker.start⟩

end Session

structure Engine where
  scope : Scope := Scope.fresh
  session : Option Session := none

/-- The engine together with what lies around it. -/
structure Site where
  engine : Engine := {}
  world : World

namespace Site

def isRunning (s : Site) : Bool := s.engine.session.isSome

def options (s : Site) : Option Options := s.engine.session.map Session.options

def changeScope (s : Site) (c : Scope.Change) : Site :=
  { s with engine := { s.engine with scope := s.engine.scope.change c } }

/-- Takes the session that runs out of the engine. What starting and ending a session do, from here
on, are steps that happen at once; steps of calls that run side by side may alternate. -/
def withdraw (s : Site) : Option Session × Site :=
  (s.engine.session, { s with engine := { s.engine with session := none } })

/-- Delivers what a session has queued and releases its transport. -/
def retire (session : Session) (s : Site) : Site :=
  match session.worker with
  | some worker => { s with world := worker.stop s.world }
  | none => s

/-- Forgets what the scope holds, and its capacity. -/
def clearScope (s : Site) : Site := { s with engine := { s.engine with scope := Scope.fresh } }

def makeDatabase (path : String) (s : Site) : Except Failure Unit × Site :=
  let (result, files) := s.world.files.makeDirectories path
  (result.mapError .files, { s with world := { s.world with files } })

/-- Starts the thread of the worker that takes a transport over. -/
def startThread (t : Option Transport) (s : Site) : Except Failure Unit × Site :=
  match t with
  | none => (.ok (), s)
  | some _ =>
    let (result, world) := s.world.startThread
    (result.mapError .files, { s with world })

/-- What the system has to do for a session before it can run: its database directory and the
thread of its worker. -/
def prepare (o : Options) (s : Site) : Except Failure Unit × Site :=
  match s.makeDatabase o.databasePath with
  | (.error e, s) => (.error e, s)
  | (.ok (), s) => s.startThread o.transport

/-- Drops a transport that was never used. -/
def dropTransport (t : Option Transport) (s : Site) : Site :=
  { s with world := Transport.dropOption t s.world }

def publish (session : Session) (s : Site) : Site :=
  { s with engine := { s.engine with session := some session } }

/-- Ends the session: what is queued is delivered, the transport is released, and the scope is
fresh again. Without a session nothing changes. -/
def close (s : Site) : Site :=
  match s.withdraw with
  | (none, s) => s
  | (some session, s) => (s.retire session).clearScope

/-- Starts a session after ending the one before. If the system does not prepare it, the options are
dropped and no session runs. -/
def start (s : Site) (o : Options) : Except Failure Unit × Site :=
  match s.close.prepare o with
  | (.error e, s) => (.error e, s.dropTransport o.transport)
  | (.ok (), s) =>
    (.ok (), (s.changeScope (.setCapacity o.maxBreadcrumbs)).publish (Session.ofOptions o))

theorem close_of_not_running {s : Site} (h : s.engine.session = none) : s.close = s := by
  obtain ⟨⟨scope, session⟩, world⟩ := s
  cases h
  rfl

/-- Gives an event an identifier, and defaults for what it lacks. -/
def complete (o : Options) (id : Uuid) (moment : String) (event : Value) : Value :=
  let named := event.set "event_id" (.string id.simple)
  let placed := ((named.setDefault "timestamp" (.string moment)).setDefault "platform"
    (.string "native")).setDefault "level" (.string "error")
  o.defaults.foldl (fun v d =>
    match d.2 with
    | some text => v.setDefault d.1 (.string text)
    | none => v) placed

/-- The envelope in which an event leaves a session. -/
def envelopeOf (o : Options) (scope : Scope) (id : Uuid) (moment : String) (event : Value) :
    Envelope :=
  Envelope.ofEvent (scope.enrich (complete o id moment event)) o.dsn moment

def isObject : Value → Bool
  | .object _ => true
  | _ => false

/-- Queues the envelope of an event in the running session. The answer is the identifier of the
event; none for an event that is no object, and without a session. -/
def capture (s : Site) (event : Value) : Option Uuid × Site :=
  match s.engine.session with
  | none => (none, s)
  | some session =>
    if isObject event then
      let (id, world) := s.world.nextEventId
      let e := envelopeOf session.options s.engine.scope id world.supply.moment event
      let worker := session.worker.map fun wk => wk.enqueue e
      (some id, { engine := { s.engine with session := some { session with worker } }, world })
    else (none, s)

/-- The worker delivers one envelope, if any is queued. It may do so at any time. -/
def work (s : Site) : Site :=
  match s.engine.session with
  | some ⟨options, some worker⟩ =>
    let (worker, world) := worker.step s.world
    { engine := { s.engine with session := some ⟨options, some worker⟩ }, world }
  | _ => s

/-- Delivers what is queued. The answer is whether a worker has done so. -/
def flush (s : Site) : Bool × Site :=
  match s.engine.session with
  | some ⟨options, some worker⟩ =>
    let (worker, world) := worker.drain s.world
    (worker.isRunning,
      { engine := { s.engine with session := some ⟨options, some worker⟩ }, world })
  | _ => (false, s)

/-- Captures an event that is a message, and delivers it. The answer is whether that has been
done. -/
def captureMessage (s : Site) (message : String) : Bool × Site :=
  match s.capture (Value.emptyObject.set "message" (.string message)) with
  | (none, s) => (false, s)
  | (some _, s) => s.flush

end Site

end CrashCourier
