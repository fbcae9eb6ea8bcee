import CrashCourier.Engine
import CrashCourier.Proofs.Delivery.WorkerThread
import Mathlib.Logic.Function.Basic

namespace CrashCourier.Delivery

/-- The session that runs: its options, and its worker if it has a transport. -/
structure Running where
  options : Options
  worker : Option Nat

/-- How far the call of a thread is. A session is ended by a call that only ends it, or by one that
then starts a session with the options `next`. -/
inductive Call where
  | idle
  | capturing (worker : Option Nat) (e : Envelope)
  | flushing (worker ticket : Nat)
  | ending (worker : Option Nat) (next : Option Options)
  | draining (worker ticket : Nat) (next : Option Options)
  | drained (worker : Nat) (next : Option Options)
  | joining (worker : Nat) (next : Option Options)
  | clearing (worker : Option Nat) (next : Option Options)
  | making (o : Options)
  | spawning (o : Options)
  | refused (t : Option Transport)
  | sizing (o : Options) (worker : Option Nat)
  | publishing (o : Options) (worker : Option Nat)
  /-- The session that was replaced is on its way out. -/
  | replacing (worker : Nat)

namespace Call

def reads : Call → Bool
  | capturing _ _ => true
  | flushing _ _ => true
  | _ => false

/-- A worker that the call uses while it keeps the running session from being changed. -/
def borrows : Call → Option Nat
  | capturing worker _ => worker
  | flushing worker _ => some worker
  | _ => none

/-- A worker whose sending end only this call has. -/
def holds : Call → Option Nat
  | ending worker _ => worker
  | draining worker _ _ => some worker
  | drained worker _ => some worker
  | sizing _ worker => worker
  | publishing _ worker => worker
  | _ => none

/-- What a call does once the session before is gone. -/
def afterEnd : Option Options → Call
  | none => idle
  | some o => making o

end Call

structure Runtime where
  scope : Scope
  world : World
  running : Option Running := none
  /-- One worker for each session so far that had a transport. -/
  workers : List WorkerThread := []
  calls : Nat → Call := fun _ => .idle
  count : Nat := 0

namespace Runtime

def call (s : Runtime) (c : Nat) (x : Call) : Runtime :=
  { s with calls := Function.update s.calls c x }

def inWorld (s : Runtime) (w : World) : Runtime := { s with world := w }

def setWorker (s : Runtime) (i : Nat) (l : WorkerThread) : Runtime :=
  { s with workers := s.workers.set i l }

def closeWorker (s : Runtime) (worker : Option Nat) : Runtime :=
  match worker.bind fun i => s.workers[i]?.map fun l => (i, l) with
  | some (i, l) => s.setWorker i { l with closed := true }
  | none => s

def counted (s : Runtime) : Runtime := { s with count := s.count + 1 }

def addWorker (s : Runtime) (t : Transport) : Runtime :=
  { s with workers := s.workers ++ [{ transport := t }] }

def run (s : Runtime) (r : Option Running) : Runtime := { s with running := r }

def changeScope (s : Runtime) (c : Scope.Change) : Runtime := { s with scope := s.scope.change c }

def clearScope (s : Runtime) : Runtime := { s with scope := Scope.fresh }

def runningWorker (s : Runtime) : Option Nat := s.running.bind Running.worker

def isUnread (s : Runtime) : Prop := ∀ c, (s.calls c).reads = false

/-- What a call does after it has published a session in the place of another. -/
def afterPublish (s : Runtime) : Call :=
  match s.runningWorker with
  | some i => .replacing i
  | none => .idle

inductive Step (s : Runtime) : Option Event → Runtime → Prop where
  | mutate (x : Scope.Change) : Step s none (s.changeScope x)
  /-- Whatever else goes on in the world. -/
  | around (w : World) (notes : w.notes = s.world.notes) : Step s none (s.inWorld w)
  | capture (c : Nat) (r : Running) (event : Value) (idle : s.calls c = .idle)
      (running : s.running = some r) (object : Site.isObject event = true) :
      Step s none
        ((s.inWorld s.world.nextEventId.2).call c
          (.capturing r.worker (Site.envelopeOf r.options s.scope s.world.nextEventId.1
            s.world.nextEventId.2.supply.moment event)))
  | queue (c i : Nat) (l : WorkerThread) (e : Envelope) (here : s.calls c = .capturing (some i) e)
      (worker : s.workers[i]? = some l) :
      Step s (some (.captured i ⟨s.count, e⟩))
        ((s.counted.setWorker i
          { l with queue := l.queue ++ [.deliver ⟨s.count, e⟩] }).call c .idle)
  | lose (c : Nat) (e : Envelope) (here : s.calls c = .capturing none e) :
      Step s none (s.call c .idle)
  | flush (c i : Nat) (l : WorkerThread) (idle : s.calls c = .idle)
      (running : s.runningWorker = some i) (worker : s.workers[i]? = some l) :
      Step s (some (.flushCalled i l.asked))
        ((s.setWorker i
          { l with queue := l.queue ++ [.answer l.asked], asked := l.asked + 1 }).call c
          (.flushing i l.asked))
  | flushed (c i k : Nat) (l : WorkerThread) (here : s.calls c = .flushing i k)
      (worker : s.workers[i]? = some l) (answer : k ∈ l.answered) :
      Step s (some (.flushReturned i k true)) (s.call c .idle)
  | flushTimedOut (c i k : Nat) (here : s.calls c = .flushing i k) :
      Step s (some (.flushReturned i k false)) (s.call c .idle)
  | withdraw (c : Nat) (r : Running) (next : Option Options) (idle : s.calls c = .idle)
      (running : s.running = some r) (unread : s.isUnread) :
      Step s none ((s.run none).call c (.ending r.worker next))
  | withdrawNothing (c : Nat) (o : Options) (idle : s.calls c = .idle) (running : s.running = none)
      (unread : s.isUnread) : Step s none (s.call c (.making o))
  | drain (c i : Nat) (l : WorkerThread) (next : Option Options)
      (here : s.calls c = .ending (some i) next) (worker : s.workers[i]? = some l) :
      Step s (some (.flushCalled i l.asked))
        ((s.setWorker i
          { l with queue := l.queue ++ [.answer l.asked], asked := l.asked + 1 }).call c
          (.draining i l.asked next))
  | endBare (c : Nat) (next : Option Options) (here : s.calls c = .ending none next) :
      Step s none (s.call c (.clearing none next))
  | drained (c i k : Nat) (l : WorkerThread) (next : Option Options)
      (here : s.calls c = .draining i k next) (worker : s.workers[i]? = some l)
      (answer : k ∈ l.answered) :
      Step s (some (.flushReturned i k true)) (s.call c (.drained i next))
  | drainTimedOut (c i k : Nat) (next : Option Options) (here : s.calls c = .draining i k next) :
      Step s (some (.flushReturned i k false)) (s.call c (.drained i next))
  | hangUp (c i : Nat) (next : Option Options) (here : s.calls c = .drained i next) :
      Step s none ((s.call c (.joining i next)).closeWorker (some i))
  | join (c i : Nat) (l : WorkerThread) (next : Option Options) (here : s.calls c = .joining i next)
      (worker : s.workers[i]? = some l) (ended : l.ended = true) :
      Step s none (s.call c (.clearing (some i) next))
  | clear (c : Nat) (worker : Option Nat) (next : Option Options)
      (here : s.calls c = .clearing worker next) :
      Step s (worker.map .closeReturned) (s.clearScope.call c (.afterEnd next))
  | make (c : Nat) (o : Options) (files : FileTree) (here : s.calls c = .making o)
      (made : s.world.files.makeDirectories o.databasePath = (.ok (), files)) :
      Step s none ((s.inWorld { s.world with files }).call c (.spawning o))
  | makeFailed (c : Nat) (o : Options) (e : FileError) (files : FileTree)
      (here : s.calls c = .making o)
      (failed : s.world.files.makeDirectories o.databasePath = (.error e, files)) :
      Step s none ((s.inWorld { s.world with files }).call c (.refused o.transport))
  | spawn (c : Nat) (o : Options) (t : Transport) (here : s.calls c = .spawning o)
      (transport : o.transport = some t) :
      Step s (some (.started s.workers.length t))
        ((s.addWorker t).call c (.sizing o (some s.workers.length)))
  | spawnNothing (c : Nat) (o : Options) (here : s.calls c = .spawning o)
      (transport : o.transport = none) : Step s none (s.call c (.sizing o none))
  | spawnFailed (c : Nat) (o : Options) (here : s.calls c = .spawning o) :
      Step s none (s.call c (.refused o.transport))
  | refuse (c : Nat) (t : Option Transport) (here : s.calls c = .refused t) :
      Step s (t.map .discarded)
        ((s.inWorld (Transport.dropOption t s.world)).call c .idle)
  | size (c : Nat) (o : Options) (worker : Option Nat) (here : s.calls c = .sizing o worker) :
      Step s none ((s.changeScope (.setCapacity o.maxBreadcrumbs)).call c (.publishing o worker))
  | publish (c : Nat) (o : Options) (worker : Option Nat) (here : s.calls c = .publishing o worker)
      (unread : s.isUnread) :
      Step s none
        ((((s.run none).closeWorker s.runningWorker).run
          (some ⟨{ o with transport := none }, worker⟩)).call c s.afterPublish)
  | replaced (c i : Nat) (l : WorkerThread) (here : s.calls c = .replacing i)
      (worker : s.workers[i]? = some l) (ended : l.ended = true) :
      Step s (some (.closeReturned i)) (s.call c .idle)
  | take (i : Nat) (l : WorkerThread) (p : QueuedEnvelope) (q : List Task)
      (worker : s.workers[i]? = some l) (idle : l.busy = none) (queue : l.queue = .deliver p :: q) :
      Step s (some (.handed i l.transport p)) (s.setWorker i { l with queue := q, busy := some p })
  | finish (i : Nat) (l : WorkerThread) (p : QueuedEnvelope) (w : World)
      (worker : s.workers[i]? = some l) (working : l.busy = some p)
      (sent : l.transport.send p.envelope true s.world = some w) :
      Step s (some (.sent i l.transport p))
        ((s.inWorld w).setWorker i { l with busy := none })
  | answer (i : Nat) (l : WorkerThread) (k : Nat) (q : List Task) (worker : s.workers[i]? = some l)
      (idle : l.busy = none) (queue : l.queue = .answer k :: q) :
      Step s none (s.setWorker i { l with queue := q, answered := k :: l.answered })
  /-- The channel is empty and its sending end gone: the worker drops the transport. -/
  | leave (i : Nat) (l : WorkerThread) (worker : s.workers[i]? = some l) (idle : l.busy = none)
      (empty : l.queue = []) (closed : l.closed = true) (present : l.ended = false) :
      Step s (some (.released i l.transport))
        ((s.inWorld (l.transport.drop s.world)).setWorker i { l with ended := true })

/-- A run tells its events in the order in which they happen. -/
inductive Run (s : Runtime) : List Event → Runtime → Prop where
  | start : Run s [] s
  | step {tr : List Event} {ev : Option Event} {t u : Runtime} (run : Run s tr t)
      (step : Step t ev u) : Run s (tr ++ ev.toList) u

/-- An engine that never ran a session, and no call under way. -/
def initial (scope : Scope) (w : World) : Runtime := { scope, world := w }

end Runtime

end CrashCourier.Delivery
