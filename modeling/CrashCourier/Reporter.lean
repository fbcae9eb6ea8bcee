import CrashCourier.Image.Catalog
import CrashCourier.Image.Loading
import CrashCourier.LastErrors
import CrashCourier.ScopeCall
import CrashCourier.Startup

namespace CrashCourier

open Managed

structure Reporter where
  site : Site
  images : Image.Catalog := {}
  lastErrors : LastErrors := {}

namespace Reporter

variable {σ ρ : Type} [Host σ ρ]

/-- A request of the managed side, which may call back. -/
abbrev Request (σ α : Type) := StateT Reporter (StateM σ) α

def ask {α : Type} (call : StateM σ α) : Request σ α := StateT.lift call

def changeSite {α : Type} (f : Site → α × Site) : Request σ α :=
  modifyGet fun r =>
    let (a, site) := f r.site
    (a, { r with site })

/-- Starts a session with the options of a managed object. A failure is recorded for the thread
that asked. -/
def startFrom (thread : Nat) (object : ρ) : Request σ Unit := do
  modify fun r => { r with lastErrors := r.lastErrors.clear thread }
  match ← ask (Startup.readOptions object).run with
  | .error e => fail e
  | .ok options =>
    match ← changeSite fun s => s.start options with
    | .error e => fail (.failed e)
    | .ok () => pure ()
where
  fail (e : CallError) : Request σ Unit :=
    modify fun r => { r with lastErrors := r.lastErrors.record thread e.text }

def shutDown : Request σ Unit := changeSite fun s => ((), s.close)

def changeScope (call : ScopeCall ρ) : Request σ Unit := do
  let moment := (← get).site.world.supply.moment
  match ← ask (call.change? moment) with
  | some change => changeSite fun s => ((), s.changeScope change)
  | none => pure ()

def imageList : Request σ (Except Image.Overflow Value) :=
  modifyGet fun r =>
    let (v, images) := r.images.list r.site.world.files
    (v, { r with images })

def loadImages : Request σ (Except Image.Overflow (Option ρ)) := do
  match ← imageList with
  | .ok images => return .ok (← ask (Image.load images))
  | .error e => return .error e

/-- Hands an event over to an outbox in an envelope of its own. The state says which outbox. -/
def deliver (event : Value) (dsn : Option String) (state : Option TransportState) :
    Request σ Unit :=
  changeSite fun s =>
    ((), { s with
      world := Outbox.store (Envelope.ofEvent event dsn s.world.supply.moment) state s.world })

end Reporter

end CrashCourier
