import CrashCourier.CallError
import CrashCourier.Engine
import CrashCourier.Managed.OptionsObject
import CrashCourier.Managed.Text

namespace CrashCourier.Startup

open Managed

/-- The directory of the database, next to the outbox. -/
def databaseName : String := ".sentry-native"

/-- The path of the database: what follows the last slash of the outbox is replaced. A path
without a slash is used as it is. -/
def databasePath (outbox : String) : String :=
  let cs := outbox.toList
  if '/' ∈ cs then
    String.ofList (cs.reverse.dropWhile (· ≠ '/')).reverse ++ databaseName
  else outbox

/-- A 32-bit capacity as a count of 64 bits: negative ones are very large. -/
def capacityOf (n : Int32) : Nat :=
  if n.toInt < 0 then (0x10000000000000000 + n.toInt).toNat else n.toInt.toNat

/-- The names of the options that a session needs, as errors give them. -/
def outboxField : String := "outbox path"

def dsnField : String := "dsn"

variable {σ ρ : Type} [Host σ ρ]

def option (object : ρ) (o : TextOption) : StateM σ (Option Buffer) := callForText object o.method

/-- An option, if there is one and its text is well-formed. -/
def optionalText (object : ρ) (o : TextOption) : StateM σ (Option String) := do
  pure ((← option object o).bind Buffer.text?)

def readOptions (object : ρ) : ExceptT CallError (StateM σ) Options := do
  let debug ← asked (Host.callBool object debugMethod)
  let capacity ← asked (Host.callInt object capacityMethod)
  let outbox ← needed outboxField (option object .outboxPath)
  let path ← wellFormed outbox
  let dsn ← needed dsnField (option object .dsn)
  let dsn ← wellFormed dsn
  let release ← ExceptT.lift (optionalText object .release)
  let environment ← ExceptT.lift (optionalText object .environment)
  let dist ← ExceptT.lift (optionalText object .dist)
  pure {
    dsn := some dsn
    databasePath := databasePath path
    debug, release, environment, dist
    maxBreadcrumbs := capacityOf capacity
    autoSessionTracking := false
    transport := some (Transport.toOutbox outbox) }
where
  asked {α : Type} (call : StateM σ (Except Thrown α)) : ExceptT CallError (StateM σ) α :=
    ExceptT.mk do
      match ← call with
      | .ok a => pure (.ok a)
      | .error e => pure (.error (.thrown e))
  needed {α : Type} (field : String) (call : StateM σ (Option α)) :
      ExceptT CallError (StateM σ) α :=
    ExceptT.mk do
      match ← call with
      | some a => pure (.ok a)
      | none => pure (.error (.missing field))
  wellFormed (b : Buffer) : ExceptT CallError (StateM σ) String :=
    match b.text? with
    | some s => pure s
    | none => throw .badEncoding

end CrashCourier.Startup
