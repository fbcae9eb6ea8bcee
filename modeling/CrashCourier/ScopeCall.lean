import CrashCourier.Managed.Text
import CrashCourier.Scope

namespace CrashCourier

/-- The arguments of a call, null for those not given. -/
inductive ScopeCall (ρ : Type) where
  | setTag (key value : Option ρ)
  | removeTag (key : Option ρ)
  | setExtra (key value : Option ρ)
  | removeExtra (key : Option ρ)
  | setUser (id email ipAddress username : Option ρ)
  | removeUser
  | addBreadcrumb (level message category type timestamp data : Option ρ)

namespace ScopeCall

open Managed

def userOf (id email ipAddress username : Option String) : Value :=
  (((Value.emptyObject.setSome "id" id).setSome "email" email).setSome "ip_address"
    ipAddress).setSome "username" username

/-- A breadcrumb with the fields that are known. A time of its own replaces the moment at which it
is made. -/
def crumbOf (moment : String) (level message category type timestamp data : Option String) :
    Value :=
  let crumb := ((Value.breadcrumb moment type message).setSome "category" category).setSome "level"
    level
  let timed := crumb.setSome "timestamp" timestamp
  match data with
  | some text => timed.set "data" (Value.emptyObject.set "data" (.string text))
  | none => timed

variable {σ ρ : Type} [Host σ ρ]

def change? (moment : String) : ScopeCall ρ → StateM σ (Option Scope.Change)
  | setTag key value => do
    let key ← resolve key
    let value ← resolve value
    match key, value with
    | some key, some value => pure (some (.setTag key value))
    | _, _ => pure none
  | removeTag key => do pure ((← resolve key).map .removeTag)
  | setExtra key value => do
    let key ← resolve key
    let value ← resolve value
    match key, value with
    | some key, some value => pure (some (.setExtra key (.string value)))
    | _, _ => pure none
  | removeExtra key => do pure ((← resolve key).map .removeExtra)
  | setUser id email ipAddress username => do
    let id ← resolve id
    let email ← resolve email
    let ipAddress ← resolve ipAddress
    let username ← resolve username
    pure (some (.setUser (userOf id email ipAddress username)))
  | removeUser => pure (some .removeUser)
  | addBreadcrumb level message category type timestamp data => do
    if level.isNone && message.isNone && category.isNone && type.isNone then pure none
    else
      let message ← resolve message
      let type ← resolve type
      let category ← resolve category
      let level ← resolve level
      let timestamp ← resolve timestamp
      let data ← resolve data
      pure (some (.addBreadcrumb (crumbOf moment level message category type timestamp data)))

end ScopeCall

end CrashCourier
