import CrashCourier.KeyTable
import CrashCourier.Value

namespace CrashCourier

structure Scope where
  tags : KeyTable String := KeyTable.empty
  extra : KeyTable Value := KeyTable.empty
  user : Option Value := none
  /-- Oldest first. -/
  breadcrumbs : List Value := []
  capacity : Nat := 100

namespace Scope

def fresh : Scope := {}

/-- The last `capacity` of some breadcrumbs. -/
def newest (capacity : Nat) (crumbs : List Value) : List Value :=
  crumbs.drop (crumbs.length - capacity)

theorem newest_length_le (capacity : Nat) (crumbs : List Value) :
    (newest capacity crumbs).length ≤ capacity := by
  simp only [newest, List.length_drop]
  omega

inductive Change where
  | setTag (key value : String)
  | removeTag (key : String)
  | setExtra (key : String) (value : Value)
  | removeExtra (key : String)
  | setUser (user : Value)
  | removeUser
  | addBreadcrumb (crumb : Value)
  | setCapacity (capacity : Nat)

def setTag (s : Scope) (key value : String) : Scope := { s with tags := s.tags.insert key value }

def removeTag (s : Scope) (key : String) : Scope := { s with tags := s.tags.erase key }

def setExtra (s : Scope) (key : String) (value : Value) : Scope :=
  { s with extra := s.extra.insert key value }

def removeExtra (s : Scope) (key : String) : Scope := { s with extra := s.extra.erase key }

def setUser (s : Scope) (user : Value) : Scope := { s with user := some user }

def removeUser (s : Scope) : Scope := { s with user := none }

/-- Adds a breadcrumb; the oldest ones give way. -/
def addBreadcrumb (s : Scope) (crumb : Value) : Scope :=
  { s with breadcrumbs := newest s.capacity (s.breadcrumbs ++ [crumb]) }

def setCapacity (s : Scope) (capacity : Nat) : Scope :=
  { s with capacity, breadcrumbs := newest capacity s.breadcrumbs }

def change (s : Scope) : Change → Scope
  | .setTag key value => s.setTag key value
  | .removeTag key => s.removeTag key
  | .setExtra key value => s.setExtra key value
  | .removeExtra key => s.removeExtra key
  | .setUser user => s.setUser user
  | .removeUser => s.removeUser
  | .addBreadcrumb crumb => s.addBreadcrumb crumb
  | .setCapacity capacity => s.setCapacity capacity

def changes (s : Scope) (cs : List Change) : Scope := cs.foldl change s

/-- The object that an event has under a key; an empty one if it has none. -/
def objectAt (event : Value) (key : String) : Value :=
  match event.get key with
  | .object es => .object es
  | _ => Value.emptyObject

/-- Adds rows under a key of an event where it has no values of its own. -/
def addRows (event : Value) (key : String) (rows : List (String × Value)) : Value :=
  if rows.isEmpty then event
  else event.set key (rows.foldl (fun o r => o.setDefault r.1 r.2) (objectAt event key))

def tagRows (s : Scope) : List (String × Value) := s.tags.rows.map fun r => (r.1, .string r.2)

def addUser (event : Value) : Option Value → Value
  | some user => event.setDefault "user" user
  | none => event

def addHistory (event : Value) (crumbs : List Value) : Value :=
  if crumbs.isEmpty then event
  else event.set "breadcrumbs" (Value.emptyObject.set "values" (.list crumbs))

/-- The event with the scope's values. Tags, extra values and the user of the event itself win;
its breadcrumbs are replaced. -/
def enrich (s : Scope) (event : Value) : Value :=
  addHistory (addUser (addRows (addRows event "tags" s.tagRows) "extra" s.extra.rows) s.user)
    s.breadcrumbs

/-- Equality of what scopes hold, by the equality of values. -/
def same (a b : Scope) : Bool :=
  a.tags.rows == b.tags.rows && Value.sameEntries a.extra.rows b.extra.rows
    && (match a.user, b.user with
      | none, none => true
      | some x, some y => x == y
      | _, _ => false)
    && Value.sameItems a.breadcrumbs b.breadcrumbs && a.capacity == b.capacity

end Scope

end CrashCourier
