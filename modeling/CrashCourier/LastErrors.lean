namespace CrashCourier

structure LastErrors where
  text : Nat → Option String := fun _ => none

namespace LastErrors

/-- What a thread finds after its own change; other threads find what they found before. -/
def put (e : LastErrors) (thread : Nat) (message : Option String) : LastErrors where
  text n := if n = thread then message else e.text n

def record (e : LastErrors) (thread : Nat) (message : String) : LastErrors :=
  e.put thread (some message)

def clear (e : LastErrors) (thread : Nat) : LastErrors := e.put thread none

@[simp] theorem text_put_self (e : LastErrors) (thread : Nat) (message : Option String) :
    (e.put thread message).text thread = message := by
  simp [put]

end LastErrors

end CrashCourier
