import CrashCourier.Transport

namespace CrashCourier

structure Options where
  dsn : Option String := none
  databasePath : String := ".sentry-native"
  debug : Bool := false
  release : Option String := none
  environment : Option String := none
  dist : Option String := none
  maxBreadcrumbs : Nat := 100
  autoSessionTracking : Bool := true
  /-- In milliseconds. -/
  shutdownTimeout : Nat := 2000
  transport : Option Transport := none

namespace Options

/-- The defaults that an event takes from the options, in this order. -/
def defaults (o : Options) : List (String × Option String) :=
  [("release", o.release), ("environment", o.environment), ("dist", o.dist)]

end Options

end CrashCourier
