import CrashCourier.Text.Quoted

namespace CrashCourier.Managed

inductive TextOption where
  | outboxPath | dsn | release | environment | dist
deriving DecidableEq, Repr

namespace TextOption

def all : List TextOption := [outboxPath, dsn, release, environment, dist]

def method : TextOption → String
  | outboxPath => "getOutboxPath"
  | dsn => "getDsn"
  | release => "getRelease"
  | environment => "getEnvironment"
  | dist => "getDist"

def ofMethod? (m : String) : Option TextOption := all.find? fun o => o.method = m

theorem ofMethod?_method (o : TextOption) : ofMethod? o.method = some o := by
  cases o <;> decide

end TextOption

def debugMethod : String := "isDebug"

def capacityMethod : String := "getMaxBreadcrumbs"

structure OptionsObject where
  outboxPath : Option String := none
  dsn : Option String := none
  debug : Bool := false
  release : Option String := none
  environment : Option String := none
  dist : Option String := none
  maxBreadcrumbs : Int32 := 100
deriving DecidableEq, Repr

namespace OptionsObject

def text (o : OptionsObject) : TextOption → Option String
  | .outboxPath => o.outboxPath
  | .dsn => o.dsn
  | .release => o.release
  | .environment => o.environment
  | .dist => o.dist

def debugText (o : OptionsObject) : String :=
  "SdkOptions \x7b outbox_path: " ++ Text.quotedOption o.outboxPath
    ++ ", dsn: " ++ Text.quotedOption o.dsn
    ++ ", debug: " ++ toString o.debug
    ++ ", release: " ++ Text.quotedOption o.release
    ++ ", environment: " ++ Text.quotedOption o.environment
    ++ ", dist: " ++ Text.quotedOption o.dist
    ++ ", max_breadcrumbs: " ++ toString o.maxBreadcrumbs.toInt ++ " \x7d"

end OptionsObject

end CrashCourier.Managed
