import CrashCourier.Engine

namespace CrashCourier

inductive EngineCall where
  | change (c : Scope.Change)
  | capture (event : Value)
  | work
  | flush
  | shutDown
  | wait (moment : String)

/-- Neither a change of the scope nor the end of the session. -/
def EngineCall.isReport : EngineCall → Bool
  | change _ => false
  | shutDown => false
  | _ => true

namespace Site

def act (s : Site) : EngineCall → Site
  | .change c => s.changeScope c
  | .capture event => (s.capture event).2
  | .work => s.work
  | .flush => s.flush.2
  | .shutDown => s.close
  | .wait moment => { s with world := { s.world with supply := { s.world.supply with moment } } }

def acts (s : Site) (ds : List EngineCall) : Site := ds.foldl act s

/-- Captures, deliveries and the clock leave the options and the scope alone. -/
theorem act_keeps (s : Site) {d : EngineCall} (hd : d.isReport = true) :
    (s.act d).options = s.options ∧ (s.act d).engine.scope = s.engine.scope := by
  cases hsession : s.engine.session with
  | none =>
    cases d with
    | change c => simp [EngineCall.isReport] at hd
    | shutDown => simp [EngineCall.isReport] at hd
    | capture event => simp [act, capture, hsession]
    | work => simp [act, work, hsession]
    | flush => simp [act, flush, hsession]
    | wait moment => exact ⟨rfl, rfl⟩
  | some session =>
    obtain ⟨o, worker⟩ := session
    cases d with
    | change c => simp [EngineCall.isReport] at hd
    | shutDown => simp [EngineCall.isReport] at hd
    | capture event =>
      simp only [act, capture, hsession, options]
      split <;> simp [hsession]
    | work => cases worker <;> simp [act, work, hsession, options]
    | flush => cases worker <;> simp [act, flush, hsession, options]
    | wait moment => exact ⟨rfl, rfl⟩

end Site

end CrashCourier
