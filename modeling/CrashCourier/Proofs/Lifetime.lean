import CrashCourier.Proofs.EngineCalls
import CrashCourier.Proofs.History
import CrashCourier.Proofs.Sessions
import Mathlib.Data.List.DropRight

namespace CrashCourier

/-- What a process may be asked for at any time of its life. -/
inductive ProcessCall where
  | engine (d : EngineCall)
  | start (o : Options)
  | clearScope

/-- What comes of a call, as far as scopes and sessions are concerned. -/
inductive LifecycleEvent where
  | changed (c : Scope.Change)
  | cleared
  | started (o : Options)
  | ended

namespace LifecycleEvent

def isEnd : LifecycleEvent → Bool
  | ended => true
  | _ => false

def started? : LifecycleEvent → Option Options
  | started o => some o
  | _ => none

def apply (s : Scope) : LifecycleEvent → Scope
  | changed c => s.change c
  | cleared => Scope.fresh
  | started o => s.setCapacity o.maxBreadcrumbs
  | ended => Scope.fresh

end LifecycleEvent

def sinceEnd (hs : List LifecycleEvent) : List LifecycleEvent := hs.rtakeWhile fun x => !x.isEnd

/-- The scope that some events make of a fresh one. -/
def scopeOf (hs : List LifecycleEvent) : Scope := hs.foldl LifecycleEvent.apply Scope.fresh

def startedIn (hs : List LifecycleEvent) : Option Options :=
  (hs.filterMap LifecycleEvent.started?).getLast?

/-- The payload of an event, from what happened since the last end. -/
def payloadOf (hs : List LifecycleEvent) (id : Uuid) (moment : String) (event : Value) :
    Option Bytes :=
  (startedIn hs).map fun o =>
    Json.compact ((scopeOf hs).enrich (Site.complete o id moment event))

theorem sinceEnd_concat {x : LifecycleEvent} (h : x.isEnd = false) (hs : List LifecycleEvent) :
    sinceEnd (hs ++ [x]) = sinceEnd hs ++ [x] :=
  List.rtakeWhile_concat_pos _ _ _ (by simp [h])

theorem sinceEnd_concat_ended (hs : List LifecycleEvent) : sinceEnd (hs ++ [.ended]) = [] :=
  List.rtakeWhile_concat_neg _ _ _ (by simp [LifecycleEvent.isEnd])

theorem scopeOf_concat (hs : List LifecycleEvent) (x : LifecycleEvent) :
    scopeOf (hs ++ [x]) = x.apply (scopeOf hs) := by
  simp only [scopeOf, List.foldl_append, List.foldl_cons, List.foldl_nil]

theorem startedIn_concat (hs : List LifecycleEvent) (x : LifecycleEvent) :
    startedIn (hs ++ [x]) = x.started?.or (startedIn hs) := by
  cases x <;> simp [startedIn, LifecycleEvent.started?]

/-- Whatever happens, the history keeps within its capacity. -/
theorem length_breadcrumbs_scopeOf (hs : List LifecycleEvent) :
    (scopeOf hs).breadcrumbs.length ≤ (scopeOf hs).capacity := by
  induction hs using List.reverseRecOn with
  | nil => exact Nat.zero_le _
  | append_singleton hs x ih =>
    rw [scopeOf_concat]
    cases x with
    | changed c =>
      cases c with
      | addBreadcrumb crumb => exact Scope.newest_length_le _ _
      | setCapacity capacity => exact Scope.newest_length_le _ _
      | _ => exact ih
    | cleared => exact Nat.zero_le _
    | started o => exact Scope.newest_length_le _ _
    | ended => exact Nat.zero_le _

namespace Site

def perform (s : Site) : ProcessCall → Site
  | .engine d => s.act d
  | .start o => (s.start o).2
  | .clearScope => s.clearScope

def performAll (s : Site) (xs : List ProcessCall) : Site := xs.foldl perform s

/-- Ending a session is something only if one runs. -/
def endEvents (s : Site) : List LifecycleEvent := if s.isRunning then [.ended] else []

def startEvents (s : Site) (o : Options) : List LifecycleEvent :=
  match (s.start o).1 with
  | .ok () => [.started o]
  | .error _ => []

def lifecycleEvents (s : Site) : ProcessCall → List LifecycleEvent
  | .engine (.change c) => [.changed c]
  | .engine .shutDown => s.endEvents
  | .engine _ => []
  | .start o => s.endEvents ++ s.startEvents o
  | .clearScope => [.cleared]

def history : Site → List ProcessCall → List LifecycleEvent
  | _, [] => []
  | s, x :: xs => s.lifecycleEvents x ++ history (s.perform x) xs

variable {s : Site} {hs : List LifecycleEvent} {o : Options}

/-- The scope and the session are as the events since the last end tell. -/
structure Agrees (s : Site) (hs : List LifecycleEvent) : Prop where
  scope : s.engine.scope = scopeOf (sinceEnd hs)
  options : s.options = (startedIn (sinceEnd hs)).map fun o => { o with transport := none }

theorem Agrees.changed (h : Agrees s hs) (c : Scope.Change) :
    Agrees (s.changeScope c) (hs ++ [.changed c]) := by
  refine ⟨?_, ?_⟩
  · rw [sinceEnd_concat rfl, scopeOf_concat, ← h.scope]
    rfl
  · rw [sinceEnd_concat rfl, startedIn_concat]
    exact h.options

theorem Agrees.cleared (h : Agrees s hs) : Agrees s.clearScope (hs ++ [.cleared]) := by
  refine ⟨?_, ?_⟩
  · rw [sinceEnd_concat rfl, scopeOf_concat]
    rfl
  · rw [sinceEnd_concat rfl, startedIn_concat]
    exact h.options

theorem Agrees.close (h : Agrees s hs) : Agrees s.close (hs ++ s.endEvents) := by
  cases hsession : s.engine.session with
  | none =>
    have hidle : s.endEvents = [] := by simp [endEvents, isRunning, hsession]
    rw [close_of_not_running hsession, hidle, List.append_nil]
    exact h
  | some session =>
    have hends : s.endEvents = [.ended] := by simp [endEvents, isRunning, hsession]
    have hengine := engine_close hsession
    rw [hends]
    refine ⟨?_, ?_⟩
    · rw [sinceEnd_concat_ended, hengine]
      rfl
    · rw [sinceEnd_concat_ended, Site.options, hengine]
      rfl

theorem Agrees.start (h : Agrees s hs) (o : Options) :
    Agrees (s.start o).2 (hs ++ (s.endEvents ++ s.startEvents o)) := by
  -- What ran before has ended by then, so the start is the only one since the last end.
  have hclosed := h.close
  rw [← List.append_assoc, startEvents]
  rcases hstart : (s.start o).1 with e | ⟨⟩
  · have hengine := engine_start_error hstart
    dsimp only
    rw [List.append_nil]
    refine ⟨?_, ?_⟩
    · rw [hengine]
      exact hclosed.scope
    · rw [Site.options, hengine]
      exact hclosed.options
  · have hengine := engine_start_ok hstart
    refine ⟨?_, ?_⟩
    · rw [sinceEnd_concat rfl, scopeOf_concat, ← hclosed.scope, hengine]
      rfl
    · rw [sinceEnd_concat rfl, startedIn_concat, Site.options, hengine]
      rfl

theorem Agrees.perform (h : Agrees s hs) (x : ProcessCall) :
    Agrees (s.perform x) (hs ++ s.lifecycleEvents x) := by
  have hreport : ∀ d : EngineCall, d.isReport = true → Agrees (s.act d) (hs ++ []) := by
    intro d hd
    obtain ⟨hoptions, hscope⟩ := s.act_keeps hd
    rw [List.append_nil]
    exact ⟨hscope.trans h.scope, hoptions.trans h.options⟩
  cases x with
  | start o => exact h.start o
  | clearScope => exact h.cleared
  | engine d =>
    cases d with
    | change c => exact h.changed c
    | shutDown => exact h.close
    | capture event => exact hreport (.capture event) rfl
    | work => exact hreport .work rfl
    | flush => exact hreport .flush rfl
    | wait moment => exact hreport (.wait moment) rfl

theorem Agrees.performAll (h : Agrees s hs) (xs : List ProcessCall) :
    Agrees (s.performAll xs) (hs ++ s.history xs) := by
  induction xs generalizing s hs with
  | nil =>
    rw [history, List.append_nil]
    exact h
  | cons x xs ih =>
    rw [history, ← List.append_assoc]
    exact ih (h.perform x)

theorem agrees_initial (w : World) (xs : List ProcessCall) :
    Agrees (Site.performAll { world := w } xs) (history { world := w } xs) := by
  have hinitial : Agrees { world := w } [] := ⟨rfl, rfl⟩
  exact hinitial.performAll xs

end Site

namespace ProcessCall

def keepsCapacity : ProcessCall → Bool
  | engine (.change (.setCapacity _)) => false
  | engine .shutDown => false
  | engine _ => true
  | _ => false

def added : ProcessCall → List Value
  | engine (.change (.addBreadcrumb crumb)) => [crumb]
  | _ => []

end ProcessCall

namespace Site

/-- A session with the last of some breadcrumbs, as many as its options allow. -/
structure Collecting (o : Options) (crumbs : List Value) (s : Site) : Prop where
  options : s.options = some { o with transport := none }
  capacity : s.engine.scope.capacity = o.maxBreadcrumbs
  breadcrumbs : s.engine.scope.breadcrumbs = crumbs.drop (crumbs.length - o.maxBreadcrumbs)

variable {s : Site} {o : Options} {crumbs : List Value}

theorem collecting_start (h : (s.start o).1 = .ok ()) :
    Collecting o s.close.engine.scope.breadcrumbs (s.start o).2 := by
  have hengine := engine_start_ok h
  refine ⟨?_, ?_, ?_⟩
  · rw [options, hengine]
    rfl
  · rw [hengine]
    rfl
  · rw [hengine]
    rfl

theorem Collecting.changed (h : Collecting o crumbs s) {c : Scope.Change}
    (hkeeps : (ProcessCall.engine (.change c)).keepsCapacity = true) :
    Collecting o (crumbs ++ (ProcessCall.engine (.change c)).added) (s.changeScope c) := by
  cases c with
  | setCapacity capacity => simp [ProcessCall.keepsCapacity] at hkeeps
  | addBreadcrumb crumb =>
    refine ⟨h.options, h.capacity, ?_⟩
    -- What gave way before would give way again.
    calc Scope.newest s.engine.scope.capacity (s.engine.scope.breadcrumbs ++ [crumb])
        = Scope.newest o.maxBreadcrumbs (Scope.newest o.maxBreadcrumbs crumbs ++ [crumb]) := by
          rw [h.capacity, h.breadcrumbs]
          rfl
      _ = Scope.newest o.maxBreadcrumbs (crumbs ++ [crumb]) :=
          Scope.newest_newest_append le_rfl crumbs [crumb]
  | _ =>
    rw [ProcessCall.added.eq_def, List.append_nil]
    exact ⟨h.options, h.capacity, h.breadcrumbs⟩

theorem Collecting.perform (h : Collecting o crumbs s) {x : ProcessCall}
    (hx : x.keepsCapacity = true) :
    Collecting o (crumbs ++ x.added) (s.perform x) := by
  have hreport : ∀ d : EngineCall, d.isReport = true → Collecting o (crumbs ++ []) (s.act d) := by
    intro d hd
    obtain ⟨hoptions, hscope⟩ := s.act_keeps hd
    rw [List.append_nil]
    refine ⟨hoptions.trans h.options, ?_, ?_⟩
    · rw [hscope, h.capacity]
    · rw [hscope, h.breadcrumbs]
  cases x with
  | engine d =>
    cases d with
    | change c => exact h.changed hx
    | shutDown => simp [ProcessCall.keepsCapacity] at hx
    | capture event => exact hreport (.capture event) rfl
    | work => exact hreport .work rfl
    | flush => exact hreport .flush rfl
    | wait moment => exact hreport (.wait moment) rfl
  | _ => simp [ProcessCall.keepsCapacity] at hx

theorem Collecting.performAll (h : Collecting o crumbs s) {xs : List ProcessCall}
    (hxs : ∀ x ∈ xs, x.keepsCapacity = true) :
    Collecting o (crumbs ++ xs.flatMap ProcessCall.added) (s.performAll xs) := by
  induction xs generalizing s crumbs with
  | nil =>
    rw [List.flatMap_nil, List.append_nil]
    exact h
  | cons x xs ih =>
    obtain ⟨hx, hrest⟩ := List.forall_mem_cons.mp hxs
    rw [List.flatMap_cons, ← List.append_assoc]
    exact ih (h.perform hx) hrest

/-- An event that a session takes has the payload that the changes since the last end make of it. -/
theorem Agrees.capture {hs : List LifecycleEvent} (h : Agrees s hs) {session : Session}
    (running : s.engine.session = some session) {event : Value} (hobject : isObject event = true) :
    ∃ id e payload, (s.capture event).1 = some id ∧
      (s.capture event).2.engine = { s.engine with
        session := some { session with worker := session.worker.map fun wk => wk.enqueue e } } ∧
      e.items.map EnvelopeItem.payload = [payload] ∧
      payloadOf (sinceEnd hs) id s.world.supply.moment event = some payload := by
  have hoptions : s.options = some session.options := congrArg (Option.map Session.options) running
  rw [h.options] at hoptions
  obtain ⟨o, hlast, hsame⟩ := Option.map_eq_some_iff.mp hoptions
  have hcomplete : ∀ id moment, complete o id moment event =
      complete session.options id moment event := by
    intro id moment
    rw [← hsame]
    rfl
  refine ⟨s.world.nextEventId.1, envelopeOf session.options s.engine.scope s.world.nextEventId.1
    s.world.supply.moment event, _, ?_, ?_, rfl, ?_⟩
  · simp only [Site.capture, running, hobject, ↓reduceIte]
  · simp only [Site.capture, running, hobject, ↓reduceIte]
    rfl
  · rw [payloadOf, hlast, Option.map_some, hcomplete, ← h.scope]
    rfl

/-- At any time of a life the history keeps within its capacity. From a start to what sets another
capacity, the last breadcrumbs remain that the options leave room for. What ends a session leaves
nothing of it, however the next start comes out; so what a session makes of an event is told by the
events since the last end. Without a session there is nothing to end. -/
theorem sessions_apart (w : World) (xs : List ProcessCall) :
    let s := Site.performAll { world := w } xs
    let recent := sinceEnd (history { world := w } xs)
    s.engine.scope.breadcrumbs.length ≤ s.engine.scope.capacity ∧
    (∀ o ys, (s.start o).1 = .ok () → (∀ y ∈ ys, y.keepsCapacity = true) →
      ((s.start o).2.performAll ys).options = some { o with transport := none } ∧
      ((s.start o).2.performAll ys).engine.scope.capacity = o.maxBreadcrumbs ∧
      let crumbs := s.close.engine.scope.breadcrumbs ++ ys.flatMap ProcessCall.added
      ((s.start o).2.performAll ys).engine.scope.breadcrumbs =
        crumbs.drop (crumbs.length - o.maxBreadcrumbs)) ∧
    (∀ session, s.engine.session = some session →
      s.close.engine = {} ∧
      (∀ o, s.start o = s.close.start o ∧
        ∀ e, (s.start o).1 = .error e → (s.start o).2.engine = {}) ∧
      ∀ event, isObject event = true → ∃ id e payload, (s.capture event).1 = some id ∧
        (s.capture event).2.engine = { s.engine with
          session := some { session with worker := session.worker.map fun wk => wk.enqueue e } } ∧
        e.items.map EnvelopeItem.payload = [payload] ∧
        payloadOf recent id s.world.supply.moment event = some payload) ∧
    (s.isRunning = false → s.close = s) := by
  intro s recent
  have hagrees : Agrees s (history { world := w } xs) := agrees_initial w xs
  refine ⟨?_, ?_, ?_, ?_⟩
  · rw [hagrees.scope]
    exact length_breadcrumbs_scopeOf _
  · intro o ys hstart hys
    obtain ⟨hoptions, hcapacity, hcrumbs⟩ := (collecting_start hstart).performAll hys
    exact ⟨hoptions, hcapacity, hcrumbs⟩
  · intro session running
    have hclose := engine_close running
    refine ⟨hclose, fun o => ⟨?_, ?_⟩, ?_⟩
    · -- Closing again changes nothing, so the start finds the engine that the end has left.
      have hagain : s.close.close = s.close := close_of_not_running (by rw [hclose])
      rw [start, start, hagain]
    · intro e failed
      rw [engine_start_error failed, hclose]
    · intro event hobject
      exact hagrees.capture running hobject
  · intro idle
    exact close_of_not_running (by simpa [isRunning] using idle)

/-- A working directory in which databases can be made, and no thread at first. -/
def firstThreadFails : World where
  files := .withWorkDir "w"
  supply := { Supply.numbered "10:00" with
    threadError := fun n => if n = 0 then some (.other "no thread") else none }

/-- Two sessions, and a start between them that fails. -/
def twoSessions : List ProcessCall :=
  [.engine (.change (.setTag "day" "first")), .start { maxBreadcrumbs := 7 },
    .engine (.change (.addBreadcrumb (.string "a"))),
    .start { transport := some ⟨.recorded, none, none⟩ },
    .engine (.change (.addBreadcrumb (.string "b"))), .start { maxBreadcrumbs := 1 },
    .engine (.change (.addBreadcrumb (.string "c")))]

def laterCalls : List ProcessCall :=
  [.engine (.change (.addBreadcrumb (.string "d"))), .engine .flush,
    .engine (.change (.addBreadcrumb (.string "e"))),
    .engine (.change (.addBreadcrumb (.string "f")))]

theorem sessions_apart_twoSessions :
    let s := Site.performAll { world := firstThreadFails } twoSessions
    (s.start { maxBreadcrumbs := 2 }).1 = .ok () ∧
      ((s.start { maxBreadcrumbs := 2 }).2.performAll laterCalls).engine.scope.breadcrumbs =
        [.string "e", .string "f"] ∧
      s.close.engine = {} ∧
      (∃ id, ∃ e : Envelope, ∃ payload, (s.capture Value.emptyObject).1 = some id ∧
        e.items.map EnvelopeItem.payload = [payload] ∧
        payloadOf [.changed (.addBreadcrumb (.string "b")), .started { maxBreadcrumbs := 1 },
          .changed (.addBreadcrumb (.string "c"))] id "10:00" Value.emptyObject = some payload) ∧
      s.close.close = s.close := by
  intro s
  obtain ⟨-, hcollect, hends, -⟩ := sessions_apart firstThreadFails twoSessions
  obtain ⟨-, -, -, hidle⟩ := sessions_apart firstThreadFails (twoSessions ++ [.engine .shutDown])
  have hstart : (s.start { maxBreadcrumbs := 2 }).1 = .ok () := rfl
  have hkeeps : ∀ y ∈ laterCalls, y.keepsCapacity = true := by
    simp [laterCalls, ProcessCall.keepsCapacity]
  obtain ⟨session, running⟩ := Option.isSome_iff_exists.mp (show s.isRunning = true from rfl)
  obtain ⟨hclose, -, hcapture⟩ := hends session running
  obtain ⟨id, e, payload, hid, -, hitems, hpayload⟩ := hcapture Value.emptyObject rfl
  exact ⟨hstart, (hcollect _ laterCalls hstart hkeeps).2.2, hclose,
    ⟨id, e, payload, hid, hitems, hpayload⟩, hidle rfl⟩

end Site

end CrashCourier
