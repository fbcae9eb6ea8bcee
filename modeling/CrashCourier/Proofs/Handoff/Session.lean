import CrashCourier.Proofs.EngineCalls
import CrashCourier.Proofs.Handoff.Events
import CrashCourier.Proofs.Handoff.Outbox
import CrashCourier.Proofs.Sessions

namespace CrashCourier

/-- A call that captures an event, and the state in which it is made. -/
structure CaptureCall where
  site : Site
  event : Value

namespace CaptureCall

def answer (c : CaptureCall) : Option Uuid := (c.site.capture c.event).1

/-- Whether it captures an object while a session runs. -/
def taken (c : CaptureCall) : Bool := c.site.isRunning && Site.isObject c.event

/-- The event under an identifier, with what the session and the scope add. -/
def enriched (c : CaptureCall) (id : Uuid) : Value :=
  c.site.engine.scope.enrich
    (Site.complete (c.site.options.getD {}) id c.site.world.supply.moment c.event)

def envelope? (c : CaptureCall) : Option Envelope :=
  if c.taken then
    c.answer.map fun id =>
      Envelope.ofEvent (c.enriched id) (c.site.options.bind Options.dsn) c.site.world.supply.moment
  else none

theorem answer_isSome (c : CaptureCall) : c.answer.isSome = c.taken := by
  obtain ⟨⟨⟨scope, session⟩, world⟩, event⟩ := c
  cases session with
  | none => rfl
  | some session =>
    simp only [answer, taken, Site.capture, Site.isRunning, Option.isSome_some, Bool.true_and]
    cases Site.isObject event <;> rfl

end CaptureCall

namespace Site

def callsOf (s : Site) : EngineCall → List CaptureCall
  | .capture event => [⟨s, event⟩]
  | _ => []

/-- The captures among some calls, in their order. -/
def captures : Site → List EngineCall → List CaptureCall
  | _, [] => []
  | s, d :: ds => s.callsOf d ++ captures (s.act d) ds

/-- What every call keeps holds where a capture is made. -/
theorem of_mem_captures {P : Site → Prop} (hact : ∀ s d, P s → P (s.act d)) {s : Site} (h : P s)
    {ds : List EngineCall} {c : CaptureCall} (hc : c ∈ s.captures ds) : P c.site := by
  induction ds generalizing s with
  | nil => simp [captures] at hc
  | cons d ds ih =>
    rcases List.mem_append.mp hc with hc | hc
    · cases d with
      | capture event =>
        obtain rfl := List.mem_singleton.mp hc
        exact h
      | _ => simp [callsOf] at hc
    · exact ih (hact s d h) hc

theorem options_act (s : Site) (d : EngineCall) :
    (s.act d).options = s.options ∨ (s.act d).options = none := by
  by_cases hreport : d.isReport = true
  · exact Or.inl (s.act_keeps hreport).1
  · cases d with
    | change c => exact Or.inl rfl
    | shutDown =>
      cases hsession : s.engine.session with
      | none =>
        rw [act, close_of_not_running hsession]
        exact Or.inl rfl
      | some session =>
        rw [act, options, engine_close hsession]
        exact Or.inr rfl
    | _ => simp [EngineCall.isReport] at hreport

theorem options_of_mem_captures {s : Site} {ds : List EngineCall} {c : CaptureCall}
    (hc : c ∈ s.captures ds) (htaken : c.taken = true) : c.site.options = s.options := by
  have hkept : c.site.options = s.options ∨ c.site.options = none := by
    refine of_mem_captures (P := fun t => t.options = s.options ∨ t.options = none) ?_
      (Or.inl rfl) hc
    intro t d ht
    rcases options_act t d with heq | hnone
    · rwa [heq]
    · exact Or.inr hnone
  rcases hkept with heq | hnone
  · exact heq
  · have hsession : c.site.engine.session = none := Option.map_eq_none_iff.mp hnone
    simp [CaptureCall.taken, isRunning, hsession] at htaken

variable {base : World} {outbox : String} {dir : List String} {o : Options} {buffer : Buffer}
  {es : List Envelope} {s : Site}

/-- Some envelopes are in the outbox, and the others wait in their order; none waits once the
session has ended. -/
inductive DeliveryProgress (base : World) (dir : List String) (o : Options) (buffer : Buffer)
    (es : List Envelope) (s : Site) : Prop
  | running (sent pending : List Envelope) (all : es = sent ++ pending)
      (stored : Outbox.Stored base dir sent s.world)
      (session : s.engine.session = some ⟨o, some (.running (.toOutbox buffer) pending)⟩)
  | ended (stored : Outbox.Stored base dir es s.world) (session : s.engine.session = none)

theorem DeliveryProgress.capture (h : DeliveryProgress base dir o buffer es s) (event : Value) :
    DeliveryProgress base dir o buffer (es ++ [(⟨s, event⟩ : CaptureCall)].filterMap
      CaptureCall.envelope?) (s.capture event).2 := by
  cases h with
  | running sent pending all stored session =>
    cases hobject : isObject event with
    | true =>
      refine .running sent (pending ++ [envelopeOf o s.engine.scope s.world.nextEventId.1
        s.world.supply.moment event]) ?_ ?_ ?_
      · simp [all, CaptureCall.envelope?, CaptureCall.taken, CaptureCall.answer,
          CaptureCall.enriched, Site.capture, isRunning, Site.options, session, hobject, envelopeOf]
      · simp only [Site.capture, session, hobject, ↓reduceIte]
        exact ⟨stored.files, stored.names, stored.count⟩
      · simp only [Site.capture, session, hobject, ↓reduceIte]
        rfl
    | false =>
      refine .running sent pending ?_ ?_ ?_
      · simp [all, CaptureCall.envelope?, CaptureCall.taken, hobject]
      · simpa [Site.capture, session, hobject] using stored
      · simp [Site.capture, session, hobject]
  | ended stored session =>
    refine .ended ?_ ?_
    · simpa [CaptureCall.envelope?, CaptureCall.taken, isRunning, session, Site.capture]
        using stored
    · simp [Site.capture, session]

theorem DeliveryProgress.work (hbase : Outbox.Ready base outbox dir es.length)
    (hb : buffer.text? = some outbox) (h : DeliveryProgress base dir o buffer es s) :
    DeliveryProgress base dir o buffer es s.work := by
  cases h with
  | running sent pending all stored session =>
    cases pending with
    | nil =>
      have hwork : s.work = s := by
        obtain ⟨⟨scope, _⟩, world⟩ := s
        obtain rfl := session
        rfl
      rw [hwork]
      exact .running sent [] all stored session
    | cons e pending =>
      have hready : Outbox.Ready base outbox dir (sent.length + (pending.length + 1)) := by
        simpa [all] using hbase
      have hsend : (Transport.toOutbox buffer).send e true s.world =
          some (s.world.deposited dir [e]) :=
        congrArg some (Outbox.store_eq_deposited (stored.ready hready) hb e)
      have hwork : s.work = ⟨{ s.engine with
          session := some ⟨o, some (.running (.toOutbox buffer) pending)⟩ },
          s.world.deposited dir [e]⟩ := by
        simp [Site.work, session, Worker.step, hsend]
      rw [hwork]
      exact .running (sent ++ [e]) pending (by simp [all]) (stored.deposited [e]) rfl
  | ended stored session =>
    have hwork : s.work = s := by simp [Site.work, session]
    rw [hwork]
    exact .ended stored session

theorem DeliveryProgress.flush (hbase : Outbox.Ready base outbox dir es.length)
    (hb : buffer.text? = some outbox) (h : DeliveryProgress base dir o buffer es s) :
    DeliveryProgress base dir o buffer es s.flush.2 ∧
      (s.flush.1 = true → Outbox.Stored base dir es s.flush.2.world) := by
  cases h with
  | running sent pending all stored session =>
    have hready : Outbox.Ready base outbox dir (sent.length + pending.length) := by
      simpa [all] using hbase
    have hstored := stored.deposited pending
    have hflush : s.flush = (true, ⟨{ s.engine with
        session := some ⟨o, some (.running (.toOutbox buffer) [])⟩ },
        s.world.deposited dir pending⟩) := by
      simp [Site.flush, session, Worker.drain, Worker.isRunning,
        Outbox.deliver_eq_deposited (stored.ready hready) hb]
    rw [hflush, all]
    exact ⟨.running (sent ++ pending) [] (by simp) hstored rfl, fun _ => hstored⟩
  | ended stored session =>
    have hflush : s.flush = (false, s) := by simp [Site.flush, session]
    rw [hflush]
    exact ⟨.ended stored session, by simp⟩

theorem DeliveryProgress.close (hbase : Outbox.Ready base outbox dir es.length)
    (hb : buffer.text? = some outbox) (h : DeliveryProgress base dir o buffer es s) :
    s.close.engine.session = none ∧ Outbox.Stored base dir es s.close.world := by
  cases h with
  | running sent pending all stored session =>
    have hready : Outbox.Ready base outbox dir (sent.length + pending.length) := by
      simpa [all] using hbase
    have hstored := stored.deposited pending
    have hworld : s.close.world = (Transport.toOutbox buffer).drop
        (s.world.deposited dir pending) := by
      simp [world_close session, retire, Worker.stop, Worker.drain,
        Outbox.deliver_eq_deposited (stored.ready hready) hb]
    rw [engine_close session, hworld, all]
    exact ⟨rfl, hstored.files, hstored.names, hstored.count⟩
  | ended stored session =>
    rw [close_of_not_running session]
    exact ⟨session, stored⟩

/-- What a call captures comes after the envelopes before. -/
theorem DeliveryProgress.act (hbase : Outbox.Ready base outbox dir es.length)
    (hb : buffer.text? = some outbox) (h : DeliveryProgress base dir o buffer es s)
    (d : EngineCall) :
    DeliveryProgress base dir o buffer (es ++ (s.callsOf d).filterMap CaptureCall.envelope?)
      (s.act d) := by
  cases d with
  | capture event => exact h.capture event
  | change c =>
    simp only [callsOf, List.filterMap_nil, List.append_nil]
    cases h with
    | running sent pending all stored session => exact .running sent pending all stored session
    | ended stored session => exact .ended stored session
  | work =>
    simp only [callsOf, List.filterMap_nil, List.append_nil]
    exact h.work hbase hb
  | flush =>
    simp only [callsOf, List.filterMap_nil, List.append_nil]
    exact (h.flush hbase hb).1
  | shutDown =>
    simp only [callsOf, List.filterMap_nil, List.append_nil]
    obtain ⟨session, stored⟩ := h.close hbase hb
    exact .ended stored session
  | wait moment =>
    simp only [callsOf, List.filterMap_nil, List.append_nil]
    cases h with
    | running sent pending all stored session =>
      exact .running sent pending all ⟨stored.files, stored.names, stored.count⟩ session
    | ended stored session => exact .ended ⟨stored.files, stored.names, stored.count⟩ session

theorem DeliveryProgress.acts {ds : List EngineCall} (hbase : Outbox.Ready base outbox dir
    (es ++ (s.captures ds).filterMap CaptureCall.envelope?).length)
    (hb : buffer.text? = some outbox) (h : DeliveryProgress base dir o buffer es s) :
    DeliveryProgress base dir o buffer (es ++ (s.captures ds).filterMap CaptureCall.envelope?)
      (s.acts ds) := by
  induction ds generalizing s es with
  | nil => simpa [captures, Site.acts] using h
  | cons d ds ih =>
    rw [captures, List.filterMap_append, ← List.append_assoc] at hbase ⊢
    have hnow : Outbox.Ready base outbox dir es.length :=
      hbase.mono (by simp only [List.length_append]; omega)
    exact ih hbase (h.act hnow hb d)

end Site

end CrashCourier
