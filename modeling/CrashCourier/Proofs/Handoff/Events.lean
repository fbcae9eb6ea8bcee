import CrashCourier.Engine
import CrashCourier.Proofs.Envelope.Framing
import CrashCourier.Proofs.Json.WholeDoubles
import CrashCourier.Proofs.Text.Identifiers

namespace CrashCourier

namespace Value

structure Named (id : Uuid) (v : Value) : Prop where
  object : ∃ es, v = object es
  name : v.get "event_id" = string id.simple

variable {id : Uuid} {v : Value}

theorem Named.set {key : String} (h : Named id v) (hkey : key ≠ "event_id") (x : Value) :
    Named id (v.set key x) := by
  obtain ⟨⟨es, rfl⟩, hname⟩ := h
  refine ⟨⟨_, set_object es key x⟩, ?_⟩
  rw [get_set_object, if_neg hkey]
  exact hname

theorem Named.setDefault {key : String} (h : Named id v) (hkey : key ≠ "event_id") (x : Value) :
    Named id (v.setDefault key x) := by
  unfold Value.setDefault
  split
  · exact h.set hkey x
  · exact h

end Value

open Value (Named)

theorem Site.named_complete (o : Options) (id : Uuid) (moment : String) {event : Value}
    (h : isObject event = true) : Named id (complete o id moment event) := by
  obtain ⟨es, rfl⟩ : ∃ es, event = .object es := by
    cases event with
    | object es => exact ⟨es, rfl⟩
    | _ => simp [isObject] at h
  have hnamed : Named id ((Value.object es).set "event_id" (.string id.simple)) := by
    refine ⟨⟨_, Value.set_object _ _ _⟩, ?_⟩
    rw [Value.get_set_object, if_pos rfl]
  have hplaced : Named id ((((((Value.object es).set "event_id" (.string id.simple)).setDefault
      "timestamp" (.string moment)).setDefault "platform" (.string "native")).setDefault "level"
      (.string "error"))) :=
    ((hnamed.setDefault (by decide) _).setDefault (by decide) _).setDefault (by decide) _
  unfold complete
  refine List.foldlRecOn o.defaults _ hplaced fun v hv d hd => ?_
  have hkey : d.1 ≠ "event_id" := by
    simp only [Options.defaults, List.mem_cons, List.not_mem_nil, or_false] at hd
    rcases hd with rfl | rfl | rfl
    all_goals simp
  split
  · exact hv.setDefault hkey _
  · exact hv

theorem Scope.named_enrich (s : Scope) {id : Uuid} {event : Value} (h : Named id event) :
    Named id (s.enrich event) := by
  have hrows : ∀ {v : Value} {key : String} (rows : List (String × Value)), Named id v →
      key ≠ "event_id" → Named id (addRows v key rows) := by
    intro v key rows hv hkey
    unfold addRows
    split
    · exact hv
    · exact hv.set hkey _
  have huser : ∀ {v : Value}, Named id v → Named id (addUser v s.user) := by
    intro v hv
    unfold addUser
    split
    · exact hv.setDefault (by decide) _
    · exact hv
  unfold enrich addHistory
  split
  · exact huser (hrows _ (hrows _ h (by decide)) (by decide))
  · exact (huser (hrows _ (hrows _ h (by decide)) (by decide))).set (by decide) _

namespace EnvelopeItem

/-- A payload that a process can address is told by its length. -/
def Addressable (payload : Bytes) : Prop := 10 * payload.length < Double.exactLimit

instance (payload : Bytes) : Decidable (Addressable payload) :=
  inferInstanceAs (Decidable (10 * payload.length < Double.exactLimit))

theorem readable_ofPayload (type : String) {payload : Bytes} (h : Addressable payload) :
    (ofPayload type payload).Readable := by
  by_cases hshort : payload.length < Json.intLimit
  · have hwell := Envelope.wellFormed_ofPayload type hshort
    exact ⟨hwell.headers.readable, hwell.framed⟩
  · have hpos : 0 < payload.length := by
      simp only [Json.intLimit] at hshort
      omega
    have hlt : payload.length < Double.exactLimit := by
      unfold Addressable at h
      omega
    have hlong : lengthValue payload.length = .double (Double.ofNat payload.length) := by
      rw [lengthValue, if_neg hshort]
    have hheaders := Envelope.headers_ofPayload type payload
    rw [hlong] at hheaders
    refine ⟨⟨⟨_, hheaders⟩, ?_⟩, ?_⟩
    · rw [hheaders]
      have hfinite : Value.Finite (.double (Double.ofNat payload.length)) := by
        intro d hd
        obtain rfl := Value.double.inj hd
        exact Double.isFinite_ofNat hlt
      have hevery : ∀ {P : Value → Prop}, P (.object [("type", .string type),
          ("length", .double (Double.ofNat payload.length))]) → P (.string type) →
          P (.double (Double.ofNat payload.length)) → Value.Everywhere P (.object
            [("type", .string type), ("length", .double (Double.ofNat payload.length))]) := by
        intro P hobject htype hlength
        exact ⟨hobject, htype, hlength, trivial⟩
      refine Json.read_compact ?_ ?_ ?_ (Nat.le_of_ble_eq_true rfl)
      · exact hevery (by simp [Json.Legible]) (by simp [Json.Legible])
          (Json.legible_ofNat hpos h)
      · exact hevery (by simp [Value.Finite]) (by simp [Value.Finite]) hfinite
      · exact hevery (by simp [Value.DistinctKeys]) (by simp [Value.DistinctKeys])
          (by simp [Value.DistinctKeys])
    · have hget : (ofPayload type payload).headers.get "length" =
          .double (Double.ofNat payload.length) := by
        rw [hheaders]
        simp [Value.get_object, Entries.lookup]
      unfold Framed
      rw [hget]
      exact (Value.truncate_asDouble _).symm.trans (Double.truncate_ofNat hlt)

end EnvelopeItem

namespace Envelope

variable {id : Uuid} {event : Value} {dsn moment : String}

theorem headers_ofEvent (h : event.Named id) : (ofEvent event (some dsn) moment).headers =
    .object [("event_id", .string id.simple), ("dsn", .string dsn),
      ("sent_at", .string moment)] := by
  simp [ofEvent, h.name, Value.isNull, Value.setSome, Value.emptyObject, Value.set_object,
    Entries.insert]

theorem eventId_ofEvent (h : event.Named id) :
    (ofEvent event (some dsn) moment).eventId = some id := by
  simp [eventId, headers_ofEvent h, Value.get_object, Entries.lookup, Value.asString?,
    Uuid.ofText?_simple]

/-- The envelope of an event is read back from the wire. -/
theorem ofWire_ofEvent (h : event.Named id)
    (haddressable : EnvelopeItem.Addressable (Json.compact event)) :
    ofWire (ofEvent event (some dsn) moment).wire = .ok (ofEvent event (some dsn) moment) := by
  have hplain : (event.get "event_id").Plain (Json.deepest - 1) :=
    h.name ▸ Value.plain_string _ _
  have hreadable : (ofEvent event (some dsn) moment).Readable := by
    refine ⟨(plainHeaders_ofEvent _ _ hplain).readable, fun i hi => ?_⟩
    obtain rfl := List.mem_singleton.mp hi
    exact EnvelopeItem.readable_ofPayload "event" haddressable
  have hwire := ofWire_wire hreadable []
  simpa [itemsOf_nil, Except.map] using hwire

end Envelope

end CrashCourier
