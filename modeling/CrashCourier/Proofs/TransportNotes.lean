import CrashCourier.Transport

namespace CrashCourier

namespace Transport

def releaseNotes (t : Transport) : List Note :=
  t.state.toList.map fun state => .released state t.onRelease

def sendNotes (t : Transport) (e : Envelope) (byWorker : Bool) : List Note :=
  if t.sender = .recorded then [.sent e t.state byWorker] else []

theorem notes_store (e : Envelope) (state : Option TransportState) (w : World) :
    (Outbox.store e state w).notes = w.notes := by
  unfold Outbox.store
  split
  · split
    · rfl
    · simp only [World.nextFileId]
      split <;> rfl
  · rfl

theorem notes_drop (t : Transport) (w : World) : (t.drop w).notes = w.notes ++ t.releaseNotes := by
  unfold drop releaseNotes
  split
  · next state hstate => simp [hstate, release, World.note]
  · next hstate => simp [hstate]

theorem notes_dropOption (t : Option Transport) (w : World) :
    (dropOption t w).notes = w.notes ++ t.toList.flatMap releaseNotes := by
  cases t with
  | none => exact (List.append_nil _).symm
  | some t => simpa [dropOption] using notes_drop t w

theorem notes_send {t : Transport} {e : Envelope} {byWorker : Bool} {w w' : World}
    (h : t.send e byWorker w = some w') : w'.notes = w.notes ++ t.sendNotes e byWorker := by
  unfold send at h
  split at h
  · next hsender =>
    obtain rfl := Option.some.inj h
    simp [sendNotes, hsender, World.note]
  · next hsender =>
    obtain rfl := Option.some.inj h
    simp [sendNotes, hsender, notes_store]
  · simp at h

end Transport

namespace Worker

/-- Whatever becomes of the deliveries, a worker that stops has released its transport last. -/
theorem notes_stop (t : Transport) (queue : List Envelope) (w : World) :
    ∃ sends, ((running t queue).stop w).notes = w.notes ++ sends ++ t.releaseNotes := by
  induction queue generalizing w with
  | nil => exact ⟨[], by simpa [stop, drain, deliver] using t.notes_drop w⟩
  | cons e queue ih =>
    cases hsend : t.send e true w with
    | none => exact ⟨[], by simpa [stop, drain, deliver, hsend] using t.notes_drop w⟩
    | some w' =>
      obtain ⟨sends, hsends⟩ := ih w'
      refine ⟨t.sendNotes e true ++ sends, ?_⟩
      have hstop : (running t (e :: queue)).stop w = (running t queue).stop w' := by
        simp [stop, drain, deliver, hsend]
      rw [hstop, hsends, Transport.notes_send hsend]
      simp only [List.append_assoc]

end Worker

end CrashCourier
