import CrashCourier.Proofs.TransportNotes
import Mathlib.Data.List.Induction

namespace CrashCourier

/-- What is done with a transport between its making and its drop. -/
inductive TransportMove where
  | attach (state : TransportState)
  | releaseThrough (r : Release)
  | send (e : Envelope) (byWorker : Bool)
  /-- Asks whether a state is attached. -/
  | ask

namespace TransportMove

def state? : TransportMove → Option TransportState
  | attach state => some state
  | _ => none

def release? : TransportMove → Option Release
  | releaseThrough r => some r
  | _ => none

end TransportMove

def Note.released? : Note → Option TransportState
  | .released state _ => some state
  | .sent _ _ _ => none

def releasedIn (notes : List Note) : List TransportState := notes.filterMap Note.released?

theorem releasedIn_append (a b : List Note) :
    releasedIn (a ++ b) = releasedIn a ++ releasedIn b :=
  List.filterMap_append

namespace Transport

def attachedIn (ms : List TransportMove) : List TransportState := ms.filterMap TransportMove.state?

def registeredIn (ms : List TransportMove) : List Release := ms.filterMap TransportMove.release?

/-- A delivery that ends whoever does it leaves the transport and the world as they are. -/
def move (t : Transport) (w : World) : TransportMove → Transport × World
  | .attach state => t.attach state w
  | .releaseThrough r => (t.releaseThrough r, w)
  | .send e byWorker => (t, (t.send e byWorker w).getD w)
  | .ask => (t, w)

/-- A transport made in a world, and what becomes of both. -/
def moves (sender : Sender) (w : World) (ms : List TransportMove) : Transport × World :=
  ms.foldl (fun p m => p.1.move p.2 m) (⟨sender, none, none⟩, w)

theorem moves_concat (sender : Sender) (w : World) (ms : List TransportMove) (m : TransportMove) :
    moves sender w (ms ++ [m]) = (moves sender w ms).1.move (moves sender w ms).2 m := by
  simp only [moves, List.foldl_append, List.foldl_cons, List.foldl_nil]

theorem releasedIn_drop (t : Transport) (w : World) :
    releasedIn (t.drop w).notes = releasedIn w.notes ++ t.state.toList := by
  have hnotes : releasedIn t.releaseNotes = t.state.toList := by
    unfold releaseNotes
    cases t.state with
    | none => rfl
    | some state => rfl
  rw [notes_drop, releasedIn_append, hnotes]

/-- To replace a state is to drop a transport that carries it. -/
theorem attach_eq (t : Transport) (state : TransportState) (w : World) :
    t.attach state w = ({ t with state := some state }, t.drop w) := by
  unfold attach drop
  cases t.state with
  | none => rfl
  | some previous => rfl

theorem releasedIn_send (t : Transport) (e : Envelope) (byWorker : Bool) (w : World) :
    releasedIn ((t.send e byWorker w).getD w).notes = releasedIn w.notes := by
  cases hsend : t.send e byWorker w with
  | none => rfl
  | some w' =>
    have hsent : releasedIn (t.sendNotes e byWorker) = [] := by
      unfold sendNotes
      split
      · rfl
      · rfl
    rw [Option.getD_some, notes_send hsend, releasedIn_append, hsent, List.append_nil]

/-- A transport on which some moves were made since a world: it carries the state attached last,
and the states before that one are those released since. -/
structure Carries (sender : Sender) (w : World) (ms : List TransportMove) (t : Transport)
    (v : World) : Prop where
  transport : t = ⟨sender, (attachedIn ms).getLast?, (registeredIn ms).getLast?⟩
  released : releasedIn v.notes ++ t.state.toList = releasedIn w.notes ++ attachedIn ms

/-- A move that attaches and registers nothing is not seen. -/
theorem Carries.quiet {sender : Sender} {w v : World} {ms : List TransportMove} {t : Transport}
    {m : TransportMove} (h : Carries sender w ms t v) (hstate : m.state? = none)
    (hrelease : m.release? = none) : Carries sender w (ms ++ [m]) t v := by
  have hattached : attachedIn (ms ++ [m]) = attachedIn ms := by
    simp [attachedIn, hstate]
  have hregistered : registeredIn (ms ++ [m]) = registeredIn ms := by
    simp [registeredIn, hrelease]
  refine ⟨?_, ?_⟩
  · rw [hattached, hregistered]
    exact h.transport
  · rw [hattached]
    exact h.released

theorem Carries.move {sender : Sender} {w v : World} {ms : List TransportMove} {t : Transport}
    (h : Carries sender w ms t v) (m : TransportMove) :
    Carries sender w (ms ++ [m]) (t.move v m).1 (t.move v m).2 := by
  have htransport := h.transport
  have hreleased := h.released
  cases m with
  | attach state =>
    have hattached : attachedIn (ms ++ [.attach state]) = attachedIn ms ++ [state] := by
      simp [attachedIn, TransportMove.state?]
    have hregistered : registeredIn (ms ++ [.attach state]) = registeredIn ms := by
      simp [registeredIn, TransportMove.release?]
    simp only [Transport.move, attach_eq]
    refine ⟨?_, ?_⟩
    · rw [hattached, hregistered, List.getLast?_concat, htransport]
    · rw [releasedIn_drop, hreleased, hattached, List.append_assoc]
      rfl
  | releaseThrough r =>
    have hattached : attachedIn (ms ++ [.releaseThrough r]) = attachedIn ms := by
      simp [attachedIn, TransportMove.state?]
    have hregistered : registeredIn (ms ++ [.releaseThrough r]) = registeredIn ms ++ [r] := by
      simp [registeredIn, TransportMove.release?]
    refine ⟨?_, ?_⟩
    · rw [hattached, hregistered, List.getLast?_concat, htransport]
      rfl
    · rw [hattached]
      exact hreleased
  | send e byWorker =>
    have hquiet : Carries sender w ms t ((t.send e byWorker v).getD v) := by
      refine ⟨htransport, ?_⟩
      rw [releasedIn_send]
      exact hreleased
    simpa [Transport.move] using hquiet.quiet rfl rfl
  | ask => exact h.quiet rfl rfl

theorem carries_moves (sender : Sender) (w : World) (ms : List TransportMove) :
    Carries sender w ms (moves sender w ms).1 (moves sender w ms).2 := by
  induction ms using List.reverseRecOn with
  | nil => exact ⟨rfl, rfl⟩
  | append_singleton ms m ih =>
    rw [moves_concat]
    exact ih.move m

/-- After any moves the states released and then the one carried are all that were attached, in
their order. The one carried is what a delivery sees, and what the next state or the drop releases,
through the function registered last; the drop completes the releases. -/
theorem releasedIn_moves (sender : Sender) (w : World) (ms : List TransportMove) :
    let (t, v) := moves sender w ms
    let carried := (attachedIn ms).getLast?
    let releases := carried.toList.map fun state => .released state (registeredIn ms).getLast?
    releasedIn v.notes ++ carried.toList = releasedIn w.notes ++ attachedIn ms ∧
      releasedIn (t.drop v).notes = releasedIn w.notes ++ attachedIn ms ∧
      (t.drop v).notes = v.notes ++ releases ∧
      (∀ next, (t.attach next v).2.notes = v.notes ++ releases) ∧
      (∀ e byWorker, t.send e byWorker v =
        match sender with
        | .recorded => some (v.note (.sent e carried byWorker))
        | .outbox => some (Outbox.store e carried v)
        | .crashing => none) ∧
      (t.state.isSome ↔ ∃ state, .attach state ∈ ms) := by
  obtain ⟨htransport, hreleased⟩ := carries_moves sender w ms
  generalize moves sender w ms = p at htransport hreleased ⊢
  obtain ⟨t, v⟩ := p
  dsimp only at htransport hreleased ⊢
  subst htransport
  have hdrop := notes_drop ⟨sender, (attachedIn ms).getLast?, (registeredIn ms).getLast?⟩ v
  refine ⟨hreleased, (releasedIn_drop _ v).trans hreleased, hdrop, ?_, ?_, ?_⟩
  · intro next
    rw [attach_eq]
    exact hdrop
  · intro e byWorker
    cases sender with
    | recorded => rfl
    | outbox => rfl
    | crashing => rfl
  · rw [List.getLast?_isSome]
    constructor
    · intro hsome
      obtain ⟨state, hstate⟩ := List.exists_mem_of_ne_nil _ hsome
      obtain ⟨m, hm, hattach⟩ := List.mem_filterMap.mp hstate
      cases m with
      | attach attached => exact ⟨attached, hm⟩
      | releaseThrough r => simp [TransportMove.state?] at hattach
      | send e byWorker => simp [TransportMove.state?] at hattach
      | ask => simp [TransportMove.state?] at hattach
    · rintro ⟨state, hstate⟩
      exact List.ne_nil_of_mem (List.mem_filterMap.mpr ⟨_, hstate, rfl⟩)

end Transport

end CrashCourier
