import CrashCourier.Engine
import CrashCourier.Proofs.Directories
import CrashCourier.Proofs.TransportNotes

namespace CrashCourier

open FileTree (Keeps)

theorem Outbox.keeps_store (e : Envelope) (state : Option TransportState) (w : World) :
    Keeps w.files (Outbox.store e state w).files := by
  unfold Outbox.store
  split
  · split
    · exact .refl _
    · simp only [World.nextFileId]
      split
      · exact .refl _
      · exact FileTree.keeps_write _ _ _
  · exact .refl _

theorem Transport.files_drop (t : Transport) (w : World) : (t.drop w).files = w.files := by
  unfold drop
  split <;> rfl

theorem Transport.keeps_send {t : Transport} {e : Envelope} {byWorker : Bool} {w w' : World}
    (h : t.send e byWorker w = some w') : Keeps w.files w'.files := by
  unfold send at h
  split at h
  · obtain rfl := Option.some.inj h
    exact .refl _
  · obtain rfl := Option.some.inj h
    exact Outbox.keeps_store e t.state w
  · simp at h

theorem Worker.keeps_deliver (t : Transport) (queue : List Envelope) (w : World) :
    Keeps w.files (Worker.deliver t queue w).2.files := by
  induction queue generalizing w with
  | nil => exact .refl _
  | cons e queue ih =>
    unfold Worker.deliver
    split
    · next w' hsend => exact (Transport.keeps_send hsend).trans (ih w')
    · rw [Transport.files_drop]
      exact .refl _

theorem Worker.keeps_stop (wk : Worker) (w : World) : Keeps w.files (wk.stop w).files := by
  have hdrain : Keeps w.files (wk.drain w).2.files := by
    cases wk with
    | running t queue => exact keeps_deliver t queue w
    | gone => exact .refl _
  unfold stop
  split
  · next t queue w' heq =>
    rw [heq] at hdrain
    rw [Transport.files_drop]
    exact hdrain
  · next w' heq =>
    rw [heq] at hdrain
    exact hdrain

namespace Site

variable {s : Site} {o : Options}

theorem engine_retire (session : Session) (s : Site) : (s.retire session).engine = s.engine := by
  unfold retire
  split <;> rfl

/-- What ran is gone, and so is what the scope held. -/
theorem engine_close {session : Session} (h : s.engine.session = some session) :
    s.close.engine = {} := by
  unfold close withdraw
  simp [h, clearScope, engine_retire]

theorem world_close {session : Session} (h : s.engine.session = some session) :
    s.close.world = (s.retire session).world := by
  unfold close withdraw retire
  simp only [h]
  split <;> rfl

theorem prepare_of_unmade {e : FileError} {files : FileTree}
    (h : s.world.files.makeDirectories o.databasePath = (.error e, files)) :
    s.prepare o = (.error (.files e), { s with world := { s.world with files } }) := by
  simp only [prepare, makeDatabase, h, Except.mapError]

theorem prepare_of_made {files : FileTree}
    (h : s.world.files.makeDirectories o.databasePath = (.ok (), files)) :
    s.prepare o = startThread o.transport { s with world := { s.world with files } } := by
  simp only [prepare, makeDatabase, h, Except.mapError]

theorem startThread_of_error {t : Transport} {e : FileError}
    (h : s.world.supply.threadError s.world.supply.threads = some e) :
    startThread (some t) s = (.error (.files e), { s with world := s.world.startThread.2 }) := by
  simp only [startThread, World.startThread, h, Except.mapError]

theorem startThread_of_none {t : Transport}
    (h : s.world.supply.threadError s.world.supply.threads = none) :
    startThread (some t) s = (.ok (), { s with world := s.world.startThread.2 }) := by
  simp only [startThread, World.startThread, h, Except.mapError]

/-- For a session the system makes directories and counts a thread, and that is all. -/
theorem site_prepare (s : Site) (o : Options) :
    ∃ threads, (s.prepare o).2 = { s with
      world := { s.world with
        files := (s.world.files.makeDirectories o.databasePath).2
        supply := { s.world.supply with threads } } } := by
  rcases h : s.world.files.makeDirectories o.databasePath with ⟨e | ⟨⟩, files⟩
  · rw [prepare_of_unmade h]
    exact ⟨s.world.supply.threads, rfl⟩
  · rw [prepare_of_made h]
    cases o.transport with
    | none => exact ⟨s.world.supply.threads, rfl⟩
    | some t => exact ⟨s.world.supply.threads + 1, rfl⟩

theorem engine_prepare (s : Site) (o : Options) : (s.prepare o).2.engine = s.engine := by
  obtain ⟨threads, h⟩ := s.site_prepare o
  rw [h]

theorem notes_prepare (s : Site) (o : Options) :
    (s.prepare o).2.world.notes = s.world.notes := by
  obtain ⟨threads, h⟩ := s.site_prepare o
  rw [h]

theorem files_prepare (s : Site) (o : Options) :
    (s.prepare o).2.world.files = (s.world.files.makeDirectories o.databasePath).2 := by
  obtain ⟨threads, h⟩ := s.site_prepare o
  rw [h]

/-- The directory comes first; a thread is started only for a transport. -/
theorem result_prepare (s : Site) (o : Options) :
    (s.prepare o).1 =
      match (s.world.files.makeDirectories o.databasePath).1, o.transport,
        s.world.supply.threadError s.world.supply.threads with
      | .error e, _, _ => .error (.files e)
      | .ok (), some _, some e => .error (.files e)
      | .ok (), _, _ => .ok () := by
  rcases h : s.world.files.makeDirectories o.databasePath with ⟨e | ⟨⟩, files⟩
  · rw [prepare_of_unmade h]
  · rw [prepare_of_made h]
    cases o.transport with
    | none => rfl
    | some t =>
      cases hthread : s.world.supply.threadError s.world.supply.threads with
      | none =>
        exact congrArg Prod.fst
          (startThread_of_none (s := { s with world := { s.world with files } }) hthread)
      | some e =>
        exact congrArg Prod.fst
          (startThread_of_error (s := { s with world := { s.world with files } }) hthread)

theorem of_prepare_ok {t : Transport} (h : (s.prepare o).1 = .ok ()) (ht : o.transport = some t) :
    (s.world.files.makeDirectories o.databasePath).1 = .ok () ∧
      s.world.supply.threadError s.world.supply.threads = none := by
  rw [result_prepare, ht] at h
  split at h
  · simp at h
  · simp at h
  · next hmade hthread =>
    refine ⟨hmade, Option.eq_none_iff_forall_ne_some.mpr fun e he => hthread t e rfl he⟩

/-- The system prepares a session after what ran before is gone. -/
theorem start_ok {t : Site} (h : s.close.prepare o = (.ok (), t)) :
    s.start o = (.ok (),
      { engine := {
          scope := s.close.engine.scope.setCapacity o.maxBreadcrumbs
          session := some (Session.ofOptions o) }
        world := t.world }) := by
  have hengine := engine_prepare s.close o
  rw [h] at hengine
  unfold start
  rw [h, ← hengine]
  rfl

theorem start_error {e : Failure} {t : Site} (h : s.close.prepare o = (.error e, t)) :
    s.start o = (.error e,
      { engine := s.close.engine, world := Transport.dropOption o.transport t.world }) := by
  have hengine := engine_prepare s.close o
  rw [h] at hengine
  unfold start
  rw [h, ← hengine]
  rfl

theorem result_start (s : Site) (o : Options) : (s.start o).1 = (s.close.prepare o).1 := by
  rcases h : s.close.prepare o with ⟨e | ⟨⟩, t⟩
  · rw [start_error h]
  · rw [start_ok h]

theorem engine_start_ok (h : (s.start o).1 = .ok ()) :
    (s.start o).2.engine =
      ⟨s.close.engine.scope.setCapacity o.maxBreadcrumbs, some (Session.ofOptions o)⟩ := by
  rcases hprepare : s.close.prepare o with ⟨e | ⟨⟩, t⟩
  · rw [start_error hprepare] at h
    simp at h
  · rw [start_ok hprepare]

theorem engine_start_error {e : Failure} (h : (s.start o).1 = .error e) :
    (s.start o).2.engine = s.close.engine := by
  rcases hprepare : s.close.prepare o with ⟨failure | ⟨⟩, t⟩
  · rw [start_error hprepare]
  · rw [start_ok hprepare] at h
    simp at h

/-- Even if nothing starts, the transport of what ran before is released. -/
theorem released_mem_start_error {e : Failure} (h : (s.start o).1 = .error e) {options : Options}
    {t : Transport} {queue : List Envelope} {state : TransportState}
    (running : s.engine.session = some ⟨options, some (.running t queue)⟩)
    (hstate : t.state = some state) :
    .released state t.onRelease ∈ (s.start o).2.world.notes.drop s.world.notes.length := by
  rcases hprepare : s.close.prepare o with ⟨failure | ⟨⟩, u⟩
  · obtain ⟨sends, hstop⟩ := Worker.notes_stop t queue s.world
    have hclose : s.close.world.notes = s.world.notes ++ (sends ++ t.releaseNotes) := by
      rw [world_close running, ← List.append_assoc]
      exact hstop
    have hnotes := notes_prepare s.close o
    rw [hprepare] at hnotes
    rw [start_error hprepare, Transport.notes_dropOption, hnotes, hclose, List.append_assoc,
      List.drop_left]
    have hmem : .released state t.onRelease ∈ t.releaseNotes := by
      simp [Transport.releaseNotes, hstate]
    exact List.mem_append_left _ (List.mem_append_right _ hmem)
  · rw [start_ok hprepare] at h
    simp at h

theorem keeps_close (s : Site) : Keeps s.world.files s.close.world.files := by
  cases h : s.engine.session with
  | none =>
    rw [close_of_not_running h]
    exact .refl _
  | some session =>
    rw [world_close h]
    unfold retire
    split
    · exact Worker.keeps_stop _ _
    · exact .refl _

theorem keeps_start (s : Site) (o : Options) :
    Keeps s.world.files (s.start o).2.world.files := by
  have hfiles := files_prepare s.close o
  have hkeeps := s.keeps_close.trans
    (FileTree.keeps_makeDirectories s.close.world.files o.databasePath)
  rw [← hfiles] at hkeeps
  rcases hprepare : s.close.prepare o with ⟨failure | ⟨⟩, t⟩
  · rw [hprepare] at hkeeps
    rw [start_error hprepare]
    cases o.transport with
    | none => exact hkeeps
    | some t =>
      rw [Transport.dropOption, Transport.files_drop]
      exact hkeeps
  · rw [hprepare] at hkeeps
    rw [start_ok hprepare]
    exact hkeeps

end Site

end CrashCourier
