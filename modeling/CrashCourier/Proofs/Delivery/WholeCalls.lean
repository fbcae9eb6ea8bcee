import CrashCourier.Proofs.EngineCalls
import CrashCourier.Proofs.Delivery.InOrder
import CrashCourier.Proofs.Sessions

namespace CrashCourier.Delivery

namespace Runtime

theorem Run.append {a b c : Runtime} {tr us : List Event} (h : Run a tr b) (h' : Run b us c) :
    Run a (tr ++ us) c := by
  induction h' with
  | start => rwa [List.append_nil]
  | step _ hs ih =>
    rw [← List.append_assoc]
    exact ih.step hs

def Reaches (a b : Runtime) : Prop := ∃ tr, Run a tr b

theorem Reaches.refl (a : Runtime) : Reaches a a := ⟨[], .start⟩

theorem Reaches.trans {a b c : Runtime} (h : Reaches a b) (h' : Reaches b c) : Reaches a c := by
  obtain ⟨tr, hab⟩ := h
  obtain ⟨us, hbc⟩ := h'
  exact ⟨_, hab.append hbc⟩

theorem Reaches.step {a b c : Runtime} {ev : Option Event} (h : Reaches a b) (hs : Step b ev c) :
    Reaches a c := by
  obtain ⟨tr, hab⟩ := h
  exact ⟨_, hab.step hs⟩

/-- Only one thread makes calls, and this is how far it has come. -/
structure Alone (a : Runtime) (x : Call) (scope : Scope) (w : World) (r : Option Running) :
    Prop where
  here : a.calls 0 = x
  others : ∀ c, c ≠ 0 → a.calls c = .idle
  scope : a.scope = scope
  world : a.world = w
  running : a.running = r

variable {a : Runtime} {x : Call} {scope : Scope} {w : World} {r : Option Running} {i : Nat}
  {l : WorkerThread}

theorem Alone.call (h : Alone a x scope w r) (y : Call) : Alone (a.call 0 y) y scope w r := by
  refine ⟨by simp [calls_call], fun c hc => ?_, h.scope, h.world, h.running⟩
  rw [calls_call, if_neg hc]
  exact h.others c hc

theorem Alone.setWorker (h : Alone a x scope w r) (i : Nat) (l : WorkerThread) :
    Alone (a.setWorker i l) x scope w r :=
  ⟨h.here, h.others, h.scope, h.world, h.running⟩

theorem Alone.inWorld (h : Alone a x scope w r) (w' : World) :
    Alone (a.inWorld w') x scope w' r :=
  ⟨h.here, h.others, h.scope, rfl, h.running⟩

theorem Alone.run (h : Alone a x scope w r) (r' : Option Running) : Alone (a.run r') x scope w r' :=
  ⟨h.here, h.others, h.scope, h.world, rfl⟩

theorem Alone.changeScope (h : Alone a x scope w r) (c : Scope.Change) :
    Alone (a.changeScope c) x (scope.change c) w r :=
  ⟨h.here, h.others, congrArg (Scope.change · c) h.scope, h.world, h.running⟩

theorem Alone.addWorker (h : Alone a x scope w r) (t : Transport) :
    Alone (a.addWorker t) x scope w r :=
  ⟨h.here, h.others, h.scope, h.world, h.running⟩

theorem Alone.clearScope (h : Alone a x scope w r) : Alone a.clearScope x Scope.fresh w r :=
  ⟨h.here, h.others, rfl, h.world, h.running⟩

theorem Alone.closeWorker (h : Alone a x scope w r) (worker : Option Nat) :
    Alone (a.closeWorker worker) x scope w r := by
  unfold Runtime.closeWorker
  split
  · exact h.setWorker _ _
  · exact h

theorem Alone.counted (h : Alone a x scope w r) : Alone a.counted x scope w r :=
  ⟨h.here, h.others, h.scope, h.world, h.running⟩

theorem Alone.unread (h : Alone a x scope w r) (hx : x.reads = false) : a.isUnread := by
  intro c
  by_cases hc : c = 0
  · rw [hc, h.here]
    exact hx
  · rw [h.others c hc]
    rfl

theorem getElem?_setWorker_self (worker : a.workers[i]? = some l) (l' : WorkerThread) :
    (a.setWorker i l').workers[i]? = some l' := by
  rw [getElem?_setWorker worker, if_pos rfl]

/-- A worker whose deliveries return sends all envelopes before the first answer. -/
theorem deliver_reaches {ps : List QueuedEnvelope} {rest : List Task} (h : Alone a x scope w r)
    (worker : a.workers[i]? = some l) (busy : l.busy = none)
    (queue : l.queue = ps.map Task.deliver ++ rest) (returns : l.transport.sender ≠ .crashing) :
    ∃ w' b, Worker.deliver l.transport (ps.map QueuedEnvelope.envelope) w =
        (.running l.transport [], w') ∧
      a.Reaches b ∧ Alone b x scope w' r ∧ b.workers[i]? = some { l with queue := rest } := by
  induction ps generalizing a l w with
  | nil =>
    have hrest : l.queue = rest := queue
    exact ⟨w, a, rfl, .refl a, h, hrest ▸ worker⟩
  | cons p ps ih =>
    obtain ⟨w₁, hsend⟩ : ∃ w₁, l.transport.send p.envelope true w = some w₁ := by
      unfold Transport.send
      cases hsender : l.transport.sender with
      | crashing => exact absurd hsender returns
      | recorded => exact ⟨_, rfl⟩
      | outbox => exact ⟨_, rfl⟩
    have htake := getElem?_setWorker_self worker
      { l with queue := ps.map Task.deliver ++ rest, busy := some p }
    have hfinish := getElem?_setWorker_self (a := (a.setWorker i _).inWorld w₁) htake
      { l with queue := ps.map Task.deliver ++ rest, busy := none }
    have hreach := ((Reaches.refl a).step (.take i l p _ worker busy queue)).step
      (.finish i _ p w₁ htake rfl (h.world ▸ hsend))
    obtain ⟨w', b, hdeliver, hb, hend, hlast⟩ :=
      ih (((h.setWorker _ _).inWorld w₁).setWorker _ _) hfinish rfl rfl returns
    refine ⟨w', b, ?_, hreach.trans hb, hend, ?_⟩
    · rw [List.map_cons, Worker.deliver, hsend]
      exact hdeliver
    · rw [hlast, busy]

/-- Whoever waits behind the envelopes gets an answer. -/
theorem answer_reaches {ps : List QueuedEnvelope} {k : Nat} (h : Alone a x scope w r)
    (worker : a.workers[i]? = some l) (busy : l.busy = none)
    (queue : l.queue = ps.map Task.deliver ++ [.answer k])
    (returns : l.transport.sender ≠ .crashing) :
    ∃ w' b, Worker.deliver l.transport (ps.map QueuedEnvelope.envelope) w =
        (.running l.transport [], w') ∧
      a.Reaches b ∧ Alone b x scope w' r ∧
      b.workers[i]? = some { l with queue := [], answered := k :: l.answered } := by
  obtain ⟨w', b, hdeliver, hreach, hb, hworker⟩ := deliver_reaches h worker busy queue returns
  exact ⟨w', _, hdeliver, hreach.step (.answer i _ k [] hworker busy rfl), hb.setWorker i _,
    getElem?_setWorker_self hworker _⟩

/-- A worker whose channel is empty and hung up goes, and whoever waits for that goes on. -/
theorem join_reaches {next : Option Options} (h : Alone a (.joining i next) scope w r)
    (worker : a.workers[i]? = some l) (busy : l.busy = none) (queue : l.queue = [])
    (closed : l.closed = true) (ended : l.ended = false) :
    ∃ b, a.Reaches b ∧ Alone b (.afterEnd next) Scope.fresh (l.transport.drop w) r := by
  obtain ⟨here, others, rfl, rfl, rfl⟩ := h
  have left : Alone ((a.inWorld (l.transport.drop a.world)).setWorker i { l with ended := true })
      (.joining i next) a.scope (l.transport.drop a.world) a.running :=
    ⟨here, others, rfl, rfl, rfl⟩
  have hgone := getElem?_setWorker_self (a := a.inWorld (l.transport.drop a.world)) worker
    { l with ended := true }
  refine ⟨_, (((Reaches.refl a).step (.leave i l worker busy queue closed ended)).step
    (.join 0 i _ next left.here hgone rfl)).step (.clear 0 (some i) next (left.call _).here), ?_⟩
  exact ((left.call _).clearScope).call _

/-- A worker that is not delivering at the moment. -/
structure Serves (l : WorkerThread) (t : Transport) (queue : List Envelope) : Prop where
  transport : l.transport = t
  queue : ∃ ps : List QueuedEnvelope,
    l.queue = ps.map Task.deliver ∧ ps.map QueuedEnvelope.envelope = queue
  busy : l.busy = none
  closed : l.closed = false
  ended : l.ended = false

theorem Serves.enqueue {t : Transport} {queue : List Envelope} (h : Serves l t queue)
    (p : QueuedEnvelope) :
    Serves { l with queue := l.queue ++ [.deliver p] } t (queue ++ [p.envelope]) := by
  obtain ⟨ps, hqueue, hps⟩ := h.queue
  exact ⟨h.transport, ⟨ps ++ [p], by simp [hqueue], by simp [hps]⟩, h.busy, h.closed, h.ended⟩

/-- What runs is the session of a site, whose deliveries return. -/
inductive Runs (a : Runtime) : Option Session → Option Running → Prop
  | nothing : Runs a none none
  | bare (o : Options) : Runs a (some ⟨o, none⟩) (some ⟨o, none⟩)
  | serving {o : Options} {t : Transport} {queue : List Envelope} {i : Nat} {l : WorkerThread}
      (worker : a.workers[i]? = some l) (serves : Serves l t queue)
      (returns : t.sender ≠ .crashing) :
      Runs a (some ⟨o, some (.running t queue)⟩) (some ⟨o, some i⟩)

/-- The runtime of a site between two calls. -/
structure Corresponds (s : Site) (a : Runtime) (r : Option Running) : Prop where
  alone : Alone a .idle s.engine.scope s.world r
  runs : Runs a s.engine.session r

variable {s : Site}

theorem Runs.sameWorkers {b : Runtime} {session : Option Session} (h : Runs a session r)
    (workers : b.workers = a.workers) : Runs b session r := by
  cases h with
  | nothing => exact .nothing
  | bare o => exact .bare o
  | serving worker serves returns => exact .serving (workers ▸ worker) serves returns

theorem Corresponds.changeScope (h : Corresponds s a r) (c : Scope.Change) :
    ∃ b, a.Reaches b ∧ Corresponds (s.changeScope c) b r := by
  exact ⟨a.changeScope c, (Reaches.refl a).step (.mutate c), h.alone.changeScope c,
    h.runs.sameWorkers rfl⟩

theorem Corresponds.around (h : Corresponds s a r) {w : World} (notes : w.notes = s.world.notes) :
    ∃ b, a.Reaches b ∧ Corresponds { s with world := w } b r :=
  ⟨a.inWorld w, (Reaches.refl a).step (.around w (h.alone.world ▸ notes)), h.alone.inWorld w,
    h.runs.sameWorkers rfl⟩

theorem Corresponds.capture (h : Corresponds s a r) (event : Value) :
    ∃ b, a.Reaches b ∧ Corresponds (s.capture event).2 b r := by
  obtain ⟨⟨scope, session⟩, w⟩ := s
  obtain ⟨alone, runs⟩ := h
  obtain ⟨here, others, rfl, rfl, running⟩ := alone
  have alone : Alone a .idle a.scope a.world r := ⟨here, others, rfl, rfl, running⟩
  have rest : ∃ b, a.Reaches b ∧ Corresponds ⟨⟨a.scope, session⟩, a.world⟩ b r :=
    ⟨a, .refl a, alone, runs⟩
  cases hobject : Site.isObject event with
  | false =>
    have hsame : ((⟨⟨a.scope, session⟩, a.world⟩ : Site).capture event).2 =
        ⟨⟨a.scope, session⟩, a.world⟩ := by
      cases session <;> simp [Site.capture, hobject]
    rwa [hsame]
  | true =>
    have taken := fun y => (alone.inWorld a.world.nextEventId.2).call y
    cases runs with
    | nothing => exact rest
    | bare o =>
      refine ⟨_, ((Reaches.refl a).step (.capture 0 _ event here running hobject)).step
        (.lose 0 _ (taken _).here), ?_, ?_⟩
      · simp only [Site.capture, hobject, ↓reduceIte]
        exact (taken _).call .idle
      · simp only [Site.capture, hobject, ↓reduceIte]
        exact .bare o
    | @serving o t queue i l worker serves returns =>
      refine ⟨_, ((Reaches.refl a).step (.capture 0 _ event here running hobject)).step
        (.queue 0 i l _ (taken _).here worker), ?_, ?_⟩
      · simp only [Site.capture, hobject, ↓reduceIte]
        exact ((taken _).counted.setWorker i _).call .idle
      · simp only [Site.capture, hobject, ↓reduceIte]
        exact .serving (getElem?_setWorker_self worker _) (serves.enqueue ⟨a.count, _⟩) returns

theorem Corresponds.work (h : Corresponds s a r) : ∃ b, a.Reaches b ∧ Corresponds s.work b r := by
  obtain ⟨⟨scope, session⟩, w⟩ := s
  obtain ⟨alone, runs⟩ := h
  have rest : ∃ b, a.Reaches b ∧ Corresponds ⟨⟨scope, session⟩, w⟩ b r := ⟨a, .refl a, alone, runs⟩
  cases runs with
  | nothing => exact rest
  | bare o => exact rest
  | @serving o t queue i l worker serves returns =>
    cases queue with
    | nil => exact rest
    | cons e queue =>
      obtain ⟨p, ps, hqueue, rfl, rfl⟩ : ∃ (p : QueuedEnvelope) (ps : List QueuedEnvelope),
          l.queue = [p].map Task.deliver ++ ps.map Task.deliver ∧ p.envelope = e ∧
            ps.map QueuedEnvelope.envelope = queue := by
        obtain ⟨qs, hqueue, hqs⟩ := serves.queue
        obtain ⟨p, ps, rfl, he, hps⟩ := List.map_eq_cons_iff.mp hqs
        exact ⟨p, ps, hqueue, he, hps⟩
      obtain rfl := serves.transport
      obtain ⟨w', b, hdeliver, hreach, hb, hworker⟩ :=
        deliver_reaches alone worker serves.busy hqueue returns
      have hsend : l.transport.send p.envelope true w = some w' := by
        cases hsend : l.transport.send p.envelope true w <;>
          simp_all [Worker.deliver]
      refine ⟨b, hreach, ?_, ?_⟩
      · simpa [Site.work, Worker.step, hsend] using hb
      · simpa [Site.work, Worker.step, hsend] using Runs.serving hworker
          ⟨rfl, ⟨ps, rfl, rfl⟩, serves.busy, serves.closed, serves.ended⟩ returns

theorem Corresponds.flush (h : Corresponds s a r) :
    ∃ b, a.Reaches b ∧ Corresponds s.flush.2 b r := by
  obtain ⟨⟨scope, session⟩, w⟩ := s
  obtain ⟨alone, runs⟩ := h
  have rest : ∃ b, a.Reaches b ∧ Corresponds ⟨⟨scope, session⟩, w⟩ b r := ⟨a, .refl a, alone, runs⟩
  cases runs with
  | nothing => exact rest
  | bare o => exact rest
  | @serving o t queue i l worker serves returns =>
    obtain ⟨ps, hqueue, rfl⟩ := serves.queue
    obtain rfl := serves.transport
    have hrunning : a.runningWorker = some i := runningWorker_eq alone.running
    have hasked := getElem?_setWorker_self worker
      { l with queue := l.queue ++ [.answer l.asked], asked := l.asked + 1 }
    obtain ⟨w', b, hdeliver, hreach, hb, hworker⟩ := answer_reaches
      ((alone.setWorker i _).call (.flushing i l.asked)) hasked serves.busy
      (congrArg (· ++ [.answer l.asked]) hqueue) returns
    have hcalled := (Reaches.refl a).step (.flush 0 i l alone.here hrunning worker)
    have hreturned := (hcalled.trans hreach).step
      (.flushed 0 i l.asked _ hb.here hworker List.mem_cons_self)
    have hruns : Runs b (some ⟨o, some (.running l.transport [])⟩) (some ⟨o, some i⟩) :=
      .serving hworker ⟨rfl, ⟨[], rfl, rfl⟩, serves.busy, serves.closed, serves.ended⟩ returns
    refine ⟨_, hreturned, ?_, ?_⟩
    · simpa [Site.flush, Worker.drain, hdeliver] using hb.call .idle
    · simpa [Site.flush, Worker.drain, hdeliver] using hruns.sameWorkers (b := b.call 0 .idle) rfl

/-- The end of a session, as a call of its own or before the start of the next one. -/
theorem Corresponds.end_reaches {session : Session} (h : Corresponds s a r)
    (hs : s.engine.session = some session) (next : Option Options) :
    ∃ b, a.Reaches b ∧ Alone b (.afterEnd next) Scope.fresh s.close.world none := by
  have hworld := Site.world_close hs
  obtain ⟨⟨scope, found⟩, w⟩ := s
  obtain rfl : found = some session := hs
  obtain ⟨alone, runs⟩ := h
  have withdrawn := fun y => (alone.run none).call y
  have hwithdraw : ∀ {q}, r = some q → a.Reaches ((a.run none).call 0 (.ending q.worker next)) :=
    fun hq => (Reaches.refl a).step
      (.withdraw 0 _ next alone.here (alone.running.trans hq) (alone.unread rfl))
  cases runs with
  | bare o =>
    have bare := (withdrawn (.ending none next)).call (.clearing none next)
    refine ⟨_, ((hwithdraw rfl).step (.endBare 0 next (withdrawn _).here)).step
      (.clear 0 none next bare.here), ?_⟩
    rw [hworld]
    exact bare.clearScope.call _
  | @serving o t queue i l worker serves returns =>
    obtain ⟨ps, hqueue, rfl⟩ := serves.queue
    obtain rfl := serves.transport
    have hasked := getElem?_setWorker_self (a := (a.run none).call 0 (.ending (some i) next)) worker
      { l with queue := l.queue ++ [.answer l.asked], asked := l.asked + 1 }
    obtain ⟨w', b, hdeliver, hreach, hb, hworker⟩ := answer_reaches
      (((withdrawn _).setWorker i _).call (.draining i l.asked next)) hasked serves.busy
      (congrArg (· ++ [.answer l.asked]) hqueue) returns
    have hdrained := ((hwithdraw rfl).step
      (.drain 0 i l next (withdrawn _).here worker)).trans hreach
    have hhung := (hdrained.step (.drained 0 i l.asked _ next hb.here hworker
      List.mem_cons_self)).step (.hangUp 0 i next (hb.call _).here)
    have hung := ((hb.call (.drained i next)).call (.joining i next)).closeWorker (some i)
    have hclose :=
      workers_closeWorker (s := (b.call 0 (.drained i next)).call 0 (.joining i next)) hworker
    rw [hclose] at hhung hung
    obtain ⟨c, hjoined, hc⟩ := join_reaches hung
      (getElem?_setWorker_self (a := (b.call 0 (.drained i next)).call 0 (.joining i next))
        hworker _)
      serves.busy rfl rfl serves.ended
    have hretired : (Site.retire ⟨o, some (.running l.transport (ps.map QueuedEnvelope.envelope))⟩
        ⟨⟨scope, some ⟨o, some (.running l.transport (ps.map QueuedEnvelope.envelope))⟩⟩,
          w⟩).world =
        l.transport.drop w' := by
      simp [Site.retire, Worker.stop, Worker.drain, hdeliver]
    rw [hworld, hretired]
    exact ⟨c, hhung.trans hjoined, hc⟩

theorem Corresponds.close (h : Corresponds s a r) :
    ∃ b q, a.Reaches b ∧ Corresponds s.close b q := by
  cases hs : s.engine.session with
  | none =>
    rw [Site.close_of_not_running hs]
    exact ⟨a, r, .refl a, h⟩
  | some session =>
    obtain ⟨b, hreach, hb⟩ := h.end_reaches hs none
    have hengine := Site.engine_close hs
    refine ⟨b, none, hreach, ?_, ?_⟩
    · rw [hengine]
      exact hb
    · rw [hengine]
      exact .nothing

theorem publish_reaches {o : Options} {worker : Option Nat}
    (h : Alone a (.sizing o worker) scope w none) :
    ∃ b, a.Reaches b ∧ b.workers = a.workers ∧ Alone b .idle (scope.setCapacity o.maxBreadcrumbs) w
      (some ⟨{ o with transport := none }, worker⟩) := by
  have sized := (h.changeScope (.setCapacity o.maxBreadcrumbs)).call (.publishing o worker)
  have hpublished := ((Reaches.refl a).step (.size 0 o worker h.here)).step
    (.publish 0 o worker sized.here (sized.unread rfl))
  have hnone : ((a.changeScope (.setCapacity o.maxBreadcrumbs)).call 0
      (.publishing o worker)).runningWorker = none := by
    rw [runningWorker, sized.running]
    rfl
  have hidle : ((a.changeScope (.setCapacity o.maxBreadcrumbs)).call 0
      (.publishing o worker)).afterPublish = .idle := by
    rw [afterPublish, hnone]
  rw [hnone, hidle] at hpublished
  exact ⟨_, hpublished, rfl, (((sized.run none).closeWorker none).run _).call _⟩

theorem refuse_reaches {t : Option Transport} (h : Alone a (.refused t) scope w none) :
    ∃ b, a.Reaches b ∧ Alone b .idle scope (Transport.dropOption t w) none := by
  have hrefused := (Reaches.refl a).step (.refuse 0 t h.here)
  rw [h.world] at hrefused
  exact ⟨_, hrefused, (h.inWorld _).call .idle⟩

/-- The start of a session, once the one before is gone. -/
theorem making_reaches {o : Options} (hs : s.close.engine.session = none)
    (h : Alone a (.making o) s.close.engine.scope s.close.world none)
    (returns : ∀ t, o.transport = some t → t.sender ≠ .crashing) :
    ∃ b q, a.Reaches b ∧ Corresponds (s.start o).2 b q := by
  have hworld := h.world
  rcases hmade : s.close.world.files.makeDirectories o.databasePath with ⟨⟨e⟩ | ⟨⟩, files⟩
  · have hfailed := (Reaches.refl a).step (.makeFailed 0 o e files h.here (hworld ▸ hmade))
    rw [hworld] at hfailed
    obtain ⟨b, hrefused, hb⟩ := refuse_reaches
      ((h.inWorld { s.close.world with files }).call (.refused o.transport))
    rw [Site.start_error (Site.prepare_of_unmade hmade)]
    exact ⟨b, none, hfailed.trans hrefused, hb, hs ▸ .nothing⟩
  · have made := (h.inWorld { s.close.world with files }).call (.spawning o)
    have hspawning := (Reaches.refl a).step (.make 0 o files h.here (hworld ▸ hmade))
    rw [hworld] at hspawning
    have hprepare := Site.prepare_of_made hmade
    cases ht : o.transport with
    | none =>
      rw [ht] at hprepare
      obtain ⟨b, hreach, -, hb⟩ := publish_reaches (made.call (.sizing o none))
      have hruns : Runs b (some (Session.ofOptions o))
          (some ⟨{ o with transport := none }, none⟩) := by
        rw [Session.ofOptions, ht]
        exact .bare _
      rw [Site.start_ok hprepare]
      exact ⟨b, _, (hspawning.step (.spawnNothing 0 o made.here ht)).trans hreach, hb, hruns⟩
    | some t =>
      rw [ht] at hprepare
      -- That a thread was asked for is something that goes on in the world.
      have asked := made.inWorld { s.close.world with files }.startThread.2
      have hasked := hspawning.step (.around { s.close.world with files }.startThread.2 rfl)
      cases hthread : s.close.world.supply.threadError s.close.world.supply.threads with
      | some e =>
        obtain ⟨b, hrefused, hb⟩ := refuse_reaches (asked.call (.refused o.transport))
        rw [Site.start_error (hprepare.trans (Site.startThread_of_error hthread))]
        exact ⟨b, none, (hasked.step (.spawnFailed 0 o asked.here)).trans hrefused, hb,
          hs ▸ .nothing⟩
      | none =>
        obtain ⟨b, hreach, hworkers, hb⟩ := publish_reaches
          ((asked.addWorker t).call (.sizing o (some a.workers.length)))
        have hworker : b.workers[a.workers.length]? = some { transport := t } := by
          rw [hworkers]
          exact List.getElem?_concat_length
        have hruns : Runs b (some (Session.ofOptions o))
            (some ⟨{ o with transport := none }, some a.workers.length⟩) := by
          rw [Session.ofOptions, ht]
          exact .serving hworker ⟨rfl, ⟨[], rfl, rfl⟩, rfl, rfl, rfl⟩ (returns t ht)
        rw [Site.start_ok (hprepare.trans (Site.startThread_of_none hthread))]
        exact ⟨b, _, (hasked.step (.spawn 0 o t asked.here ht)).trans hreach, hb, hruns⟩

theorem Corresponds.start {o : Options} (h : Corresponds s a r)
    (returns : ∀ t, o.transport = some t → t.sender ≠ .crashing) :
    ∃ b q, a.Reaches b ∧ Corresponds (s.start o).2 b q := by
  cases hs : s.engine.session with
  | none =>
    have hclose := Site.close_of_not_running hs
    obtain rfl : r = none := by
      have hruns := h.runs
      rw [hs] at hruns
      cases hruns
      rfl
    have hwithdrawn := (Reaches.refl a).step
      (.withdrawNothing 0 o h.alone.here h.alone.running (h.alone.unread rfl))
    obtain ⟨c, q, hstart, hc⟩ := making_reaches (by rw [hclose, hs])
      (by rw [hclose]; exact h.alone.call (.making o)) returns
    exact ⟨c, q, hwithdrawn.trans hstart, hc⟩
  | some session =>
    obtain ⟨b, hreach, hb⟩ := h.end_reaches hs (some o)
    have hengine := Site.engine_close hs
    obtain ⟨c, q, hstart, hc⟩ := making_reaches (by rw [hengine]) (by rwa [hengine]) returns
    exact ⟨c, q, hreach.trans hstart, hc⟩

theorem Corresponds.act (h : Corresponds s a r) (d : EngineCall) :
    ∃ b q, a.Reaches b ∧ Corresponds (s.act d) b q := by
  have same : ∀ {s'}, (∃ b, a.Reaches b ∧ Corresponds s' b r) →
      ∃ b q, a.Reaches b ∧ Corresponds s' b q := fun ⟨b, hreach, hb⟩ => ⟨b, r, hreach, hb⟩
  cases d with
  | change c => exact same (h.changeScope c)
  | capture event => exact same (h.capture event)
  | work => exact same h.work
  | flush => exact same h.flush
  | shutDown => exact h.close
  | wait moment => exact same (h.around rfl)

end Runtime

/-- The sites that calls made one after the other lead to, where all deliveries return. -/
inductive Reachable (w : World) : Site → Prop
  | fresh : Reachable w { world := w }
  | act {s : Site} (reachable : Reachable w s) (d : EngineCall) : Reachable w (s.act d)
  | start {s : Site} (reachable : Reachable w s) (o : Options)
      (returns : ∀ t, o.transport = some t → t.sender ≠ .crashing) : Reachable w (s.start o).2

open Delivery.Runtime in
/-- What calls made one after the other record is what some run records, with deliveries in
order. -/
theorem Reachable.inOrder {w : World} {s : Site} (h : Reachable w s) :
    ∃ tr, InOrder tr ∧ s.world.notes = w.notes ++ tr.flatMap Event.notes := by
  have hrun : ∃ a r, (initial Scope.fresh w).Reaches a ∧ Corresponds s a r := by
    induction h with
    | fresh =>
      exact ⟨_, none, .refl _, ⟨⟨rfl, fun _ _ => rfl, rfl, rfl, rfl⟩, .nothing⟩⟩
    | act reachable d ih =>
      obtain ⟨a, r, hreach, hs⟩ := ih
      obtain ⟨b, q, hact, hb⟩ := hs.act d
      exact ⟨b, q, hreach.trans hact, hb⟩
    | start reachable o returns ih =>
      obtain ⟨a, r, hreach, hs⟩ := ih
      obtain ⟨b, q, hstart, hb⟩ := hs.start returns
      exact ⟨b, q, hreach.trans hstart, hb⟩
  obtain ⟨a, r, ⟨tr, hrun⟩, hs⟩ := hrun
  exact ⟨tr, ((traceInvariant_initial Scope.fresh w).run hrun).inOrder, hs.alone.world ▸ hrun.notes⟩

end CrashCourier.Delivery
