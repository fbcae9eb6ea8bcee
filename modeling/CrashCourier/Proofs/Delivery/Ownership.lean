import CrashCourier.Proofs.Delivery.Runtime

namespace CrashCourier.Delivery.Runtime

def IsOpen (s : Runtime) (i : Nat) : Prop := ∃ l, s.workers[i]? = some l ∧ l.closed = false

def Gone (s : Runtime) (i : Nat) : Prop := ∃ l, s.workers[i]? = some l ∧ l.ended = true

/-- Nobody could send to the worker. -/
def Unowned (s : Runtime) (i : Nat) : Prop :=
  s.runningWorker ≠ some i ∧ ∀ c, (s.calls c).holds ≠ some i

structure Owned (s : Runtime) : Prop where
  running : ∀ i, s.runningWorker = some i → s.IsOpen i
  held : ∀ c i, (s.calls c).holds = some i → s.IsOpen i ∧ s.runningWorker ≠ some i
  alone : ∀ c d i, (s.calls c).holds = some i → (s.calls d).holds = some i → c = d
  borrowed : ∀ c i, (s.calls c).borrows = some i → s.runningWorker = some i
  gone : ∀ c i next, s.calls c = .clearing (some i) next → s.Gone i

variable {s s' : Runtime} {c i : Nat} {l l' : WorkerThread}

theorem owned_initial (scope : Scope) (w : World) : Owned (initial scope w) := by
  constructor <;> simp [initial, runningWorker, Call.holds, Call.borrows]

theorem reads_of_borrows {x : Call} (h : x.borrows = some i) : x.reads = true := by
  cases x <;> simp_all [Call.borrows, Call.reads]

theorem runningWorker_eq {r : Running} (h : s.running = some r) : s.runningWorker = r.worker := by
  simp [runningWorker, h]

theorem workers_closeWorker (worker : s.workers[i]? = some l) :
    s.closeWorker (some i) = s.setWorker i { l with closed := true } := by
  simp [closeWorker, worker]

theorem calls_closeWorker (worker : Option Nat) : (s.closeWorker worker).calls = s.calls := by
  unfold closeWorker
  split <;> rfl

theorem world_closeWorker (worker : Option Nat) : (s.closeWorker worker).world = s.world := by
  unfold closeWorker
  split <;> rfl

theorem count_closeWorker (worker : Option Nat) : (s.closeWorker worker).count = s.count := by
  unfold closeWorker
  split <;> rfl

theorem runningWorker_closeWorker (worker : Option Nat) :
    (s.closeWorker worker).runningWorker = s.runningWorker := by
  unfold closeWorker
  split <;> rfl

theorem getElem?_setWorker (worker : s.workers[i]? = some l) (j : Nat) :
    (s.setWorker i l').workers[j]? = if i = j then some l' else s.workers[j]? := by
  have hi : i < s.workers.length := (List.getElem?_eq_some_iff.mp worker).1
  simp only [setWorker, List.getElem?_set]
  split
  · next h =>
    subst h
    simp
  · rfl

theorem IsOpen.setWorker (worker : s.workers[i]? = some l) (closed : l'.closed = l.closed) {j : Nat}
    (h : s.IsOpen j) : (s.setWorker i l').IsOpen j := by
  obtain ⟨m, hm, hopen⟩ := h
  by_cases hij : i = j
  · subst hij
    obtain rfl := Option.some.inj (worker.symm.trans hm)
    exact ⟨l', by simp [getElem?_setWorker worker], closed.trans hopen⟩
  · exact ⟨m, by simpa [getElem?_setWorker worker, hij] using hm, hopen⟩

theorem Gone.setWorker (worker : s.workers[i]? = some l) (ended : l.ended = true → l'.ended = true)
    {j : Nat} (h : s.Gone j) : (s.setWorker i l').Gone j := by
  obtain ⟨m, hm, hended⟩ := h
  by_cases hij : i = j
  · subst hij
    obtain rfl := Option.some.inj (worker.symm.trans hm)
    exact ⟨l', by simp [getElem?_setWorker worker], ended hended⟩
  · exact ⟨m, by simpa [getElem?_setWorker worker, hij] using hm, hended⟩

theorem Owned.workers (h : Owned s) (calls : s'.calls = s.calls)
    (running : s'.runningWorker = s.runningWorker)
    (isOpen : ∀ j, s.runningWorker = some j ∨ (∃ c, (s.calls c).holds = some j) →
      s.IsOpen j → s'.IsOpen j)
    (gone : ∀ j, s.Gone j → s'.Gone j) : Owned s' where
  running := by
    intro j hj
    rw [running] at hj
    exact isOpen j (Or.inl hj) (h.running j hj)
  held := by
    intro c j hj
    rw [calls] at hj
    obtain ⟨hopen, hne⟩ := h.held c j hj
    exact ⟨isOpen j (Or.inr ⟨c, hj⟩) hopen, by rwa [running]⟩
  alone := by
    rw [calls]
    exact h.alone
  borrowed := by
    rw [calls, running]
    exact h.borrowed
  gone := by
    intro c j next hc
    rw [calls] at hc
    exact gone j (h.gone c j next hc)

/-- What is neither a worker nor a call nor the running session does not matter. -/
theorem Owned.frame (h : Owned s) (calls : s'.calls = s.calls) (workers : s'.workers = s.workers)
    (running : s'.runningWorker = s.runningWorker) : Owned s' :=
  h.workers calls running (fun _ _ ⟨m, hm, hopen⟩ => ⟨m, workers ▸ hm, hopen⟩)
    fun _ ⟨m, hm, hended⟩ => ⟨m, workers ▸ hm, hended⟩

theorem Owned.setWorker (h : Owned s) (worker : s.workers[i]? = some l)
    (closed : l'.closed = l.closed) (ended : l.ended = true → l'.ended = true) :
    Owned (s.setWorker i l') :=
  h.workers rfl rfl (fun _ _ hj => hj.setWorker worker closed) fun _ hj => hj.setWorker worker ended

theorem Owned.closeWorker (h : Owned s) {worker : Option Nat}
    (free : ∀ i, worker = some i → s.Unowned i) : Owned (s.closeWorker worker) := by
  unfold Runtime.closeWorker
  split
  · next i l heq =>
    obtain ⟨i', hworker, hl⟩ := Option.bind_eq_some_iff.mp heq
    obtain ⟨l', hl', heq'⟩ := Option.map_eq_some_iff.mp hl
    obtain ⟨rfl, rfl⟩ := Prod.mk.inj heq'
    obtain ⟨hrunning, hheld⟩ := free i' hworker
    refine h.workers rfl rfl ?_ fun _ hj => hj.setWorker hl' (by exact fun he => he)
    intro j hj ⟨m, hm, hopen⟩
    have hij : i' ≠ j := by
      rintro rfl
      rcases hj with hj | ⟨c, hc⟩
      · exact hrunning hj
      · exact hheld c hc
    exact ⟨m, by simpa [getElem?_setWorker hl', hij] using hm, hopen⟩
  · exact h

theorem getElem?_addWorker {t : Transport} {j : Nat} {m : WorkerThread}
    (h : s.workers[j]? = some m) : (s.addWorker t).workers[j]? = some m := by
  have hj : j < s.workers.length := (List.getElem?_eq_some_iff.mp h).1
  simpa [addWorker, List.getElem?_append_left hj] using h

theorem Owned.addWorker (h : Owned s) (t : Transport) : Owned (s.addWorker t) :=
  h.workers rfl rfl (fun _ _ ⟨m, hm, hopen⟩ => ⟨m, getElem?_addWorker hm, hopen⟩)
    fun _ ⟨m, hm, hended⟩ => ⟨m, getElem?_addWorker hm, hended⟩

theorem IsOpen.lt {j : Nat} (h : s.IsOpen j) : j < s.workers.length := by
  obtain ⟨m, hm, -⟩ := h
  exact (List.getElem?_eq_some_iff.mp hm).1

theorem calls_call (x : Call) (d : Nat) :
    (s.call c x).calls d = if d = c then x else s.calls d := by
  simp [call, Function.update_apply]

/-- A call may keep what it has, take a worker that nobody has, or give up what it has. -/
theorem Owned.call (h : Owned s) {x : Call}
    (holds : ∀ i, x.holds = some i →
      (s.calls c).holds = some i ∨ (s.IsOpen i ∧ s.Unowned i))
    (borrows : ∀ i, x.borrows = some i → s.runningWorker = some i)
    (gone : ∀ i next, x = .clearing (some i) next → s.Gone i) : Owned (s.call c x) where
  running := h.running
  held := by
    intro d i hd
    rw [calls_call] at hd
    split at hd
    · rcases holds i hd with hc | ⟨hopen, hfree⟩
      · exact h.held c i hc
      · exact ⟨hopen, hfree.1⟩
    · exact h.held d i hd
  alone := by
    have mine : ∀ d i, d ≠ c → x.holds = some i → (s.calls d).holds ≠ some i := by
      intro d i hne hx hd
      rcases holds i hx with hc | ⟨-, hfree⟩
      · exact hne (h.alone d c i hd hc)
      · exact hfree.2 d hd
    intro d e i hd he
    rw [calls_call] at hd he
    split at hd <;> split at he
    · next hdc hec => exact hdc.trans hec.symm
    · next hdc hec => exact absurd he (mine e i hec hd)
    · next hdc hec => exact absurd hd (mine d i hdc he)
    · exact h.alone d e i hd he
  borrowed := by
    intro d i hd
    rw [calls_call] at hd
    split at hd
    · exact borrows i hd
    · exact h.borrowed d i hd
  gone := by
    intro d i next hd
    rw [calls_call] at hd
    split at hd
    · exact gone i next hd
    · exact h.gone d i next hd

theorem Owned.letGo (h : Owned s) {x : Call} (holds : x.holds = none) (borrows : x.borrows = none)
    (clearing : ∀ i next, x ≠ .clearing (some i) next) : Owned (s.call c x) :=
  h.call (fun i hi => by simp [holds] at hi) (fun i hi => by simp [borrows] at hi)
    fun i next hx => absurd hx (clearing i next)

theorem Owned.halt (h : Owned s) (unread : s.isUnread) : Owned (s.run none) where
  running := by simp [run, runningWorker]
  held := fun c i hc => ⟨(h.held c i hc).1, by simp [run, runningWorker]⟩
  alone := h.alone
  borrowed := by
    intro c i hc
    have hreads := reads_of_borrows hc
    exact absurd hreads (by simp [unread c, run])
  gone := h.gone

/-- After the session is taken out, nobody has its worker. -/
theorem Owned.unowned_of_halt (h : Owned s) (hi : s.runningWorker = some i) :
    (s.run none).Unowned i :=
  ⟨by simp [run, runningWorker], fun c hc => (h.held c i hc).2 hi⟩

/-- A call that has a worker passes it to the session that now runs. -/
theorem Owned.publish (h : Owned s) (stopped : s.runningWorker = none) {r : Running}
    (holds : ∀ i, r.worker = some i → (s.calls c).holds = some i) {x : Call} (free : x.holds = none)
    (borrows : x.borrows = none) (clearing : ∀ i next, x ≠ .clearing (some i) next) :
    Owned ((s.run (some r)).call c x) := by
  have hworker : (s.run (some r)).runningWorker = r.worker := rfl
  have hidle : ∀ d i, (s.calls d).borrows ≠ some i := by
    intro d i hd
    simpa [stopped] using h.borrowed d i hd
  constructor
  case running =>
    intro i hi
    exact (h.held c i (holds i hi)).1
  case held =>
    intro d i hd
    rw [calls_call] at hd
    split at hd
    · simp [free] at hd
    · next hdc =>
      exact ⟨(h.held d i hd).1, fun hi => hdc (h.alone d c i hd (holds i hi))⟩
  case alone =>
    intro d e i hd he
    rw [calls_call] at hd he
    split at hd
    · simp [free] at hd
    · split at he
      · simp [free] at he
      · exact h.alone d e i hd he
  case borrowed =>
    intro d i hd
    rw [calls_call] at hd
    split at hd
    · simp [borrows] at hd
    · exact absurd hd (hidle d i)
  case gone =>
    intro d i next hd
    rw [calls_call] at hd
    split at hd
    · exact absurd hd (clearing i next)
    · exact h.gone d i next hd

/-- What a call does with the worker it has, when no other worker comes into play. -/
theorem Owned.keep (h : Owned s) {x : Call} (holds : x.holds = (s.calls c).holds ∨ x.holds = none)
    (borrows : x.borrows = none) (clearing : ∀ i next, x ≠ .clearing (some i) next) :
    Owned (s.call c x) := by
  refine h.call ?_ (fun i hi => by simp [borrows] at hi) fun i next hx =>
    absurd hx (clearing i next)
  intro i hi
  rcases holds with hx | hx
  · exact Or.inl (hx.symm.trans hi)
  · simp [hx] at hi

theorem Owned.inWorld (h : Owned s) (w : World) : Owned (s.inWorld w) := h.frame rfl rfl rfl

/-- A worker is asked for an answer. -/
theorem Owned.ask (h : Owned s) (worker : s.workers[i]? = some l) :
    Owned (s.setWorker i { l with queue := l.queue ++ [.answer l.asked], asked := l.asked + 1 }) :=
  h.setWorker worker rfl fun he => he

theorem Owned.captured (h : Owned s) {r : Running} (running : s.running = some r) (w : World)
    (e : Envelope) : Owned ((s.inWorld w).call c (.capturing r.worker e)) := by
  refine (h.inWorld w).call (by simp [Call.holds]) ?_ (by simp)
  intro i hi
  exact (runningWorker_eq running).trans hi

theorem Owned.queued (h : Owned s) (worker : s.workers[i]? = some l) (e : Envelope) :
    Owned ((s.counted.setWorker i
      { l with queue := l.queue ++ [.deliver ⟨s.count, e⟩] }).call c .idle) := by
  have hcounted : Owned s.counted := h.frame rfl rfl rfl
  have hworker : Owned
      (s.counted.setWorker i { l with queue := l.queue ++ [.deliver ⟨s.count, e⟩] }) :=
    hcounted.setWorker worker rfl fun he => he
  exact hworker.letGo rfl rfl (by simp)

theorem Owned.flushing (h : Owned s) (running : s.runningWorker = some i)
    (worker : s.workers[i]? = some l) (k : Nat) :
    Owned ((s.setWorker i
      { l with queue := l.queue ++ [.answer l.asked], asked := l.asked + 1 }).call c
        (.flushing i k)) := by
  refine (h.ask worker).call (by simp [Call.holds]) ?_ (by simp)
  rintro j ⟨⟩
  exact running

theorem Owned.withdrawn (h : Owned s) {r : Running} (running : s.running = some r)
    (unread : s.isUnread) (next : Option Options) :
    Owned ((s.run none).call c (.ending r.worker next)) := by
  refine (h.halt unread).call ?_ (by simp [Call.borrows]) (by simp)
  intro i hi
  have hworker : s.runningWorker = some i := (runningWorker_eq running).trans hi
  exact Or.inr ⟨h.running i hworker, h.unowned_of_halt hworker⟩

/-- The call gives up its worker and then closes it: nobody else can send to it. -/
theorem Owned.hungUp (h : Owned s) {next : Option Options} (here : s.calls c = .drained i next) :
    Owned ((s.call c (.joining i next)).closeWorker (some i)) := by
  have hc : Owned (s.call c (.joining i next)) := h.letGo rfl rfl (by simp)
  refine hc.closeWorker ?_
  rintro j ⟨⟩
  have hheld : (s.calls c).holds = some i := by simp [here, Call.holds]
  refine ⟨(h.held c i hheld).2, ?_⟩
  intro d hd
  rw [calls_call] at hd
  split at hd
  · simp [Call.holds] at hd
  · next hdc => exact hdc (h.alone d c i hd hheld)

theorem Owned.joined (h : Owned s) (worker : s.workers[i]? = some l) (ended : l.ended = true)
    (next : Option Options) : Owned (s.call c (.clearing (some i) next)) := by
  refine h.call (by simp [Call.holds]) (by simp [Call.borrows]) ?_
  rintro j n hx
  obtain ⟨⟨⟩, -⟩ := Call.clearing.inj hx
  exact ⟨l, worker, ended⟩

/-- A new worker is none of those that are in use. -/
theorem Owned.spawned (h : Owned s) (o : Options) (t : Transport) :
    Owned ((s.addWorker t).call c (.sizing o (some s.workers.length))) := by
  refine (h.addWorker t).call ?_ (by simp [Call.borrows]) (by simp)
  rintro i ⟨⟩
  refine Or.inr ⟨⟨{ transport := t }, by simp [Runtime.addWorker], rfl⟩, ?_, ?_⟩
  · exact fun hr => Nat.lt_irrefl _ (h.running _ hr).lt
  · exact fun d hd => Nat.lt_irrefl _ (h.held d _ hd).1.lt

theorem Owned.published {o : Options} {worker : Option Nat} (h : Owned s) (unread : s.isUnread)
    (here : s.calls c = .publishing o worker) :
    Owned ((((s.run none).closeWorker s.runningWorker).run
      (some ⟨{ o with transport := none }, worker⟩)).call c s.afterPublish) := by
  have hstopped : Owned ((s.run none).closeWorker s.runningWorker) :=
    (h.halt unread).closeWorker fun i hi => h.unowned_of_halt hi
  have hcalls : ((s.run none).closeWorker s.runningWorker).calls = s.calls := calls_closeWorker _
  have hnone : ((s.run none).closeWorker s.runningWorker).runningWorker = none :=
    runningWorker_closeWorker _
  refine hstopped.publish hnone ?_ ?_ ?_ ?_
  · intro i hi
    simpa [hcalls, here, Call.holds] using hi
  all_goals
    cases hworker : s.runningWorker <;> simp [afterPublish, hworker, Call.holds, Call.borrows]

theorem Owned.step {ev : Option Event} (h : Owned s) (hs : Step s ev s') : Owned s' := by
  cases hs with
  | mutate x => exact h.frame rfl rfl rfl
  | around w notes => exact h.inWorld w
  | capture c r event idle running object => exact h.captured running _ _
  | queue c i l e here worker => exact h.queued worker e
  | lose c e here => exact h.letGo rfl rfl (by simp)
  | flush c i l idle running worker => exact h.flushing running worker l.asked
  | flushed c i k l here worker answer => exact h.letGo rfl rfl (by simp)
  | flushTimedOut c i k here => exact h.letGo rfl rfl (by simp)
  | withdraw c r next idle running unread => exact h.withdrawn running unread next
  | withdrawNothing c o idle running unread => exact h.letGo rfl rfl (by simp)
  | drain c i l next here worker =>
    exact (h.ask worker).keep (Or.inl (congrArg Call.holds here).symm) rfl (by simp)
  | endBare c next here => exact h.letGo rfl rfl (by simp)
  | drained c i k l next here worker answer =>
    exact h.keep (Or.inl (congrArg Call.holds here).symm) rfl (by simp)
  | drainTimedOut c i k next here =>
    exact h.keep (Or.inl (congrArg Call.holds here).symm) rfl (by simp)
  | hangUp c i next here => exact h.hungUp here
  | join c i l next here worker ended => exact h.joined worker ended next
  | clear c worker next here =>
    have hcleared : Owned s.clearScope := h.frame rfl rfl rfl
    cases next <;> exact hcleared.letGo rfl rfl (by simp [Call.afterEnd])
  | make c o files here made => exact (h.inWorld _).letGo rfl rfl (by simp)
  | makeFailed c o e files here failed => exact (h.inWorld _).letGo rfl rfl (by simp)
  | spawn c o t here transport => exact h.spawned o t
  | spawnNothing c o here transport => exact h.letGo rfl rfl (by simp)
  | spawnFailed c o here => exact h.letGo rfl rfl (by simp)
  | refuse c t here => exact (h.inWorld _).letGo rfl rfl (by simp)
  | size c o worker here =>
    have hsized : Owned (s.changeScope (.setCapacity o.maxBreadcrumbs)) := h.frame rfl rfl rfl
    exact hsized.keep (Or.inl (congrArg Call.holds here).symm) rfl (by simp)
  | publish c o worker here unread => exact h.published unread here
  | replaced c i l here worker ended => exact h.letGo rfl rfl (by simp)
  | take i l p q worker idle queue => exact h.setWorker worker rfl fun he => he
  | finish i l p w worker working sent => exact (h.inWorld w).setWorker worker rfl fun he => he
  | answer i l k q worker idle queue => exact h.setWorker worker rfl fun he => he
  | leave i l worker idle empty closed present =>
    exact (h.inWorld _).setWorker worker rfl fun _ => rfl

theorem Owned.run {w : Runtime} {tr : List Event} (h : Owned s) (hr : Run s tr w) : Owned w := by
  induction hr with
  | start => exact h
  | step _ hs ih => exact ih.step hs

end CrashCourier.Delivery.Runtime
