import CrashCourier.Proofs.Delivery.Ownership
import CrashCourier.Proofs.TransportNotes
import Mathlib.Data.List.Nodup

namespace CrashCourier.Delivery

namespace Event

def capture? : Event → Option (Nat × QueuedEnvelope)
  | captured i p => some (i, p)
  | _ => none

def notes : Event → List Note
  | sent _ t p => t.sendNotes p.envelope true
  | released _ t => t.releaseNotes
  | discarded t => t.releaseNotes
  | _ => []

end Event

def captures (tr : List Event) : List (Nat × QueuedEnvelope) := tr.filterMap Event.capture?

/-- The envelopes of each session are passed to its transport in order and once, they are all sent
when its end is over, and its transport is released once, after the last of them. -/
structure InOrder (tr : List Event) : Prop where
  ordered : ∀ i, handedIn i tr <+: capturedIn i tr
  once : ∀ i, ((handedIn i tr).map QueuedEnvelope.number).Nodup
  own : ∀ i t p, .handed i t p ∈ tr →
    .started i t ∈ tr ∧ ∀ j q, .captured j q ∈ tr → q.number = p.number → j = i
  flushed : ∀ pre i k post, tr = pre ++ .flushReturned i k true :: post →
    ∃ before since, pre = before ++ .flushCalled i k :: since ∧
      .flushCalled i k ∉ before ++ since ∧ capturedIn i before <+: sentIn i pre
  closed : ∀ pre i post, tr = pre ++ .closeReturned i :: post →
    sentIn i pre = capturedIn i tr ∧ ∃ t, .released i t ∈ pre
  released : ∀ pre i t post, tr = pre ++ .released i t :: post →
    .started i t ∈ tr ∧ sentIn i pre = capturedIn i tr ∧ handedIn i post = [] ∧
      sentIn i post = [] ∧ ∀ u, .released i u ∉ pre ++ post

theorem captures_append (tr us : List Event) : captures (tr ++ us) = captures tr ++ captures us :=
  List.filterMap_append

theorem mem_captures {tr : List Event} {i : Nat} {p : QueuedEnvelope} :
    (i, p) ∈ captures tr ↔ .captured i p ∈ tr := by
  rw [captures, List.mem_filterMap]
  constructor
  · rintro ⟨e, he, heq⟩
    cases e <;> simp_all [Event.capture?]
  · exact fun h => ⟨_, h, rfl⟩

theorem capturedIn_sublist (i : Nat) (tr : List Event) :
    (capturedIn i tr).Sublist ((captures tr).map Prod.snd) := by
  induction tr with
  | nil => exact .slnil
  | cons e tr ih =>
    cases e with
    | captured j p =>
      by_cases hj : j = i
      · simpa [capturedIn, captures, Event.captured?, Event.capture?, hj] using ih
      · simpa [capturedIn, captures, Event.captured?, Event.capture?, hj] using ih.cons p
    | _ => exact ih

theorem mem_capturedIn {tr : List Event} {i : Nat} {p : QueuedEnvelope} :
    p ∈ capturedIn i tr ↔ .captured i p ∈ tr := by
  rw [capturedIn, List.mem_filterMap]
  constructor
  · rintro ⟨e, he, heq⟩
    cases e <;> simp_all [Event.captured?]
  · exact fun h => ⟨_, h, by simp [Event.captured?]⟩

theorem mem_handedIn {tr : List Event} {i : Nat} {t : Transport} {p : QueuedEnvelope}
    (h : .handed i t p ∈ tr) : p ∈ handedIn i tr :=
  List.mem_filterMap.mpr ⟨_, h, by simp [Event.handed?]⟩

theorem mem_askedIn {tr : List Event} {i k : Nat} : k ∈ askedIn i tr ↔ .flushCalled i k ∈ tr := by
  rw [askedIn, List.mem_filterMap]
  constructor
  · rintro ⟨e, he, heq⟩
    cases e <;> simp_all [Event.asked?]
  · exact fun h => ⟨_, h, by simp [Event.asked?]⟩

namespace WorkerThread

variable {tr : List Event} {i k : Nat} {l : WorkerThread}

theorem Sound.handed_le (h : Sound tr i l) : handedIn i tr <+: capturedIn i tr :=
  ⟨queuedEnvelopes l.queue, by rw [h.captured, h.handed]⟩

theorem Sound.sent_le (h : Sound tr i l) : sentIn i tr <+: capturedIn i tr :=
  ⟨l.busy.toList ++ queuedEnvelopes l.queue, by rw [h.captured, List.append_assoc]⟩

/-- An answer was asked for once, and whatever was captured before that is sent. -/
theorem Sound.answered (h : Sound tr i l) (hk : k ∈ l.answered) :
    ∃ before since, tr = before ++ .flushCalled i k :: since ∧
      .flushCalled i k ∉ before ++ since ∧ capturedIn i before <+: sentIn i tr := by
  have hlt : k < l.asked := h.numbered k (List.mem_append_left _ hk)
  have hmem : k ∈ askedIn i tr := by
    rw [h.asks]
    exact List.mem_range.mpr hlt
  obtain ⟨before, since, heq⟩ := List.append_of_mem (mem_askedIn.mp hmem)
  refine ⟨before, since, heq, ?_, ?_⟩
  · have hnodup : (askedIn i tr).Nodup := by
      rw [h.asks]
      exact List.nodup_range
    have hcons : askedIn i (.flushCalled i k :: since) = k :: askedIn i since := by
      simp [askedIn, Event.asked?]
    rw [heq, askedIn_append, hcons] at hnodup
    have hnot := (List.nodup_cons.mp (List.perm_middle.nodup_iff.mp hnodup)).1
    rw [← askedIn_append] at hnot
    exact fun hm => hnot (mem_askedIn.mpr hm)
  · rcases h.marked before k since heq with ⟨-, hle⟩ | ⟨hnot, -⟩
    · exact hle
    · exact absurd hk hnot

/-- Nothing is sent through a transport after it is released. -/
theorem Sound.sent_nil (h : Sound tr i l) {pre post : List Event} {t : Transport}
    (heq : tr = pre ++ .released i t :: post) : sentIn i post = [] := by
  have hall := (h.released pre t post heq).2.1
  have hle := h.sent_le.length_le
  have hsplit : sentIn i tr = sentIn i pre ++ sentIn i post := by
    rw [heq, sentIn_append]
    rfl
  rw [hsplit, ← hall, List.length_append] at hle
  exact List.eq_nil_of_length_eq_zero (by omega)

end WorkerThread

namespace Runtime

variable {s s' : Runtime} {ev : Option Event} {tr : List Event}

theorem worker_setWorker {i : Nat} {l l' : WorkerThread} (hl : s.workers[i]? = some l)
    (hs : WorkerThread.Step i l ev l') (own : ∀ e ∈ ev.toList, e.worker? = some i) {j : Nat}
    {m : WorkerThread}
    (hm : s.workers[j]? = some m) :
    ∃ m', (s.setWorker i l').workers[j]? = some m' ∧ WorkerThread.Step j m ev m' := by
  by_cases hij : i = j
  · subst hij
    obtain rfl := Option.some.inj (hl.symm.trans hm)
    exact ⟨l', by simp [getElem?_setWorker hl], hs⟩
  · refine ⟨m, by simpa [getElem?_setWorker hl, hij] using hm, .rest ?_⟩
    intro e he heq
    exact hij (Option.some.inj ((own e he).symm.trans heq))

theorem worker_closeWorker (worker : Option Nat) {j : Nat} {m : WorkerThread}
    (hm : s.workers[j]? = some m) :
    ∃ m', (s.closeWorker worker).workers[j]? = some m' ∧ WorkerThread.Step j m none m' := by
  unfold closeWorker
  split
  · next i l heq =>
    obtain ⟨i', -, hl⟩ := Option.bind_eq_some_iff.mp heq
    obtain ⟨l', hl', heq'⟩ := Option.map_eq_some_iff.mp hl
    obtain ⟨rfl, rfl⟩ := Prod.mk.inj heq'
    exact worker_setWorker hl' .close (by simp) hm
  · exact ⟨m, hm, .rest (by simp)⟩

/-- Each worker stays where it is and makes a step of its own. -/
theorem Step.worker (h : s.Owned) (hs : Step s ev s') {j : Nat} {m : WorkerThread}
    (hm : s.workers[j]? = some m) :
    ∃ m', s'.workers[j]? = some m' ∧ WorkerThread.Step j m ev m' := by
  have hopen : ∀ {i l}, s.workers[i]? = some l → s.IsOpen i → l.closed = false := by
    rintro i l hl ⟨l', hl', hclosed⟩
    obtain rfl := Option.some.inj (hl.symm.trans hl')
    exact hclosed
  cases hs with
  | queue c i l e here worker =>
    have hrunning : s.runningWorker = some i := h.borrowed c i (congrArg Call.borrows here)
    exact worker_setWorker worker (.accept _ (hopen worker (h.running i hrunning)))
      (by simp [Event.worker?]) hm
  | flush c i l idle running worker =>
    exact worker_setWorker worker (.ask (hopen worker (h.running i running)))
      (by simp [Event.worker?]) hm
  | drain c i l next here worker =>
    have hheld := h.held c i (congrArg Call.holds here)
    exact worker_setWorker worker (.ask (hopen worker hheld.1)) (by simp [Event.worker?]) hm
  | hangUp c i next here => exact worker_closeWorker (some i) hm
  | publish c o worker here unread => exact worker_closeWorker (s := s.run none) _ hm
  | spawn c o t here transport =>
    refine ⟨m, getElem?_addWorker hm, .rest ?_⟩
    have hj : j < s.workers.length := (List.getElem?_eq_some_iff.mp hm).1
    simp only [Option.toList, List.mem_singleton, forall_eq, Event.worker?, ne_eq,
      Option.some.injEq]
    omega
  | take i l p q worker idle queue =>
    exact worker_setWorker worker (.take idle queue) (by simp [Event.worker?]) hm
  | finish i l p w worker working sent =>
    exact worker_setWorker (s := s.inWorld w) worker (.finish working) (by simp [Event.worker?]) hm
  | answer i l k q worker idle queue =>
    exact worker_setWorker worker (.answer idle queue) (by simp) hm
  | leave i l worker idle empty closed present =>
    exact worker_setWorker (s := s.inWorld _) worker (.leave idle empty closed present)
      (by simp [Event.worker?]) hm
  | clear c worker next here =>
    refine ⟨m, hm, .rest ?_⟩
    cases worker <;> simp [Event.worker?]
  | refuse c t here =>
    refine ⟨m, hm, .rest ?_⟩
    cases t <;> simp [Event.worker?]
  | _ => exact ⟨m, hm, .rest (by simp [Event.worker?])⟩

theorem length_closeWorker (worker : Option Nat) :
    (s.closeWorker worker).workers.length = s.workers.length := by
  unfold closeWorker
  split
  · simp [setWorker]
  · rfl

/-- A step tells of a worker that is there, or it opens the next one. -/
theorem Step.grows (hs : Step s ev s') :
    (s'.workers.length = s.workers.length ∧
      ∀ e ∈ ev.toList, ∀ i, e.worker? = some i → i < s.workers.length) ∨
    ∃ t, ev = some (.started s.workers.length t) ∧
      s'.workers = s.workers ++ [{ transport := t }] := by
  have hlt : ∀ {i : Nat} {l : WorkerThread}, s.workers[i]? = some l →
      i < s.workers.length := fun hl =>
    (List.getElem?_eq_some_iff.mp hl).1
  cases hs with
  | spawn c o t here transport => exact Or.inr ⟨t, rfl, rfl⟩
  | hangUp c i next here => exact Or.inl ⟨length_closeWorker _, by simp⟩
  | publish c o worker here unread => exact Or.inl ⟨length_closeWorker (s := s.run none) _, by simp⟩
  | clear c worker next here =>
    refine Or.inl ⟨rfl, ?_⟩
    cases worker <;> simp [Event.worker?]
  | refuse c t here =>
    refine Or.inl ⟨rfl, ?_⟩
    cases t <;> simp [Event.worker?]
  | queue c i l e here worker =>
    exact Or.inl ⟨by simp [call, setWorker, counted], by simpa [Event.worker?] using hlt worker⟩
  | flush c i l idle running worker =>
    exact Or.inl ⟨by simp [call, setWorker], by simpa [Event.worker?] using hlt worker⟩
  | drain c i l next here worker =>
    exact Or.inl ⟨by simp [call, setWorker], by simpa [Event.worker?] using hlt worker⟩
  | take i l p q worker idle queue =>
    exact Or.inl ⟨by simp [setWorker], by simpa [Event.worker?] using hlt worker⟩
  | finish i l p w worker working sent =>
    exact Or.inl ⟨by simp [setWorker, inWorld], by simpa [Event.worker?] using hlt worker⟩
  | answer i l k q worker idle queue => exact Or.inl ⟨by simp [setWorker], by simp⟩
  | leave i l worker idle empty closed present =>
    exact Or.inl ⟨by simp [setWorker, inWorld], by simpa [Event.worker?] using hlt worker⟩
  | _ => exact Or.inl ⟨rfl, by simp [Event.worker?]⟩

/-- The number of an envelope is how many were captured before it. -/
theorem Step.numbers (hs : Step s ev s')
    (h : (captures tr).map (fun x => x.2.number) = List.range s.count) :
    (captures (tr ++ ev.toList)).map (fun x => x.2.number) = List.range s'.count := by
  rw [captures_append, List.map_append, h]
  cases hs with
  | queue c i l e here worker => exact List.range_succ.symm
  | clear c worker next here => cases worker <;> exact List.append_nil _
  | refuse c t here => cases t <;> exact List.append_nil _
  | hangUp c i next here =>
    have hcount : ((s.call c (.joining i next)).closeWorker (some i)).count = s.count :=
      count_closeWorker _
    rw [hcount]
    exact List.append_nil _
  | publish c o worker here unread =>
    have hcount : ((s.run none).closeWorker s.runningWorker).count = s.count := count_closeWorker _
    exact (List.append_nil _).trans (congrArg List.range hcount.symm)
  | _ => exact List.append_nil _

theorem Step.answered {i k : Nat} (hs : Step s ev s') (hev : ev = some (.flushReturned i k true)) :
    ∃ l, s.workers[i]? = some l ∧ k ∈ l.answered := by
  cases hs with
  | flushed c j m l here worker answer =>
    obtain ⟨rfl, rfl, -⟩ := Event.flushReturned.inj (Option.some.inj hev)
    exact ⟨l, worker, answer⟩
  | drained c j m l next here worker answer =>
    obtain ⟨rfl, rfl, -⟩ := Event.flushReturned.inj (Option.some.inj hev)
    exact ⟨l, worker, answer⟩
  | clear c worker next here => cases worker <;> simp at hev
  | refuse c t here => cases t <;> simp at hev
  | _ => simp at hev

theorem Step.gone {i : Nat} (h : s.Owned) (hs : Step s ev s') (hev : ev = some (.closeReturned i)) :
    s.Gone i := by
  cases hs with
  | clear c worker next here =>
    obtain ⟨j, rfl, hj⟩ := Option.map_eq_some_iff.mp hev
    obtain rfl := Event.closeReturned.inj hj
    exact h.gone c j next here
  | replaced c j l here worker ended =>
    obtain rfl := Event.closeReturned.inj (Option.some.inj hev)
    exact ⟨l, worker, ended⟩
  | refuse c t here => cases t <;> simp at hev
  | _ => simp at hev

theorem Step.notes (hs : Step s ev s') :
    s'.world.notes = s.world.notes ++ ev.toList.flatMap Event.notes := by
  cases hs with
  | around w notes => exact notes.trans (List.append_nil _).symm
  | finish i l p w worker working sent =>
    simp only [Option.toList, List.flatMap_singleton]
    exact Transport.notes_send sent
  | leave i l worker idle empty closed present =>
    simp only [Option.toList, List.flatMap_singleton]
    exact l.transport.notes_drop s.world
  | refuse c t here =>
    have hnotes := Transport.notes_dropOption t s.world
    cases t <;> exact hnotes
  | clear c worker next here => cases worker <;> exact (List.append_nil _).symm
  | hangUp c i next here =>
    have hworld : ((s.call c (.joining i next)).closeWorker (some i)).world = s.world :=
      world_closeWorker _
    rw [hworld]
    exact (List.append_nil _).symm
  | publish c o worker here unread =>
    have hworld : ((s.run none).closeWorker s.runningWorker).world = s.world := world_closeWorker _
    exact (congrArg World.notes hworld).trans (List.append_nil _).symm
  | _ => exact (List.append_nil _).symm

/-- What a trace tells about the whole engine. -/
structure TraceInvariant (tr : List Event) (s : Runtime) : Prop where
  owned : s.Owned
  workers : ∀ i l, s.workers[i]? = some l → WorkerThread.Sound tr i l
  past : ∀ e ∈ tr, ∀ i, e.worker? = some i → i < s.workers.length
  numbers : (captures tr).map (fun x => x.2.number) = List.range s.count
  flushes : ∀ pre i k post, tr = pre ++ .flushReturned i k true :: post →
    ∃ before since, pre = before ++ .flushCalled i k :: since ∧
      .flushCalled i k ∉ before ++ since ∧ capturedIn i before <+: sentIn i pre
  closes : ∀ pre i post, tr = pre ++ .closeReturned i :: post →
    i < s.workers.length ∧ ∃ t, .released i t ∈ pre

theorem TraceInvariant.step (h : TraceInvariant tr s) (hs : Step s ev s') :
    TraceInvariant (tr ++ ev.toList) s' where
  owned := h.owned.step hs
  workers := by
    intro i l' hl'
    have old : i < s.workers.length → WorkerThread.Sound (tr ++ ev.toList) i l' := by
      intro hi
      have hl : s.workers[i]? = some s.workers[i] := List.getElem?_eq_getElem hi
      obtain ⟨m, hm, hstep⟩ := hs.worker h.owned hl
      obtain rfl := Option.some.inj (hm.symm.trans hl')
      exact hstep.sound (h.workers i _ hl)
    have hi' : i < s'.workers.length := (List.getElem?_eq_some_iff.mp hl').1
    rcases hs.grows with ⟨hlength, -⟩ | ⟨t, rfl, hworkers⟩
    · exact old (hlength ▸ hi')
    · by_cases hi : i < s.workers.length
      · exact old hi
      · rw [hworkers, List.length_append, List.length_singleton] at hi'
        obtain rfl : i = s.workers.length := by omega
        have hlast : l' = { transport := t } := by simpa [hworkers] using hl'.symm
        rw [hlast]
        exact WorkerThread.Sound.fresh t fun e he heq => Nat.lt_irrefl _ (h.past e he _ heq)
  past := by
    intro e he i hi
    rcases hs.grows with ⟨hlength, hnew⟩ | ⟨t, rfl, hworkers⟩
    · rw [hlength]
      rcases List.mem_append.mp he with he | he
      · exact h.past e he i hi
      · exact hnew e he i hi
    · rw [hworkers, List.length_append, List.length_singleton]
      rcases List.mem_append.mp he with he | he
      · exact Nat.lt_succ_of_lt (h.past e he i hi)
      · obtain rfl := List.mem_singleton.mp he
        obtain rfl := Option.some.inj hi
        exact Nat.lt_succ_self _
  numbers := hs.numbers h.numbers
  flushes := by
    intro pre i k post heq
    rcases split_concat heq with ⟨hev, rfl, -⟩ | ⟨mid, htr, -⟩
    · obtain ⟨l, hl, hk⟩ := hs.answered hev
      exact (h.workers i l hl).answered hk
    · exact h.flushes pre i k mid htr
  closes := by
    intro pre i post heq
    have hle : s.workers.length ≤ s'.workers.length := by
      rcases hs.grows with ⟨hlength, -⟩ | ⟨t, -, hworkers⟩
      · exact Nat.le_of_eq hlength.symm
      · simp [hworkers]
    rcases split_concat heq with ⟨hev, rfl, -⟩ | ⟨mid, htr, -⟩
    · obtain ⟨l, hl, hended⟩ := hs.gone h.owned hev
      have hi : i < s.workers.length := (List.getElem?_eq_some_iff.mp hl).1
      exact ⟨Nat.lt_of_lt_of_le hi hle, (h.workers i l hl).ended.mp hended⟩
    · obtain ⟨hi, hreleased⟩ := h.closes pre i mid htr
      exact ⟨Nat.lt_of_lt_of_le hi hle, hreleased⟩

theorem traceInvariant_initial (scope : Scope) (w : World) :
    TraceInvariant [] (initial scope w) where
  owned := owned_initial scope w
  workers := by simp [initial]
  past := by simp
  numbers := rfl
  flushes := by simp
  closes := by simp

theorem TraceInvariant.run {t : Runtime} {us : List Event} (h : TraceInvariant [] s)
    (hr : Run s us t) : TraceInvariant us t := by
  induction hr with
  | start => exact h
  | step _ hs ih => exact ih.step hs

theorem TraceInvariant.inOrder (h : TraceInvariant tr s) : InOrder tr := by
  have hworker : ∀ {e i}, e ∈ tr → e.worker? = some i →
      ∃ l, WorkerThread.Sound tr i l := fun he hi =>
    ⟨_, h.workers _ _ (List.getElem?_eq_getElem (h.past _ he _ hi))⟩
  have hle : ∀ i, handedIn i tr <+: capturedIn i tr := by
    intro i
    cases hi : handedIn i tr with
    | nil => exact List.nil_prefix
    | cons p ps =>
      obtain ⟨e, he, hp⟩ := List.mem_filterMap.mp (hi ▸ List.mem_cons_self : p ∈ handedIn i tr)
      have hl : e.worker? = some i := by cases e <;> simp_all [Event.handed?, Event.worker?]
      obtain ⟨l, hsound⟩ := hworker he hl
      exact hi ▸ hsound.handed_le
  have hnodup : ((captures tr).map fun x => x.2.number).Nodup := by
    rw [h.numbers]
    exact List.nodup_range
  constructor
  case ordered => exact hle
  case once =>
    intro i
    have hsub := ((hle i).sublist.trans (capturedIn_sublist i tr)).map QueuedEnvelope.number
    rw [List.map_map] at hsub
    exact hsub.nodup hnodup
  case own =>
    intro i t p hp
    obtain ⟨l, hsound⟩ := hworker hp rfl
    refine ⟨(hsound.transport t).mpr (hsound.passed t p hp), ?_⟩
    intro j q hq hnumber
    have hcaptured : .captured i p ∈ tr :=
      mem_capturedIn.mp (hsound.handed_le.subset (mem_handedIn hp))
    have hsame := List.inj_on_of_nodup_map hnodup (mem_captures.mpr hq)
      (mem_captures.mpr hcaptured) hnumber
    exact congrArg Prod.fst hsame
  case flushed => exact h.flushes
  case closed =>
    intro pre i post heq
    obtain ⟨hi, t, ht⟩ := h.closes pre i post heq
    have hsound := h.workers i _ (List.getElem?_eq_getElem hi)
    obtain ⟨a, b, rfl⟩ := List.append_of_mem ht
    have htr : tr = a ++ .released i t :: (b ++ .closeReturned i :: post) := by simp [heq]
    have hnone := hsound.sent_nil htr
    rw [sentIn_append] at hnone
    refine ⟨?_, t, ht⟩
    rw [← (hsound.released _ _ _ htr).2.1, sentIn_append]
    simpa [sentIn, Event.sent?] using (List.append_eq_nil_iff.mp hnone).1
  case released =>
    intro pre i t post heq
    obtain ⟨l, hsound⟩ := hworker (heq ▸ List.mem_append_right _ List.mem_cons_self) rfl
    obtain ⟨ht, hall, hhanded, honce⟩ := hsound.released pre t post heq
    exact ⟨(hsound.transport t).mpr ht, hall, hhanded, hsound.sent_nil heq, honce⟩

theorem Run.notes {t : Runtime} {us : List Event} (h : Run s us t) :
    t.world.notes = s.world.notes ++ us.flatMap Event.notes := by
  induction h with
  | start => exact (List.append_nil _).symm
  | step _ hs ih => rw [hs.notes, ih, List.flatMap_append, List.append_assoc]

/-- In every run, whatever order its steps come in, deliveries are in order, and the world's record
holds what the events say. -/
theorem run_inOrder {scope : Scope} {w : World} (run : Run (initial scope w) tr s) :
    InOrder tr ∧ s.world.notes = w.notes ++ tr.flatMap Event.notes :=
  ⟨((traceInvariant_initial scope w).run run).inOrder, run.notes⟩

/-- A session ends although its worker gave no answer in time. -/
theorem run_inOrder_timedOut : ∃ (w : World) (t : Transport) (p : QueuedEnvelope) (s : Runtime),
    let tr := [.started 0 t, .captured 0 p, .flushCalled 0 0, .flushReturned 0 0 false,
      .handed 0 t p, .sent 0 t p, .released 0 t, .closeReturned 0]
    Run (initial Scope.fresh w) tr s ∧ InOrder tr := by
  let w : World := { files := .withWorkDir "w", supply := .numbered "" }
  let t : Transport := ⟨.recorded, some (.numbered 1), some .recorded⟩
  let o : Options := { databasePath := "", transport := some t }
  have started := (((((Run.start (s := initial Scope.fresh w)).step
    (.withdrawNothing 0 o rfl rfl fun _ => rfl)).step
    (.make 0 o _ rfl rfl)).step
    (.spawn 0 o t rfl rfl)).step
    (.size 0 o _ rfl)).step
    (.publish 0 o _ rfl (by intro c; cases c <;> rfl))
  have captured := (started.step
    (.capture 1 ⟨{ o with transport := none }, some 0⟩ Value.emptyObject rfl rfl rfl)).step
    (.queue 1 0 _ _ rfl rfl)
  have drained := (((captured.step
    (.withdraw 0 ⟨{ o with transport := none }, some 0⟩ none rfl rfl
      (by rintro (_ | _ | c) <;> rfl))).step
    (.drain 0 0 _ none rfl rfl)).step
    (.drainTimedOut 0 0 0 none rfl)).step
    (.hangUp 0 0 none rfl)
  have left := (((drained.step
    (.take 0 _ _ _ rfl rfl rfl)).step
    (.finish 0 _ _ _ rfl rfl rfl)).step
    (.answer 0 _ _ _ rfl rfl rfl)).step
    (.leave 0 _ rfl rfl rfl rfl rfl)
  have closed := (left.step
    (.join 0 0 _ none rfl rfl rfl)).step
    (.clear 0 (some 0) none rfl)
  have both := And.intro closed (run_inOrder closed).1
  exact ⟨w, t, _, _, both⟩
end Runtime

end CrashCourier.Delivery
