import CrashCourier.Transport

namespace CrashCourier.Delivery

/-- A captured envelope. Captures are numbered in the order in which they are queued. -/
structure QueuedEnvelope where
  number : Nat
  envelope : Envelope

/-- What a worker is asked to do: to deliver an envelope, or to answer whoever waits. -/
inductive Task where
  | deliver (p : QueuedEnvelope)
  | answer (ticket : Nat)

/-- The channel of a session and its worker, who owns the transport. -/
structure WorkerThread where
  transport : Transport
  queue : List Task := []
  busy : Option QueuedEnvelope := none
  /-- How many answers were asked for; the tickets are numbered from zero. -/
  asked : Nat := 0
  answered : List Nat := []
  closed : Bool := false
  /-- The worker has dropped the transport and is gone. -/
  ended : Bool := false

inductive Event where
  | started (worker : Nat) (t : Transport)
  | captured (worker : Nat) (p : QueuedEnvelope)
  | handed (worker : Nat) (t : Transport) (p : QueuedEnvelope)
  /-- The transport has done with an envelope. -/
  | sent (worker : Nat) (t : Transport) (p : QueuedEnvelope)
  | flushCalled (worker ticket : Nat)
  | flushReturned (worker ticket : Nat) (answer : Bool)
  | closeReturned (worker : Nat)
  | released (worker : Nat) (t : Transport)
  /-- The transport of a session that could not start is dropped. -/
  | discarded (t : Transport)

namespace Event

def worker? : Event → Option Nat
  | started i _ => some i
  | captured i _ => some i
  | handed i _ _ => some i
  | sent i _ _ => some i
  | flushCalled i _ => some i
  | released i _ => some i
  | _ => none

def captured? (i : Nat) : Event → Option QueuedEnvelope
  | captured j p => if j = i then some p else none
  | _ => none

def handed? (i : Nat) : Event → Option QueuedEnvelope
  | handed j _ p => if j = i then some p else none
  | _ => none

def sent? (i : Nat) : Event → Option QueuedEnvelope
  | sent j _ p => if j = i then some p else none
  | _ => none

def asked? (i : Nat) : Event → Option Nat
  | flushCalled j k => if j = i then some k else none
  | _ => none

end Event

/-- The envelopes queued for a worker, in this order. -/
def capturedIn (i : Nat) (tr : List Event) : List QueuedEnvelope := tr.filterMap (Event.captured? i)

def handedIn (i : Nat) (tr : List Event) : List QueuedEnvelope := tr.filterMap (Event.handed? i)

def sentIn (i : Nat) (tr : List Event) : List QueuedEnvelope := tr.filterMap (Event.sent? i)

def askedIn (i : Nat) (tr : List Event) : List Nat := tr.filterMap (Event.asked? i)

@[simp] theorem capturedIn_append (i : Nat) (tr us : List Event) :
    capturedIn i (tr ++ us) = capturedIn i tr ++ capturedIn i us := List.filterMap_append

@[simp] theorem handedIn_append (i : Nat) (tr us : List Event) :
    handedIn i (tr ++ us) = handedIn i tr ++ handedIn i us := List.filterMap_append

@[simp] theorem sentIn_append (i : Nat) (tr us : List Event) :
    sentIn i (tr ++ us) = sentIn i tr ++ sentIn i us := List.filterMap_append

@[simp] theorem askedIn_append (i : Nat) (tr us : List Event) :
    askedIn i (tr ++ us) = askedIn i tr ++ askedIn i us := List.filterMap_append

@[simp] theorem capturedIn_nil (i : Nat) : capturedIn i [] = [] := rfl

@[simp] theorem handedIn_nil (i : Nat) : handedIn i [] = [] := rfl

@[simp] theorem sentIn_nil (i : Nat) : sentIn i [] = [] := rfl

@[simp] theorem askedIn_nil (i : Nat) : askedIn i [] = [] := rfl

theorem filterMap_singleton {α : Type} (f : Event → Option α) (e : Event) :
    [e].filterMap f = (f e).toList := by
  cases h : f e <;> simp [h]

@[simp] theorem capturedIn_singleton (i : Nat) (e : Event) :
    capturedIn i [e] = (e.captured? i).toList := filterMap_singleton _ e

@[simp] theorem handedIn_singleton (i : Nat) (e : Event) :
    handedIn i [e] = (e.handed? i).toList := filterMap_singleton _ e

@[simp] theorem sentIn_singleton (i : Nat) (e : Event) :
    sentIn i [e] = (e.sent? i).toList := filterMap_singleton _ e

@[simp] theorem askedIn_singleton (i : Nat) (e : Event) :
    askedIn i [e] = (e.asked? i).toList := filterMap_singleton _ e

def queuedEnvelopes (q : List Task) : List QueuedEnvelope :=
  q.filterMap fun t => match t with
    | .deliver p => some p
    | .answer _ => none

def tickets (q : List Task) : List Nat :=
  q.filterMap fun t => match t with
    | .deliver _ => none
    | .answer k => some k

@[simp] theorem queuedEnvelopes_append (q r : List Task) :
    queuedEnvelopes (q ++ r) = queuedEnvelopes q ++ queuedEnvelopes r :=
  List.filterMap_append

@[simp] theorem tickets_append (q r : List Task) : tickets (q ++ r) = tickets q ++ tickets r :=
  List.filterMap_append

@[simp] theorem queuedEnvelopes_deliver (p : QueuedEnvelope) (q : List Task) :
    queuedEnvelopes (.deliver p :: q) = p :: queuedEnvelopes q := rfl

@[simp] theorem queuedEnvelopes_answer (k : Nat) (q : List Task) :
    queuedEnvelopes (.answer k :: q) = queuedEnvelopes q := rfl

@[simp] theorem queuedEnvelopes_nil : queuedEnvelopes [] = [] := rfl

@[simp] theorem tickets_deliver (p : QueuedEnvelope) (q : List Task) :
    tickets (.deliver p :: q) = tickets q := rfl

@[simp] theorem tickets_answer (k : Nat) (q : List Task) :
    tickets (.answer k :: q) = k :: tickets q := rfl

@[simp] theorem tickets_nil : tickets [] = [] := rfl

/-- The last event of a trace is the one looked for, or comes after it. -/
theorem split_concat {tr pre post : List Event} {x : Event} {ev : Option Event}
    (h : tr ++ ev.toList = pre ++ x :: post) :
    (ev = some x ∧ tr = pre ∧ post = []) ∨
      ∃ mid, tr = pre ++ x :: mid ∧ post = mid ++ ev.toList := by
  cases ev with
  | none => exact Or.inr ⟨post, by simpa using h, by simp⟩
  | some e =>
    rcases List.eq_nil_or_concat post with rfl | ⟨mid, y, rfl⟩
    · obtain ⟨htr, he⟩ := List.append_inj' h rfl
      obtain rfl := List.singleton_inj.mp he
      exact Or.inl ⟨rfl, htr, rfl⟩
    · have h' : tr ++ [e] = (pre ++ x :: mid) ++ [y] := by simpa using h
      obtain ⟨htr, he⟩ := List.append_inj' h' rfl
      obtain rfl := List.singleton_inj.mp he
      exact Or.inr ⟨mid, htr, by simp⟩

theorem filterMap_other {α : Type} {f : Event → Option α} {i : Nat} {tr : List Event}
    (hf : ∀ e, e.worker? ≠ some i → f e = none) (h : ∀ e ∈ tr, e.worker? ≠ some i) :
    tr.filterMap f = [] :=
  List.filterMap_eq_nil_iff.mpr fun e he => hf e (h e he)

theorem capturedIn_other {i : Nat} {tr : List Event} (h : ∀ e ∈ tr, e.worker? ≠ some i) :
    capturedIn i tr = [] :=
  filterMap_other (fun e => by cases e <;> simp [Event.captured?, Event.worker?]) h

theorem handedIn_other {i : Nat} {tr : List Event} (h : ∀ e ∈ tr, e.worker? ≠ some i) :
    handedIn i tr = [] :=
  filterMap_other (fun e => by cases e <;> simp [Event.handed?, Event.worker?]) h

theorem sentIn_other {i : Nat} {tr : List Event} (h : ∀ e ∈ tr, e.worker? ≠ some i) :
    sentIn i tr = [] :=
  filterMap_other (fun e => by cases e <;> simp [Event.sent?, Event.worker?]) h

theorem askedIn_other {i : Nat} {tr : List Event} (h : ∀ e ∈ tr, e.worker? ≠ some i) :
    askedIn i tr = [] :=
  filterMap_other (fun e => by cases e <;> simp [Event.asked?, Event.worker?]) h

namespace WorkerThread

/-- What can happen to a worker and its channel, and the event that tells of it. -/
inductive Step (i : Nat) (l : WorkerThread) : Option Event → WorkerThread → Prop where
  | rest {ev : Option Event} (other : ∀ e ∈ ev.toList, e.worker? ≠ some i) : Step i l ev l
  | accept (p : QueuedEnvelope) (isOpen : l.closed = false) :
      Step i l (some (.captured i p)) { l with queue := l.queue ++ [.deliver p] }
  | ask (isOpen : l.closed = false) :
      Step i l (some (.flushCalled i l.asked))
        { l with queue := l.queue ++ [.answer l.asked], asked := l.asked + 1 }
  | take {p : QueuedEnvelope} {q : List Task} (idle : l.busy = none)
      (next : l.queue = .deliver p :: q) :
      Step i l (some (.handed i l.transport p)) { l with queue := q, busy := some p }
  | finish {p : QueuedEnvelope} (working : l.busy = some p) :
      Step i l (some (.sent i l.transport p)) { l with busy := none }
  | answer {k : Nat} {q : List Task} (idle : l.busy = none) (next : l.queue = .answer k :: q) :
      Step i l none { l with queue := q, answered := k :: l.answered }
  | close : Step i l none { l with closed := true }
  | leave (idle : l.busy = none) (empty : l.queue = []) (closed : l.closed = true)
      (present : l.ended = false) :
      Step i l (some (.released i l.transport)) { l with ended := true }

/-- What was captured before somebody asked for an answer is sent once the answer is there, and
until then it is what was sent, the envelope under way, and what is queued before the ticket. -/
def Marked (l : WorkerThread) (k : Nat) (before sent : List QueuedEnvelope) : Prop :=
  (k ∈ l.answered ∧ before <+: sent) ∨
    (k ∉ l.answered ∧ ∃ q r, l.queue = q ++ .answer k :: r ∧
      before = sent ++ l.busy.toList ++ queuedEnvelopes q)

/-- What a trace tells about a worker. -/
structure Sound (tr : List Event) (i : Nat) (l : WorkerThread) : Prop where
  transport : ∀ t, .started i t ∈ tr ↔ t = l.transport
  passed : ∀ t p, .handed i t p ∈ tr → t = l.transport
  captured : capturedIn i tr = sentIn i tr ++ l.busy.toList ++ queuedEnvelopes l.queue
  handed : handedIn i tr = sentIn i tr ++ l.busy.toList
  asks : askedIn i tr = List.range l.asked
  distinct : (l.answered ++ tickets l.queue).Nodup
  numbered : ∀ k ∈ l.answered ++ tickets l.queue, k < l.asked
  marked : ∀ pre k post, tr = pre ++ .flushCalled i k :: post →
    l.Marked k (capturedIn i pre) (sentIn i tr)
  quiet : l.ended = true → l.closed = true ∧ l.busy = none ∧ l.queue = []
  ended : l.ended = true ↔ ∃ t, .released i t ∈ tr
  released : ∀ pre t post, tr = pre ++ .released i t :: post →
    t = l.transport ∧ sentIn i pre = capturedIn i tr ∧ handedIn i post = [] ∧
      ∀ u, .released i u ∉ pre ++ post

variable {tr : List Event} {i : Nat} {l l' : WorkerThread} {ev : Option Event}

theorem started_mem_append (hs : Step i l ev l') (t : Transport) :
    .started i t ∈ tr ++ ev.toList ↔ .started i t ∈ tr := by
  cases hs with
  | rest other =>
    have hne : .started i t ∉ ev.toList := fun hm => other _ hm rfl
    simp [hne]
  | _ => simp

theorem Step.passed (h : Sound tr i l) (hs : Step i l ev l') :
    ∀ t p, .handed i t p ∈ tr ++ ev.toList → t = l'.transport := by
  intro t p hm
  rcases List.mem_append.mp hm with hm | hm
  · have ht := h.passed t p hm
    cases hs <;> exact ht
  · cases hs with
    | rest other => exact absurd rfl (other _ hm)
    | take idle next =>
      simp only [Option.toList, List.mem_singleton, Event.handed.injEq] at hm
      exact hm.2.1
    | _ => simp at hm

theorem Step.captured (h : Sound tr i l) (hs : Step i l ev l') :
    capturedIn i (tr ++ ev.toList) =
      sentIn i (tr ++ ev.toList) ++ l'.busy.toList ++ queuedEnvelopes l'.queue := by
  have hc := h.captured
  rw [capturedIn_append, sentIn_append]
  cases hs with
  | rest other => simpa [capturedIn_other other, sentIn_other other] using hc
  | accept p isOpen => simp [hc, Event.captured?, Event.sent?]
  | ask isOpen => simpa [Event.captured?, Event.sent?] using hc
  | take idle next =>
    rw [idle, next] at hc
    simpa [Event.captured?, Event.sent?] using hc
  | finish working =>
    rw [working] at hc
    simpa [Event.captured?, Event.sent?] using hc
  | answer idle next =>
    rw [idle, next] at hc
    simpa [idle] using hc
  | close => simpa using hc
  | leave idle empty closed present =>
    simpa [Event.captured?, Event.sent?] using hc

theorem Step.handed (h : Sound tr i l) (hs : Step i l ev l') :
    handedIn i (tr ++ ev.toList) = sentIn i (tr ++ ev.toList) ++ l'.busy.toList := by
  have hh := h.handed
  rw [handedIn_append, sentIn_append]
  cases hs with
  | rest other => simpa [handedIn_other other, sentIn_other other] using hh
  | accept p isOpen => simpa [Event.handed?, Event.sent?] using hh
  | ask isOpen => simpa [Event.handed?, Event.sent?] using hh
  | take idle next =>
    rw [idle] at hh
    simpa [Event.handed?, Event.sent?] using hh
  | finish working =>
    rw [working] at hh
    simpa [Event.handed?, Event.sent?] using hh
  | answer idle next => simpa using hh
  | close => simpa using hh
  | leave idle empty closed present =>
    simpa [Event.handed?, Event.sent?] using hh

theorem Step.tickets_lt (h : Sound tr i l) (hs : Step i l ev l') :
    (l'.answered ++ tickets l'.queue).Nodup ∧
      ∀ k ∈ l'.answered ++ tickets l'.queue, k < l'.asked := by
  have hd := h.distinct
  have hn := h.numbered
  cases hs with
  | rest other => exact ⟨hd, hn⟩
  | accept p isOpen =>
    have heq : Delivery.tickets (l.queue ++ [.deliver p]) = Delivery.tickets l.queue := by simp
    simp only [heq]
    exact ⟨hd, hn⟩
  | ask isOpen =>
    have hfresh : l.asked ∉ l.answered ++ Delivery.tickets l.queue := fun hm =>
      Nat.lt_irrefl _ (hn _ hm)
    have heq : l.answered ++ Delivery.tickets (l.queue ++ [.answer l.asked]) =
        (l.answered ++ Delivery.tickets l.queue) ++ [l.asked] := by simp
    simp only [heq]
    refine ⟨List.nodup_append.mpr ⟨hd, by simp, ?_⟩, ?_⟩
    · intro a ha b hb
      obtain rfl := List.mem_singleton.mp hb
      exact fun hab => hfresh (hab ▸ ha)
    · intro k hk
      rcases List.mem_append.mp hk with hk | hk
      · exact Nat.lt_succ_of_lt (hn k hk)
      · obtain rfl := List.mem_singleton.mp hk
        exact Nat.lt_succ_self _
  | take idle next =>
    rw [next] at hd hn
    exact ⟨hd, hn⟩
  | finish working => exact ⟨hd, hn⟩
  | @answer k q idle next =>
    rw [next] at hd hn
    have hperm : (l.answered ++ k :: Delivery.tickets q).Perm
        (k :: l.answered ++ Delivery.tickets q) := List.perm_middle
    exact ⟨hperm.nodup_iff.mp hd, fun m hm => hn m (hperm.mem_iff.mpr hm)⟩
  | close => exact ⟨hd, hn⟩
  | leave idle empty closed present => exact ⟨hd, hn⟩

theorem Step.marked_keep (hs : Step i l ev l') (hd : (l.answered ++ tickets l.queue).Nodup)
    {k : Nat} {before sent : List QueuedEnvelope} (hm : l.Marked k before sent) :
    l'.Marked k before (sent ++ sentIn i ev.toList) := by
  rcases hm with ⟨hk, hle⟩ | ⟨hk, q, r, hq, hb⟩
  · left
    refine ⟨?_, hle.trans (List.prefix_append _ _)⟩
    cases hs with
    | answer idle next => exact List.mem_cons_of_mem _ hk
    | _ => exact hk
  · cases hs with
    | rest other =>
      rw [sentIn_other other, List.append_nil]
      exact Or.inr ⟨hk, q, r, hq, hb⟩
    | accept p isOpen =>
      exact Or.inr ⟨hk, q, r ++ [.deliver p], by simp [hq], by simpa [Event.sent?] using hb⟩
    | ask isOpen =>
      exact Or.inr ⟨hk, q, r ++ [.answer l.asked], by simp [hq], by simpa [Event.sent?] using hb⟩
    | @take p rest idle next =>
      cases q with
      | nil => simp [hq] at next
      | cons t q =>
        obtain ⟨rfl, rfl⟩ := List.cons.inj (hq.symm.trans next)
        refine Or.inr ⟨hk, q, r, rfl, ?_⟩
        simpa [idle, Event.sent?] using hb
    | @finish p working =>
      refine Or.inr ⟨hk, q, r, hq, ?_⟩
      simpa [working, Event.sent?] using hb
    | @answer m rest idle next =>
      cases q with
      | nil =>
        obtain ⟨hkm, _⟩ := List.cons.inj (hq.symm.trans next)
        obtain rfl := Task.answer.inj hkm
        refine Or.inl ⟨List.mem_cons_self, ?_⟩
        simp [hb, idle]
      | cons t q =>
        obtain ⟨rfl, rfl⟩ := List.cons.inj (hq.symm.trans next)
        refine Or.inr ⟨?_, q, r, rfl, by simpa using hb⟩
        -- A ticket is in the channel once, so this answer is another one's.
        intro hm
        rcases List.mem_cons.mp hm with rfl | hm
        · rw [hq] at hd
          simp [List.nodup_append] at hd
        · exact hk hm
    | close => exact Or.inr ⟨hk, q, r, hq, by simpa using hb⟩
    | leave idle empty closed present => simp [hq] at empty

theorem Step.marked (h : Sound tr i l) (hs : Step i l ev l') (pre : List Event) (k : Nat)
    (post : List Event) (heq : tr ++ ev.toList = pre ++ .flushCalled i k :: post) :
    l'.Marked k (capturedIn i pre) (sentIn i (tr ++ ev.toList)) := by
  rw [sentIn_append]
  rcases split_concat heq with ⟨rfl, rfl, rfl⟩ | ⟨mid, htr, rfl⟩
  · cases hs with
    | rest other => exact absurd rfl (other _ List.mem_cons_self)
    | ask isOpen =>
      refine Or.inr ⟨?_, l.queue, [], rfl, ?_⟩
      · exact fun hm => Nat.lt_irrefl _ (h.numbered _ (List.mem_append_left _ hm))
      · simpa [Event.sent?] using h.captured
  · exact hs.marked_keep h.distinct (h.marked pre k mid htr)

theorem Step.quiet (h : Sound tr i l) (hs : Step i l ev l') (he : l'.ended = true) :
    l'.closed = true ∧ l'.busy = none ∧ l'.queue = [] := by
  have ho := h.quiet
  cases hs with
  | rest other => exact ho he
  | accept p isOpen => simp [isOpen] at ho he; simp [ho] at he
  | ask isOpen => simp [isOpen] at ho he; simp [ho] at he
  | take idle next => simp [next] at ho he; simp [ho] at he
  | finish working => simp [working] at ho he; simp [ho] at he
  | answer idle next => simp [next] at ho he; simp [ho] at he
  | close => exact ⟨rfl, (ho he).2⟩
  | leave idle empty closed present => exact ⟨closed, idle, empty⟩

theorem Step.asks (h : Sound tr i l) (hs : Step i l ev l') :
    askedIn i (tr ++ ev.toList) = List.range l'.asked := by
  have ha := h.asks
  rw [askedIn_append]
  cases hs with
  | rest other => simpa [askedIn_other other] using ha
  | ask isOpen => simp [ha, Event.asked?, List.range_succ]
  | _ => simpa [Event.asked?] using ha

theorem Step.ended (h : Sound tr i l) (hs : Step i l ev l') :
    l'.ended = true ↔ ∃ t, .released i t ∈ tr ++ ev.toList := by
  have he := h.ended
  cases hs with
  | rest other =>
    have hne : ∀ t, .released i t ∉ ev.toList := fun t hm => other _ hm rfl
    simpa [hne] using he
  | leave idle empty closed present => simp
  | _ => simpa using he

/-- A worker that is gone has no part in the events that follow. -/
theorem Step.silent (h : Sound tr i l) (hs : Step i l ev l') (he : l.ended = true) :
    ∀ e ∈ ev.toList, e.worker? ≠ some i := by
  obtain ⟨hclosed, hbusy, hqueue⟩ := h.quiet he
  cases hs with
  | rest other => exact other
  | accept p isOpen => simp [hclosed] at isOpen
  | ask isOpen => simp [hclosed] at isOpen
  | take idle next => simp [hqueue] at next
  | finish working => simp [hbusy] at working
  | answer idle next => simp
  | close => simp
  | leave idle empty closed present => simp [he] at present

theorem Step.released (h : Sound tr i l) (hs : Step i l ev l') (pre : List Event) (t : Transport)
    (post : List Event) (heq : tr ++ ev.toList = pre ++ .released i t :: post) :
    t = l'.transport ∧ sentIn i pre = capturedIn i (tr ++ ev.toList) ∧ handedIn i post = [] ∧
      ∀ u, .released i u ∉ pre ++ post := by
  rcases split_concat heq with ⟨rfl, rfl, rfl⟩ | ⟨mid, htr, rfl⟩
  · cases hs with
    | rest other => exact absurd rfl (other _ List.mem_cons_self)
    | leave idle empty closed present =>
      have hall : sentIn i tr = capturedIn i tr := by
        rw [h.captured, idle, empty]
        simp
      refine ⟨rfl, by simp [hall, Event.captured?], rfl, ?_⟩
      intro u hm
      have hended := h.ended.mpr ⟨u, by simpa using hm⟩
      simp [hended] at present
  · have hended : l.ended = true := h.ended.mpr ⟨t, by simp [htr]⟩
    obtain ⟨ht, hall, hnone, honce⟩ := h.released pre t mid htr
    have hother := hs.silent h hended
    refine ⟨?_, ?_, ?_, ?_⟩
    · cases hs <;> exact ht
    · rw [capturedIn_append, capturedIn_other hother, List.append_nil]
      exact hall
    · rw [handedIn_append, handedIn_other hother, List.append_nil]
      exact hnone
    · intro u hm
      rw [← List.append_assoc] at hm
      rcases List.mem_append.mp hm with hm | hm
      · exact honce u hm
      · exact hother _ hm rfl

theorem Step.sound (h : Sound tr i l) (hs : Step i l ev l') : Sound (tr ++ ev.toList) i l' where
  transport := by
    intro t
    have ht : l'.transport = l.transport := by cases hs <;> rfl
    rw [started_mem_append hs, h.transport, ht]
  passed := hs.passed h
  captured := hs.captured h
  handed := hs.handed h
  asks := hs.asks h
  distinct := (hs.tickets_lt h).1
  numbered := (hs.tickets_lt h).2
  marked := hs.marked h
  quiet := hs.quiet h
  ended := hs.ended h
  released := hs.released h

theorem Sound.fresh (t : Transport) (h : ∀ e ∈ tr, e.worker? ≠ some i) :
    Sound (tr ++ [.started i t]) i { transport := t } := by
  have hold : ∀ {e}, e.worker? = some i → e ∉ tr := fun hl hm => h _ hm hl
  have hlast : ∀ {x pre post}, tr ++ [.started i t] = pre ++ x :: post → x.worker? = some i →
      x = .started i t := by
    intro x pre post heq hl
    have hm : x ∈ tr ++ [.started i t] := heq ▸ List.mem_append_right _ List.mem_cons_self
    rcases List.mem_append.mp hm with hm | hm
    · exact absurd hm (hold hl)
    · exact List.mem_singleton.mp hm
  have hreleased : ∀ u, .released i u ∉ tr := fun u => hold rfl
  constructor
  case transport => simp [hold (show (Event.started i _).worker? = some i from rfl)]
  case passed => simp [hold (show (Event.handed i _ _).worker? = some i from rfl)]
  case captured => simp [capturedIn_other h, sentIn_other h, Event.captured?, Event.sent?]
  case handed => simp [handedIn_other h, sentIn_other h, Event.handed?, Event.sent?]
  case asks => simp [askedIn_other h, Event.asked?]
  case distinct => simp
  case numbered => simp
  case marked => exact fun pre k post heq => nomatch hlast heq rfl
  case quiet => simp
  case ended => simp [hreleased]
  case released => exact fun pre u post heq => nomatch hlast heq rfl

end WorkerThread

end CrashCourier.Delivery
