import CrashCourier.Proofs.Delivery.Ownership
import CrashCourier.Proofs.History

namespace CrashCourier

/-- The capacity is left as it is. -/
def Scope.Change.keepsCapacity : Scope.Change → Bool
  | setCapacity _ => false
  | _ => true

theorem Scope.capacity_change_of_keeps {s : Scope} {x : Change} (h : x.keepsCapacity = true) :
    (s.change x).capacity = s.capacity := by
  rw [capacity_change]
  cases x with
  | setCapacity capacity => simp [Change.keepsCapacity] at h
  | _ => rfl

namespace Delivery

/-- Whether a call is on its way to start or to end a session. -/
def Call.attends : Call → Bool
  | idle => false
  | capturing _ _ => false
  | flushing _ _ => false
  | _ => true

namespace Runtime

/-- No session is being started or ended. -/
def isQuiet (s : Runtime) : Prop := ∀ c, (s.calls c).attends = false

/-- No two calls start or end sessions side by side. -/
def TakesTurns (s : Runtime) : Prop :=
  ∀ c d, (s.calls c).attends = true → (s.calls d).attends = true → c = d

/-- A session comes to run; what ran before it cannot be sent anything any more. -/
def install (s : Runtime) (o : Options) (worker : Option Nat) : Runtime :=
  ((s.run none).closeWorker s.runningWorker).run (some ⟨{ o with transport := none }, worker⟩)

inductive Mark where
  | changed (x : Scope.Change)
  /-- A call that has started a session returns. -/
  | returned
  | aside

/-- A start returns when its session runs, unless the session that ran before has yet to go. -/
def publishMark (s : Runtime) : Mark :=
  match s.runningWorker with
  | some _ => .aside
  | none => .returned

inductive Effect (s : Runtime) : Mark → Runtime → Prop where
  | changed (x : Scope.Change) : Effect s (.changed x) (s.changeScope x)
  /-- Calls get on, and at most one of them ends the session. -/
  | rested {s' : Runtime} (scope : s'.scope = s.scope)
      (running : s'.running = s.running ∨ s'.running = none)
      (attends : ∀ d, (s'.calls d).attends = true → (s.calls d).attends = true ∨ s'.running = none)
      (publishing : ∀ d o worker, s'.calls d = .publishing o worker →
        s.calls d = .publishing o worker) :
      Effect s .aside s'
  | cleared (c : Nat) (worker : Option Nat) (next : Option Options)
      (here : s.calls c = .clearing worker next) :
      Effect s .aside (s.clearScope.call c (.afterEnd next))
  | sized (c : Nat) (o : Options) (worker : Option Nat) (here : s.calls c = .sizing o worker) :
      Effect s .aside
        ((s.changeScope (.setCapacity o.maxBreadcrumbs)).call c (.publishing o worker))
  | published (c : Nat) (o : Options) (worker : Option Nat)
      (here : s.calls c = .publishing o worker) :
      Effect s s.publishMark ((s.install o worker).call c s.afterPublish)
  | replaced (c i : Nat) (here : s.calls c = .replacing i) : Effect s .returned (s.call c .idle)

/-- A run with the states it passes through, the newest first. -/
inductive Journal (a : Runtime) : List (Mark × Runtime) → Runtime → Prop where
  | start : Journal a [] a
  | step {js : List (Mark × Runtime)} {m : Mark} {ev : Option Event} {s s' : Runtime}
      (before : Journal a js s) (step : Step s ev s') (effect : Effect s m s') :
      Journal a ((m, s') :: js) s'

/-- What clients have changed, oldest first. -/
def changesIn : List (Mark × Runtime) → List Scope.Change
  | [] => []
  | (.changed x, _) :: js => changesIn js ++ [x]
  | _ :: js => changesIn js

/-- The scope when a start last returned, and what clients have changed since. -/
def lastStart : List (Mark × Runtime) → Option (Scope × List Scope.Change)
  | [] => none
  | (.changed x, _) :: js => (lastStart js).map fun p => (p.1, p.2 ++ [x])
  | (.returned, s) :: _ => some (s.scope, [])
  | (.aside, _) :: js => lastStart js

def KeepsCapacity (js : List (Mark × Runtime)) : Prop :=
  ∀ x ∈ changesIn js, x.keepsCapacity = true

/-- While no session is being started or ended, the scope is as the running session wants it: it has
the capacity of the session's options, unless a client chose another, and of all that clients have
set since a start last returned nothing is missing. -/
def InStep (js : List (Mark × Runtime)) (s : Runtime) : Prop :=
  s.isQuiet → ∀ r, s.running = some r →
    (KeepsCapacity js → s.scope.capacity = r.options.maxBreadcrumbs) ∧
      ∀ scope cs, lastStart js = some (scope, cs) → s.scope = scope.changes cs

variable {s s' a b : Runtime} {c : Nat} {x : Call} {m : Mark} {ev : Option Event}
  {js : List (Mark × Runtime)} {tr : List Event}

theorem scope_closeWorker (worker : Option Nat) : (s.closeWorker worker).scope = s.scope := by
  unfold closeWorker
  split <;> rfl

theorem running_closeWorker (worker : Option Nat) : (s.closeWorker worker).running = s.running := by
  unfold closeWorker
  split <;> rfl

theorem closeWorker_call (c : Nat) (x : Call) (worker : Option Nat) :
    (s.call c x).closeWorker worker = (s.closeWorker worker).call c x := by
  have hworkers : (s.call c x).workers = s.workers := rfl
  unfold closeWorker
  rw [hworkers]
  split <;> rfl

theorem calls_install (o : Options) (worker : Option Nat) : (s.install o worker).calls = s.calls :=
  calls_closeWorker (s := s.run none) s.runningWorker

theorem scope_install (o : Options) (worker : Option Nat) : (s.install o worker).scope = s.scope :=
  scope_closeWorker (s := s.run none) s.runningWorker

/-- A step of a call that leaves the scope alone. -/
theorem Effect.call (scope : b.scope = s.scope) (calls : b.calls = s.calls)
    (running : b.running = s.running ∨ b.running = none)
    (attends : x.attends = true → (s.calls c).attends = true ∨ b.running = none)
    (publishing : ∀ o worker, x ≠ .publishing o worker) : Effect s .aside (b.call c x) := by
  refine .rested scope running ?_ ?_
  · intro d hd
    rw [calls_call, calls] at hd
    split at hd
    · next heq => exact heq ▸ attends hd
    · exact Or.inl hd
  · intro d o worker hd
    rw [calls_call, calls] at hd
    split at hd
    · exact absurd hd (publishing o worker)
    · exact hd

/-- A step that no call takes. -/
theorem Effect.frame (scope : s'.scope = s.scope) (calls : s'.calls = s.calls)
    (running : s'.running = s.running) : Effect s .aside s' := by
  refine .rested scope (Or.inl running) ?_ ?_
  · intro d hd
    exact Or.inl (calls ▸ hd)
  · intro d o worker hd
    exact calls ▸ hd

/-- A call that attended to a session gets on. -/
theorem Effect.attend (scope : b.scope = s.scope) (calls : b.calls = s.calls)
    (running : b.running = s.running) (here : (s.calls c).attends = true)
    (publishing : ∀ o worker, x ≠ .publishing o worker) : Effect s .aside (b.call c x) :=
  .call scope calls (Or.inl running) (fun _ => Or.inl here) publishing

theorem Step.exists_effect (hs : Step s ev s') : ∃ m, Effect s m s' := by
  have attend : ∀ {c : Nat} {x y : Call} {b : Runtime}, s.calls c = x → x.attends = true →
      b.scope = s.scope → b.calls = s.calls → b.running = s.running →
      (∀ o worker, y ≠ .publishing o worker) → ∃ m, Effect s m (b.call c y) :=
    fun here hx scope calls running hy =>
      ⟨_, .attend scope calls running (here ▸ hx) hy⟩
  have pass : ∀ {c : Nat} {y : Call} {b : Runtime}, y.attends = false → b.scope = s.scope →
      b.calls = s.calls → b.running = s.running → ∃ m, Effect s m (b.call c y) := by
    intro c y b hy scope calls running
    refine ⟨_, .call scope calls (Or.inl running) ?_ ?_⟩
    · simp [hy]
    · rintro o worker rfl
      simp [Call.attends] at hy
  cases hs with
  | mutate x => exact ⟨_, .changed x⟩
  | around w notes => exact ⟨_, .frame rfl rfl rfl⟩
  | capture c r event idle running object => exact pass rfl rfl rfl rfl
  | queue c i l e here worker => exact pass rfl rfl rfl rfl
  | lose c e here => exact pass rfl rfl rfl rfl
  | flush c i l idle running worker => exact pass rfl rfl rfl rfl
  | flushed c i k l here worker answer => exact pass rfl rfl rfl rfl
  | flushTimedOut c i k here => exact pass rfl rfl rfl rfl
  | withdraw c r next idle running unread =>
    exact ⟨_, .call rfl rfl (Or.inr rfl) (fun _ => Or.inr rfl) (by simp)⟩
  | withdrawNothing c o idle running unread =>
    exact ⟨_, .call rfl rfl (Or.inl rfl) (fun _ => Or.inr running) (by simp)⟩
  | drain c i l next here worker => exact attend here rfl rfl rfl rfl (by simp)
  | endBare c next here => exact attend here rfl rfl rfl rfl (by simp)
  | drained c i k l next here worker answer => exact attend here rfl rfl rfl rfl (by simp)
  | drainTimedOut c i k next here => exact attend here rfl rfl rfl rfl (by simp)
  | hangUp c i next here =>
    rw [closeWorker_call]
    exact attend here rfl (scope_closeWorker _) (calls_closeWorker _) (running_closeWorker _)
      (by simp)
  | join c i l next here worker ended => exact attend here rfl rfl rfl rfl (by simp)
  | clear c worker next here => exact ⟨_, .cleared c worker next here⟩
  | make c o files here made => exact attend here rfl rfl rfl rfl (by simp)
  | makeFailed c o e files here failed => exact attend here rfl rfl rfl rfl (by simp)
  | spawn c o t here transport => exact attend here rfl rfl rfl rfl (by simp)
  | spawnNothing c o here transport => exact attend here rfl rfl rfl rfl (by simp)
  | spawnFailed c o here => exact attend here rfl rfl rfl rfl (by simp)
  | refuse c t here => exact pass rfl rfl rfl rfl
  | size c o worker here => exact ⟨_, .sized c o worker here⟩
  | publish c o worker here unread => exact ⟨_, .published c o worker here⟩
  | replaced c i l here worker ended => exact ⟨_, .replaced c i here⟩
  | take i l p q worker idle queue => exact ⟨_, .frame rfl rfl rfl⟩
  | finish i l p w worker working sent => exact ⟨_, .frame rfl rfl rfl⟩
  | answer i l k q worker idle queue => exact ⟨_, .frame rfl rfl rfl⟩
  | leave i l worker idle empty closed present => exact ⟨_, .frame rfl rfl rfl⟩

/-- Every run can be told as a journal. -/
theorem Run.exists_journal (h : Run a tr s) : ∃ js, Journal a js s := by
  induction h with
  | start => exact ⟨[], .start⟩
  | step _ hs ih =>
    obtain ⟨js, before⟩ := ih
    obtain ⟨m, effect⟩ := hs.exists_effect
    exact ⟨_, before.step hs effect⟩

/-- Where calls take turns, no session runs while one of them is under way. -/
structure Orderly (js : List (Mark × Runtime)) (s : Runtime) : Prop where
  still : ∀ c, (s.calls c).attends = true → s.running = none
  sized : KeepsCapacity js → ∀ c o worker, s.calls c = .publishing o worker →
    s.scope.capacity = o.maxBreadcrumbs
  fits : KeepsCapacity js → ∀ r, s.running = some r →
    s.scope.capacity = r.options.maxBreadcrumbs
  kept : ∀ r, s.running = some r →
    ∃ scope cs, lastStart js = some (scope, cs) ∧ s.scope = scope.changes cs

theorem orderly_initial (scope : Scope) (w : World) : Orderly [] (initial scope w) := by
  constructor <;> simp [initial, Call.attends]

theorem Orderly.changed (h : Orderly js s) (x : Scope.Change) :
    Orderly ((.changed x, s.changeScope x) :: js) (s.changeScope x) := by
  have hkeeps : KeepsCapacity ((.changed x, s.changeScope x) :: js) →
      KeepsCapacity js ∧ (s.scope.change x).capacity = s.scope.capacity := by
    intro hk
    have hx : x.keepsCapacity = true := hk x (by simp [changesIn])
    exact ⟨fun y hy => hk y (List.mem_append_left _ hy), Scope.capacity_change_of_keeps hx⟩
  constructor
  case still => exact h.still
  case sized =>
    intro hk c o worker hc
    obtain ⟨hbefore, hcapacity⟩ := hkeeps hk
    exact hcapacity.trans (h.sized hbefore c o worker hc)
  case fits =>
    intro hk r hr
    obtain ⟨hbefore, hcapacity⟩ := hkeeps hk
    exact hcapacity.trans (h.fits hbefore r hr)
  case kept =>
    intro r hr
    obtain ⟨scope, cs, hlast, hscope⟩ := h.kept r hr
    refine ⟨scope, cs ++ [x], by simp [lastStart, hlast], ?_⟩
    rw [Scope.changes_concat, ← hscope]
    rfl

theorem Orderly.rested (h : Orderly js s) (scope : s'.scope = s.scope)
    (running : s'.running = s.running ∨ s'.running = none)
    (attends : ∀ d, (s'.calls d).attends = true → (s.calls d).attends = true ∨ s'.running = none)
    (publishing : ∀ d o worker, s'.calls d = .publishing o worker →
      s.calls d = .publishing o worker) :
    Orderly ((.aside, s') :: js) s' := by
  have hrunning : ∀ r, s'.running = some r → s.running = some r := by
    intro r hr
    rcases running with hsame | hnone
    · exact hsame ▸ hr
    · simp [hnone] at hr
  constructor
  case still =>
    intro d hd
    rcases attends d hd with hbefore | hnone
    · rcases running with hsame | hnone
      · exact hsame.trans (h.still d hbefore)
      · exact hnone
    · exact hnone
  case sized =>
    intro hk d o worker hd
    rw [scope]
    exact h.sized hk d o worker (publishing d o worker hd)
  case fits =>
    intro hk r hr
    rw [scope]
    exact h.fits hk r (hrunning r hr)
  case kept =>
    intro r hr
    rw [scope]
    exact h.kept r (hrunning r hr)

/-- While a call takes its turn no session runs, and all that counts is what it does itself. -/
theorem Orderly.ofTurn {js' : List (Mark × Runtime)} (h : Orderly js s) (turns : s.TakesTurns)
    (here : (s.calls c).attends = true) (calls : b.calls = s.calls)
    (running : b.running = s.running)
    (sized : ∀ o worker, x = .publishing o worker → b.scope.capacity = o.maxBreadcrumbs) :
    Orderly js' (b.call c x) := by
  have hnone : b.running = none := running.trans (h.still c here)
  constructor
  case still => exact fun _ _ => hnone
  case sized =>
    intro _ d o worker hd
    rw [calls_call, calls] at hd
    split at hd
    · exact sized o worker hd
    · next hne =>
      have hattends : (s.calls d).attends = true := hd ▸ rfl
      exact absurd (turns d c hattends here) hne
  case fits =>
    intro _ r hr
    exact absurd (hnone.symm.trans hr) (by simp)
  case kept =>
    intro r hr
    exact absurd (hnone.symm.trans hr) (by simp)

theorem Orderly.published {o : Options} {worker : Option Nat} (h : Orderly js s)
    (turns : s.TakesTurns) (here : s.calls c = .publishing o worker) :
    Orderly ((s.publishMark, (s.install o worker).call c s.afterPublish) :: js)
      ((s.install o worker).call c s.afterPublish) := by
  have hattends : (s.calls c).attends = true := here ▸ rfl
  have hrunning : s.runningWorker = none := by simp [runningWorker, h.still c hattends]
  have hmark : s.publishMark = .returned := by simp [publishMark, hrunning]
  have hcall : s.afterPublish = .idle := by simp [afterPublish, hrunning]
  have hothers : ∀ d, (((s.install o worker).call c .idle).calls d).attends = false := by
    intro d
    rw [calls_call, calls_install]
    split
    · rfl
    · next hne =>
      rw [Bool.eq_false_iff]
      exact fun hd => hne (turns d c hd hattends)
  rw [hmark, hcall]
  constructor
  case still =>
    intro d hd
    simp [hothers d] at hd
  case sized =>
    intro _ d o' worker' hd
    have hfalse := hothers d
    simp [hd, Call.attends] at hfalse
  case fits =>
    intro hk r hr
    obtain rfl := Option.some.inj hr
    exact (congrArg Scope.capacity (scope_install o worker)).trans (h.sized hk c o worker here)
  case kept =>
    intro r _
    exact ⟨_, [], rfl, rfl⟩

theorem Orderly.step (h : Orderly js s) (turns : s.TakesTurns) (he : Effect s m s') :
    Orderly ((m, s') :: js) s' := by
  cases he with
  | changed x => exact h.changed x
  | rested scope running attends publishing => exact h.rested scope running attends publishing
  | cleared c worker next here =>
    refine h.ofTurn turns (here ▸ rfl) rfl rfl ?_
    cases next <;> simp [Call.afterEnd]
  | sized c o worker here =>
    refine h.ofTurn turns (here ▸ rfl) rfl rfl ?_
    intro o' worker' heq
    cases heq
    rfl
  | published c o worker here => exact h.published turns here
  | replaced c i here => exact h.ofTurn turns (here ▸ rfl) rfl rfl (by simp)

theorem takesTurns_of_alone (c : Nat) (h : ∀ d, d ≠ c → (s.calls d).attends = false) :
    s.TakesTurns := by
  have only : ∀ d, (s.calls d).attends = true → d = c := by
    intro d hd
    by_contra hne
    simp [h d hne] at hd
  intro d e hd he
  exact (only d hd).trans (only e he).symm

theorem takesTurns_initial (scope : Scope) (w : World) : (initial scope w).TakesTurns := by
  intro c d hc
  simp [initial, Call.attends] at hc

theorem Journal.orderly {scope : Scope} {w : World} (h : Journal (initial scope w) js s)
    (turns : ∀ e ∈ js, e.2.TakesTurns) : Orderly js s ∧ s.TakesTurns := by
  induction h with
  | start => exact ⟨orderly_initial scope w, takesTurns_initial scope w⟩
  | step before step effect ih =>
    obtain ⟨horderly, hturns⟩ := ih fun e he => turns e (List.mem_cons_of_mem _ he)
    exact ⟨horderly.step hturns effect, turns _ List.mem_cons_self⟩

/-- If calls that start and end sessions take turns, the scope and the session that runs are in
step. A session that runs was started by a call that has returned, and no other call is about to
replace or to end it. -/
theorem Journal.inStep {scope : Scope} {w : World} (h : Journal (initial scope w) js s)
    (turns : ∀ e ∈ js, e.2.TakesTurns) :
    InStep js s ∧ ∀ r, s.running = some r → s.isQuiet ∧ (lastStart js).isSome = true := by
  obtain ⟨horderly, -⟩ := h.orderly turns
  refine ⟨?_, ?_⟩
  · intro _ r hr
    obtain ⟨last, since, hlast, hscope⟩ := horderly.kept r hr
    refine ⟨fun hk => horderly.fits hk r hr, ?_⟩
    intro scope cs heq
    cases hlast.symm.trans heq
    exact hscope
  · intro r hr
    obtain ⟨last, since, hlast, -⟩ := horderly.kept r hr
    refine ⟨?_, by simp [hlast]⟩
    intro c
    rw [Bool.eq_false_iff]
    intro hc
    simp [horderly.still c hc] at hr

/-- A world without files, in which every thread can be started. -/
def emptyWorld : World := { files := .withWorkDir "w", supply := .numbered "" }

def smallHistory : Options := { databasePath := "", maxBreadcrumbs := 3 }

def largeHistory : Options := { databasePath := "", maxBreadcrumbs := 7 }

/-- One thread starts a session, then a client sets a tag. -/
theorem inStep_oneStart : ∃ (w : World) (js : List (Mark × Runtime)) (s : Runtime) (r : Running),
    Journal (initial Scope.fresh w) js s ∧ (∀ e ∈ js, e.2.TakesTurns) ∧ s.running = some r ∧
      s.scope.capacity = 3 ∧ InStep js s := by
  have started := ((((Journal.start (a := initial Scope.fresh emptyWorld)).step
    (.withdrawNothing 0 smallHistory rfl rfl fun _ => rfl)
      (.call rfl rfl (Or.inl rfl) (fun _ => Or.inr rfl) (by simp))).step
    (.make 0 smallHistory _ rfl rfl) (.attend rfl rfl rfl rfl (by simp))).step
    (.spawnNothing 0 smallHistory rfl rfl) (.attend rfl rfl rfl rfl (by simp))).step
    (.size 0 smallHistory none rfl) (.sized 0 smallHistory none rfl)
  have tagged := (started.step
    (.publish 0 smallHistory none rfl (by intro c; cases c <;> rfl))
      (.published 0 smallHistory none rfl)).step
    (.mutate (.setTag "k" "v")) (.changed _)
  have alone : ∀ {s : Runtime}, (∀ d, (s.calls (d + 1)).attends = false) → s.TakesTurns := by
    intro s h
    refine takesTurns_of_alone 0 ?_
    rintro (_ | d) hd
    · exact absurd rfl hd
    · exact h d
  refine ⟨emptyWorld, _, _, _, tagged, ?turns, rfl, rfl, (tagged.inStep ?turns).1⟩
  simp only [List.forall_mem_cons, List.not_mem_nil, false_imp_iff, implies_true, and_true]
  exact ⟨alone fun _ => rfl, alone fun _ => rfl, alone fun _ => rfl, alone fun _ => rfl,
    alone fun _ => rfl, alone fun _ => rfl⟩

/-- Of two sessions started side by side, one runs and the other has chosen the capacity. -/
theorem exists_capacity_ofOther : ∃ (js : List (Mark × Runtime)) (s : Runtime) (r : Running),
    Journal (initial Scope.fresh emptyWorld) js s ∧ s.isQuiet ∧ s.running = some r ∧
      changesIn js = [] ∧ s.scope.capacity = 7 ∧ r.options.maxBreadcrumbs = 3 ∧
      ¬ InStep js s := by
  have both := ((((((Journal.start (a := initial Scope.fresh emptyWorld)).step
    (.withdrawNothing 0 smallHistory rfl rfl fun _ => rfl)
      (.call rfl rfl (Or.inl rfl) (fun _ => Or.inr rfl) (by simp))).step
    (.withdrawNothing 1 largeHistory rfl rfl (by rintro (_ | c) <;> rfl))
      (.call rfl rfl (Or.inl rfl) (fun _ => Or.inr rfl) (by simp))).step
    (.make 0 smallHistory _ rfl rfl) (.attend rfl rfl rfl rfl (by simp))).step
    (.make 1 largeHistory _ rfl rfl) (.attend rfl rfl rfl rfl (by simp))).step
    (.spawnNothing 0 smallHistory rfl rfl) (.attend rfl rfl rfl rfl (by simp))).step
    (.spawnNothing 1 largeHistory rfl rfl) (.attend rfl rfl rfl rfl (by simp))
  have run := (((both.step
    (.size 0 smallHistory none rfl) (.sized 0 smallHistory none rfl)).step
    (.size 1 largeHistory none rfl) (.sized 1 largeHistory none rfl)).step
    (.publish 1 largeHistory none rfl (by rintro (_ | _ | c) <;> rfl))
      (.published 1 largeHistory none rfl)).step
    (.publish 0 smallHistory none rfl (by rintro (_ | _ | c) <;> rfl))
      (.published 0 smallHistory none rfl)
  refine ⟨_, _, _, run, by rintro (_ | _ | c) <;> rfl, rfl, rfl, rfl, rfl, ?_⟩
  intro h
  have hcapacity : 7 = 3 := (h (by rintro (_ | _ | c) <;> rfl) _ rfl).1 nofun
  simp at hcapacity

/-- A session that ends may clear the scope when the next already runs: a tag set in between is
gone. -/
theorem exists_tag_cleared :
    ∃ (js : List (Mark × Runtime)) (s : Runtime) (r : Running) (scope : Scope),
      Journal (initial Scope.fresh emptyWorld) js s ∧ s.isQuiet ∧ s.running = some r ∧
        lastStart js = some (scope, [.setTag "k" "v"]) ∧ s.scope = Scope.fresh ∧
        ¬ InStep js s := by
  have started := (((((Journal.start (a := initial Scope.fresh emptyWorld)).step
    (.withdrawNothing 0 smallHistory rfl rfl fun _ => rfl)
      (.call rfl rfl (Or.inl rfl) (fun _ => Or.inr rfl) (by simp))).step
    (.make 0 smallHistory _ rfl rfl) (.attend rfl rfl rfl rfl (by simp))).step
    (.spawnNothing 0 smallHistory rfl rfl) (.attend rfl rfl rfl rfl (by simp))).step
    (.size 0 smallHistory none rfl) (.sized 0 smallHistory none rfl)).step
    (.publish 0 smallHistory none rfl (by rintro (_ | c) <;> rfl))
      (.published 0 smallHistory none rfl)
  -- The session is withdrawn, but its end has yet to come to the scope.
  have leaving := (started.step
    (.withdraw 0 ⟨smallHistory, none⟩ none rfl rfl (by rintro (_ | c) <;> rfl))
      (.call rfl rfl (Or.inr rfl) (fun _ => Or.inr rfl) (by simp))).step
    (.endBare 0 none rfl) (.attend rfl rfl rfl rfl (by simp))
  have next := ((((leaving.step
    (.withdrawNothing 1 largeHistory rfl rfl (by rintro (_ | c) <;> rfl))
      (.call rfl rfl (Or.inl rfl) (fun _ => Or.inr rfl) (by simp))).step
    (.make 1 largeHistory _ rfl rfl) (.attend rfl rfl rfl rfl (by simp))).step
    (.spawnNothing 1 largeHistory rfl rfl) (.attend rfl rfl rfl rfl (by simp))).step
    (.size 1 largeHistory none rfl) (.sized 1 largeHistory none rfl)).step
    (.publish 1 largeHistory none rfl (by rintro (_ | _ | c) <;> rfl))
      (.published 1 largeHistory none rfl)
  have run := (next.step (.mutate (.setTag "k" "v")) (.changed _)).step
    (.clear 0 none none rfl) (.cleared 0 none none rfl)
  refine ⟨_, _, _, _, run, by rintro (_ | _ | c) <;> rfl, rfl, rfl, rfl, ?_⟩
  intro h
  have hscope := (h (by rintro (_ | _ | c) <;> rfl) _ rfl).2 _ _ rfl
  have hcapacity : 100 = 7 := congrArg Scope.capacity hscope
  simp at hcapacity

/-- Where calls do not take turns, the session that runs may not be the one that chose the capacity,
and what a client has set may be lost. -/
theorem exists_outOfStep : ∃ w : World,
    (∃ (js : List (Mark × Runtime)) (s : Runtime) (r : Running),
      Journal (initial Scope.fresh w) js s ∧ s.isQuiet ∧ s.running = some r ∧ changesIn js = [] ∧
        s.scope.capacity = 7 ∧ r.options.maxBreadcrumbs = 3 ∧ ¬ InStep js s) ∧
    ∃ (js : List (Mark × Runtime)) (s : Runtime) (r : Running) (scope : Scope),
      Journal (initial Scope.fresh w) js s ∧ s.isQuiet ∧ s.running = some r ∧
        lastStart js = some (scope, [.setTag "k" "v"]) ∧ s.scope = Scope.fresh ∧
        ¬ InStep js s :=
  ⟨emptyWorld, exists_capacity_ofOther, exists_tag_cleared⟩

end Runtime

end Delivery

end CrashCourier
