import CrashCourier.Proofs.Managed.Texts
import CrashCourier.Proofs.StartFrom
import Mathlib.Algebra.Group.Int.Defs
import Mathlib.Algebra.Group.Nat.Defs

namespace CrashCourier

open Managed

namespace Managed.Heap

/-- The exception that a call of a method raises, if it does: any method may fail, and all do that
are called on other objects than options. -/
def raises? (h : Heap) (object : Reference) (m : String) : Option String :=
  if m ∈ h.failingMethods then some ("RuntimeException in " ++ m)
  else
    match h.object? object with
    | some (.options _) => none
    | _ => some "NoSuchMethodError"

/-- The text that an accessor yields when those before it have been called. -/
def found? (h : Heap) (object : Reference) (o : TextOption) : Option String :=
  ((TextOption.all.takeWhile (· ≠ o)).foldl (fun h o => h.accessed object o) h).yields? object o

variable {h : Heap} {object : Reference} {m : String}

theorem found?_outboxPath : h.found? object .outboxPath = h.yields? object .outboxPath := rfl

theorem found?_dsn :
    h.found? object .dsn = (h.accessed object .outboxPath).yields? object .dsn := rfl

theorem options_of_raises? (hnone : h.raises? object m = none) :
    m ∉ h.failingMethods ∧ ∃ held, h.object? object = some (.options held) := by
  unfold raises? at hnone
  split at hnone
  · simp at hnone
  · next hworks =>
    split at hnone
    · next held hheld => exact ⟨hworks, held, hheld⟩
    · simp at hnone

theorem ask_error {α : Type} {message : String} (next : OptionsObject → Except Thrown α)
    (hraises : h.raises? object m = some message) :
    (h.refuseFailing m >>= fun _ => h.options object >>= next) = .error ⟨message⟩ := by
  unfold raises? at hraises
  unfold refuseFailing options
  split at hraises
  · next hfails =>
    obtain rfl := Option.some.inj hraises
    rw [if_pos hfails]
    rfl
  · next hworks =>
    rw [if_neg hworks]
    cases hheld : h.object? object with
    | none =>
      rw [hheld] at hraises
      obtain rfl := Option.some.inj hraises
      rfl
    | some x =>
      rw [hheld] at hraises
      cases x with
      | options held => simp at hraises
      | _ =>
        obtain rfl := Option.some.inj hraises
        rfl

theorem ask_ok {α : Type} {held : OptionsObject} (next : OptionsObject → Except Thrown α)
    (hraises : h.raises? object m = none) (hheld : h.object? object = some (.options held)) :
    (h.refuseFailing m >>= fun _ => h.options object >>= next) = next held := by
  obtain ⟨hworks, -⟩ := options_of_raises? hraises
  unfold refuseFailing options
  rw [if_neg hworks, hheld]
  rfl

end Managed.Heap

namespace Startup

section Steps

variable {σ ε α β : Type} {step : ExceptT ε (StateM σ) α} {next : α → ExceptT ε (StateM σ) β}
  {h h' : σ}

theorem run_bind_ok {a : α} (hstep : step.run.run h = (.ok a, h')) :
    (step >>= next).run.run h = (next a).run.run h' := by
  rw [ExceptT.run_bind, run_bind_of hstep]

theorem run_bind_error {e : ε} (hstep : step.run.run h = (.error e, h')) :
    (step >>= next).run.run h = (.error e, h') := by
  rw [ExceptT.run_bind, run_bind_of hstep]
  rfl

end Steps

variable {h : Heap} {object : Reference}

theorem run_asked {α : Type} {call : StateM Heap (Except Thrown α)} {result : Except Thrown α}
    (hcall : call.run h = (result, h)) :
    (readOptions.asked call).run.run h = (result.mapError .thrown, h) := by
  unfold readOptions.asked
  rw [ExceptT.run_mk, run_bind_of hcall]
  cases result with
  | error e => rfl
  | ok a => rfl

theorem run_needed (h : Heap) (object : Reference) (field : String) (o : TextOption) :
    (readOptions.needed field (option object o)).run.run h =
      (((h.yields? object o).map Buffer.ofText).elim (.error (.missing field)) .ok,
        h.accessed object o) := by
  unfold readOptions.needed option
  rw [ExceptT.run_mk, run_bind_of (run_callForText h object o)]
  cases h.yields? object o with
  | none => rfl
  | some s => rfl

theorem run_wellFormed (h : Heap) (s : String) :
    (readOptions.wellFormed (.ofText s) : ExceptT CallError (StateM Heap) String).run.run h =
      (.ok s, h) := by
  unfold readOptions.wellFormed
  rw [Buffer.text?_ofText]
  rfl

theorem run_optionalText (h : Heap) (object : Reference) (o : TextOption) :
    (ExceptT.lift (optionalText object o) :
      ExceptT CallError (StateM Heap) (Option String)).run.run h =
      (.ok (h.yields? object o), h.accessed object o) := by
  have hrun : (optionalText object o).run h = (h.yields? object o, h.accessed object o) := by
    unfold optionalText option
    rw [run_bind_of (run_callForText h object o), bind_text?_ofText]
    rfl
  rw [ExceptT.run_lift, StateT.run_map, hrun]
  rfl

theorem capacityOf_eq (n : Int32) : capacityOf n = (n.toInt % 2 ^ 64).toNat := by
  have hlow := n.le_toInt
  have hhigh := n.toInt_lt
  unfold capacityOf
  split
  · next hneg => omega
  · next hpos => omega

/-- What can end a start, in the order in which it is met, each with its text. -/
def obstacles (h : Heap) (object : Reference) : List (Option String) :=
  [(h.raises? object "isDebug").map ("managed exception: " ++ ·),
    (h.raises? object "getMaxBreadcrumbs").map ("managed exception: " ++ ·),
    if (h.found? object .outboxPath).isSome then none
      else some "missing required value: outbox path",
    if (h.found? object .dsn).isSome then none else some "missing required value: dsn"]

/-- The options of a managed object whose accessors yield some texts. -/
def optionsOf (held : OptionsObject) (outbox dsn : String) (text : TextOption → Option String) :
    Options where
  dsn := some dsn
  databasePath := databasePath outbox
  debug := held.debug
  release := text .release
  environment := text .environment
  dist := text .dist
  maxBreadcrumbs := (held.maxBreadcrumbs.toInt % 2 ^ 64).toNat
  autoSessionTracking := false
  transport := some (.toOutbox (.ofText outbox))

theorem run_readOptions (h : Heap) (object : Reference) :
    match (obstacles h object).findSome? id with
    | some text => ∃ e h', (readOptions object).run.run h = (.error e, h') ∧ e.text = text
    | none => ∃ held outbox dsn h', h.object? object = some (.options held) ∧
        h.found? object .outboxPath = some outbox ∧ h.found? object .dsn = some dsn ∧
        (readOptions object).run.run h =
          (.ok (optionsOf held outbox dsn (h.found? object)), h') := by
  have hbool : (Host.callBool object debugMethod).run h =
      (h.refuseFailing "isDebug" >>= fun _ => h.options object >>= fun held => .ok held.debug, h) :=
    rfl
  have hint : (Host.callInt object capacityMethod).run h =
      (h.refuseFailing "getMaxBreadcrumbs" >>= fun _ =>
        h.options object >>= fun held => .ok held.maxBreadcrumbs, h) := rfl
  have hdebugRun := run_asked hbool
  have hcapacityRun := run_asked hint
  have houtboxRun := run_needed h object outboxField .outboxPath
  have hdsnRun := run_needed (h.accessed object .outboxPath) object dsnField .dsn
  rw [← Heap.found?_outboxPath] at houtboxRun
  rw [← Heap.found?_dsn] at hdsnRun
  unfold obstacles readOptions
  -- A step either ends at its obstacle, or leaves the heap in which the next one is looked for.
  cases hdebug : h.raises? object "isDebug" with
  | some message =>
    rw [Heap.ask_error _ hdebug] at hdebugRun
    exact ⟨_, _, run_bind_error hdebugRun, rfl⟩
  | none =>
    obtain ⟨-, held, hheld⟩ := Heap.options_of_raises? hdebug
    rw [Heap.ask_ok _ hdebug hheld] at hdebugRun
    rw [run_bind_ok hdebugRun]
    cases hcapacity : h.raises? object "getMaxBreadcrumbs" with
    | some message =>
      rw [Heap.ask_error _ hcapacity] at hcapacityRun
      exact ⟨_, _, run_bind_error hcapacityRun, rfl⟩
    | none =>
      rw [Heap.ask_ok _ hcapacity hheld] at hcapacityRun
      rw [run_bind_ok hcapacityRun]
      cases houtbox : h.found? object .outboxPath with
      | none =>
        rw [houtbox] at houtboxRun
        exact ⟨_, _, run_bind_error houtboxRun, rfl⟩
      | some outbox =>
        rw [houtbox] at houtboxRun
        rw [run_bind_ok houtboxRun, run_bind_ok (run_wellFormed _ outbox)]
        cases hdsn : h.found? object .dsn with
        | none =>
          rw [hdsn] at hdsnRun
          exact ⟨_, _, run_bind_error hdsnRun, rfl⟩
        | some dsn =>
          rw [hdsn] at hdsnRun
          rw [run_bind_ok hdsnRun, run_bind_ok (run_wellFormed _ dsn),
            run_bind_ok (run_optionalText _ object .release),
            run_bind_ok (run_optionalText _ object .environment),
            run_bind_ok (run_optionalText _ object .dist), capacityOf_eq]
          exact ⟨held, outbox, dsn, _, hheld, rfl, rfl, rfl⟩

end Startup

namespace Reporter

open Startup

theorem optionsFrom_eq {object : Reference} {h h' : Heap} {result : Except CallError Options}
    (hrun : (readOptions object).run.run h = (result, h')) : optionsFrom object h = result := by
  rw [optionsFrom, hrun]

/-- What the system may have against a session with a worker, in the order in which it is met. -/
def systemObstacles (w : World) (database : String) : List (Option FileError) :=
  [match (w.files.makeDirectories database).1 with
    | .error e => some e
    | .ok () => none,
    w.supply.threadError w.supply.threads]

theorem result_start_of_transport {s : Site} {o : Options} {t : Transport}
    (ht : o.transport = some t) :
    (s.start o).1 = match (systemObstacles s.close.world o.databasePath).findSome? id with
      | some e => .error (.files e)
      | none => .ok () := by
  rw [Site.result_start, Site.result_prepare, ht, systemObstacles]
  rcases (s.close.world.files.makeDirectories o.databasePath).1 with e | ⟨⟩
  · rfl
  · cases s.close.world.supply.threadError s.close.world.supply.threads <;> rfl

/-- With options that could be read, a start is for the system to decide. -/
theorem after_startFrom_of_transport (thread : Nat) {object : Reference} (r : Reporter) {h : Heap}
    {o : Options} {t : Transport} (hread : optionsFrom object h = .ok o)
    (ht : o.transport = some t) :
    let r' := after (startFrom thread object) r h
    match (systemObstacles r.site.close.world o.databasePath).findSome? id with
    | some e =>
      r'.lastErrors.text thread = some ("engine error: I/O error: " ++ e.text) ∧
        r'.site.engine = r.site.close.engine
    | none =>
      r'.lastErrors.text thread = none ∧
        r'.site.engine = ⟨r.site.close.engine.scope.setCapacity o.maxBreadcrumbs,
          some (Session.ofOptions o)⟩ := by
  intro r'
  have hafter : r' = _ := after_startFrom_read hread
  have hresult := result_start_of_transport (s := r.site) ht
  cases hsystem : (systemObstacles r.site.close.world o.databasePath).findSome? id with
  | some e =>
    rw [hsystem] at hresult
    rw [hresult] at hafter
    rw [hafter]
    exact ⟨LastErrors.text_put_self _ _ _, Site.engine_start_error hresult⟩
  | none =>
    rw [hsystem] at hresult
    rw [hresult] at hafter
    rw [hafter]
    exact ⟨LastErrors.text_put_self _ _ _, Site.engine_start_ok hresult⟩

/-- A start fails at the first obstacle with its text, and what runs is not touched. With none, what
runs is closed, and what the system then has against a session is what the start fails with. If that
is nothing either, a session of the options found runs; the scope has their capacity and, of its
breadcrumbs, the last ones for which there is room. -/
theorem startFrom_decides (thread : Nat) (object : Reference) (r : Reporter) (h : Heap) :
    let r' := after (startFrom thread object) r h
    match (obstacles h object).findSome? id with
    | some text => r'.lastErrors.text thread = some text ∧ r'.site = r.site
    | none => ∃ held outbox dsn, h.object? object = some (.options held) ∧
        h.found? object .outboxPath = some outbox ∧ h.found? object .dsn = some dsn ∧
        let o := optionsOf held outbox dsn (h.found? object)
        let closed := r.site.close
        (held.maxBreadcrumbs.toInt < 0 → 2 ^ 64 - 2 ^ 31 ≤ o.maxBreadcrumbs) ∧
        match (systemObstacles closed.world (databasePath outbox)).findSome? id with
        | some e =>
          r'.lastErrors.text thread = some ("engine error: I/O error: " ++ e.text) ∧
            r'.site.engine = closed.engine
        | none =>
          r'.lastErrors.text thread = none ∧
            r'.site.engine.session = some ⟨{ o with transport := none },
              some (.running (.toOutbox (.ofText outbox)) [])⟩ ∧
            r'.site.engine.scope = { closed.engine.scope with
              capacity := o.maxBreadcrumbs
              breadcrumbs := closed.engine.scope.breadcrumbs.drop
                (closed.engine.scope.breadcrumbs.length - o.maxBreadcrumbs) } := by
  intro r'
  have hread := run_readOptions h object
  cases hfirst : (obstacles h object).findSome? id with
  | some text =>
    rw [hfirst] at hread
    obtain ⟨e, h', hrun, htext⟩ := hread
    have hafter : r' = _ := after_startFrom_unread (optionsFrom_eq hrun)
    rw [hafter]
    exact ⟨(LastErrors.text_put_self _ _ _).trans (congrArg some htext), rfl⟩
  | none =>
    rw [hfirst] at hread
    obtain ⟨held, outbox, dsn, h', hheld, houtbox, hdsn, hrun⟩ := hread
    have hsystem := after_startFrom_of_transport thread r (optionsFrom_eq hrun) rfl
    refine ⟨held, outbox, dsn, hheld, houtbox, hdsn, ?_, ?_⟩
    · intro hneg
      have hlow := held.maxBreadcrumbs.le_toInt
      change 2 ^ 64 - 2 ^ 31 ≤ (held.maxBreadcrumbs.toInt % 2 ^ 64).toNat
      omega
    · have hdatabase : (optionsOf held outbox dsn (h.found? object)).databasePath =
          databasePath outbox := rfl
      dsimp only at hsystem ⊢
      rw [hdatabase] at hsystem
      cases hfound : (systemObstacles r.site.close.world (databasePath outbox)).findSome? id with
      | some e =>
        rw [hfound] at hsystem
        exact hsystem
      | none =>
        rw [hfound] at hsystem
        obtain ⟨hnone, hengine⟩ := hsystem
        exact ⟨hnone, congrArg Engine.session hengine, congrArg Engine.scope hengine⟩

example : (obstacles incomplete ⟨1⟩).findSome? id = some "missing required value: dsn" := by
  decide +kernel

end Reporter

end CrashCourier
