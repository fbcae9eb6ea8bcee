import CrashCourier.Managed.Heap
import CrashCourier.Proofs.Sessions
import CrashCourier.Reporter

namespace CrashCourier.Reporter

open Managed

variable {σ ρ : Type} [Host σ ρ]

def after {α : Type} (request : Request σ α) (r : Reporter) (h : σ) : Reporter :=
  ((request.run r).run h).1.2

/-- The options that a managed object gives, or why it gives none. -/
def optionsFrom (object : ρ) (h : σ) : Except CallError Options :=
  ((Startup.readOptions object).run.run h).1

variable {thread : Nat} {object : ρ} {r : Reporter} {h : σ}

/-- Options that cannot be read change nothing but the latest error. -/
theorem after_startFrom_unread {e : CallError} (he : optionsFrom object h = .error e) :
    after (startFrom thread object) r h =
      { r with lastErrors := (r.lastErrors.clear thread).record thread e.text } := by
  unfold optionsFrom at he
  unfold after startFrom
  simp only [StateT.run_bind, ask, StateT.run_modify, StateT.run_lift, pure_bind, bind_assoc]
  rcases hread : (Startup.readOptions object).run.run h with ⟨result, h'⟩
  rw [hread] at he
  obtain rfl : result = .error e := he
  rfl

/-- Options that can be read are what the engine starts with, and its failure is recorded. -/
theorem after_startFrom_read {o : Options} (ho : optionsFrom object h = .ok o) :
    after (startFrom thread object) r h =
      match (r.site.start o).1 with
      | .error e =>
        { r with
          site := (r.site.start o).2
          lastErrors := (r.lastErrors.clear thread).record thread (CallError.failed e).text }
      | .ok () =>
        { r with site := (r.site.start o).2, lastErrors := r.lastErrors.clear thread } := by
  unfold optionsFrom at ho
  unfold after startFrom
  simp only [StateT.run_bind, ask, StateT.run_modify, StateT.run_lift, pure_bind, bind_assoc]
  rcases hread : (Startup.readOptions object).run.run h with ⟨result, h'⟩
  rw [hread] at ho
  obtain rfl : result = .ok o := ho
  change (StateT.run (StateT.run (match (r.site.start o).1 with
      | .error e => startFrom.fail thread (.failed e)
      | .ok () => pure ())
    { r with site := (r.site.start o).2, lastErrors := r.lastErrors.clear thread }) h').1.2 = _
  split <;> rfl

/-- A failed start leaves the engine as it was unless a session ran and its successor's options
could be read. Then that session is gone, its transport with it, and the scope is fresh. -/
theorem engine_startFrom_failed
    (failed : (after (startFrom thread object) r h).lastErrors.text thread ≠ none) :
    ((after (startFrom thread object) r h).site.engine = r.site.engine ↔
      r.site.engine.session = none ∨ ∃ e, optionsFrom object h = .error e) ∧
    ∀ o, optionsFrom object h = .ok o → ∀ options t queue state,
      r.site.engine.session = some ⟨options, some (.running t queue)⟩ → t.state = some state →
      (after (startFrom thread object) r h).site.engine = {} ∧
        .released state t.onRelease ∈
          (after (startFrom thread object) r h).site.world.notes.drop
            r.site.world.notes.length := by
  cases hread : optionsFrom object h with
  | error e =>
    rw [after_startFrom_unread hread]
    simp
  | ok o =>
    have hafter : after (startFrom thread object) r h = _ := after_startFrom_read hread
    rcases hstart : (r.site.start o).1 with e | ⟨⟩
    · rw [hstart] at hafter
      have hengine := Site.engine_start_error hstart
      rw [hafter]
      refine ⟨?_, ?_⟩
      · cases hsession : r.site.engine.session with
        | none =>
          rw [Site.close_of_not_running hsession] at hengine
          simpa using hengine
        | some session =>
          have hne : (r.site.start o).2.engine ≠ r.site.engine := by
            intro heq
            rw [hengine, Site.engine_close hsession] at heq
            simp [← heq] at hsession
          simpa using hne
      · intro _ _ options t queue state running hstate
        exact ⟨hengine.trans (Site.engine_close running),
          Site.released_mem_start_error hstart running hstate⟩
    · rw [hstart] at hafter
      simp [hafter, LastErrors.clear] at failed

/-- A reporter with a session, in a working directory that holds a file. -/
def busy : Reporter where
  site := {
    engine := {
      scope := { tags := KeyTable.empty.insert "k" "v" }
      session := some ⟨{ databasePath := "data/.sentry-native" },
        some (.running (.toOutbox (.ofText "data/outbox")) [])⟩ }
    world := {
      files := {
        workDir := ["w"]
        entries := [(["w"], .directory), (["w", "blocker"], .file [0])] }
      supply := .numbered "" } }

/-- The directory of the database would lie below a file. -/
def blocked : Heap :=
  { objects := [.options { outboxPath := some "blocker/outbox", dsn := some "https://k@host/1" }] }

def incomplete : Heap := { objects := [.options { outboxPath := some "data/outbox" }] }

theorem engine_startFrom_failed_incomplete :
    (after (startFrom 0 (⟨1⟩ : Reference)) busy incomplete).lastErrors.text 0 ≠ none ∧
      (after (startFrom 0 (⟨1⟩ : Reference)) busy incomplete).site.engine = busy.site.engine := by
  have failed :
      (after (startFrom 0 (⟨1⟩ : Reference)) busy incomplete).lastErrors.text 0 ≠ none := by
    decide +kernel
  have unread : optionsFrom (⟨1⟩ : Reference) incomplete = .error (.missing Startup.dsnField) := by
    rfl
  exact ⟨failed, (engine_startFrom_failed failed).1.mpr (Or.inr ⟨_, unread⟩)⟩

/-- A failed start that does not keep the engine. -/
theorem engine_startFrom_blocked :
    (after (startFrom 0 (⟨1⟩ : Reference)) busy blocked).lastErrors.text 0 ≠ none ∧
      (after (startFrom 0 (⟨1⟩ : Reference)) busy blocked).site.engine ≠ busy.site.engine := by
  refine ⟨by decide +kernel, ?_⟩
  intro heq
  have hrunning := congrArg (fun e => e.session.isSome) heq
  revert hrunning
  decide +kernel

end CrashCourier.Reporter
