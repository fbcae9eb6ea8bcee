import CrashCourier.Startup

namespace CrashCourier.Startup

open Managed

variable {σ ρ : Type} [Host σ ρ]

/-- A step that succeeds, before another that succeeds. -/
theorem bind_ok {ε α β : Type} {x : ExceptT ε (StateM σ) α} {f : α → ExceptT ε (StateM σ) β}
    {h h' : σ} {b : β} (hb : (x >>= f).run.run h = (.ok b, h')) :
    ∃ a h₁, x.run.run h = (.ok a, h₁) ∧ (f a).run.run h₁ = (.ok b, h') := by
  simp only [ExceptT.run_bind, StateT.run_bind] at hb
  rcases hx : x.run.run h with ⟨e | a, h₁⟩
  · rw [hx] at hb
    change ((Except.error e, h₁) : Except ε β × σ) = (.ok b, h') at hb
    simp at hb
  · rw [hx] at hb
    exact ⟨a, h₁, rfl, hb⟩

theorem wellFormed_ok {b : Buffer} {s : String} {h h' : σ}
    (hs : (readOptions.wellFormed b : ExceptT CallError (StateM σ) String).run.run h =
      (.ok s, h')) : b.text? = some s := by
  unfold readOptions.wellFormed at hs
  split at hs
  · next text htext =>
    change ((Except.ok text, h) : Except CallError String × σ) = (.ok s, h') at hs
    obtain ⟨heq, -⟩ := Prod.mk.inj hs
    exact htext.trans (congrArg some (Except.ok.inj heq))
  · change ((Except.error _, h) : Except CallError String × σ) = (.ok s, h') at hs
    simp at hs

/-- Options that could be read name an outbox and a DSN. -/
theorem readOptions_ok {object : ρ} {h h' : σ} {o : Options}
    (ho : (readOptions object).run.run h = (.ok o, h')) :
    ∃ buffer outbox dsn, buffer.text? = some outbox ∧ o.databasePath = databasePath outbox ∧
      o.transport = some (.toOutbox buffer) ∧ o.dsn = some dsn := by
  unfold readOptions at ho
  obtain ⟨debug, h₁, -, ho⟩ := bind_ok ho
  obtain ⟨capacity, h₂, -, ho⟩ := bind_ok ho
  obtain ⟨buffer, h₃, -, ho⟩ := bind_ok ho
  obtain ⟨outbox, h₄, houtbox, ho⟩ := bind_ok ho
  obtain ⟨given, h₅, -, ho⟩ := bind_ok ho
  obtain ⟨dsn, h₆, -, ho⟩ := bind_ok ho
  obtain ⟨release, h₇, -, ho⟩ := bind_ok ho
  obtain ⟨environment, h₈, -, ho⟩ := bind_ok ho
  obtain ⟨dist, h₉, -, ho⟩ := bind_ok ho
  obtain ⟨heq, -⟩ := Prod.mk.inj ho
  obtain rfl := Except.ok.inj heq
  exact ⟨buffer, outbox, dsn, wellFormed_ok houtbox, rfl, rfl, rfl⟩

/-- The database is beside the outbox: it replaces what follows the last slash. -/
theorem databasePath_slash (dir : String) {name : String} (h : '/' ∉ name.toList) :
    databasePath (dir ++ "/" ++ name) = dir ++ "/" ++ databaseName := by
  have hslash : "/".toList = ['/'] := by decide
  have hlist : (dir ++ "/" ++ name).toList = dir.toList ++ '/' :: name.toList := by
    simp [String.toList_append, hslash]
  have hlast : ∀ c ∈ name.toList.reverse, decide (c ≠ '/') = true := by
    intro c hc
    simpa using fun heq : c = '/' => h (heq ▸ List.mem_reverse.mp hc)
  have hdir : (dir.toList ++ '/' :: name.toList).reverse.dropWhile (· ≠ '/') =
      '/' :: dir.toList.reverse := by
    rw [List.reverse_append, List.reverse_cons, List.append_assoc,
      List.dropWhile_append_of_pos hlast]
    exact List.dropWhile_cons_of_neg (by simp)
  simp only [databasePath, hlist, hdir]
  rw [if_pos (by simp), List.reverse_cons, List.reverse_reverse, String.ofList_append,
    String.ofList_toList, ← hslash, String.ofList_toList]

end CrashCourier.Startup
