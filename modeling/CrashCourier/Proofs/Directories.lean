import CrashCourier.Proofs.Files

namespace CrashCourier.FileTree

variable {t t' u : FileTree} {r : Route} {s : String} {dir p : List String}

/-- Where nothing was a directory may be, and that is all the difference. -/
structure Gains (t t' : FileTree) : Prop where
  workDir : t'.workDir = t.workDir
  refusal : t'.refusal = t.refusal
  entries : ∀ p, t'.find? p = t.find? p ∨ t.find? p = none ∧ t'.find? p = some .directory
  files : ∀ dir, t'.filesOf dir = t.filesOf dir

theorem Gains.refl (t : FileTree) : Gains t t := ⟨rfl, rfl, fun _ => Or.inl rfl, fun _ => rfl⟩

theorem Gains.trans (h : Gains t t') (h' : Gains t' u) : Gains t u := by
  refine ⟨h'.workDir.trans h.workDir, h'.refusal.trans h.refusal, fun p => ?_,
    fun dir => (h'.files dir).trans (h.files dir)⟩
  rcases h.entries p with hsame | ⟨hnone, hnew⟩
  · rw [← hsame]
    exact h'.entries p
  · rcases h'.entries p with hsame' | ⟨hnone', -⟩
    · exact Or.inr ⟨hnone, hsame'.trans hnew⟩
    · rw [hnew] at hnone'
      simp at hnone'

theorem Gains.keeps (h : Gains t t') : Keeps t t' := by
  refine ⟨h.workDir, h.refusal, fun p hp => ?_⟩
  rcases h.entries p with hsame | ⟨-, hnew⟩
  · exact hsame.trans hp
  · exact hnew

theorem Gains.find?_file (h : Gains t t') {content : Bytes} :
    t'.find? p = some (.file content) ↔ t.find? p = some (.file content) := by
  rcases h.entries p with hsame | ⟨hnone, hnew⟩
  · rw [hsame]
  · rw [hnone, hnew]
    simp

theorem gains_put (h : t.find? p = none) : Gains t (t.put p .directory) := by
  have hp : p ≠ [] := by
    rintro rfl
    simp [find?] at h
  refine ⟨rfl, rfl, fun q => ?_, fun dir => ?_⟩
  · rw [find?_put hp]
    split
    · next heq => exact Or.inr ⟨heq ▸ h, rfl⟩
    · exact Or.inl rfl
  · have hlookup : t.entries.lookup p = none := by simpa only [find?, if_neg hp] using h
    simp only [filesOf, children, below, put, putEntry_of_lookup hlookup, List.filterMap_append]
    refine List.append_right_eq_self.mpr ?_
    by_cases hbelow : (p.length > dir.length && p.take dir.length == dir) = true
    · simp only [List.filterMap_cons, List.filterMap_nil, if_pos hbelow]
      rcases p.drop dir.length with - | ⟨name, - | ⟨next, rest⟩⟩
      · rfl
      · rfl
      · rfl
    · simp only [List.filterMap_cons, List.filterMap_nil, if_neg hbelow]

theorem gains_makeDirectoryAt (h : t.makeDirectoryAt r = .ok t') : Gains t t' := by
  unfold makeDirectoryAt at h
  cases hplace : t.locate r with
  | error e => simp [hplace, bind, Except.bind] at h
  | ok place =>
    cases place with
    | directory path => simp [hplace, bind, Except.bind] at h
    | child parent name =>
      simp only [hplace, bind, Except.bind] at h
      split at h
      · simp at h
      · simp at h
      · next hfree _ =>
        obtain rfl := Except.ok.inj h
        exact gains_put hfree

theorem gains_makeDirectoriesAt (t : FileTree) (rs : List Route) :
    Gains t (t.makeDirectoriesAt rs).2 := by
  induction rs generalizing t with
  | nil => exact .refl t
  | cons r above ih =>
    unfold makeDirectoriesAt
    split
    · next made hmade => exact gains_makeDirectoryAt hmade
    · have habove := ih t
      split
      · next heq => exact heq ▸ habove
      · next t' heq =>
        rw [heq] at habove
        split
        · next made hmade => exact habove.trans (gains_makeDirectoryAt hmade)
        · exact habove
    · exact .refl t

/-- Whether or not all of it could be made, what was made are directories. -/
theorem gains_makeDirectories (t : FileTree) (s : String) : Gains t (t.makeDirectories s).2 := by
  unfold makeDirectories
  split
  · exact .refl t
  · split
    · exact .refl t
    · exact gains_makeDirectoriesAt t _

theorem keeps_makeDirectories (t : FileTree) (s : String) : Keeps t (t.makeDirectories s).2 :=
  (t.gains_makeDirectories s).keeps

/-- A route that leads to a directory. -/
structure Leads (t : FileTree) (r : Route) (place : Place) : Prop where
  locate : t.locate r = .ok place
  directory : t.find? place.path = some .directory

variable {place : Place} {above : List Route}

theorem directoryOf_of_leads (h : t.Leads r place) (hroute : route s = .ok r) :
    t.directoryOf s = some place.path := by
  simp only [directoryOf, hroute, h.locate, h.directory, ↓reduceIte]

theorem leads_makeDirectoryAt (h : t.makeDirectoryAt r = .ok t') : ∃ place, t'.Leads r place := by
  have hkeeps := (gains_makeDirectoryAt h).keeps
  unfold makeDirectoryAt at h
  cases hplace : t.locate r with
  | error e => simp [hplace, bind, Except.bind] at h
  | ok place =>
    cases place with
    | directory path => simp [hplace, bind, Except.bind] at h
    | child parent name =>
      refine ⟨.child parent name, hkeeps.locate hplace, ?_⟩
      simp only [hplace, bind, Except.bind] at h
      split at h
      · simp at h
      · simp at h
      · obtain rfl := Except.ok.inj h
        rw [Place.path, find?_put (by simp), if_pos rfl]

theorem leads_of_isDirectoryAt (h : t.isDirectoryAt r = true) : ∃ place, t.Leads r place := by
  unfold isDirectoryAt entryAt at h
  cases hplace : t.locate r with
  | error e => simp [hplace, bind, Except.bind] at h
  | ok place =>
    refine ⟨place, hplace, ?_⟩
    cases hfind : t.find? place.path with
    | none => simp [hplace, hfind, bind, Except.bind] at h
    | some e =>
      cases e with
      | directory => rfl
      | file content =>
        cases hslash : r.slash <;> simp [hplace, hfind, hslash, bind, Except.bind] at h

theorem of_ite_ok {b : Bool} {e : FileError}
    (h : (if b then (.ok () : Except FileError Unit) else .error e) = .ok ()) : b = true := by
  cases b with
  | true => rfl
  | false => simp at h

/-- A directory is there in the end if it was made, or if it was there when making it failed. -/
theorem leads_makeDirectoriesAt (h : (t.makeDirectoriesAt (r :: above)).1 = .ok ()) :
    ∃ place, (t.makeDirectoriesAt (r :: above)).2.Leads r place := by
  generalize hout : t.makeDirectoriesAt (r :: above) = out at h ⊢
  unfold makeDirectoriesAt at hout
  split at hout
  · next made hmade =>
    rw [← hout]
    exact leads_makeDirectoryAt hmade
  · split at hout
    · next e t' heq =>
      rw [← hout] at h
      simp at h
    · next t' heq =>
      split at hout
      · next made hmade =>
        rw [← hout]
        exact leads_makeDirectoryAt hmade
      · rw [← hout] at h ⊢
        exact leads_of_isDirectoryAt (of_ite_ok h)
  · rw [← hout] at h ⊢
    exact leads_of_isDirectoryAt (of_ite_ok h)

/-- A directory that could be made is there. -/
theorem directoryOf_makeDirectories (hs : s ≠ "") (h : (t.makeDirectories s).1 = .ok ()) :
    ∃ dir, (t.makeDirectories s).2.directoryOf s = some dir := by
  unfold makeDirectories at h ⊢
  rw [if_neg hs] at h ⊢
  cases hroute : route s with
  | error e => simp [hroute] at h
  | ok r =>
    simp only [hroute] at h ⊢
    obtain ⟨place, hleads⟩ := leads_makeDirectoriesAt h
    exact ⟨place.path, directoryOf_of_leads hleads hroute⟩

end CrashCourier.FileTree
