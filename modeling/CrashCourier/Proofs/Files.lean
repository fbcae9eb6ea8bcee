import CrashCourier.FileTree
import Mathlib.Data.List.Nodup

namespace CrashCourier

namespace Route

theorem split_slash (dir : String) {name : String} (h : '/' ∉ name.toList) :
    split (dir ++ "/" ++ name) = split dir ++ [name] := by
  have hslash : "/".toList = ['/'] := by decide
  simp only [split, String.toList_append, hslash, List.append_assoc, List.singleton_append]
  rw [List.splitOn_append_cons_self, List.splitOn_eq_singleton h, List.map_append]
  simp

theorem split_append_slash (dir : String) : split (dir ++ "/") = split dir ++ [""] := by
  have hempty : split (dir ++ "/" ++ "") = split dir ++ [""] := split_slash dir (by simp)
  rwa [String.append_empty] at hempty

/-- A slash that ends the path of a directory is the one before a name in it. -/
theorem ofText_concat (dir : String) {name : String} (hname : name ≠ "")
    (h : '/' ∉ name.toList) : ofText (dir ++ "/" ++ name) =
      ⟨(ofText (dir ++ "/")).absolute, (ofText (dir ++ "/")).parts ++ [name], false⟩ := by
  have hn : name.toList ≠ [] := by simpa using hname
  have hlast : (dir ++ "/" ++ name).toList.getLast? ≠ some '/' := by
    rw [String.toList_append, List.getLast?_append, List.getLast?_eq_some_getLast hn]
    exact fun hm => h (Option.some.inj hm ▸ List.getLast_mem hn)
  have hhead : (dir ++ "/" ++ name).toList.head? = (dir ++ "/").toList.head? := by
    have hd : (dir ++ "/").toList ≠ [] := by simp
    rw [String.toList_append, List.head?_append, List.head?_eq_some_head hd]
    rfl
  simp only [ofText, split_slash dir h, split_append_slash, List.filter_append, hhead, hlast]
  simp [hname]

theorem ofText_slash {dir name : String} (hdir : dir ≠ "") (hname : name ≠ "")
    (h : '/' ∉ name.toList) : ofText (dir ++ "/" ++ name) =
      ⟨(ofText dir).absolute, (ofText dir).parts ++ [name], false⟩ := by
  have hd : dir.toList ≠ [] := by simpa using hdir
  have hhead : (dir ++ "/").toList.head? = dir.toList.head? := by
    rw [String.toList_append, List.head?_append, List.head?_eq_some_head hd]
    rfl
  have hparts : (split (dir ++ "/")).filter (fun p => p ≠ "") =
      (split dir).filter fun p => p ≠ "" := by
    simp [split_append_slash]
  rw [ofText_concat dir hname h]
  simp only [ofText, hhead, hparts]

end Route

namespace FileTree

variable {t t' : FileTree} {s : String} {dir : List String}

def directoryOf (t : FileTree) (s : String) : Option (List String) :=
  match route s with
  | .error _ => none
  | .ok r =>
    match t.locate r with
    | .error _ => none
    | .ok place => if t.find? place.path = some .directory then some place.path else none

theorem route_ok {r : Route} (h : route s = .ok r) :
    '\x00' ∉ s.toList ∧ s ≠ "" ∧ Text.length s ≤ pathLimit ∧ r = Route.ofText s := by
  unfold route at h
  split at h
  · simp at h
  · next hnul =>
    split at h
    · simp at h
    · next hempty =>
      split at h
      · simp at h
      · next hlong => exact ⟨hnul, hempty, by omega, (Except.ok.inj h).symm⟩

theorem route_of_short (hnul : '\x00' ∉ s.toList) (hempty : s ≠ "")
    (hshort : Text.length s ≤ pathLimit) : route s = .ok (Route.ofText s) := by
  unfold route
  rw [if_neg hnul, if_neg hempty, if_neg (by omega)]

theorem fit_ok {place place' : Place} (h : place.fit = .ok place') : place' = place := by
  unfold Place.fit at h
  split at h
  · exact (Except.ok.inj h).symm
  · split at h
    · simp at h
    · exact (Except.ok.inj h).symm

/-- What a directory on a path means for the walk. -/
theorem directoryOf_eq_some (h : t.directoryOf s = some dir) :
    ∃ place, route s = .ok (Route.ofText s) ∧ t.reach (Route.ofText s) = .ok place ∧
      place.fit = .ok place ∧ place.path = dir ∧ t.find? dir = some .directory := by
  unfold directoryOf at h
  split at h
  · simp at h
  · next r hroute =>
    obtain ⟨-, -, -, rfl⟩ := route_ok hroute
    split at h
    · simp at h
    · next place hplace =>
      split at h
      · next hfind =>
        obtain rfl := Option.some.inj h
        cases hreach : t.reach (Route.ofText s) with
        | error e => simp [locate, hreach, bind, Except.bind] at hplace
        | ok reached =>
          have hfit : reached.fit = .ok place := by
            simpa [locate, hreach, bind, Except.bind] using hplace
          obtain rfl := fit_ok hfit
          exact ⟨place, hroute, rfl, hfit, rfl, hfind⟩
      · simp at h

theorem directoryOf_of_isDirectory (h : t.isDirectory s = true) :
    ∃ dir, t.directoryOf s = some dir := by
  unfold isDirectory entry at h
  cases hroute : route s with
  | error e => simp [hroute, bind, Except.bind] at h
  | ok r =>
    cases hplace : t.locate r with
    | error e => simp [hroute, hplace, entryAt, bind, Except.bind] at h
    | ok place =>
      refine ⟨place.path, ?_⟩
      cases hfind : t.find? place.path with
      | none => simp [hroute, hplace, hfind, entryAt, bind, Except.bind] at h
      | some e =>
        cases e with
        | directory => simp [directoryOf, hroute, hplace, hfind]
        | file content =>
          cases hslash : r.slash <;>
            simp [hroute, hplace, hfind, hslash, entryAt, bind, Except.bind] at h

/-- The ways in which a walk takes its first part. -/
theorem walk_cons_ok {cur rest : List String} {part : String} {place : Place}
    (h : t.walk cur (part :: rest) = .ok place) :
    (part = "." ∧ t.walk cur rest = .ok place) ∨
    (part = ".." ∧ t.walk cur.dropLast rest = .ok place) ∨
    (part ≠ "." ∧ part ≠ ".." ∧ rest = [] ∧ place = .child cur part) ∨
    (part ≠ "." ∧ part ≠ ".." ∧ rest ≠ [] ∧ Text.length part ≤ nameLimit ∧
      t.find? (cur ++ [part]) = some .directory ∧ t.walk (cur ++ [part]) rest = .ok place) := by
  simp only [walk] at h
  split at h
  · next hdot => exact Or.inl ⟨hdot, h⟩
  · next hdot =>
    split at h
    · next hdots => exact Or.inr (Or.inl ⟨hdots, h⟩)
    · next hdots =>
      split at h
      · next hrest => exact Or.inr (Or.inr (Or.inl ⟨hdot, hdots, hrest, (Except.ok.inj h).symm⟩))
      · next hrest =>
        split at h
        · simp at h
        · next hlong =>
          split at h
          · simp at h
          · simp at h
          · next hfind =>
            exact Or.inr (Or.inr (Or.inr ⟨hdot, hdots, hrest, by omega, hfind, h⟩))

/-- A part that is no name of the directory itself or of the one above leads into a directory. -/
theorem walk_cons_directory {cur rest : List String} {part : String} (hdot : part ≠ ".")
    (hdots : part ≠ "..") (hrest : rest ≠ []) (hshort : Text.length part ≤ nameLimit)
    (hfind : t.find? (cur ++ [part]) = some .directory) :
    t.walk cur (part :: rest) = t.walk (cur ++ [part]) rest := by
  have hlong : ¬ nameLimit < Text.length part := by omega
  rw [walk, if_neg hdot, if_neg hdots, if_neg hrest, if_neg hlong, hfind]

/-- Below a directory, one more part leads to a name in it. -/
theorem walk_concat {cur ps : List String} {place : Place} {name : String}
    (h : t.walk cur ps = .ok place) (hfit : place.fit = .ok place)
    (hfind : t.find? place.path = some .directory) (hdot : name ≠ ".") (hdots : name ≠ "..") :
    t.walk cur (ps ++ [name]) = .ok (.child place.path name) := by
  have hname : ∀ cur, t.walk cur [name] = .ok (.child cur name) := fun cur => by
    rw [walk, if_neg hdot, if_neg hdots, if_pos rfl]
  induction ps generalizing cur with
  | nil =>
    obtain rfl := Except.ok.inj h
    exact hname cur
  | cons part rest ih =>
    rw [List.cons_append]
    rcases walk_cons_ok h with ⟨rfl, hwalk⟩ | ⟨rfl, hwalk⟩ | ⟨hp, hpp, rfl, rfl⟩ |
      ⟨hp, hpp, -, hshort, hdir, hwalk⟩
    · simpa [walk] using ih hwalk
    · simpa [walk] using ih hwalk
    · have hshort : Text.length part ≤ nameLimit := by
        have hlong : ¬ nameLimit < Text.length part := fun hlong => by
          simp [Place.fit, hlong] at hfit
        omega
      rw [List.nil_append, walk_cons_directory hp hpp (by simp) hshort hfind]
      exact hname _
    · rw [walk_cons_directory hp hpp (by simp) hshort hdir]
      exact ih hwalk

theorem walk_mono (hkeep : ∀ p, t.find? p = some .directory → t'.find? p = some .directory)
    {cur ps : List String} {place : Place} (h : t.walk cur ps = .ok place) :
    t'.walk cur ps = .ok place := by
  induction ps generalizing cur with
  | nil => exact h
  | cons part rest ih =>
    rcases walk_cons_ok h with ⟨rfl, hwalk⟩ | ⟨rfl, hwalk⟩ | ⟨hp, hpp, rfl, rfl⟩ |
      ⟨hp, hpp, hrest, hshort, hdir, hwalk⟩
    · simpa [walk] using ih hwalk
    · simpa [walk] using ih hwalk
    · simp [walk, hp, hpp]
    · rw [walk_cons_directory hp hpp hrest hshort (hkeep _ hdir)]
      exact ih hwalk

/-- The tree with some files at the end, each in a directory under a name. -/
def deposit (t : FileTree) (dir : List String) (files : List (String × Bytes)) : FileTree :=
  { t with entries := t.entries ++ files.map fun f => (dir ++ [f.1], .file f.2) }

theorem deposit_nil (t : FileTree) (dir : List String) : t.deposit dir [] = t := by
  simp [deposit]

theorem deposit_append (t : FileTree) (dir : List String) (files more : List (String × Bytes)) :
    t.deposit dir (files ++ more) = (t.deposit dir files).deposit dir more := by
  simp [deposit]

theorem putEntry_of_lookup {path : List String} {e : Entry} {es : List (List String × Entry)}
    (h : es.lookup path = none) : putEntry path e es = es ++ [(path, e)] := by
  induction es with
  | nil => rfl
  | cons q rest ih =>
    obtain ⟨p, old⟩ := q
    rw [List.lookup_cons] at h
    split at h
    · simp at h
    · next hne =>
      have hp : ¬ p = path := fun heq => by simp [heq] at hne
      rw [putEntry, if_neg hp, ih h, List.cons_append]

theorem put_eq_deposit {name : String} {content : Bytes} (h : t.find? (dir ++ [name]) = none) :
    t.put (dir ++ [name]) (.file content) = t.deposit dir [(name, content)] := by
  have hlookup : t.entries.lookup (dir ++ [name]) = none := by simpa [find?] using h
  simp [put, deposit, putEntry_of_lookup hlookup]

/-- A name that a file may have. -/
structure IsFileName (name : String) : Prop where
  slash : '/' ∉ name.toList
  nul : '\x00' ∉ name.toList
  empty : name ≠ ""
  dot : name ≠ "."
  dots : name ≠ ".."
  short : Text.length name ≤ nameLimit

instance (name : String) : Decidable (IsFileName name) :=
  decidable_of_iff ('/' ∉ name.toList ∧ '\x00' ∉ name.toList ∧ name ≠ "" ∧ name ≠ "." ∧
      name ≠ ".." ∧ Text.length name ≤ nameLimit)
    ⟨fun ⟨slash, nul, empty, dot, dots, short⟩ => ⟨slash, nul, empty, dot, dots, short⟩,
      fun h => ⟨h.slash, h.nul, h.empty, h.dot, h.dots, h.short⟩⟩

/-- A name in a directory can be written to unless a directory has it. -/
theorem filePath_slash {name : String} (hdir : t.directoryOf s = some dir)
    (hname : IsFileName name) (hshort : Text.length s + 1 + Text.length name ≤ pathLimit)
    (hfile : t.find? (dir ++ [name]) ≠ some .directory) :
    t.filePath (s ++ "/" ++ name) = .ok (dir ++ [name]) := by
  obtain ⟨place, hroute, hreach, hfit, rfl, hfind⟩ := directoryOf_eq_some hdir
  obtain ⟨hnul, hempty, -, -⟩ := route_ok hroute
  have hslash : Text.length "/" = 1 := by decide
  have hlength : Text.length (s ++ "/" ++ name) ≤ pathLimit := by
    simp only [Text.length, String.utf8ByteSize_append] at hshort hslash ⊢
    omega
  have hroute' : route (s ++ "/" ++ name) = .ok (Route.ofText (s ++ "/" ++ name)) := by
    refine route_of_short ?_ ?_ hlength
    · have hs : '\x00' ∉ "/".toList := by decide
      simp only [String.toList_append, List.mem_append, not_or]
      exact ⟨⟨hnul, hs⟩, hname.nul⟩
    · intro h
      have hnil := congrArg String.toList h
      simp at hnil
  have hwalk : t.reach (Route.ofText (s ++ "/" ++ name)) = .ok (.child place.path name) := by
    rw [Route.ofText_slash hempty hname.empty hname.slash]
    exact walk_concat hreach hfit hfind hname.dot hname.dots
  have hfit' : (Place.child place.path name).fit = .ok (.child place.path name) := by
    have hlong := hname.short
    simp only [Place.fit]
    rw [if_neg (by omega)]
  have hslash' : (Route.ofText (s ++ "/" ++ name)).slash = false := by
    rw [Route.ofText_slash hempty hname.empty hname.slash]
  unfold filePath
  simp only [hroute', hwalk, hfit', hslash', bind, Except.bind, hfile, Bool.false_eq_true,
    ↓reduceIte]

/-- What there is of a file after it was written for the first time: all of it, unless the system
refuses it. -/
def writtenOf (t : FileTree) (path : List String) (content : Bytes) : Option Bytes :=
  match t.refuses? path (.file content) with
  | none => some content
  | some refusal => refusal.written.map fun n => content.take n

/-- A file that is new in a directory comes last in the tree. -/
theorem write_slash {name : String} (content : Bytes) (hdir : t.directoryOf s = some dir)
    (hname : IsFileName name) (hshort : Text.length s + 1 + Text.length name ≤ pathLimit)
    (hfree : t.find? (dir ++ [name]) = none) :
    (t.write (s ++ "/" ++ name) content).2 =
      t.deposit dir ((t.writtenOf (dir ++ [name]) content).toList.map fun b => (name, b)) := by
  have hpath := filePath_slash hdir hname hshort (by simp [hfree])
  rw [write, hpath, writtenOf]
  dsimp only
  split
  · next heq => simp [heq, put_eq_deposit hfree]
  · next heq => simp [heq, deposit_nil]
  · next heq => simp [heq, put_eq_deposit hfree]

theorem find?_deposit {files : List (String × Bytes)} {p : List String} {e : Entry}
    (h : t.find? p = some e) : (t.deposit dir files).find? p = some e := by
  by_cases hp : p = []
  · subst hp
    simpa [find?] using h
  · simp only [find?, hp, ↓reduceIte, deposit] at h ⊢
    rw [List.lookup_append, h]
    rfl

/-- A path that none of the files is on leads where it led. -/
theorem find?_deposit_of_ne {files : List (String × Bytes)} {p : List String}
    (hne : ∀ f ∈ files, dir ++ [f.1] ≠ p) : (t.deposit dir files).find? p = t.find? p := by
  by_cases hp : p = []
  · simp [find?, hp]
  · have hnew : (files.map fun f => (dir ++ [f.1], Entry.file f.2)).lookup p = none := by
      rw [List.lookup_eq_none_iff]
      intro q hq
      obtain ⟨f, hf, rfl⟩ := List.mem_map.mp hq
      simpa using Ne.symm (hne f hf)
    simp only [find?, hp, ↓reduceIte, deposit]
    rw [List.lookup_append, hnew, Option.or_none]

/-- A name that no entry has is free in every directory. -/
theorem find?_concat_eq_none {name : String} (h : ∀ q ∈ t.entries, q.1.getLast? ≠ some name)
    (dir : List String) : t.find? (dir ++ [name]) = none := by
  have hpath : dir ++ [name] ≠ [] := by simp
  rw [find?, if_neg hpath, List.lookup_eq_none_iff]
  intro q hq
  have hne : dir ++ [name] ≠ q.1 := fun heq => h q hq (by rw [← heq, List.getLast?_concat])
  simpa using hne

structure Keeps (t t' : FileTree) : Prop where
  workDir : t'.workDir = t.workDir
  refusal : t'.refusal = t.refusal
  directories : ∀ p, t.find? p = some .directory → t'.find? p = some .directory

theorem Keeps.refl (t : FileTree) : Keeps t t := ⟨rfl, rfl, fun _ h => h⟩

theorem Keeps.trans {u : FileTree} (h : Keeps t t') (h' : Keeps t' u) : Keeps t u :=
  ⟨h'.workDir.trans h.workDir, h'.refusal.trans h.refusal,
    fun p hp => h'.directories p (h.directories p hp)⟩

theorem Keeps.locate {r : Route} {place : Place} (h : Keeps t t')
    (hplace : t.locate r = .ok place) : t'.locate r = .ok place := by
  cases hreach : t.reach r with
  | error e => simp [FileTree.locate, hreach, bind, Except.bind] at hplace
  | ok reached =>
    have hreach' : t'.reach r = .ok reached := by
      unfold reach at hreach ⊢
      rw [h.workDir]
      exact walk_mono h.directories hreach
    simpa [FileTree.locate, hreach, hreach'] using hplace

/-- A path leads to the same directory as long as directories stay. -/
theorem Keeps.directoryOf (hkeeps : Keeps t t') (h : t.directoryOf s = some dir) :
    t'.directoryOf s = some dir := by
  obtain ⟨place, hroute, hreach, hfit, rfl, hfind⟩ := directoryOf_eq_some h
  have hlocate : t.locate (Route.ofText s) = .ok place := by
    simp [FileTree.locate, hreach, hfit, bind, Except.bind]
  simp [FileTree.directoryOf, hroute, hkeeps.locate hlocate, hkeeps.directories _ hfind]

theorem keeps_deposit (t : FileTree) (dir : List String) (files : List (String × Bytes)) :
    Keeps t (t.deposit dir files) := ⟨rfl, rfl, fun _ => find?_deposit⟩

theorem keeps_put {path : List String} {e : Entry} (hpath : path ≠ [])
    (h : t.find? path = some .directory → e = .directory) : Keeps t (t.put path e) := by
  refine ⟨rfl, rfl, fun p hp => ?_⟩
  rw [find?_put hpath]
  split
  · next heq => rw [h (heq ▸ hp)]
  · exact hp

theorem filePath_ok {path : List String} (h : t.filePath s = .ok path) :
    path ≠ [] ∧ t.find? path ≠ some .directory := by
  unfold filePath at h
  cases hroute : route s with
  | error e => simp [hroute, bind, Except.bind] at h
  | ok r =>
    cases hreach : t.reach r with
    | error e => simp [hroute, hreach, bind, Except.bind] at h
    | ok reached =>
      simp only [hroute, hreach, bind, Except.bind] at h
      split at h
      · simp at h
      · split at h
        · simp at h
        · next place hfit =>
          cases place with
          | directory path => simp at h
          | child parent name =>
            dsimp only at h
            split at h
            · simp at h
            · next hfile =>
              obtain rfl := Except.ok.inj h
              exact ⟨by simp, hfile⟩

/-- Whether or not the system refuses it, a file that is written leaves the directories alone. -/
theorem keeps_write (t : FileTree) (s : String) (content : Bytes) :
    Keeps t (t.write s content).2 := by
  unfold write
  split
  · exact .refl t
  · next path hpath =>
    obtain ⟨hne, hfile⟩ := filePath_ok hpath
    have hput : ∀ b, Keeps t (t.put path (.file b)) := fun b =>
      keeps_put hne fun hdirectory => absurd hdirectory hfile
    split
    · exact hput content
    · exact .refl t
    · exact hput _

def filesOf (t : FileTree) (dir : List String) : List (String × Bytes) :=
  (t.children dir).filterMap fun (name, e) =>
    match e with
    | .file content => some (name, content)
    | .directory => none

theorem filesIn_of_directoryOf (h : t.directoryOf s = some dir) :
    t.filesIn s = .ok (t.filesOf dir) := by
  obtain ⟨place, hroute, hreach, hfit, rfl, hfind⟩ := directoryOf_eq_some h
  have hlocate : t.locate (Route.ofText s) = .ok place := by
    simp [locate, hreach, hfit, bind, Except.bind]
  simp only [filesIn, hroute, hlocate, entryAt, hfind, bind, Except.bind]
  rfl

theorem isDirectory_of_directoryOf (h : t.directoryOf s = some dir) : t.isDirectory s = true := by
  obtain ⟨place, hroute, hreach, hfit, rfl, hfind⟩ := directoryOf_eq_some h
  have hlocate : t.locate (Route.ofText s) = .ok place := by
    simp [locate, hreach, hfit, bind, Except.bind]
  simp only [isDirectory, entry, hroute, entryAt, hlocate, hfind, bind, Except.bind]

theorem mem_children_iff {name : String} {e : Entry} :
    (name, e) ∈ t.children dir ↔ (dir ++ [name], e) ∈ t.entries := by
  simp only [children, below, List.mem_filterMap, Prod.exists]
  constructor
  · rintro ⟨path, e', ⟨p, e'', hmem, hbelow⟩, hname⟩
    split at hbelow
    · next hp =>
      obtain ⟨rfl, rfl⟩ := Prod.mk.inj (Option.some.inj hbelow)
      simp only [Bool.and_eq_true, beq_iff_eq] at hp
      split at hname
      · next last hlast =>
        obtain ⟨rfl, rfl⟩ := Prod.mk.inj (Option.some.inj hname)
        have hpath := List.take_append_drop dir.length p
        rw [hp.2, hlast] at hpath
        exact hpath ▸ hmem
      · simp at hname
    · simp at hbelow
  · intro hmem
    refine ⟨[name], e, ⟨dir ++ [name], e, hmem, ?_⟩, rfl⟩
    simp

/-- Where no name occurs twice, what is listed under a name is what its path leads to. -/
theorem find?_of_mem_children (hdistinct : ((t.children dir).map Prod.fst).Nodup) {name : String}
    {e : Entry} (h : (name, e) ∈ t.children dir) : t.find? (dir ++ [name]) = some e := by
  have hpath : dir ++ [name] ≠ [] := by simp
  rw [find?, if_neg hpath]
  cases hlookup : t.entries.lookup (dir ++ [name]) with
  | none =>
    have hnone := List.lookup_eq_none_iff.mp hlookup _ (mem_children_iff.mp h)
    simp at hnone
  | some found =>
    obtain ⟨before, after, hentries, -⟩ := List.lookup_eq_some_iff.mp hlookup
    have hfound : (name, found) ∈ t.children dir := mem_children_iff.mpr (by simp [hentries])
    have hsame := List.inj_on_of_nodup_map hdistinct hfound h rfl
    rw [(Prod.mk.inj hsame).2]

theorem mem_filesOf_iff {name : String} {content : Bytes} :
    (name, content) ∈ t.filesOf dir ↔ (name, .file content) ∈ t.children dir := by
  simp only [filesOf, List.mem_filterMap, Prod.exists]
  constructor
  · rintro ⟨name', e, hmem, hfile⟩
    cases e with
    | directory => simp at hfile
    | file content' =>
      obtain ⟨rfl, rfl⟩ := Prod.mk.inj (Option.some.inj hfile)
      exact hmem
  · exact fun hmem => ⟨name, .file content, hmem, rfl⟩

theorem pairwise_filesOf (hdistinct : ((t.children dir).map Prod.fst).Nodup) :
    (t.filesOf dir).Pairwise fun f g => f.1 ≠ g.1 := by
  have hname : ∀ q : String × Entry, ∀ f, (match q.2 with
      | .file content => some (q.1, content)
      | .directory => none) = some f → f.1 = q.1 := by
    rintro ⟨name, e⟩ f hf
    cases e with
    | directory => simp at hf
    | file content => exact (congrArg Prod.fst (Option.some.inj hf)).symm
  refine List.pairwise_filterMap.mpr ((List.pairwise_map.mp hdistinct).imp ?_)
  intro q q' hne f hf g hg
  rw [hname q f hf, hname q' g hg]
  exact hne

theorem route_of_read {b : Bytes} (h : t.read s = .ok b) : route s = .ok (Route.ofText s) := by
  unfold read entry at h
  cases hroute : route s with
  | error e => simp [hroute, bind, Except.bind] at h
  | ok r =>
    obtain ⟨-, -, -, rfl⟩ := route_ok hroute
    rfl

/-- By the path of its directory and its name a file is read, unless that path is too long. -/
theorem read_of_find? {path name : String} {content : Bytes} (hdir : t.directoryOf s = some dir)
    (hname : IsFileName name) (hroute : route path = .ok (Route.ofText path))
    (hpath : Route.ofText path =
      ⟨(Route.ofText s).absolute, (Route.ofText s).parts ++ [name], false⟩)
    (hfind : t.find? (dir ++ [name]) = some (.file content)) : t.read path = .ok content := by
  obtain ⟨place, -, hreach, hfit, rfl, hdirectory⟩ := directoryOf_eq_some hdir
  have hwalk : t.reach (Route.ofText path) = .ok (.child place.path name) := by
    rw [hpath]
    exact walk_concat hreach hfit hdirectory hname.dot hname.dots
  have hfit' : (Place.child place.path name).fit = .ok (.child place.path name) := by
    have hlong := hname.short
    simp only [Place.fit]
    rw [if_neg (by omega)]
  have hslash : (Route.ofText path).slash = false := by rw [hpath]
  have hlocate : t.locate (Route.ofText path) = .ok (.child place.path name) := by
    simp [locate, hwalk, hfit', bind, Except.bind]
  have hplace : (Place.child place.path name).path = place.path ++ [name] := rfl
  simp only [read, entry, hroute, entryAt, hlocate, bind, Except.bind, hplace, hfind, hslash,
    Bool.false_eq_true, ↓reduceIte]

theorem filesOf_deposit (files : List (String × Bytes)) :
    (t.deposit dir files).filesOf dir = t.filesOf dir ++ files := by
  have hbelow : (files.map fun f => (dir ++ [f.1], Entry.file f.2)).filterMap (fun q =>
      if q.1.length > dir.length && q.1.take dir.length == dir then
        some (q.1.drop dir.length, q.2)
      else none) = files.map fun f => ([f.1], Entry.file f.2) := by
    rw [List.filterMap_map, ← List.filterMap_eq_map]
    congr 1
    funext f
    simp
  have hchildren : (t.deposit dir files).children dir =
      t.children dir ++ files.map fun f => (f.1, Entry.file f.2) := by
    simp only [children, below, deposit, List.filterMap_append, hbelow, List.filterMap_map]
    congr 1
    exact congrFun List.filterMap_eq_map files
  simp only [filesOf, hchildren, List.filterMap_append, List.filterMap_map]
  congr 1
  exact List.filterMap_some

end FileTree

end CrashCourier
