import CrashCourier.Proofs.Image.MappedLines
import Mathlib.Data.List.Nodup
import Mathlib.Order.Bounds.Basic

namespace CrashCourier.Image

/-- The ranges among some that have a path. -/
def withPath (path : List Char) (rs : List Range) : Set Range := {r | r ∈ rs ∧ r.path = path}

/-- One range for each path of the ranges that some lines map. -/
structure Grouped (mapped rs : List Range) : Prop where
  paths : ∀ path, path ∈ rs.map Range.path ↔ path ∈ mapped.map Range.path
  /-- Each path stands before those that appear after it; so none stands twice. -/
  order : (rs.map Range.path).Pairwise fun a b =>
    (mapped.map Range.path).idxOf a < (mapped.map Range.path).idxOf b
  start : ∀ r ∈ rs, IsLeast (Range.start '' withPath r.path mapped) r.start
  stop : ∀ r ∈ rs, IsGreatest (Range.stop '' withPath r.path mapped) r.stop

variable {mapped other rs rs' : List Range} {q r : Range} {path : List Char}

theorem paths_merge (r : Range) (rs : List Range) : (merge r rs).map Range.path =
    if r.path ∈ rs.map Range.path then rs.map Range.path else rs.map Range.path ++ [r.path] := by
  induction rs with
  | nil => rfl
  | cons q rs ih =>
    by_cases h : q.path = r.path
    · simp [merge, h]
    · have hne : ¬ r.path = q.path := Ne.symm h
      rw [merge, if_neg h, List.map_cons, ih, List.map_cons]
      by_cases hmem : r.path ∈ rs.map Range.path
      · rw [if_pos hmem, if_pos (List.mem_cons_of_mem _ hmem)]
      · have hnew : r.path ∉ q.path :: rs.map Range.path := by
          rw [List.mem_cons, not_or]
          exact ⟨hne, hmem⟩
        rw [if_neg hmem, if_neg hnew, List.cons_append]

/-- A range after another was merged into some: it is as it was, or wider, or the other one. -/
theorem mem_merge (hdistinct : (rs.map Range.path).Nodup) (h : q ∈ merge r rs) :
    (q ∈ rs ∧ q.path ≠ r.path) ∨
    (∃ old ∈ rs, old.path = r.path ∧
      q = ⟨old.path, min old.start r.start, max old.stop r.stop⟩) ∨
    (r.path ∉ rs.map Range.path ∧ q = r) := by
  induction rs with
  | nil => exact Or.inr (Or.inr ⟨by simp, List.mem_singleton.mp h⟩)
  | cons p rs ih =>
    obtain ⟨hp, hrest⟩ := List.nodup_cons.mp hdistinct
    rw [merge] at h
    by_cases hpath : p.path = r.path
    · rw [if_pos hpath] at h
      rcases List.mem_cons.mp h with rfl | h
      · exact Or.inr (Or.inl ⟨p, List.mem_cons_self, hpath, rfl⟩)
      · refine Or.inl ⟨List.mem_cons_of_mem _ h, fun hq => hp ?_⟩
        rw [hpath, ← hq]
        exact List.mem_map_of_mem h
    · rw [if_neg hpath] at h
      rcases List.mem_cons.mp h with rfl | h
      · exact Or.inl ⟨List.mem_cons_self, hpath⟩
      · rcases ih hrest h with ⟨hq, hne⟩ | ⟨old, hold, heq⟩ | ⟨hnew, heq⟩
        · exact Or.inl ⟨List.mem_cons_of_mem _ hq, hne⟩
        · exact Or.inr (Or.inl ⟨old, List.mem_cons_of_mem _ hold, heq⟩)
        · have hr : r.path ∉ (p :: rs).map Range.path := by
            rw [List.map_cons, List.mem_cons, not_or]
            exact ⟨Ne.symm hpath, hnew⟩
          exact Or.inr (Or.inr ⟨hr, heq⟩)

theorem withPath_concat (path : List Char) (mapped : List Range) (r : Range) :
    withPath path (mapped ++ [r]) =
      if r.path = path then insert r (withPath path mapped) else withPath path mapped := by
  ext q
  split
  · next h =>
    simp only [withPath, List.mem_append, List.mem_singleton, Set.mem_ofPred_eq, Set.mem_insert_iff]
    constructor
    · rintro ⟨hq | rfl, hpath⟩
      · exact Or.inr ⟨hq, hpath⟩
      · exact Or.inl rfl
    · rintro (rfl | ⟨hq, hpath⟩)
      · exact ⟨Or.inr rfl, h⟩
      · exact ⟨Or.inl hq, hpath⟩
  · next h =>
    simp only [withPath, List.mem_append, List.mem_singleton, Set.mem_ofPred_eq]
    constructor
    · rintro ⟨hq | rfl, hpath⟩
      · exact ⟨hq, hpath⟩
      · exact absurd hpath h
    · rintro ⟨hq, hpath⟩
      exact ⟨Or.inl hq, hpath⟩

theorem withPath_eq_empty (h : path ∉ mapped.map Range.path) : withPath path mapped = ∅ := by
  refine Set.eq_empty_iff_forall_notMem.mpr ?_
  rintro q ⟨hq, rfl⟩
  exact h (List.mem_map_of_mem hq)

namespace Grouped

theorem nodup_paths (h : Grouped mapped rs) : (rs.map Range.path).Nodup :=
  h.order.imp fun hlt heq => absurd (heq ▸ hlt) (Nat.lt_irrefl _)

/-- The next line that maps a file. -/
theorem merge (h : Grouped mapped rs) (r : Range) : Grouped (mapped ++ [r]) (merge r rs) := by
  have hknown : ∀ a ∈ rs.map Range.path, (mapped.map Range.path ++ [r.path]).idxOf a =
      (mapped.map Range.path).idxOf a :=
    fun a ha => List.idxOf_append_of_mem ((h.paths a).mp ha)
  constructor
  case paths =>
    intro path
    rw [paths_merge, List.map_append, List.map_singleton, List.mem_append, ← h.paths]
    split
    · next hr =>
      refine ⟨Or.inl, ?_⟩
      rintro (hpath | hpath)
      · exact hpath
      · exact List.mem_singleton.mp hpath ▸ hr
    · rw [List.mem_append]
  case order =>
    rw [paths_merge, List.map_append, List.map_singleton]
    have hold : (rs.map Range.path).Pairwise fun a b =>
        (mapped.map Range.path ++ [r.path]).idxOf a < (mapped.map Range.path ++ [r.path]).idxOf b :=
      h.order.imp_of_mem fun ha hb hlt => by rwa [hknown _ ha, hknown _ hb]
    split
    · exact hold
    · next hr =>
      refine List.pairwise_append.mpr ⟨hold, List.pairwise_singleton _ _, fun a ha b hb => ?_⟩
      obtain rfl := List.mem_singleton.mp hb
      have hnew : r.path ∉ mapped.map Range.path := fun hmem => hr ((h.paths _).mpr hmem)
      rw [hknown a ha, List.idxOf_append_of_notMem hnew]
      exact Nat.lt_add_right _ (List.idxOf_lt_length_iff.mpr ((h.paths a).mp ha))
  case start =>
    intro q hq
    rw [withPath_concat]
    rcases mem_merge h.nodup_paths hq with ⟨hq, hne⟩ | ⟨old, hold, hpath, rfl⟩ | ⟨hnew, rfl⟩
    · rw [if_neg (Ne.symm hne)]
      exact h.start q hq
    · rw [if_pos hpath.symm, Set.image_insert_eq, min_comm]
      exact (h.start old hold).insert r.start
    · rw [if_pos rfl, withPath_eq_empty fun hmem => hnew ((h.paths _).mpr hmem)]
      simp
  case stop =>
    intro q hq
    rw [withPath_concat]
    rcases mem_merge h.nodup_paths hq with ⟨hq, hne⟩ | ⟨old, hold, hpath, rfl⟩ | ⟨hnew, rfl⟩
    · rw [if_neg (Ne.symm hne)]
      exact h.stop q hq
    · rw [if_pos hpath.symm, Set.image_insert_eq, max_comm]
      exact (h.stop old hold).insert r.stop
    · rw [if_pos rfl, withPath_eq_empty fun hmem => hnew ((h.paths _).mpr hmem)]
      simp

theorem foldl_merge (h : Grouped mapped rs) (more : List Range) :
    Grouped (mapped ++ more) (more.foldl (fun rs r => Image.merge r rs) rs) := by
  induction more generalizing mapped rs with
  | nil => simpa using h
  | cons r more ih =>
    have hnext := ih (h.merge r)
    rwa [List.append_assoc, List.singleton_append] at hnext

/-- The ranges that are there, by what was mapped. -/
theorem mem_iff (h : Grouped mapped rs) : r ∈ rs ↔
    IsLeast (Range.start '' withPath r.path mapped) r.start ∧
      IsGreatest (Range.stop '' withPath r.path mapped) r.stop := by
  refine ⟨fun hr => ⟨h.start r hr, h.stop r hr⟩, ?_⟩
  rintro ⟨hstart, hstop⟩
  obtain ⟨a, ⟨ha, hpath⟩, -⟩ := hstart.1
  obtain ⟨q, hq, heq⟩ := List.mem_map.mp
    ((h.paths r.path).mpr (hpath ▸ List.mem_map_of_mem ha))
  have hstart' := h.start q hq
  have hstop' := h.stop q hq
  rw [heq] at hstart' hstop'
  have hqr : q = r := by
    obtain ⟨qpath, qstart, qstop⟩ := q
    obtain ⟨rpath, rstart, rstop⟩ := r
    exact congr (congr (congrArg Range.mk heq) (hstart'.unique hstart)) (hstop'.unique hstop)
  exact hqr ▸ hq

/-- What was mapped, in whichever order, decides which ranges there are. -/
theorem perm (h : Grouped mapped rs) (h' : Grouped other rs') (hmem : ∀ r, r ∈ mapped ↔ r ∈ other) :
    rs.Perm rs' := by
  have hsame : ∀ path, withPath path mapped = withPath path other := by
    intro path
    ext q
    simp only [withPath, Set.mem_ofPred_eq, hmem]
  have hrs : rs.Nodup := List.Nodup.of_map _ h.nodup_paths
  have hrs' : rs'.Nodup := List.Nodup.of_map _ h'.nodup_paths
  refine (List.perm_ext_iff_of_nodup hrs hrs').mpr fun r => ?_
  rw [h.mem_iff, h'.mem_iff, hsame]

/-- With the order in which the paths were mapped, it decides their order too. -/
theorem eq_of_paths (h : Grouped mapped rs) (h' : Grouped other rs')
    (hmem : ∀ r, r ∈ mapped ↔ r ∈ other)
    (hpaths : mapped.map Range.path = other.map Range.path) : rs = rs' := by
  have hrs := List.pairwise_map.mp h.order
  have hrs' := List.pairwise_map.mp h'.order
  rw [← hpaths] at hrs'
  refine (h.perm h' hmem).eq_of_pairwise (fun a b _ _ hlt hgt => ?_) hrs hrs'
  exact absurd hlt (Nat.lt_asymm hgt)

end Grouped

theorem grouped_nil : Grouped [] [] := by
  constructor <;> simp

theorem grouped_ranges (maps : List Char) :
    Grouped ((lines maps).filterMap ofLine?) (ranges maps) :=
  grouped_nil.foldl_merge _

theorem filterMap_ofLine?_eq_nil {lines : List (List Char)}
    (h : ∀ line ∈ lines, ∀ r, ¬ MapsFile line r) : lines.filterMap ofLine? = [] := by
  refine List.filterMap_eq_nil_iff.mpr fun line hline => ?_
  cases hr : ofLine? line with
  | none => rfl
  | some r => exact absurd (ofLine?_eq_some_iff.mp hr) (h line hline r)

/-- The ranges of a text are those of its lines that map files, grouped by path. So other lines may
come and go, two lines of one path may change places, and lines in another order give the same
ranges in another order. -/
theorem ranges_grouped :
    (∀ line r, ofLine? line = some r ↔ MapsFile line r) ∧
    (∀ maps rs, ranges maps = rs ↔ Grouped ((lines maps).filterMap ofLine?) rs) ∧
    (∀ maps more before extra after, lines maps = before ++ after →
      lines more = before ++ extra ++ after → (∀ line ∈ extra, ∀ r, ¬ MapsFile line r) →
      ranges more = ranges maps) ∧
    (∀ maps swapped before line between line' after r r',
      lines maps = before ++ line :: (between ++ line' :: after) →
      lines swapped = before ++ line' :: (between ++ line :: after) →
      MapsFile line r → MapsFile line' r' → r.path = r'.path → ranges swapped = ranges maps) ∧
    ∀ maps shuffled, (lines maps).Perm (lines shuffled) → (ranges maps).Perm (ranges shuffled) := by
  refine ⟨fun line r => ofLine?_eq_some_iff, ?_, ?_, ?_, ?_⟩
  · intro maps rs
    constructor
    · rintro rfl
      exact grouped_ranges maps
    · intro h
      exact (grouped_ranges maps).eq_of_paths h (fun r => Iff.rfl) rfl
  · intro maps more before extra after hmaps hmore hextra
    rw [ranges, ranges, hmaps, hmore]
    simp only [List.filterMap_append, filterMap_ofLine?_eq_nil hextra, List.append_nil]
  · intro maps swapped before line between line' after r r' hmaps hswapped hline hline' hpath
    have hgrouped := grouped_ranges maps
    have hgrouped' := grouped_ranges swapped
    have hr := ofLine?_eq_some_iff.mpr hline
    have hr' := ofLine?_eq_some_iff.mpr hline'
    rw [hmaps] at hgrouped
    rw [hswapped] at hgrouped'
    simp only [List.filterMap_append, List.filterMap_cons_some hr,
      List.filterMap_cons_some hr'] at hgrouped hgrouped'
    refine hgrouped'.eq_of_paths hgrouped (fun q => ?_) ?_
    · simp only [List.mem_append, List.mem_cons]
      tauto
    · simp [hpath]
  · intro maps shuffled hperm
    exact (grouped_ranges maps).perm (grouped_ranges shuffled) fun r =>
      (hperm.filterMap ofLine?).mem_iff

def mapsOfLines (lines : List (List Char)) : List Char := ['\n'].intercalate lines

/-- Lines of two files, the first with a blank in its path, and one that maps no file. -/
def lineA : List Char := "30-40 r-xp 0 08:01 1 /a b".toList
def lineA' : List Char := "+5-1F r--p 0 08:01 1  /a b ".toList
def lineC : List Char := "10-20 r--p 0 08:01 2 /c".toList
def lineStack : List Char := "50-60 rw-p 0 00:00 0 [stack]".toList

theorem ranges_grouped_twoFiles :
    Grouped ((lines (mapsOfLines [lineA, lineC, lineA'])).filterMap ofLine?)
      [⟨"/a b".toList, 0x05, 0x40⟩, ⟨"/c".toList, 0x10, 0x20⟩] ∧
    ranges (mapsOfLines [lineA, lineC, lineStack, lineA']) =
      ranges (mapsOfLines [lineA, lineC, lineA']) ∧
    ranges (mapsOfLines [lineA', lineC, lineA]) = ranges (mapsOfLines [lineA, lineC, lineA']) ∧
    (ranges (mapsOfLines [lineA, lineC, lineA'])).Perm
      (ranges (mapsOfLines [lineC, lineA', lineA])) := by
  obtain ⟨hline, hgrouped, hextra, hswapped, hshuffled⟩ := ranges_grouped
  have hplain : lines (mapsOfLines [lineA, lineC, lineA']) =
      [lineA, lineC, lineA'] := by decide +kernel
  have hA : MapsFile lineA ⟨"/a b".toList, 0x30, 0x40⟩ :=
    (hline _ _).mp (by decide +kernel)
  have hA' : MapsFile lineA' ⟨"/a b".toList, 0x05, 0x1f⟩ :=
    (hline _ _).mp (by decide +kernel)
  have hstack : ofLine? lineStack = none := by decide +kernel
  refine ⟨(hgrouped _ _).mp (by decide +kernel), ?_, ?_, hshuffled _ _ ?_⟩
  · refine hextra _ _ [lineA, lineC] [lineStack] [lineA'] hplain
      (by decide +kernel) fun line h r hr => ?_
    obtain rfl := List.mem_singleton.mp h
    exact nomatch hstack.symm.trans ((hline _ _).mpr hr)
  · exact hswapped _ _ [] lineA [lineC] lineA' [] _ _ hplain
      (by decide +kernel) hA hA' rfl
  · rw [hplain, show lines (mapsOfLines [lineC, lineA', lineA]) =
      [lineC, lineA', lineA] by decide +kernel]
    exact (List.Perm.swap _ _ _).trans ((List.Perm.swap _ _ _).cons _)

end CrashCourier.Image
