import CrashCourier.Listing
import CrashCourier.Proofs.Files
import CrashCourier.Proofs.Text.Order
import Mathlib.Data.List.Sort

namespace CrashCourier.Listing

/-- What a summary says of a file is what reading its content as an envelope gives. -/
structure Summary.Describes (s : Summary) (content : Bytes) : Prop where
  size : s.size = content.length
  accepted : ∀ e, Envelope.ofWire content = .ok e →
    s.error = none ∧ s.eventId = e.eventId ∧ s.items = e.items.map EnvelopeItem.type
  refused : ∀ e, Envelope.ofWire content = .error e →
    s.error = some e ∧ s.eventId = none ∧ s.items = []

theorem describes_iff {s : Summary} {content : Bytes} :
    s.Describes content ↔ summarize s.file content = s := by
  obtain ⟨file, size, eventId, items, error⟩ := s
  unfold summarize
  constructor
  · rintro ⟨rfl, haccepted, hrefused⟩
    split
    · next e he =>
      obtain ⟨rfl, rfl, rfl⟩ := haccepted e he
      rfl
    · next e he =>
      obtain ⟨rfl, rfl, rfl⟩ := hrefused e he
      rfl
  · intro h
    split at h
    · next e he =>
      obtain ⟨-, rfl, rfl, rfl, rfl⟩ := Summary.mk.inj h
      refine ⟨rfl, fun e' he' => ?_, fun e' he' => ?_⟩
      · obtain rfl := Except.ok.inj (he.symm.trans he')
        exact ⟨rfl, rfl, rfl⟩
      · cases he.symm.trans he'
    · next e he =>
      obtain ⟨-, rfl, rfl, rfl, rfl⟩ := Summary.mk.inj h
      refine ⟨rfl, fun e' he' => ?_, fun e' he' => ?_⟩
      · cases he.symm.trans he'
      · obtain rfl := Except.error.inj (he.symm.trans he')
        exact ⟨rfl, rfl, rfl⟩

/-- A path leads to a directory whose files can all be read. -/
structure Listable (t : FileTree) (outbox : String) (dir : List String) : Prop where
  directory : t.directoryOf outbox = some dir
  distinct : ((t.children dir).map Prod.fst).Nodup
  named : ∀ q ∈ t.children dir, FileTree.IsFileName q.1
  readable : ∀ q ∈ t.children dir, q.2 ≠ .directory →
    (t.read (pathIn outbox q.1)).isOk = true

instance (t : FileTree) (outbox : String) (dir : List String) :
    Decidable (Listable t outbox dir) :=
  decidable_of_iff (t.directoryOf outbox = some dir ∧ ((t.children dir).map Prod.fst).Nodup ∧
      (∀ q ∈ t.children dir, FileTree.IsFileName q.1) ∧ ∀ q ∈ t.children dir, q.2 ≠ .directory →
        (t.read (pathIn outbox q.1)).isOk = true)
    ⟨fun ⟨directory, distinct, named, readable⟩ => ⟨directory, distinct, named, readable⟩,
      fun h => ⟨h.directory, h.distinct, h.named, h.readable⟩⟩

variable {t u : FileTree} {outbox name : String} {dir : List String} {content : Bytes}

theorem endsWith_slash_iff {s : String} : s.endsWith "/" = true ↔ ∃ above, s = above ++ "/" := by
  rw [String.endsWith_eq_endsWith_toSlice, String.Slice.endsWith_string_iff, String.copy_toSlice]
  constructor
  · rintro ⟨above, h⟩
    refine ⟨String.ofList above, String.toList_inj.mp ?_⟩
    rw [String.toList_append, String.toList_ofList, h]
  · rintro ⟨above, rfl⟩
    exact ⟨above.toList, (String.toList_append).symm⟩

theorem ofText_pathIn (houtbox : outbox ≠ "") (hname : name ≠ "") (h : '/' ∉ name.toList) :
    Route.ofText (pathIn outbox name) =
      ⟨(Route.ofText outbox).absolute, (Route.ofText outbox).parts ++ [name], false⟩ := by
  unfold pathIn
  split
  · next hslash =>
    obtain ⟨above, rfl⟩ := endsWith_slash_iff.mp hslash
    exact Route.ofText_concat above hname h
  · exact Route.ofText_slash houtbox hname h

theorem Listable.ofFile (h : Listable t outbox dir)
    (hfile : (name, .file content) ∈ t.children dir) :
    ofFile t outbox name = .ok (summarize name content) := by
  have hok := h.readable _ hfile (by simp)
  obtain ⟨place, hroute, -⟩ := FileTree.directoryOf_eq_some h.directory
  obtain ⟨-, hempty, -⟩ := FileTree.route_ok hroute
  have hname := h.named _ hfile
  cases hb : t.read (pathIn outbox name) with
  | error e =>
    rw [hb] at hok
    cases hok
  | ok b =>
    have hread := FileTree.read_of_find? h.directory hname (FileTree.route_of_read hb)
      (ofText_pathIn hempty hname.empty hname.slash)
      (FileTree.find?_of_mem_children h.distinct hfile)
    rw [Listing.ofFile, hread]
    rfl

theorem mapM_ok {α β ε : Type} {f : α → Except ε β} {g : α → β} {l : List α}
    (h : ∀ a ∈ l, f a = .ok (g a)) : l.mapM f = .ok (l.map g) := by
  induction l with
  | nil => rfl
  | cons a l ih =>
    obtain ⟨ha, hl⟩ := List.forall_mem_cons.mp h
    rw [List.mapM_cons, ha, ih hl]
    rfl

theorem Listable.ofOutbox_eq (h : Listable t outbox dir) : ofOutbox t outbox =
    .ok (((t.filesOf dir).map fun f => summarize f.1 f.2).mergeSort nameLe) := by
  have hread : ∀ f ∈ t.filesOf dir, Listing.ofFile t outbox f.1 = .ok (summarize f.1 f.2) :=
    fun f hf => h.ofFile (FileTree.mem_filesOf_iff.mp hf)
  rw [ofOutbox, if_pos (FileTree.isDirectory_of_directoryOf h.directory),
    FileTree.filesIn_of_directoryOf h.directory]
  simp only [bind, Except.bind, mapM_ok hread]

def Precedes (a b : Summary) : Prop := Text.bytes a.file < Text.bytes b.file

instance : Std.Irrefl Precedes := ⟨fun a => List.lt_irrefl (Text.bytes a.file)⟩

instance : Std.Antisymm Precedes := ⟨fun _ _ hab hba => absurd hba (List.lt_asymm hab)⟩

/-- The summaries of a listing, by the files that they are about. -/
structure Lists (found : List Summary) (entries : List (String × Entry)) : Prop where
  sorted : found.Pairwise Precedes
  complete : ∀ s, s ∈ found ↔
    ∃ content, (s.file, .file content) ∈ entries ∧ s.Describes content

theorem file_summarize (file : String) (content : Bytes) :
    (summarize file content).file = file := by
  unfold summarize
  split <;> rfl

theorem precedes_of_nameLe {a b : Summary} (hle : nameLe a b = true) (hne : a.file ≠ b.file) :
    Precedes a b := by
  apply Text.bytes_lt_bytes
  apply String.not_le.mp
  intro hge
  exact hne (String.le_antisymm (of_decide_eq_true hle) hge)

theorem pairwise_mergeSort_nameLe {summaries : List Summary}
    (h : summaries.Pairwise fun a b => a.file ≠ b.file) :
    (summaries.mergeSort nameLe).Pairwise Precedes := by
  have hle : (summaries.mergeSort nameLe).Pairwise fun a b => nameLe a b = true := by
    refine List.pairwise_mergeSort (fun a b c hab hbc => ?_) (fun a b => ?_) summaries
    · exact decide_eq_true (String.le_trans (of_decide_eq_true hab) (of_decide_eq_true hbc))
    · simpa [nameLe] using String.le_total a.file b.file
  have hne : (summaries.mergeSort nameLe).Pairwise fun a b => a.file ≠ b.file :=
    ((List.mergeSort_perm summaries nameLe).pairwise_iff fun hab => hab.symm).mpr h
  exact hle.imp₂ (fun a b => precedes_of_nameLe) hne

theorem Listable.lists (h : Listable t outbox dir) :
    ∃ found, ofOutbox t outbox = .ok found ∧ Lists found (t.children dir) := by
  refine ⟨_, h.ofOutbox_eq, ?_, fun s => ?_⟩
  · refine pairwise_mergeSort_nameLe (List.pairwise_map.mpr ?_)
    refine (FileTree.pairwise_filesOf h.distinct).imp fun hne => ?_
    rw [file_summarize, file_summarize]
    exact hne
  · rw [List.mem_mergeSort, List.mem_map]
    constructor
    · rintro ⟨⟨name, content⟩, hf, rfl⟩
      refine ⟨content, ?_, describes_iff.mpr ?_⟩
      · rw [file_summarize]
        exact FileTree.mem_filesOf_iff.mp hf
      · rw [file_summarize]
    · rintro ⟨content, hmem, hdescribes⟩
      exact ⟨(s.file, content), FileTree.mem_filesOf_iff.mpr hmem, describes_iff.mp hdescribes⟩

theorem Lists.eq_of_mem_iff {found others : List Summary} {entries rest : List (String × Entry)}
    (h : Lists found entries) (h' : Lists others rest) (hmem : ∀ q, q ∈ entries ↔ q ∈ rest) :
    found = others := by
  refine h.sorted.eq_of_mem_iff h'.sorted fun s => ?_
  rw [h.complete, h'.complete]
  simp only [hmem]

/-- A file bears on its own summary alone. -/
theorem Lists.filter_eq {found others : List Summary} {entries rest : List (String × Entry)}
    (h : Lists found entries) (h' : Lists others rest)
    (hmem : ∀ q, q.1 ≠ name → (q ∈ entries ↔ q ∈ rest)) :
    found.filter (fun s => s.file ≠ name) = others.filter fun s => s.file ≠ name := by
  refine (h.sorted.filter _).eq_of_mem_iff (h'.sorted.filter _) fun s => ?_
  rw [List.mem_filter, List.mem_filter, decide_eq_true_iff]
  refine and_congr_left fun hne => ?_
  rw [h.complete, h'.complete]
  exact exists_congr fun content => and_congr_left fun _ => hmem (s.file, .file content) hne

end CrashCourier.Listing
