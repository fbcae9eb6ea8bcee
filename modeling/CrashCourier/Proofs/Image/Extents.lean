import CrashCourier.Image.Catalog
import CrashCourier.Proofs.Image.Ranges

namespace CrashCourier.Image

variable {r : Range} {maps : List Char}

theorem mem_filterMap_ofLine? : r ∈ (lines maps).filterMap ofLine? ↔
    ∃ line ∈ lines maps, MapsFile line r := by
  simp only [List.mem_filterMap, ofLine?_eq_some_iff]

theorem extent_eq (h : r.start ≤ r.stop) : ∃ size, extent r = .ok size ∧
    size.toInt = min (r.stop - r.start : Nat) 0x7fffffff := by
  have hfits : ∀ size : Nat, (Int32.ofInt (min (size : Int) 0x7fffffff)).toInt =
      min size 0x7fffffff := by
    intro size
    rw [Int32.toInt_ofInt_of_le (by omega) (by omega), Nat.cast_min, Nat.cast_ofNat]
  exact ⟨_, if_neg (Nat.not_lt.mpr h), hfits _⟩

theorem extent_of_inverted (h : r.stop < r.start) : extent r = .error .subtraction := if_pos h

theorem image_size_identified (codeFile : String) (address : Nat) (size : Int32)
    (buildId : Option Bytes) :
    (identified (plainRecord codeFile address size) buildId).get "image_size" = .int size := by
  obtain ⟨es, hes⟩ : ∃ es, plainRecord codeFile address size = .object es := ⟨_, rfl⟩
  have hsize : (Value.object es).get "image_size" = .int size := hes ▸ rfl
  unfold identified
  simp only [hes]
  split
  · exact hsize
  · split
    · exact hsize
    · unfold Value.setSome
      split
      · rw [Value.set_object, Value.get_set_object, if_neg (by decide), ← Value.set_object,
          Value.get_set_object, if_neg (by decide)]
        exact hsize
      · rw [Value.get_set_object, if_neg (by decide)]
        exact hsize

theorem record_of_ordered (h : r.start ≤ r.stop) (buildId : Option Bytes) :
    ∃ image size, record r buildId = .ok image ∧ image.get "image_size" = .int size ∧
      size.toInt = min (r.stop - r.start : Nat) 0x7fffffff := by
  obtain ⟨size, hextent, hsize⟩ := extent_eq h
  have himage : record r buildId =
      .ok (identified (plainRecord (String.ofList r.path) r.start size) buildId) := by
    rw [record, hextent]
    rfl
  exact ⟨_, size, himage, image_size_identified _ _ size buildId, hsize⟩

theorem record_of_inverted (h : r.stop < r.start) (buildId : Option Bytes) :
    record r buildId = .error .subtraction := by
  rw [record, extent_of_inverted h]
  rfl

/-- A range is ordered if a line of its file ends behind the start of a line of it. -/
theorem start_le_stop_iff (h : r ∈ ranges maps) : r.start ≤ r.stop ↔
    ∃ line ∈ lines maps, ∃ line' ∈ lines maps, ∃ q q', MapsFile line q ∧ MapsFile line' q' ∧
      q.path = r.path ∧ q'.path = r.path ∧ q.start ≤ q'.stop := by
  obtain ⟨hstart, hstop⟩ := (grouped_ranges maps).mem_iff.mp h
  constructor
  · intro hle
    obtain ⟨q, ⟨hq, hpath⟩, hqstart⟩ := hstart.1
    obtain ⟨q', ⟨hq', hpath'⟩, hqstop⟩ := hstop.1
    obtain ⟨line, hline, hmaps⟩ := mem_filterMap_ofLine?.mp hq
    obtain ⟨line', hline', hmaps'⟩ := mem_filterMap_ofLine?.mp hq'
    exact ⟨line, hline, line', hline', q, q', hmaps, hmaps', hpath, hpath', by omega⟩
  · rintro ⟨line, hline, line', hline', q, q', hmaps, hmaps', hpath, hpath', hle⟩
    have hq := mem_filterMap_ofLine?.mpr ⟨line, hline, hmaps⟩
    have hq' := mem_filterMap_ofLine?.mpr ⟨line', hline', hmaps'⟩
    have hlow : r.start ≤ q.start := hstart.2 ⟨q, ⟨hq, hpath⟩, rfl⟩
    have hhigh : q'.stop ≤ r.stop := hstop.2 ⟨q', ⟨hq', hpath'⟩, rfl⟩
    omega

/-- A range is ordered if any line of its file is, and then it is as large as its image is said to
be, within 31 bits. A range that is not ordered has no image: the subtraction overflows. -/
theorem image_size_of_range (h : r ∈ ranges maps) (buildId : Option Bytes) :
    (r.start ≤ r.stop ↔ ∃ line ∈ lines maps, ∃ line' ∈ lines maps, ∃ q q', MapsFile line q ∧
      MapsFile line' q' ∧ q.path = r.path ∧ q'.path = r.path ∧ q.start ≤ q'.stop) ∧
    (r.start ≤ r.stop → ∃ image size, record r buildId = .ok image ∧
      image.get "image_size" = .int size ∧
      size.toInt = min (r.stop - r.start : Nat) 0x7fffffff) ∧
    (r.stop < r.start → record r buildId = .error .subtraction) :=
  ⟨start_le_stop_iff h, fun hle => record_of_ordered hle buildId,
    fun hlt => record_of_inverted hlt buildId⟩

/-- A line the wrong way round among those of a file does no harm where another line reaches
behind it. -/
theorem image_size_of_range_mended :
    let r : Range := ⟨"/a".toList, 0x500, 0x9000⟩
    r ∈ ranges "3000-1000 r-xp 0 08:01 131 /a\n500-9000 r-xp 0 08:01 131 /a".toList ∧
      ∃ image size, record r (some [0xab]) = .ok image ∧ image.get "image_size" = .int size ∧
        size.toInt = 0x8b00 := by
  intro r
  have hmem : r ∈ ranges "3000-1000 r-xp 0 08:01 131 /a\n500-9000 r-xp 0 08:01 131 /a".toList := by
    decide +kernel
  obtain ⟨image, size, himage, hsize, hint⟩ :=
    (image_size_of_range hmem (some [0xab])).2.1 (by decide)
  exact ⟨hmem, image, size, himage, hsize, hint.trans (by decide)⟩

/-- Where a file has no other line, its range ends before its start, and its image overflows. -/
theorem exists_inverted :
    ∃ r ∈ ranges "3000-1000 r-xp 00000000 08:01 131 /a\n".toList, ¬ r.start ≤ r.stop ∧
      ∀ buildId, record r buildId = .error .subtraction := by
  refine ⟨⟨"/a".toList, 0x3000, 0x1000⟩, by decide +kernel, by decide, fun buildId => ?_⟩
  exact record_of_inverted (by decide) buildId

theorem mapM_error_iff {α β : Type} {f : α → Except Overflow β} {xs : List α} {e : Overflow} :
    xs.mapM f = .error e ↔ ∃ x ∈ xs, f x = .error e := by
  cases e
  induction xs with
  | nil => simp [pure, Except.pure]
  | cons x xs ih =>
    rw [List.mapM_cons]
    cases hx : f x with
    | error e =>
      cases e
      simp [hx, bind, Except.bind]
    | ok y =>
      have hlater : (xs.mapM f >>= fun ys => pure (y :: ys)) = .error .subtraction ↔
          xs.mapM f = .error .subtraction := by
        cases xs.mapM f with
        | error e => cases e; simp [bind, Except.bind]
        | ok ys => simp [bind, Except.bind, pure, Except.pure]
      simpa [hx, bind, Except.bind] using hlater.trans ih

/-- A list of images overflows exactly if some range of a file that is an image is not ordered. -/
theorem ofMaps_overflow_iff {files : FileTree} {path : String} {bytes : Bytes} {text : String}
    (hread : files.read path = .ok bytes) (htext : Text.ofBytes? bytes = some text) :
    ofMaps files path = .error .subtraction ↔ ∃ r ∈ ranges text.toList, r.stop < r.start ∧
      ∃ file, files.read (String.ofList r.path) = .ok file ∧ (buildId? file).isSome = true := by
  have hone : ∀ r, imageOf files r = .error .subtraction ↔ r.stop < r.start ∧
      ∃ file, files.read (String.ofList r.path) = .ok file ∧ (buildId? file).isSome = true := by
    intro r
    unfold imageOf
    cases hfile : files.read (String.ofList r.path) with
    | error e => simp
    | ok file =>
      cases hid : buildId? file with
      | none => simp [hid]
      | some buildId =>
        by_cases hlt : r.stop < r.start
        · simp [hid, hlt, record_of_inverted, Except.map]
        · obtain ⟨image, size, himage, -⟩ := record_of_ordered (Nat.not_lt.mp hlt) buildId
          simp [hid, hlt, himage, Except.map]
  have hlist : ofMaps files path =
      ((ranges text.toList).mapM (imageOf files)).map fun images => .list images.reduceOption := by
    simp [ofMaps, hread, htext]
  have hmap : ofMaps files path = .error .subtraction ↔
      (ranges text.toList).mapM (imageOf files) = .error .subtraction := by
    rw [hlist]
    cases (ranges text.toList).mapM (imageOf files) <;> simp [Except.map]
  rw [hmap, mapM_error_iff]
  exact exists_congr fun r => and_congr_right fun _ => hone r

end CrashCourier.Image
