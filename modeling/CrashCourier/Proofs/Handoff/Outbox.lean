import CrashCourier.Proofs.Files
import CrashCourier.Proofs.Text.Identifiers
import CrashCourier.Transport

namespace CrashCourier

theorem Uuid.isFileName_hyphenated (u : Uuid) : FileTree.IsFileName u.hyphenated := by
  have hlength : Text.length u.hyphenated = 36 :=
    (Text.length_eq_length_bytes _).trans u.length_bytes_hyphenated
  have hne : ∀ s, Text.length s ≠ 36 → u.hyphenated ≠ s := fun s hs heq => hs (heq ▸ hlength)
  have hmem : ∀ c, c ≠ '-' → (∀ n < 16, c ≠ Bytes.hexDigit n) → c ∉ u.hyphenated.toList := by
    intro c hhyphen hdigit h
    rcases mem_hyphenated h with h | ⟨n, hn, h⟩
    · exact hhyphen h
    · exact hdigit n hn h
  constructor
  case slash => exact hmem '/' (by decide) (by decide)
  case nul => exact hmem '\x00' (by decide) (by decide)
  case empty => exact hne "" (by decide)
  case dot => exact hne "." (by decide)
  case dots => exact hne ".." (by decide)
  case short =>
    rw [hlength]
    decide

/-- The files that envelopes become, the first of them under the `n`-th name. -/
def Outbox.deposits (names : Nat → Uuid) : Nat → List Envelope → List (String × Bytes)
  | _, [] => []
  | n, e :: es => ((names n).hyphenated, e.wire) :: Outbox.deposits names (n + 1) es

/-- The world after some envelopes were stored in a directory. -/
def World.deposited (w : World) (dir : List String) (es : List Envelope) : World :=
  { w with
    files := w.files.deposit dir (Outbox.deposits w.supply.fileId w.supply.files es)
    supply := { w.supply with files := w.supply.files + es.length } }

/-- The next identifiers are the names of one file each, and of none that is in a directory. -/
structure World.FreshNames (w : World) (dir : List String) (count : Nat) : Prop where
  distinct : ∀ j k, j < count → k < count →
    w.supply.fileId (w.supply.files + j) = w.supply.fileId (w.supply.files + k) → j = k
  unused : ∀ k, k < count →
    w.files.find? (dir ++ [(w.supply.fileId (w.supply.files + k)).hyphenated]) = none

/-- The system refuses no file in a directory, whatever else is in the tree. -/
def FileTree.Admits (t : FileTree) (dir : List String) : Prop :=
  ∀ entries name content, t.refusal entries (dir ++ [name]) (.file content) = none

namespace Outbox

/-- An outbox that is there and takes files, on a path that leaves room for names, and fresh names
for it. -/
structure Ready (w : World) (outbox : String) (dir : List String) (count : Nat) : Prop where
  directory : w.files.directoryOf outbox = some dir
  admits : w.files.Admits dir
  short : pathSize outbox ≤ pathLimit
  names : w.FreshNames dir count

variable {w : World} {outbox : String} {dir : List String} {count : Nat}

theorem Ready.mono {few : Nat} (h : Ready w outbox dir count) (hle : few ≤ count) :
    Ready w outbox dir few := by
  refine ⟨h.directory, h.admits, h.short, fun j k hj hk => ?_, fun k hk => ?_⟩
  · exact h.names.distinct j k (Nat.lt_of_lt_of_le hj hle) (Nat.lt_of_lt_of_le hk hle)
  · exact h.names.unused k (Nat.lt_of_lt_of_le hk hle)

theorem deposited_cons (e : Envelope) (es : List Envelope) :
    w.deposited dir (e :: es) = (w.deposited dir [e]).deposited dir es := by
  simp only [World.deposited, deposits, List.length_cons, List.length_nil, Nat.zero_add,
    ← FileTree.deposit_append, List.singleton_append]
  rw [Nat.add_comm es.length 1, Nat.add_assoc]

/-- Storing writes one file, under the next name. -/
theorem store_eq {buffer : Buffer} (hdir : w.files.directoryOf outbox = some dir)
    (hshort : pathSize outbox ≤ pathLimit) (hb : buffer.text? = some outbox)
    (hfree : w.files.find? (dir ++ [w.nextFileId.1.hyphenated]) = none) (e : Envelope) :
    store e (some (.outbox buffer)) w = { w.nextFileId.2 with
      files := w.files.deposit dir
        ((w.files.writtenOf (dir ++ [w.nextFileId.1.hyphenated]) e.wire).toList.map fun b =>
          (w.nextFileId.1.hyphenated, b)) } := by
  have hlimit : ¬ pathLimit < pathSize outbox := Nat.not_lt.mpr hshort
  have hlength : Text.length w.nextFileId.1.hyphenated = 36 :=
    (Text.length_eq_length_bytes _).trans (Uuid.length_bytes_hyphenated _)
  have hroom : Text.length outbox + 1 + Text.length w.nextFileId.1.hyphenated ≤
      FileTree.pathLimit := by
    simp only [pathSize, pathLimit, FileTree.pathLimit, hlength] at hshort ⊢
    omega
  rw [← FileTree.write_slash e.wire hdir w.nextFileId.1.isFileName_hyphenated hroom hfree]
  simp only [store, hb, envelopePath, if_neg hlimit]
  rfl

/-- Storing puts one new file into the outbox. -/
theorem store_eq_deposited {buffer : Buffer} (h : Ready w outbox dir (count + 1))
    (hb : buffer.text? = some outbox) (e : Envelope) :
    store e (some (.outbox buffer)) w = w.deposited dir [e] := by
  have hadmitted : w.files.refuses? (dir ++ [w.nextFileId.1.hyphenated]) (.file e.wire) = none :=
    h.admits _ _ _
  have hwritten : w.files.writtenOf (dir ++ [w.nextFileId.1.hyphenated]) e.wire = some e.wire := by
    rw [FileTree.writtenOf, hadmitted]
  rw [store_eq h.directory h.short hb (h.names.unused 0 (Nat.succ_pos count)), hwritten]
  rfl

theorem Ready.deposited_one (h : Ready w outbox dir (count + 1)) (e : Envelope) :
    Ready (w.deposited dir [e]) outbox dir count := by
  have hnext : ∀ k, w.supply.files + 1 + k = w.supply.files + (k + 1) := fun k => by omega
  refine ⟨(FileTree.keeps_deposit _ _ _).directoryOf h.directory, h.admits, h.short, ?_, ?_⟩
  · intro j k hj hk hsame
    have heq := h.names.distinct (j + 1) (k + 1) (by omega) (by omega)
      (by simpa only [World.deposited, List.length_singleton, hnext] using hsame)
    omega
  · intro k hk
    simp only [World.deposited, List.length_singleton, hnext]
    refine (FileTree.find?_deposit_of_ne ?_).trans (h.names.unused (k + 1) (by omega))
    intro f hf heq
    obtain rfl := List.mem_singleton.mp hf
    have hname := List.singleton_inj.mp (List.append_cancel_left heq)
    have hzero := h.names.distinct 0 (k + 1) (by omega) (by omega)
      (Uuid.hyphenated_injective hname)
    omega

theorem Ready.deposited {es : List Envelope} (h : Ready w outbox dir (es.length + count)) :
    Ready (w.deposited dir es) outbox dir count := by
  induction es generalizing w with
  | nil => simpa [World.deposited, deposits, FileTree.deposit_nil] using h
  | cons e es ih =>
    rw [List.length_cons, Nat.add_right_comm] at h
    rw [deposited_cons]
    exact ih (h.deposited_one e)

/-- A worker with an outbox delivers its whole queue there. -/
theorem deliver_eq_deposited {buffer : Buffer} {queue : List Envelope}
    (h : Ready w outbox dir queue.length) (hb : buffer.text? = some outbox) :
    Worker.deliver (.toOutbox buffer) queue w =
      (.running (.toOutbox buffer) [], w.deposited dir queue) := by
  induction queue generalizing w with
  | nil => simp [Worker.deliver, World.deposited, deposits, FileTree.deposit_nil]
  | cons e queue ih =>
    have hsend : (Transport.toOutbox buffer).send e true w = some (w.deposited dir [e]) :=
      congrArg some (store_eq_deposited h hb e)
    rw [Worker.deliver, hsend, deposited_cons e queue]
    exact ih (h.deposited_one e)

theorem deposits_append (names : Nat → Uuid) (n : Nat) (es fs : List Envelope) :
    deposits names n (es ++ fs) = deposits names n es ++ deposits names (n + es.length) fs := by
  induction es generalizing n with
  | nil => rfl
  | cons e es ih =>
    rw [List.cons_append, deposits, deposits, ih, List.cons_append, List.length_cons,
      Nat.add_assoc, Nat.add_comm 1]

/-- Since some world, envelopes were stored in a directory, and no other file was written. -/
structure Stored (base : World) (dir : List String) (es : List Envelope) (w : World) : Prop where
  files : w.files = base.files.deposit dir (deposits base.supply.fileId base.supply.files es)
  names : w.supply.fileId = base.supply.fileId
  count : w.supply.files = base.supply.files + es.length

variable {base : World} {es : List Envelope}

theorem stored_nil (w : World) (dir : List String) : Stored w dir [] w :=
  ⟨(FileTree.deposit_nil _ _).symm, rfl, rfl⟩

theorem Stored.ready (h : Stored base dir es w)
    (hbase : Ready base outbox dir (es.length + count)) :
    Ready w outbox dir count := by
  have hready := hbase.deposited
  refine ⟨h.files ▸ hready.directory, h.files ▸ hready.admits, hready.short, ?_, ?_⟩
  · rw [h.names, h.count]
    exact hready.names.distinct
  · rw [h.names, h.count, h.files]
    exact hready.names.unused

theorem Stored.deposited (h : Stored base dir es w) (more : List Envelope) :
    Stored base dir (es ++ more) (w.deposited dir more) := by
  refine ⟨?_, h.names, ?_⟩
  · rw [deposits_append, FileTree.deposit_append, ← h.files, ← h.names, ← h.count]
    rfl
  · rw [List.length_append, ← Nat.add_assoc, ← h.count]
    rfl

end Outbox

end CrashCourier
