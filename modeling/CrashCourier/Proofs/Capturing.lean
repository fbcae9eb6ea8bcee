import CrashCourier.Command.Run
import CrashCourier.Proofs.Directories
import CrashCourier.Proofs.Handoff.Events
import CrashCourier.Proofs.Handoff.Outbox
import CrashCourier.Proofs.Sessions
import CrashCourier.Proofs.Startup

namespace CrashCourier.Command

open FileTree (Gains)

/-- The tree with the outbox and with the database beside it. -/
def capturingTree (t : FileTree) (outbox : String) : FileTree :=
  ((t.makeDirectories outbox).2.makeDirectories (Startup.databasePath outbox)).2

/-- The world in which the envelope is stored: the worker has its thread, and the identifier of the
event is used up. -/
def capturingWorld (w : World) (outbox : String) : World :=
  { w.startThread.2.nextEventId.2 with files := capturingTree w.files outbox }

def testEnvelope (w : World) (dsn message : String) : Envelope :=
  Site.envelopeOf { dsn := some dsn } Scope.fresh w.nextEventId.1 w.supply.moment
    (testEvent message)

/-- One file is new, and every other is what it was. -/
structure NewFile (before after : FileTree) (dir : List String) (file : String × Bytes) :
    Prop where
  unused : before.find? (dir ++ [file.1]) = none
  listed : after.filesOf dir = before.filesOf dir ++ [file]
  elsewhere : ∀ p content, p ≠ dir ++ [file.1] →
    (after.find? p = some (.file content) ↔ before.find? p = some (.file content))

/-- One new file in an outbox, which holds the envelope of an event. -/
def Delivered (before after : FileTree) (outbox : String) (id : Uuid) : Prop :=
  ∃ dir file e, after.directoryOf outbox = some dir ∧ NewFile before after dir file ∧
    Envelope.ofWire file.2 = .ok e ∧ e.eventId = some id

variable {w w' : World} {outbox dsn message : String} {debug : Bool} {id : Uuid}

/-- The options of the session in which the event is captured. -/
def captureOptions (outbox dsn : String) (debug : Bool) : Options where
  dsn := some dsn
  debug
  databasePath := Startup.databasePath outbox
  transport := some (Transport.toOutbox (Buffer.ofText outbox))

theorem captureInto_of_made {made : FileTree}
    (hmade : w.files.makeDirectories outbox = (.ok (), made)) :
    captureInto w outbox dsn message debug =
      match ({ world := { w with files := made } } : Site).start (captureOptions outbox dsn debug)
      with
      | (.error e, s) => (.error (.engine e), s.world)
      | (.ok (), s) =>
        (match (s.capture (testEvent message)).1 with
          | some id => .ok id
          | none => .error (.words "Event was not captured"),
          (s.capture (testEvent message)).2.close.world) := by
  simp only [captureInto, hmade]
  rfl

/-- Once the system has prepared the session the event is captured. The session ends before the
answer is given, so the envelope was stored or lost by then. -/
theorem captureInto_of_prepared {made files : FileTree}
    (hmade : w.files.makeDirectories outbox = (.ok (), made))
    (hdatabase : made.makeDirectories (Startup.databasePath outbox) = (.ok (), files))
    (hthread : w.supply.threadError w.supply.threads = none) :
    captureInto w outbox dsn message debug = (.ok w.nextEventId.1,
      (Transport.toOutbox (Buffer.ofText outbox)).drop (Outbox.store (testEnvelope w dsn message)
        (some (.outbox (Buffer.ofText outbox))) (capturingWorld w outbox))) := by
  have hprepare : Site.prepare (captureOptions outbox dsn debug)
      { world := { w with files := made } } =
        (.ok (), { world := { w.startThread.2 with files } }) :=
    (Site.prepare_of_made hdatabase).trans (Site.startThread_of_none hthread)
  have hstart := Site.start_ok (s := { world := { w with files := made } }) hprepare
  have htree : capturingTree w.files outbox = files := by rw [capturingTree, hmade, hdatabase]
  rw [captureInto_of_made hmade, hstart, capturingWorld, htree]
  rfl

theorem captureInto_ok (h : captureInto w outbox dsn message debug = (.ok id, w')) :
    (w.files.makeDirectories outbox).1 = .ok () ∧ id = w.nextEventId.1 ∧
      w'.files = (Outbox.store (testEnvelope w dsn message)
        (some (.outbox (Buffer.ofText outbox))) (capturingWorld w outbox)).files := by
  rcases hmade : w.files.makeDirectories outbox with ⟨e | ⟨⟩, made⟩
  · simp [captureInto, hmade] at h
  · rcases hstart : ({ world := { w with files := made } } : Site).start
      (captureOptions outbox dsn debug) with ⟨e | ⟨⟩, s⟩
    · simp [captureInto_of_made hmade, hstart] at h
    · have hprepared := Site.result_start { world := { w with files := made } }
        (captureOptions outbox dsn debug)
      rw [hstart] at hprepared
      obtain ⟨hdatabase, hthread⟩ := Site.of_prepare_ok hprepared.symm rfl
      rw [captureInto_of_prepared hmade (Prod.ext hdatabase rfl) hthread] at h
      obtain ⟨hid, hworld⟩ := Prod.mk.inj h
      refine ⟨rfl, (Except.ok.inj hid).symm, ?_⟩
      rw [← hworld, Transport.files_drop]

/-- The working directory by way of itself. -/
def dots : Nat → String
  | 0 => "."
  | n + 1 => dots n ++ "/" ++ "."

theorem dots_ne_empty (n : Nat) : dots n ≠ "" := by
  intro h
  have hlist := congrArg String.toList h
  cases n with
  | zero => simp [dots] at hlist
  | succ n => simp [dots] at hlist

theorem length_dots (n : Nat) : Text.length (dots n) = 2 * n + 1 := by
  have hone : Text.length "/" = 1 ∧ Text.length "." = 1 := by decide
  induction n with
  | zero => exact hone.2
  | succ n ih =>
    simp only [Text.length, dots, String.utf8ByteSize_append] at ih hone ⊢
    omega

theorem nul_notMem_dots (n : Nat) : '\x00' ∉ (dots n).toList := by
  have hone : '\x00' ∉ "/".toList ∧ '\x00' ∉ ".".toList := by decide
  induction n with
  | zero => exact hone.2
  | succ n ih =>
    simp only [dots, String.toList_append, List.mem_append, not_or]
    exact ⟨⟨ih, hone.1⟩, hone.2⟩

theorem ofText_dots (n : Nat) :
    Route.ofText (dots n) = ⟨false, List.replicate (n + 1) ".", false⟩ := by
  induction n with
  | zero => decide
  | succ n ih =>
    rw [dots, Route.ofText_slash (dots_ne_empty n) (by decide) (by decide), ih]
    simp only [List.replicate_succ' (n := n + 1)]

theorem walk_dots (t : FileTree) (cur : List String) (n : Nat) (ps : List String) :
    t.walk cur (List.replicate n "." ++ ps) = t.walk cur ps := by
  induction n with
  | zero => rfl
  | succ n ih => rw [List.replicate_succ, List.cons_append, FileTree.walk, if_pos rfl, ih]

/-- By way of the working directory one gets to the names in it. -/
theorem makeDirectories_dots {t : FileTree} {name : String} {n : Nat}
    (hname : FileTree.IsFileName name)
    (hshort : Text.length (dots n ++ "/" ++ name) ≤ FileTree.pathLimit)
    (hfree : t.find? (t.workDir ++ [name]) = none)
    (hallowed : t.refuses? (t.workDir ++ [name]) .directory = none) :
    t.makeDirectories (dots n ++ "/" ++ name) =
      (.ok (), t.put (t.workDir ++ [name]) .directory) := by
  have hempty : dots n ++ "/" ++ name ≠ "" := by
    intro h
    simpa using congrArg String.toList h
  have hnul : '\x00' ∉ (dots n ++ "/" ++ name).toList := by
    have hslash : '\x00' ∉ "/".toList := by decide
    simp only [String.toList_append, List.mem_append, not_or]
    exact ⟨⟨nul_notMem_dots n, hslash⟩, hname.nul⟩
  have hroute : FileTree.route (dots n ++ "/" ++ name) =
      .ok ⟨false, List.replicate (n + 1) "." ++ [name], false⟩ := by
    rw [FileTree.route_of_short hnul hempty hshort,
      Route.ofText_slash (dots_ne_empty n) hname.empty hname.slash, ofText_dots]
  have hwalk : t.walk t.workDir (List.replicate (n + 1) "." ++ [name]) =
      .ok (.child t.workDir name) := by
    rw [walk_dots, FileTree.walk, if_neg hname.dot, if_neg hname.dots, if_pos rfl]
  have hfit : (FileTree.Place.child t.workDir name).fit = .ok (.child t.workDir name) := by
    rw [FileTree.Place.fit, if_neg (Nat.not_lt.mpr hname.short)]
  have hlocate : t.locate ⟨false, List.replicate (n + 1) "." ++ [name], false⟩ =
      .ok (.child t.workDir name) := by
    rw [FileTree.locate, FileTree.reach, if_neg Bool.false_ne_true, hwalk]
    exact hfit
  have hmake : t.makeDirectoryAt ⟨false, List.replicate (n + 1) "." ++ [name], false⟩ =
      .ok (t.put (t.workDir ++ [name]) .directory) := by
    simp only [FileTree.makeDirectoryAt, hlocate, bind, Except.bind, hfree, hallowed]
  simp only [FileTree.makeDirectories, if_neg hempty, hroute, FileTree.makeDirectoriesAt, hmake]

/-- The tree in which the envelope is stored has the files that were there. -/
theorem gains_capturingTree (t : FileTree) (outbox : String) : Gains t (capturingTree t outbox) :=
  (t.gains_makeDirectories outbox).trans (FileTree.gains_makeDirectories _ _)

/-- Where there is no room for names the envelope is lost, and no file is new. -/
theorem gains_store_of_long (h : Outbox.pathLimit < Outbox.pathSize outbox) (e : Envelope)
    (w : World) : Gains w.files
      (Outbox.store e (some (.outbox (Buffer.ofText outbox))) (capturingWorld w outbox)).files := by
  simp only [Outbox.store, Buffer.text?_ofText, World.nextFileId, Outbox.envelopePath, if_pos h]
  exact gains_capturingTree w.files outbox

theorem not_delivered_of_gains {before after : FileTree} (h : Gains before after) :
    ¬ Delivered before after outbox id := by
  rintro ⟨dir, file, e, -, hnew, -⟩
  have hlisted := hnew.listed
  rw [h.files dir] at hlisted
  simp at hlisted

theorem newFile_deposit {t made : FileTree} {dir : List String} {file : String × Bytes}
    (h : Gains t made) (hfree : made.find? (dir ++ [file.1]) = none) :
    NewFile t (made.deposit dir [file]) dir file where
  unused := by
    rcases h.entries (dir ++ [file.1]) with hsame | ⟨hnone, -⟩
    · exact hsame.symm.trans hfree
    · exact hnone
  listed := by rw [FileTree.filesOf_deposit, h.files]
  elsewhere := by
    intro p content hp
    rw [FileTree.find?_deposit_of_ne (by simpa using Ne.symm hp)]
    exact h.find?_file

/-- The envelope of the event is read back, and tells the identifier that was given out. -/
theorem ofWire_testEnvelope
    (hfits : ∀ i ∈ (testEnvelope w dsn message).items, EnvelopeItem.Addressable i.payload) :
    Envelope.ofWire (testEnvelope w dsn message).wire = .ok (testEnvelope w dsn message) ∧
      (testEnvelope w dsn message).eventId = some w.nextEventId.1 := by
  have hobject : Site.isObject (testEvent message) = true := rfl
  have hnamed := Scope.fresh.named_enrich (Site.named_complete { dsn := some dsn }
    w.nextEventId.1 w.supply.moment hobject)
  have hfit := hfits _ (List.mem_singleton_self _)
  exact ⟨Envelope.ofWire_ofEvent hnamed hfit, Envelope.eventId_ofEvent hnamed⟩

theorem gains_captureInto_of_long (h : captureInto w outbox dsn message debug = (.ok id, w'))
    (hlong : Outbox.pathLimit < Outbox.pathSize outbox) : Gains w.files w'.files := by
  obtain ⟨-, -, hfiles⟩ := captureInto_ok h
  rw [hfiles]
  exact gains_store_of_long hlong _ w

/-- With room for names, the outbox gets of the file what the system lets through. -/
theorem files_captureInto_of_short (h : captureInto w outbox dsn message debug = (.ok id, w'))
    {dir : List String} (hdir : (capturingTree w.files outbox).directoryOf outbox = some dir)
    (hshort : Outbox.pathSize outbox ≤ Outbox.pathLimit)
    (hname : (capturingTree w.files outbox).find?
      (dir ++ [(w.supply.fileId w.supply.files).hyphenated]) = none) :
    let name := (w.supply.fileId w.supply.files).hyphenated
    let content := (testEnvelope w dsn message).wire
    let made := capturingTree w.files outbox
    w'.files = made.deposit dir
      ((made.writtenOf (dir ++ [name]) content).toList.map fun b => (name, b)) := by
  intro name content made
  obtain ⟨-, -, hfiles⟩ := captureInto_ok h
  rw [hfiles, Outbox.store_eq (w := capturingWorld w outbox) hdir hshort
    (Buffer.text?_ofText outbox) hname]
  rfl

theorem directoryOf_capturingTree (h : captureInto w outbox dsn message debug = (.ok id, w'))
    (hempty : outbox ≠ "") :
    ∃ dir, (capturingTree w.files outbox).directoryOf outbox = some dir := by
  obtain ⟨hmade, -, -⟩ := captureInto_ok h
  obtain ⟨dir, hdir⟩ := FileTree.directoryOf_makeDirectories hempty hmade
  exact ⟨dir, (FileTree.gains_makeDirectories _ _).keeps.directoryOf hdir⟩

/-- The whole envelope is stored where nothing is against it. -/
theorem delivered_of_allowed (h : captureInto w outbox dsn message debug = (.ok id, w'))
    {dir : List String} (hdir : (capturingTree w.files outbox).directoryOf outbox = some dir)
    (hshort : Outbox.pathSize outbox ≤ Outbox.pathLimit)
    (hname : (capturingTree w.files outbox).find?
      (dir ++ [(w.supply.fileId w.supply.files).hyphenated]) = none)
    (hfits : ∀ i ∈ (testEnvelope w dsn message).items, EnvelopeItem.Addressable i.payload)
    (hallowed : (capturingTree w.files outbox).refuses?
      (dir ++ [(w.supply.fileId w.supply.files).hyphenated])
      (.file (testEnvelope w dsn message).wire) = none) :
    Delivered w.files w'.files outbox id := by
  let file := ((w.supply.fileId w.supply.files).hyphenated, (testEnvelope w dsn message).wire)
  have hwhole : w'.files = (capturingTree w.files outbox).deposit dir [file] := by
    rw [files_captureInto_of_short h hdir hshort hname, FileTree.writtenOf, hallowed]
    rfl
  obtain ⟨-, rfl, -⟩ := captureInto_ok h
  obtain ⟨hread, hid⟩ := ofWire_testEnvelope hfits
  refine ⟨dir, file, testEnvelope w dsn message, ?_, ?_, hread, hid⟩
  · rw [hwhole]
    exact (FileTree.keeps_deposit _ _ _).directoryOf hdir
  · rw [hwhole]
    exact newFile_deposit (gains_capturingTree w.files outbox) hname

/-- If a capture succeeds and the system does not refuse the file of the envelope, the event is in
the outbox unless the path of the outbox leaves no room for the name of an envelope, or there is no
path. Without that room nothing is written. Of a file that the system refuses there is what it lets
through, if anything, and the answer is the same. -/
theorem delivered_iff (h : captureInto w outbox dsn message debug = (.ok id, w'))
    (hname : ∀ dir, (capturingTree w.files outbox).find?
      (dir ++ [(w.supply.fileId w.supply.files).hyphenated]) = none)
    (hfits : ∀ i ∈ (testEnvelope w dsn message).items, EnvelopeItem.Addressable i.payload) :
    let name := (w.supply.fileId w.supply.files).hyphenated
    let content := (testEnvelope w dsn message).wire
    let made := capturingTree w.files outbox
    ((∀ dir, made.directoryOf outbox = some dir →
        made.refuses? (dir ++ [name]) (.file content) = none) →
      (Delivered w.files w'.files outbox id ↔
        outbox ≠ "" ∧ Outbox.pathSize outbox ≤ Outbox.pathLimit)) ∧
    (Outbox.pathLimit < Outbox.pathSize outbox → Gains w.files w'.files) ∧
    ∀ dir refusal, made.directoryOf outbox = some dir →
      Outbox.pathSize outbox ≤ Outbox.pathLimit →
      made.refuses? (dir ++ [name]) (.file content) = some refusal →
      match refusal.written with
      | none => Gains w.files w'.files
      | some n => NewFile w.files w'.files dir (name, content.take n) := by
  intro name content made
  refine ⟨fun hallowed => ⟨fun hdelivered => ?_, ?_⟩, gains_captureInto_of_long h,
    fun dir refusal hdir hshort hrefused => ?_⟩
  · refine ⟨?_, Nat.not_lt.mp fun hlong =>
      not_delivered_of_gains (gains_captureInto_of_long h hlong) hdelivered⟩
    obtain ⟨dir, file, e, hdir, -⟩ := hdelivered
    obtain ⟨place, hroute, -⟩ := FileTree.directoryOf_eq_some hdir
    exact (FileTree.route_ok hroute).2.1
  · rintro ⟨hempty, hshort⟩
    obtain ⟨dir, hdir⟩ := directoryOf_capturingTree h hempty
    exact delivered_of_allowed h hdir hshort (hname dir) hfits (hallowed dir hdir)
  · have hleft := files_captureInto_of_short h hdir hshort (hname dir)
    dsimp only at hleft
    rw [FileTree.writtenOf, hrefused] at hleft
    have hgains : Gains w.files made := gains_capturingTree w.files outbox
    obtain ⟨error, _ | n⟩ := refusal
    · have hnothing : w'.files = made := hleft.trans (FileTree.deposit_nil made dir)
      rw [hnothing]
      exact hgains
    · have hpart : w'.files = made.deposit dir [(name, content.take n)] := hleft
      rw [hpart]
      exact newFile_deposit hgains (hname dir)

/-- A working directory in which nothing is. -/
def emptyWorld : World where
  files := .withWorkDir "home"
  supply := .numbered ""

theorem delivered_iff_atHome :
    Delivered emptyWorld.files
      (captureInto emptyWorld "ob" "https://k@o.invalid/1" "test event" false).2.files "ob"
      (Uuid.numbered 0) := by
  have hcaptured : captureInto emptyWorld "ob" "https://k@o.invalid/1" "test event" false =
      (.ok (Uuid.numbered 0),
        (captureInto emptyWorld "ob" "https://k@o.invalid/1" "test event" false).2) :=
    Prod.ext (by rfl) rfl
  have hname : ∀ dir, (capturingTree emptyWorld.files "ob").find?
      (dir ++ [(emptyWorld.supply.fileId emptyWorld.supply.files).hyphenated]) = none := by
    refine FileTree.find?_concat_eq_none ?_
    decide +kernel
  have hfits : ∀ i ∈ (testEnvelope emptyWorld "https://k@o.invalid/1" "test event").items,
      EnvelopeItem.Addressable i.payload := by
    decide +kernel
  exact ((delivered_iff hcaptured hname hfits).1 fun _ _ => rfl).mpr ⟨by decide, by decide⟩

/-- The directories can be made where the path of the envelope is too long. -/
theorem exists_undelivered :
    ∃ w', captureInto emptyWorld (dots 2029 ++ "/" ++ "ob") "https://k@o.invalid/1" "test event"
        false = (.ok (Uuid.numbered 0), w') ∧
      ¬ Delivered emptyWorld.files w'.files (dots 2029 ++ "/" ++ "ob") (Uuid.numbered 0) := by
  have hlength : ∀ name, Text.length (dots 2029 ++ "/" ++ name) = 4060 + Text.length name := by
    intro name
    have hslash : Text.length "/" = 1 := by decide
    have hdots := length_dots 2029
    simp only [Text.length, String.utf8ByteSize_append] at hslash hdots ⊢
    omega
  have hob : FileTree.IsFileName "ob" := by constructor <;> decide
  have hbase : FileTree.IsFileName Startup.databaseName := by constructor <;> decide
  have hmade := makeDirectories_dots (t := emptyWorld.files) (n := 2029) hob
    (by rw [hlength]; decide) (by decide) rfl
  have hdatabase := makeDirectories_dots (n := 2029) (t := emptyWorld.files.put
    (emptyWorld.files.workDir ++ ["ob"]) .directory) hbase (by rw [hlength]; decide) (by decide) rfl
  rw [← Startup.databasePath_slash _ hob.slash] at hdatabase
  have hlong : Outbox.pathLimit < Outbox.pathSize (dots 2029 ++ "/" ++ "ob") := by
    rw [Outbox.pathSize, hlength]
    decide
  refine ⟨_, captureInto_of_prepared hmade hdatabase rfl, not_delivered_of_gains ?_⟩
  rw [Transport.files_drop]
  exact gains_store_of_long hlong _ emptyWorld

end CrashCourier.Command
