import CrashCourier.Proofs.Handoff.Session
import CrashCourier.Proofs.StartFrom
import CrashCourier.Proofs.Startup
import Mathlib.Data.List.Forall2

namespace CrashCourier

namespace CaptureCall

/-- The text of the event is no longer than a process can address. -/
def Addressable (c : CaptureCall) : Prop :=
  ∀ id, c.answer = some id → EnvelopeItem.Addressable (Json.compact (c.enriched id))

/-- A file named by an identifier, with the envelope of the event that a call has captured. -/
structure InFile (c : CaptureCall) (dsn : String) (file : String × Bytes) : Prop where
  name : ∃ u : Uuid, file.1 = u.hyphenated
  envelope : ∃ id e i, c.answer = some id ∧ Envelope.ofWire file.2 = .ok e ∧
    e.eventId = some id ∧ e.headers.get "dsn" = .string dsn ∧ e.items = [i] ∧
    i.type = "event" ∧ i.payload = Json.compact (c.enriched id)

variable {c : CaptureCall} {dsn : String}

theorem named_enriched (h : c.taken = true) (id : Uuid) : (c.enriched id).Named id := by
  simp only [taken, Bool.and_eq_true] at h
  exact Scope.named_enrich _ (Site.named_complete _ id _ h.2)

/-- An event that is taken leaves in an envelope that tells its identifier. -/
theorem inFile (h : c.taken = true) (hdsn : c.site.options.bind Options.dsn = some dsn)
    (haddressable : c.Addressable) (name : Uuid) :
    ∃ e, c.envelope? = some e ∧ c.InFile dsn (name.hyphenated, e.wire) := by
  obtain ⟨id, hid⟩ := Option.isSome_iff_exists.mp (c.answer_isSome.trans h)
  have hnamed := c.named_enriched h id
  refine ⟨Envelope.ofEvent (c.enriched id) (some dsn) c.site.world.supply.moment, ?_, ⟨name, rfl⟩,
    id, _, _, hid, Envelope.ofWire_ofEvent hnamed (haddressable id hid),
    Envelope.eventId_ofEvent hnamed, ?_, rfl, ?_, rfl⟩
  · rw [envelope?, if_pos h, hid, hdsn]
    rfl
  · rw [Envelope.headers_ofEvent hnamed]
    rfl
  · rw [EnvelopeItem.type, Envelope.headers_ofPayload]
    rfl

theorem envelope?_of_not_taken (h : ¬ c.taken = true) : c.envelope? = none := by
  rw [envelope?, if_neg h]

/-- One file for each call that is taken, in the order of the calls. -/
theorem inFiles (names : Nat → Uuid) (n : Nat) {calls : List CaptureCall}
    (hdsn : ∀ c ∈ calls, c.taken = true → c.site.options.bind Options.dsn = some dsn)
    (haddressable : ∀ c ∈ calls, c.Addressable) :
    List.Forall₂ (fun c f => InFile c dsn f) (calls.filter taken)
      (Outbox.deposits names n (calls.filterMap envelope?)) := by
  induction calls generalizing n with
  | nil => exact .nil
  | cons c calls ih =>
    obtain ⟨hc, hcalls⟩ := List.forall_mem_cons.mp hdsn
    obtain ⟨hfits, haddressable⟩ := List.forall_mem_cons.mp haddressable
    by_cases h : c.taken = true
    · obtain ⟨e, he, hfile⟩ := c.inFile h (hc h) hfits (names n)
      rw [List.filter_cons_of_pos h, List.filterMap_cons_some he]
      exact .cons hfile (ih (n + 1) hcalls haddressable)
    · rw [List.filter_cons_of_neg h, List.filterMap_cons_none (envelope?_of_not_taken h)]
      exact ih n hcalls haddressable

end CaptureCall

/-- What some calls have added to an outbox: a file of a new name for each that is taken, and
nothing anywhere else. -/
structure HandedOver (dsn outbox : String) (calls : List CaptureCall) (before after : FileTree)
    (dir : List String) (added : List (String × Bytes)) : Prop where
  directory : before.directoryOf outbox = some dir
  listed : ∃ old, before.filesIn outbox = .ok old ∧ after.filesIn outbox = .ok (old ++ added)
  each : List.Forall₂ (fun c f => CaptureCall.InFile c dsn f) (calls.filter CaptureCall.taken) added
  distinct : (added.map Prod.fst).Nodup
  unused : ∀ f ∈ added, before.find? (dir ++ [f.1]) = none
  elsewhere : ∀ p, (∀ f ∈ added, p ≠ dir ++ [f.1]) → after.find? p = before.find? p

namespace Outbox

variable {base w : World} {outbox dsn : String} {dir : List String}

theorem mem_deposits {names : Nat → Uuid} {n : Nat} {es : List Envelope} {f : String × Bytes}
    (h : f ∈ deposits names n es) : ∃ k, k < es.length ∧ f.1 = (names (n + k)).hyphenated := by
  induction es generalizing n with
  | nil => simp [deposits] at h
  | cons e es ih =>
    rcases List.mem_cons.mp h with rfl | h
    · exact ⟨0, Nat.succ_pos _, rfl⟩
    · obtain ⟨k, hk, hname⟩ := ih h
      refine ⟨k + 1, Nat.succ_lt_succ hk, ?_⟩
      rw [hname, Nat.add_assoc, Nat.add_comm 1]

theorem nodup_deposits {names : Nat → Uuid} {n : Nat} {es : List Envelope}
    (h : ∀ j k, j < es.length → k < es.length → names (n + j) = names (n + k) → j = k) :
    ((deposits names n es).map Prod.fst).Nodup := by
  induction es generalizing n with
  | nil => exact List.nodup_nil
  | cons e es ih =>
    have hnext : ∀ k, n + 1 + k = n + (k + 1) := fun k => by omega
    rw [List.length_cons] at h
    refine List.nodup_cons.mpr ⟨fun hm => ?_, ih fun j k hj hk hsame => ?_⟩
    · obtain ⟨f, hf, hname⟩ := List.mem_map.mp hm
      obtain ⟨k, hk, hf⟩ := mem_deposits hf
      rw [hnext] at hf
      have hzero := h (k + 1) 0 (by omega) (by omega)
        (Uuid.hyphenated_injective (hf.symm.trans hname))
      omega
    · have heq := h (j + 1) (k + 1) (by omega) (by omega) (by simpa only [hnext] using hsame)
      omega

theorem Stored.handedOver {calls : List CaptureCall}
    (hbase : Ready base outbox dir (calls.filterMap CaptureCall.envelope?).length)
    (h : Stored base dir (calls.filterMap CaptureCall.envelope?) w)
    (hdsn : ∀ c ∈ calls, c.taken = true → c.site.options.bind Options.dsn = some dsn)
    (haddressable : ∀ c ∈ calls, c.Addressable) :
    ∃ added, HandedOver dsn outbox calls base.files w.files dir added := by
  refine ⟨deposits base.supply.fileId base.supply.files (calls.filterMap CaptureCall.envelope?),
    hbase.directory, ⟨base.files.filesOf dir, ?_, ?_⟩, ?_, ?_, ?_, ?_⟩
  · exact FileTree.filesIn_of_directoryOf hbase.directory
  · have hready : Ready w outbox dir 0 := h.ready hbase
    rw [FileTree.filesIn_of_directoryOf hready.directory, h.files, FileTree.filesOf_deposit]
  · exact CaptureCall.inFiles _ _ hdsn haddressable
  · exact nodup_deposits hbase.names.distinct
  · intro f hf
    obtain ⟨k, hk, hname⟩ := mem_deposits hf
    rw [hname]
    exact hbase.names.unused k hk
  · intro p hp
    rw [h.files]
    exact FileTree.find?_deposit_of_ne fun f hf => (hp f hf).symm

end Outbox

def Options.outbox? (o : Options) : Option String :=
  match o.transport with
  | some ⟨.outbox, some (.outbox buffer), _⟩ => buffer.text?
  | _ => none

theorem CaptureCall.length_envelopes (calls : List CaptureCall) :
    (calls.filterMap CaptureCall.envelope?).length = calls.countP CaptureCall.taken := by
  rw [List.length_filterMap_eq_countP]
  congr 1
  funext c
  cases h : c.taken with
  | true =>
    obtain ⟨id, hid⟩ := Option.isSome_iff_exists.mp (c.answer_isSome.trans h)
    simp [envelope?, h, hid]
  | false => simp [envelope?, h]

namespace Reporter

open Managed

variable {σ ρ : Type} [Host σ ρ] {thread : Nat} {object : ρ} {r r' : Reporter} {h : σ}
  {o : Options} {outbox dsn : String}

/-- A start that succeeds leaves a session whose worker stores envelopes in the outbox. -/
theorem running_of_startFrom (hoptions : optionsFrom object h = .ok o)
    (houtbox : o.outbox? = some outbox) (hstart : after (startFrom thread object) r h = r')
    (hok : r'.lastErrors.text thread = none) :
    ∃ buffer, buffer.text? = some outbox ∧
      FileTree.Keeps r.site.world.files r'.site.world.files ∧
      r'.site.engine.session =
        some ⟨{ o with transport := none }, some (.running (.toOutbox buffer) [])⟩ := by
  obtain ⟨buffer, text, -, htext, -, htransport, -⟩ := Startup.readOptions_ok
    (Prod.ext hoptions rfl : (Startup.readOptions object).run.run h = (.ok o, _))
  have hbuffer : buffer.text? = some outbox := by
    simpa [Options.outbox?, htransport, Transport.toOutbox] using houtbox
  subst hstart
  have hafter : after (startFrom thread object) r h = _ := after_startFrom_read hoptions
  have hkeeps := r.site.keeps_start o
  rcases hresult : (r.site.start o).1 with e | ⟨⟩
  · rw [hresult] at hafter
    rw [hafter] at hok
    simp [LastErrors.record] at hok
  · rw [hresult] at hafter
    rw [hafter]
    refine ⟨buffer, hbuffer, hkeeps, ?_⟩
    rw [Site.engine_start_ok hresult]
    simp [Session.ofOptions, htransport, Worker.start]

/-- After a start that succeeds, once a flush says that all is delivered or the session has ended,
each object captured since the start is one new file in the outbox of the options: if the outbox is
a directory that exists and in which files can be written, on a path that leaves room for names, and
the names are fresh. -/
theorem handedOver_of_startFrom (hoptions : optionsFrom object h = .ok o)
    (houtbox : o.outbox? = some outbox) (hdsn : o.dsn = some dsn)
    (hstart : after (startFrom thread object) r h = r') (hok : r'.lastErrors.text thread = none)
    (hdirectory : r.site.world.files.isDirectory outbox = true)
    (hshort : Text.length outbox + 38 ≤ 4096)
    (hadmits : ∀ dir, r'.site.world.files.directoryOf outbox = some dir →
      r'.site.world.files.Admits dir) (ds : List EngineCall)
    (hnames : ∀ dir, r'.site.world.files.directoryOf outbox = some dir →
      r'.site.world.FreshNames dir ((r'.site.captures ds).countP CaptureCall.taken))
    (haddressable : ∀ c ∈ r'.site.captures ds, c.Addressable) {s : Site}
    (hdone : (r'.site.acts ds).flush = (true, s) ∨ (r'.site.acts ds).close = s) :
    ∃ dir added, HandedOver dsn outbox (r'.site.captures ds) r'.site.world.files s.world.files
      dir added := by
  obtain ⟨buffer, hbuffer, hkeeps, hsession⟩ := running_of_startFrom hoptions houtbox hstart hok
  obtain ⟨dir, hdir⟩ := FileTree.directoryOf_of_isDirectory hdirectory
  have hbase : Outbox.Ready r'.site.world outbox dir
      ((r'.site.captures ds).filterMap CaptureCall.envelope?).length :=
    ⟨hkeeps.directoryOf hdir, hadmits dir (hkeeps.directoryOf hdir), hshort,
      CaptureCall.length_envelopes _ ▸ hnames dir (hkeeps.directoryOf hdir)⟩
  have hprogress : Site.DeliveryProgress r'.site.world dir { o with transport := none } buffer []
      r'.site :=
    .running [] [] rfl (Outbox.stored_nil _ _) hsession
  have hend := hprogress.acts (by simpa using hbase) hbuffer
  rw [List.nil_append] at hend
  have hstored : Outbox.Stored r'.site.world dir
      ((r'.site.captures ds).filterMap CaptureCall.envelope?) s.world := by
    rcases hdone with hflush | rfl
    · have hstored := (hend.flush hbase hbuffer).2
      rw [hflush] at hstored
      exact hstored rfl
    · exact (hend.close hbase hbuffer).2
  refine ⟨dir, hstored.handedOver hbase (fun c hc htaken => ?_) haddressable⟩
  rw [Site.options_of_mem_captures hc htaken, Site.options, hsession]
  exact hdsn

/-- A reporter without a session, in a working directory with an outbox. -/
def idle : Reporter where
  site := {
    world := {
      files := {
        workDir := ["w"]
        entries := [(["w"], .directory), (["w", "data"], .directory),
          (["w", "data", "outbox"], .directory)] }
      supply := .numbered "" } }

def complete : Heap :=
  { objects := [.options { outboxPath := some "data/outbox", dsn := some "https://k@host/1" }] }

/-- Two objects, one with an identifier of its own, a text, and an object after the end. -/
def mixed : List EngineCall :=
  [.capture (.object [("message", .string "one")]), .change (.setTag "k" "v"), .work,
    .capture (.string "two"), .wait "later", .capture (.object [("event_id", .string "old")]),
    .shutDown, .capture (.object [])]

theorem handedOver_of_startFrom_mixed :
    let r' := after (startFrom 0 (⟨1⟩ : Reference)) idle complete
    (r'.site.captures mixed).countP CaptureCall.taken = 2 ∧
      ∃ dir added, HandedOver "https://k@host/1" "data/outbox" (r'.site.captures mixed)
        r'.site.world.files (r'.site.acts mixed).close.world.files dir added := by
  intro r'
  have hread : ((optionsFrom (⟨1⟩ : Reference) complete).toOption.map fun o =>
      (o.outbox?, o.dsn)) = some (some "data/outbox", some "https://k@host/1") := by
    decide +kernel
  have hstart : after (startFrom 0 (⟨1⟩ : Reference)) idle complete = r' := rfl
  have hcount : (r'.site.captures mixed).countP CaptureCall.taken = 2 := by decide +kernel
  have hdir : r'.site.world.files.directoryOf "data/outbox" = some ["w", "data", "outbox"] := by
    decide +kernel
  have hdistinct : ∀ j < 2, ∀ k < 2, r'.site.world.supply.fileId (r'.site.world.supply.files + j) =
      r'.site.world.supply.fileId (r'.site.world.supply.files + k) → j = k := by decide +kernel
  have hunused : ∀ k < 2, r'.site.world.files.find? (["w", "data", "outbox"] ++
      [(r'.site.world.supply.fileId (r'.site.world.supply.files + k)).hyphenated]) = none := by
    decide +kernel
  have hfits : (r'.site.captures mixed).all (fun c => c.answer.all fun id =>
      decide (EnvelopeItem.Addressable (Json.compact (c.enriched id)))) = true := by decide +kernel
  cases hoptions : optionsFrom (⟨1⟩ : Reference) complete with
  | error e =>
    rw [hoptions] at hread
    exact nomatch hread
  | ok o =>
    rw [hoptions] at hread
    obtain ⟨houtbox, hdsn⟩ := Prod.mk.inj (Option.some.inj hread)
    refine ⟨hcount, handedOver_of_startFrom hoptions houtbox hdsn hstart (by decide +kernel)
      (by decide +kernel) (by decide) (fun _ _ _ _ _ => rfl) mixed ?_ ?_ (Or.inr rfl)⟩
    · intro dir h
      obtain rfl := Option.some.inj (hdir.symm.trans h)
      rw [hcount]
      exact ⟨fun j k hj hk => hdistinct j hj k hk, hunused⟩
    · intro c hc id hid
      have hall := List.all_eq_true.mp hfits c hc
      rw [hid] at hall
      exact of_decide_eq_true hall

end Reporter

end CrashCourier
