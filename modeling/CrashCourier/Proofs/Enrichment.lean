import CrashCourier.Engine

namespace CrashCourier

namespace Entries

/-- What a key is set to, from the value that it has; nothing if it stays as it is. -/
abbrev Rule := Option Value → Option Value

def follow (es : Entries) (r : String × Rule) : Entries :=
  match r.2 (lookup es r.1) with
  | some v => insert es r.1 v
  | none => es

def followAll (es : Entries) (rs : List (String × Rule)) : Entries := rs.foldl follow es

/-- A value that is there and not null. -/
def own (es : Entries) (key : String) : Option Value := (lookup es key).filter fun v => !v.isNull

variable {es : Entries} {r : String × Rule} {rs : List (String × Rule)} {key : String}

theorem follow_of_some {v : Value} (h : r.2 (lookup es r.1) = some v) :
    follow es r = insert es r.1 v := by
  rw [follow, h]

theorem follow_of_none (h : r.2 (lookup es r.1) = none) : follow es r = es := by
  rw [follow, h]

theorem lookup_follow (es : Entries) (r : String × Rule) (key : String) :
    lookup (follow es r) key =
      if r.1 = key then (r.2 (lookup es key)).or (lookup es key) else lookup es key := by
  cases hr : r.2 (lookup es r.1) with
  | none =>
    rw [follow_of_none hr]
    by_cases hkey : r.1 = key
    · subst hkey
      simp [hr]
    · simp [hkey]
  | some v =>
    rw [follow_of_some hr, lookup_insert]
    by_cases hkey : r.1 = key
    · subst hkey
      simp [hr]
    · simp [hkey]

theorem keys_follow (es : Entries) (r : String × Rule) :
    keys (follow es r) =
      if r.1 ∉ keys es ∧ (r.2 none).isSome = true then keys es ++ [r.1] else keys es := by
  by_cases hmem : r.1 ∈ keys es
  · rw [if_neg (fun h => h.1 hmem)]
    cases hr : r.2 (lookup es r.1) with
    | none => rw [follow_of_none hr]
    | some v => rw [follow_of_some hr, keys_insert, if_pos hmem]
  · have hnone : lookup es r.1 = none := lookup_eq_none_iff.mpr hmem
    cases hr : r.2 none with
    | none =>
      rw [follow_of_none (by rw [hnone, hr])]
      simp
    | some v =>
      rw [follow_of_some (by rw [hnone, hr]), keys_insert]
      simp [hmem]

theorem followAll_nil (es : Entries) : followAll es [] = es := rfl

theorem followAll_cons (es : Entries) (r : String × Rule) (rs : List (String × Rule)) :
    followAll es (r :: rs) = followAll (follow es r) rs := rfl

theorem followAll_append (es : Entries) (rs more : List (String × Rule)) :
    followAll es (rs ++ more) = followAll (followAll es rs) more := List.foldl_append

/-- A key without a rule keeps its value. -/
theorem lookup_followAll_of_notMem (h : key ∉ rs.map Prod.fst) :
    lookup (followAll es rs) key = lookup es key := by
  induction rs generalizing es with
  | nil => rfl
  | cons r rs ih =>
    have hkey : r.1 ≠ key := fun e => h (e ▸ List.mem_cons_self)
    have hrest : key ∉ rs.map Prod.fst := fun hm => h (List.mem_cons_of_mem _ hm)
    calc lookup (followAll (follow es r) rs) key
        = lookup (follow es r) key := ih hrest
      _ = lookup es key := by rw [lookup_follow, if_neg hkey]

/-- A rule sees the value that the key has had from the beginning. -/
theorem lookup_followAll_of_mem (hdistinct : (rs.map Prod.fst).Nodup) (h : r ∈ rs) :
    lookup (followAll es rs) r.1 = (r.2 (lookup es r.1)).or (lookup es r.1) := by
  induction rs generalizing es with
  | nil => simp at h
  | cons q rs ih =>
    obtain ⟨hq, hrest⟩ := List.nodup_cons.mp (List.map_cons ▸ hdistinct)
    rcases List.mem_cons.mp h with rfl | hmem
    · calc lookup (followAll (follow es r) rs) r.1
          = lookup (follow es r) r.1 := lookup_followAll_of_notMem hq
        _ = (r.2 (lookup es r.1)).or (lookup es r.1) := by rw [lookup_follow, if_pos rfl]
    · have hne : q.1 ≠ r.1 := fun e => hq (e ▸ List.mem_map_of_mem hmem)
      have hsame : lookup (follow es q) r.1 = lookup es r.1 := by
        rw [lookup_follow, if_neg hne]
      rw [← hsame]
      exact ih hrest hmem

/-- Keys that were there keep their places; those that a rule gives to an object without them
follow in the order of the rules. -/
theorem keys_followAll (hdistinct : (rs.map Prod.fst).Nodup) :
    keys (followAll es rs) =
      keys es ++ ((rs.filter fun r => r.1 ∉ keys es ∧ (r.2 none).isSome = true).map Prod.fst) := by
  induction rs generalizing es with
  | nil => simp [followAll]
  | cons r rs ih =>
    obtain ⟨hr, hrest⟩ := List.nodup_cons.mp (List.map_cons ▸ hdistinct)
    rw [followAll_cons, ih hrest, keys_follow]
    by_cases hadds : r.1 ∉ keys es ∧ (r.2 none).isSome = true
    · rw [if_pos hadds, List.filter_cons_of_pos (by simpa using hadds), List.map_cons,
        List.append_assoc, List.singleton_append]
      congr 3
      refine List.filter_congr fun q hq => ?_
      have hne : q.1 ≠ r.1 := fun e => hr (e ▸ List.mem_map_of_mem hq)
      simp [hne]
    · rw [if_neg hadds, List.filter_cons_of_neg (by simpa using hadds)]

/-- The keys that rules add, by what they give to an object without them. -/
theorem keys_followAll_of_offers {offers : List (String × Bool)}
    (hdistinct : (rs.map Prod.fst).Nodup)
    (hoffers : offers = rs.map fun r => (r.1, (r.2 none).isSome)) :
    keys (followAll es rs) =
      keys es ++ (offers.filter fun x => x.1 ∉ keys es ∧ x.2 = true).map Prod.fst := by
  rw [keys_followAll hdistinct, hoffers, List.filter_map, List.map_map]
  rfl

theorem nodup_keys_followAll (h : (keys es).Nodup) : (keys (followAll es rs)).Nodup := by
  induction rs generalizing es with
  | nil => exact h
  | cons r rs ih =>
    refine ih ?_
    cases hr : r.2 (lookup es r.1) with
    | none => rwa [follow_of_none hr]
    | some v =>
      rw [follow_of_some hr]
      exact nodup_keys_insert r.1 v h

/-- Without repeated keys, entries are told by their keys and what is found under these. -/
theorem ext_lookup {es fs : Entries} (hdistinct : (keys es).Nodup) (hkeys : keys es = keys fs)
    (h : ∀ key, lookup es key = lookup fs key) : es = fs := by
  induction es generalizing fs with
  | nil => exact (List.map_eq_nil_iff.mp hkeys.symm).symm
  | cons e es ih =>
    obtain ⟨f, fs, rfl⟩ := List.exists_cons_of_ne_nil
      (fun hnil : fs = [] => by simp [hnil] at hkeys)
    obtain ⟨hkey, hrest⟩ := List.cons.inj (show e.1 :: keys es = f.1 :: keys fs from hkeys)
    obtain ⟨hfresh, hdistinct'⟩ := List.nodup_cons.mp (show (e.1 :: keys es).Nodup from hdistinct)
    obtain ⟨k, v⟩ := e
    obtain ⟨l, w⟩ := f
    obtain rfl : k = l := hkey
    have hvalue : v = w := by
      have hhere := h k
      simpa [lookup] using hhere
    subst hvalue
    congr 1
    refine ih hdistinct' hrest fun key => ?_
    by_cases hk : k = key
    · subst hk
      rw [lookup_eq_none_iff.mpr hfresh, lookup_eq_none_iff.mpr (hrest ▸ hfresh)]
    · have hthere := h key
      simpa [lookup, hk] using hthere

/-- Sets a key whatever it has. -/
def always (x : Option Value) : Rule := fun _ => x

/-- Sets a key that is missing or null. -/
def ifMissing (x : Option Value) : Rule := fun found =>
  if (found.getD .null).isNull then x else none

def objectOr : Option Value → Value
  | some (.object es) => .object es
  | _ => Value.emptyObject

/-- Fills the object under a key with rows, if there are any. -/
def filling (rows : List (String × Value)) : Rule := fun found =>
  if rows.isEmpty then none
  else some (rows.foldl (fun o r => o.setDefault r.1 r.2) (objectOr found))

def history (crumbs : List Value) : Option Value :=
  if crumbs.isEmpty then none else some (Value.emptyObject.set "values" (.list crumbs))

/-- The rules of a session for an event with an identifier. -/
def sessionRules (o : Options) (id : Uuid) (moment : String) : List (String × Rule) :=
  [("event_id", always (some (.string id.simple))),
    ("timestamp", ifMissing (some (.string moment))),
    ("platform", ifMissing (some (.string "native"))),
    ("level", ifMissing (some (.string "error")))] ++
  o.defaults.map fun d => (d.1, ifMissing (d.2.map .string))

def scopeRules (s : Scope) : List (String × Rule) :=
  [("tags", filling s.tagRows), ("extra", filling s.extra.rows), ("user", ifMissing s.user),
    ("breadcrumbs", always (history s.breadcrumbs))]

end Entries

namespace Value

open Entries (follow followAll always ifMissing filling history)

theorem object_follow_ifMissing (es : Entries) (key : String) (x : Value) :
    object (follow es (key, ifMissing (some x))) = (object es).setDefault key x := by
  unfold setDefault
  rw [get_object]
  split
  · next hnull => rw [Entries.follow_of_some (if_pos hnull), set_object]
  · next hnull => rw [Entries.follow_of_none (if_neg hnull)]

theorem follow_ifMissing_none (es : Entries) (key : String) :
    follow es (key, ifMissing none) = es :=
  Entries.follow_of_none (ite_self none)

theorem object_follow_filling (es : Entries) (key : String) (rows : List (String × Value)) :
    object (follow es (key, filling rows)) = Scope.addRows (object es) key rows := by
  have hobject : Entries.objectOr (Entries.lookup es key) = Scope.objectAt (object es) key := by
    unfold Entries.objectOr Scope.objectAt
    rw [get_object]
    cases Entries.lookup es key with
    | none => rfl
    | some v => cases v <;> rfl
  unfold Scope.addRows
  split
  · next hnone => rw [Entries.follow_of_none (if_pos hnone)]
  · next hsome => rw [Entries.follow_of_some (if_neg hsome), hobject, set_object]

theorem object_follow_user (es : Entries) (user : Option Value) :
    object (follow es ("user", ifMissing user)) = Scope.addUser (object es) user := by
  cases user with
  | none => exact congrArg object (follow_ifMissing_none es "user")
  | some u => exact object_follow_ifMissing es "user" u

theorem object_follow_history (es : Entries) (crumbs : List Value) :
    object (follow es ("breadcrumbs", always (history crumbs))) =
      Scope.addHistory (object es) crumbs := by
  cases crumbs <;> rfl

theorem foldl_setDefault (es : Entries) (ds : List (String × Option String)) :
    ds.foldl (fun v d =>
      match d.2 with
      | some text => v.setDefault d.1 (.string text)
      | none => v) (object es) =
        object (followAll es (ds.map fun d => (d.1, ifMissing (d.2.map .string)))) := by
  induction ds generalizing es with
  | nil => rfl
  | cons d ds ih =>
    obtain ⟨key, _ | text⟩ := d
    · have hstay := follow_ifMissing_none es key
      rw [List.map_cons, Entries.followAll_cons, Option.map_none, hstay]
      exact ih es
    · have hset := object_follow_ifMissing es key (.string text)
      rw [List.map_cons, Entries.followAll_cons, List.foldl_cons]
      dsimp only
      rw [← hset]
      exact ih _

end Value

open Entries (followAll sessionRules scopeRules)

theorem Site.complete_object (o : Options) (id : Uuid) (moment : String) (es : Entries) :
    Site.complete o id moment (.object es) = .object (followAll es (sessionRules o id moment)) := by
  rw [sessionRules, Entries.followAll_append]
  refine Eq.trans ?_ (Value.foldl_setDefault _ o.defaults)
  simp only [Entries.followAll_cons, Entries.followAll_nil, Value.object_follow_ifMissing]
  rfl

theorem Scope.enrich_object (s : Scope) (es : Entries) :
    s.enrich (.object es) = .object (followAll es (scopeRules s)) := by
  simp only [Scope.enrich, scopeRules, Entries.followAll_cons, Entries.followAll_nil,
    Value.object_follow_history, Value.object_follow_user, Value.object_follow_filling]

namespace Site

/-- The entries of an object; none for any other value. -/
def entriesOf : Value → Entries
  | .object es => es
  | _ => []

/-- The keys that a session may add to an event, in the order in which it does, and whether it has
something for them. -/
def offers (o : Options) (scope : Scope) : List (String × Bool) :=
  [("event_id", true), ("timestamp", true), ("platform", true), ("level", true),
    ("release", o.release.isSome), ("environment", o.environment.isSome), ("dist", o.dist.isSome),
    ("tags", !scope.tags.isEmpty), ("extra", !scope.extra.isEmpty), ("user", scope.user.isSome),
    ("breadcrumbs", !scope.breadcrumbs.isEmpty)]

/-- What a session makes of the entries of an event. -/
structure Completed (o : Options) (scope : Scope) (id : Uuid) (moment : String) (es out : Entries) :
    Prop where
  eventId : Entries.lookup out "event_id" = some (.string id.simple)
  standard : ∀ d ∈ [("timestamp", moment), ("platform", "native"), ("level", "error")],
    Entries.lookup out d.1 = some ((Entries.own es d.1).getD (.string d.2))
  configured : ∀ d ∈ [("release", o.release), ("environment", o.environment), ("dist", o.dist)],
    Entries.lookup out d.1 =
      ((Entries.own es d.1).or (d.2.map .string)).or (Entries.lookup es d.1)
  fromScope : ∀ key ∈ ["tags", "extra", "user", "breadcrumbs"],
    Entries.lookup out key = Entries.lookup (entriesOf (scope.enrich (.object es))) key
  others : ∀ key, key ∉ (offers o scope).map Prod.fst →
    Entries.lookup out key = Entries.lookup es key
  keys : Entries.keys out = Entries.keys es ++
    ((offers o scope).filter fun x => x.1 ∉ Entries.keys es ∧ x.2 = true).map Prod.fst

end Site

namespace Entries

def eventRules (o : Options) (scope : Scope) (id : Uuid) (moment : String) :
    List (String × Rule) := sessionRules o id moment ++ scopeRules scope

theorem keys_eventRules (o : Options) (scope : Scope) (id : Uuid) (moment : String) :
    (eventRules o scope id moment).map Prod.fst = (Site.offers o scope).map Prod.fst := rfl

theorem nodup_eventRules (o : Options) (scope : Scope) (id : Uuid) (moment : String) :
    ((eventRules o scope id moment).map Prod.fst).Nodup := by
  rw [keys_eventRules]
  simp [Site.offers]

theorem isSome_ifMissing (x : Option Value) : (ifMissing x none).isSome = x.isSome := rfl

theorem isSome_filling (rows : List (String × Value)) :
    (filling rows none).isSome = !rows.isEmpty := by
  unfold filling
  cases rows.isEmpty <;> rfl

theorem isSome_history (crumbs : List Value) : (history crumbs).isSome = !crumbs.isEmpty := by
  cases crumbs <;> rfl

/-- A session has something for a key if its rule adds the key to an object without it. -/
theorem offers_eq (o : Options) (scope : Scope) (id : Uuid) (moment : String) :
    Site.offers o scope = (eventRules o scope id moment).map fun r => (r.1, (r.2 none).isSome) := by
  simp only [Site.offers, eventRules, sessionRules, scopeRules, Options.defaults, List.map_cons,
    List.map_nil, List.cons_append, List.nil_append, isSome_ifMissing, isSome_filling, always,
    isSome_history, Option.isSome_map, Option.isSome_some, Scope.tagRows, List.isEmpty_map,
    KeyTable.isEmpty]

theorem or_ifMissing (found x : Option Value) :
    (ifMissing x found).or found = ((found.filter fun v => !v.isNull).or x).or found := by
  unfold ifMissing
  cases found with
  | none => cases x <;> rfl
  | some v => cases hnull : v.isNull <;> cases x <;> simp [Option.filter, hnull]

end Entries

open Entries (eventRules)

theorem Site.completed_followAll (o : Options) (scope : Scope) (id : Uuid) (moment : String)
    (es : Entries) :
    Site.Completed o scope id moment es (followAll es (eventRules o scope id moment)) := by
  have hdistinct := Entries.nodup_eventRules o scope id moment
  have hrule : ∀ {r : String × Entries.Rule}, r ∈ eventRules o scope id moment →
      Entries.lookup (followAll es (eventRules o scope id moment)) r.1 =
        (r.2 (Entries.lookup es r.1)).or (Entries.lookup es r.1) :=
    fun hr => Entries.lookup_followAll_of_mem hdistinct hr
  constructor
  case eventId =>
    exact hrule (r := ("event_id", Entries.always (some (.string id.simple))))
      (List.mem_append_left _ List.mem_cons_self)
  case standard =>
    intro d hd
    have hmem : (d.1, Entries.ifMissing (some (.string d.2))) ∈ eventRules o scope id moment := by
      simp only [List.mem_cons, List.not_mem_nil, or_false] at hd
      rcases hd with rfl | rfl | rfl <;> simp [eventRules, sessionRules]
    rw [hrule hmem, Entries.or_ifMissing]
    unfold Entries.own
    cases (Entries.lookup es d.1).filter fun v => !v.isNull <;> rfl
  case configured =>
    intro d hd
    have hdefault : d ∈ o.defaults := hd
    have hmem : (d.1, Entries.ifMissing (d.2.map .string)) ∈ eventRules o scope id moment :=
      List.mem_append_left _ (List.mem_append_right _ (List.mem_map_of_mem hdefault))
    rw [hrule hmem, Entries.or_ifMissing]
    rfl
  case fromScope =>
    intro key hkey
    -- The rules of the scope find under their keys what the event had there.
    have hsession : key ∉ (sessionRules o id moment).map Prod.fst := by
      simp only [List.mem_cons, List.not_mem_nil, or_false] at hkey
      rcases hkey with rfl | rfl | rfl | rfl <;> simp [sessionRules, Options.defaults]
    obtain ⟨r, hr, rfl⟩ : ∃ r ∈ scopeRules scope, r.1 = key :=
      List.mem_map.mp (show key ∈ (scopeRules scope).map Prod.fst from hkey)
    have hscope : ((scopeRules scope).map Prod.fst).Nodup := by simp [scopeRules]
    rw [hrule (List.mem_append_right _ hr), Scope.enrich_object]
    exact (Entries.lookup_followAll_of_mem hscope hr).symm
  case others =>
    intro key hkey
    exact Entries.lookup_followAll_of_notMem (Entries.keys_eventRules o scope id moment ▸ hkey)
  case keys =>
    exact Entries.keys_followAll_of_offers hdistinct (Entries.offers_eq o scope id moment)

/-- For an event without repeated keys, what a session makes of it is all there is to say. -/
theorem Site.Completed.unique {o : Options} {scope : Scope} {id : Uuid} {moment : String}
    {es out other : Entries} (hdistinct : (Entries.keys es).Nodup)
    (h : Site.Completed o scope id moment es out)
    (h' : Site.Completed o scope id moment es other) : other = out := by
  have hkeys : Entries.keys other = Entries.keys out := h'.keys.trans h.keys.symm
  have hnodup : (Entries.keys other).Nodup := by
    rw [h'.keys, ← (Site.completed_followAll o scope id moment es).keys]
    exact Entries.nodup_keys_followAll hdistinct
  refine Entries.ext_lookup hnodup hkeys fun key => ?_
  by_cases hkey : key ∈ (Site.offers o scope).map Prod.fst
  · simp only [Site.offers, List.map_cons, List.map_nil, List.mem_cons, List.not_mem_nil,
      or_false] at hkey
    have hstandard := fun d hd => (h'.standard d hd).trans (h.standard d hd).symm
    have hconfigured := fun d hd => (h'.configured d hd).trans (h.configured d hd).symm
    have hscoped := fun key hkey => (h'.fromScope key hkey).trans (h.fromScope key hkey).symm
    rcases hkey with rfl | rfl | rfl | rfl | rfl | rfl | rfl | rfl | rfl | rfl | rfl
    · exact h'.eventId.trans h.eventId.symm
    · exact hstandard ("timestamp", moment) (by simp)
    · exact hstandard ("platform", "native") (by simp)
    · exact hstandard ("level", "error") (by simp)
    · exact hconfigured ("release", o.release) (by simp)
    · exact hconfigured ("environment", o.environment) (by simp)
    · exact hconfigured ("dist", o.dist) (by simp)
    all_goals exact hscoped _ (by simp)
  · exact (h'.others key hkey).trans (h.others key hkey).symm

namespace Site

/-- An event that is an object is completed and queued behind what is queued already; the scope,
the options and all else stay as they are. Without a session, or for any other value, nothing
happens. -/
theorem capture_completes (s : Site) (event : Value) :
    (∀ session es, s.engine.session = some session → event = .object es →
      (Entries.keys es).Nodup →
      ∃ out e,
        Completed session.options s.engine.scope s.world.nextEventId.1 s.world.supply.moment es
          out ∧
        (∀ other, Completed session.options s.engine.scope s.world.nextEventId.1
          s.world.supply.moment es other → other = out) ∧
        e = Envelope.ofEvent (.object out) session.options.dsn s.world.supply.moment ∧
        e.items.map EnvelopeItem.payload = [Json.compact (.object out)] ∧
        s.capture event = (some s.world.nextEventId.1,
          { engine := { s.engine with
              session := some { session with worker := session.worker.map (·.enqueue e) } }
            world := s.world.nextEventId.2 })) ∧
    (s.engine.session = none ∨ isObject event = false → s.capture event = (none, s)) := by
  refine ⟨?_, ?_⟩
  · rintro session es running rfl hdistinct
    have hcompleted := completed_followAll session.options s.engine.scope s.world.nextEventId.1
      s.world.supply.moment es
    refine ⟨_, _, hcompleted, fun other h => hcompleted.unique hdistinct h, rfl, rfl, ?_⟩
    have henriched : s.engine.scope.enrich (complete session.options s.world.nextEventId.1
        s.world.supply.moment (.object es)) = .object (followAll es (eventRules session.options
          s.engine.scope s.world.nextEventId.1 s.world.supply.moment)) := by
      rw [complete_object, Scope.enrich_object, eventRules, Entries.followAll_append]
    rw [← henriched]
    simp only [capture, running, isObject, ↓reduceIte]
    rfl
  · rintro (stopped | other)
    · simp only [capture, stopped]
    · unfold capture
      split
      · rfl
      · rw [if_neg (by simp [other])]

/-- A site that has something for most keys, and an envelope in its queue. -/
def siteWithQueue : Site where
  engine :=
    { scope :=
        { tags := KeyTable.empty.insert "a" "scope"
          user := some .null
          breadcrumbs := [.string "crumb"] }
      session := some ⟨{ release := some "r", dist := some "d" },
        some (.running ⟨.recorded, none, none⟩ [Envelope.empty])⟩ }
  world := { files := .withWorkDir "w", supply := { Supply.numbered "10:00" with events := 6 } }

/-- An event with a null level, an old identifier, a release that is a number, and tags of its
own. -/
def roughEvent : Entries :=
  [("level", .null), ("message", .string "m"), ("tags", .object [("b", .bool true), ("a", .null)]),
    ("event_id", .string "old"), ("release", .int 5)]

theorem capture_completes_roughEvent : ∃ out e,
    (siteWithQueue.capture (.object roughEvent)).1 = some (Uuid.numbered 6) ∧
      Entries.keys out = ["level", "message", "tags", "event_id", "release", "timestamp",
        "platform", "dist", "user", "breadcrumbs"] ∧
      Entries.lookup out "level" = some (.string "error") ∧
      Entries.lookup out "release" = some (.int 5) ∧
      Entries.lookup out "tags" = some (.object [("b", .bool true), ("a", .string "scope")]) ∧
      e.items.map EnvelopeItem.payload = [Json.compact (.object out)] ∧
      (siteWithQueue.capture (.object roughEvent)).2.engine.session =
        some ⟨{ release := some "r", dist := some "d" },
          some (.running ⟨.recorded, none, none⟩ [Envelope.empty, e])⟩ ∧
      siteWithQueue.capture .null = (none, siteWithQueue) := by
  obtain ⟨out, e, hcompleted, -, -, hpayload, hcapture⟩ :=
    (capture_completes siteWithQueue (.object roughEvent)).1 _ roughEvent rfl rfl (by decide)
  refine ⟨out, e, ?_, hcompleted.keys, ?_, ?_, ?_, hpayload, ?_, ?_⟩
  · rw [hcapture]
    rfl
  · exact hcompleted.standard ("level", "error") (by simp)
  · exact hcompleted.configured ("release", some "r") (by simp)
  · exact hcompleted.fromScope "tags" (by simp)
  · rw [hcapture]
    rfl
  · exact (capture_completes siteWithQueue .null).2 (Or.inr rfl)

end Site

end CrashCourier
