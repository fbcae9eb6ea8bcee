import CrashCourier.Proofs.Enrichment
import CrashCourier.Proofs.Text.Order

namespace CrashCourier

namespace Entries

variable {es own rows : Entries} {r : String × Rule} {rs : List (String × Rule)} {key : String}

theorem mem_of_lookup {v : Value} (h : lookup es key = some v) : (key, v) ∈ es := by
  induction es with
  | nil => simp [lookup] at h
  | cons e es ih =>
    obtain ⟨k, w⟩ := e
    by_cases hk : k = key
    · obtain rfl : w = v := by simpa [lookup, hk] using h
      exact hk ▸ List.mem_cons_self
    · exact List.mem_cons_of_mem _ (ih (by simpa [lookup, hk] using h))

theorem lookup_map (es : Entries) (f : String → Value → Value) (key : String) :
    lookup (es.map fun e => (e.1, f e.1 e.2)) key = (lookup es key).map (f key) := by
  induction es with
  | nil => rfl
  | cons e es ih =>
    obtain ⟨k, v⟩ := e
    by_cases hk : k = key
    · subst hk
      simp [lookup]
    · simp [lookup, hk, ih]

theorem lookup_filter_notMem (es : Entries) (taken : List String) (key : String) :
    lookup (es.filter fun e => e.1 ∉ taken) key = if key ∈ taken then none else lookup es key := by
  induction es with
  | nil => simp [lookup]
  | cons e es ih =>
    obtain ⟨k, v⟩ := e
    by_cases hk : k = key
    · subst hk
      by_cases htaken : k ∈ taken <;> simp_all [lookup]
    · by_cases htaken : k ∈ taken <;> simp_all [lookup]

/-- Entries with rows merged into them: a row gives its value to an entry of its key that is null,
and stands behind all entries if none has its key. -/
def filled (own rows : Entries) : Entries :=
  own.map (fun e => (e.1, if e.2.isNull then (lookup rows e.1).getD e.2 else e.2)) ++
    rows.filter fun r => r.1 ∉ keys own

/-- Rows as rules, each for the key of its own. -/
def fillRules (rows : Entries) : List (String × Rule) :=
  rows.map fun r => (r.1, ifMissing (some r.2))

theorem keys_fillRules (rows : Entries) : (fillRules rows).map Prod.fst = keys rows := by
  simp [fillRules, keys]

theorem lookup_followAll_fillRules (hrows : (keys rows).Nodup) (own : Entries) (key : String) :
    lookup (followAll own (fillRules rows)) key =
      (ifMissing (lookup rows key) (lookup own key)).or (lookup own key) := by
  rw [← keys_fillRules] at hrows
  cases hrow : lookup rows key with
  | none =>
    have hother : key ∉ (fillRules rows).map Prod.fst :=
      keys_fillRules rows ▸ lookup_eq_none_iff.mp hrow
    rw [lookup_followAll_of_notMem hother]
    simp [ifMissing]
  | some v =>
    have hmem : (key, ifMissing (some v)) ∈ fillRules rows :=
      List.mem_map_of_mem (f := fun r : String × Value => (r.1, ifMissing (some r.2)))
        (mem_of_lookup hrow)
    exact lookup_followAll_of_mem hrows hmem

theorem lookup_filled (own rows : Entries) (key : String) :
    lookup (filled own rows) key =
      (ifMissing (lookup rows key) (lookup own key)).or (lookup own key) := by
  have hvalues := lookup_map own (fun k v => if v.isNull then (lookup rows k).getD v else v) key
  rw [filled, lookup_append, hvalues, lookup_filter_notMem, or_ifMissing]
  cases hown : lookup own key with
  | none =>
    rw [if_neg (lookup_eq_none_iff.mp hown)]
    simp
  | some v =>
    cases hnull : v.isNull with
    | false => simp [Option.filter, hnull]
    | true => cases lookup rows key <;> simp [Option.filter, hnull]

/-- Following the rules of rows one after the other merges the rows. -/
theorem followAll_fillRules (hown : (keys own).Nodup) (hrows : (keys rows).Nodup) :
    followAll own (fillRules rows) = filled own rows := by
  refine ext_lookup (nodup_keys_followAll hown) ?_ fun key => ?_
  · have hdistinct : ((fillRules rows).map Prod.fst).Nodup := keys_fillRules rows ▸ hrows
    have hadded : rows.filter (fun r => r.1 ∉ keys own) =
        rows.filter fun r => r.1 ∉ keys own ∧ (ifMissing (some r.2) none).isSome = true :=
      List.filter_congr fun r _ => by rw [isSome_ifMissing]; simp
    rw [keys_followAll hdistinct, filled, hadded, fillRules, List.filter_map, List.map_map]
    simp [keys, Function.comp_def]
  · rw [lookup_followAll_fillRules hrows, lookup_filled]

theorem foldl_setDefault_rows (own rows : Entries) :
    rows.foldl (fun o r => o.setDefault r.1 r.2) (Value.object own) =
      .object (followAll own (fillRules rows)) := by
  induction rows generalizing own with
  | nil => rfl
  | cons r rows ih =>
    rw [List.foldl_cons, ← Value.object_follow_ifMissing]
    exact ih _

theorem filling_eq (rows : Entries) (found : Option Value) :
    filling rows found = if rows.isEmpty then none else
      some (.object (followAll (Site.entriesOf (found.getD .null)) (fillRules rows))) := by
  have hobject : objectOr found = .object (Site.entriesOf (found.getD .null)) := by
    rcases found with _ | (_ | _ | _ | _ | _ | _ | _)
    all_goals rfl
  rw [filling, hobject, foldl_setDefault_rows]

/-- A rule that leaves alone what it has set. -/
def Steady (r : Rule) : Prop := ∀ found v w, r found = some v → r (some v) = some w → w = v

theorem followAll_eq_self (h : ∀ r ∈ rs, follow es r = es) : followAll es rs = es := by
  induction rs with
  | nil => rfl
  | cons r rs ih =>
    obtain ⟨hr, hrs⟩ := List.forall_mem_cons.mp h
    rw [followAll_cons, hr, ih hrs]

theorem followAll_followAll (es : Entries) (hdistinct : (rs.map Prod.fst).Nodup)
    (hsteady : ∀ r ∈ rs, Steady r.2) : followAll (followAll es rs) rs = followAll es rs := by
  refine followAll_eq_self fun r hr => ?_
  have hlookup : lookup (followAll es rs) r.1 = (r.2 (lookup es r.1)).or (lookup es r.1) :=
    lookup_followAll_of_mem hdistinct hr
  cases hset : r.2 (lookup es r.1) with
  | none =>
    rw [hset, Option.none_or] at hlookup
    exact follow_of_none (hlookup ▸ hset)
  | some v =>
    rw [hset, Option.some_or] at hlookup
    cases hagain : r.2 (some v) with
    | none => exact follow_of_none (by rw [hlookup, hagain])
    | some w =>
      obtain rfl := hsteady r hr _ v w hset hagain
      rw [follow_of_some (by rw [hlookup, hagain]), insert_eq_self hlookup]

theorem steady_always (x : Option Value) : Steady (always x) := by
  intro found v w hv hw
  exact Option.some.inj (hw.symm.trans hv)

theorem eq_some_of_ifMissing {x found : Option Value} {v : Value}
    (h : ifMissing x found = some v) : x = some v := by
  unfold ifMissing at h
  split at h
  · exact h
  · simp at h

theorem steady_ifMissing (x : Option Value) : Steady (ifMissing x) := by
  intro found v w hv hw
  exact Option.some.inj ((eq_some_of_ifMissing hw).symm.trans (eq_some_of_ifMissing hv))

theorem steady_fillRules (rows : Entries) : ∀ r ∈ fillRules rows, Steady r.2 := by
  intro r hr
  obtain ⟨row, -, rfl⟩ := List.mem_map.mp hr
  exact steady_ifMissing _

theorem steady_filling (hrows : (keys rows).Nodup) : Steady (filling rows) := by
  intro found v w hv hw
  have hdistinct : ((fillRules rows).map Prod.fst).Nodup := keys_fillRules rows ▸ hrows
  rw [filling_eq] at hv hw
  split at hv
  · simp at hv
  · obtain rfl := Option.some.inj hv
    have hsame := followAll_followAll (Site.entriesOf (found.getD .null)) hdistinct
      (steady_fillRules rows)
    rw [if_neg ‹_›] at hw
    exact (Option.some.inj hw).symm.trans (congrArg Value.object hsame)

end Entries

open Entries (fillRules filled)

theorem KeyTable.nodup_keys {α : Type} (t : KeyTable α) : (t.rows.map Prod.fst).Nodup :=
  List.pairwise_map.mpr (t.sorted.imp fun hlt => String.ne_of_lt hlt)

theorem KeyTable.keys_byteOrder {α : Type} (t : KeyTable α) :
    (t.rows.map Prod.fst).Pairwise fun a b => Text.bytes a < Text.bytes b :=
  List.pairwise_map.mpr (t.sorted.imp Text.bytes_lt_bytes)

namespace Scope

variable {s : Scope} {es : Entries} {event : Value}

theorem keys_tagRows (s : Scope) : Entries.keys s.tagRows = s.tags.rows.map Prod.fst := by
  simp [Entries.keys, tagRows]

theorem nodup_tagRows (s : Scope) : (Entries.keys s.tagRows).Nodup := by
  rw [keys_tagRows]
  exact s.tags.nodup_keys

theorem steady_scopeRules (s : Scope) : ∀ r ∈ Entries.scopeRules s, Entries.Steady r.2 := by
  intro r hr
  simp only [Entries.scopeRules, List.mem_cons, List.not_mem_nil, or_false] at hr
  rcases hr with rfl | rfl | rfl | rfl
  · exact Entries.steady_filling s.nodup_tagRows
  · exact Entries.steady_filling s.extra.nodup_keys
  · exact Entries.steady_ifMissing _
  · exact Entries.steady_always _

theorem nodup_scopeRules (s : Scope) : ((Entries.scopeRules s).map Prod.fst).Nodup := by
  simp [Entries.scopeRules]

theorem enrich_of_not_object (h : Site.isObject event = false) : s.enrich event = event := by
  have hset : ∀ key x, event.set key x = event := by
    intro key x
    cases event with
    | object es => simp [Site.isObject] at h
    | _ => rfl
  have hrows : ∀ key rows, addRows event key rows = event := by
    intro key rows
    unfold addRows
    split
    · rfl
    · exact hset _ _
  have huser : addUser event s.user = event := by
    unfold addUser Value.setDefault
    split
    · split
      · exact hset _ _
      · rfl
    · rfl
  have hhistory : addHistory event s.breadcrumbs = event := by
    unfold addHistory
    split
    · rfl
    · exact hset _ _
  rw [enrich, hrows, hrows, huser, hhistory]

/-- Merging a scope a second time changes nothing, whatever the event is. -/
theorem enrich_enrich (s : Scope) (event : Value) : s.enrich (s.enrich event) = s.enrich event := by
  cases hobject : Site.isObject event with
  | false => rw [enrich_of_not_object hobject, enrich_of_not_object hobject]
  | true =>
    obtain ⟨es, rfl⟩ : ∃ es, event = .object es := by
      cases event with
      | object es => exact ⟨es, rfl⟩
      | _ => simp [Site.isObject] at hobject
    have htwice := Entries.followAll_followAll es s.nodup_scopeRules s.steady_scopeRules
    rw [enrich_object, enrich_object, htwice]

/-- The entries of the object that an event has under a key; none if it has none there. -/
def entriesAt (es : Entries) (key : String) : Entries := Site.entriesOf ((Value.object es).get key)

/-- The keys that a scope may add to an event, in the order in which it does, and whether it has
something for them. -/
def parts (s : Scope) : List (String × Bool) :=
  [("tags", !s.tags.isEmpty), ("extra", !s.extra.isEmpty), ("user", s.user.isSome),
    ("breadcrumbs", !s.breadcrumbs.isEmpty)]

/-- What a scope makes of the entries of an event. -/
structure Merged (s : Scope) (es out : Entries) : Prop where
  tags : Entries.lookup out "tags" = if s.tags.isEmpty then Entries.lookup es "tags" else
    some (.object (filled (entriesAt es "tags") s.tagRows))
  extra : Entries.lookup out "extra" = if s.extra.isEmpty then Entries.lookup es "extra" else
    some (.object (filled (entriesAt es "extra") s.extra.rows))
  user : Entries.lookup out "user" =
    ((Entries.own es "user").or s.user).or (Entries.lookup es "user")
  breadcrumbs : Entries.lookup out "breadcrumbs" =
    if s.breadcrumbs.isEmpty then Entries.lookup es "breadcrumbs" else
      some (.object [("values", .list s.breadcrumbs)])
  others : ∀ key, key ∉ (parts s).map Prod.fst → Entries.lookup out key = Entries.lookup es key
  keys : Entries.keys out = Entries.keys es ++
    ((parts s).filter fun p => p.1 ∉ Entries.keys es ∧ p.2 = true).map Prod.fst

theorem parts_eq (s : Scope) :
    parts s = (Entries.scopeRules s).map fun r => (r.1, (r.2 none).isSome) := by
  simp only [parts, Entries.scopeRules, List.map_cons, List.map_nil, Entries.isSome_filling,
    Entries.isSome_ifMissing, Entries.always, Entries.isSome_history, tagRows, List.isEmpty_map,
    KeyTable.isEmpty]

/-- Rows that have an object to go to, or make one. -/
theorem filling_or {rows : Entries} {key : String} (hown : (Entries.keys (entriesAt es key)).Nodup)
    (hrows : (Entries.keys rows).Nodup) :
    (Entries.filling rows (Entries.lookup es key)).or (Entries.lookup es key) =
      if rows.isEmpty then Entries.lookup es key else
        some (.object (filled (entriesAt es key) rows)) := by
  have hfilled : Entries.followAll (Site.entriesOf ((Entries.lookup es key).getD .null))
      (fillRules rows) = filled (entriesAt es key) rows := Entries.followAll_fillRules hown hrows
  rw [Entries.filling_eq, hfilled]
  split
  · exact Option.none_or
  · exact Option.some_or

theorem merged_followAll (s : Scope) (htags : (Entries.keys (entriesAt es "tags")).Nodup)
    (hextra : (Entries.keys (entriesAt es "extra")).Nodup) :
    Merged s es (Entries.followAll es (Entries.scopeRules s)) := by
  have hrule : ∀ {r : String × Entries.Rule}, r ∈ Entries.scopeRules s →
      Entries.lookup (Entries.followAll es (Entries.scopeRules s)) r.1 =
        (r.2 (Entries.lookup es r.1)).or (Entries.lookup es r.1) :=
    fun hr => Entries.lookup_followAll_of_mem s.nodup_scopeRules hr
  constructor
  case tags =>
    have hempty : s.tagRows.isEmpty = s.tags.isEmpty := List.isEmpty_map
    rw [hrule (r := ("tags", Entries.filling s.tagRows)) (by simp [Entries.scopeRules]),
      filling_or htags s.nodup_tagRows, hempty]
  case extra =>
    rw [hrule (r := ("extra", Entries.filling s.extra.rows)) (by simp [Entries.scopeRules]),
      filling_or hextra s.extra.nodup_keys]
    rfl
  case user =>
    rw [hrule (r := ("user", Entries.ifMissing s.user)) (by simp [Entries.scopeRules]),
      Entries.or_ifMissing]
    rfl
  case breadcrumbs =>
    rw [hrule (r := ("breadcrumbs", Entries.always (Entries.history s.breadcrumbs)))
      (by simp [Entries.scopeRules])]
    cases s.breadcrumbs <;> rfl
  case others =>
    intro key hkey
    exact Entries.lookup_followAll_of_notMem hkey
  case keys =>
    exact Entries.keys_followAll_of_offers s.nodup_scopeRules s.parts_eq

/-- For an event without repeated keys, what a scope makes of it is all there is to say. -/
theorem Merged.eq_followAll {out : Entries} (h : Merged s es out)
    (hdistinct : (Entries.keys es).Nodup) (htags : (Entries.keys (entriesAt es "tags")).Nodup)
    (hextra : (Entries.keys (entriesAt es "extra")).Nodup) :
    Entries.followAll es (Entries.scopeRules s) = out := by
  have hmerged := merged_followAll s htags hextra
  refine Entries.ext_lookup (Entries.nodup_keys_followAll hdistinct)
    (hmerged.keys.trans h.keys.symm) fun key => ?_
  by_cases hkey : key ∈ (parts s).map Prod.fst
  · simp only [parts, List.map_cons, List.map_nil, List.mem_cons, List.not_mem_nil,
      or_false] at hkey
    rcases hkey with rfl | rfl | rfl | rfl
    · exact hmerged.tags.trans h.tags.symm
    · exact hmerged.extra.trans h.extra.symm
    · exact hmerged.user.trans h.user.symm
    · exact hmerged.breadcrumbs.trans h.breadcrumbs.symm
  · exact (hmerged.others key hkey).trans (h.others key hkey).symm

/-- What a scope makes of an event without repeated keys, and nothing else; rows that an event lacks
are added in the order of the bytes of their keys. A value that is no object stays as it is. -/
theorem enrich_merges (s : Scope) :
    (∀ es : Entries, (Entries.keys es).Nodup → (Entries.keys (entriesAt es "tags")).Nodup →
      (Entries.keys (entriesAt es "extra")).Nodup →
      ∃ out, s.enrich (.object es) = .object out ∧ Merged s es out ∧
        ∀ other, Merged s es other → other = out) ∧
    (Entries.keys s.tagRows).Pairwise (fun a b => Text.bytes a < Text.bytes b) ∧
    (Entries.keys s.extra.rows).Pairwise (fun a b => Text.bytes a < Text.bytes b) ∧
    ∀ event, Site.isObject event = false → s.enrich event = event := by
  refine ⟨?_, ?_, s.extra.keys_byteOrder, fun event => enrich_of_not_object⟩
  · intro es hdistinct htags hextra
    refine ⟨_, enrich_object s es, merged_followAll s htags hextra, fun other h => ?_⟩
    exact (h.eq_followAll hdistinct htags hextra).symm
  · rw [keys_tagRows]
    exact s.tags.keys_byteOrder

/-- A scope with something for each part, and a null among its extra values. -/
def fullScope : Scope where
  tags := ((KeyTable.empty.insert "é" "scope").insert "b" "scope").insert "a" "scope"
  extra := (KeyTable.empty.insert "x" .null).insert "y" (.int 5)
  user := some (.string "scope")
  breadcrumbs := [.string "crumb"]

theorem enrich_merges_nulls : ∃ out,
    fullScope.enrich (.object [("extra", .string "none"), ("user", .null),
        ("tags", .object [("z", .int 1), ("b", .null), ("a", .bool true)])]) = .object out ∧
      Entries.keys out = ["extra", "user", "tags", "breadcrumbs"] ∧
      Entries.lookup out "tags" = some (.object [("z", .int 1), ("b", .string "scope"),
        ("a", .bool true), ("é", .string "scope")]) ∧
      Entries.lookup out "extra" = some (.object [("x", .null), ("y", .int 5)]) ∧
      Entries.lookup out "user" = some (.string "scope") ∧
      fullScope.enrich (.string "event") = .string "event" := by
  obtain ⟨out, hout, hmerged, -⟩ := (enrich_merges fullScope).1 [("extra", .string "none"),
    ("user", .null), ("tags", .object [("z", .int 1), ("b", .null), ("a", .bool true)])]
    (by decide) (by decide) (by decide)
  exact ⟨out, hout, hmerged.keys, hmerged.tags, hmerged.extra, hmerged.user,
    (enrich_merges fullScope).2.2.2 (.string "event") rfl⟩

end Scope

end CrashCourier
