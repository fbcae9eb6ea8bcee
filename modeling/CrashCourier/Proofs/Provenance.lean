import CrashCourier.Proofs.Json.ReadShape
import CrashCourier.Proofs.Json.Spacings
import CrashCourier.Proofs.Merging
import Mathlib.Data.List.Forall2

namespace CrashCourier

namespace Value

/-- The values that a process can get hold of. -/
inductive Obtained : Value → Prop
  | null : Obtained null
  | bool (b : Bool) : Obtained (bool b)
  | int (n : Int32) : Obtained (int n)
  | double (d : Double) : Obtained (double d)
  | string (s : String) : Obtained (string s)
  | emptyList : Obtained (list [])
  | emptyObject : Obtained emptyObject
  | breadcrumb (moment : String) (type message : Option String) :
    Obtained (breadcrumb moment type message)
  | payload {i : EnvelopeItem} {v : Value} (h : i.value = .ok v) : Obtained v
  | get {v : Value} (key : String) (hv : Obtained v) : Obtained (v.get key)
  | item {v : Value} (index : Nat) (hv : Obtained v) : Obtained (v.item index)
  | set {v x : Value} (key : String) (hv : Obtained v) (hx : Obtained x) : Obtained (v.set key x)
  | remove {v : Value} (key : String) (hv : Obtained v) : Obtained ((v.remove? key).getD v)
  | append {v x : Value} (hv : Obtained v) (hx : Obtained x) : Obtained ((v.append? x).getD v)
  /-- An event to which a scope has added what it holds. -/
  | enriched {s : Scope} {event : Value} (hextra : ∀ r ∈ s.extra.rows, Obtained r.2)
    (huser : ∀ user ∈ s.user, Obtained user) (hcrumbs : ∀ crumb ∈ s.breadcrumbs, Obtained crumb)
    (hevent : Obtained event) : Obtained (s.enrich event)
  /-- An event to which a session has added an identifier and its defaults. -/
  | completed (o : Options) (id : Uuid) (moment : String) {event : Value}
    (hevent : Obtained event) : Obtained (Site.complete o id moment event)

/-- No object in the value has a key twice. -/
def Tidy (v : Value) : Prop := v.Everywhere DistinctKeys

variable {v x : Value}

theorem tidy_scalar (h : v.nesting = 0) : Tidy v := (regular_scalar h 0).distinct

theorem tidy_object_iff {es : Entries} :
    Tidy (object es) ↔ (Entries.keys es).Nodup ∧ ∀ e ∈ es, Tidy e.2 := by
  have hkeys : DistinctKeys (object es) ↔ (Entries.keys es).Nodup :=
    ⟨fun h => h es rfl, fun h other heq => object.inj heq ▸ h⟩
  rw [Tidy, everywhere_object, hkeys]
  rfl

theorem tidy_list_iff {xs : List Value} : Tidy (list xs) ↔ ∀ x ∈ xs, Tidy x := by
  have hlist : DistinctKeys (list xs) := by
    intro es heq
    cases heq
  rw [Tidy, everywhere_list, and_iff_right hlist]
  rfl

theorem tidy_emptyObject : Tidy emptyObject :=
  tidy_object_iff.mpr ⟨List.nodup_nil, fun _ he => absurd he List.not_mem_nil⟩

namespace Tidy

theorem get (h : Tidy v) (key : String) : Tidy (v.get key) := by
  cases v with
  | object es =>
    rw [get_object]
    cases hfound : Entries.lookup es key with
    | none => exact tidy_scalar rfl
    | some x => exact (tidy_object_iff.mp h).2 (key, x) (Entries.mem_of_lookup hfound)
  | _ => exact tidy_scalar rfl

theorem item (h : Tidy v) (index : Nat) : Tidy (v.item index) := by
  cases v with
  | list xs =>
    rw [Value.item, List.getD_eq_getElem?_getD]
    cases hfound : xs[index]? with
    | none => exact tidy_scalar rfl
    | some x => exact tidy_list_iff.mp h x (List.mem_of_getElem? hfound)
  | _ => exact tidy_scalar rfl

theorem set (h : Tidy v) (key : String) (hx : Tidy x) : Tidy (v.set key x) := by
  cases v with
  | object es =>
    obtain ⟨hkeys, hes⟩ := tidy_object_iff.mp h
    rw [set_object]
    apply tidy_object_iff.mpr
    refine ⟨Entries.nodup_keys_insert key x hkeys, fun e he => ?_⟩
    rcases mem_insert he with heq | hold
    · exact heq ▸ hx
    · exact hes e hold
  | _ => exact h

theorem remove (h : Tidy v) (key : String) : Tidy ((v.remove? key).getD v) := by
  cases v with
  | object es =>
    obtain ⟨hkeys, hes⟩ := tidy_object_iff.mp h
    have hsub : (Entries.erase es key).Sublist es := List.filter_sublist
    have herased : Tidy (object (Entries.erase es key)) :=
      tidy_object_iff.mpr ⟨hkeys.sublist (hsub.map Prod.fst), fun e he => hes e (hsub.mem he)⟩
    rw [remove?]
    split
    · exact herased
    · exact h
  | _ => exact h

theorem append (h : Tidy v) (hx : Tidy x) : Tidy ((v.append? x).getD v) := by
  cases v with
  | list xs =>
    have hboth : ∀ y ∈ xs ++ [x], Tidy y := by
      intro y hy
      rcases List.mem_append.mp hy with hold | hnew
      · exact tidy_list_iff.mp h y hold
      · exact List.mem_singleton.mp hnew ▸ hx
    exact tidy_list_iff.mpr hboth
  | _ => exact h

theorem setDefault (h : Tidy v) (key : String) (hx : Tidy x) : Tidy (v.setDefault key x) := by
  rw [Value.setDefault]
  split
  · exact h.set key hx
  · exact h

theorem setSome (h : Tidy v) (key : String) (text : Option String) : Tidy (v.setSome key text) := by
  cases text with
  | none => exact h
  | some s => exact h.set key (tidy_scalar rfl)

/-- Rows are merged into the object under a key, or into an empty one. -/
theorem addRows (h : Tidy v) (key : String) {rows : List (String × Value)}
    (hrows : ∀ r ∈ rows, Tidy r.2) : Tidy (Scope.addRows v key rows) := by
  have hobject : Tidy (Scope.objectAt v key) := by
    have hget := h.get key
    rw [Scope.objectAt]
    split
    · next heq => exact heq ▸ hget
    · exact tidy_emptyObject
  have hmerged : Tidy (rows.foldl (fun o r => o.setDefault r.1 r.2) (Scope.objectAt v key)) :=
    List.foldlRecOn rows _ hobject fun o ho r hr => ho.setDefault r.1 (hrows r hr)
  rw [Scope.addRows]
  split
  · exact h
  · exact h.set key hmerged

theorem enrich {s : Scope} (h : Tidy v) (hextra : ∀ r ∈ s.extra.rows, Tidy r.2)
    (huser : ∀ user ∈ s.user, Tidy user) (hcrumbs : ∀ crumb ∈ s.breadcrumbs, Tidy crumb) :
    Tidy (s.enrich v) := by
  have htags : ∀ r ∈ s.tagRows, Tidy r.2 := by
    intro r hr
    obtain ⟨row, -, rfl⟩ := List.mem_map.mp hr
    exact tidy_scalar rfl
  have hrows := (h.addRows "tags" htags).addRows "extra" hextra
  have hadded : Tidy (Scope.addUser
      (Scope.addRows (Scope.addRows v "tags" s.tagRows) "extra" s.extra.rows) s.user) := by
    cases hs : s.user with
    | none => exact hrows
    | some user => exact hrows.setDefault "user" (huser user hs)
  have hhistory : Tidy (emptyObject.set "values" (list s.breadcrumbs)) :=
    tidy_emptyObject.set "values" (tidy_list_iff.mpr hcrumbs)
  rw [Scope.enrich, Scope.addHistory]
  split
  · exact hadded
  · exact hadded.set "breadcrumbs" hhistory

theorem complete (h : Tidy v) (o : Options) (id : Uuid) (moment : String) :
    Tidy (Site.complete o id moment v) := by
  have hnamed := h.set "event_id" (x := string id.simple) (tidy_scalar rfl)
  have hplaced := ((hnamed.setDefault "timestamp" (x := string moment) (tidy_scalar rfl)).setDefault
    "platform" (x := string "native") (tidy_scalar rfl)).setDefault "level" (x := string "error")
    (tidy_scalar rfl)
  rw [Site.complete]
  refine List.foldlRecOn o.defaults _ hplaced fun w hw d _ => ?_
  split
  · exact hw.setDefault d.1 (tidy_scalar rfl)
  · exact hw

end Tidy

/-- However a value was obtained, no object in it has a key twice. -/
theorem Obtained.tidy (h : Obtained v) : Tidy v := by
  induction h with
  | null => exact tidy_scalar rfl
  | bool b => exact tidy_scalar rfl
  | int n => exact tidy_scalar rfl
  | double d => exact tidy_scalar rfl
  | string s => exact tidy_scalar rfl
  | emptyList => exact tidy_list_iff.mpr fun _ hx => absurd hx List.not_mem_nil
  | emptyObject => exact tidy_emptyObject
  | breadcrumb moment type message =>
    have hstamped := tidy_emptyObject.set "timestamp" (x := .string moment) (tidy_scalar rfl)
    exact (hstamped.setSome "type" type).setSome "message" message
  | payload h => exact (Json.read_regular h).distinct
  | get key _ ih => exact ih.get key
  | item index _ ih => exact ih.item index
  | set key _ _ hv hx => exact hv.set key hx
  | remove key _ ih => exact ih.remove key
  | append _ _ hv hx => exact hv.append hx
  | enriched _ _ _ _ hextra huser hcrumbs hevent => exact hevent.enrich hextra huser hcrumbs
  | completed o id moment _ ih => exact ih.complete o id moment

/-- A key of an object, or the index of an item of a list. -/
inductive Branch where
  | key (key : String)
  | index (index : Nat)

def branch (v : Value) : Branch → Value
  | .key key => v.get key
  | .index index => v.item index

/-- What is found in a value along some branches; null if they lead nowhere. -/
def along (v : Value) (way : List Branch) : Value := way.foldl branch v

end Value

namespace Json

open Value

variable {n : Nat} {v w : Value}

theorem rereadItems_forall₂ {xs ys : List Value} (h : rereadItems n xs = some ys) :
    List.Forall₂ (fun x y => reread n x = some y) xs ys := by
  induction xs generalizing ys with
  | nil =>
    rw [rereadItems] at h
    exact Option.some.inj h ▸ List.Forall₂.nil
  | cons x xs ih =>
    rw [rereadItems] at h
    obtain ⟨y, hy, h⟩ := Option.bind_eq_some_iff.mp h
    obtain ⟨rest, hrest, rfl⟩ := Option.map_eq_some_iff.mp h
    exact List.Forall₂.cons hy (ih hrest)

/-- Without repeated keys every entry is added behind those before it, under its own key. -/
theorem rereadEntries_forall₂ {es done fs : Entries} (h : rereadEntries n done es = some fs)
    (hkeys : (Entries.keys (done ++ es)).Nodup) :
    ∃ read, fs = done ++ read ∧
      List.Forall₂ (fun e f => f.1 = e.1 ∧ reread n e.2 = some f.2) es read := by
  induction es generalizing done with
  | nil =>
    rw [rereadEntries] at h
    exact ⟨[], by rw [List.append_nil, Option.some.inj h], List.Forall₂.nil⟩
  | cons e es ih =>
    obtain ⟨key, x⟩ := e
    rw [rereadEntries] at h
    obtain ⟨y, hy, h⟩ := Option.bind_eq_some_iff.mp h
    have hfresh : key ∉ Entries.keys done := by
      intro hmem
      rw [Entries.keys, List.map_append, List.nodup_append] at hkeys
      exact hkeys.2.2 key hmem key List.mem_cons_self rfl
    rw [insert_of_notMem hfresh] at h
    have hkeys' : (Entries.keys (done ++ [(key, y)] ++ es)).Nodup := by
      simpa [Entries.keys] using hkeys
    obtain ⟨read, rfl, hread⟩ := ih h hkeys'
    exact ⟨(key, y) :: read, by simp, List.Forall₂.cons ⟨rfl, hy⟩ hread⟩

theorem keys_eq_of_forall₂ {es fs : Entries}
    (h : List.Forall₂ (fun e f => f.1 = e.1 ∧ reread n e.2 = some f.2) es fs) :
    Entries.keys fs = Entries.keys es := by
  induction h with
  | nil => rfl
  | cons hhead _ ih => rw [Entries.keys_cons, Entries.keys_cons, hhead.1, ih]

theorem lookup_of_forall₂ {es fs : Entries} {key : String} {x : Value}
    (h : List.Forall₂ (fun e f => f.1 = e.1 ∧ reread n e.2 = some f.2) es fs)
    (hx : Entries.lookup es key = some x) :
    ∃ y, Entries.lookup fs key = some y ∧ reread n x = some y := by
  induction h with
  | nil => simp [Entries.lookup] at hx
  | @cons e f es fs hhead _ ih =>
    obtain ⟨k, z⟩ := e
    obtain ⟨l, u⟩ := f
    obtain ⟨rfl, hu⟩ : l = k ∧ reread n z = some u := hhead
    by_cases hk : l = key
    · obtain rfl : z = x := by simpa [Entries.lookup, hk] using hx
      exact ⟨u, by simp [Entries.lookup, hk], hu⟩
    · obtain ⟨y, hy, hxy⟩ := ih (by simpa [Entries.lookup, hk] using hx)
      exact ⟨y, by simp [Entries.lookup, hk, hy], hxy⟩

/-- A value without brackets is read as one without brackets. -/
theorem nesting_of_reread (hv : v.nesting = 0) (h : reread n v = some w) : w.nesting = 0 := by
  cases v with
  | double d =>
    rw [reread] at h
    obtain ⟨⟨u, rest⟩, hread, rfl⟩ := Option.map_eq_some_iff.mp h
    exact Nat.le_zero.mp (readValue_regular (toOption_eq_some_iff.mp hread)).shallow
  | list xs => simp [nesting] at hv
  | object es => simp [nesting] at hv
  | _ =>
    rw [reread] at h
    · exact Option.some.inj h ▸ rfl
    all_goals simp

/-- Nothing is found in a value without brackets. -/
theorem branch_scalar (hv : v.nesting = 0) (b : Branch) : v.branch b = null := by
  cases v with
  | list xs => simp [nesting] at hv
  | object es => simp [nesting] at hv
  | _ => cases b <;> rfl

theorem keys?_scalar (hv : v.nesting = 0) : v.keys? = none := by
  cases v with
  | object es => simp [nesting] at hv
  | _ => rfl

theorem exists_rereadItems {xs : List Value} (h : reread n (list xs) = some w) :
    ∃ m ys, w = list ys ∧ List.Forall₂ (fun x y => reread m x = some y) xs ys := by
  cases n with
  | zero => simp [reread] at h
  | succ m =>
    rw [reread] at h
    obtain ⟨ys, hys, rfl⟩ := Option.map_eq_some_iff.mp h
    exact ⟨m, ys, rfl, rereadItems_forall₂ hys⟩

theorem exists_rereadEntries {es : Entries} (hv : Tidy (object es))
    (h : reread n (object es) = some w) :
    ∃ m fs, w = object fs ∧
      List.Forall₂ (fun e f => f.1 = e.1 ∧ reread m e.2 = some f.2) es fs := by
  cases n with
  | zero => simp [reread] at h
  | succ m =>
    rw [reread] at h
    obtain ⟨fs, hfs, rfl⟩ := Option.map_eq_some_iff.mp h
    have hkeys : (Entries.keys ([] ++ es)).Nodup := (tidy_object_iff.mp hv).1
    obtain ⟨fs, rfl, hread⟩ := rereadEntries_forall₂ hfs hkeys
    exact ⟨m, _, rfl, hread⟩

theorem keys?_of_reread (hv : Tidy v) (h : reread n v = some w) : w.keys? = v.keys? := by
  cases v with
  | object es =>
    obtain ⟨m, fs, rfl, hread⟩ := exists_rereadEntries hv h
    exact congrArg some (keys_eq_of_forall₂ hread)
  | list xs =>
    obtain ⟨m, ys, rfl, -⟩ := exists_rereadItems h
    rfl
  | _ => rw [keys?_scalar (nesting_of_reread rfl h), keys?_scalar rfl]

/-- What is found at a branch is read from what was there before. -/
theorem branch_of_reread (hv : Tidy v) (h : reread n v = some w) (b : Branch) :
    ∃ m, reread m (v.branch b) = some (w.branch b) := by
  have hnull : reread 0 .null = some .null := by simp [reread]
  cases v with
  | object es =>
    obtain ⟨m, fs, rfl, hread⟩ := exists_rereadEntries hv h
    cases b with
    | index i => exact ⟨0, hnull⟩
    | key k =>
      rw [branch, branch, get_object, get_object]
      cases hfound : Entries.lookup es k with
      | none =>
        have hlost : Entries.lookup fs k = none := by
          rw [Entries.lookup_eq_none_iff, keys_eq_of_forall₂ hread]
          exact Entries.lookup_eq_none_iff.mp hfound
        exact ⟨0, by rw [hlost]; exact hnull⟩
      | some x =>
        obtain ⟨y, hy, hxy⟩ := lookup_of_forall₂ hread hfound
        exact ⟨m, by rw [hy]; exact hxy⟩
  | list xs =>
    obtain ⟨m, ys, rfl, hread⟩ := exists_rereadItems h
    cases b with
    | key k => exact ⟨0, hnull⟩
    | index i =>
      rw [branch, branch, item, item, List.getD_eq_getElem?_getD, List.getD_eq_getElem?_getD]
      have hlength := hread.length_eq
      by_cases hi : i < xs.length
      · have hi' : i < ys.length := by omega
        have hxy : reread m xs[i] = some ys[i] := hread.get hi hi'
        exact ⟨m, by simpa [hi, hi'] using hxy⟩
      · have hi' : ¬ i < ys.length := by omega
        exact ⟨0, by simpa [hi, hi'] using hnull⟩
  | _ =>
    rw [branch_scalar rfl, branch_scalar (nesting_of_reread rfl h)]
    exact ⟨0, hnull⟩

theorem tidy_branch (hv : Tidy v) (b : Branch) : Tidy (v.branch b) := by
  cases b with
  | key k => exact hv.get k
  | index i => exact hv.item i

/-- At the end of every way the same keys are found as before. -/
theorem keys?_along (hv : Tidy v) (h : reread n v = some w) (way : List Branch) :
    (w.along way).keys? = (v.along way).keys? := by
  induction way generalizing n v w with
  | nil => exact keys?_of_reread hv h
  | cons b way ih =>
    obtain ⟨m, hbranch⟩ := branch_of_reread hv h b
    exact ih (tidy_branch hv b) hbranch

end Json

namespace Value

variable {v : Value}

/-- No object in a value that was obtained has a key twice. Where its compact or its indented text
is read back, every object in it has its keys in the order in which it had them. -/
theorem Obtained.keys_kept (h : Obtained v) :
    v.Everywhere DistinctKeys ∧
    ∀ text ∈ [Json.compact v, Json.pretty v], ∀ w, Json.read text = .ok w →
      ∀ way, (w.along way).keys? = (v.along way).keys? := by
  refine ⟨h.tidy, fun text htext w hread way => ?_⟩
  have hreread : Json.reread Json.deepest v = some w := by
    rcases List.mem_cons.mp htext with rfl | htext
    · exact (Json.read_write_eq_ok_iff Json.Spacing.blank_compact).mp hread
    · obtain rfl := List.mem_singleton.mp htext
      exact (Json.read_write_eq_ok_iff Json.Spacing.blank_indented).mp hread
  exact Json.keys?_along h.tidy hreread way

/-- An object whose text repeats two keys. -/
def repeating : EnvelopeItem :=
  ⟨null, Text.bytes "\x7b\"a\":1,\"b\":[\x7b\"k\":1,\"k\":2\x7d],\"a\":3\x7d"⟩

/-- The repeated keys are read, a number that has no text is added beside them, and then a tag. -/
theorem keys_kept_repeating :
    let v := object [("a", int 3), ("b", list [object [("k", int 2)], double Double.nan]),
      ("tags", object [("t", string "x")])]
    let w := object [("a", int 3), ("b", list [object [("k", int 2)], null]),
      ("tags", object [("t", string "x")])]
    Obtained v ∧ v.Everywhere DistinctKeys ∧ Json.read (Json.compact v) = .ok w ∧
      (w.along [.key "b", .index 0]).keys? = (v.along [.key "b", .index 0]).keys? ∧
      (v.along [.key "b", .index 0]).keys? = some ["k"] := by
  intro v w
  have hread : repeating.value =
      .ok (object [("a", int 3), ("b", list [object [("k", int 2)]])]) := rfl
  have hparsed := Obtained.payload hread
  have hlist := (hparsed.get "b").append (Obtained.double Double.nan)
  have hv : Obtained v := Obtained.enriched (s := Scope.fresh.setTag "t" "x")
    (fun _ hr => absurd hr List.not_mem_nil) nofun (fun _ hc => absurd hc List.not_mem_nil)
    (hparsed.set "b" hlist)
  have hback : Json.read (Json.compact v) = .ok w := rfl
  obtain ⟨hdistinct, hkept⟩ := Obtained.keys_kept hv
  exact ⟨hv, hdistinct, hback, hkept _ List.mem_cons_self w hback _, rfl⟩

end Value

end CrashCourier
