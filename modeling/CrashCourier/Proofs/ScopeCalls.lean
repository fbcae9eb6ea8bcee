import CrashCourier.Proofs.EngineCalls
import CrashCourier.Proofs.History
import CrashCourier.Proofs.Managed.Texts
import CrashCourier.Proofs.StartFrom
import CrashCourier.Proofs.ValueShape
import Mathlib.Logic.Function.Basic

namespace CrashCourier

/-- An entry for each key whose text is known. -/
def textEntries (rows : List (String × Option String)) : Entries :=
  rows.filterMap fun row => row.2.map fun text => (row.1, .string text)

theorem mem_of_mem_keys_textEntries {rows : List (String × Option String)} {key : String}
    (h : key ∈ Entries.keys (textEntries rows)) : key ∈ rows.map Prod.fst := by
  obtain ⟨e, he, rfl⟩ := List.mem_map.mp h
  obtain ⟨row, hrow, htext⟩ := List.mem_filterMap.mp he
  obtain ⟨text, -, rfl⟩ := Option.map_eq_some_iff.mp htext
  exact List.mem_map.mpr ⟨row, hrow, rfl⟩

theorem textEntries_concat (rows : List (String × Option String)) (key : String)
    (text : Option String) :
    textEntries (rows ++ [(key, text)]) =
      textEntries rows ++ (text.map fun s => (key, Value.string s)).toList := by
  cases text with
  | none => simp [textEntries]
  | some s => simp [textEntries]

/-- A new key is set after the others, if there is something to set it to. -/
theorem setSome_textEntries {rows : List (String × Option String)} {key : String}
    (h : key ∉ rows.map Prod.fst) (text : Option String) :
    (Value.object (textEntries rows)).setSome key text =
      .object (textEntries (rows ++ [(key, text)])) := by
  rw [textEntries_concat]
  cases text with
  | none => simp [Value.setSome]
  | some s =>
    have hnew : key ∉ Entries.keys (textEntries rows) := fun hm =>
      h (mem_of_mem_keys_textEntries hm)
    rw [Value.setSome, Value.set_object, Value.insert_of_notMem hnew]
    rfl

theorem userOf_eq (id email ipAddress username : Option String) :
    ScopeCall.userOf id email ipAddress username =
      .object (textEntries [("id", id), ("email", email), ("ip_address", ipAddress),
        ("username", username)]) := by
  have hempty : Value.emptyObject = .object (textEntries []) := rfl
  rw [ScopeCall.userOf, hempty, setSome_textEntries (by simp), setSome_textEntries (by simp),
    setSome_textEntries (by simp), setSome_textEntries (by simp)]
  rfl

/-- The fields of a breadcrumb that are texts; its time is known in any case. -/
def crumbRows (time : String) (type message category level : Option String) :
    List (String × Option String) :=
  [("timestamp", some time), ("type", type), ("message", message), ("category", category),
    ("level", level)]

theorem crumbOf_eq (moment : String) (level message category type timestamp data : Option String) :
    ScopeCall.crumbOf moment level message category type timestamp data =
      .object (textEntries (crumbRows (timestamp.getD moment) type message category level) ++
        (data.map fun text => ("data", Value.object [("data", .string text)])).toList) := by
  have hstamped : (Value.emptyObject.set "timestamp" (.string moment)) =
      .object (textEntries [("timestamp", some moment)]) := rfl
  have hplain : ((Value.breadcrumb moment type message).setSome "category" category).setSome
      "level" level = .object (textEntries (crumbRows moment type message category level)) := by
    rw [Value.breadcrumb, hstamped, setSome_textEntries (by simp), setSome_textEntries (by simp),
      setSome_textEntries (by simp), setSome_textEntries (by simp)]
    rfl
  have htimed : (Value.object (textEntries (crumbRows moment type message category level))).setSome
      "timestamp" timestamp =
      .object (textEntries (crumbRows (timestamp.getD moment) type message category level)) := by
    cases timestamp with
    | none => rfl
    | some time => rfl
  unfold ScopeCall.crumbOf
  dsimp only
  rw [hplain, htimed]
  cases data with
  | none => simp
  | some text =>
    have hnew : "data" ∉ Entries.keys (textEntries
        (crumbRows (timestamp.getD moment) type message category level)) := by
      intro hm
      simpa [crumbRows] using mem_of_mem_keys_textEntries hm
    dsimp only
    rw [Value.set_object, Value.insert_of_notMem hnew]
    rfl

/-- What a scope tells: all breadcrumbs count, however few of them are kept. -/
structure Context where
  tags : String → Option String
  extra : String → Option Value
  user : Option Value
  crumbs : List Value

namespace Context

variable {ρ : Type}

/-- What a call makes of a context, at a moment, if a reference means the text that `text` gives. -/
def applyCall (text : ρ → Option String) (moment : String) (c : Context) : ScopeCall ρ → Context
  | .setTag key value =>
    match key.bind text, value.bind text with
    | some k, some v => { c with tags := Function.update c.tags k (some v) }
    | _, _ => c
  | .removeTag key =>
    match key.bind text with
    | some k => { c with tags := Function.update c.tags k none }
    | none => c
  | .setExtra key value =>
    match key.bind text, value.bind text with
    | some k, some v => { c with extra := Function.update c.extra k (some (.string v)) }
    | _, _ => c
  | .removeExtra key =>
    match key.bind text with
    | some k => { c with extra := Function.update c.extra k none }
    | none => c
  | .setUser id email ipAddress username =>
    let user := textEntries [("id", id.bind text), ("email", email.bind text),
      ("ip_address", ipAddress.bind text), ("username", username.bind text)]
    { c with user := some (.object user) }
  | .removeUser => { c with user := none }
  | .addBreadcrumb level message category type timestamp data =>
    if level.isNone ∧ message.isNone ∧ category.isNone ∧ type.isNone then c
    else
      let fields := textEntries [("timestamp", some ((timestamp.bind text).getD moment)),
        ("type", type.bind text), ("message", message.bind text), ("category", category.bind text),
        ("level", level.bind text)]
      let wrapped := ((data.bind text).map fun t => ("data", .object [("data", .string t)])).toList
      { c with crumbs := c.crumbs ++ [.object (fields ++ wrapped)] }

/-- The scope keeps the newest breadcrumbs and all else. -/
structure Holds (c : Context) (s : Scope) : Prop where
  tags : ∀ key, s.tags.get? key = c.tags key
  extra : ∀ key, s.extra.get? key = c.extra key
  user : s.user = c.user
  breadcrumbs : s.breadcrumbs = c.crumbs.drop (c.crumbs.length - s.capacity)

variable {c : Context} {s : Scope}

theorem get?_insert_update {α : Type} {t : KeyTable α} {f : String → Option α}
    (h : ∀ key, t.get? key = f key) (k : String) (v : α) (key : String) :
    (t.insert k v).get? key = Function.update f k (some v) key := by
  rw [KeyTable.get?_insert, Function.update_apply, h]
  simp only [eq_comm]

theorem get?_erase_update {α : Type} {t : KeyTable α} {f : String → Option α}
    (h : ∀ key, t.get? key = f key) (k key : String) :
    (t.erase k).get? key = Function.update f k none key := by
  rw [KeyTable.get?_erase, Function.update_apply, h]
  simp only [eq_comm]

/-- A breadcrumb that is added pushes out no other than the whole history would. -/
theorem Holds.addBreadcrumb (h : c.Holds s) (crumb : Value) :
    Holds { c with crumbs := c.crumbs ++ [crumb] } (s.addBreadcrumb crumb) := by
  refine ⟨h.tags, h.extra, h.user, ?_⟩
  have hkept : s.breadcrumbs = Scope.newest s.capacity c.crumbs := h.breadcrumbs
  change Scope.newest s.capacity (s.breadcrumbs ++ [crumb]) = _
  rw [hkept, Scope.newest_newest_append (Nat.le_refl _)]
  rfl

/-- Scopes of one capacity that tell the same are equal. -/
theorem Holds.unique {t : Scope} (hs : c.Holds s) (ht : c.Holds t) (h : s.capacity = t.capacity) :
    s = t := by
  have htags : s.tags = t.tags := KeyTable.ext_get fun key => (hs.tags key).trans (ht.tags key).symm
  have hextra : s.extra = t.extra :=
    KeyTable.ext_get fun key => (hs.extra key).trans (ht.extra key).symm
  have huser : s.user = t.user := hs.user.trans ht.user.symm
  have hcrumbs : s.breadcrumbs = t.breadcrumbs := by
    rw [hs.breadcrumbs, ht.breadcrumbs, h]
  cases s
  cases t
  simp_all

/-- What a scope tells if none of its breadcrumbs gave way so far. -/
def ofScope (s : Scope) : Context := ⟨s.tags.get?, s.extra.get?, s.user, s.breadcrumbs⟩

theorem holds_ofScope (h : s.breadcrumbs.length ≤ s.capacity) : (ofScope s).Holds s :=
  ⟨fun _ => rfl, fun _ => rfl, rfl, (Scope.newest_of_length_le h).symm⟩

end Context

open Managed

/-- A change of the scope, or none, does to every scope what `f` does to its context. -/
def Scope.Change.Follows (change : Option Scope.Change) (f : Context → Context) : Prop :=
  ∀ c s, Context.Holds c s → Context.Holds (f c) (change.elim s s.change) ∧
    (change.elim s s.change).capacity = s.capacity

open Scope.Change (Follows)

theorem follows_none : Follows none fun c => c := fun _ _ hs => ⟨hs, rfl⟩

namespace ScopeCall

variable {h : Heap} {moment : String} {key value : Option Reference}

/-- A call leaves the heap as it is, and the change that it asks for follows what it says. -/
def Refines (h : Heap) (moment : String) (call : ScopeCall Reference) : Prop :=
  ∃ change, (call.change? moment).run h = (change, h) ∧
    Follows change fun c => c.applyCall h.readable? moment call

theorem refines_setTag : Refines h moment (.setTag key value) := by
  unfold Refines change?
  rw [run_bind_of (run_resolve h key), run_bind_of (run_resolve h value)]
  simp only [Context.applyCall]
  cases key.bind h.readable? with
  | none => exact ⟨none, rfl, follows_none⟩
  | some k =>
    cases value.bind h.readable? with
    | none => exact ⟨none, rfl, follows_none⟩
    | some v =>
      refine ⟨some (.setTag k v), rfl, fun c s hs => ⟨?_, rfl⟩⟩
      exact ⟨Context.get?_insert_update hs.tags k v, hs.extra, hs.user, hs.breadcrumbs⟩

theorem refines_removeTag : Refines h moment (.removeTag key) := by
  unfold Refines change?
  rw [run_bind_of (run_resolve h key)]
  simp only [Context.applyCall]
  cases key.bind h.readable? with
  | none => exact ⟨none, rfl, follows_none⟩
  | some k =>
    refine ⟨some (.removeTag k), rfl, fun c s hs => ⟨?_, rfl⟩⟩
    exact ⟨Context.get?_erase_update hs.tags k, hs.extra, hs.user, hs.breadcrumbs⟩

theorem refines_setExtra : Refines h moment (.setExtra key value) := by
  unfold Refines change?
  rw [run_bind_of (run_resolve h key), run_bind_of (run_resolve h value)]
  simp only [Context.applyCall]
  cases key.bind h.readable? with
  | none => exact ⟨none, rfl, follows_none⟩
  | some k =>
    cases value.bind h.readable? with
    | none => exact ⟨none, rfl, follows_none⟩
    | some v =>
      refine ⟨some (.setExtra k (.string v)), rfl, fun c s hs => ⟨?_, rfl⟩⟩
      exact ⟨hs.tags, Context.get?_insert_update hs.extra k _, hs.user, hs.breadcrumbs⟩

theorem refines_removeExtra : Refines h moment (.removeExtra key) := by
  unfold Refines change?
  rw [run_bind_of (run_resolve h key)]
  simp only [Context.applyCall]
  cases key.bind h.readable? with
  | none => exact ⟨none, rfl, follows_none⟩
  | some k =>
    refine ⟨some (.removeExtra k), rfl, fun c s hs => ⟨?_, rfl⟩⟩
    exact ⟨hs.tags, Context.get?_erase_update hs.extra k, hs.user, hs.breadcrumbs⟩

theorem refines_setUser (id email ipAddress username : Option Reference) :
    Refines h moment (.setUser id email ipAddress username) := by
  unfold Refines change?
  rw [run_bind_of (run_resolve h id), run_bind_of (run_resolve h email),
    run_bind_of (run_resolve h ipAddress), run_bind_of (run_resolve h username), userOf_eq]
  refine ⟨_, rfl, fun c s hs => ⟨?_, rfl⟩⟩
  exact ⟨hs.tags, hs.extra, rfl, hs.breadcrumbs⟩

/-- Whether a breadcrumb is added depends on the references, not on their texts. -/
theorem refines_addBreadcrumb (level message category type timestamp data : Option Reference) :
    Refines h moment (.addBreadcrumb level message category type timestamp data) := by
  unfold Refines
  simp only [change?, Context.applyCall]
  by_cases hnull : level.isNone ∧ message.isNone ∧ category.isNone ∧ type.isNone
  · have hcheck : (level.isNone && message.isNone && category.isNone && type.isNone) = true := by
      simpa [and_assoc] using hnull
    rw [if_pos hcheck]
    simp only [if_pos hnull]
    exact ⟨none, rfl, follows_none⟩
  · have hcheck :
        ¬ (level.isNone && message.isNone && category.isNone && type.isNone) = true := by
      simpa [and_assoc] using hnull
    rw [if_neg hcheck, run_bind_of (run_resolve h message), run_bind_of (run_resolve h type),
      run_bind_of (run_resolve h category), run_bind_of (run_resolve h level),
      run_bind_of (run_resolve h timestamp), run_bind_of (run_resolve h data), crumbOf_eq]
    simp only [if_neg hnull]
    exact ⟨_, rfl, fun c s hs => ⟨hs.addBreadcrumb _, rfl⟩⟩

theorem refines (h : Heap) (moment : String) (call : ScopeCall Reference) :
    call.Refines h moment := by
  cases call with
  | setTag key value => exact refines_setTag
  | removeTag key => exact refines_removeTag
  | setExtra key value => exact refines_setExtra
  | removeExtra key => exact refines_removeExtra
  | setUser id email ipAddress username => exact refines_setUser id email ipAddress username
  | removeUser =>
    refine ⟨_, rfl, fun c s hs => ⟨?_, rfl⟩⟩
    exact ⟨hs.tags, hs.extra, rfl, hs.breadcrumbs⟩
  | addBreadcrumb level message category type timestamp data =>
    exact refines_addBreadcrumb level message category type timestamp data

end ScopeCall

/-- A call with the moment at which it is made and the heap that it finds. -/
structure ScopeRequest where
  moment : String
  heap : Heap
  call : ScopeCall Reference

/-- What calls make of a context, each with the texts that its heap has. -/
def Context.applyCalls (c : Context) (qs : List ScopeRequest) : Context :=
  qs.foldl (fun c q => c.applyCall q.heap.readable? q.moment q.call) c

namespace Reporter

def serve (r : Reporter) (q : ScopeRequest) : Reporter :=
  after (changeScope q.call) { r with site := r.site.act (.wait q.moment) } q.heap

def serveAll (r : Reporter) (qs : List ScopeRequest) : Reporter := qs.foldl serve r

theorem scope_after_changeScope (call : ScopeCall Reference) (r : Reporter) (h : Heap) :
    ∃ change, Follows change (fun c => c.applyCall h.readable? r.site.world.supply.moment call) ∧
      (after (changeScope call) r h).site.engine.scope =
        change.elim r.site.engine.scope r.site.engine.scope.change := by
  obtain ⟨change, hrun, hfollows⟩ := call.refines h r.site.world.supply.moment
  refine ⟨change, hfollows, ?_⟩
  unfold after changeScope
  simp only [StateT.run_bind, ask, StateT.run_get, StateT.run_lift, pure_bind, bind_assoc]
  rw [hrun]
  cases change with
  | none => rfl
  | some c => rfl

/-- One call does to the scope what it does to its context. -/
theorem holds_serve {c : Context} {r : Reporter} (holds : c.Holds r.site.engine.scope)
    (q : ScopeRequest) :
    (c.applyCall q.heap.readable? q.moment q.call).Holds (r.serve q).site.engine.scope ∧
      (r.serve q).site.engine.scope.capacity = r.site.engine.scope.capacity := by
  obtain ⟨change, hfollows, hscope⟩ := scope_after_changeScope q.call
    { r with site := r.site.act (.wait q.moment) } q.heap
  have hscope' : (r.serve q).site.engine.scope =
      change.elim r.site.engine.scope r.site.engine.scope.change := hscope
  rw [hscope']
  exact hfollows c r.site.engine.scope holds

theorem holds_serveAll {c : Context} {r : Reporter} (holds : c.Holds r.site.engine.scope)
    (qs : List ScopeRequest) :
    (c.applyCalls qs).Holds (r.serveAll qs).site.engine.scope ∧
      (r.serveAll qs).site.engine.scope.capacity = r.site.engine.scope.capacity := by
  induction qs generalizing c r with
  | nil => exact ⟨holds, rfl⟩
  | cons q qs ih =>
    obtain ⟨hfirst, hcapacity⟩ := holds_serve holds q
    obtain ⟨hrest, hcapacities⟩ := ih hfirst
    exact ⟨hrest, hcapacities.trans hcapacity⟩

/-- After any calls the scope is the only one of its capacity that holds what the calls make of its
context, each argument meaning its text: that of a string which can be converted. -/
theorem scope_serveAll {c : Context} {r : Reporter} (holds : c.Holds r.site.engine.scope)
    (qs : List ScopeRequest) :
    (∀ s, (r.serveAll qs).site.engine.scope = s ↔
      (c.applyCalls qs).Holds s ∧ s.capacity = r.site.engine.scope.capacity) ∧
    ∀ (h : Heap) (source : Option Reference) (text : String),
      (source.bind h.readable? = some text ↔
        ∃ x, source = some x ∧ h.object? x = some (.text text) ∧ x ∉ h.corrupt ∧
          Text.length text + 1 < sizeLimit) ∧
      (resolve source).run h = (source.bind h.readable?, h) := by
  obtain ⟨hholds, hcapacity⟩ := holds_serveAll holds qs
  refine ⟨fun s => ⟨?_, ?_⟩, fun h source text => ⟨?_, run_resolve h source⟩⟩
  · rintro rfl
    exact ⟨hholds, hcapacity⟩
  · rintro ⟨hs, hsame⟩
    exact hholds.unique hs (hcapacity.trans hsame.symm)
  · rw [Option.bind_eq_some_iff]
    simp only [Heap.readable?_eq_some_iff, Heap.text?_eq_some_iff]

/-- A heap of three strings, of which the last is corrupt, and an options object. -/
def strings : Heap where
  objects := [.text "k", .text "v", .text "w", .options {}]
  corrupt := [⟨3⟩]

def requests : List ScopeRequest :=
  [⟨"10:00", strings, .setTag (some ⟨2⟩) (some ⟨1⟩)⟩,
    ⟨"10:01", strings, .setTag (some ⟨1⟩) (some ⟨3⟩)⟩,
    ⟨"10:02", strings, .addBreadcrumb (some ⟨4⟩) none none (some ⟨2⟩) none (some ⟨1⟩)⟩,
    ⟨"10:03", strings, .addBreadcrumb none none none none (some ⟨1⟩) (some ⟨2⟩)⟩]

theorem scope_serveAll_mixed :
    let scope := busy.site.engine.scope
    let c' := (Context.ofScope scope).applyCalls requests
    (Context.ofScope scope).Holds scope ∧ c'.Holds (busy.serveAll requests).site.engine.scope ∧
      c'.tags "k" = some "v" ∧ c'.tags "v" = some "k" ∧
      c'.crumbs = [.object [("timestamp", .string "10:02"), ("type", .string "v"),
        ("data", .object [("data", .string "k")])]] := by
  intro scope c'
  have holds : (Context.ofScope scope).Holds scope := Context.holds_ofScope (by decide)
  exact ⟨holds, (((scope_serveAll holds requests).1 _).mp rfl).1, rfl, rfl, rfl⟩

end Reporter

end CrashCourier
