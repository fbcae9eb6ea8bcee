import CrashCourier.Value
import Mathlib.Data.List.Induction
import Mathlib.Data.Set.Card

namespace CrashCourier.Value

/-- A call that may change an object. -/
inductive Edit where
  | set (key : String) (value : Value)
  | remove (key : String)

namespace Edit

def key : Edit → String
  | set key _ => key
  | remove key => key

/-- What a call leaves under its key. -/
def left : Edit → Option Value
  | set _ value => some value
  | remove _ => none

end Edit

def edit? (v : Value) : Edit → Option Value
  | .set key value => v.set? key value
  | .remove key => v.remove? key

/-- What a call answers, and the value after it. -/
def edit (v : Value) (e : Edit) : Bool × Value := ((v.edit? e).isSome, (v.edit? e).getD v)

def editAll (v : Value) (es : List Edit) : Value := es.foldl (fun v e => (v.edit e).2) v

/-- What calls answer, one after the other. -/
def answers (v : Value) : List Edit → List Bool
  | [] => []
  | e :: es => (v.edit e).1 :: answers (v.edit e).2 es

namespace Edit

/-- What calls leave under a key: the value of the last one that sets it, unless one after that
removes it. -/
def live (es : List Edit) (key : String) : Option Value :=
  (es.reverse.find? fun e => e.key = key).bind Edit.left

/-- Whether the call at a place sets a key that those before it leave absent. -/
def insertsAt (es : List Edit) (key : String) (i : Nat) : Bool :=
  match es[i]? with
  | some (set k _) => k = key && (live (es.take i) key).isNone
  | _ => false

/-- The place of the last call that set a key while it was absent. -/
def lastInsertion (es : List Edit) (key : String) : Option Nat :=
  ((List.range es.length).filter (insertsAt es key)).getLast?

/-- Both keys have been inserted, the first one earlier. -/
def InsertedBefore (es : List Edit) (key other : String) : Prop :=
  ∃ i j, lastInsertion es key = some i ∧ lastInsertion es other = some j ∧ i < j

/-- What the call at a place is to answer: only a key that is absent cannot be removed. -/
def answerAt (es : List Edit) (i : Nat) : Edit → Bool
  | set _ _ => true
  | remove key => (live (es.take i) key).isSome

variable (es : List Edit) (e : Edit) (key : String)

theorem live_concat : live (es ++ [e]) key = if e.key = key then e.left else live es key := by
  rw [live, List.reverse_concat, List.find?_cons]
  by_cases h : e.key = key
  · simp [h]
  · simp [h, live]

theorem insertsAt_concat_of_lt {i : Nat} (h : i < es.length) :
    insertsAt (es ++ [e]) key i = insertsAt es key i := by
  have hcall : (es ++ [e])[i]? = es[i]? := List.getElem?_append_left h
  have hbefore : (es ++ [e]).take i = es.take i := List.take_append_of_le_length (by omega)
  rw [insertsAt, insertsAt, hcall, hbefore]

theorem insertsAt_concat_length :
    insertsAt (es ++ [e]) key es.length =
      (e.left.isSome && decide (e.key = key) && (live es key).isNone) := by
  have hcall : (es ++ [e])[es.length]? = some e := List.getElem?_concat_length
  have hbefore : (es ++ [e]).take es.length = es := List.take_left
  rw [insertsAt, hcall, hbefore]
  cases e <;> rfl

theorem lastInsertion_lt {i : Nat} (h : lastInsertion es key = some i) : i < es.length := by
  have hmem := List.mem_of_getLast? h
  exact List.mem_range.mp (List.mem_of_mem_filter hmem)

/-- The last call inserts a key, or the one that has done so before stays the last. -/
theorem lastInsertion_concat : lastInsertion (es ++ [e]) key =
    if insertsAt (es ++ [e]) key es.length then some es.length else lastInsertion es key := by
  have hearlier : (List.range es.length).filter (insertsAt (es ++ [e]) key) =
      (List.range es.length).filter (insertsAt es key) := by
    apply List.filter_congr
    intro i hi
    exact insertsAt_concat_of_lt es e key (List.mem_range.mp hi)
  rw [lastInsertion, List.length_append, List.length_singleton, List.range_succ,
    List.filter_append, hearlier]
  cases h : insertsAt (es ++ [e]) key es.length with
  | true => simp [h]
  | false => simp [h, lastInsertion]

/-- A call that inserts nothing under a key leaves it where it was inserted. -/
theorem lastInsertion_concat_of_not
    (h : (e.left.isSome && decide (e.key = key) && (live es key).isNone) = false) :
    lastInsertion (es ++ [e]) key = lastInsertion es key := by
  rw [lastInsertion_concat, insertsAt_concat_length, h]
  rfl

end Edit

theorem edit_set (entries : Entries) (key : String) (x : Value) :
    (object entries).edit (.set key x) = (true, object (Entries.insert entries key x)) := rfl

theorem erase_of_notMem {entries : Entries} {key : String} (h : key ∉ Entries.keys entries) :
    Entries.erase entries key = entries := by
  apply List.filter_eq_self.mpr
  intro e he
  have hne : e.1 ≠ key := fun heq => h (heq ▸ List.mem_map_of_mem he)
  exact decide_eq_true hne

theorem edit_remove (entries : Entries) (key : String) :
    (object entries).edit (.remove key) =
      (decide (key ∈ Entries.keys entries), object (Entries.erase entries key)) := by
  by_cases h : key ∈ Entries.keys entries
  · simp [edit, edit?, remove?, h]
  · simp [edit, edit?, remove?, h, erase_of_notMem h]

theorem keys_erase (entries : Entries) (key : String) :
    Entries.keys (Entries.erase entries key) = (Entries.keys entries).filter fun k => k ≠ key := by
  rw [Entries.erase, Entries.keys, Entries.keys, List.filter_map]
  rfl

/-- These entries are what calls leave of a fresh object: the live keys in the order in which they
were inserted. -/
structure Leaves (es : List Edit) (entries : Entries) : Prop where
  lookup : ∀ key, Entries.lookup entries key = Edit.live es key
  inserted : ∀ key ∈ Entries.keys entries, ∃ i, Edit.lastInsertion es key = some i
  order : (Entries.keys entries).Pairwise (Edit.InsertedBefore es)

variable {es : List Edit} {entries : Entries}

theorem leaves_nil : Leaves [] [] where
  lookup _ := rfl
  inserted _ h := absurd h List.not_mem_nil
  order := List.Pairwise.nil

namespace Leaves

theorem mem_keys_iff (h : Leaves es entries) (key : String) :
    key ∈ Entries.keys entries ↔ (Edit.live es key).isSome = true := by
  rw [← h.lookup key, ← Option.ne_none_iff_isSome, ne_eq, Entries.lookup_eq_none_iff, not_not]

theorem nodup (h : Leaves es entries) : (Entries.keys entries).Nodup := by
  apply h.order.imp
  rintro key other ⟨i, j, hi, hj, hlt⟩ rfl
  have heq : i = j := Option.some.inj (hi.symm.trans hj)
  omega

/-- There are as many entries as live keys. -/
theorem length (h : Leaves es entries) :
    entries.length = {key | (Edit.live es key).isSome = true}.ncard := by
  have hset : {key | (Edit.live es key).isSome = true} = (Entries.keys entries).toFinset := by
    ext key
    rw [Set.mem_ofPred_eq, Finset.mem_coe, List.mem_toFinset, h.mem_keys_iff]
  rw [hset, Set.ncard_coe_finset, List.toFinset_card_of_nodup h.nodup, Entries.keys,
    List.length_map]

/-- Keys that a call leaves where they are stay in their order. -/
theorem pairwise_concat {keys : List String} {e : Edit}
    (hstay : ∀ key ∈ keys, Edit.lastInsertion (es ++ [e]) key = Edit.lastInsertion es key)
    (horder : keys.Pairwise (Edit.InsertedBefore es)) :
    keys.Pairwise (Edit.InsertedBefore (es ++ [e])) := by
  apply horder.imp_of_mem
  rintro key other hkey hother ⟨i, j, hi, hj, hlt⟩
  exact ⟨i, j, (hstay key hkey).trans hi, (hstay other hother).trans hj, hlt⟩

theorem remove (h : Leaves es entries) (key : String) :
    Leaves (es ++ [.remove key]) (Entries.erase entries key) := by
  have hstay : ∀ k, Edit.lastInsertion (es ++ [.remove key]) k = Edit.lastInsertion es k :=
    fun k => Edit.lastInsertion_concat_of_not es _ k rfl
  have hsub : (Entries.keys (Entries.erase entries key)).Sublist (Entries.keys entries) := by
    rw [keys_erase]
    exact List.filter_sublist
  refine ⟨fun other => ?_, fun other hother => ?_, ?_⟩
  · rw [Entries.lookup_erase, Edit.live_concat, h.lookup]
    rfl
  · rw [hstay]
    exact h.inserted other (hsub.mem hother)
  · exact pairwise_concat (fun k _ => hstay k) (h.order.sublist hsub)

/-- A live key keeps its place. -/
theorem set_of_mem (h : Leaves es entries) {key : String} (x : Value)
    (hmem : key ∈ Entries.keys entries) :
    Leaves (es ++ [.set key x]) (Entries.insert entries key x) := by
  have hlive := (h.mem_keys_iff key).mp hmem
  have hstay : ∀ k, Edit.lastInsertion (es ++ [.set key x]) k = Edit.lastInsertion es k := by
    intro k
    apply Edit.lastInsertion_concat_of_not
    by_cases hk : key = k
    · obtain ⟨v, hv⟩ := Option.isSome_iff_exists.mp hlive
      simp [← hk, hv]
    · simp [Edit.key, hk]
  have hkeys : Entries.keys (Entries.insert entries key x) = Entries.keys entries := by
    rw [Entries.keys_insert, if_pos hmem]
  refine ⟨fun other => ?_, fun other hother => ?_, ?_⟩
  · rw [Entries.lookup_insert, Edit.live_concat, h.lookup]
    rfl
  · rw [hstay]
    exact h.inserted other (hkeys ▸ hother)
  · rw [hkeys]
    exact pairwise_concat (fun k _ => hstay k) h.order

/-- An absent key goes to the end, and its insertion is the latest. -/
theorem set_of_notMem (h : Leaves es entries) {key : String} (x : Value)
    (hmem : key ∉ Entries.keys entries) :
    Leaves (es ++ [.set key x]) (Entries.insert entries key x) := by
  have hnone : Edit.live es key = none := by
    rw [← h.lookup key]
    exact Entries.lookup_eq_none_iff.mpr hmem
  have hnew : Edit.lastInsertion (es ++ [.set key x]) key = some es.length := by
    rw [Edit.lastInsertion_concat, Edit.insertsAt_concat_length, hnone]
    simp [Edit.left, Edit.key]
  have hstay : ∀ k ∈ Entries.keys entries,
      Edit.lastInsertion (es ++ [.set key x]) k = Edit.lastInsertion es k := by
    intro k hk
    apply Edit.lastInsertion_concat_of_not
    have hne : key ≠ k := fun heq => hmem (heq ▸ hk)
    simp [Edit.key, hne]
  have hkeys : Entries.keys (Entries.insert entries key x) = Entries.keys entries ++ [key] := by
    rw [Entries.keys_insert, if_neg hmem]
  refine ⟨fun other => ?_, fun other hother => ?_, ?_⟩
  · rw [Entries.lookup_insert, Edit.live_concat, h.lookup]
    rfl
  · rw [hkeys, List.mem_append, List.mem_singleton] at hother
    rcases hother with hold | rfl
    · rw [hstay other hold]
      exact h.inserted other hold
    · exact ⟨es.length, hnew⟩
  · rw [hkeys, List.pairwise_append]
    refine ⟨pairwise_concat hstay h.order, List.pairwise_singleton _ _, ?_⟩
    intro k hk last hlast
    rw [List.mem_singleton.mp hlast]
    obtain ⟨i, hi⟩ := h.inserted k hk
    have hlt := Edit.lastInsertion_lt es k hi
    exact ⟨i, es.length, (hstay k hk).trans hi, hnew, hlt⟩

/-- One call: what it leaves, and its answer. -/
theorem edit (h : Leaves es entries) (e : Edit) :
    ∃ after, (object entries).edit e = (Edit.answerAt (es ++ [e]) es.length e, object after) ∧
      Leaves (es ++ [e]) after := by
  cases e with
  | set key x =>
    refine ⟨Entries.insert entries key x, edit_set entries key x, ?_⟩
    by_cases hmem : key ∈ Entries.keys entries
    · exact h.set_of_mem x hmem
    · exact h.set_of_notMem x hmem
  | remove key =>
    refine ⟨Entries.erase entries key, ?_, h.remove key⟩
    have hanswer : Edit.answerAt (es ++ [.remove key]) es.length (.remove key) =
        decide (key ∈ Entries.keys entries) := by
      rw [Edit.answerAt, List.take_left]
      exact Bool.eq_iff_iff.mpr (by rw [decide_eq_true_iff, h.mem_keys_iff])
    rw [edit_remove, hanswer]

end Leaves

theorem editAll_concat (v : Value) (es : List Edit) (e : Edit) :
    v.editAll (es ++ [e]) = ((v.editAll es).edit e).2 := by
  rw [editAll, editAll, List.foldl_append]
  rfl

theorem answers_concat (v : Value) (es : List Edit) (e : Edit) :
    v.answers (es ++ [e]) = v.answers es ++ [((v.editAll es).edit e).1] := by
  induction es generalizing v with
  | nil => rfl
  | cons first es ih =>
    rw [List.cons_append, answers, ih, answers, List.cons_append]
    rfl

/-- What calls are to answer on a fresh object. -/
def expectedAnswers (es : List Edit) : List Bool :=
  es.zipIdx.map fun call => Edit.answerAt es call.2 call.1

theorem expectedAnswers_concat (es : List Edit) (e : Edit) :
    expectedAnswers (es ++ [e]) =
      expectedAnswers es ++ [Edit.answerAt (es ++ [e]) es.length e] := by
  have hearlier : es.zipIdx.map (fun call => Edit.answerAt (es ++ [e]) call.2 call.1) =
      expectedAnswers es := by
    apply List.map_congr_left
    intro call hcall
    have hlt := List.snd_lt_of_mem_zipIdx hcall
    have hbefore : (es ++ [e]).take call.2 = es.take call.2 :=
      List.take_append_of_le_length (by omega)
    cases hc : call.1 with
    | set key x => rfl
    | remove key => rw [Edit.answerAt, Edit.answerAt, hbefore]
  rw [expectedAnswers, List.zipIdx_append, List.map_append, hearlier, Nat.zero_add]
  rfl

/-- After every run of calls the object holds what they leave, and each call has answered what it
was to. -/
theorem leaves_editAll (es : List Edit) :
    (∃ entries, emptyObject.editAll es = object entries ∧ Leaves es entries) ∧
      emptyObject.answers es = expectedAnswers es := by
  induction es using List.reverseRecOn with
  | nil => exact ⟨⟨[], rfl, leaves_nil⟩, rfl⟩
  | append_singleton es e ih =>
    obtain ⟨⟨entries, hentries, hleaves⟩, hanswers⟩ := ih
    obtain ⟨after, hedit, hafter⟩ := hleaves.edit e
    refine ⟨⟨after, ?_, hafter⟩, ?_⟩
    · rw [editAll_concat, hentries, hedit]
    · rw [answers_concat, hanswers, hentries, hedit, expectedAnswers_concat]

theorem edit_of_kind_ne {v : Value} (h : v.kind ≠ .object) (e : Edit) : v.edit e = (false, v) := by
  cases v with
  | object entries => exact absurd rfl h
  | _ => cases e <;> rfl

theorem editAll_of_kind_ne {v : Value} (h : v.kind ≠ .object) (es : List Edit) :
    v.editAll es = v ∧ v.answers es = List.replicate es.length false := by
  induction es with
  | nil => exact ⟨rfl, rfl⟩
  | cons e es ih =>
    obtain ⟨hsame, hfalse⟩ := ih
    have he := edit_of_kind_ne h e
    refine ⟨?_, ?_⟩
    · rw [editAll, List.foldl_cons, he]
      exact hsame
    · rw [answers, he, hfalse]
      rfl

/-- After calls that set and remove keys a fresh object gives for each key the value of the last
call that set it, if none has removed it since; it has as many entries as such keys, in the order in
which these were last set while absent. A key is removed if it is live. On a value that is no object
every call answers no and changes nothing. -/
theorem edits_ordered (es : List Edit) :
    (∃ entries, emptyObject.editAll es = object entries ∧
      (∀ key, (object entries).get key = (Edit.live es key).getD null) ∧
      (object entries).size = {key | (Edit.live es key).isSome = true}.ncard ∧
      (∀ key, key ∈ Entries.keys entries ↔ (Edit.live es key).isSome = true) ∧
      (Entries.keys entries).Pairwise (Edit.InsertedBefore es)) ∧
    emptyObject.answers es = expectedAnswers es ∧
    ∀ v : Value, v.kind ≠ .object →
      v.editAll es = v ∧ v.answers es = List.replicate es.length false := by
  obtain ⟨⟨entries, hentries, hleaves⟩, hanswers⟩ := leaves_editAll es
  refine ⟨⟨entries, hentries, fun key => ?_, hleaves.length, hleaves.mem_keys_iff, hleaves.order⟩,
    hanswers, fun v hv => editAll_of_kind_ne hv es⟩
  rw [get_object, hleaves.lookup]

/-- A key is set, set again, removed and set once more; another one is removed that is not there. -/
def reinsertion : List Edit :=
  [.set "a" (int 1), .set "b" (int 2), .set "a" (int 3), .remove "a", .remove "c", .set "a" (int 4)]

theorem edits_ordered_reinsertion :
    emptyObject.editAll reinsertion = object [("b", int 2), ("a", int 4)] ∧
    emptyObject.answers reinsertion = [true, true, true, true, false, true] ∧
    Edit.lastInsertion reinsertion "a" = some 5 ∧ (int 1).kind ≠ .object ∧
    (int 1).editAll reinsertion = int 1 ∧
    (int 1).answers reinsertion = List.replicate 6 false := by
  have hkind : (int 1).kind ≠ .object := by decide
  obtain ⟨-, -, hothers⟩ := edits_ordered reinsertion
  obtain ⟨hsame, hanswers⟩ := hothers (int 1) hkind
  exact ⟨rfl, rfl, by decide, hkind, hsame, hanswers⟩

end CrashCourier.Value
