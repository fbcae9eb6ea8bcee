import CrashCourier.Managed.Text
import CrashCourier.Proofs.Managed.Places

namespace CrashCourier.Managed

/-- A heap in the middle of a run that began at another: the references made since that are still to
be given back. -/
structure Heap.Balance (start : Heap) (held : List Reference) (h : Heap) : Prop where
  misreturned : h.misreturned = start.misreturned
  live : h.live.Perm (held ++ start.live)
  objects : start.objects <+: h.objects
  fresh : ∀ r ∈ held, start.objects.length < r.number

namespace Heap.Balance

variable {start h : Heap} {held : List Reference} {r : Reference}

theorem refl (h : Heap) : Balance h [] h :=
  ⟨rfl, List.Perm.refl _, List.prefix_refl _, by simp⟩

/-- The objects of the start are where they were. -/
theorem object? (ho : Balance start held h) {o : HeapObject} (hr : start.object? r = some o) :
    h.object? r = some o := Heap.object?_of_grown ho.objects hr

/-- What is held was not there at the start. -/
theorem object?_of_mem (ho : Balance start held h) (hr : r ∈ held) : start.object? r = none :=
  Heap.object?_eq_none (ho.fresh r hr)

theorem lend (ho : Balance start held h) (o : HeapObject) :
    Balance start ((h.lend o).1 :: held) (h.lend o).2 := by
  refine ⟨ho.misreturned, ?_, ho.objects.trans (List.prefix_append _ _), ?_⟩
  · change (h.live ++ [(h.lend o).1]).Perm _
    exact (List.perm_append_singleton _ _).trans (ho.live.cons _)
  · intro r hr
    rcases List.mem_cons.mp hr with rfl | hr
    · exact Nat.lt_succ_of_le ho.objects.length_le
    · exact ho.fresh r hr

/-- Only objects that were made since the start are replaced. -/
theorem replace (ho : Balance start held h) (hr : r ∈ held) (o : HeapObject) :
    Balance start held (h.replace r o) := by
  have hfresh := ho.fresh r hr
  unfold Heap.replace
  split
  · exact ho
  · next n hn =>
    obtain ⟨added, hadded⟩ := ho.objects
    refine ⟨ho.misreturned, ho.live, ?_, ho.fresh⟩
    refine ⟨added.set (n - start.objects.length) o, ?_⟩
    simp only [← hadded]
    rw [List.set_append_right _ _ (by omega)]

theorem takeBack (ho : Balance start (r :: held) h) : Balance start held (h.takeBack r) := by
  have hmem : r ∈ h.live := ho.live.mem_iff.mpr (by simp)
  have hback : h.takeBack r = { h with live := h.live.erase r } := by
    simp [Heap.takeBack, Heap.giveBack?, hmem]
  rw [hback]
  refine ⟨ho.misreturned, ?_, ho.objects, fun x hx => ho.fresh x (by simp [hx])⟩
  exact (ho.live.erase r).trans (by simp)

end Heap.Balance

/-- A call that is begun with some references held and ends with others, as its result says. -/
def Balanced {α : Type} (start : Heap) (held : List Reference) (call : StateM Heap α)
    (left : α → List Reference) : Prop :=
  ∀ h, start.Balance held h → start.Balance (left (call.run h).1) (call.run h).2

namespace Balanced

variable {α β : Type} {start : Heap} {held : List Reference} {r : Reference}

theorem pure (a : α) {left : α → List Reference} (ha : left a = held) :
    Balanced start held (Pure.pure a) left := by
  intro h ho
  exact ha ▸ ho

theorem bind {call : StateM Heap α} {next : α → StateM Heap β} {middle : α → List Reference}
    {left : β → List Reference} (hcall : Balanced start held call middle)
    (hnext : ∀ a, Balanced start (middle a) (next a) left) :
    Balanced start held (call >>= next) left := by
  intro h ho
  exact hnext (call.run h).1 (call.run h).2 (hcall h ho)

theorem map {call : StateM Heap α} {f : α → β} {left : β → List Reference}
    (hcall : Balanced start held call fun a => left (f a)) :
    Balanced start held (f <$> call) left := by
  intro h ho
  exact hcall h ho

theorem get : Balanced start held MonadState.get fun _ => held := by
  intro h ho
  exact ho

/-- A call that only looks at the heap. -/
theorem look (f : Heap → α) : Balanced start held (do return f (← MonadState.get)) fun _ => held :=
  bind get fun _ => pure _ rfl

theorem textLength (source : Reference) :
    Balanced start held (Host.textLength source) fun _ => held := look _

theorem writeText (source : Reference) (slice : Bytes) :
    Balanced start held (Host.writeText source slice) fun _ => held := look _

theorem callBool (object : Reference) (m : String) :
    Balanced start held (Host.callBool object m) fun _ => held := look _

theorem callInt (object : Reference) (m : String) :
    Balanced start held (Host.callInt object m) fun _ => held := look _

theorem lending (o : HeapObject) : Balanced start held (Heap.lending o) fun r => r :: held := by
  intro h ho
  exact ho.lend o

theorem newText (s : String) :
    Balanced start held (Host.newText s) fun r => r.toList ++ held :=
  map (lending _)

/-- The references that a call returned. -/
def returned : Except Thrown (Option Reference) → List Reference
  | .ok r => r.toList
  | .error _ => []

theorem callText (object : Reference) (m : String) :
    Balanced start held (Host.callText object m) fun result => returned result ++ held := by
  refine bind get fun h => ?_
  split
  · exact pure _ rfl
  · exact pure _ rfl
  · exact bind (lending _) fun r => pure _ rfl

theorem newArray (className : String) (n : Nat) :
    Balanced start held (Host.newArray className n) fun r => r.toList ++ held := by
  refine bind get fun h => ?_
  split
  · exact pure _ rfl
  · exact map (lending _)

theorem newObject (className : String) :
    Balanced start held (Host.newObject className) fun r => r.toList ++ held := by
  refine bind get fun h => ?_
  split
  · exact pure _ rfl
  · have hcount : Balanced start held (modify fun h => { h with records := h.records + 1 })
        fun _ => held := fun h ho => ⟨ho.misreturned, ho.live, ho.objects, ho.fresh⟩
    exact hcount.bind fun _ => map (lending _)

theorem putBack (hr : r ∈ held) (result : Except Thrown HeapObject) :
    Balanced start held (Heap.putBack r result) fun _ => held := by
  intro h ho
  cases result with
  | error e => exact ho
  | ok o => exact ho.replace hr o

theorem callSetter (hr : r ∈ held) (m : String) (arg : Argument Reference) :
    Balanced start held (Host.callSetter r m arg) fun _ => held :=
  bind get fun _ => putBack hr _

theorem setElement (hr : r ∈ held) (index : Nat) (element : Reference) :
    Balanced start held (Host.setElement r index element) fun _ => held :=
  bind get fun _ => putBack hr _

theorem delete : Balanced start (r :: held) (Host.delete r) fun _ => held := by
  intro h ho
  exact ho.takeBack

theorem copyInto (source : Reference) (buffer : Bytes) :
    Balanced start held (Managed.copyInto source buffer) fun _ => held := by
  refine bind (textLength source) fun n => ?_
  split
  · exact pure _ rfl
  · refine bind (writeText source _) fun written => ?_
    obtain ⟨result, staged⟩ := written
    cases result with
    | error e => exact pure _ rfl
    | ok _ => exact pure _ rfl

theorem toBuffer (source : Reference) :
    Balanced start held (Managed.toBuffer source) fun _ => held := by
  refine bind (textLength source) fun n => ?_
  split
  · exact pure _ rfl
  · exact bind (copyInto source _) fun _ => pure _ rfl

theorem resolve (source : Option Reference) :
    Balanced start held (Managed.resolve source) fun _ => held := by
  cases source with
  | none => exact pure _ rfl
  | some r => exact bind (toBuffer r) fun _ => pure _ rfl

/-- Whatever is done with a reference, it is given back afterwards. -/
theorem using? (r : Option Reference) {use : Option Reference → StateM Heap α}
    (huse : Balanced start (r.toList ++ held) (use r) fun _ => r.toList ++ held) :
    Balanced start (r.toList ++ held) (Managed.using? r use) fun _ => held := by
  refine bind huse fun result => ?_
  cases r with
  | none => exact pure _ rfl
  | some r => exact bind delete fun _ => pure _ rfl

theorem callForText (object : Reference) (m : String) :
    Balanced start held (Managed.callForText object m) fun _ => held := by
  refine bind (callText object m) fun result => ?_
  cases result with
  | error e => exact pure _ rfl
  | ok text =>
    refine using? text ?_
    cases text with
    | none => exact pure _ rfl
    | some r => exact toBuffer r

end Balanced

end CrashCourier.Managed
