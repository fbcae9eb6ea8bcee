import CrashCourier.Managed.Heap

namespace CrashCourier.Managed.Heap

variable {h h' h'' : Heap} {r x : Reference} {o p q : HeapObject} {m n : Nat}

theorem number_pos_of_object? (hr : h.object? r = some o) : 0 < r.number := by
  unfold object? at hr
  split at hr
  · simp at hr
  · omega

theorem object?_eq_none (hr : h.objects.length < r.number) : h.object? r = none := by
  unfold object?
  split
  · rfl
  · exact List.getElem?_eq_none (by omega)

theorem ne_of_object? (hx : h.object? x = none) (hr : h.object? r = some o) : x ≠ r := by
  rintro rfl
  rw [hr] at hx
  contradiction

theorem number_le_of_object? (hr : h.object? r = some o) : r.number ≤ h.objects.length := by
  refine Nat.le_of_not_lt fun hlt => ?_
  rw [object?_eq_none hlt] at hr
  contradiction

theorem object?_lend (h : Heap) (o : HeapObject) : (h.lend o).2.object? (h.lend o).1 = some o := by
  simp [lend, insert, object?]

/-- Objects that are made later do not take the place of any. -/
theorem object?_of_grown (hgrown : h.objects <+: h'.objects) (hr : h.object? r = some o) :
    h'.object? r = some o := by
  obtain ⟨added, hadded⟩ := hgrown
  unfold object? at hr ⊢
  split at hr
  · simp at hr
  · obtain ⟨hlt, -⟩ := List.getElem?_eq_some_iff.mp hr
    simp only [← hadded]
    rw [List.getElem?_append_left hlt, hr]

theorem object?_lend_of_some (hr : h.object? r = some o) (p : HeapObject) :
    (h.lend p).2.object? r = some o := object?_of_grown (List.prefix_append _ _) hr

theorem object?_eq_none_of_lend (hx : (h.lend p).2.object? x = none) : h.object? x = none := by
  refine Option.eq_none_iff_forall_ne_some.mpr fun o hold => ?_
  rw [object?_lend_of_some hold] at hx
  contradiction

theorem object?_replace (hr : h.object? r = some o) (p : HeapObject) :
    (h.replace r p).object? r = some p := by
  have hle := number_le_of_object? hr
  have hpos := number_pos_of_object? hr
  obtain ⟨number⟩ := r
  cases number with
  | zero => simp at hpos
  | succ k => exact List.getElem?_set_self hle

theorem object?_replace_of_ne (hx : x ≠ r) (p : HeapObject) :
    (h.replace r p).object? x = h.object? x := by
  obtain ⟨i⟩ := x
  obtain ⟨k⟩ := r
  cases k with
  | zero => rfl
  | succ k =>
    cases i with
    | zero => rfl
    | succ i =>
      have hne : k ≠ i := fun e => hx (by rw [e])
      exact List.getElem?_set_ne hne

theorem object?_takeBack (h : Heap) (r x : Reference) : (h.takeBack r).object? x = h.object? x := by
  unfold takeBack giveBack?
  split <;> rfl

/-- The second heap is the first one with an object in a place, with further objects made, `n`
records among them. -/
structure Puts (h : Heap) (r : Reference) (o : HeapObject) (n : Nat) (h' : Heap) : Prop where
  put : h'.object? r = some o
  others : ∀ x p, x ≠ r → h.object? x = some p → h'.object? x = some p
  failingMethods : h'.failingMethods = h.failingMethods
  failingClasses : h'.failingClasses = h.failingClasses
  records : h'.records = h.records + n

namespace Puts

theorem refl (hr : h.object? r = some o) : h.Puts r o 0 h :=
  ⟨hr, fun _ _ _ hx => hx, rfl, rfl, rfl⟩

theorem trans (hp : h.Puts r o m h') (hq : h'.Puts r p n h'') : h.Puts r p (m + n) h'' where
  put := hq.put
  others := fun x o hx hold => hq.others x o hx (hp.others x o hx hold)
  failingMethods := hq.failingMethods.trans hp.failingMethods
  failingClasses := hq.failingClasses.trans hp.failingClasses
  records := by rw [hq.records, hp.records, Nat.add_assoc]

/-- What is not there afterwards was not there before. -/
theorem object?_eq_none (hp : h.Puts r o n h') (hx : h'.object? x = none) :
    h.object? x = none := by
  refine Option.eq_none_iff_forall_ne_some.mpr fun p hold => ?_
  by_cases hxr : x = r
  · subst hxr
    rw [hp.put] at hx
    contradiction
  · rw [hp.others x p hxr hold] at hx
    contradiction

/-- A change of what was not there before is no change of the heap before. -/
theorem aside (hp : h.Puts r o m h') (hq : h'.Puts x p n h'') (hr : r ≠ x)
    (hx : h.object? x = none) : h.Puts r o (m + n) h'' where
  put := hq.others r o hr hp.put
  others := fun y q hy hold =>
    hq.others y q (ne_of_object? hx hold).symm (hp.others y q hy hold)
  failingMethods := hq.failingMethods.trans hp.failingMethods
  failingClasses := hq.failingClasses.trans hp.failingClasses
  records := by rw [hq.records, hp.records, Nat.add_assoc]

theorem lend (hp : h.Puts r o n h') (p : HeapObject) : h.Puts r o n (h'.lend p).2 where
  put := object?_lend_of_some hp.put p
  others := fun x o hx hold => object?_lend_of_some (hp.others x o hx hold) p
  failingMethods := hp.failingMethods
  failingClasses := hp.failingClasses
  records := hp.records

theorem replace (hp : h.Puts r o n h') (p : HeapObject) : h.Puts r p n (h'.replace r p) where
  put := object?_replace hp.put p
  others := fun x o hx hold => (object?_replace_of_ne hx p).trans (hp.others x o hx hold)
  failingMethods := by
    unfold Heap.replace
    split <;> exact hp.failingMethods
  failingClasses := by
    unfold Heap.replace
    split <;> exact hp.failingClasses
  records := by
    unfold Heap.replace
    split <;> exact hp.records

theorem takeBack (hp : h.Puts r o n h') (x : Reference) : h.Puts r o n (h'.takeBack x) where
  put := (object?_takeBack h' x r).trans hp.put
  others := fun y o hy hold => (object?_takeBack h' x y).trans (hp.others y o hy hold)
  failingMethods := by
    unfold Heap.takeBack giveBack?
    split <;> exact hp.failingMethods
  failingClasses := by
    unfold Heap.takeBack giveBack?
    split <;> exact hp.failingClasses
  records := by
    unfold Heap.takeBack giveBack?
    split <;> exact hp.records

end Puts

end CrashCourier.Managed.Heap
