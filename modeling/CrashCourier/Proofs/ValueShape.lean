import CrashCourier.Value

namespace CrashCourier.Value

/-- Every value is a scalar, or made of values of which something holds already. -/
theorem shapeInduction {P : Value → Prop} (null : P .null) (bool : ∀ b, P (.bool b))
    (int : ∀ n, P (.int n)) (double : ∀ d, P (.double d)) (string : ∀ s, P (.string s))
    (list : ∀ xs, (∀ x ∈ xs, P x) → P (.list xs))
    (object : ∀ es : Entries, (∀ e ∈ es, P e.2) → P (.object es)) (v : Value) : P v :=
  Value.rec (motive_1 := P) (motive_2 := fun xs => ∀ x ∈ xs, P x)
    (motive_3 := fun es => ∀ e ∈ es, P e.2) (motive_4 := fun e => P e.2)
    null bool int double string list object
    (by simp) (fun _ _ hx hxs => List.forall_mem_cons.mpr ⟨hx, hxs⟩)
    (by simp) (fun _ _ he hes => List.forall_mem_cons.mpr ⟨he, hes⟩)
    (fun _ _ h => h) v

/-- The keys of an object in their order; none for any other value. -/
def keys? : Value → Option (List String)
  | object es => some (Entries.keys es)
  | _ => none

mutual

/-- How many brackets are open at most at one place of the text of a value. -/
def nesting : Value → Nat
  | list xs => nestingItems xs + 1
  | object es => nestingEntries es + 1
  | _ => 0

def nestingItems : List Value → Nat
  | [] => 0
  | x :: xs => max (nesting x) (nestingItems xs)

def nestingEntries : List (String × Value) → Nat
  | [] => 0
  | (_, x) :: es => max (nesting x) (nestingEntries es)

end

theorem nestingItems_le_iff {xs : List Value} {n : Nat} :
    nestingItems xs ≤ n ↔ ∀ x ∈ xs, nesting x ≤ n := by
  induction xs with
  | nil => simp [nestingItems]
  | cons x xs ih => rw [nestingItems, Nat.max_le, ih, List.forall_mem_cons]

theorem nestingEntries_le_iff {es : Entries} {n : Nat} :
    nestingEntries es ≤ n ↔ ∀ e ∈ es, nesting e.2 ≤ n := by
  induction es with
  | nil => simp [nestingEntries]
  | cons e es ih => rw [nestingEntries, Nat.max_le, ih, List.forall_mem_cons]

mutual

/-- Something holds of a value and of every value inside it. -/
def Everywhere (P : Value → Prop) : Value → Prop
  | null => P null
  | bool b => P (bool b)
  | int n => P (int n)
  | double d => P (double d)
  | string s => P (string s)
  | list xs => P (list xs) ∧ EverywhereItems P xs
  | object es => P (object es) ∧ EverywhereEntries P es

def EverywhereItems (P : Value → Prop) : List Value → Prop
  | [] => True
  | x :: xs => Everywhere P x ∧ EverywhereItems P xs

def EverywhereEntries (P : Value → Prop) : List (String × Value) → Prop
  | [] => True
  | (_, x) :: es => Everywhere P x ∧ EverywhereEntries P es

end

theorem everywhereItems_iff {P : Value → Prop} {xs : List Value} :
    EverywhereItems P xs ↔ ∀ x ∈ xs, Everywhere P x := by
  induction xs with
  | nil => simp [EverywhereItems]
  | cons x xs ih => simp [EverywhereItems, ih]

theorem everywhereEntries_iff {P : Value → Prop} {es : Entries} :
    EverywhereEntries P es ↔ ∀ e ∈ es, Everywhere P e.2 := by
  induction es with
  | nil => simp [EverywhereEntries]
  | cons e es ih => simp [EverywhereEntries, ih]

theorem everywhere_list {P : Value → Prop} {xs : List Value} :
    Everywhere P (list xs) ↔ P (list xs) ∧ ∀ x ∈ xs, Everywhere P x := by
  rw [Everywhere, everywhereItems_iff]

theorem everywhere_object {P : Value → Prop} {es : Entries} :
    Everywhere P (object es) ↔ P (object es) ∧ ∀ e ∈ es, Everywhere P e.2 := by
  rw [Everywhere, everywhereEntries_iff]

theorem Everywhere.here {P : Value → Prop} {v : Value} (h : Everywhere P v) : P v := by
  cases v with
  | list xs => exact (everywhere_list.mp h).1
  | object es => exact (everywhere_object.mp h).1
  | _ => exact h

theorem Everywhere.imp {P Q : Value → Prop} (hPQ : ∀ v, P v → Q v) {v : Value}
    (h : Everywhere P v) : Everywhere Q v := by
  induction v using shapeInduction with
  | list xs ih =>
    obtain ⟨hx, hxs⟩ := everywhere_list.mp h
    exact everywhere_list.mpr ⟨hPQ _ hx, fun x hm => ih x hm (hxs x hm)⟩
  | object es ih =>
    obtain ⟨he, hes⟩ := everywhere_object.mp h
    exact everywhere_object.mpr ⟨hPQ _ he, fun e hm => ih e hm (hes e hm)⟩
  | _ => exact hPQ _ h

def NotDouble (v : Value) : Prop := ∀ d, v ≠ double d

/-- A double that is finite is written as a number, any other one as null. -/
def NotFinite (v : Value) : Prop := ∀ d, v = double d → d.isFinite = false

def Finite (v : Value) : Prop := ∀ d, v = double d → d.isFinite = true

def DistinctKeys (v : Value) : Prop := ∀ es, v = object es → (Entries.keys es).Nodup

theorem NotDouble.notFinite {v : Value} (h : NotDouble v) : NotFinite v := by
  intro d hd
  exact absurd hd (h d)

theorem NotDouble.finite {v : Value} (h : NotDouble v) : Finite v := by
  intro d hd
  exact absurd hd (h d)

mutual

/-- The value that is read from the text of a value: a double that is not finite is null, and a
repeated key has its first place and its last value. -/
def normal : Value → Value
  | double d => if d.isFinite then double d else null
  | list xs => list (normalItems xs)
  | object es => object (normalEntries [] es)
  | v => v

def normalItems : List Value → List Value
  | [] => []
  | x :: xs => normal x :: normalItems xs

/-- Entries set one after the other after those of `done`. -/
def normalEntries (done : Entries) : List (String × Value) → Entries
  | [] => done
  | (key, x) :: es => normalEntries (Entries.insert done key (normal x)) es

end

theorem normalItems_eq_self {xs : List Value} (h : ∀ x ∈ xs, normal x = x) :
    normalItems xs = xs := by
  induction xs with
  | nil => rfl
  | cons x xs ih =>
    obtain ⟨hx, hxs⟩ := List.forall_mem_cons.mp h
    rw [normalItems, hx, ih hxs]

/-- A key that does not occur yet is set at the end. -/
theorem insert_of_notMem {es : Entries} {key : String} {x : Value} (h : key ∉ Entries.keys es) :
    Entries.insert es key x = es ++ [(key, x)] := by
  induction es with
  | nil => rfl
  | cons e es ih =>
    obtain ⟨k, v⟩ := e
    simp only [Entries.keys_cons, List.mem_cons, not_or] at h
    simp [Entries.insert, Ne.symm h.1, ih h.2]

theorem normalEntries_eq_append {done es : Entries} (h : ∀ e ∈ es, normal e.2 = e.2)
    (hn : (Entries.keys (done ++ es)).Nodup) : normalEntries done es = done ++ es := by
  induction es generalizing done with
  | nil => simp [normalEntries]
  | cons e es ih =>
    obtain ⟨key, x⟩ := e
    obtain ⟨hx, hes⟩ := List.forall_mem_cons.mp h
    have hfresh : key ∉ Entries.keys done := by
      intro hm
      simp only [Entries.keys, List.map_append, List.map_cons] at hn hm
      exact (List.nodup_append.mp hn).2.2 key hm key (by simp) rfl
    have heq : done ++ [(key, x)] ++ es = done ++ (key, x) :: es := by simp
    rw [normalEntries, hx, insert_of_notMem hfresh, ih hes (by rwa [heq]), heq]

/-- With finite doubles and without repeated keys a value is its own normal form. -/
theorem normal_eq_self {v : Value} (hd : Everywhere Finite v) (hk : Everywhere DistinctKeys v) :
    normal v = v := by
  induction v using shapeInduction with
  | double d => rw [normal, if_pos (hd.here d rfl)]
  | list xs ih =>
    have hxs : ∀ x ∈ xs, normal x = x := fun x hm =>
      ih x hm ((everywhere_list.mp hd).2 x hm) ((everywhere_list.mp hk).2 x hm)
    rw [normal, normalItems_eq_self hxs]
  | object es ih =>
    have hes : ∀ e ∈ es, normal e.2 = e.2 := fun e hm =>
      ih e hm ((everywhere_object.mp hd).2 e hm) ((everywhere_object.mp hk).2 e hm)
    have hn : (Entries.keys ([] ++ es)).Nodup := hk.here es rfl
    rw [normal, normalEntries_eq_append hes hn, List.nil_append]
  | _ => rfl

/-- A value that its JSON text keeps: without doubles and repeated keys, and not too deep. -/
structure Plain (depth : Nat) (v : Value) : Prop where
  noDouble : v.Everywhere NotDouble
  distinct : v.Everywhere DistinctKeys
  shallow : v.nesting ≤ depth

theorem plain_int (n : Nat) (i : Int32) : Plain n (int i) :=
  ⟨by simp [Everywhere, NotDouble], by simp [Everywhere, DistinctKeys], Nat.zero_le n⟩

theorem plain_string (n : Nat) (s : String) : Plain n (string s) :=
  ⟨by simp [Everywhere, NotDouble], by simp [Everywhere, DistinctKeys], Nat.zero_le n⟩

theorem plain_object {n : Nat} {es : Entries} (hk : (Entries.keys es).Nodup)
    (h : ∀ e ∈ es, Plain n e.2) : Plain (n + 1) (object es) := by
  refine ⟨everywhere_object.mpr ⟨by simp [NotDouble], fun e he => (h e he).noDouble⟩,
    everywhere_object.mpr ⟨?_, fun e he => (h e he).distinct⟩, ?_⟩
  · intro other heq
    exact object.inj heq ▸ hk
  · exact Nat.succ_le_succ (nestingEntries_le_iff.mpr fun e he => (h e he).shallow)

theorem plain_object_iff {n : Nat} {es : Entries} :
    Plain (n + 1) (object es) ↔ (Entries.keys es).Nodup ∧ ∀ e ∈ es, Plain n e.2 := by
  constructor
  · intro h
    refine ⟨h.distinct.here es rfl, fun e he => ⟨(everywhere_object.mp h.noDouble).2 e he,
      (everywhere_object.mp h.distinct).2 e he, ?_⟩⟩
    exact nestingEntries_le_iff.mp (Nat.le_of_succ_le_succ h.shallow) e he
  · rintro ⟨hk, h⟩
    exact plain_object hk h

theorem mem_insert {es : Entries} {key : String} {x : Value} {e : String × Value}
    (h : e ∈ Entries.insert es key x) : e.2 = x ∨ e ∈ es := by
  induction es with
  | nil =>
    obtain rfl := List.mem_singleton.mp h
    exact Or.inl rfl
  | cons d es ih =>
    obtain ⟨k, v⟩ := d
    simp only [Entries.insert] at h
    split at h
    · rcases List.mem_cons.mp h with rfl | h
      · exact Or.inl rfl
      · exact Or.inr (List.mem_cons_of_mem _ h)
    · rcases List.mem_cons.mp h with rfl | h
      · exact Or.inr List.mem_cons_self
      · exact (ih h).imp_right (List.mem_cons_of_mem _)

/-- Setting a key to a plain value keeps a plain object plain. -/
theorem Plain.set {n : Nat} {v x : Value} (key : String) (hv : Plain (n + 1) v) (hx : Plain n x) :
    Plain (n + 1) (v.set key x) := by
  cases v with
  | object es =>
    obtain ⟨hk, hes⟩ := plain_object_iff.mp hv
    rw [set_object]
    refine plain_object (Entries.nodup_keys_insert key x hk) fun e he => ?_
    rcases mem_insert he with heq | he
    · exact heq ▸ hx
    · exact hes e he
  | _ => exact hv

/-- An object stays one when a key is set. -/
theorem isObject_set {v : Value} (h : ∃ es, v = object es) (key : String) (x : Value) :
    ∃ es, v.set key x = object es := by
  obtain ⟨es, rfl⟩ := h
  exact ⟨_, set_object es key x⟩

end CrashCourier.Value
