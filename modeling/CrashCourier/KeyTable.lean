namespace CrashCourier

theorem lt_of_not_lt_of_ne {a b : String} (h : ¬ a < b) (hne : a ≠ b) : b < a :=
  String.not_le.mp fun hle => hne (String.le_antisymm hle (String.not_lt.mp h))

structure KeyTable (α : Type) where
  rows : List (String × α)
  sorted : rows.Pairwise fun a b => a.1 < b.1

namespace KeyTable

variable {α : Type}

def putRow (key : String) (value : α) : List (String × α) → List (String × α)
  | [] => [(key, value)]
  | (k, v) :: rest =>
    if key < k then (key, value) :: (k, v) :: rest
    else if key = k then (key, value) :: rest
    else (k, v) :: putRow key value rest

def dropRow (key : String) (rows : List (String × α)) : List (String × α) :=
  rows.filter fun r => r.1 ≠ key

def findRow (key : String) : List (String × α) → Option α
  | [] => none
  | (k, v) :: rest => if k = key then some v else findRow key rest

theorem mem_putRow {key : String} {value : α} {rows : List (String × α)} {r : String × α}
    (h : r ∈ putRow key value rows) : r = (key, value) ∨ r ∈ rows := by
  induction rows with
  | nil => simpa [putRow] using h
  | cons q rest ih =>
    obtain ⟨k, v⟩ := q
    simp only [putRow] at h
    split at h
    · simpa using h
    · split at h
      · rcases List.mem_cons.mp h with h | h
        · exact Or.inl h
        · exact Or.inr (List.mem_cons_of_mem _ h)
      · rcases List.mem_cons.mp h with h | h
        · exact Or.inr (h ▸ List.mem_cons_self)
        · exact (ih h).imp_right (List.mem_cons_of_mem _)

theorem sorted_putRow {key : String} {value : α} {rows : List (String × α)}
    (h : rows.Pairwise fun a b => a.1 < b.1) :
    (putRow key value rows).Pairwise fun a b => a.1 < b.1 := by
  induction rows with
  | nil => simp [putRow]
  | cons q rest ih =>
    obtain ⟨k, v⟩ := q
    have ⟨hk, hr⟩ := List.pairwise_cons.mp h
    simp only [putRow]
    split
    · next hlt =>
      refine List.pairwise_cons.mpr ⟨fun r hm => ?_, h⟩
      rcases List.mem_cons.mp hm with rfl | hm
      · exact hlt
      · exact String.lt_trans hlt (hk r hm)
    · next hlt =>
      split
      · next he =>
        subst he
        exact List.pairwise_cons.mpr ⟨fun r hm => hk r hm, hr⟩
      · next hne =>
        refine List.pairwise_cons.mpr ⟨fun r hm => ?_, ih hr⟩
        rcases mem_putRow hm with rfl | hm
        · exact lt_of_not_lt_of_ne hlt hne
        · exact hk r hm

def empty : KeyTable α := ⟨[], List.Pairwise.nil⟩

instance : Inhabited (KeyTable α) := ⟨empty⟩

def isEmpty (t : KeyTable α) : Bool := t.rows.isEmpty

def get? (t : KeyTable α) (key : String) : Option α := findRow key t.rows

def insert (t : KeyTable α) (key : String) (value : α) : KeyTable α :=
  ⟨putRow key value t.rows, sorted_putRow t.sorted⟩

def erase (t : KeyTable α) (key : String) : KeyTable α :=
  ⟨dropRow key t.rows, t.sorted.filter _⟩

theorem findRow_putRow (key other : String) (value : α) (rows : List (String × α)) :
    findRow other (putRow key value rows) =
      if key = other then some value else findRow other rows := by
  induction rows with
  | nil => simp [putRow, findRow]
  | cons q rest ih =>
    obtain ⟨k, v⟩ := q
    simp only [putRow]
    split
    · simp [findRow]
    · split
      · next he =>
        subst he
        by_cases ho : key = other <;> simp [findRow, ho]
      · next hne =>
        by_cases ho : k = other
        · have : ¬ key = other := fun e => hne (e.trans ho.symm)
          simp [findRow, ho, this]
        · simp [findRow, ho, ih]

theorem findRow_dropRow (key other : String) (rows : List (String × α)) :
    findRow other (dropRow key rows) = if key = other then none else findRow other rows := by
  induction rows with
  | nil => simp [dropRow, findRow]
  | cons q rest ih =>
    obtain ⟨k, v⟩ := q
    simp only [dropRow] at ih
    by_cases hk : k = key
    · subst hk
      by_cases ho : k = other
      · simp [dropRow, ho] at ih ⊢
        exact ih
      · simp [dropRow, findRow, ho] at ih ⊢
        exact ih
    · by_cases ho : k = other
      · subst ho
        simp [dropRow, findRow, hk, Ne.symm hk]
      · simp [dropRow, findRow, hk, ho] at ih ⊢
        exact ih

@[simp] theorem get?_insert (t : KeyTable α) (key other : String) (value : α) :
    (t.insert key value).get? other = if key = other then some value else t.get? other :=
  findRow_putRow key other value t.rows

@[simp] theorem get?_erase (t : KeyTable α) (key other : String) :
    (t.erase key).get? other = if key = other then none else t.get? other :=
  findRow_dropRow key other t.rows

@[simp] theorem get?_empty (key : String) : (empty : KeyTable α).get? key = none := rfl

theorem findRow_of_lt {k : String} {rows : List (String × α)}
    (h : ∀ r ∈ rows, k < r.1) : findRow k rows = none := by
  induction rows with
  | nil => rfl
  | cons q rest ih =>
    have hq : ¬ q.1 = k := fun e => String.lt_irrefl k (e ▸ h q List.mem_cons_self)
    simp [findRow, hq, ih fun r hr => h r (List.mem_cons_of_mem _ hr)]

theorem rows_ext {a b : List (String × α)} (ha : a.Pairwise fun x y => x.1 < y.1)
    (hb : b.Pairwise fun x y => x.1 < y.1) (h : ∀ k, findRow k a = findRow k b) : a = b := by
  induction a generalizing b with
  | nil =>
    cases b with
    | nil => rfl
    | cons q rest => simpa [findRow] using h q.1
  | cons p as ih =>
    obtain ⟨hp, ha'⟩ := List.pairwise_cons.mp ha
    cases b with
    | nil => simpa [findRow] using h p.1
    | cons q bs =>
      obtain ⟨hq, hb'⟩ := List.pairwise_cons.mp hb
      have hkey : p.1 = q.1 := by
        apply Classical.byContradiction
        intro hne
        by_cases hlt : p.1 < q.1
        · have hnone : findRow p.1 (q :: bs) = none := by
            refine findRow_of_lt fun r hr => ?_
            rcases List.mem_cons.mp hr with rfl | hr
            · exact hlt
            · exact String.lt_trans hlt (hq r hr)
          have := (h p.1).trans hnone
          simp [findRow] at this
        · have hgt := lt_of_not_lt_of_ne hlt hne
          have hnone : findRow q.1 (p :: as) = none := by
            refine findRow_of_lt fun r hr => ?_
            rcases List.mem_cons.mp hr with rfl | hr
            · exact hgt
            · exact String.lt_trans hgt (hp r hr)
          have := (h q.1).symm.trans hnone
          simp [findRow] at this
      have hval : p.2 = q.2 := by
        have := h p.1
        simpa [findRow, hkey] using this
      have hpq : p = q := Prod.ext hkey hval
      subst hpq
      congr 1
      refine ih ha' hb' fun k => ?_
      by_cases hk : p.1 = k
      · subst hk
        rw [findRow_of_lt hp, findRow_of_lt hq]
      · have := h k
        simpa [findRow, hk] using this

theorem ext_get {s t : KeyTable α} (h : ∀ k, s.get? k = t.get? k) : s = t := by
  have := rows_ext s.sorted t.sorted h
  cases s
  cases t
  simp_all

end KeyTable

end CrashCourier
