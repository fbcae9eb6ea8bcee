import CrashCourier.Image.Mapping
import Mathlib.Data.List.GetD
import Mathlib.Data.List.TakeWhile
import Mathlib.Data.Nat.Digits.Defs

namespace CrashCourier.Image

/-- A text that is a number of 64 bits: digits of either case, with a plus sign or without. -/
def Numeral (s : List Char) (n : Nat) : Prop :=
  ∃ digits values, (s = digits ∨ s = '+' :: digits) ∧ digits ≠ [] ∧
    digits.mapM hexValue? = some values ∧ n = Nat.ofDigits 16 values.reverse ∧ n < wordLimit

theorem le_foldl_digits (values : List Nat) (n : Nat) :
    n ≤ values.foldl (fun n d => 16 * n + d) n := by
  induction values generalizing n with
  | nil => exact Nat.le_refl n
  | cons d values ih =>
    have hstep := ih (16 * n + d)
    rw [List.foldl_cons]
    omega

/-- A value that is within 64 bits in the end was so at every digit. -/
theorem hexDigits?_eq_some_iff {s : List Char} {n m : Nat} (hn : n < wordLimit) :
    hexDigits? n s = some m ↔ ∃ values, s.mapM hexValue? = some values ∧
      m = values.foldl (fun n d => 16 * n + d) n ∧ m < wordLimit := by
  induction s generalizing n with
  | nil =>
    simp only [hexDigits?, List.mapM_nil]
    constructor
    · rintro ⟨⟩
      exact ⟨[], rfl, rfl, hn⟩
    · rintro ⟨values, hvalues, hm, -⟩
      obtain rfl := Option.some.inj hvalues
      exact congrArg some hm.symm
  | cons c s ih =>
    rw [hexDigits?, List.mapM_cons]
    cases hexValue? c with
    | none => simp
    | some d =>
      simp only [Option.bind_eq_bind, Option.bind_some]
      split
      · next hlt =>
        rw [ih hlt]
        constructor
        · rintro ⟨values, hvalues, hm, hlimit⟩
          exact ⟨d :: values, by simp [hvalues], hm, hlimit⟩
        · rintro ⟨all, hall, hm, hlimit⟩
          obtain ⟨values, hvalues, heq⟩ := Option.bind_eq_some_iff.mp hall
          obtain rfl := Option.some.inj heq
          exact ⟨values, hvalues, hm, hlimit⟩
      · next hlt =>
        refine iff_of_false (by simp) ?_
        rintro ⟨all, hall, hm, hlimit⟩
        obtain ⟨values, hvalues, heq⟩ := Option.bind_eq_some_iff.mp hall
        obtain rfl := Option.some.inj heq
        have hle := le_foldl_digits values (16 * n + d)
        rw [List.foldl_cons] at hm
        omega

theorem foldl_eq_ofDigits (values : List Nat) :
    values.foldl (fun n d => 16 * n + d) 0 = Nat.ofDigits 16 values.reverse := by
  rw [Nat.ofDigits_eq_foldr, List.foldr_reverse]
  congr 1
  funext n d
  exact Nat.add_comm _ _

theorem mapM_hexValue?_plus (digits : List Char) : ('+' :: digits).mapM hexValue? = none := by
  have hplus : hexValue? '+' = none := by decide
  rw [List.mapM_cons, hplus]
  rfl

theorem hexNumber?_eq_some_iff {s : List Char} {n : Nat} :
    hexNumber? s = some n ↔ Numeral s n := by
  have hread : ∀ digits, hexDigits? 0 digits = some n ↔ ∃ values,
      digits.mapM hexValue? = some values ∧ n = Nat.ofDigits 16 values.reverse ∧
        n < wordLimit := by
    intro digits
    simp only [hexDigits?_eq_some_iff (show 0 < wordLimit by decide), foldl_eq_ofDigits]
  have hsigned : ∀ digits values, ('+' :: digits).mapM hexValue? ≠ some values := by
    intro digits values
    rw [mapM_hexValue?_plus]
    simp
  unfold hexNumber? Numeral
  split
  · simp
  · refine iff_of_false (by simp) ?_
    rintro ⟨digits, values, rfl | heq, hne, hvalues, -⟩
    · exact hsigned _ _ hvalues
    · exact hne (List.cons.inj heq).2.symm
  · next digits hdigits =>
    rw [hread]
    constructor
    · rintro ⟨values, hvalues⟩
      exact ⟨digits, values, Or.inr rfl, fun h => hdigits (by rw [h]), hvalues⟩
    · rintro ⟨other, values, rfl | heq, -, hvalues⟩
      · exact absurd hvalues.1 (hsigned _ _)
      · obtain rfl := (List.cons.inj heq).2
        exact ⟨values, hvalues⟩
  · next hempty _ hplus =>
    rw [hread]
    constructor
    · rintro ⟨values, hvalues⟩
      exact ⟨s, values, Or.inl rfl, hempty, hvalues⟩
    · rintro ⟨digits, values, rfl | rfl, -, hvalues⟩
      · exact ⟨values, hvalues⟩
      · exact absurd rfl (hplus digits)

/-- A text in fields between `c`: all but the last of them are without it. -/
inductive Fields (c : Char) : List Char → List (List Char) → Prop
  | last (rest : List Char) : Fields c rest [rest]
  | cons {field rest : List Char} {fields : List (List Char)} (free : c ∉ field)
      (more : Fields c rest fields) : Fields c (field ++ c :: rest) (field :: fields)

variable {c : Char} {s field rest : List Char} {fields : List (List Char)}

theorem takeWhile_field (h : c ∉ field) :
    (field ++ c :: rest).takeWhile (· ≠ c) = field := by
  have hfield : ∀ d ∈ field, decide (d ≠ c) = true := by
    intro d hd
    exact decide_eq_true fun heq => h (heq ▸ hd)
  rw [List.takeWhile_append_of_pos hfield]
  simp

theorem dropWhile_field (h : c ∉ field) :
    (field ++ c :: rest).dropWhile (· ≠ c) = c :: rest := by
  have hfield : ∀ d ∈ field, decide (d ≠ c) = true := by
    intro d hd
    exact decide_eq_true fun heq => h (heq ▸ hd)
  rw [List.dropWhile_append_of_pos hfield]
  simp

/-- Where something is left from the first `c` on, the text is cut there. -/
theorem eq_field_append {d : Char} (h : s.dropWhile (· ≠ c) = d :: rest) :
    s = s.takeWhile (· ≠ c) ++ c :: rest ∧ c ∉ s.takeWhile (· ≠ c) := by
  have hd : d = c := by
    have hhead := List.head?_dropWhile_not (fun x => decide (x ≠ c)) s
    rw [h] at hhead
    simpa using hhead
  subst hd
  refine ⟨?_, fun hmem => by simpa using List.mem_takeWhile_imp hmem⟩
  rw [← h]
  exact List.takeWhile_append_dropWhile.symm

theorem Fields.ne_nil (h : Fields c s fields) : fields ≠ [] := by
  cases h <;> simp

theorem Fields.splitFirst (h : Fields c s fields) : splitFirst c fields.length s = fields := by
  induction h with
  | last rest => rfl
  | @cons field rest fields free more ih =>
    obtain ⟨n, hn⟩ := Nat.exists_eq_succ_of_ne_zero
      (fun h => more.ne_nil (List.length_eq_zero_iff.mp h))
    rw [hn] at ih
    rw [List.length_cons, hn, Image.splitFirst, dropWhile_field free, takeWhile_field free]
    exact congrArg (field :: ·) ih

theorem splitFirst_length_le (c : Char) (n : Nat) (s : List Char) :
    (splitFirst c n s).length ≤ n := by
  fun_induction splitFirst c n s with
  | case1 => exact Nat.le_refl 0
  | case2 => exact Nat.le_refl 1
  | case3 => simp
  | case4 _ _ _ _ _ _ ih =>
    rw [List.length_cons]
    omega

/-- Where there are as many fields as were asked for, they are those of the text. -/
theorem fields_splitFirst {n : Nat} (hn : n ≠ 0) (h : (splitFirst c n s).length = n) :
    Fields c s (splitFirst c n s) := by
  fun_induction splitFirst c n s with
  | case1 => exact absurd rfl hn
  | case2 s => exact .last s
  | case3 => simp at h
  | case4 n s part d rest hrest ih =>
    obtain ⟨hs, hfree⟩ := eq_field_append hrest
    have hmore := ih (Nat.succ_ne_zero n) (Nat.succ.inj h)
    rw [hs]
    exact .cons hfree hmore

/-- The addresses of a field: two numbers, with the first hyphen between them. -/
def Addresses (field : List Char) (start stop : Nat) : Prop :=
  ∃ low high, field = low ++ '-' :: high ∧ '-' ∉ low ∧ Numeral low start ∧ Numeral high stop

theorem addresses?_eq_some_iff {start stop : Nat} :
    addresses? field = some (start, stop) ↔ Addresses field start stop := by
  unfold addresses?
  constructor
  · intro h
    split at h
    · simp at h
    · next rest hrest =>
      obtain ⟨hfield, hfree⟩ := eq_field_append hrest
      simp only [Option.bind_eq_bind, Option.bind_eq_some_iff] at h
      obtain ⟨low, hlow, high, hhigh, heq⟩ := h
      obtain ⟨rfl, rfl⟩ := Prod.mk.inj (Option.some.inj heq)
      exact ⟨_, _, hfield, hfree, hexNumber?_eq_some_iff.mp hlow,
        hexNumber?_eq_some_iff.mp hhigh⟩
  · rintro ⟨low, high, rfl, hfree, hlow, hhigh⟩
    rw [dropWhile_field hfree]
    simp only [takeWhile_field hfree, hexNumber?_eq_some_iff.mpr hlow,
      hexNumber?_eq_some_iff.mpr hhigh]
    rfl

/-- A line that maps a file: its first field holds the addresses, and its sixth, the rest of the
line, is the path between blanks. The path starts at the root, and the file was not deleted. -/
structure MapsFile (line : List Char) (r : Range) : Prop where
  fields : ∃ range others rest, others.length = 4 ∧
    Fields ' ' line (range :: (others ++ [rest])) ∧ Addresses range r.start r.stop ∧
    Text.trim rest = r.path
  absolute : r.path.head? = some '/'
  present : ¬ deletedMark <:+ r.path

theorem isFilePath_iff {path : List Char} :
    isFilePath path = true ↔ path.head? = some '/' ∧ ¬ deletedMark <:+ path := by
  rw [← List.isSuffixOf_iff_suffix, Bool.not_eq_true]
  simp [isFilePath]

theorem ofLine?_eq_some_iff {line : List Char} {r : Range} :
    ofLine? line = some r ↔ MapsFile line r := by
  unfold ofLine?
  simp only [Option.bind_eq_bind, Option.bind_eq_some_iff]
  constructor
  · rintro ⟨⟨start, stop⟩, haddresses, h⟩
    split at h
    · next hpath =>
      obtain rfl := Option.some.inj h
      obtain ⟨habsolute, hpresent⟩ := isFilePath_iff.mp hpath
      refine ⟨?_, habsolute, hpresent⟩
      -- Without a sixth field the path is empty, and that is no path of a file.
      have hlength : (splitFirst ' ' 6 line).length = 6 := by
        refine Nat.le_antisymm (splitFirst_length_le _ _ _) (Nat.lt_of_not_le fun hle => ?_)
        rw [List.getD_eq_default _ _ hle] at habsolute
        simp [Text.trim] at habsolute
      have hfields := fields_splitFirst (by decide) hlength
      obtain ⟨f₁, f₂, f₃, f₄, f₅, f₆, hsplit⟩ : ∃ f₁ f₂ f₃ f₄ f₅ f₆,
          splitFirst ' ' 6 line = [f₁, f₂, f₃, f₄, f₅, f₆] := by
        match splitFirst ' ' 6 line, hlength with
        | [f₁, f₂, f₃, f₄, f₅, f₆], _ => exact ⟨_, _, _, _, _, _, rfl⟩
      rw [hsplit] at haddresses hfields
      refine ⟨f₁, [f₂, f₃, f₄, f₅], f₆, rfl, hfields, addresses?_eq_some_iff.mp haddresses, ?_⟩
      rw [hsplit]
      rfl
    · simp at h
  · rintro ⟨⟨range, others, rest, hothers, hfields, haddresses, hpath⟩, habsolute, hpresent⟩
    have hsplit := hfields.splitFirst
    have hlength : (range :: (others ++ [rest])).length = 6 := by simp [hothers]
    have hsixth : (range :: (others ++ [rest])).getD 5 [] = rest := by
      rw [List.getD_cons_succ, ← hothers]
      simp
    rw [hlength] at hsplit
    refine ⟨(r.start, r.stop), ?_, ?_⟩
    · rw [hsplit]
      exact addresses?_eq_some_iff.mpr haddresses
    · simp only [hsplit, hsixth, hpath]
      rw [if_pos (isFilePath_iff.mpr ⟨habsolute, hpresent⟩)]

end CrashCourier.Image
