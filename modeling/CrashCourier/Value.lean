import CrashCourier.Double

namespace CrashCourier

inductive Value where
  | null
  | bool (b : Bool)
  | int (n : Int32)
  | double (d : Double)
  | string (s : String)
  | list (items : List Value)
  | object (entries : List (String × Value))
deriving Inhabited

abbrev Entries := List (String × Value)

namespace Entries

def lookup (es : Entries) (key : String) : Option Value :=
  match es with
  | [] => none
  | (k, v) :: rest => if k = key then some v else lookup rest key

/-- Replaces the value of the first entry with this key, or adds an entry at the end. -/
def insert (es : Entries) (key : String) (value : Value) : Entries :=
  match es with
  | [] => [(key, value)]
  | (k, v) :: rest => if k = key then (k, value) :: rest else (k, v) :: insert rest key value

def erase (es : Entries) (key : String) : Entries := es.filter fun e => e.1 ≠ key

def keys (es : Entries) : List String := es.map Prod.fst

@[simp] theorem keys_nil : keys [] = [] := rfl

@[simp] theorem keys_cons (e : String × Value) (es : Entries) :
    keys (e :: es) = e.1 :: keys es := rfl

theorem lookup_insert (es : Entries) (key other : String) (value : Value) :
    lookup (insert es key value) other = if key = other then some value else lookup es other := by
  induction es with
  | nil => simp [insert, lookup]
  | cons e es ih =>
    obtain ⟨k, v⟩ := e
    by_cases hk : k = key
    · subst hk
      by_cases ho : k = other <;> simp [insert, lookup, ho]
    · by_cases ho : k = other
      · subst ho
        simp [insert, lookup, hk, Ne.symm hk]
      · simp [insert, lookup, hk, ho, ih]

theorem keys_insert (es : Entries) (key : String) (value : Value) :
    keys (insert es key value) = if key ∈ keys es then keys es else keys es ++ [key] := by
  induction es with
  | nil => simp [insert]
  | cons e es ih =>
    obtain ⟨k, v⟩ := e
    by_cases hk : k = key
    · simp [insert, hk]
    · have hk' : ¬ key = k := fun h => hk h.symm
      by_cases hm : key ∈ keys es <;> simp [insert, hk, hk', ih, hm]

theorem lookup_eq_none_iff {es : Entries} {key : String} :
    lookup es key = none ↔ key ∉ keys es := by
  induction es with
  | nil => simp [lookup]
  | cons e es ih =>
    obtain ⟨k, v⟩ := e
    by_cases hk : k = key
    · simp [lookup, hk]
    · have hk' : ¬ key = k := fun h => hk h.symm
      simp [lookup, hk, hk', ih]

theorem nodup_keys_insert {es : Entries} (key : String) (value : Value) (h : (keys es).Nodup) :
    (keys (insert es key value)).Nodup := by
  rw [keys_insert]
  split
  · exact h
  · next hm =>
    refine List.nodup_append.mpr ⟨h, by simp, ?_⟩
    intro a ha b hb
    simp only [List.mem_singleton] at hb
    subst hb
    exact fun e => hm (e ▸ ha)

theorem lookup_append (es fs : Entries) (key : String) :
    lookup (es ++ fs) key = (lookup es key).or (lookup fs key) := by
  induction es with
  | nil => simp [lookup]
  | cons e es ih =>
    obtain ⟨k, x⟩ := e
    by_cases hk : k = key <;> simp [lookup, hk, ih]

/-- Setting a key to the value that it has changes nothing. -/
theorem insert_eq_self {es : Entries} {key : String} {value : Value}
    (h : lookup es key = some value) : insert es key value = es := by
  induction es with
  | nil => simp [lookup] at h
  | cons e es ih =>
    obtain ⟨k, v⟩ := e
    by_cases hk : k = key
    · obtain rfl : v = value := by simpa [lookup, hk] using h
      simp [insert, hk]
    · simp [insert, hk, ih (by simpa [lookup, hk] using h)]

theorem lookup_erase (es : Entries) (key other : String) :
    lookup (erase es key) other = if key = other then none else lookup es other := by
  induction es with
  | nil => simp [erase, lookup]
  | cons e es ih =>
    obtain ⟨k, v⟩ := e
    simp only [erase] at ih
    by_cases hk : k = key
    · subst hk
      by_cases ho : k = other
      · simp [erase, ho] at ih ⊢
        exact ih
      · simp [erase, lookup, ho] at ih ⊢
        exact ih
    · by_cases ho : k = other
      · subst ho
        simp [erase, lookup, hk, Ne.symm hk]
      · simp [erase, lookup, hk, ho] at ih ⊢
        exact ih

end Entries

namespace Value

inductive Kind where
  | null | bool | int | double | string | list | object
deriving DecidableEq, Repr

def Kind.name : Kind → String
  | null => "Null"
  | bool => "Bool"
  | int => "Int32"
  | double => "Double"
  | string => "String"
  | list => "List"
  | object => "Object"

def kind : Value → Kind
  | null => .null
  | bool _ => .bool
  | int _ => .int
  | double _ => .double
  | string _ => .string
  | list _ => .list
  | object _ => .object

def isNull : Value → Bool
  | null => true
  | _ => false

/-- The number of items or entries; zero for any other value. -/
def size : Value → Nat
  | list items => items.length
  | object entries => entries.length
  | _ => 0

/-- The value of a key; null if there is none, or no object. -/
def get (v : Value) (key : String) : Value :=
  match v with
  | object entries => (Entries.lookup entries key).getD null
  | _ => null

/-- The item at an index; null if there is none, or no list. -/
def item (v : Value) (index : Nat) : Value :=
  match v with
  | list items => items.getD index null
  | _ => null

def set? (v : Value) (key : String) (x : Value) : Option Value :=
  match v with
  | object entries => some (object (Entries.insert entries key x))
  | _ => none

def remove? (v : Value) (key : String) : Option Value :=
  match v with
  | object entries =>
    if key ∈ Entries.keys entries then some (object (Entries.erase entries key)) else none
  | _ => none

def append? (v x : Value) : Option Value :=
  match v with
  | list items => some (list (items ++ [x]))
  | _ => none

/-- Sets a key of an object and leaves any other value as it is. -/
def set (v : Value) (key : String) (x : Value) : Value := (v.set? key x).getD v

/-- Sets a key that an object lacks or has as null. -/
def setDefault (v : Value) (key : String) (x : Value) : Value :=
  if (v.get key).isNull then v.set key x else v

/-- Sets a key if there is something to set it to. -/
def setSome (v : Value) (key : String) (text : Option String) : Value :=
  match text with
  | some s => v.set key (string s)
  | none => v

def asString? : Value → Option String
  | string s => some s
  | _ => none

/-- The text of a string; empty for any other value. -/
def asString (v : Value) : String := v.asString?.getD ""

/-- A 32-bit integer; zero for any other value, also a double. -/
def asInt : Value → Int32
  | int n => n
  | _ => 0

/-- A number as a double; not a number for any other value. -/
def asDouble : Value → Double
  | int n => Double.ofInt n.toInt
  | double d => d
  | _ => Double.nan

def isTrue : Value → Bool
  | bool b => b
  | _ => false

def items : Value → List Value
  | list items => items
  | _ => []

mutual

/-- Equality of values as numbers, texts and orders of entries: an integer never equals a double,
and what is not a number equals nothing. -/
def same : Value → Value → Bool
  | null, null => true
  | bool a, bool b => a == b
  | int a, int b => a == b
  | double a, double b => a.numEq b
  | string a, string b => a == b
  | list a, list b => sameItems a b
  | object a, object b => sameEntries a b
  | _, _ => false

def sameItems : List Value → List Value → Bool
  | [], [] => true
  | a :: as, b :: bs => same a b && sameItems as bs
  | _, _ => false

def sameEntries : List (String × Value) → List (String × Value) → Bool
  | [], [] => true
  | (k, a) :: as, (l, b) :: bs => k == l && same a b && sameEntries as bs
  | _, _ => false

end

instance : BEq Value := ⟨same⟩

def emptyObject : Value := object []

/-- A breadcrumb of a moment, with a type and a message if these are known. -/
def breadcrumb (moment : String) (type message : Option String) : Value :=
  ((emptyObject.set "timestamp" (string moment)).setSome "type" type).setSome "message" message

theorem set_object (es : Entries) (key : String) (x : Value) :
    (object es).set key x = object (Entries.insert es key x) := rfl

theorem get_object (es : Entries) (key : String) :
    (object es).get key = (Entries.lookup es key).getD null := rfl

theorem get_set_object (es : Entries) (key other : String) (x : Value) :
    ((object es).set key x).get other = if key = other then x else (object es).get other := by
  rw [set_object, get_object, get_object, Entries.lookup_insert]
  split <;> simp

end Value

end CrashCourier
