import CrashCourier.Image.Field
import CrashCourier.Managed.Host
import CrashCourier.Managed.OptionsObject

namespace CrashCourier.Managed

open Image (ImageRecord)

structure Reference where
  number : Nat
deriving DecidableEq, Repr

namespace Reference

def debugText (r : Reference) : String := "HeapRef(" ++ toString r.number ++ ")"

end Reference

inductive HeapObject where
  | text (s : String)
  | options (o : OptionsObject)
  | image (r : ImageRecord)
  | array (className : String) (slots : List (Option Reference))
deriving DecidableEq, Repr

structure Heap where
  /-- The object of the reference with number `n + 1` is at place `n`. -/
  objects : List HeapObject := []
  /-- References handed out and not yet given back. -/
  live : List Reference := []
  /-- References given back that were not due. Each is a fault of the caller. -/
  misreturned : List Reference := []
  failingMethods : List String := []
  failingClasses : List String := []
  corrupt : List Reference := []
  records : Nat := 0

namespace Heap

def object? (h : Heap) (r : Reference) : Option HeapObject :=
  match r.number with
  | 0 => none
  | n + 1 => h.objects[n]?

/-- A new object that its owner keeps. -/
def insert (h : Heap) (o : HeapObject) : Reference × Heap :=
  (⟨h.objects.length + 1⟩, { h with objects := h.objects ++ [o] })

/-- A new object whose reference is to be given back. -/
def lend (h : Heap) (o : HeapObject) : Reference × Heap :=
  let (r, h) := h.insert o
  (r, { h with live := h.live ++ [r] })

/-- Puts another object in the place of one. -/
def replace (h : Heap) (r : Reference) (o : HeapObject) : Heap :=
  match r.number with
  | 0 => h
  | n + 1 => { h with objects := h.objects.set n o }

/-- Takes a reference back; none if it is not due. -/
def giveBack? (h : Heap) (r : Reference) : Option Heap :=
  if r ∈ h.live then some { h with live := h.live.erase r } else none

def takeBack (h : Heap) (r : Reference) : Heap :=
  (h.giveBack? r).getD { h with misreturned := h.misreturned ++ [r] }

/-- The text of a reference that is not due. -/
def notLiveText (r : Reference) : String := r.debugText ++ " is not a live local reference"

def failMethod (h : Heap) (m : String) : Heap := { h with failingMethods := m :: h.failingMethods }

def failClass (h : Heap) (c : String) : Heap := { h with failingClasses := c :: h.failingClasses }

def corruptText (h : Heap) (r : Reference) : Heap := { h with corrupt := r :: h.corrupt }

def text? (h : Heap) (r : Reference) : Option String :=
  match h.object? r with
  | some (.text s) => some s
  | _ => none

def array? (h : Heap) (r : Reference) : Option (String × List (Option Reference)) :=
  match h.object? r with
  | some (.array className slots) => some (className, slots)
  | _ => none

/-- How many objects of a class were made. -/
def allocated (h : Heap) (className : String) : Nat :=
  if className = Image.className then h.records else 0

def refuseFailing (h : Heap) (m : String) : Except Thrown Unit :=
  if m ∈ h.failingMethods then .error ⟨"RuntimeException in " ++ m⟩ else .ok ()

def noMethod {α : Type} (m : String) : Except Thrown α := .error ⟨"NoSuchMethodError: " ++ m⟩

def options (h : Heap) (r : Reference) : Except Thrown OptionsObject :=
  match h.object? r with
  | some (.options o) => .ok o
  | _ => .error ⟨"NoSuchMethodError"⟩

def textLength (h : Heap) (r : Reference) : Nat :=
  match h.text? r with
  | some s => Text.length s
  | none => 0

def textBytes (h : Heap) (r : Reference) (n : Nat) : Except Thrown { b : Bytes // b.length = n } :=
  if r ∈ h.corrupt then .error ⟨"StringIndexOutOfBoundsException"⟩
  else
    match h.text? r with
    | none => .error ⟨"ClassCastException"⟩
    | some s =>
      if hn : (Text.bytes s).length = n then .ok ⟨Text.bytes s, hn⟩
      else .error ⟨"StringIndexOutOfBoundsException"⟩

/-- The slice is left as it is where the text cannot be converted. -/
def writeText (h : Heap) (r : Reference) (slice : Bytes) :
    Except Thrown Unit × { b : Bytes // b.length = slice.length } :=
  match h.textBytes r slice.length with
  | .ok content => (.ok (), content)
  | .error e => (.error e, ⟨slice, rfl⟩)

/-- What a method that gives a text finds. -/
def textOption (h : Heap) (r : Reference) (m : String) : Except Thrown (Option String) := do
  h.refuseFailing m
  let o ← h.options r
  match TextOption.ofMethod? m with
  | some option => .ok (o.text option)
  | none => noMethod m

def boolOption (h : Heap) (r : Reference) (m : String) : Except Thrown Bool := do
  h.refuseFailing m
  let o ← h.options r
  if m = debugMethod then .ok o.debug else noMethod m

def intOption (h : Heap) (r : Reference) (m : String) : Except Thrown Int32 := do
  h.refuseFailing m
  let o ← h.options r
  if m = capacityMethod then .ok o.maxBreadcrumbs else noMethod m

/-- The text that a setter is called with, if it is called with one. -/
def argumentText (h : Heap) : Argument Reference → Except Thrown (Option String)
  | .reference (some r) =>
    match h.text? r with
    | some s => .ok (some s)
    | none => .error ⟨"ClassCastException"⟩
  | _ => .ok none

/-- A record with one field set; none if the field does not take such an argument. -/
def assign? (record : ImageRecord) (f : Image.Field) (arg : Argument Reference)
    (text : Option String) : Option ImageRecord :=
  match arg with
  | .long n => if f = .size then some { record with size := some n } else none
  | .reference _ => record.setText? f text

/-- The record after a setter was called. -/
def assigned (h : Heap) (r : Reference) (m : String) (arg : Argument Reference) :
    Except Thrown ImageRecord := do
  h.refuseFailing m
  let text ← h.argumentText arg
  match h.object? r with
  | some (.image record) =>
    match (Image.Field.ofSetter? m).bind fun f => assign? record f arg text with
    | some changed => .ok changed
    | none => noMethod m
  | _ => noMethod m

/-- The array after an element was stored. -/
def stored (h : Heap) (r : Reference) (index : Nat) (element : Reference) :
    Except Thrown HeapObject :=
  match h.object? r with
  | some (.array className slots) =>
    if index < slots.length then .ok (.array className (slots.set index (some element)))
    else .error ⟨"ArrayIndexOutOfBoundsException"⟩
  | _ => .error ⟨"ArrayStoreException"⟩

def lending (o : HeapObject) : StateM Heap Reference := modifyGet fun h => h.lend o

/-- Puts what a call made of an object in its place; an exception changes nothing. -/
def putBack (r : Reference) (result : Except Thrown HeapObject) :
    StateM Heap (Except Thrown Unit) := do
  match result with
  | .error e => pure (.error e)
  | .ok o =>
    modify fun h => h.replace r o
    pure (.ok ())

instance : Host Heap Reference where
  textLength r := do return (← get).textLength r
  writeText r slice := do return (← get).writeText r slice
  newText s := some <$> lending (.text s)
  callText r m := do
    match (← get).textOption r m with
    | .error e => pure (.error e)
    | .ok none => pure (.ok none)
    | .ok (some s) => pure (.ok (some (← lending (.text s))))
  callBool r m := do return (← get).boolOption r m
  callInt r m := do return (← get).intOption r m
  callSetter r m arg := do putBack r (((← get).assigned r m arg).map .image)
  newObject className := do
    if className ∈ (← get).failingClasses ∨ className ≠ Image.className then pure none
    else
      modify fun h => { h with records := h.records + 1 }
      some <$> lending (.image {})
  newArray className n := do
    if className ∈ (← get).failingClasses then pure none
    else some <$> lending (.array className (List.replicate n none))
  setElement r index element := do putBack r ((← get).stored r index element)
  delete r := modify fun h => h.takeBack r

def debugSlot : Option Reference → String
  | some r => "Some(" ++ r.debugText ++ ")"
  | none => "None"

/-- The record that an object is; the text of any other object for diagnosis. -/
def asRecord : HeapObject → Except String ImageRecord
  | .image r => .ok r
  | .text s => .error ("String(" ++ Text.quoted s ++ ")")
  | .options o => .error ("Options(" ++ o.debugText ++ ")")
  | .array className slots =>
    .error ("Array \x7b class: " ++ Text.quoted className ++ ", slots: ["
      ++ ", ".intercalate (slots.map debugSlot) ++ "] \x7d")

def slotRecord (h : Heap) (slot : Option Reference) : Except String (Option ImageRecord) :=
  match slot.bind h.object? with
  | none => .ok none
  | some o =>
    match asRecord o with
    | .ok r => .ok (some r)
    | .error shown => .error ("unexpected array element " ++ shown)

/-- The records in an array, slot by slot. -/
def records? (h : Heap) (r : Reference) : Except String (List (Option ImageRecord)) :=
  match h.array? r with
  | some (_, slots) => slots.mapM h.slotRecord
  | none => .error (r.debugText ++ " is not an array")

end Heap

end CrashCourier.Managed
