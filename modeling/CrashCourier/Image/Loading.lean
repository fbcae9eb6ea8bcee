import CrashCourier.Image.Field
import CrashCourier.Managed.Text

namespace CrashCourier.Image

open Managed

variable {σ ρ : Type} [Host σ ρ]

/-- Calls a setter; an exception leaves its field as it was. -/
def callSetter (record : ρ) (f : Field) (arg : Argument ρ) : StateM σ Unit := do
  let _ ← Host.callSetter record f.setter arg

def setText (record : ρ) (f : Field) (text : String) : StateM σ Unit := do
  using? (← Host.newText text) fun r => callSetter record f (.reference r)

/-- Sets one field of a record from an image. The size is a number, other fields are texts; a field
is left alone where the image has none, and the debug identifier where it has no type. -/
def setField (record : ρ) (image : Value) (f : Field) : StateM σ Unit :=
  match f with
  | .size =>
    let size := image.get f.key
    if size.isNull then pure () else callSetter record f (.long size.asInt.toInt64)
  | .debugId =>
    if (image.get Field.type.key).isNull then pure ()
    else setText record f (image.get f.key).asString
  | _ =>
    let text := image.get f.key
    if text.isNull then pure () else setText record f text.asString

def fillOrder : List Field := [.address, .size, .codeFile, .type, .debugId, .codeId, .debugFile]

def fill (record : ρ) (image : Value) : StateM σ Unit := fillOrder.forM (setField record image)

/-- Stores an image in a slot of an array, in a record of its own. Null leaves the slot empty. -/
def storeImage (array : ρ) (index : Nat) (image : Value) : StateM σ Unit := do
  if image.isNull then pure ()
  else
    match ← Host.newObject className with
    | none => pure ()
    | some record =>
      fill record image
      let _ ← Host.setElement array index record
      Host.delete record

def storeAll (array : ρ) : Nat → List Value → StateM σ Unit
  | _, [] => pure ()
  | index, image :: rest => do
    storeImage array index image
    storeAll array (index + 1) rest

/-- An array with a record for each image of a list; none if the value is no list or the array
cannot be made. -/
def load (images : Value) : StateM σ (Option ρ) := do
  match images with
  | .list items =>
    match ← Host.newArray className items.length with
    | none => pure none
    | some array =>
      storeAll array 0 items
      pure (some array)
  | _ => pure none

end CrashCourier.Image
