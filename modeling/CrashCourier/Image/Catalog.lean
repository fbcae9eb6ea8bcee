import CrashCourier.FileTree
import CrashCourier.Image.BuildId
import CrashCourier.Image.Mapping
import CrashCourier.Uuid
import CrashCourier.Value

namespace CrashCourier.Image

/-- Checked arithmetic on words of 64 bits that has no result. Whatever needs the result ends there.
-/
inductive Overflow where
  | subtraction
deriving DecidableEq, Repr

def Overflow.text : Overflow → String
  | subtraction => "attempt to subtract with overflow"

/-- The size of a range, held within 31 bits. -/
def extent (r : Range) : Except Overflow Int32 :=
  if r.stop < r.start then .error .subtraction
  else .ok (Int32.ofInt (min (r.stop - r.start : Nat) 0x7fffffff))

/-- The debug identifier of a build identifier: its first sixteen bytes, or fewer and zeros, with
the low bytes of the leading fields first. -/
def debugId (buildId : Bytes) : Option Uuid :=
  Uuid.ofLittleEndian? ((buildId ++ List.replicate 16 0).take 16)

def plainRecord (codeFile : String) (address : Nat) (size : Int32) : Value :=
  (((Value.emptyObject.set "type" (.string "elf")).set "image_addr"
    (.string ("0x" ++ Bytes.hexOfNat address))).set "image_size" (.int size)).set "code_file"
    (.string codeFile)

/-- Adds the identifiers of a file to its image, if it has a build identifier. -/
def identified (image : Value) (buildId : Option Bytes) : Value :=
  match buildId with
  | none => image
  | some id =>
    if id.isEmpty then image
    else
      (image.set "code_id" (.string (Bytes.hex id))).setSome "debug_id"
        ((debugId id).map Uuid.hyphenated)

/-- A range as an image. -/
def record (r : Range) (buildId : Option Bytes) : Except Overflow Value :=
  (extent r).map fun size =>
    identified (plainRecord (String.ofList r.path) r.start size) buildId

/-- The image of a range; none if there is no image in its file. -/
def imageOf (files : FileTree) (r : Range) : Except Overflow (Option Value) :=
  match files.read (String.ofList r.path) with
  | .error _ => .ok none
  | .ok file =>
    match buildId? file with
    | none => .ok none
    | some buildId => (record r buildId).map some

/-- The images that a file of mappings lists; none if it cannot be read as text. -/
def ofMaps (files : FileTree) (maps : String) : Except Overflow Value :=
  match files.read maps with
  | .error _ => .ok (.list [])
  | .ok bytes =>
    match Text.ofBytes? bytes with
    | none => .ok (.list [])
    | some text =>
      ((ranges text.toList).mapM (imageOf files)).map fun images => .list images.reduceOption

/-- Where the list of images comes from. -/
inductive Source where
  | fixed (v : Value)
  /-- One of any number of sources whose values may be replaced at any time. -/
  | shared (n : Nat)
  | maps (path : String)

namespace Source

/-- What a source gives while the files are these and the shared sources have these values. -/
def answer (files : FileTree) (values : Nat → Value) : Source → Except Overflow Value
  | fixed v => .ok v
  | shared n => .ok (values n)
  | maps path => ofMaps files path

/-- Whether it is the shared source of a number. -/
def isShared (n : Nat) : Source → Bool
  | shared m => m == n
  | _ => false

end Source

/-- The mappings of the process itself. -/
def ownMaps : Source := .maps "/proc/self/maps"

structure Catalog where
  source : Source := ownMaps
  /-- The list as it was last computed. -/
  cache : Option Value := none
  /-- What the shared sources give at the moment. -/
  values : Nat → Value := fun _ => .null
  /-- The sources that were asked for the list, oldest first. -/
  asked : List Source := []

namespace Catalog

def clear (c : Catalog) : Catalog := { c with cache := none }

/-- Installs a source; the list is computed anew. -/
def setSource (c : Catalog) (s : Source) : Catalog := { c with source := s }.clear

/-- Replaces what a shared source gives; a list that is known stays. -/
def setShared (c : Catalog) (n : Nat) (v : Value) : Catalog :=
  { c with values := fun m => if m = n then v else c.values m }

/-- Installs a shared source with a value. -/
def share (c : Catalog) (n : Nat) (v : Value) : Catalog := (c.setShared n v).setSource (.shared n)

/-- Goes back to the mappings of the process itself. -/
def resetSource (c : Catalog) : Catalog := c.setSource ownMaps

/-- How often a shared source was asked. -/
def sharedCalls (c : Catalog) (n : Nat) : Nat := c.asked.countP (Source.isShared n)

def consult (c : Catalog) (files : FileTree) : Except Overflow Value × Catalog :=
  (c.source.answer files c.values, { c with asked := c.asked ++ [c.source] })

/-- The list if it is known, and else what the source gives. A source that fails is asked again
the next time. -/
def list (c : Catalog) (files : FileTree) : Except Overflow Value × Catalog :=
  match c.cache with
  | some v => (.ok v, c)
  | none =>
    match c.consult files with
    | (.ok v, c) => (.ok v, { c with cache := some v })
    | (.error e, c) => (.error e, c)

end Catalog

end CrashCourier.Image
