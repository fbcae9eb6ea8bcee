import CrashCourier.Bytes
import CrashCourier.Text.Utf8

namespace CrashCourier.Image

/-- How an image writes its numbers. -/
structure Encoding where
  /-- Offsets and sizes have eight bytes, not four. -/
  wide : Bool
  /-- High bytes come first. -/
  high : Bool
deriving DecidableEq, Repr

namespace Encoding

def number (e : Encoding) (b : Bytes) : Nat :=
  (if e.high then b else b.reverse).foldl (fun n x => 256 * n + x.toNat) 0

/-- The number of some bytes at an offset. -/
def at? (e : Encoding) (file : Bytes) (offset size : Nat) : Option Nat :=
  let b := (file.drop offset).take size
  if b.length = size then some (e.number b) else none

/-- A number whose place and size depend on the width. -/
def field? (e : Encoding) (file : Bytes) (offset narrow wide : Nat) : Option Nat :=
  if e.wide then e.at? file (offset + wide) 8 else e.at? file (offset + narrow) 4

end Encoding

def magic : Bytes := [0x7f, 0x45, 0x4c, 0x46]

/-- How an image is encoded, by the bytes it starts with; none for other files. -/
def encoding? (file : Bytes) : Option Encoding :=
  if file.length < 16 ∨ file.take 4 ≠ magic then none
  else do
    let width ← file[4]?
    let order ← file[5]?
    let wide ← if width = 1 then some false else if width = 2 then some true else none
    let high ← if order = 1 then some false else if order = 2 then some true else none
    if file.length < (if wide then 64 else 52) then none else some ⟨wide, high⟩

/-- A part of an image that holds notes. -/
structure NotePart where
  offset : Nat
  size : Nat
  align : Nat
deriving DecidableEq, Repr

/-- A row of the table of segments: its part if it holds notes. -/
def segment? (e : Encoding) (file : Bytes) (offset : Nat) : Option (Option NotePart) := do
  let type ← e.at? file offset 4
  let start ← e.field? file offset 4 8
  let size ← e.field? file offset 16 32
  let align ← e.field? file offset 28 48
  pure (if type = 4 then some ⟨start, size, align⟩ else none)

/-- A row of the table of sections: its part if it holds notes. -/
def section? (e : Encoding) (file : Bytes) (offset : Nat) : Option (Option NotePart) := do
  let type ← e.at? file (offset + 4) 4
  let start ← e.field? file offset 16 24
  let size ← e.field? file offset 20 32
  let align ← e.field? file offset 32 48
  pure (if type = 7 then some ⟨start, size, align⟩ else none)

/-- The rows of a table that has to lie within the file. -/
def table? {α : Type} (file : Bytes) (offset rowSize count : Nat) (row : Nat → Option α) :
    Option (List α) :=
  if file.length / rowSize < count then none
  else
    (List.range count).mapM fun i =>
      if file.length < offset + (i + 1) * rowSize then none else row (offset + i * rowSize)

def segments? (e : Encoding) (file : Bytes) : Option (List NotePart) := do
  let offset ← e.field? file 0 28 32
  let count ← e.at? file (if e.wide then 56 else 44) 2
  let rows ← table? file offset (if e.wide then 56 else 32) count (segment? e file)
  pure (rows.filterMap id)

/-- The sections; a table at offset zero is none, and where the header gives no count the first
section gives it as its size. -/
def sections? (e : Encoding) (file : Bytes) : Option (List NotePart) := do
  let offset ← e.field? file 0 32 40
  if offset = 0 then some []
  else
    let rowSize := if e.wide then 64 else 40
    if file.length < offset + rowSize then none
    else
      let given ← e.at? file (if e.wide then 60 else 48) 2
      let first ← e.field? file offset 20 32
      let count := if given = 0 then first else given
      let rows ← table? file offset rowSize (max count 1) (section? e file)
      pure (rows.filterMap id)

def alignUp (n align : Nat) : Nat := (n + align - 1) / align * align

structure ImageNote where
  type : Nat
  content : Bytes
deriving DecidableEq, Repr

/-- The note at the start of some bytes, and its size. -/
def note? (e : Encoding) (align : Nat) (b : Bytes) : Option (ImageNote × Nat) := do
  let align := max align 4
  if align ≠ 4 ∧ align ≠ 8 then none
  else
    let nameSize ← e.at? b 0 4
    let size ← e.at? b 4 4
    let type ← e.at? b 8 4
    let name := (b.drop 12).take (nameSize - 1)
    if name.length ≠ nameSize - 1 ∨ Text.validLength name ≠ name.length then none
    else
      let start := alignUp (12 + nameSize) align
      let content := (b.drop start).take size
      if b.length < start ∨ content.length ≠ size then none
      else some (⟨type, content⟩, alignUp (start + size) align)

/-- The notes of a part up to the first that cannot be read. A note may reach beyond its part, but
not beyond the file; each takes twelve bytes at least. -/
def notes (e : Encoding) (file : Bytes) (p : NotePart) : Nat → Nat → List ImageNote
  | 0, _ => []
  | fuel + 1, used =>
    if p.size ≤ used then []
    else
      match note? e p.align (file.drop (p.offset + used)) with
      | none => []
      | some (note, size) => note :: notes e file p fuel (used + size)

/-- The content of the first note of type three. -/
def identifierIn (e : Encoding) (file : Bytes) (parts : List NotePart) : Option Bytes :=
  ((parts.flatMap fun p => notes e file p file.length 0).find? fun n => n.type = 3).map
    ImageNote.content

/-- The build identifier of an image, if it has one; none at all for a file that is no image. -/
def buildId? (file : Bytes) : Option (Option Bytes) := do
  let e ← encoding? file
  let segments ← segments? e file
  let sections ← sections? e file
  pure ((identifierIn e file segments).or (identifierIn e file sections))

end CrashCourier.Image
