import CrashCourier.Bytes
import CrashCourier.Text.Blank

namespace CrashCourier.Image

/-- The address range of a file over all of its mappings. -/
structure Range where
  path : List Char
  start : Nat
  stop : Nat
deriving DecidableEq, Repr

/-- The parts of a text between `c`. -/
def splitAt (c : Char) : List Char → List (List Char)
  | [] => [[]]
  | d :: rest =>
    if d = c then [] :: splitAt c rest
    else
      match splitAt c rest with
      | [] => [[d]]
      | part :: parts => (d :: part) :: parts

/-- The first `n` parts of a text between `c`; the last of them takes the rest. -/
def splitFirst (c : Char) : Nat → List Char → List (List Char)
  | 0, _ => []
  | 1, s => [s]
  | n + 2, s =>
    let part := s.takeWhile (· ≠ c)
    match s.dropWhile (· ≠ c) with
    | [] => [part]
    | _ :: rest => part :: splitFirst c (n + 1) rest

/-- A carriage return before a line feed belongs to the end of the line. -/
def dropReturn (line : List Char) : List Char :=
  if line.getLast? = some '\x0d' then line.dropLast else line

def lines (s : List Char) : List (List Char) :=
  let parts := splitAt '\n' s
  let last := parts.getLast?.getD []
  parts.dropLast.map dropReturn ++ if last.isEmpty then [] else [last]

def hexValue? (c : Char) : Option Nat :=
  if c.toNat < 0x80 then Bytes.hexValue? (UInt8.ofNat c.toNat) else none

def wordLimit : Nat := 0x10000000000000000

/-- Digits of base sixteen after `n`, within 64 bits. -/
def hexDigits? (n : Nat) : List Char → Option Nat
  | [] => some n
  | c :: rest => do
    let d ← hexValue? c
    if 16 * n + d < wordLimit then hexDigits? (16 * n + d) rest else none

/-- A number in base sixteen, with a plus sign or without. -/
def hexNumber? (s : List Char) : Option Nat :=
  match s with
  | [] => none
  | ['+'] => none
  | '+' :: digits => hexDigits? 0 digits
  | digits => hexDigits? 0 digits

def addresses? (s : List Char) : Option (Nat × Nat) :=
  match s.dropWhile (· ≠ '-') with
  | [] => none
  | _ :: rest => do
    let start ← hexNumber? (s.takeWhile (· ≠ '-'))
    let stop ← hexNumber? rest
    pure (start, stop)

def deletedMark : List Char := "(deleted)".toList

/-- Whether a path is that of a file that is still there. -/
def isFilePath (path : List Char) : Bool :=
  path.head? == some '/' && !deletedMark.isSuffixOf path

/-- The range that a line maps, if its sixth field is the path of a file. -/
def ofLine? (line : List Char) : Option Range := do
  let fields := splitFirst ' ' 6 line
  let (start, stop) ← addresses? (fields.headD [])
  let path := Text.trim (fields.getD 5 [])
  if isFilePath path then some ⟨path, start, stop⟩ else none

/-- Widens the range of the same file, or adds one at the end. -/
def merge (r : Range) : List Range → List Range
  | [] => [r]
  | q :: rest =>
    if q.path = r.path then ⟨q.path, min q.start r.start, max q.stop r.stop⟩ :: rest
    else q :: merge r rest

/-- One range per file, in the order in which the files first appear. -/
def ranges (maps : List Char) : List Range :=
  ((lines maps).filterMap ofLine?).foldl (fun rs r => merge r rs) []

end CrashCourier.Image
