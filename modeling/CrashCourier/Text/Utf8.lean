import CrashCourier.Bytes

namespace CrashCourier.Text

/-- What the next bytes are: a character, or a part that belongs to none. -/
inductive Piece where
  | char (c : Char)
  | bad
deriving DecidableEq, Repr

namespace Piece

def shown : Piece → Char
  | char c => c
  | bad => '\ufffd'

def isChar : Piece → Bool
  | char _ => true
  | bad => false

end Piece

def isTail (b : UInt8) : Bool := 0x80 ≤ b && b ≤ 0xbf

/-- Which second bytes may follow a first byte of a character of three or four bytes. -/
def secondFits (first second : UInt8) : Bool :=
  if first = 0xe0 then 0xa0 ≤ second && second ≤ 0xbf
  else if first = 0xed then 0x80 ≤ second && second ≤ 0x9f
  else if first = 0xf0 then 0x90 ≤ second && second ≤ 0xbf
  else if first = 0xf4 then 0x80 ≤ second && second ≤ 0x8f
  else isTail second

/-- The number of bytes that a first byte announces; none if it starts no character. -/
def announced (b : UInt8) : Option Nat :=
  if b < 0x80 then some 1
  else if 0xc2 ≤ b && b ≤ 0xdf then some 2
  else if 0xe0 ≤ b && b ≤ 0xef then some 3
  else if 0xf0 ≤ b && b ≤ 0xf4 then some 4
  else none

def sixBits (b : UInt8) : Nat := b.toNat % 64

/-- The piece that starts with byte `b`, and how many of the bytes after it belong to it. -/
def firstPiece (b : UInt8) (rest : Bytes) : Piece × Nat :=
  match announced b, rest with
  | some 1, _ => (.char (Char.ofNat b.toNat), 0)
  | some 2, c :: _ =>
    if isTail c then (.char (Char.ofNat (64 * (b.toNat % 32) + sixBits c)), 1) else (.bad, 0)
  | some 3, c :: d :: _ =>
    if ! secondFits b c then (.bad, 0)
    else if ! isTail d then (.bad, 1)
    else (.char (Char.ofNat (4096 * (b.toNat % 16) + 64 * sixBits c + sixBits d)), 2)
  | some 3, [c] => if secondFits b c then (.bad, 1) else (.bad, 0)
  | some 4, c :: d :: e :: _ =>
    if ! secondFits b c then (.bad, 0)
    else if ! isTail d then (.bad, 1)
    else if ! isTail e then (.bad, 2)
    else
      (.char (Char.ofNat
        (262144 * (b.toNat % 8) + 4096 * sixBits c + 64 * sixBits d + sixBits e)), 3)
  | some 4, [c, d] =>
    if ! secondFits b c then (.bad, 0) else if ! isTail d then (.bad, 1) else (.bad, 2)
  | some 4, [c] => if secondFits b c then (.bad, 1) else (.bad, 0)
  | _, _ => (.bad, 0)

/-- All pieces of some bytes, each with its size. -/
def pieces : Bytes → List (Piece × Nat)
  | [] => []
  | b :: rest =>
    let (piece, more) := firstPiece b rest
    (piece, more + 1) :: pieces (rest.drop more)
termination_by b => b.length
decreasing_by
  simp only [List.length_drop, List.length_cons]
  omega

/-- The number of bytes before the first part that belongs to no character. -/
def validLength (b : Bytes) : Nat :=
  ((pieces b).takeWhile fun p => p.1.isChar).foldl (fun n p => n + p.2) 0

/-- The text of some bytes, with `U+FFFD` for each part that belongs to no character. -/
def lossy (b : Bytes) : String := String.ofList ((pieces b).map fun p => p.1.shown)

end CrashCourier.Text
