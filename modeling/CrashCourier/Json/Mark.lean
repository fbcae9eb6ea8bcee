import CrashCourier.Bytes

namespace CrashCourier.Json

def openList : UInt8 := 0x5b
def closeList : UInt8 := 0x5d
def openObject : UInt8 := 0x7b
def closeObject : UInt8 := 0x7d
def comma : UInt8 := 0x2c
def colon : UInt8 := 0x3a
def quote : UInt8 := 0x22
def backslash : UInt8 := 0x5c
def minus : UInt8 := 0x2d
def plus : UInt8 := 0x2b
def point : UInt8 := 0x2e
def zeroDigit : UInt8 := 0x30

/-- The letter of an escape that names a character by its number. -/
def unicodeMark : UInt8 := 0x75

/-- `null`, `true` and `false`. -/
def nullWord : Bytes := [0x6e, 0x75, 0x6c, 0x6c]
def trueWord : Bytes := [0x74, 0x72, 0x75, 0x65]
def falseWord : Bytes := [0x66, 0x61, 0x6c, 0x73, 0x65]

/-- Space, tab, line feed and carriage return. -/
def isBlank (b : UInt8) : Bool := b = 0x20 || b = 0x09 || b = 0x0a || b = 0x0d

def isDigit (b : UInt8) : Bool := 0x30 ≤ b && b ≤ 0x39

def digitValue (b : UInt8) : Nat := b.toNat - 0x30

def isExponentMark (b : UInt8) : Bool := b = 0x65 || b = 0x45

def skipBlanks (text : Bytes) : Bytes := text.dropWhile isBlank

/-- The characters that a letter after a backslash may stand for, apart from numbered ones. -/
def shortEscapes : List (UInt8 × UInt8) :=
  [(0x22, 0x22), (0x5c, 0x5c), (0x2f, 0x2f), (0x62, 0x08), (0x66, 0x0c), (0x6e, 0x0a),
    (0x72, 0x0d), (0x74, 0x09)]

end CrashCourier.Json
