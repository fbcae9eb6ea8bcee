import CrashCourier.Decimal.Scaled
import CrashCourier.Json.Mark
import CrashCourier.Text.Utf8
import CrashCourier.Value

namespace CrashCourier.Json

inductive Reason where
  | endInValue | endInText | endInList | endInObject
  | expectedValue | expectedWord | expectedColon | expectedCommaOrListEnd
  | expectedCommaOrObjectEnd | expectedKey
  | trailingComma | trailingBytes
  | badNumber | numberOutOfRange
  | badEscape | controlCharacter | loneSurrogate | unfinishedPair | notUnicode
  | tooDeep
deriving DecidableEq, Repr

def Reason.text : Reason → String
  | endInValue => "EOF while parsing a value"
  | endInText => "EOF while parsing a string"
  | endInList => "EOF while parsing a list"
  | endInObject => "EOF while parsing an object"
  | expectedValue => "expected value"
  | expectedWord => "expected ident"
  | expectedColon => "expected `:`"
  | expectedCommaOrListEnd => "expected `,` or `]`"
  | expectedCommaOrObjectEnd => "expected `,` or `\x7d`"
  | expectedKey => "key must be a string"
  | trailingComma => "trailing comma"
  | trailingBytes => "trailing characters"
  | badNumber => "invalid number"
  | numberOutOfRange => "number out of range"
  | badEscape => "invalid escape"
  | controlCharacter => "control character (\\u0000-\\u001F) found while parsing a string"
  | loneSurrogate => "lone leading surrogate in hex escape"
  | unfinishedPair => "unexpected end of hex escape"
  | notUnicode => "invalid unicode code point"
  | tooDeep => "recursion limit exceeded"

/-- A fault, placed by the number of bytes after it. -/
structure Stop where
  reason : Reason
  left : Nat
deriving DecidableEq, Repr

/-- A fault after all bytes read so far. -/
def here (reason : Reason) (rest : Bytes) : Stop := ⟨reason, rest.length⟩

/-- A fault at the next byte, or at the end of the text. -/
def ahead (reason : Reason) (rest : Bytes) : Stop := ⟨reason, rest.length - 1⟩

/-- What some bytes start with, and the bytes after it. -/
abbrev Reader (α : Type) := Bytes → Except Stop (α × Bytes)

def readWord (value : Value) : Bytes → Reader Value
  | [], text => .ok (value, text)
  | _ :: _, [] => .error (here .endInValue [])
  | e :: word, b :: rest =>
    if b = e then readWord value word rest else .error (here .expectedWord rest)

/-- The number that four hexadecimal digits denote. -/
def quad (a b c d : UInt8) : Option Nat := do
  let w ← Bytes.hexValue? a
  let x ← Bytes.hexValue? b
  let y ← Bytes.hexValue? c
  let z ← Bytes.hexValue? d
  pure (4096 * w + 256 * x + 16 * y + z)

def isHighSurrogate (n : Nat) : Bool := 0xd800 ≤ n && n ≤ 0xdbff

def isLowSurrogate (n : Nat) : Bool := 0xdc00 ≤ n && n ≤ 0xdfff

/-- The number of the character that a pair of surrogates stands for. -/
def pairValue (high low : Nat) : Nat := 0x10000 + 1024 * (high - 0xd800) + (low - 0xdc00)

/-- The bytes `done`, last byte first, with a character added. -/
def pushChar (done : Bytes) (n : Nat) : Bytes :=
  (String.utf8EncodeChar (Char.ofNat n)).reverse ++ done

/-- The bytes up to the closing quote with their escapes resolved; `done` holds those before,
last byte first. -/
def unescape (done : Bytes) : Reader Bytes
  | [] => .error (here .endInText [])
  | b :: rest =>
    if b = quote then .ok (done.reverse, rest)
    else if b = backslash then
      match rest with
      | [] => .error (here .endInText [])
      | e :: after =>
        if e = unicodeMark then
          match after with
          | h₁ :: h₂ :: h₃ :: h₄ :: rest₁ =>
            match quad h₁ h₂ h₃ h₄ with
            | none => .error (here .badEscape rest₁)
            | some n =>
              if isLowSurrogate n then .error (here .loneSurrogate rest₁)
              else if isHighSurrogate n then
                match rest₁ with
                | [] => .error (here .endInText [])
                | s :: rest₂ =>
                  if s ≠ backslash then .error (here .unfinishedPair rest₂)
                  else
                    match rest₂ with
                    | [] => .error (here .endInText [])
                    | u :: rest₃ =>
                      if u ≠ unicodeMark then .error (here .unfinishedPair rest₃)
                      else
                        match rest₃ with
                        | l₁ :: l₂ :: l₃ :: l₄ :: rest₄ =>
                          match quad l₁ l₂ l₃ l₄ with
                          | none => .error (here .badEscape rest₄)
                          | some m =>
                            if isLowSurrogate m then unescape (pushChar done (pairValue n m)) rest₄
                            else .error (here .loneSurrogate rest₄)
                        | _ => .error (here .endInText [])
              else unescape (pushChar done n) rest₁
          | _ => .error (here .endInText [])
        else
          match shortEscapes.lookup e with
          | some c => unescape (c :: done) after
          | none => .error (here .badEscape after)
    else if b < 0x20 then .error (here .controlCharacter rest)
    else unescape (b :: done) rest

/-- The text after its opening quote. A text that is not well-formed is a fault where its first
bad byte would end, counted back from its closing quote. -/
def readText (text : Bytes) : Except Stop (String × Bytes) := do
  let (content, rest) ← unescape [] text
  match Text.ofBytes? content with
  | some s => .ok (s, rest)
  | none => .error ⟨.notUnicode, rest.length + (content.length - Text.validLength content)⟩

inductive Numeral where
  /-- Digits alone, within 64 bits. -/
  | whole (n : Nat)
  | scaled (significand : Nat) (exponent : Int)
deriving DecidableEq, Repr

/-- Significands keep within 64 bits. -/
def significandLimit : Nat := 0x10000000000000000

def exponentLimit : Nat := 0x80000000

/-- Exponents are held within 32 bits. -/
def boundExponent (e : Int) : Int := max (-exponentLimit) (min (exponentLimit - 1) e)

/-- The digits of an exponent after its first one. Too large an exponent is a fault, unless it
makes the number zero. -/
def readExponentDigits (significand : Nat) (start : Int) (down : Bool) (e : Nat) :
    Reader Numeral
  | [] => .ok (.scaled significand (total e), [])
  | b :: rest =>
    if isDigit b then
      let e' := 10 * e + digitValue b
      if e' < exponentLimit then readExponentDigits significand start down e' rest
      else if significand ≠ 0 && !down then .error (here .numberOutOfRange rest)
      else .ok (.scaled 0 0, rest.dropWhile isDigit)
    else .ok (.scaled significand (total e), b :: rest)
where
  total (e : Nat) : Int := boundExponent (if down then start - e else start + e)

def readExponent (significand : Nat) (start : Int) (text : Bytes) :
    Except Stop (Numeral × Bytes) :=
  let (down, digits) :=
    match text with
    | b :: rest =>
      if b = plus then (false, rest) else if b = minus then (true, rest) else (false, text)
    | [] => (false, [])
  match digits with
  | [] => .error (here .endInValue [])
  | b :: rest =>
    if isDigit b then readExponentDigits significand start down (digitValue b) rest
    else .error (here .badNumber rest)

/-- What may follow the last digit of a number with a fraction or with too many digits. -/
def readScale (significand : Nat) (exponent : Int) (text : Bytes) :
    Except Stop (Numeral × Bytes) :=
  match text with
  | b :: rest =>
    if isExponentMark b then readExponent significand exponent rest
    else .ok (.scaled significand exponent, text)
  | [] => .ok (.scaled significand exponent, [])

/-- The digits after a point; `places` of them are read. Digits that the significand cannot hold
are passed over. -/
def readFraction (significand : Nat) (exponent : Int) (places : Nat) : Reader Numeral
  | [] =>
    if places = 0 then .error (ahead .endInValue [])
    else .ok (.scaled significand (exponent - places), [])
  | b :: rest =>
    if isDigit b then
      let next := 10 * significand + digitValue b
      if next < significandLimit then readFraction next exponent (places + 1) rest
      else readScale significand (exponent - places) (rest.dropWhile isDigit)
    else if places = 0 then .error (ahead .badNumber (b :: rest))
    else readScale significand (exponent - places) (b :: rest)

/-- A number with more digits than the significand holds: each of these counts in the exponent. -/
def readLong (significand : Nat) (text : Bytes) : Except Stop (Numeral × Bytes) :=
  let dropped := (text.takeWhile isDigit).length
  match text.dropWhile isDigit with
  | b :: rest =>
    if b = point then readFraction significand dropped 0 rest
    else readScale significand dropped (b :: rest)
  | [] => .ok (.scaled significand dropped, [])

/-- What may follow the digits of a number. -/
def readTail (significand : Nat) (text : Bytes) : Except Stop (Numeral × Bytes) :=
  match text with
  | b :: rest =>
    if b = point then readFraction significand 0 0 rest
    else if isExponentMark b then readExponent significand 0 rest
    else .ok (.whole significand, text)
  | [] => .ok (.whole significand, [])

/-- The digits of a number after its first one. -/
def readDigits (significand : Nat) : Reader Numeral
  | [] => .ok (.whole significand, [])
  | b :: rest =>
    if isDigit b then
      let next := 10 * significand + digitValue b
      if next < significandLimit then readDigits next rest else readLong significand (b :: rest)
    else readTail significand (b :: rest)

def readNumeral (text : Bytes) : Except Stop (Numeral × Bytes) :=
  match text with
  | [] => .error (here .endInValue [])
  | b :: rest =>
    if b = zeroDigit then
      if rest.head?.any isDigit then .error (ahead .badNumber rest) else readTail 0 rest
    else if isDigit b then readDigits (digitValue b) rest
    else .error (here .badNumber rest)

/-- Integers keep within 32 bits. -/
def intLimit : Nat := 0x80000000

/-- The value of a number: an integer if it is written as one and fits 32 bits, but not `-0`. -/
def Numeral.value? (negative : Bool) : Numeral → Option Value
  | .whole n =>
    if negative then
      if n = 0 then some (.double (Double.ofNat 0).neg)
      else if n ≤ intLimit then some (.int (Int32.ofInt (-n)))
      else some (.double (Double.ofInt (-n)))
    else if n < intLimit then some (.int (Int32.ofInt n))
    else some (.double (Double.ofNat n))
  | .scaled significand exponent => (Decimal.read negative significand exponent).map .double

def readNumber (negative : Bool) (text : Bytes) : Except Stop (Value × Bytes) := do
  let (numeral, rest) ← readNumeral text
  match numeral.value? negative with
  | some v => .ok (v, rest)
  | none => .error (here .numberOutOfRange rest)

/-- A value that is neither a list nor an object, from its first byte `b`. -/
def readScalar (b : UInt8) (rest : Bytes) : Except Stop (Value × Bytes) :=
  if b = quote then (readText rest).map fun (s, after) => (.string s, after)
  else if b = 0x6e then readWord .null [0x75, 0x6c, 0x6c] rest
  else if b = 0x74 then readWord (.bool true) [0x72, 0x75, 0x65] rest
  else if b = 0x66 then readWord (.bool false) [0x61, 0x6c, 0x73, 0x65] rest
  else if b = minus then readNumber true rest
  else if isDigit b then readNumber false (b :: rest)
  else .error (ahead .expectedValue (b :: rest))

/-- The items of a list from one item on; `done` holds those before, last first. Every item but
the last is followed by a comma, so `fuel` need not exceed the length of the text. -/
def readItems (readItem : Reader Value) : Nat → List Value → Reader (List Value)
  | 0, _, text => .error (ahead .endInList text)
  | fuel + 1, done, text => do
    let (item, after) ← readItem text
    match skipBlanks after with
    | [] => .error (ahead .endInList [])
    | b :: rest =>
      if b = closeList then .ok ((item :: done).reverse, rest)
      else if b = comma then
        match skipBlanks rest with
        | [] => .error (ahead .endInValue [])
        | c :: more =>
          if c = closeList then .error (ahead .trailingComma (c :: more))
          else readItems readItem fuel (item :: done) (c :: more)
      else .error (ahead .expectedCommaOrListEnd (b :: rest))

/-- The items of a list after its opening bracket. -/
def readList (readItem : Reader Value) (text : Bytes) : Except Stop (List Value × Bytes) :=
  match skipBlanks text with
  | [] => .error (ahead .endInList [])
  | b :: rest =>
    if b = closeList then .ok ([], rest) else readItems readItem text.length [] (b :: rest)

/-- A key after its opening quote, and the value after it. -/
def readEntry (readItem : Reader Value) (text : Bytes) :
    Except Stop ((String × Value) × Bytes) := do
  let (key, after) ← readText text
  match skipBlanks after with
  | [] => .error (ahead .endInObject [])
  | b :: rest =>
    if b = colon then
      let (item, last) ← readItem rest
      .ok ((key, item), last)
    else .error (ahead .expectedColon (b :: rest))

/-- The entries of an object from one on, after the opening quote of its key; `done` holds those
before. -/
def readEntries (readItem : Reader Value) : Nat → Entries → Reader Entries
  | 0, _, text => .error (ahead .endInObject text)
  | fuel + 1, done, text => do
    let ((key, item), after) ← readEntry readItem text
    let entries := Entries.insert done key item
    match skipBlanks after with
    | [] => .error (ahead .endInObject [])
    | b :: rest =>
      if b = closeObject then .ok (entries, rest)
      else if b = comma then
        match skipBlanks rest with
        | [] => .error (ahead .endInValue [])
        | c :: more =>
          if c = quote then readEntries readItem fuel entries more
          else if c = closeObject then .error (ahead .trailingComma (c :: more))
          else .error (ahead .expectedKey (c :: more))
      else .error (ahead .expectedCommaOrObjectEnd (b :: rest))

/-- The entries of an object after its opening bracket. -/
def readObject (readItem : Reader Value) (text : Bytes) : Except Stop (Entries × Bytes) :=
  match skipBlanks text with
  | [] => .error (ahead .endInObject [])
  | b :: rest =>
    if b = closeObject then .ok ([], rest)
    else if b = quote then readEntries readItem text.length [] rest
    else .error (ahead .expectedKey (b :: rest))

/-- A value in which brackets nest at most `nesting` times. -/
def readValue : Nat → Reader Value
  | nesting, text =>
    match skipBlanks text with
    | [] => .error (ahead .endInValue [])
    | b :: rest =>
      if b = openList then
        match nesting with
        | 0 => .error (ahead .tooDeep (b :: rest))
        | n + 1 => (readList (readValue n) rest).map fun (items, after) => (.list items, after)
      else if b = openObject then
        match nesting with
        | 0 => .error (ahead .tooDeep (b :: rest))
        | n + 1 => (readObject (readValue n) rest).map fun (es, after) => (.object es, after)
      else readScalar b rest

/-- Brackets may nest so many times. -/
def deepest : Nat := 127

/-- A fault with its line, counted from one, and the number of bytes of that line before it. -/
structure Error where
  reason : Reason
  line : Nat
  column : Nat
deriving DecidableEq, Repr

/-- The place after some bytes of a text. -/
def place (reason : Reason) (before : Bytes) : Error where
  reason
  line := 1 + before.count lineFeed
  column := (before.reverse.takeWhile (· ≠ lineFeed)).length

def Stop.place (text : Bytes) (s : Stop) : Error :=
  Json.place s.reason (text.take (text.length - s.left))

/-- Reads a value and nothing after it but blanks. -/
def readAll (text : Bytes) : Except Stop Value := do
  let (value, rest) ← readValue deepest text
  match skipBlanks rest with
  | [] => .ok value
  | r => .error (ahead .trailingBytes r)

def read (text : Bytes) : Except Error Value := (readAll text).mapError (·.place text)

def Error.text (e : Error) : String :=
  e.reason.text ++ " at line " ++ toString e.line ++ " column " ++ toString e.column

end CrashCourier.Json
