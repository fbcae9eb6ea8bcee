import CrashCourier.Json.Reader
import CrashCourier.Json.Writer
import CrashCourier.Uuid

namespace CrashCourier

structure EnvelopeItem where
  headers : Value
  payload : Bytes

structure Envelope where
  headers : Value
  items : List EnvelopeItem

inductive EnvelopeError where
  | json (e : Json.Error)
  | missingHeader
  | headerNotObject
  | negativeLength
  | truncated (expected found : Nat)
  /-- Any other fault, in words. -/
  | other (message : String)
deriving DecidableEq, Repr

namespace EnvelopeItem

/-- A number of bytes as a header: a double if it does not fit 32 bits. -/
def lengthValue (n : Nat) : Value :=
  if n < Json.intLimit then .int (Int32.ofInt n) else .double (Double.ofNat n)

/-- An item of a type, with the length of its payload in its headers. -/
def ofPayload (type : String) (payload : Bytes) : EnvelopeItem where
  headers := (Value.emptyObject.set "type" (.string type)).set "length" (lengthValue payload.length)
  payload

/-- The type in the headers; empty if there is none. -/
def type (i : EnvelopeItem) : String := (i.headers.get "type").asString

def value (i : EnvelopeItem) : Except Json.Error Value := Json.read i.payload

def same (a b : EnvelopeItem) : Bool := a.headers == b.headers && a.payload == b.payload

/-- The lines of an item: a line feed, its headers, a line feed, its payload. -/
def wire (i : EnvelopeItem) : Bytes := lineFeed :: (Json.compact i.headers ++ lineFeed :: i.payload)

end EnvelopeItem

namespace Envelope

def empty : Envelope := ⟨Value.emptyObject, []⟩

def addItem (e : Envelope) (i : EnvelopeItem) : Envelope := { e with items := e.items ++ [i] }

/-- The envelope of an event: its identifier, the destination if known and the moment of sending
are in the headers, and its JSON text is the payload of the only item. -/
def ofEvent (event : Value) (dsn : Option String) (moment : String) : Envelope :=
  let id := event.get "event_id"
  let named := if id.isNull then Value.emptyObject else Value.emptyObject.set "event_id" id
  let headers := (named.setSome "dsn" dsn).set "sent_at" (.string moment)
  ⟨headers, [EnvelopeItem.ofPayload "event" (Json.compact event)]⟩

/-- The identifier in the headers, if it has one of the known forms. -/
def eventId (e : Envelope) : Option Uuid := (e.headers.get "event_id").asString?.bind Uuid.ofText?

def event? (e : Envelope) : Option Value := e.items.head?.bind fun i => i.value.toOption

def wire (e : Envelope) : Bytes :=
  Json.compact e.headers ++ e.items.flatMap EnvelopeItem.wire ++ [lineFeed]

def same (a b : Envelope) : Bool :=
  a.headers == b.headers && a.items.length == b.items.length
    && (a.items.zip b.items).all fun (x, y) => x.same y

def readHeaders (line : Bytes) : Except EnvelopeError Value :=
  match Json.read line with
  | .error e => .error (.json e)
  | .ok (.object es) => .ok (.object es)
  | .ok _ => .error .headerNotObject

def skipLineFeed : Bytes → Bytes
  | [] => []
  | b :: rest => if b = lineFeed then rest else b :: rest

/-- The payload that some headers announce at the start of some bytes, and the bytes after it. -/
def splitPayload (headers : Value) (bytes : Bytes) : Except EnvelopeError (Bytes × Bytes) :=
  match headers.get "length" with
  | .null => .ok bytes.splitLine
  | length =>
    match length.asDouble.truncate with
    | .negSucc _ => .error .negativeLength
    | .ofNat n =>
      if bytes.length < n then .error (.truncated n bytes.length)
      else .ok (bytes.take n, skipLineFeed (bytes.drop n))

/-- The items in some bytes; `done` holds those before, last first. Every turn uses up a byte at
least, so `fuel` need not exceed the number of bytes. -/
def readItems : Nat → List EnvelopeItem → Bytes → Except EnvelopeError (List EnvelopeItem)
  | _, done, [] => .ok done.reverse
  | 0, done, _ => .ok done.reverse
  | fuel + 1, done, b :: rest =>
    let (line, after) := Bytes.splitLine (b :: rest)
    if line.isEmpty then readItems fuel done after
    else
      match readHeaders line with
      | .error e => .error e
      | .ok headers =>
        match splitPayload headers after with
        | .error e => .error e
        | .ok (payload, tail) => readItems fuel (⟨headers, payload⟩ :: done) tail

/-- The envelope that some bytes hold. Empty lines before an item are passed over. -/
def ofWire (bytes : Bytes) : Except EnvelopeError Envelope :=
  let (line, rest) := bytes.splitLine
  if line.isEmpty then .error .missingHeader
  else
    match readHeaders line with
    | .error e => .error e
    | .ok headers =>
      match readItems rest.length [] rest with
      | .error e => .error e
      | .ok items => .ok ⟨headers, items⟩

/-- An item with its payload as a value: the value of its JSON text, otherwise a text. -/
def itemView (i : EnvelopeItem) : Value :=
  let payload :=
    match i.value with
    | .ok v => v
    | .error _ => .string (Text.lossy i.payload)
  (Value.emptyObject.set "headers" i.headers).set "payload" payload

def view (e : Envelope) : Value :=
  (Value.emptyObject.set "headers" e.headers).set "items" (.list (e.items.map itemView))

end Envelope

end CrashCourier
