import CrashCourier.Command.Arguments
import CrashCourier.Engine
import CrashCourier.Image.Catalog
import CrashCourier.Listing
import CrashCourier.Startup

namespace CrashCourier.Command

inductive Fault where
  | words (message : String)
  | files (e : FileError)
  | engine (e : Failure)
  | overflow (e : Image.Overflow)

namespace Fault

def debugFiles (e : FileError) : String :=
  match e.system? with
  | some (code, kind, message) =>
    "Os \x7b code: " ++ toString code ++ ", kind: " ++ kind ++ ", message: " ++ Text.quoted message
      ++ " \x7d"
  | none => "Error \x7b kind: InvalidInput, message: " ++ Text.quoted e.plainText ++ " \x7d"

def debugEnvelope (e : EnvelopeError) : String :=
  match e with
  | .json j =>
    "Json(Error(" ++ Text.quoted j.reason.text ++ ", line: " ++ toString j.line ++ ", column: "
      ++ toString j.column ++ "))"
  | e => "InvalidEnvelope \x7b message: " ++ Text.quoted e.detail ++ " \x7d"

def debugText : Fault → String
  | words message => Text.quoted message
  | files e => debugFiles e
  | engine (.files e) => "Io(" ++ debugFiles e ++ ")"
  | engine (.envelope e) => debugEnvelope e
  | overflow e => e.text

/-- The code with which a program ends on a fault. -/
def code : Fault → Nat
  | overflow _ => 101
  | _ => 1

/-- What a program says of a fault. -/
def message : Fault → String
  | overflow e => e.text
  | e => "Error: " ++ e.debugText

end Fault

/-- What a command prints, line by line. -/
abbrev Page := List Bytes

def line (s : String) : Bytes := Text.bytes s

def summaryLine (s : Listing.Summary) : String :=
  let start := "  " ++ s.file ++ " (" ++ toString s.size ++ " bytes) "
  match s.error with
  | some e => start ++ "invalid: " ++ e.text
  | none =>
    start ++ "event " ++ (s.eventId.map Uuid.hyphenated).getD "-" ++ " ["
      ++ ", ".intercalate s.items ++ "]"

def listing (files : FileTree) (dir : String) (json : Bool) : Except Fault Page :=
  match Listing.ofOutbox files dir with
  | .error (.files e) => .error (.files e)
  | .error e => .error (.words e.text)
  | .ok found =>
    if json then .ok [Listing.text found]
    else
      .ok (line ("Outbox: " ++ dir) :: line ("Envelopes: " ++ toString found.length)
        :: found.map fun s => line (summaryLine s))

/-- The lines on an item, after an empty one. -/
def itemLines (index : Nat) (i : EnvelopeItem) : Page :=
  [[], line ("Item " ++ toString index ++ " (" ++ i.type ++ ", " ++ toString i.payload.length
      ++ " bytes)"),
    match i.value with
    | .ok v => Json.pretty v
    | .error _ => line (Text.lossy i.payload)]

def itemPages (index : Nat) : List EnvelopeItem → Page
  | [] => []
  | i :: rest => itemLines index i ++ itemPages (index + 1) rest

def showing (files : FileTree) (file : String) (json : Bool) : Except Fault Page :=
  match files.read file with
  | .error e => .error (.files e)
  | .ok content =>
    match Envelope.ofWire content with
    | .error e => .error (.engine (.envelope e))
    | .ok e =>
      if json then .ok [Json.pretty e.view]
      else
        .ok (line ("Envelope: " ++ file) :: (line "Headers: " ++ Json.compact e.headers)
          :: itemPages 0 e.items)

/-- A text at the right end of a column. -/
def atRight (width : Nat) (s : String) : String :=
  String.ofList (List.replicate (width - s.toList.length) ' ' ++ s.toList)

def imageLine (image : Value) : String :=
  "  " ++ atRight 18 (image.get "image_addr").asString ++ " "
    ++ atRight 10 (toString (image.get "image_size").asInt.toInt) ++ " "
    ++ (image.get "code_id").asString?.getD "-" ++ " " ++ (image.get "code_file").asString

def imagePage (images : Value) (json : Bool) : Page :=
  if json then [Json.pretty images]
  else
    line ("Loaded modules: " ++ toString images.size)
      :: images.items.map fun image => line (imageLine image)

def imaging (files : FileTree) (maps : Option String) (json : Bool) : Except Fault Page :=
  let found (source : Image.Source) : Except Fault Page :=
    match ((Image.Catalog.setSource {} source).list files).1 with
    | .ok images => .ok (imagePage images json)
    | .error e => .error (.overflow e)
  match maps with
  | none => found Image.ownMaps
  | some path =>
    if files.isFile path then found (.maps path)
    else .error (.words ("No mappings file at " ++ Text.quoted path))

def testEvent (message : String) : Value :=
  (Value.emptyObject.set "message" (.string message)).set "level" (.string "info")

/-- Captures an event in a session of its own that stores envelopes in an outbox. The outbox is
made if it is not there. -/
def captureInto (w : World) (outbox dsn message : String) (debug : Bool) :
    Except Fault Uuid × World :=
  match w.files.makeDirectories outbox with
  | (.error e, files) => (.error (.files e), { w with files })
  | (.ok (), files) =>
    let options : Options := {
      dsn := some dsn
      debug
      databasePath := Startup.databasePath outbox
      transport := some (Transport.toOutbox (Buffer.ofText outbox)) }
    match ({ world := { w with files } } : Site).start options with
    | (.error e, s) => (.error (.engine e), s.world)
    | (.ok (), s) =>
      let (id, s) := s.capture (testEvent message)
      let result :=
        match id with
        | some id => .ok id
        | none => .error (.words "Event was not captured")
      (result, s.close.world)

def capturePage (id : Uuid) (outbox : String) (json : Bool) : Page :=
  if json then
    [Json.pretty ((Value.emptyObject.set "event_id" (.string id.hyphenated)).set "outbox"
      (.string outbox))]
  else [line ("Captured event " ++ id.hyphenated), line ("Outbox: " ++ outbox)]

def versionNumber : String := "0.3.0"

def versionPage : Page :=
  ["NDK CLI v", "NDK Bridge v", "NDK Engine v"].map fun part => line (part ++ versionNumber)

def perform (w : World) (i : Invocation) : Except Fault Page × World :=
  match i.task with
  | .list dir => (listing w.files dir i.json, w)
  | .print file => (showing w.files file i.json, w)
  | .modules maps => (imaging w.files maps i.json, w)
  | .capture outbox dsn message =>
    let (result, w) := captureInto w outbox dsn message i.verbose
    (result.map fun id => capturePage id outbox i.json, w)
  | .version => (.ok versionPage, w)

/-- How a program ends: its code and what it has printed. -/
structure Outcome where
  code : Nat
  output : Bytes := []
  errors : Bytes := []

def printed (p : Page) : Bytes := p.flatMap fun l => l ++ [lineFeed]

def usage : Page :=
  [line "Usage: ndk [-v] [-f FORMAT] outbox list DIR | outbox show FILE | modules [-m FILE]",
    line "         | capture -o DIR -d DSN [-m MESSAGE] | version"]

def run (w : World) (args : List String) : Outcome × World :=
  match read args with
  | .error .help => ({ code := 0, output := printed usage }, w)
  | .error .version => ({ code := 0, output := printed [line ("ndk " ++ versionNumber)] }, w)
  | .error .misuse => ({ code := 2, errors := printed usage }, w)
  | .ok i =>
    match perform w i with
    | (.ok page, w) => ({ code := 0, output := printed page }, w)
    | (.error e, w) => ({ code := e.code, errors := printed [line e.message] }, w)

end CrashCourier.Command
