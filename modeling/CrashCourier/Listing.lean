import CrashCourier.Failure
import CrashCourier.Text.Quoted

namespace CrashCourier.Listing

structure Summary where
  file : String
  size : Nat
  eventId : Option Uuid
  items : List String
  error : Option EnvelopeError

/-- What is known of a file from its content. -/
def summarize (file : String) (content : Bytes) : Summary :=
  match Envelope.ofWire content with
  | .ok e => ⟨file, content.length, e.eventId, e.items.map EnvelopeItem.type, none⟩
  | .error e => ⟨file, content.length, none, [], some e⟩

def nameLe (a b : Summary) : Bool := a.file ≤ b.file

inductive Fault where
  | noOutbox (dir : String)
  | files (e : FileError)

def Fault.text : Fault → String
  | noOutbox dir => "No outbox found at " ++ Text.quoted dir
  | files e => e.text

def pathIn (dir name : String) : String :=
  if dir.endsWith "/" then dir ++ name else dir ++ "/" ++ name

/-- The summary of a file in a directory. The file is read by its own path, which may be too long
even where the path of the directory is not. -/
def ofFile (files : FileTree) (dir name : String) : Except FileError Summary :=
  (files.read (pathIn dir name)).map (summarize name)

def ofOutbox (files : FileTree) (dir : String) : Except Fault (List Summary) :=
  if files.isDirectory dir then
    match files.filesIn dir >>= List.mapM fun f => ofFile files dir f.1 with
    | .ok found => .ok (found.mergeSort nameLe)
    | .error e => .error (.files e)
  else .error (.noOutbox dir)

/-- Parts on lines of their own, with commas between them. -/
def stacked (depth : Nat) : List Bytes → Bytes
  | [] => []
  | [part] => Json.Spacing.indented.lineBreak depth ++ part
  | part :: rest =>
    Json.Spacing.indented.lineBreak depth ++ part ++ Json.comma :: stacked depth rest

/-- A list of texts as a JSON list at the outermost level. -/
def listText (parts : List Bytes) : Bytes :=
  if parts.isEmpty then [Json.openList, Json.closeList]
  else
    Json.openList :: (stacked 1 parts ++ Json.Spacing.indented.lineBreak 0 ++ [Json.closeList])

def member (key : String) (text : Bytes) : Bytes :=
  Json.writeText key ++ Json.colon :: Json.Spacing.indented.afterColon ++ text

/-- What is not known is left out. -/
def optionalMember (key : String) (text : Option String) : List Bytes :=
  (text.map fun t => member key (Json.writeText t)).toList

def Summary.text (s : Summary) : Bytes :=
  let members :=
    [member "file" (Json.writeText s.file), member "size" (Text.bytes (toString s.size))]
      ++ optionalMember "event_id" (s.eventId.map Uuid.hyphenated)
      ++ [member "items" (Json.write .indented 2 (.list (s.items.map .string)))]
      ++ optionalMember "error" (s.error.map EnvelopeError.text)
  Json.openObject ::
    (stacked 2 members ++ Json.Spacing.indented.lineBreak 1 ++ [Json.closeObject])

def text (summaries : List Summary) : Bytes := listText (summaries.map Summary.text)

end CrashCourier.Listing
