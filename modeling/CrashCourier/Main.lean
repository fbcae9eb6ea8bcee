import CrashCourier.Command.Run
import CrashCourier.Moment

namespace CrashCourier.Program

def look (path : String) : IO (Option Entry) := do
  let place := (← IO.currentDir) / path
  if ← place.isDir then pure (some .directory)
  else if ← place.pathExists then
    pure (some (.file (← IO.FS.readBinFile place).toList))
  else pure none

/-- Adds what is at a place, and on the way there, to a tree. -/
def addPlace (t : FileTree) (start : List String) (parts : List String) : IO FileTree := do
  let mut t := t
  let mut path := start
  for part in parts do
    if part = ".." then path := path.dropLast
    else if part ≠ "." then path := path ++ [part]
    match ← look ("/" ++ "/".intercalate path) with
    | some e => if path ≠ [] then t := t.put path e
    | none => pure ()
  pure t

def addPath (t : FileTree) (path : String) : IO FileTree := do
  let r := Route.ofText path
  addPlace t (if r.absolute then [] else t.workDir) r.parts

def addDirectory (t : FileTree) (path : String) : IO FileTree := do
  let mut t ← addPath t path
  if t.isDirectory path then
    for child in ← ((← IO.currentDir) / path).readDir do
      t ← addPath t (path ++ "/" ++ child.fileName)
  pure t

/-- Adds a file of mappings and the files that it names. -/
def addMappings (t : FileTree) (maps : String) : IO FileTree := do
  let t ← addPath t maps
  match t.read maps with
  | .error _ => pure t
  | .ok bytes =>
    match Text.ofBytes? bytes with
    | none => pure t
    | some text => (Image.ranges text.toList).foldlM (fun t r => addPath t (String.ofList r.path)) t

/-- The files that a task is about. -/
def filesFor (task : Command.Task) : IO FileTree := do
  let here := Route.ofText (← IO.currentDir).toString
  let t ← addPlace { workDir := here.parts, entries := [] } [] here.parts
  match task with
  | .list dir => addDirectory t dir
  | .print file => addPath t file
  | .modules maps => addMappings t (maps.getD "/proc/self/maps")
  | .capture outbox _ _ => do addPath (← addPath t outbox) (Startup.databasePath outbox)
  | .version => pure t

/-- Makes the entries that a tree has and another has not. -/
def makeChanges (old new : FileTree) : IO Unit :=
  new.entries.forM fun (path, e) => do
    if old.find? path ≠ some e then
      let place := "/" ++ "/".intercalate path
      match e with
      | .directory => IO.FS.createDirAll place
      | .file content => IO.FS.writeBinFile place content.toByteArray

def randomId : IO Uuid := do
  match Uuid.ofRandom? (← IO.getRandomBytes 16).toList with
  | some id => pure id
  | none => throw (IO.userError "no random bytes")

/-- The moment that it is, from the clock that stamps files. -/
def now : IO String :=
  IO.FS.withTempFile fun _ path => do
    let time := (← path.metadata).modified
    pure (Moment.text time.sec (time.nsec.toNat / 1000000))

def write (stream : IO.FS.Stream) (b : Bytes) : IO Unit := do
  stream.write b.toByteArray
  stream.flush

end CrashCourier.Program

open CrashCourier in
def main (args : List String) : IO UInt32 := do
  let files ← match Command.read args with
    | .ok i => Program.filesFor i.task
    | .error _ => pure { workDir := [], entries := [] }
  let event ← Program.randomId
  let file ← Program.randomId
  let moment ← Program.now
  let supply : Supply := { moment, eventId := fun _ => event, fileId := fun _ => file }
  let (outcome, world) := Command.run { files, supply } args
  Program.makeChanges files world.files
  Program.write (← IO.getStdout) outcome.output
  Program.write (← IO.getStderr) outcome.errors
  pure outcome.code.toUInt32
