import CrashCourier.Bytes

namespace CrashCourier

/-- Why an operation on a path failed. -/
inductive FileError where
  | notFound
  | alreadyExists
  | notDirectory
  | isDirectory
  | nameTooLong
  | nulInPath
  /-- Any other error of the system. -/
  | system (code : Nat) (kind message : String)
  | other (message : String)
deriving DecidableEq, Repr

namespace FileError

/-- The number, kind and text of an error that the system reports. -/
def system? : FileError → Option (Nat × String × String)
  | notFound => some (2, "NotFound", "No such file or directory")
  | .alreadyExists => some (17, "AlreadyExists", "File exists")
  | notDirectory => some (20, "NotADirectory", "Not a directory")
  | isDirectory => some (21, "IsADirectory", "Is a directory")
  | nameTooLong => some (36, "InvalidFilename", "File name too long")
  | system code kind message => some (code, kind, message)
  | nulInPath => none
  | other _ => none

/-- The text of an error that the system does not report. -/
def plainText : FileError → String
  | other message => message
  | _ => "file name contained an unexpected NUL byte"

def text (e : FileError) : String :=
  match e.system? with
  | some (code, _, message) => message ++ " (os error " ++ toString code ++ ")"
  | none => e.plainText

end FileError

/-- A path as it is walked. -/
structure Route where
  absolute : Bool
  parts : List String
  /-- Whether a slash ends it, so that it can only name a directory. -/
  slash : Bool
deriving DecidableEq, Repr

namespace Route

/-- Splits a text into the parts between slashes, empty ones included. -/
def split (s : String) : List String := (s.toList.splitOn '/').map String.ofList

def ofText (s : String) : Route where
  absolute := s.toList.head? = some '/'
  parts := (split s).filter fun p => p ≠ ""
  slash := s.toList.getLast? = some '/'

/-- The parts without those that stay in place, except a leading one of a relative path. -/
def essential (r : Route) : List String :=
  match r.parts with
  | [] => []
  | p :: ps =>
    let rest := ps.filter fun q => q ≠ "."
    if p = "." ∧ r.absolute then rest else p :: rest

/-- The routes of the directories above, nearest first. -/
def ancestors (r : Route) : List Route :=
  let parts := r.essential
  ((List.range parts.length).drop 1).reverse.map fun n => ⟨r.absolute, parts.take n, false⟩

end Route

inductive Entry where
  | directory
  | file (content : Bytes)
deriving DecidableEq, Repr

/-- What a system has against an entry that its path allows: no permission, no room. -/
structure Refusal where
  error : FileError
  /-- How much of a file is written before the error; none if not even its name is taken. -/
  written : Option Nat := none
deriving DecidableEq, Repr

/-- Entries by the names on the way from the root to them, in the order of their creation. -/
structure FileTree where
  workDir : List String
  entries : List (List String × Entry)
  /-- Whether the system refuses an entry at a path, as the tree then is. -/
  refusal : List (List String × Entry) → List String → Entry → Option Refusal :=
    fun _ _ _ => none

namespace FileTree

/-- The most bytes that a path and a name may have. -/
def pathLimit : Nat := 4095
def nameLimit : Nat := 255

/-- A tree with an empty working directory of a name. -/
def withWorkDir (name : String) : FileTree where
  workDir := [name]
  entries := [([name], .directory)]

def find? (t : FileTree) (path : List String) : Option Entry :=
  if path = [] then some .directory else t.entries.lookup path

def putEntry (path : List String) (e : Entry) :
    List (List String × Entry) → List (List String × Entry)
  | [] => [(path, e)]
  | (p, old) :: rest => if p = path then (p, e) :: rest else (p, old) :: putEntry path e rest

def put (t : FileTree) (path : List String) (e : Entry) : FileTree :=
  { t with entries := putEntry path e t.entries }

/-- Whether the system refuses an entry at a path now. -/
def refuses? (t : FileTree) (path : List String) (e : Entry) : Option Refusal :=
  t.refusal t.entries path e

/-- What a route leads to: a directory that exists, or a name in one. -/
inductive Place where
  | directory (path : List String)
  | child (parent : List String) (name : String)
deriving DecidableEq, Repr

namespace Place

def path : Place → List String
  | directory path => path
  | child parent name => parent ++ [name]

/-- A place that can be looked up: a name must not be too long. -/
def fit : Place → Except FileError Place
  | directory path => .ok (.directory path)
  | child parent name =>
    if nameLimit < Text.length name then .error .nameTooLong else .ok (.child parent name)

end Place

def walk (t : FileTree) (cur : List String) : List String → Except FileError Place
  | [] => .ok (.directory cur)
  | part :: rest =>
    if part = "." then walk t cur rest
    else if part = ".." then walk t cur.dropLast rest
    else if rest = [] then .ok (.child cur part)
    else if nameLimit < Text.length part then .error .nameTooLong
    else
      match t.find? (cur ++ [part]) with
      | none => .error .notFound
      | some (.file _) => .error .notDirectory
      | some .directory => walk t (cur ++ [part]) rest

/-- Walks a route up to its last part, which is not looked up. -/
def reach (t : FileTree) (r : Route) : Except FileError Place :=
  walk t (if r.absolute then [] else t.workDir) r.parts

def locate (t : FileTree) (r : Route) : Except FileError Place := do (← t.reach r).fit

/-- The route of a text that may be a path. -/
def route (s : String) : Except FileError Route :=
  if '\x00' ∈ s.toList then .error .nulInPath
  else if s = "" then .error .notFound
  else if pathLimit < Text.length s then .error .nameTooLong
  else .ok (Route.ofText s)

def entryAt (t : FileTree) (r : Route) : Except FileError Entry := do
  match t.find? (← t.locate r).path with
  | none => .error .notFound
  | some .directory => .ok .directory
  | some (.file content) => if r.slash then .error .notDirectory else .ok (.file content)

def entry (t : FileTree) (s : String) : Except FileError Entry := do t.entryAt (← route s)

def isDirectoryAt (t : FileTree) (r : Route) : Bool := t.entryAt r matches .ok .directory

def isDirectory (t : FileTree) (s : String) : Bool := t.entry s matches .ok .directory

def isFile (t : FileTree) (s : String) : Bool := t.entry s matches .ok (.file _)

def read (t : FileTree) (s : String) : Except FileError Bytes := do
  match ← t.entry s with
  | .directory => .error .isDirectory
  | .file content => .ok content

def makeDirectoryAt (t : FileTree) (r : Route) : Except FileError FileTree := do
  match ← t.locate r with
  | .directory _ => .error .alreadyExists
  | .child parent name =>
    match t.find? (parent ++ [name]), t.refuses? (parent ++ [name]) .directory with
    | some _, _ => .error .alreadyExists
    | none, some refusal => .error refusal.error
    | none, none => .ok (t.put (parent ++ [name]) .directory)

/-- Makes the first directory of the routes, after those above it that are missing. What was made
stays when a later step fails. -/
def makeDirectoriesAt (t : FileTree) : List Route → Except FileError Unit × FileTree
  | [] => (.ok (), t)
  | r :: above =>
    match t.makeDirectoryAt r with
    | .ok made => (.ok (), made)
    | .error .notFound =>
      match makeDirectoriesAt t above with
      | (.error e, t') => (.error e, t')
      | (.ok (), t') =>
        match t'.makeDirectoryAt r with
        | .ok made => (.ok (), made)
        | .error e => (if t'.isDirectoryAt r then .ok () else .error e, t')
    | .error e => (if t.isDirectoryAt r then .ok () else .error e, t)

/-- Makes a directory and all that are missing above it; one that exists is left as it is. -/
def makeDirectories (t : FileTree) (s : String) : Except FileError Unit × FileTree :=
  if s = "" then (.ok (), t)
  else
    match route s with
    | .error e => (.error e, t)
    | .ok r => t.makeDirectoriesAt (r :: r.ancestors)

/-- The path under which a file can be written: a name in a directory that exists. A route that
ends with a slash is refused before its last name is looked up. -/
def filePath (t : FileTree) (s : String) : Except FileError (List String) := do
  let r ← route s
  let reached ← t.reach r
  if r.slash then .error .isDirectory
  else
    match ← reached.fit with
    | .directory _ => .error .isDirectory
    | .child parent name =>
      if t.find? (parent ++ [name]) = some .directory then .error .isDirectory
      else .ok (parent ++ [name])

/-- Writes a whole file in place of any content it had. A write that the system refuses may leave a
part of the file. -/
def write (t : FileTree) (s : String) (content : Bytes) : Except FileError Unit × FileTree :=
  match t.filePath s with
  | .error e => (.error e, t)
  | .ok path =>
    match t.refuses? path (.file content) with
    | none => (.ok (), t.put path (.file content))
    | some ⟨e, none⟩ => (.error e, t)
    | some ⟨e, some n⟩ => (.error e, t.put path (.file (content.take n)))

/-- Writes a file after making the directories above it. Where that fails, the file is not there. -/
def place (t : FileTree) (s : String) (content : Bytes) : FileTree :=
  ((t.makeDirectories ("/".intercalate (Route.split s).dropLast)).2.write s content).2

/-- The entries below a path, each by the names that lead from there to it. -/
def below (t : FileTree) (path : List String) : List (List String × Entry) :=
  t.entries.filterMap fun (p, e) =>
    if p.length > path.length && p.take path.length == path then some (p.drop path.length, e)
    else none

def children (t : FileTree) (path : List String) : List (String × Entry) :=
  (t.below path).filterMap fun (p, e) =>
    match p with
    | [name] => some (name, e)
    | _ => none

/-- The relative paths of all entries below the working directory, a slash after directories. The
names of files are shown as `shown` says. -/
def paths (t : FileTree) (shown : String → String) : List String :=
  (t.below t.workDir).map fun (p, e) =>
    match e with
    | .directory => "/".intercalate p ++ "/"
    | .file _ => "/".intercalate (p.dropLast ++ p.getLast?.toList.map shown)

def filesIn (t : FileTree) (s : String) : Except FileError (List (String × Bytes)) := do
  let r ← route s
  let place ← t.locate r
  match ← t.entryAt r with
  | .file _ => .error .notDirectory
  | .directory =>
    .ok ((t.children place.path).filterMap fun (name, e) =>
      match e with
      | .file content => some (name, content)
      | .directory => none)

theorem lookup_putEntry (path other : List String) (e : Entry)
    (es : List (List String × Entry)) :
    (putEntry path e es).lookup other = if path = other then some e else es.lookup other := by
  induction es with
  | nil =>
    by_cases h : path = other
    · simp [putEntry, h]
    · have h' : (other == path) = false := by simpa using Ne.symm h
      simp [putEntry, List.lookup_cons, h, h']
  | cons q rest ih =>
    obtain ⟨p, old⟩ := q
    simp only [putEntry]
    by_cases hp : p = path
    · subst hp
      by_cases ho : p = other
      · simp [ho]
      · have ho' : (other == p) = false := by simpa using Ne.symm ho
        simp [List.lookup_cons, ho, ho']
    · simp only [hp, ↓reduceIte]
      by_cases ho : p = other
      · subst ho
        have : ¬ path = p := Ne.symm hp
        simp [this]
      · have ho' : (other == p) = false := by simpa using Ne.symm ho
        simp [List.lookup_cons, ho', ih]

theorem find?_put {t : FileTree} {path other : List String} {e : Entry} (h : path ≠ []) :
    (t.put path e).find? other = if path = other then some e else t.find? other := by
  simp only [find?, put]
  by_cases ho : other = []
  · subst ho
    simp [h]
  · simp [ho, lookup_putEntry]

end FileTree

end CrashCourier
