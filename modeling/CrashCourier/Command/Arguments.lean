namespace CrashCourier.Command

inductive Flag where
  | help | version | verbose | format | maps | outbox | dsn | message
deriving DecidableEq, Repr

namespace Flag

def long : Flag → String
  | help => "help"
  | version => "version"
  | verbose => "verbose"
  | format => "format"
  | maps => "maps"
  | outbox => "outbox"
  | dsn => "dsn"
  | message => "message"

def short : Flag → Char
  | help => 'h'
  | version => 'V'
  | verbose => 'v'
  | format => 'f'
  | maps => 'm'
  | outbox => 'o'
  | dsn => 'd'
  | message => 'm'

def takesValue : Flag → Bool
  | help | version | verbose => false
  | format | maps | outbox | dsn | message => true

/-- Whether the value is a path, which is never empty. -/
def isPath : Flag → Bool
  | maps | outbox => true
  | _ => false

end Flag

/-- Commands, with those that have commands of their own. -/
inductive Level where
  | top | outbox | list | print | modules | capture | version
deriving DecidableEq, Repr

namespace Level

def commands : Level → List (String × Level)
  | top =>
    [("outbox", outbox), ("modules", modules), ("capture", capture), ("version", version)]
  | outbox => [("list", list), ("show", print)]
  | _ => []

def flags : Level → List Flag
  | top => [.help, .version, .verbose, .format]
  | modules => [.help, .verbose, .format, .maps]
  | capture => [.help, .verbose, .format, .outbox, .dsn, .message]
  | _ => [.help, .verbose, .format]

/-- Whether a command is given the path of what it works on. -/
def takesPath : Level → Bool
  | list | print => true
  | _ => false

end Level

inductive Task where
  | list (dir : String)
  | print (file : String)
  | modules (maps : Option String)
  | capture (outbox dsn message : String)
  | version
deriving DecidableEq, Repr

structure Invocation where
  verbose : Bool
  json : Bool
  task : Task
deriving DecidableEq, Repr

/-- Why a command line is not carried out. -/
inductive Stop where
  | help
  | version
  | misuse
deriving DecidableEq, Repr

structure Reading where
  level : Level := .top
  /-- The options of this command. -/
  given : List (Flag × String) := []
  /-- The options of the commands above, inner ones first. -/
  above : List (Flag × String) := []
  path : Option String := none
  /-- An option whose value comes next. -/
  pending : Option Flag := none
  /-- Whether only words follow. -/
  wordsOnly : Bool := false

namespace Reading

def give (r : Reading) (f : Flag) (value : String) : Except Stop Reading :=
  if (r.given.lookup f).isSome then .error .misuse
  else if f.isPath && value = "" then .error .misuse
  else .ok { r with given := (f, value) :: r.given, pending := none }

def readFlag (r : Reading) (f : Flag) : Except Stop Reading :=
  if r.pending.isSome then .error .misuse
  else
    match f with
    | .help => .error .help
    | .version => .error .version
    | _ => if f.takesValue then .ok { r with pending := some f } else r.give f ""

def readFlagValue (r : Reading) (f : Flag) (value : String) : Except Stop Reading :=
  if r.pending.isSome then .error .misuse else r.give f value

/-- Reads an option by its long name, without the hyphens. -/
def long (r : Reading) (text : List Char) : Except Stop Reading :=
  let name := String.ofList (text.takeWhile (· ≠ '='))
  match r.level.flags.find? fun f => f.long = name with
  | none => .error .misuse
  | some f =>
    match text.dropWhile (· ≠ '=') with
    | [] => r.readFlag f
    | _ :: value =>
      if f.takesValue then r.readFlagValue f (String.ofList value) else .error .misuse

/-- Reads options by their letters. The value of an option may follow its letter. -/
def short (r : Reading) : List Char → Except Stop Reading
  | [] => .ok r
  | c :: rest =>
    match r.level.flags.find? fun f => f.short = c with
    | none => .error .misuse
    | some f =>
      if f.takesValue then
        match rest with
        | [] => r.readFlag f
        | '=' :: value => r.readFlagValue f (String.ofList value)
        | value => r.readFlagValue f (String.ofList value)
      else
        match r.readFlag f with
        | .error e => .error e
        | .ok r => short r rest

def word (r : Reading) (text : String) : Except Stop Reading :=
  if r.pending.isNone && r.level.takesPath && r.path.isNone && text ≠ "" then
    .ok { r with path := some text }
  else .error .misuse

def enter (r : Reading) (level : Level) : Reading where
  level
  above := r.given ++ r.above

def step (r : Reading) (arg : String) : Except Stop Reading :=
  if r.wordsOnly then r.word arg
  else
    match r.pending.isNone, r.level.commands.lookup arg with
    | true, some level => .ok (r.enter level)
    | _, _ =>
      match arg.toList with
      | ['-', '-'] => .ok { r with wordsOnly := true }
      | '-' :: '-' :: text => r.long text
      | '-' :: c :: text => r.short (c :: text)
      | _ =>
        match r.pending with
        | some f => r.give f arg
        | none => r.word arg

/-- The value of an option, from the innermost command that it was given to. -/
def value? (r : Reading) (f : Flag) : Option String := (r.given ++ r.above).lookup f

def needed {α : Type} : Option α → Except Stop α
  | some a => .ok a
  | none => .error .misuse

/-- What is to be done, once everything is read. -/
def task (r : Reading) : Except Stop Task :=
  match r.level with
  | .top | .outbox => .error .misuse
  | .list => do .ok (.list (← needed r.path))
  | .print => do .ok (.print (← needed r.path))
  | .modules => .ok (.modules (r.value? .maps))
  | .capture => do
    let outbox ← needed (r.value? .outbox)
    let dsn ← needed (r.value? .dsn)
    .ok (.capture outbox dsn ((r.value? .message).getD "test event"))
  | .version => .ok .version

def finish (r : Reading) : Except Stop Invocation :=
  if r.pending.isSome then .error .misuse
  else do
    .ok ⟨(r.value? .verbose).isSome, r.value? .format = some "json", ← r.task⟩

end Reading

/-- The word that asks for help on the commands named after it. -/
def helpWord : String := "help"

/-- Help on a command that is named by words. Where there are commands, the word for help is one
of them, and none are below it. -/
def helpOn (level : Level) : List String → Stop
  | [] => .help
  | name :: rest =>
    match level.commands.lookup name with
    | some below => helpOn below rest
    | none => if name = helpWord && !level.commands.isEmpty && rest.isEmpty then .help else .misuse

/-- Whether an argument asks for help on what follows. -/
def asksForHelp (r : Reading) (arg : String) : Bool :=
  arg = helpWord && !r.wordsOnly && r.pending.isNone && !r.level.commands.isEmpty

def readFrom (r : Reading) : List String → Except Stop Invocation
  | [] => r.finish
  | arg :: rest =>
    if asksForHelp r arg then .error (helpOn r.level rest)
    else
      match r.step arg with
      | .error e => .error e
      | .ok r => readFrom r rest

def read (args : List String) : Except Stop Invocation := readFrom {} args

end CrashCourier.Command
