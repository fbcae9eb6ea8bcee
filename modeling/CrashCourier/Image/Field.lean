import CrashCourier.Value

namespace CrashCourier.Image

inductive Field where
  | address | size | codeFile | type | debugId | codeId | debugFile
deriving DecidableEq, Repr

namespace Field

def all : List Field := [address, size, codeFile, type, debugId, codeId, debugFile]

def key : Field → String
  | address => "image_addr"
  | size => "image_size"
  | codeFile => "code_file"
  | type => "type"
  | debugId => "debug_id"
  | codeId => "code_id"
  | debugFile => "debug_file"

def setter : Field → String
  | address => "setImageAddr"
  | size => "setImageSize"
  | codeFile => "setCodeFile"
  | type => "setType"
  | debugId => "setDebugId"
  | codeId => "setCodeId"
  | debugFile => "setDebugFile"

def ofSetter? (method : String) : Option Field := all.find? fun f => f.setter = method

theorem ofSetter?_setter (f : Field) : ofSetter? f.setter = some f := by
  cases f <;> decide

end Field

def className : String := "io/sentry/protocol/DebugImage"

structure ImageRecord where
  address : Option String := none
  size : Option Int64 := none
  codeFile : Option String := none
  type : Option String := none
  debugId : Option String := none
  codeId : Option String := none
  debugFile : Option String := none
deriving DecidableEq, Repr

namespace ImageRecord

/-- Sets a field that holds a text; none for the size. -/
def setText? (r : ImageRecord) (f : Field) (text : Option String) : Option ImageRecord :=
  match f with
  | .address => some { r with address := text }
  | .size => none
  | .codeFile => some { r with codeFile := text }
  | .type => some { r with type := text }
  | .debugId => some { r with debugId := text }
  | .codeId => some { r with codeId := text }
  | .debugFile => some { r with debugFile := text }

end ImageRecord

end CrashCourier.Image
