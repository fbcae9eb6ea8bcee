import CrashCourier.Bytes
import CrashCourier.Text.Shown

namespace CrashCourier.Text

/-- The escape of a character with a letter of its own. -/
def letterEscape? (c : Char) : Option Char :=
  match c with
  | '\x00' => some '0'
  | '\t' => some 't'
  | '\n' => some 'n'
  | '\r' => some 'r'
  | '"' => some '"'
  | '\\' => some '\\'
  | _ => none

/-- The escape of any character, by its number. -/
def numberEscape (c : Char) : List Char :=
  ['\\', 'u', '\x7b'] ++ (Bytes.hexOfNat c.toNat).toList ++ ['\x7d']

def quoteChar (c : Char) : List Char :=
  match letterEscape? c with
  | some letter => ['\\', letter]
  | none => if isShown c then [c] else numberEscape c

def quoted (s : String) : String :=
  String.ofList ('"' :: s.toList.flatMap quoteChar ++ ['"'])

def quotedOption : Option String → String
  | some s => "Some(" ++ quoted s ++ ")"
  | none => "None"

end CrashCourier.Text
