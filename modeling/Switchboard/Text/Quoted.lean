import Switchboard.Bytes
import Switchboard.Text.Visible

/-! Text in double quotes for people to read: what does not show is written as an escape. -/
namespace Switchboard.Text

def hex (n : Nat) : List Char := Nat.toDigits 16 n

def shown (c : Char) : List Char :=
  if c = '"' then ['\\', '"']
  else if c = '\\' then ['\\', '\\']
  else if c = '\n' then ['\\', 'n']
  else if c = '\r' then ['\\', 'r']
  else if c = '\t' then ['\\', 't']
  else if c.toNat = 0 then ['\\', '0']
  else if isVisible c then [c]
  else ['\\', 'u', '\x7b'] ++ hex c.toNat ++ ['\x7d']

def quoted (s : String) : String := String.ofList ('"' :: s.toList.flatMap shown ++ ['"'])

/-- `name \x7b key: value, … \x7d`. -/
def structText (name : String) (fields : List (String × String)) : String :=
  name ++ " \x7b " ++ ", ".intercalate (fields.map fun (k, v) => k ++ ": " ++ v) ++ " \x7d"

def listText (xs : List String) : String := "[" ++ ", ".intercalate xs ++ "]"

def mapText (xs : List (String × String)) : String :=
  "\x7b" ++ ", ".intercalate (xs.map fun (k, v) => k ++ ": " ++ v) ++ "\x7d"

def optionText : Option String → String
  | some s => "Some(" ++ s ++ ")"
  | none => "None"

end Switchboard.Text
