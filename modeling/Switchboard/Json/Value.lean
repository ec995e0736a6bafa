import Switchboard.Dict
import Switchboard.Json.Number

/-! Values read from JSON text without a schema, and their canonical text. -/
namespace Switchboard.Json

inductive Value
  | null
  | bool (b : Bool)
  | number (n : Number)
  | string (s : String)
  | array (items : List Value)
  | object (members : List (String × Value))

instance : Inhabited Value := ⟨.null⟩

/-- How deep containers may nest in text that is read into a typed value. -/
def maxDepth : Nat := 127

namespace Value

/-- Keys in order, a later member replacing an earlier one of the same key. -/
def ofMembers (members : List (String × Value)) : Value := object (Dict.ofList members).entries

def ofText? : Nat → Bytes → Option Value
  | depth, raw =>
    match raw with
    | Ascii.quote :: _ => (string? raw).map string
    | Ascii.openBracket :: _ =>
      match depth with
      | 0 => none
      | d + 1 => ((items? raw).bind (·.mapM (ofText? d))).map array
    | Ascii.openBrace :: _ =>
      match depth with
      | 0 => none
      | d + 1 => ((members? raw).bind (·.mapM fun (k, v) => do
          let k ← string? k
          let v ← ofText? d v
          pure (k, v))).map ofMembers
    | _ =>
      if raw == Bytes.ofString "null" then some null
      else if raw == Bytes.ofString "true" then some (bool true)
      else if raw == Bytes.ofString "false" then some (bool false)
      else (Number.ofText? raw).map number

def parse? (text : Bytes) : Option Value := (document? text).bind (ofText? maxDepth)

/-- Compact text, members in the order they are held. -/
def text : Value → String
  | null => "null"
  | bool b => toString b
  | number n => n.text
  | string s => quote s
  | array xs => "[" ++ ",".intercalate (items xs) ++ "]"
  | object ms => "\x7b" ++ ",".intercalate (pairs ms) ++ "\x7d"
where
  items : List Value → List String
    | [] => []
    | x :: xs => x.text :: items xs
  pairs : List (String × Value) → List String
    | [] => []
    | (k, v) :: ms => (quote k ++ ":" ++ v.text) :: pairs ms

def get? (v : Value) (key : String) : Option Value :=
  match v with
  | object ms => ms.lookup key
  | _ => none

def nat (n : Nat) : Value := number (.nat (UInt64.ofNat n))

end Value
end Switchboard.Json
