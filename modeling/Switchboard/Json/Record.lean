import Switchboard.Json.Value

/-! Reading JSON text into records: fields by name from an object or by position from an array. -/
namespace Switchboard.Json

/-- Reads the text of one value, given how many more containers may be opened. -/
abbrev Reader (α : Type) := Nat → Bytes → Option α

/-- What a record's text gives for each of its fields. -/
structure Fields where
  positional : Bool
  values : List (Option Bytes)

namespace Fields

/-- Members of unknown names are passed over; a known name may occur once. -/
def collect (names : List String) : List (Bytes × Bytes) → Option (List (String × Bytes))
  | [] => some []
  | (k, v) :: ms => do
    let k ← string? k
    let fs ← collect names ms
    if !names.contains k then pure fs
    else if (fs.lookup k).isSome then none
    else pure ((k, v) :: fs)

def read? (names : List String) : Reader Fields
  | 0, _ => none
  | _ + 1, raw =>
    match raw with
    | Ascii.openBracket :: _ => do
      let xs ← items? raw
      if names.length < xs.length then none
      else pure ⟨true, xs.map some⟩
    | _ => do
      let fs ← (members? raw).bind (collect names)
      pure ⟨false, names.map fun n => fs.lookup n⟩

def get? (fs : Fields) (i : Nat) : Option Bytes := (fs.values[i]?).join

variable {α : Type}

def required (fs : Fields) (i : Nat) (read : Bytes → Option α) : Option α := (fs.get? i).bind read

def withDefault (fs : Fields) (i : Nat) (d : α) (read : Bytes → Option α) : Option α :=
  match fs.get? i with
  | some raw => read raw
  | none => some d

/-- A field that an object may leave out and an array may not. -/
def nullable (fs : Fields) (i : Nat) (read : Bytes → Option α) : Option (Option α) :=
  match fs.get? i with
  | some raw => if isNull raw then some none else (read raw).map some
  | none => if fs.positional then none else some none

end Fields

variable {α : Type}

def list (item : Reader α) : Reader (List α)
  | 0, _ => none
  | d + 1, raw => (items? raw).bind (·.mapM (item d))

def orNull (read : Reader α) : Reader (Option α) := fun d raw =>
  if isNull raw then some none else (read d raw).map some

def textMap : Reader (Dict String)
  | 0, _ => none
  | _ + 1, raw => do
    let ms ← members? raw
    let ms ← ms.mapM fun (k, v) => do
      let k ← string? k
      let v ← string? v
      pure (k, v)
    pure (Dict.ofList ms)

/-- The word of an enumeration, as a string or as the one key of an object that holds null. -/
def word : Reader String := fun d raw =>
  match raw with
  | Ascii.quote :: _ => string? raw
  | _ =>
    match d with
    | 0 => none
    | _ + 1 =>
      match members? raw with
      | some [(k, v)] => if isNull v then string? k else none
      | _ => none

/-- One record from a whole text. -/
def parseAs? (read : Reader α) (text : Bytes) : Option α := (document? text).bind (read maxDepth)

def ofTextMap (d : Dict String) : Value := .object (d.entries.map fun (k, v) => (k, .string v))

end Switchboard.Json
