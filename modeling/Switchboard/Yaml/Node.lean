import Switchboard.Yaml.Token

/-! The one document that a YAML text may hold, as a tree. -/
namespace Switchboard.Yaml

/-- Tags are resolved, anchors are numbered. -/
inductive Node
  | scalar (tag : Option Bytes) (style : ScalarStyle) (text : List Char)
  | sequence (items : List Node)
  | mapping (entries : List (Node × Node))
  | alias (number : Nat)

namespace Node
open Lexer (bareTag)

def empty : Node := scalar none .plain []

/-- What an anchor marks. Of a collection no more is kept than that it is one. -/
inductive Target
  | scalar (tag : Option Bytes) (style : ScalarStyle) (text : List Char)
  | collection

/-- What names stand for while nodes are read: tag prefixes by handle, numbers by anchor. `targets` tells
what each number marks, the last mark first. -/
structure Names where
  prefixes : List (List Char × Bytes)
  numbers : List (List Char × Nat) := []
  targets : List (Nat × Target) := []

def standardPrefixes : List (List Char × Bytes) :=
  [(['!'], bareTag), (['!', '!'], Bytes.ofString "tag:yaml.org,2002:")]

/-- Marks a node. The number is how many names were known before, so a name that is used again shares its
new number with the next new name, and both then stand for the node that was marked last. -/
def bind (names : Names) (anchor : Option (List Char)) (t : Target) : Names :=
  match anchor with
  | some a =>
    let number := names.numbers.length
    { names with
      numbers := (a, number) :: names.numbers.filter (·.1 != a)
      targets := (number, t) :: names.targets }
  | none => names

/-- What was read, and what is left. -/
abbrev Parsed (α : Type) := α × Names × List Token

def Parsed.map {α β : Type} (f : α → β) (p : Parsed α) : Parsed β := (f p.1, p.2)

def blank (names : Names) (anchor : Option (List Char)) (tag : Option Bytes) (ts : List Token) :
    Option (Parsed Node) :=
  if anchor.isSome || tag.isSome then
    some (scalar tag .plain [], bind names anchor (.scalar tag .plain []), ts)
  else none

/-- Anchor and tag of a node, each at most once and in either order. -/
def properties (names : Names) (ts : List Token) : Option (Option (List Char) × Option Bytes × List Token) :=
  let resolve := fun (h : List Char) (s : Bytes) =>
    if h.isEmpty then some s else (names.prefixes.lookup h).map (· ++ s)
  match ts with
  | .anchor a :: .tag h s :: ts => (resolve h s).map fun t => (some a, some t, ts)
  | .tag h s :: .anchor a :: ts => (resolve h s).map fun t => (some a, some t, ts)
  | .anchor a :: ts => some (some a, none, ts)
  | .tag h s :: ts => (resolve h s).map fun t => (none, some t, ts)
  | ts => some (none, none, ts)

def endsEntry : Token → Bool
  | .blockEntry => true
  | .blockEnd => true
  | _ => false

def endsPair : Token → Bool
  | .key => true
  | .value => true
  | .blockEnd => true
  | _ => false

def endsItem : Token → Bool
  | .value => true
  | .flowEntry => true
  | .flowSequenceEnd => true
  | _ => false

def endsMember : Token → Bool
  | .value => true
  | .flowEntry => true
  | .flowMappingEnd => true
  | _ => false

mutual

/-- A node where blocks may begin or not, and where entries may stand without indentation or not. -/
def read (block indentless : Bool) : Nat → Names → List Token → Option (Parsed Node)
  | 0, _, _ => none
  | n + 1, names, ts =>
    match ts with
    | .alias a :: ts => (names.numbers.lookup a).map fun number => (.alias number, names, ts)
    | ts => do
      let (anchor, tag, ts) ← properties names ts
      match ts with
      | .scalar style text :: ts =>
        some (scalar tag style text, bind names anchor (.scalar tag style text), ts)
      | .flowSequence :: ts =>
        (flowItems true n (bind names anchor .collection) ts).map (.map sequence)
      | .flowMapping :: ts =>
        (flowMembers true n (bind names anchor .collection) ts).map (.map mapping)
      | .blockEntry :: _ =>
        if indentless then (entries true n (bind names anchor .collection) ts).map (.map sequence)
        else blank names anchor tag ts
      | .blockSequence :: ts' =>
        if block then (entries false n (bind names anchor .collection) ts').map (.map sequence)
        else blank names anchor tag ts
      | .blockMapping :: ts' =>
        if block then (pairs n (bind names anchor .collection) ts').map (.map mapping)
        else blank names anchor tag ts
      | ts =>
        blank names anchor tag ts

/-- A node, or an empty one in front of a token that ends it. -/
def readOr (ends : Token → Bool) (block indentless : Bool) : Nat → Names → List Token → Option (Parsed Node)
  | 0, _, _ => none
  | n + 1, names, ts =>
    if ts.head?.all ends then some (empty, names, ts) else read block indentless n names ts

/-- Entries behind dashes; without indentation they end at the first token that is no dash. -/
def entries (indentless : Bool) : Nat → Names → List Token → Option (Parsed (List Node))
  | 0, _, _ => none
  | n + 1, names, ts =>
    match ts with
    | .blockEntry :: ts => do
      let ends := fun t => endsEntry t || (indentless && endsPair t)
      let (x, names, ts) ← readOr ends true false n names ts
      (entries indentless n names ts).map (.map (x :: ·))
    | .blockEnd :: ts' => if indentless then some ([], names, ts) else some ([], names, ts')
    | ts => if indentless then some ([], names, ts) else none

def pairs : Nat → Names → List Token → Option (Parsed (List (Node × Node)))
  | 0, _, _ => none
  | n + 1, names, ts =>
    match ts with
    | .key :: ts => do
      let (k, names, ts) ← readOr endsPair true true n names ts
      let (v, names, ts) ← blockValue n names ts
      (pairs n names ts).map (.map ((k, v) :: ·))
    | .blockEnd :: ts => some ([], names, ts)
    | _ => none

def blockValue : Nat → Names → List Token → Option (Parsed Node)
  | 0, _, _ => none
  | n + 1, names, ts =>
    match ts with
    | .value :: ts => readOr endsPair true true n names ts
    | ts => some (empty, names, ts)

/-- Items of a sequence in brackets; a key in one makes it a mapping of a single pair. -/
def flowItems (first : Bool) : Nat → Names → List Token → Option (Parsed (List Node))
  | 0, _, _ => none
  | n + 1, names, ts =>
    match ts with
    | .flowSequenceEnd :: ts => some ([], names, ts)
    | ts =>
      let ts? := if first then some ts else
        match ts with
        | .flowEntry :: ts => some ts
        | _ => none
      match ts? with
      | none => none
      | some (.flowSequenceEnd :: ts) => some ([], names, ts)
      | some (.key :: ts) => do
        let (k, names, ts) ←
          if ts.head?.all endsItem then some (empty, names, ts.tail) else read false false n names ts
        let (v, names, ts) ← flowValue endsItem n names ts
        (flowItems false n names ts).map (.map (mapping [(k, v)] :: ·))
      | some ts => do
        let (x, names, ts) ← read false false n names ts
        (flowItems false n names ts).map (.map (x :: ·))

def flowMembers (first : Bool) : Nat → Names → List Token → Option (Parsed (List (Node × Node)))
  | 0, _, _ => none
  | n + 1, names, ts =>
    match ts with
    | .flowMappingEnd :: ts => some ([], names, ts)
    | ts =>
      let ts? := if first then some ts else
        match ts with
        | .flowEntry :: ts => some ts
        | _ => none
      match ts? with
      | none => none
      | some (.flowMappingEnd :: ts) => some ([], names, ts)
      | some (.key :: ts) => do
        let (k, names, ts) ← readOr endsMember false false n names ts
        let (v, names, ts) ← flowValue endsMember n names ts
        (flowMembers false n names ts).map (.map ((k, v) :: ·))
      | some ts => do
        let (k, names, ts) ← read false false n names ts
        (flowMembers false n names ts).map (.map ((k, empty) :: ·))

def flowValue (ends : Token → Bool) : Nat → Names → List Token → Option (Parsed Node)
  | 0, _, _ => none
  | n + 1, names, ts =>
    match ts with
    | .value :: ts => readOr (fun t => ends t && t != .value) false false n names ts
    | ts => some (empty, names, ts)

end

/-- Directives in front of a document: at most one version, and no handle twice. -/
def directives (version : Bool) (prefixes : List (List Char × Bytes)) :
    List Token → Option (List (List Char × Bytes) × List Token)
  | .version major minor :: ts =>
    if version || major != 1 || (minor != 1 && minor != 2) then none else directives true prefixes ts
  | .tagPrefix h p :: ts =>
    if (prefixes.lookup h).isSome then none else directives version ((h, p) :: prefixes) ts
  | ts => some (prefixes, ts)

def isDirective : Token → Bool
  | .version _ _ => true
  | .tagPrefix _ _ => true
  | _ => false

def endsDocument : Token → Bool
  | .documentStart => true
  | .documentEnd => true
  | t => isDirective t

end Node

structure Document where
  root : Node
  targets : List (Nat × Node.Target)

namespace Document
open Node

/-- What a node is when aliases are followed: the mark that stands when all is read counts, wherever the
alias stands. -/
def follow (d : Document) : Node → Target
  | .scalar tag style text => .scalar tag style text
  | .alias number => (d.targets.lookup number).getD .collection
  | _ => .collection

/-- The document of a text, if there is one; a text of several documents is refused. -/
def ofTokens? (ts : List Token) : Option (Option Document) :=
  let finish := fun (p : Option (Parsed Node)) => p.bind fun (node, names, ts) =>
    if (ts.dropWhile (· == .documentEnd)).isEmpty then some (some ⟨node, names.targets⟩) else none
  let fuel := 4 * ts.length + 4
  match ts with
  | [] => some none
  | t :: _ =>
    if isDirective t || t == .documentStart then
      match directives false [] ts with
      | some (prefixes, .documentStart :: ts) =>
        let names : Names := { prefixes := prefixes ++ standardPrefixes }
        finish (readOr endsDocument true false fuel names ts)
      | _ => none
    else finish (read true false fuel { prefixes := standardPrefixes } ts)

def ofText? (text : String) : Option (Option Document) := (Token.ofText? text).bind ofTokens?

end Document
end Switchboard.Yaml
