import Switchboard.Yaml.Scalar

/-! The tokens of YAML text. Indentation and the colons of simple keys are made explicit here. -/
namespace Switchboard.Yaml

inductive Token
  | version (major minor : Nat)
  | tagPrefix (handle : List Char) (text : Bytes)
  | documentStart
  | documentEnd
  | blockSequence
  | blockMapping
  | blockEnd
  | flowSequence
  | flowSequenceEnd
  | flowMapping
  | flowMappingEnd
  | blockEntry
  | flowEntry
  | key
  | value
  | alias (name : List Char)
  | anchor (name : List Char)
  | tag (handle : List Char) (suffix : Bytes)
  | scalar (style : ScalarStyle) (text : List Char)
deriving DecidableEq

/-- A token that turns out to be a key when a colon follows: its number and its place. -/
structure SimpleKey where
  required : Bool
  number : Nat
  index : Nat
  line : Nat
  column : Nat

/-- Reading stands at `place`. Indentations are kept from the inside out, and so are the possible keys,
one for each level of flow collections and one outside. -/
structure Lexer where
  place : Cursor
  tokens : Array Token := #[]
  indents : List Nat := []
  flow : List (Option SimpleKey) := []
  outer : Option SimpleKey := none
  keyAllowed : Bool := true

namespace Lexer

/-- The column of the block that reading is in, `-1` outside all of them. -/
def indent (l : Lexer) : Int := (l.indents.head?.map Int.ofNat).getD (-1)

def inFlow (l : Lexer) : Bool := !l.flow.isEmpty

def push (l : Lexer) (t : Token) : Lexer := { l with tokens := l.tokens.push t }

def simpleKey (l : Lexer) : Option SimpleKey :=
  match l.flow with
  | k :: _ => k
  | [] => l.outer

def setKey (l : Lexer) (k : Option SimpleKey) : Lexer :=
  match l.flow with
  | _ :: ks => { l with flow := k :: ks }
  | [] => { l with outer := k }

/-- A key that was required must have been found by now. -/
def dropKey (l : Lexer) : Option Lexer :=
  if l.simpleKey.any (·.required) then none else some (l.setKey none)

/-- What stands here may be a key. -/
def saveKey (l : Lexer) : Option Lexer :=
  if l.keyAllowed then
    let required := !l.inFlow && l.indent == l.place.column
    l.dropKey.map (·.setKey (some ⟨required, l.tokens.size, l.place.index, l.place.line, l.place.column⟩))
  else some l

/-- A simple key stays on one line and is at most 1024 octets long. -/
def isStale (l : Lexer) (k : SimpleKey) : Bool :=
  k.line < l.place.line || k.index + 1024 < l.place.index

def refresh (l : Lexer) : Option Lexer :=
  if (l.outer :: l.flow).any fun k => k.any fun k => k.required && l.isStale k then none
  else
    let fresh := fun k : Option SimpleKey => k.filter fun k => !l.isStale k
    some { l with outer := fresh l.outer, flow := l.flow.map fresh }

/-- Opens a block at a column further in; its token goes before the token of the given number. -/
def openBlock (l : Lexer) (column number : Nat) (t : Token) : Lexer :=
  if l.inFlow || column ≤ l.indent then l
  else { l with indents := column :: l.indents, tokens := l.tokens.insertIdxIfInBounds number t }

def closeBlocks (l : Lexer) (column : Int) : Lexer :=
  if l.inFlow then l
  else
    let ended := l.indents.takeWhile fun i => decide (column < Int.ofNat i)
    { l with
      indents := l.indents.drop ended.length
      tokens := ended.foldl (fun ts _ => ts.push .blockEnd) l.tokens }

def advance (l : Lexer) (n : Nat) : Lexer :=
  { l with place := n.repeat Cursor.next l.place }

/-- Skips white space and comments, and a byte order mark that begins a line; a new line outside flow
collections may begin with a key. -/
def skipGap : Nat → Lexer → Lexer
  | 0, l => l
  | n + 1, l =>
    let c := if l.place.column == 0 && l.place.sees? '\ufeff' then l.place.next else l.place
    let c := c.skipWhile fun x => isSpace x || (isTab x && (l.inFlow || !l.keyAllowed))
    let c := c.skipComment
    if c.atBreak then
      skipGap n { l with place := c.skipBreak, keyAllowed := l.keyAllowed || !l.inFlow }
    else { l with place := c }

def mark (l : Lexer) (t : Token) (width : Nat) : Lexer := (l.push t).advance width

def number? (c : Cursor) : Option (Nat × Cursor) :=
  let (ds, c) := c.takeWhile Char.isDigit
  if ds.isEmpty || 9 < ds.length then none
  else some (ds.foldl (fun n d => n * 10 + (d.toNat - 48)) 0, c)

def uriMark (c : Char) : Bool :=
  [';', '/', '?', ':', '@', '&', '=', '+', '$', '.', '%', '!', '~', '*', '\'', '(', ')'].contains c

def uriChar (verbatim : Bool) (c : Char) : Bool :=
  isWordChar c || uriMark c || (verbatim && [',', '[', ']'].contains c)

/-- How many octets follow `n` in a character of which it is the first. -/
def following? (n : Nat) : Option Nat :=
  if n < 0x80 then some 0
  else if n < 0xC0 then none
  else if n < 0xE0 then some 1
  else if n < 0xF0 then some 2
  else if n < 0xF8 then some 3
  else none

/-- Octets behind percent signs, `due` of them to end a character that has begun. Only the marks of first and
following octets are looked at, not what character they make. -/
def octets? : Nat → List Char → Option Bytes
  | due, '%' :: h :: l :: r => do
    let h ← Bytes.hexValue? h
    let l ← Bytes.hexValue? l
    let n := h * 16 + l
    let due ← match due with
      | 0 => following? n
      | k + 1 => if 0x80 ≤ n && n < 0xC0 then some k else none
    (octets? due r).map (UInt8.ofNat n :: ·)
  | 0, c :: r => if c == '%' then none else (octets? 0 r).map (Bytes.ofString (String.singleton c) ++ ·)
  | 0, [] => some []
  | _ + 1, _ => none

/-- The octets of a tag, up to the first that is zero. -/
def uri? (verbatim : Bool) (c : Cursor) : Option (Bytes × Cursor) :=
  let (xs, c) := c.takeWhile (uriChar verbatim)
  (octets? 0 xs).map fun bs => (bs.takeWhile (· != 0), c)

/-- The same where something has to be written. -/
def someUri? (verbatim : Bool) (c : Cursor) : Option (Bytes × Cursor) :=
  if c.sees 0 (uriChar verbatim) then uri? verbatim c else none

/-- An exclamation mark, a name, and another exclamation mark where there is one. -/
def handle? (c : Cursor) : Option (List Char × Cursor) :=
  if !c.sees? '!' then none
  else
    let (xs, c) := c.next.takeWhile isWordChar
    if c.sees? '!' then some ('!' :: xs ++ ['!'], c.next) else some ('!' :: xs, c)

def isHandle (h : List Char) : Bool := h == ['!'] || (2 ≤ h.length && h.getLast? == some '!')

def directive (l : Lexer) : Option Lexer := do
  let (name, c) := l.place.next.takeWhile isWordChar
  if name.isEmpty || !c.endsWord 0 then none
  else
    let c := c.skipWhile isBlank
    let (t, c) ←
      if name == "YAML".toList then do
        let (major, c) ← number? c
        if !c.sees? '.' then none
        else
          let (minor, c) ← number? c.next
          some (Token.version major minor, c)
      else if name == "TAG".toList then do
        let (h, c) ← handle? c
        if !isHandle h || !c.atBlank then none
        else
          let (p, c) ← someUri? true (c.skipWhile isBlank)
          if c.endsWord 0 then some (Token.tagPrefix h p, c) else none
      else none
    let c ← c.endLine?
    pure { l.push t with place := c }

def anchorName (c : Cursor) : Option (List Char × Cursor) :=
  let (name, c) := c.next.takeWhile isWordChar
  let ends := c.endsWord 0 || c.sees 0 fun x => ['?', ':', ',', ']', '}', '%', '@', '`'].contains x
  if name.isEmpty || !ends then none else some (name, c)

/-- The tag of nothing but its mark. -/
def bareTag : Bytes := Bytes.ofString "!"

/-- Handle and suffix of a tag; a tag in angle brackets has no handle. -/
def tagText (c : Cursor) : Option (List Char × Bytes × Cursor) :=
  if c.sees 1 (· == '<') then do
    let (s, c) ← someUri? true c.next.next
    if c.sees? '>' then some ([], s, c.next) else none
  else do
    let (h, after) ← handle? c
    if 2 ≤ h.length && h.getLast? == some '!' then
      let (s, c) ← someUri? false after
      some (h, s, c)
    else
      let (s, c) ← uri? false c.next
      if s.isEmpty then some ([], bareTag, c) else some (['!'], s, c)

def tag (l : Lexer) : Option Lexer := do
  let (h, s, c) ← tagText l.place
  if (l.inFlow && c.sees? ',') || c.endsWord 0 then pure { l.push (.tag h s) with place := c } else none

/-- A colon: either a key has just been read, or an empty one is meant. -/
def valueMark (l : Lexer) : Option Lexer :=
  match l.simpleKey with
  | some k =>
    let l := { l with tokens := l.tokens.insertIdxIfInBounds k.number .key }
    let l := (l.openBlock k.column k.number .blockMapping).setKey none
    some ({ l with keyAllowed := false }.mark .value 1)
  | none =>
    if l.inFlow then some ({ l with keyAllowed := false }.mark .value 1)
    else if !l.keyAllowed then none
    else some ((l.openBlock l.place.column l.tokens.size .blockMapping).mark .value 1)

/-- A dash or a question mark that opens an entry of a block. -/
def entryMark (l : Lexer) (block entry : Token) : Option Lexer :=
  if l.inFlow then l.dropKey.map fun l => { l with keyAllowed := entry == Token.blockEntry }.mark entry 1
  else if !l.keyAllowed then none
  else (l.openBlock l.place.column l.tokens.size block).dropKey.map fun l =>
    { l with keyAllowed := true }.mark entry 1

def openFlow (l : Lexer) (t : Token) : Option Lexer :=
  l.saveKey.map fun l => { l with flow := none :: l.flow, keyAllowed := true }.mark t 1

def closeFlow (l : Lexer) (t : Token) : Option Lexer :=
  l.dropKey.map fun l => { l with flow := l.flow.tail, keyAllowed := false }.mark t 1

def documentMark (l : Lexer) (t : Token) : Option Lexer :=
  (l.closeBlocks (-1)).dropKey.map fun l => { l with keyAllowed := false }.mark t 3

def quotedScalar (l : Lexer) (single : Bool) : Option Lexer := do
  let l ← l.saveKey
  let (text, c) ← Scalar.quoted single l.place
  pure { l.push (.scalar .quoted text) with place := c, keyAllowed := false }

def blockScalar (l : Lexer) (folded : Bool) : Option Lexer := do
  let l ← l.dropKey
  let (text, c) ← Scalar.block folded l.indent l.place
  pure { l.push (.scalar (if folded then .folded else .literal) text) with place := c, keyAllowed := true }

def plainScalar (l : Lexer) : Option Lexer := do
  let l ← l.saveKey
  let (text, broken, c) ← Scalar.plain l.inFlow (l.indent + 1).toNat l.place
  pure { l.push (.scalar .plain text) with place := c, keyAllowed := broken }

def indicators : List Char :=
  ['-', '?', ':', ',', '[', ']', '{', '}', '#', '&', '*', '!', '|', '>', '\'', '"', '%', '@', '`']

def startsPlain (l : Lexer) (x : Char) : Bool :=
  !(isBlank x || indicators.contains x) || (x == '-' && !l.place.sees 1 isBlank) ||
    (!l.inFlow && (x == '?' || x == ':') && !l.place.endsWord 1)

/-- One more token. -/
def token (l : Lexer) (x : Char) : Option Lexer :=
  let c := l.place
  if c.column == 0 && x == '%' then do
    let l ← (l.closeBlocks (-1)).dropKey
    directive { l with keyAllowed := false }
  else if c.atBoundary '-' then l.documentMark .documentStart
  else if c.atBoundary '.' then l.documentMark .documentEnd
  else if x == '[' then l.openFlow .flowSequence
  else if x == '{' then l.openFlow .flowMapping
  else if x == ']' then l.closeFlow .flowSequenceEnd
  else if x == '}' then l.closeFlow .flowMappingEnd
  else if x == ',' then l.dropKey.map fun l => { l with keyAllowed := true }.mark .flowEntry 1
  else if x == '-' && c.endsWord 1 then l.entryMark .blockSequence .blockEntry
  else if x == '?' && (l.inFlow || c.endsWord 1) then l.entryMark .blockMapping .key
  else if x == ':' && (l.inFlow || c.endsWord 1) then l.valueMark
  else if x == '*' || x == '&' then do
    let l ← l.saveKey
    let (name, c) ← anchorName l.place
    pure { l.push (if x == '*' then .alias name else .anchor name) with place := c, keyAllowed := false }
  else if x == '!' then do
    let l ← l.saveKey
    tag { l with keyAllowed := false }
  else if x == '|' && !l.inFlow then l.blockScalar false
  else if x == '>' && !l.inFlow then l.blockScalar true
  else if x == '\'' then l.quotedScalar true
  else if x == '"' then l.quotedScalar false
  else if l.startsPlain x then l.plainScalar
  else none

def run : Nat → Lexer → Option (List Token)
  | 0, _ => none
  | n + 1, l => do
    let l ← (l.skipGap (l.place.rest.length + 1)).refresh
    match l.place.char? 0 with
    | none => ((l.closeBlocks (-1)).dropKey).map (·.tokens.toList)
    | some x => do
      let l ← token (l.closeBlocks l.place.column) x
      run n l

end Lexer

def Token.ofText? (text : String) : Option (List Token) :=
  let cs := text.toList
  if cs.all isAllowed then Lexer.run (cs.length + 2) { place := { rest := cs } } else none

end Switchboard.Yaml
