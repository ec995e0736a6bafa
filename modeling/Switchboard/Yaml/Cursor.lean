/-! A place in YAML text, and the characters that separate things there. -/
namespace Switchboard.Yaml

/-- The text ahead, and where it begins: `index` octets from the start of all text, `column` characters from
the start of its line. -/
structure Cursor where
  rest : List Char
  index : Nat := 0
  line : Nat := 0
  column : Nat := 0

def isSpace (c : Char) : Bool := c == ' '

def isTab (c : Char) : Bool := c == '\t'

def isBlank (c : Char) : Bool := isSpace c || isTab c

def isBreak (c : Char) : Bool :=
  c == '\n' || c == '\r' || c == '\u0085' || c == '\u2028' || c == '\u2029'

/-- Characters of names: of anchors, directives and tag handles. -/
def isWordChar (c : Char) : Bool := c.isAlphanum || c == '_' || c == '-'

/-- Characters that text may hold at all. -/
def isAllowed (c : Char) : Bool :=
  let n := c.toNat
  n == 9 || n == 10 || n == 13 || (0x20 ≤ n && n ≤ 0x7E) || n == 0x85 || (0xA0 ≤ n && n ≤ 0xFFFD) || 0x10000 ≤ n

namespace Cursor

def char? (c : Cursor) (ahead : Nat) : Option Char := c.rest[ahead]?

def sees (c : Cursor) (ahead : Nat) (p : Char → Bool) : Bool := (c.char? ahead).any p

def sees? (c : Cursor) (x : Char) : Bool := c.sees 0 (· == x)

def atEnd (c : Cursor) : Bool := c.rest.isEmpty

def atBreak (c : Cursor) : Bool := c.sees 0 isBreak

def atBlank (c : Cursor) : Bool := c.sees 0 isBlank

/-- A blank, a line break or the end of the text. -/
def endsWord (c : Cursor) (ahead : Nat) : Bool := (c.char? ahead).all fun x => isBlank x || isBreak x

def endsLine (c : Cursor) : Bool := (c.char? 0).all isBreak

def next (c : Cursor) : Cursor :=
  match c.rest with
  | x :: r => { c with rest := r, index := c.index + x.utf8Size, column := c.column + 1 }
  | [] => c

/-- Past a line break, and how the break is written in the value of a scalar. -/
def readBreak (c : Cursor) : List Char × Cursor :=
  match c.rest with
  | '\r' :: '\n' :: r => (['\n'], ⟨r, c.index + 2, c.line + 1, 0⟩)
  | x :: r =>
    if isBreak x then
      ([if x == '\u2028' || x == '\u2029' then x else '\n'], ⟨r, c.index + x.utf8Size, c.line + 1, 0⟩)
    else ([], c)
  | [] => ([], c)

def skipBreak (c : Cursor) : Cursor := c.readBreak.2

/-- The characters of one line that satisfy `p`, and the place after them. -/
def takeWhile (c : Cursor) (p : Char → Bool) : List Char × Cursor :=
  let xs := c.rest.takeWhile p
  (xs, { c with
    rest := c.rest.drop xs.length
    index := xs.foldl (fun n x => n + x.utf8Size) c.index
    column := c.column + xs.length })

def skipWhile (c : Cursor) (p : Char → Bool) : Cursor := (c.takeWhile p).2

/-- A comment reaches to the end of its line. -/
def skipComment (c : Cursor) : Cursor := if c.sees? '#' then c.skipWhile (!isBreak ·) else c

/-- Blanks and a comment before the end of a line, and the line break. -/
def endLine? (c : Cursor) : Option Cursor :=
  let c := (c.skipWhile isBlank).skipComment
  if c.endsLine then some c.skipBreak else none

/-- Three dashes or dots at the start of a line bound a document. -/
def atBoundary (c : Cursor) (mark : Char) : Bool :=
  c.column == 0 && c.rest.take 3 == [mark, mark, mark] && c.endsWord 3

def atDocumentEdge (c : Cursor) : Bool := c.atBoundary '-' || c.atBoundary '.'

end Cursor
end Switchboard.Yaml
