import Switchboard.Bytes
import Switchboard.Yaml.Cursor

/-! Scalars in YAML text: plain, in quotes, or as a block of lines. -/
namespace Switchboard.Yaml

inductive ScalarStyle
  | plain
  | quoted
  | literal
  | folded
deriving DecidableEq

/-- White space that was passed and counts once more text follows: blanks of a line, or a line break with
empty lines after it. -/
structure Gap where
  blanks : List Char := []
  broken : Bool := false
  first : List Char := []
  more : List Char := []

namespace Gap

/-- A single line break becomes a space. -/
def text (g : Gap) : List Char :=
  if !g.broken then g.blanks
  else if g.first == ['\n'] then (if g.more.isEmpty then [' '] else g.more)
  else g.first ++ g.more

def blank (g : Gap) (x : Char) : Gap := if g.broken then g else { g with blanks := g.blanks ++ [x] }

def lineBreak (g : Gap) (b : List Char) : Gap :=
  if g.broken then { g with more := g.more ++ b } else { g with broken := true, blanks := [], first := b }

/-- Reads blanks and line breaks; `none` when `bad` holds at a blank. -/
def read (bad : Gap → Cursor → Bool) : Nat → Gap → Cursor → Option (Gap × Cursor)
  | 0, g, c => some (g, c)
  | n + 1, g, c =>
    match c.char? 0 with
    | some x =>
      if isBlank x then (if bad g c then none else read bad n (g.blank x) c.next)
      else if isBreak x then
        let (b, c) := c.readBreak
        read bad n (g.lineBreak b) c
      else some (g, c)
    | none => some (g, c)

end Gap

namespace Scalar

/-- Where a plain scalar ends within a line. -/
def endsPlain (flow : Bool) (c : Cursor) : Bool :=
  (c.sees? ':' && c.endsWord 1) || (flow && c.sees 0 fun x => [',', '[', ']', '{', '}'].contains x)

/-- A colon right before a flow indicator. -/
def badColon (flow : Bool) (c : Cursor) : Bool :=
  flow && c.sees? ':' && c.sees 1 fun x => [',', '?', '[', ']', '{', '}'].contains x

/-- The characters of a plain scalar up to white space or its end. -/
def plainWord (flow : Bool) : Nat → Cursor → Option (List Char × Cursor)
  | 0, c => some ([], c)
  | n + 1, c =>
    match c.char? 0 with
    | none => some ([], c)
    | some x =>
      if isBlank x || isBreak x then some ([], c)
      else if badColon flow c then none
      else if endsPlain flow c then some ([], c)
      else (plainWord flow n c.next).map fun (xs, c) => (x :: xs, c)

/-- The rest of a plain scalar whose lines have to be indented by `indent`, after a gap. Also says whether
a line break came last. -/
def plainFrom (flow : Bool) (indent : Nat) : Nat → Gap → Cursor → Option (List Char × Bool × Cursor)
  | 0, g, c => some ([], g.broken, c)
  | n + 1, g, c =>
    if c.atDocumentEdge || c.sees? '#' then some ([], g.broken, c)
    else do
      let (xs, c) ← plainWord flow (c.rest.length + 1) c
      let (text, g) := if xs.isEmpty then ([], g) else (g.text ++ xs, {})
      if !(c.atBlank || c.atBreak) then pure (text, g.broken, c)
      else
        let tabbed := fun (g : Gap) (c : Cursor) => g.broken && c.column < indent && c.sees 0 isTab
        let (g, c) ← Gap.read tabbed (c.rest.length + 1) g c
        if !flow && c.column < indent then pure (text, g.broken, c)
        else
          let (more, broken, c) ← plainFrom flow indent n g c
          pure (text ++ more, broken, c)

def plain (flow : Bool) (indent : Nat) (c : Cursor) : Option (List Char × Bool × Cursor) :=
  plainFrom flow indent (c.rest.length + 1) {} c

def escapes : List (Char × Char) :=
  [('0', '\x00'), ('a', '\x07'), ('b', '\x08'), ('t', '\t'), ('\t', '\t'), ('n', '\n'), ('v', '\x0b'),
    ('f', '\x0c'), ('r', '\r'), ('e', '\x1b'), (' ', ' '), ('"', '"'), ('/', '/'), ('\\', '\\'),
    ('N', '\u0085'), ('_', '\u00a0'), ('L', '\u2028'), ('P', '\u2029')]

def hexWidth? (x : Char) : Option Nat :=
  if x == 'x' then some 2 else if x == 'u' then some 4 else if x == 'U' then some 8 else none

def hexChar? (digits : List Char) : Option Char := do
  let n ← digits.foldlM (fun n d => (Bytes.hexValue? d).map (n * 16 + ·)) 0
  if (0xD800 ≤ n && n ≤ 0xDFFF) || 0x10FFFF < n then none else some (Char.ofNat n)

/-- The character that an escape stands for, the place being its backslash. -/
def escape? (c : Cursor) : Option (Char × Cursor) := do
  let x ← c.char? 1
  let c := c.next.next
  match hexWidth? x with
  | some w =>
    let digits := c.rest.take w
    if digits.length < w then none
    else
      let y ← hexChar? digits
      pure (y, { c with rest := c.rest.drop w, index := c.index + w, column := c.column + w })
  | none => (escapes.lookup x).map fun y => (y, c)

/-- Text in quotes up to the closing one, after a gap. -/
def quotedFrom (single : Bool) : Nat → Gap → Cursor → Option (List Char × Cursor)
  | 0, _, _ => none
  | n + 1, g, c =>
    match c.char? 0 with
    | none => none
    | some x =>
      if c.atDocumentEdge then none
      else if isBlank x || isBreak x then do
        let (g, c) ← Gap.read (fun _ _ => false) (c.rest.length + 1) g c
        quotedFrom single n g c
      else
        let put := fun (y : Char) (c : Cursor) =>
          (quotedFrom single n {} c).map fun (ys, c) => (g.text ++ y :: ys, c)
        if single then
          if x == '\'' then
            if c.sees 1 (· == '\'') then put '\'' c.next.next else some (g.text, c.next)
          else put x c.next
        else if x == '"' then some (g.text, c.next)
        else if x == '\\' then
          if c.sees 1 isBreak then
            (quotedFrom single n { broken := true } c.next.skipBreak).map fun (ys, c) => (g.text ++ ys, c)
          else do
            let (y, c) ← escape? c
            put y c
        else put x c.next

def quoted (single : Bool) (c : Cursor) : Option (List Char × Cursor) :=
  quotedFrom single (2 * c.rest.length + 2) {} c.next

/-- What the head of a block says of the line breaks at its end. -/
inductive Chomping
  | strip
  | clip
  | keep
deriving DecidableEq

def chomping? (c : Cursor) : Option Chomping :=
  if c.sees? '+' then some .keep else if c.sees? '-' then some .strip else none

def increment? (c : Cursor) : Option Nat :=
  match c.char? 0 with
  | some x => if x.isDigit then some (x.toNat - 48) else none
  | none => none

/-- The signs behind the mark of a block: how it ends and how far it is indented, in either order. -/
def blockHead (c : Cursor) : Option (Chomping × Option Nat × Cursor) :=
  let checked := fun (ch : Chomping) (i : Option Nat) (c : Cursor) =>
    if i == some 0 then none else some (ch, i, c)
  match chomping? c with
  | some ch =>
    match increment? c.next with
    | some i => checked ch (some i) c.next.next
    | none => some (ch, none, c.next)
  | none =>
    match increment? c with
    | some i =>
      match chomping? c.next with
      | some ch => checked ch (some i) c.next.next
      | none => checked .clip (some i) c.next
    | none => some (.clip, none, c)

/-- Empty lines of a block: their breaks, the widest indentation seen, the place after them. A tab may not
stand where indentation is due. -/
def blockBreaks (indent : Option Nat) : Nat → Nat → Cursor → Option (List Char × Nat × Cursor)
  | 0, widest, c => some ([], widest, c)
  | n + 1, widest, c =>
    let spaces := (c.rest.takeWhile isSpace).length
    let spaces := match indent with
      | some i => min spaces (i - c.column)
      | none => spaces
    let c := { c with rest := c.rest.drop spaces, index := c.index + spaces, column := c.column + spaces }
    let widest := max widest c.column
    let due := match indent with
      | some i => c.column < i
      | none => true
    if due && c.sees 0 isTab then none
    else if c.atBreak then
      let (b, c) := c.readBreak
      (blockBreaks indent n widest c).map fun (bs, w, c) => (b ++ bs, w, c)
    else some ([], widest, c)

structure BlockLine where
  breaks : List Char
  leading : List Char
  blank : Bool

/-- The lines of a block. `last` is the line break that has been read and not yet written. -/
def blockLines (folded : Bool) (indent : Nat) : Nat → BlockLine → Cursor → Option (List Char × BlockLine × Cursor)
  | 0, l, c => some ([], l, c)
  | n + 1, l, c =>
    if c.column != indent || c.atEnd then some ([], l, c)
    else do
      let blank := c.atBlank
      let joined :=
        if folded && l.leading == ['\n'] && !l.blank && !blank then (if l.breaks.isEmpty then [' '] else [])
        else l.leading
      let (xs, c) := c.takeWhile (!isBreak ·)
      let (b, c) := c.readBreak
      let (bs, _, c) ← blockBreaks (some indent) (c.rest.length + 1) 0 c
      let (more, l', c) ← blockLines folded indent n ⟨bs, b, blank⟩ c
      pure (joined ++ l.breaks ++ xs ++ more, l', c)

/-- A block below a parent indented by `parent`; the place is the block's mark. -/
def block (folded : Bool) (parent : Int) (c : Cursor) : Option (List Char × Cursor) := do
  let (chomping, increment, c) ← blockHead c.next
  let c ← c.endLine?
  let least := max (parent + 1).toNat 1
  let fixed := increment.map fun i => if 0 ≤ parent then parent.toNat + i else i
  let (bs, widest, c) ← blockBreaks fixed (c.rest.length + 1) 0 c
  let indent := fixed.getD (max widest least)
  let (text, l, c) ← blockLines folded indent (c.rest.length + 1) ⟨bs, [], false⟩ c
  pure (text ++ (if chomping == .strip then [] else l.leading) ++ (if chomping == .keep then l.breaks else []), c)

end Scalar
end Switchboard.Yaml
