import Switchboard.Bytes

/-! The grammar of JSON text over octets: where a value ends, what a string says, how a string is written. -/
namespace Switchboard.Json

namespace Ascii

@[match_pattern] def tab : UInt8 := 9
@[match_pattern] def newline : UInt8 := 10
@[match_pattern] def carriage : UInt8 := 13
@[match_pattern] def space : UInt8 := 32
@[match_pattern] def quote : UInt8 := 34
@[match_pattern] def plus : UInt8 := 43
@[match_pattern] def comma : UInt8 := 44
@[match_pattern] def minus : UInt8 := 45
@[match_pattern] def dot : UInt8 := 46
@[match_pattern] def slash : UInt8 := 47
@[match_pattern] def zero : UInt8 := 48
@[match_pattern] def colon : UInt8 := 58
@[match_pattern] def upperE : UInt8 := 69
@[match_pattern] def openBracket : UInt8 := 91
@[match_pattern] def backslash : UInt8 := 92
@[match_pattern] def closeBracket : UInt8 := 93
@[match_pattern] def lowerB : UInt8 := 98
@[match_pattern] def lowerE : UInt8 := 101
@[match_pattern] def lowerF : UInt8 := 102
@[match_pattern] def lowerN : UInt8 := 110
@[match_pattern] def lowerR : UInt8 := 114
@[match_pattern] def lowerT : UInt8 := 116
@[match_pattern] def lowerU : UInt8 := 117
@[match_pattern] def openBrace : UInt8 := 123
@[match_pattern] def closeBrace : UInt8 := 125

end Ascii

def isSpace (c : UInt8) : Bool :=
  c == Ascii.space || c == Ascii.newline || c == Ascii.tab || c == Ascii.carriage

def isDigit (c : UInt8) : Bool := 48 ≤ c && c ≤ 57

def isHex (c : UInt8) : Bool := isDigit c || (65 ≤ c && c ≤ 70) || (97 ≤ c && c ≤ 102)

def skipSpace (b : Bytes) : Bytes := b.dropWhile isSpace

/-- The rest of the text after a string whose opening quote has been read. Escapes need only have the
right shape here: a lone surrogate is passed over. -/
def skipString : Bytes → Option Bytes
  | [] => none
  | Ascii.quote :: r => some r
  | Ascii.backslash :: Ascii.lowerU :: a :: b :: c :: d :: r =>
    if isHex a && isHex b && isHex c && isHex d then skipString r else none
  | Ascii.backslash :: c :: r =>
    if c == Ascii.quote || c == Ascii.backslash || c == Ascii.slash || c == Ascii.lowerB ||
        c == Ascii.lowerF || c == Ascii.lowerN || c == Ascii.lowerR || c == Ascii.lowerT
    then skipString r else none
  | c :: r => if c < 32 || c == Ascii.backslash then none else skipString r

def skipDigits : Bytes → Option Bytes
  | c :: r => if isDigit c then some (r.dropWhile isDigit) else none
  | [] => none

def skipExponent : Bytes → Option Bytes
  | c :: r =>
    if c == Ascii.lowerE || c == Ascii.upperE then
      match r with
      | Ascii.plus :: r => skipDigits r
      | Ascii.minus :: r => skipDigits r
      | r => skipDigits r
    else some (c :: r)
  | [] => some []

def skipFraction : Bytes → Option Bytes
  | Ascii.dot :: r => (skipDigits r).bind skipExponent
  | r => skipExponent r

/-- An unsigned number: no leading zero before another digit. -/
def skipMagnitude : Bytes → Option Bytes
  | Ascii.zero :: r => if (r.head?.map isDigit).getD false then none else skipFraction r
  | r => (skipDigits r).bind skipFraction

def skipNumber : Bytes → Option Bytes
  | Ascii.minus :: r => skipMagnitude r
  | r => skipMagnitude r

def skipWord (word : String) (b : Bytes) : Option Bytes :=
  let w := Bytes.ofString word
  if w.isPrefixOf b then some (b.drop w.length) else none

mutual

/-- The rest of the text after one value. Every nested value is shorter than the text around it, so
the length of the text bounds the first argument. -/
def skipValue : Nat → Bytes → Option Bytes
  | 0, _ => none
  | _ + 1, [] => none
  | n + 1, c :: r =>
    if c == Ascii.quote then skipString r
    else if c == Ascii.openBracket then
      match skipSpace r with
      | Ascii.closeBracket :: r => some r
      | r => skipItems n r
    else if c == Ascii.openBrace then
      match skipSpace r with
      | Ascii.closeBrace :: r => some r
      | r => skipMembers n r
    else if c == Ascii.minus || isDigit c then skipNumber (c :: r)
    else if c == Ascii.lowerN then skipWord "null" (c :: r)
    else if c == Ascii.lowerT then skipWord "true" (c :: r)
    else skipWord "false" (c :: r)

def skipItems : Nat → Bytes → Option Bytes
  | 0, _ => none
  | n + 1, b =>
    match skipValue n b with
    | none => none
    | some r =>
      match skipSpace r with
      | Ascii.comma :: r => skipItems n (skipSpace r)
      | Ascii.closeBracket :: r => some r
      | _ => none

def skipMembers : Nat → Bytes → Option Bytes
  | n + 1, Ascii.quote :: b =>
    match (skipString b).map skipSpace with
    | some (Ascii.colon :: r) =>
      match (skipValue n (skipSpace r)).map skipSpace with
      | some (Ascii.comma :: r) => skipMembers n (skipSpace r)
      | some (Ascii.closeBrace :: r) => some r
      | _ => none
    | _ => none
  | _, _ => none

end

/-- The value at the front of the text, as written, and what follows it. -/
def value? (b : Bytes) : Option (Bytes × Bytes) :=
  (skipValue (2 * b.length + 1) b).map fun r => (b.take (b.length - r.length), r)

/-- The one value that the text holds, as written but without the blanks around it. -/
def document? (b : Bytes) : Option Bytes :=
  match value? (skipSpace b) with
  | some (v, r) => if (skipSpace r).isEmpty then some v else none
  | none => none

def hexOctet (c : UInt8) : Nat := (Bytes.hexValue? (Char.ofNat c.toNat)).getD 0

def codeUnit (a b c d : UInt8) : Nat :=
  hexOctet a * 4096 + hexOctet b * 256 + hexOctet c * 16 + hexOctet d

def utf8 (n : Nat) : Bytes := Bytes.ofString (String.singleton (Char.ofNat n))

def isLeadSurrogate (n : Nat) : Bool := 0xD800 ≤ n && n < 0xDC00

def isTrailSurrogate (n : Nat) : Bool := 0xDC00 ≤ n && n < 0xE000

def escaped? (c : UInt8) : Option UInt8 :=
  if c == Ascii.quote || c == Ascii.backslash || c == Ascii.slash then some c
  else if c == Ascii.lowerB then some 8
  else if c == Ascii.lowerF then some 12
  else if c == Ascii.lowerN then some 10
  else if c == Ascii.lowerR then some 13
  else if c == Ascii.lowerT then some 9
  else none

/-- The octets that a string stands for, its opening quote having been read, and what follows it.
Surrogates must come in pairs. -/
def readString : Bytes → Option (Bytes × Bytes)
  | [] => none
  | Ascii.quote :: r => some ([], r)
  | Ascii.backslash :: Ascii.lowerU :: a :: b :: c :: d :: r =>
    let n := codeUnit a b c d
    if !(isHex a && isHex b && isHex c && isHex d) || isTrailSurrogate n then none
    else if isLeadSurrogate n then
      match r with
      | Ascii.backslash :: Ascii.lowerU :: e :: f :: g :: h :: r =>
        let m := codeUnit e f g h
        if isHex e && isHex f && isHex g && isHex h && isTrailSurrogate m then
          (readString r).map fun (s, r) => (utf8 (0x10000 + (n - 0xD800) * 1024 + (m - 0xDC00)) ++ s, r)
        else none
      | _ => none
    else (readString r).map fun (s, r) => (utf8 n ++ s, r)
  | Ascii.backslash :: c :: r =>
    match escaped? c with
    | some x => (readString r).map fun (s, r) => (x :: s, r)
    | none => none
  | c :: r =>
    if c < 32 || c == Ascii.backslash then none
    else (readString r).map fun (s, r) => (c :: s, r)

/-- The text of a string value. -/
def string? : Bytes → Option String
  | Ascii.quote :: r =>
    match readString r with
    | some (s, []) => s.toString?
    | _ => none
  | _ => none

def escape (c : Char) : List Char :=
  if c = '"' then ['\\', '"']
  else if c = '\\' then ['\\', '\\']
  else if c.toNat = 8 then ['\\', 'b']
  else if c.toNat = 12 then ['\\', 'f']
  else if c = '\n' then ['\\', 'n']
  else if c = '\r' then ['\\', 'r']
  else if c = '\t' then ['\\', 't']
  else if c.toNat < 32 then
    ['\\', 'u', '0', '0', Bytes.hexDigit (c.toNat / 16), Bytes.hexDigit (c.toNat % 16)]
  else [c]

/-- Quotes, backslashes and control characters are escaped, all else stands for itself. -/
def quote (s : String) : String := String.ofList ('"' :: s.toList.flatMap escape ++ ['"'])

def isNull (raw : Bytes) : Bool := raw == Bytes.ofString "null"

/-- The elements of an array value, each as written. -/
def items? (raw : Bytes) : Option (List Bytes) :=
  match raw with
  | Ascii.openBracket :: r =>
    match skipSpace r with
    | Ascii.closeBracket :: _ => some []
    | r => go raw.length r
  | _ => none
where
  go : Nat → Bytes → Option (List Bytes)
    | 0, _ => none
    | n + 1, b =>
      match value? b with
      | none => none
      | some (v, r) =>
        match skipSpace r with
        | Ascii.comma :: r => (go n (skipSpace r)).map (v :: ·)
        | Ascii.closeBracket :: _ => some [v]
        | _ => none

/-- The members of an object value in order, key and value each as written. -/
def members? (raw : Bytes) : Option (List (Bytes × Bytes)) :=
  match raw with
  | Ascii.openBrace :: r =>
    match skipSpace r with
    | Ascii.closeBrace :: _ => some []
    | r => go raw.length r
  | _ => none
where
  go : Nat → Bytes → Option (List (Bytes × Bytes))
    | 0, _ => none
    | n + 1, b =>
      match value? b with
      | none => none
      | some (k, r) =>
        match skipSpace r with
        | Ascii.colon :: r =>
          match value? (skipSpace r) with
          | none => none
          | some (v, r) =>
            match skipSpace r with
            | Ascii.comma :: r => (go n (skipSpace r)).map ((k, v) :: ·)
            | Ascii.closeBrace :: _ => some [(k, v)]
            | _ => none
        | _ => none

end Switchboard.Json
