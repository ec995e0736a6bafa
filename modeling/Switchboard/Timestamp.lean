import Switchboard.Text.Blank

/-! Points in civil time: reading RFC 3339 text with some freedom, writing it in one form. -/
namespace Switchboard

/-- Seconds of universal time and what lies beyond them; a leap second has nanoseconds from `10^9` on. -/
structure Timestamp where
  seconds : Int
  nanos : Nat
deriving DecidableEq

namespace Timestamp

def billion : Nat := 1000000000

def isLeap (y : Int) : Bool := y % 4 == 0 && (y % 100 != 0 || y % 400 == 0)

def monthLength (y : Int) (m : Nat) : Nat :=
  if m == 2 then (if isLeap y then 29 else 28)
  else if m == 4 || m == 6 || m == 9 || m == 11 then 30
  else 31

/-- Days since 1970-01-01, counting years from March so that the leap day comes last. -/
def dayNumber (y : Int) (m d : Nat) : Int :=
  let y := if m ≤ 2 then y - 1 else y
  let era := y / 400
  let yoe := y % 400
  let doy : Int := (153 * ((m + 9) % 12) + 2) / 5 + d - 1
  era * 146097 + (yoe * 365 + yoe / 4 - yoe / 100 + doy) - 719468

def dateOfDay (n : Int) : Int × Nat × Nat :=
  let n := n + 719468
  let era := n / 146097
  let doe := n % 146097
  let yoe := (doe - doe / 1460 + doe / 36524 - doe / 146096) / 365
  let doy := (doe - (365 * yoe + yoe / 4 - yoe / 100)).toNat
  let mp := (5 * doy + 2) / 153
  let d := doy - (153 * mp + 2) / 5 + 1
  let m := if mp < 10 then mp + 3 else mp - 9
  let y := yoe + era * 400
  (if m ≤ 2 then y + 1 else y, m, d)

/-- Between `least` and `most` digits. -/
def number? (least most : Nat) (cs : List Char) : Option (Nat × List Char) :=
  let ds := (cs.take most).takeWhile Char.isDigit
  if ds.length < least then none
  else some (ds.foldl (fun n c => n * 10 + (c.toNat - 48)) 0, cs.drop ds.length)

def literal? (c : Char) (cs : List Char) : Option (List Char) :=
  match cs with
  | d :: r => if c = d then some r else none
  | [] => none

/-- A number of one or two digits after blanks, at most `most`. -/
def field? (most : Nat) (cs : List Char) : Option (Nat × List Char) :=
  match number? 1 2 (Text.skipBlanks cs) with
  | some (n, r) => if n ≤ most then some (n, r) else none
  | none => none

def separated? (c : Char) (most : Nat) (cs : List Char) : Option (Nat × List Char) :=
  (literal? c (Text.skipBlanks cs)).bind (field? most)

/-- A signed year has any number of digits, one without a sign at most four. -/
def year? (cs : List Char) : Option (Int × List Char) :=
  match Text.skipBlanks cs with
  | '-' :: r => (number? 1 r.length r).map fun (n, r) => (-(n : Int), r)
  | '+' :: r => (number? 1 r.length r).map fun (n, r) => ((n : Int), r)
  | r => (number? 1 4 r).map fun (n, r) => ((n : Int), r)

/-- Nine digits count, more are passed over. -/
def fraction? (cs : List Char) : Option (Nat × List Char) :=
  match cs with
  | '.' :: r =>
    match number? 1 9 r with
    | some (n, rest) => some (n * Nat.pow 10 (9 - (r.length - rest.length)), rest.dropWhile Char.isDigit)
    | none => none
  | r => some (0, r)

/-- Seconds east of universal time. -/
def offset? (cs : List Char) : Option (Int × List Char) :=
  match cs with
  | 'Z' :: r | 'z' :: r => some (0, r)
  | s :: r =>
    if (cs.take 3).map Char.toUpper = ['U', 'T', 'C'] then some (0, cs.drop 3)
    else if s = '+' ∨ s = '-' ∨ s = '\u2212' then do
      let (h, r) ← number? 2 2 r
      let (m, r) ← number? 2 2 (r.dropWhile fun c => c = ':' || Text.isBlank c)
      if 59 < m ∨ 24 ≤ h then none
      else
        let east : Int := h * 3600 + m * 60
        some (if s = '+' then east else -east, r)
    else none
  | [] => none

/-- The first and the last day on the calendar. -/
def firstDay : Int := dayNumber (-262143) 1 1

def lastDay : Int := dayNumber 262142 12 31

/-- The date is on the calendar both as it is written and in universal time. -/
def ofText? (s : String) : Option Timestamp := do
  let (y, r) ← year? s.toList
  let (m, r) ← separated? '-' 12 r
  let (d, r) ← separated? '-' 31 r
  let r ← match r with
    | 't' :: r | 'T' :: r | ' ' :: r => some r
    | _ => none
  let (hour, r) ← field? 23 r
  let (minute, r) ← separated? ':' 59 r
  let (second, r) ← separated? ':' 60 r
  let (nanos, r) ← fraction? r
  let (east, r) ← offset? (Text.skipBlanks r)
  if !(Text.skipBlanks r).isEmpty || m == 0 || d == 0 || monthLength y m < d || y < -262143 || 262142 < y
  then none
  else
    let clock : Int := hour * 3600 + minute * 60 + min second 59
    let seconds := dayNumber y m d * 86400 + clock - east
    if seconds / 86400 < firstDay ∨ lastDay < seconds / 86400 then none
    else some ⟨seconds, if second = 60 then nanos + billion else nanos⟩

def pad (width n : Nat) : String :=
  let ds := Nat.repr n
  String.ofList (List.replicate (width - ds.length) '0') ++ ds

def yearText (y : Int) : String :=
  if 0 ≤ y ∧ y ≤ 9999 then pad 4 y.toNat
  else (if y < 0 then "-" else "+") ++ pad 4 y.natAbs

/-- No fraction, or three, six or nine digits of one, whichever is the first to lose nothing. -/
def fractionText (nanos : Nat) : String :=
  if nanos = 0 then ""
  else if nanos % 1000000 = 0 then "." ++ pad 3 (nanos / 1000000)
  else if nanos % 1000 = 0 then "." ++ pad 6 (nanos / 1000)
  else "." ++ pad 9 nanos

def text (t : Timestamp) : String :=
  let (y, m, d) := dateOfDay (t.seconds / 86400)
  let clock := (t.seconds % 86400).toNat
  let second := clock % 60 + t.nanos / billion
  yearText y ++ "-" ++ pad 2 m ++ "-" ++ pad 2 d ++ "T" ++ pad 2 (clock / 3600) ++ ":" ++
    pad 2 (clock / 60 % 60) ++ ":" ++ pad 2 second ++ fractionText (t.nanos % billion) ++ "Z"

end Timestamp
end Switchboard
