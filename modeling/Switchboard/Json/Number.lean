import Switchboard.Decimal
import Switchboard.Json.Text

/-! JSON numbers: exact integers of 64 bits, everything else a double. -/
namespace Switchboard.Json

inductive Number
  | nat (n : UInt64)
  | neg (n : Int)
  | float (x : Float)

namespace Number

def digit (c : UInt8) : Nat := c.toNat - 48

def limit : Nat := Nat.pow 2 64

/-- Takes digits into the significand while it stays below `2^64`: significand, digits taken, rest. -/
def take (n : Nat) : Bytes → Nat × Nat × Bytes
  | [] => (n, 0, [])
  | c :: r =>
    if isDigit c && n * 10 + digit c < limit then
      let (m, k, r) := take (n * 10 + digit c) r
      (m, k + 1, r)
    else (n, 0, c :: r)

/-- Multiplies or divides once by a power of ten below `10^309`, dividing in steps when more is needed;
`none` when the result would be infinite. -/
def scale (x : Float) (exp : Int) : Option Float :=
  go ((-exp).toNat / 308 + 1) x exp
where
  go : Nat → Float → Int → Option Float
    | 0, x, _ => some x
    | n + 1, x, exp =>
      if exp.natAbs ≤ 308 then
        let p := Float.ofScientific 1 false exp.natAbs
        if 0 ≤ exp then
          if (x * p).isInf then none else some (x * p)
        else some (x / p)
      else if x == 0 then some x
      else if 0 ≤ exp then none
      else go n (x / 1e308) (exp + 308)

def maxExponent : Nat := 2147483647

/-- The exponent as far as it fits 32 bits, otherwise `none`. -/
def exponent? (digits : Bytes) : Option Nat :=
  digits.foldl (fun e c => e.bind fun e =>
    if e * 10 + digit c ≤ maxExponent then some (e * 10 + digit c) else none) (some 0)

def clamp (e : Int) : Int := max (-2147483648) (min e 2147483647)

/-- What follows the digits that made the significand: an exponent part or nothing. -/
def finish (n : Nat) (exp : Int) : Bytes → Option Float
  | [] => scale (Float.ofNat n) exp
  | _ :: r =>
    let (up, ds) := match r with
      | Ascii.plus :: r => (true, r)
      | Ascii.minus :: r => (false, r)
      | r => (true, r)
    match exponent? ds with
    | some e => scale (Float.ofNat n) (clamp (if up then exp + e else exp - e))
    | none => if n ≠ 0 ∧ up then none else some 0

def fraction (n : Nat) (exp : Int) : Bytes → Option Float
  | Ascii.dot :: r =>
    let (m, k, r) := take n r
    finish m (exp - k) (r.dropWhile isDigit)
  | r => finish n exp r

/-- The number that the text of one value spells; `none` past the largest double. -/
def ofText? (raw : Bytes) : Option Number :=
  let (minus, mag) := match raw with
    | Ascii.minus :: r => (true, r)
    | r => (false, r)
  let (n, _, r) := take 0 mag
  let signed := fun x : Float => if minus then -x else x
  let dropped := r.takeWhile isDigit
  if !dropped.isEmpty then
    (fraction n dropped.length (r.dropWhile isDigit)).map (float ∘ signed)
  else match r with
    | [] =>
      if !minus then some (nat (UInt64.ofNat n))
      else if 0 < n ∧ n ≤ Nat.pow 2 63 then some (neg (-n))
      else some (float (-(Float.ofNat n)))
    | r => (fraction n 0 r).map (float ∘ signed)

def text : Number → String
  | nat n => toString n.toNat
  | neg n => toString n
  | float x => if Decimal.isFinite x.toBits then Decimal.scientific x else "null"

end Number

/-- The integer that an integer literal spells; a negative zero is not one. -/
def int? (raw : Bytes) : Option Int :=
  match raw with
  | Ascii.minus :: r => (nat? r).bind fun n => if n = 0 then none else some (-(n : Int))
  | r => (nat? r).map Int.ofNat
where
  nat? (r : Bytes) : Option Nat :=
    if r.isEmpty || !r.all isDigit then none
    else some (r.foldl (fun n c => n * 10 + Number.digit c) 0)

end Switchboard.Json
