/-! Shortest decimal digits of a double, and two ways to lay them out. -/
namespace Switchboard

/-- A positive double as `4m · 2^exp`, with the ends of the interval of reals that round to it in the
same unit. -/
structure Rounding where
  low : Nat
  value : Nat
  high : Nat
  exp : Int
  closed : Bool

namespace Rounding

def ofBits (bits : UInt64) : Rounding :=
  let frac := bits.toNat % Nat.pow 2 52
  let biased : Nat := bits.toNat / Nat.pow 2 52 % Nat.pow 2 11
  let m := if biased = 0 then frac else frac + Nat.pow 2 52
  let e : Int := Int.ofNat (max biased 1) - 1075
  let below := if frac = 0 ∧ 1 < biased then 1 else 2
  ⟨4 * m - below, 4 * m, 4 * m + 2, e - 2, m % 2 == 0⟩

/-- Compares `d · 10^k` with `x · 2^exp`. -/
def order (r : Rounding) (d : Nat) (k : Int) (x : Nat) : Ordering :=
  compare (d * Nat.pow 10 k.toNat * Nat.pow 2 (-r.exp).toNat) (x * Nat.pow 2 r.exp.toNat * Nat.pow 10 (-k).toNat)

def holds (r : Rounding) (d : Nat) (k : Int) : Bool :=
  let lo := r.order d k r.low
  let hi := r.order d k r.high
  (lo == .gt || (r.closed && lo == .eq)) && (hi == .lt || (r.closed && hi == .eq))

/-- The power of ten at the first digit. -/
def magnitude (r : Rounding) : Int :=
  let num := r.value * Nat.pow 2 r.exp.toNat
  let den := Nat.pow 2 (-r.exp).toNat
  if den ≤ num then ((num / den).repr.length : Int) - 1
  else -(((((num + den - 1) / num) - 1).repr.length : Nat) : Int)

/-- The largest `d` with `d · 10^k` at most the value. -/
def floorAt (r : Rounding) (k : Int) : Nat :=
  (r.value * Nat.pow 2 r.exp.toNat * Nat.pow 10 (-k).toNat) / (Nat.pow 2 (-r.exp).toNat * Nat.pow 10 k.toNat)

/-- Of the two neighbours of the value on the grid of `10^k`, the nearer one that rounds to it, and the even
one of two that are as near. -/
def hit? (r : Rounding) (k : Int) : Option Nat :=
  let d := r.floorAt k
  match r.holds d k, r.holds (d + 1) k with
  | true, true =>
    match r.order (2 * d + 1) k (2 * r.value) with
    | .lt => some (d + 1)
    | .eq => some (if d % 2 = 0 then d else d + 1)
    | .gt => some d
  | true, false => some d
  | false, true => some (d + 1)
  | false, false => none

/-- Fewest digits first: the digits and the power of ten at the last one. -/
def shortest (r : Rounding) : Nat × Int :=
  let top := r.magnitude
  let rec go : Nat → Int → Nat × Int
    | 0, k => (r.floorAt k, k)
    | n + 1, k =>
      match r.hit? k with
      | some d => (d, k)
      | none => go n (k - 1)
  go 17 top

end Rounding

namespace Decimal

/-- Digits without trailing zeros and the power of ten at the last of them. -/
def trim : Nat → Nat → Int → Nat × Int
  | 0, d, k => (d, k)
  | n + 1, d, k => if d ≠ 0 ∧ d % 10 = 0 then trim n (d / 10) (k + 1) else (d, k)

def digits (bits : UInt64) : List Char × Int :=
  let (d, k) := (Rounding.ofBits bits).shortest
  let (d, k) := trim 400 d k
  (d.repr.toList, k)

def isNegative (bits : UInt64) : Bool := Nat.pow 2 63 ≤ bits.toNat

def isZero (bits : UInt64) : Bool := bits.toNat % Nat.pow 2 63 = 0

def isFinite (bits : UInt64) : Bool := bits.toNat / Nat.pow 2 52 % Nat.pow 2 11 ≠ 2047

def zeros (n : Int) : List Char := List.replicate n.toNat '0'

/-- Every digit in its place, no exponent, no fraction for a whole number. -/
def positional (x : Float) : String :=
  let bits := x.toBits
  let sign := if isNegative bits then "-" else ""
  if isZero bits then sign ++ "0"
  else
    let (ds, k) := digits (UInt64.ofNat (bits.toNat % Nat.pow 2 63))
    let point : Int := ds.length + k
    sign ++ String.ofList (
      if 0 ≤ k then ds ++ zeros k
      else if 0 < point then ds.take point.toNat ++ '.' :: ds.drop point.toNat
      else '0' :: '.' :: zeros (-point) ++ ds)

/-- Positional from `10^-5` up to `10^16`, with a fraction even for a whole number; elsewhere an exponent, and
that always has its sign. -/
def scientific (x : Float) : String :=
  let bits := x.toBits
  let sign := if isNegative bits then "-" else ""
  if isZero bits then sign ++ "0.0"
  else
    let (ds, k) := digits (UInt64.ofNat (bits.toNat % Nat.pow 2 63))
    let point : Int := ds.length + k
    let ending := 'e' :: (if 0 < point then ['+'] else []) ++ (toString (point - 1)).toList
    sign ++ String.ofList (
      if 0 ≤ k ∧ point ≤ 16 then ds ++ zeros k ++ ['.', '0']
      else if 0 < point ∧ point ≤ 16 then ds.take point.toNat ++ '.' :: ds.drop point.toNat
      else if -5 < point ∧ point ≤ 0 then '0' :: '.' :: zeros (-point) ++ ds
      else match ds with
        | [d] => d :: ending
        | d :: rest => d :: '.' :: rest ++ ending
        | [] => [])

end Decimal
end Switchboard
