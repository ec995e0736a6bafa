/-! Instants and durations in whole milliseconds, and how a duration is written for people. -/
namespace Switchboard

/-- Milliseconds since the clock started. -/
abbrev Instant := Nat

/-- A length of time in milliseconds. -/
abbrev Duration := Nat

namespace Duration

/-- Decimal digits of `n / 1000` after the point, without trailing zeros. -/
def fractionDigits (n : Nat) : String :=
  let digit := fun k => Nat.repr (n / k % 10)
  if n % 1000 = 0 then ""
  else if n % 100 = 0 then "." ++ digit 100
  else if n % 10 = 0 then "." ++ digit 100 ++ digit 10
  else "." ++ digit 100 ++ digit 10 ++ digit 1

/-- In seconds from one second on, in milliseconds below; nothing at all is in nanoseconds. -/
def text (d : Duration) : String :=
  if 1000 ≤ d then Nat.repr (d / 1000) ++ fractionDigits d ++ "s"
  else if 0 < d then Nat.repr d ++ "ms"
  else "0ns"

def seconds (n : Nat) : Duration := n * 1000

end Duration
end Switchboard
