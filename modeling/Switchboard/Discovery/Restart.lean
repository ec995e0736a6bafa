import Switchboard.Time

/-! How long a watch is left alone before it is opened again. -/
namespace Switchboard.Discovery

/-- Failures in a row, as far as they matter. -/
structure Restart where
  attempt : Nat := 0
deriving DecidableEq

namespace Restart

def maxExponent : Nat := 4

def delay (attempt : Nat) : Duration := if attempt = 0 then 0 else Nat.pow 10 (min attempt maxExponent)

/-- The pause after a failure and the count for the next one. -/
def failed (r : Restart) : Duration × Restart := (delay r.attempt, ⟨min (r.attempt + 1) maxExponent⟩)

/-- An open watch starts the count again. -/
def opened (_ : Restart) : Restart := ⟨0⟩

end Restart
end Switchboard.Discovery
