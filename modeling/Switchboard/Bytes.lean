/-! Octet strings as lists, UTF-8 text in them, big-endian words and hexadecimal digits. -/
namespace Switchboard

abbrev Bytes := List UInt8

namespace Bytes
variable {s : String} {b : Bytes} {n : Nat}

def ofString (s : String) : Bytes := s.toUTF8.data.toList

/-- The text, when the octets are well-formed UTF-8. -/
def toString? (b : Bytes) : Option String := String.fromUTF8? ⟨b.toArray⟩

@[simp] theorem toString?_ofString : toString? (ofString s) = some s := by
  simp only [toString?, ofString, String.fromUTF8?, Array.toArray_toList]
  exact dif_pos (by simpa using s.isValidUTF8)

theorem ofString_of_toString? (h : toString? b = some s) : ofString s = b := by
  unfold toString? String.fromUTF8? at h
  split at h
  · cases h
    simp [ofString, String.fromUTF8]
  · cases h

theorem ofString_injective : Function.Injective ofString := fun s t h => by
  have := congrArg toString? h
  simpa using this

/-- Four octets, most significant first; larger numbers lose their high bits. -/
def be32 (n : Nat) : Bytes :=
  [UInt8.ofNat (n / 16777216), UInt8.ofNat (n / 65536), UInt8.ofNat (n / 256), UInt8.ofNat n]

def be64 (n : Nat) : Bytes := be32 (n / 4294967296) ++ be32 n

def word32 (a b c d : UInt8) : Nat :=
  a.toNat * 16777216 + b.toNat * 65536 + c.toNat * 256 + d.toNat

def hexDigit (n : Nat) : Char := if n < 10 then Char.ofNat (48 + n) else Char.ofNat (87 + n)

def hexValue? (c : Char) : Option Nat :=
  if '0' ≤ c ∧ c ≤ '9' then some (c.toNat - 48)
  else if 'a' ≤ c ∧ c ≤ 'f' then some (c.toNat - 87)
  else if 'A' ≤ c ∧ c ≤ 'F' then some (c.toNat - 55)
  else none

/-- Lower-case hexadecimal, two digits an octet. -/
def toHex (b : Bytes) : String :=
  String.ofList <| b.flatMap fun x => [hexDigit (x.toNat / 16), hexDigit (x.toNat % 16)]

def ofHexDigits : List Char → Bytes
  | h :: l :: r => UInt8.ofNat ((hexValue? h).getD 0 * 16 + (hexValue? l).getD 0) :: ofHexDigits r
  | _ => []

end Bytes
end Switchboard
