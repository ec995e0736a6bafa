import Switchboard.Json.Number
import Switchboard.Proofs.Bytes
import Switchboard.Proofs.Json.Skip

/-! Written integers are values, and say what was written. -/
namespace Switchboard.Json

variable {n : Nat} {c : Char} {b : Bytes}

/-- The octet of a digit. -/
def digitOctet (c : Char) : UInt8 := UInt8.ofNat c.toNat

def numeral (n : Nat) : Bytes := (Nat.toDigits 10 n).map digitOctet

theorem isDigit_bounds (hc : c.isDigit = true) : 48 ≤ c.toNat ∧ c.toNat ≤ 57 := by
  simp only [Char.isDigit, Bool.and_eq_true, decide_eq_true_eq] at hc
  exact hc

theorem isDigit_of_mem (hc : c ∈ Nat.toDigits 10 n) : c.isDigit = true :=
  Nat.isDigit_of_mem_toDigits (by decide) (by decide) hc

theorem toNat_digitOctet (hc : c.isDigit = true) : (digitOctet c).toNat = c.toNat := by
  obtain ⟨-, hle⟩ := isDigit_bounds hc
  exact UInt8.toNat_ofNat_of_lt' (Nat.lt_of_le_of_lt hle (by decide))

theorem isDigit_digitOctet (hc : c.isDigit = true) : isDigit (digitOctet c) = true := by
  obtain ⟨hge, hle⟩ := isDigit_bounds hc
  simp only [isDigit, Bool.and_eq_true, decide_eq_true_eq, UInt8.le_iff_toNat_le,
    toNat_digitOctet hc]
  exact ⟨hge, hle⟩

theorem ofString_toString : Bytes.ofString (toString n) = numeral n := by
  have hd : ∀ cs : List Char, (∀ c ∈ cs, c.isDigit = true) →
      cs.flatMap String.utf8EncodeChar = cs.map digitOctet := by
    intro cs h
    induction cs with
    | nil => rfl
    | cons c cs ih =>
      obtain ⟨-, hle⟩ := isDigit_bounds (h c List.mem_cons_self)
      rw [List.flatMap_cons, Bytes.utf8EncodeChar_ascii (Nat.lt_of_le_of_lt hle (by decide)),
        ih fun d hd => h d (List.mem_cons_of_mem _ hd)]
      rfl
  rw [Nat.toString_eq_ofList_toDigits, Bytes.ofString_ofList]
  exact hd _ fun c hc => isDigit_of_mem hc

theorem isDigit_numeral : ∀ x ∈ numeral n, isDigit x = true := by
  intro x hx
  obtain ⟨c, hc, rfl⟩ := List.mem_map.1 hx
  exact isDigit_digitOctet (isDigit_of_mem hc)

theorem numeral_ne_nil : numeral n ≠ [] := by
  simp [numeral, Nat.toDigits_ne_nil]

/-- The digits of a number give the number. -/
theorem value_numeral : (numeral n).foldl (fun k x => k * 10 + Number.digit x) 0 = n := by
  have hfold : ∀ (cs : List Char) (k : Nat), (∀ c ∈ cs, c.isDigit = true) →
      (cs.map digitOctet).foldl (fun k x => k * 10 + Number.digit x) k =
        Nat.ofDigitChars 10 cs k := by
    intro cs
    induction cs with
    | nil =>
      intro k _
      rfl
    | cons c cs ih =>
      intro k h
      have hc : Number.digit (digitOctet c) = c.toNat - '0'.toNat := by
        rw [Number.digit, toNat_digitOctet (h c List.mem_cons_self)]
        rfl
      rw [List.map_cons, List.foldl_cons, hc, ih _ fun d hd => h d (List.mem_cons_of_mem _ hd),
        Nat.ofDigitChars_cons, Nat.mul_comm]
  rw [numeral, hfold _ _ fun c hc => isDigit_of_mem hc, Nat.ofDigitChars_ten_toDigits]

theorem toString_injective {m n : Nat} (h : toString m = toString n) : m = n := by
  have hnum : numeral m = numeral n := by rw [← ofString_toString, h, ofString_toString]
  rw [← @value_numeral m, hnum, value_numeral]

/-- Only zero begins with a zero. -/
theorem toDigits_cons (n : Nat) :
    ∃ c cs, Nat.toDigits 10 n = c :: cs ∧ (c = '0' → cs = []) := by
  induction n using Nat.strongRecOn with
  | ind n ih =>
    by_cases hn : n < 10
    · exact ⟨n.digitChar, [], Nat.toDigits_of_lt_base hn, fun _ => rfl⟩
    · obtain ⟨c, cs, hd, hc⟩ := ih (n / 10) (by omega)
      refine ⟨c, cs ++ [(n % 10).digitChar], ?_, fun h0 => ?_⟩
      · rw [Nat.toDigits_of_base_le (by decide) (by omega), hd]
        rfl
      · have hzero : n / 10 = 0 := by
          rw [← Nat.ofDigitChars_ten_toDigits (n := n / 10), hd, h0, hc h0]
          rfl
        omega

theorem dropWhile_isDigit (hb : ∀ x ∈ b, isDigit x = true) : b.dropWhile isDigit = [] := by
  induction b with
  | nil => rfl
  | cons x b ih =>
    rw [List.dropWhile_cons_of_pos (hb x List.mem_cons_self)]
    exact ih fun y hy => hb y (List.mem_cons_of_mem _ hy)

theorem skipDigits_digits (hb : ∀ x ∈ b, isDigit x = true) (hne : b ≠ []) :
    skipDigits b = some [] := by
  obtain ⟨x, r, rfl⟩ := List.exists_cons_of_ne_nil hne
  rw [skipDigits, if_pos (hb x List.mem_cons_self),
    dropWhile_isDigit fun y hy => hb y (List.mem_cons_of_mem _ hy)]

theorem skipMagnitude_numeral : skipMagnitude (numeral n) = some [] := by
  obtain ⟨c, cs, hd, hc⟩ := toDigits_cons n
  by_cases h0 : c = '0'
  · have hn : numeral n = [Ascii.zero] := by
      rw [numeral, hd, hc h0, h0]
      rfl
    rw [hn]
    rfl
  · rw [skipMagnitude_of_ne, skipDigits_digits isDigit_numeral numeral_ne_nil]
    · rfl
    · intro s hs
      rw [numeral, hd, List.map_cons] at hs
      have hdigit := isDigit_of_mem (hd ▸ List.mem_cons_self)
      have hx : (digitOctet c).toNat = 48 := congrArg UInt8.toNat (List.cons.inj hs).1
      rw [toNat_digitOctet hdigit] at hx
      exact h0 (by rw [← Char.ofNat_toNat c, hx])

theorem isValue_of_skipNumber (hb : ∃ x r, b = x :: r ∧ (x = Ascii.minus ∨ isDigit x = true))
    (h : skipNumber b = some []) : IsValue b := by
  obtain ⟨x, r, rfl, hx⟩ := hb
  have hne : ∀ y : UInt8, y ≠ Ascii.minus → isDigit y = false → x ≠ y := by
    rintro y hm hd rfl
    rcases hx with rfl | hx
    · exact hm rfl
    · rw [hx] at hd
      cases hd
  rw [IsValue, skipValue, if_neg, if_neg, if_neg, if_pos, h]
  · rcases hx with rfl | hx
    · rfl
    · simp [hx]
  · simpa using hne Ascii.openBrace (by decide) (by decide)
  · simpa using hne Ascii.openBracket (by decide) (by decide)
  · simpa using hne Ascii.quote (by decide) (by decide)

theorem skipNumber_numeral : skipNumber (numeral n) = some [] := by
  rw [skipNumber.eq_def]
  split
  · rename_i s hs
    have hm := isDigit_numeral (n := n) Ascii.minus (hs ▸ List.mem_cons_self)
    cases hm
  · exact skipMagnitude_numeral

theorem isValue_numeral : IsValue (numeral n) := by
  obtain ⟨x, r, hx⟩ := List.exists_cons_of_ne_nil (numeral_ne_nil (n := n))
  exact isValue_of_skipNumber ⟨x, r, hx, .inr (isDigit_numeral x (hx ▸ List.mem_cons_self))⟩
    skipNumber_numeral

theorem isValue_minus_numeral : IsValue (Ascii.minus :: numeral n) :=
  isValue_of_skipNumber ⟨_, _, rfl, .inl rfl⟩ skipMagnitude_numeral

theorem nat?_numeral : int?.nat? (numeral n) = some n := by
  have hall : (numeral n).all isDigit = true := List.all_eq_true.2 isDigit_numeral
  have hne : (numeral n).isEmpty = false := by
    simpa using numeral_ne_nil
  rw [int?.nat?, hall, hne, if_neg (by decide), value_numeral]

theorem int?_numeral : int? (numeral n) = some (n : Int) := by
  rw [int?.eq_def]
  split
  · rename_i s hs
    have hm := isDigit_numeral (n := n) Ascii.minus (hs ▸ List.mem_cons_self)
    cases hm
  · rw [nat?_numeral]
    rfl

theorem int?_minus_numeral (hn : n ≠ 0) : int? (Ascii.minus :: numeral n) = some (-(n : Int)) := by
  show (int?.nat? (numeral n)).bind _ = _
  rw [nat?_numeral, Option.bind_some, if_neg hn]

theorem ofString_toString_int (i : Int) :
    Bytes.ofString (toString i) =
      if 0 ≤ i then numeral i.toNat else Ascii.minus :: numeral (-i).toNat := by
  show Bytes.ofString i.repr = _
  rw [Int.repr_eq_if]
  split
  · exact ofString_toString
  · rw [Bytes.ofString_append]
    exact congrArg (Ascii.minus :: ·) ofString_toString

theorem isValue_toString (i : Int) : IsValue (Bytes.ofString (toString i)) := by
  rw [ofString_toString_int]
  split
  · exact isValue_numeral
  · exact isValue_minus_numeral

/-- An integer is read back as it was written. -/
theorem int?_toString (i : Int) : int? (Bytes.ofString (toString i)) = some i := by
  rw [ofString_toString_int]
  split
  · rw [int?_numeral]
    congr 1
    omega
  · rw [int?_minus_numeral (by omega)]
    congr 1
    omega

end Switchboard.Json
