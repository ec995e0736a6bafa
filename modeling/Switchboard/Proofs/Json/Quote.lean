import Switchboard.Proofs.Bytes
import Switchboard.Proofs.Json.Skip

/-! Quoted strings are values, and say what was quoted. -/
namespace Switchboard.Json

variable {p r : Bytes} {x y : UInt8} {c : Char} {s : String}

/-- Octets that stand for themselves within a string. -/
def IsPlain (x : UInt8) : Prop := 32 ≤ x ∧ x ≠ Ascii.quote ∧ x ≠ Ascii.backslash
deriving Decidable

theorem skipString_append_plain (hp : ∀ x ∈ p, IsPlain x) : skipString (p ++ r) = skipString r := by
  induction p with
  | nil => rfl
  | cons c p ih =>
    obtain ⟨h1, h2, h3⟩ := hp c List.mem_cons_self
    rw [List.cons_append, skipString_plain h1 h2 h3,
      ih fun d hd => hp d (List.mem_cons_of_mem _ hd)]

theorem readString_plain (hx : IsPlain x) :
    readString (x :: r) = (readString r).map fun q => (x :: q.1, q.2) := by
  obtain ⟨h1, h2, h3⟩ := hx
  rw [readString.eq_def]
  split
  · rename_i h'; cases h'
  · rename_i h'; cases h'; exact absurd rfl h2
  · rename_i h'; cases h'; exact absurd rfl h3
  · rename_i h'; cases h'; exact absurd rfl h3
  · rename_i h'; cases h'
    rw [if_neg]
    simp [h1, h3]

theorem readString_escape (h : escaped? x = some y) :
    readString (Ascii.backslash :: x :: r) = (readString r).map fun q => (y :: q.1, q.2) := by
  have hu : x ≠ Ascii.lowerU := by
    rintro rfl
    cases h
  rw [readString.eq_def]
  split
  · rename_i h'; cases h'
  · rename_i h'; cases h'
  · rename_i h'; cases h'; exact absurd rfl hu
  · rename_i h'; cases h'
    rw [h]
  · rename_i h1 h2; cases h2; exact (h1 _ _ rfl rfl).elim

theorem readString_unicode {a b c d : UInt8}
    (hd : (isHex a && isHex b && isHex c && isHex d) = true) (hn : codeUnit a b c d < 0xD800) :
    readString (Ascii.backslash :: Ascii.lowerU :: a :: b :: c :: d :: r) =
      (readString r).map fun q => (utf8 (codeUnit a b c d) ++ q.1, q.2) := by
  have ht : isTrailSurrogate (codeUnit a b c d) = false := by simp [isTrailSurrogate]; omega
  have hl : isLeadSurrogate (codeUnit a b c d) = false := by simp [isLeadSurrogate]; omega
  rw [readString.eq_def]
  split
  · rename_i h'; cases h'
  · rename_i h'; cases h'
  · rename_i h'
    cases h'
    rw [if_neg (by simp [hd, ht]), if_neg (by simp [hl])]
  · rename_i h1 h2; cases h2; exact (h1 _ _ _ _ _ rfl rfl).elim
  · rename_i h1 h2; cases h2; exact (h1 _ _ rfl rfl).elim

theorem readString_append_plain (hp : ∀ x ∈ p, IsPlain x) :
    readString (p ++ r) = (readString r).map fun q => (p ++ q.1, q.2) := by
  induction p with
  | nil => simp
  | cons c p ih =>
    rw [List.cons_append, readString_plain (hp c List.mem_cons_self),
      ih fun d hd => hp d (List.mem_cons_of_mem _ hd), Option.map_map]
    rfl

/-- The three ways in which a character is written within a string. -/
inductive Spelling (c : Char) : Bytes → Prop
  | plain (h : ∀ x ∈ String.utf8EncodeChar c, IsPlain x) : Spelling c (String.utf8EncodeChar c)
  | short {x y : UInt8} (hx : escaped? x = some y) (hc : String.utf8EncodeChar c = [y]) :
      Spelling c [Ascii.backslash, x]
  | long {a b d e : UInt8} (hh : (isHex a && isHex b && isHex d && isHex e) = true)
      (hn : codeUnit a b d e < 0xD800) (hc : utf8 (codeUnit a b d e) = String.utf8EncodeChar c) :
      Spelling c [Ascii.backslash, Ascii.lowerU, a, b, d, e]

/-- A code point is encoded as its character is. -/
theorem utf8_toNat : utf8 c.toNat = String.utf8EncodeChar c := by
  rw [utf8, Char.ofNat_toNat, Bytes.ofString_eq]
  simp

/-- The octet of a hexadecimal digit. -/
def hexOf (k : Nat) : UInt8 := UInt8.ofNat (Bytes.hexDigit k).toNat

theorem utf8EncodeChar_hexDigit :
    ∀ k, k < 16 → String.utf8EncodeChar (Bytes.hexDigit k) = [hexOf k] := by decide

theorem isHex_hexOf : ∀ k, k < 16 → isHex (hexOf k) = true := by decide

theorem hexOctet_hexOf : ∀ k, k < 16 → hexOctet (hexOf k) = k := by decide

theorem spelling_control (hc : c.toNat < 32) :
    Spelling c ('\\' :: 'u' :: '0' :: '0' ::
      Bytes.hexDigit (c.toNat / 16) :: [Bytes.hexDigit (c.toNat % 16)]
      |>.flatMap String.utf8EncodeChar) := by
  have h1 : c.toNat / 16 < 16 := by omega
  have h2 : c.toNat % 16 < 16 := by omega
  have hn : codeUnit Ascii.zero Ascii.zero (hexOf (c.toNat / 16)) (hexOf (c.toNat % 16)) =
      c.toNat := by
    rw [codeUnit, hexOctet_hexOf _ h1, hexOctet_hexOf _ h2, show hexOctet Ascii.zero = 0 by decide]
    omega
  simp only [List.flatMap_cons, List.flatMap_nil, utf8EncodeChar_hexDigit _ h1,
    utf8EncodeChar_hexDigit _ h2]
  refine .long (a := Ascii.zero) (b := Ascii.zero) ?_ (by omega) (by rw [hn, utf8_toNat])
  simp only [isHex_hexOf _ h1, isHex_hexOf _ h2]
  rfl

theorem isPlain_ofNat : ∀ k, k < 128 → 32 ≤ k → k ≠ 34 → k ≠ 92 → IsPlain (UInt8.ofNat k) := by
  decide

theorem isPlain_of_mem (h32 : 32 ≤ c.toNat) (hq : c ≠ '"') (hb : c ≠ '\\')
    (hx : x ∈ String.utf8EncodeChar c) : IsPlain x := by
  by_cases hc : c.toNat < 128
  · rw [Bytes.utf8EncodeChar_ascii hc, List.mem_singleton] at hx
    subst hx
    refine isPlain_ofNat _ hc h32 (fun h => hq ?_) (fun h => hb ?_) <;> rw [← Char.ofNat_toNat c, h]
  · have := Bytes.le_of_mem_utf8EncodeChar (by omega) hx
    refine ⟨UInt8.le_trans (by decide) this, ?_, ?_⟩ <;> (rintro rfl; revert this; decide)

/-- Every character is spelled out in a way that reads back as itself. -/
theorem spelling_escape (c : Char) : Spelling c ((escape c).flatMap String.utf8EncodeChar) := by
  rw [escape]
  split
  · rename_i h
    subst h
    exact .short (x := Ascii.quote) (y := Ascii.quote) rfl rfl
  split
  · rename_i h
    subst h
    exact .short (x := Ascii.backslash) (y := Ascii.backslash) rfl rfl
  split
  · rename_i h
    exact .short (x := Ascii.lowerB) (y := 8) rfl
      (by rw [Bytes.utf8EncodeChar_ascii (by omega), h]; rfl)
  split
  · rename_i h
    exact .short (x := Ascii.lowerF) (y := 12) rfl
      (by rw [Bytes.utf8EncodeChar_ascii (by omega), h]; rfl)
  split
  · rename_i h
    subst h
    exact .short (x := Ascii.lowerN) (y := 10) rfl rfl
  split
  · rename_i h
    subst h
    exact .short (x := Ascii.lowerR) (y := 13) rfl rfl
  split
  · rename_i h
    subst h
    exact .short (x := Ascii.lowerT) (y := 9) rfl rfl
  split
  · rename_i h
    exact spelling_control h
  · rename_i hq hb _ _ _ _ _ h
    rw [List.flatMap_singleton]
    exact .plain fun x => isPlain_of_mem (by omega) hq hb

theorem Spelling.skipString (h : Spelling c p) : skipString (p ++ r) = skipString r := by
  cases h with
  | plain h => exact skipString_append_plain h
  | @short x y hx hc =>
    have hu : x ≠ Ascii.lowerU := by
      rintro rfl
      cases hx
    show Json.skipString (Ascii.backslash :: x :: r) = _
    rw [skipString_escape hu, hx]
    rfl
  | @long a b d e hh hn hc =>
    show Json.skipString (Ascii.backslash :: Ascii.lowerU :: a :: b :: d :: e :: r) = _
    rw [skipString_unicode, if_pos hh]

/-- The spelling of a character is read as the octets of the character. -/
theorem Spelling.readString (h : Spelling c p) :
    readString (p ++ r) = (readString r).map fun q => (String.utf8EncodeChar c ++ q.1, q.2) := by
  cases h with
  | plain h => exact readString_append_plain h
  | @short x y hx hc => rw [hc]; exact readString_escape hx
  | @long a b d e hh hn hc => rw [← hc]; exact readString_unicode hh hn

/-- The octets of a quoted string, between its quotes. -/
def quoted (s : String) : Bytes :=
  s.toList.flatMap fun c => (escape c).flatMap String.utf8EncodeChar

theorem ofString_quote : Bytes.ofString (quote s) = Ascii.quote :: (quoted s ++ [Ascii.quote]) := by
  rw [quote, Bytes.ofString_ofList, List.flatMap_append, List.flatMap_cons, List.flatMap_assoc]
  rfl

theorem skipString_quoted : skipString (quoted s ++ Ascii.quote :: r) = some r := by
  rw [quoted]
  induction s.toList with
  | nil => rfl
  | cons c cs ih => rw [List.flatMap_cons, List.append_assoc, (spelling_escape c).skipString, ih]

theorem readString_quoted :
    readString (quoted s ++ Ascii.quote :: r) = some (Bytes.ofString s, r) := by
  rw [quoted, Bytes.ofString_eq]
  induction s.toList with
  | nil => rfl
  | cons c cs ih =>
    rw [List.flatMap_cons, List.append_assoc, (spelling_escape c).readString, ih]
    rfl

/-- A text that was quoted is read back as it was. -/
theorem string?_quote : string? (Bytes.ofString (quote s)) = some s := by
  rw [ofString_quote]
  rw [string?.eq_def]
  split
  · rename_i r hr
    cases hr
    rw [readString_quoted]
    exact Bytes.toString?_ofString
  · rename_i hr
    exact (hr _ rfl).elim

theorem isValue_quote : IsValue (Bytes.ofString (quote s)) := by
  rw [ofString_quote, IsValue]
  exact skipString_quoted

end Switchboard.Json
