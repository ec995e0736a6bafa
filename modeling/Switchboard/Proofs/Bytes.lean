import Switchboard.Bytes

/-! The octets of a text, character by character, and numbers of four octets. -/
namespace Switchboard.Bytes

variable {s t : String} {b : Bytes} {c : Char} {cs : List Char} {x : UInt8} {n : Nat}

theorem ofString_ofList : ofString (String.ofList cs) = cs.flatMap String.utf8EncodeChar := by
  simp only [ofString, String.toUTF8_eq_toByteArray, String.toByteArray_ofList, List.utf8Encode]
  exact List.toList_data_toByteArray

theorem ofString_eq : ofString s = s.toList.flatMap String.utf8EncodeChar := by
  rw [← ofString_ofList, String.ofList_toList]

@[simp] theorem ofString_append : ofString (s ++ t) = ofString s ++ ofString t := by
  simp [ofString_eq]

theorem isText_ofString : (toString? (ofString s)).isSome := by simp

/-- No octet of a character outside ASCII is in ASCII. -/
theorem le_of_mem_utf8EncodeChar (hc : 128 ≤ c.toNat) (hx : x ∈ String.utf8EncodeChar c) :
    128 ≤ x := by
  have hle : ∀ k, k < 256 → 128 ≤ k → (128 : UInt8) ≤ UInt8.ofNat k := by
    intro k hk h
    rw [UInt8.le_iff_toNat_le, UInt8.toNat_ofNat_of_lt' (by simpa using hk)]
    exact h
  have hv : c.val.toNat = c.toNat := rfl
  rw [String.utf8EncodeChar] at hx
  simp only [hv] at hx
  split at hx
  · omega
  · split at hx
    · simp only [List.mem_cons, List.not_mem_nil, or_false] at hx
      rcases hx with rfl | rfl <;> exact hle _ (by omega) (by omega)
    · split at hx
      · simp only [List.mem_cons, List.not_mem_nil, or_false] at hx
        rcases hx with rfl | rfl | rfl <;> exact hle _ (by omega) (by omega)
      · simp only [List.mem_cons, List.not_mem_nil, or_false] at hx
        rcases hx with rfl | rfl | rfl | rfl <;> exact hle _ (by omega) (by omega)

theorem utf8EncodeChar_ascii (hc : c.toNat < 128) :
    String.utf8EncodeChar c = [UInt8.ofNat c.toNat] := by
  have hv : c.val.toNat = c.toNat := rfl
  rw [String.utf8EncodeChar, if_pos (by omega), hv]

/-- What is left of a text without the ASCII octet at its front. -/
theorem exists_ofString_of_cons (hx : x < 128) (h : ofString s = x :: b) :
    ∃ t, ofString t = b := by
  rw [ofString_eq] at h
  cases hs : s.toList with
  | nil =>
    rw [hs] at h
    cases h
  | cons c cs =>
    rw [hs, List.flatMap_cons] at h
    by_cases hc : c.toNat < 128
    · rw [utf8EncodeChar_ascii hc] at h
      exact ⟨String.ofList cs, ofString_ofList.trans (List.cons.inj h).2⟩
    · obtain ⟨y, r, hy⟩ := List.exists_cons_of_ne_nil (String.utf8EncodeChar_ne_nil (c := c))
      rw [hy] at h
      have hle := le_of_mem_utf8EncodeChar (Nat.not_lt.1 hc) (hy ▸ List.mem_cons_self)
      rw [(List.cons.inj h).1] at hle
      exact absurd hx (UInt8.not_lt.2 hle)

/-- What is left of a text without the ASCII octet at its end. -/
theorem exists_ofString_of_concat (hx : x < 128) (h : ofString s = b ++ [x]) :
    ∃ t, ofString t = b := by
  rw [ofString_eq] at h
  rcases List.eq_nil_or_concat s.toList with hs | ⟨cs, c, hs⟩
  · rw [hs] at h
    cases b <;> cases h
  · rw [hs, List.concat_eq_append, List.flatMap_append, List.flatMap_singleton] at h
    by_cases hc : c.toNat < 128
    · rw [utf8EncodeChar_ascii hc] at h
      exact ⟨String.ofList cs, ofString_ofList.trans (List.append_inj_left' h rfl)⟩
    · rcases List.eq_nil_or_concat (String.utf8EncodeChar c) with hy | ⟨r, y, hy⟩
      · exact absurd hy String.utf8EncodeChar_ne_nil
      · rw [List.concat_eq_append] at hy
        rw [hy, ← List.append_assoc] at h
        have hmem : y ∈ String.utf8EncodeChar c := by simp [hy]
        have hle := le_of_mem_utf8EncodeChar (Nat.not_lt.1 hc) hmem
        have hyx : y = x := (List.cons.inj (List.append_inj' h rfl).2).1
        rw [hyx] at hle
        exact absurd hx (UInt8.not_lt.2 hle)

theorem length_ofString_le : (ofString s).length ≤ 4 * s.length := by
  rw [ofString_eq, ← String.length_toList]
  induction s.toList with
  | nil => simp
  | cons c cs ih =>
    have hc := c.utf8Size_le_four
    rw [List.flatMap_cons, List.length_append, String.length_utf8EncodeChar, List.length_cons]
    omega

/-- How many numbers four octets tell apart. -/
def words : Nat := 4294967296

/-- The decimal digits of a machine word are few. -/
theorem length_ofString_toString (n : UInt64) : (ofString (toString n.toNat)).length < words := by
  unfold words
  have hn : n.toNat < 10 ^ 20 := Nat.lt_trans n.toNat_lt (by decide)
  have hl : (toString n.toNat).length ≤ 20 := (Nat.length_repr_le_iff (by decide)).2 hn
  have := length_ofString_le (s := toString n.toNat)
  omega

theorem toString_ne_empty {n : Nat} : toString n ≠ "" := by
  intro h
  have hl : 0 < (toString n).length := Nat.length_repr_pos
  rw [h] at hl
  cases hl

/-- A number that fits a word is read back from its octets. -/
theorem word32_be32 (hn : n < words) :
    word32 (UInt8.ofNat (n / 16777216)) (UInt8.ofNat (n / 65536)) (UInt8.ofNat (n / 256))
      (UInt8.ofNat n) = n := by
  simp only [word32, UInt8.toNat_ofNat', words] at *
  omega

/-- Four octets are read back from their number. -/
theorem be32_word32 {w x y z : UInt8} : be32 (word32 w x y z) = [w, x, y, z] := by
  have hw := w.toNat_lt
  have hx := x.toNat_lt
  have hy := y.toNat_lt
  have hz := z.toNat_lt
  simp only [be32, word32, List.cons.injEq, and_true, ← UInt8.toNat_inj, UInt8.toNat_ofNat']
  omega

theorem word32_lt {w x y z : UInt8} : word32 w x y z < words := by
  have hw := w.toNat_lt
  have hx := x.toNat_lt
  have hy := y.toNat_lt
  have hz := z.toNat_lt
  unfold word32 words
  omega

end Switchboard.Bytes
