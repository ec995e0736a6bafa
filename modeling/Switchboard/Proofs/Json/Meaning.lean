import Switchboard.Proofs.Json.Grammar

/-! What the text of a string says, and what an integer's text says: reading finds that and nothing
else. -/
namespace Switchboard.Json

variable {b o r v : Bytes} {c i j k l : UInt8} {s : String} {n : Int}

/-! Strings. -/

/-- The characters between the quotes of a string, and the octets that they stand for. Code units of
a surrogate pair come together. -/
inductive Spells : Bytes → Bytes → Prop
  | nil : Spells [] []
  | plain {c : UInt8} {b o : Bytes} (hc : IsPlain c) (h : Spells b o) : Spells (c :: b) (c :: o)
  | escape {c x : UInt8} {b o : Bytes} (hc : escaped? c = some x) (h : Spells b o) :
    Spells (Ascii.backslash :: c :: b) (x :: o)
  | unicode {i j k l : UInt8} {b o : Bytes}
    (hx : (isHex i && isHex j && isHex k && isHex l) = true)
    (hl : isLeadSurrogate (codeUnit i j k l) = false)
    (ht : isTrailSurrogate (codeUnit i j k l) = false) (h : Spells b o) :
    Spells (Ascii.backslash :: Ascii.lowerU :: i :: j :: k :: l :: b)
      (utf8 (codeUnit i j k l) ++ o)
  | pair {i j k l e f g h : UInt8} {b o : Bytes}
    (hx : (isHex i && isHex j && isHex k && isHex l) = true)
    (hl : isLeadSurrogate (codeUnit i j k l) = true)
    (hy : (isHex e && isHex f && isHex g && isHex h) = true)
    (ht : isTrailSurrogate (codeUnit e f g h) = true) (hs : Spells b o) :
    Spells (Ascii.backslash :: Ascii.lowerU :: i :: j :: k :: l ::
        Ascii.backslash :: Ascii.lowerU :: e :: f :: g :: h :: b)
      (utf8 (0x10000 + (codeUnit i j k l - 0xD800) * 1024 + (codeUnit e f g h - 0xDC00)) ++ o)

/-- The text of a string value that says `s`. -/
inductive Says (s : String) : Bytes → Prop
  | mk {b : Bytes} (h : Spells b (Bytes.ofString s)) :
    Says s (Ascii.quote :: (b ++ [Ascii.quote]))

theorem lead_not_trail {m : Nat} (h : isLeadSurrogate m = true) : isTrailSurrogate m = false := by
  simp only [isLeadSurrogate, isTrailSurrogate, Bool.and_eq_true, decide_eq_true_eq,
    Bool.and_eq_false_iff, decide_eq_false_iff_not] at *
  omega

theorem readString_unit (hx : (isHex i && isHex j && isHex k && isHex l) = true)
    (hl : isLeadSurrogate (codeUnit i j k l) = false)
    (ht : isTrailSurrogate (codeUnit i j k l) = false) :
    readString (Ascii.backslash :: Ascii.lowerU :: i :: j :: k :: l :: r) =
      (readString r).map fun q => (utf8 (codeUnit i j k l) ++ q.1, q.2) := by
  rw [readString.eq_def]
  split
  · rename_i h'; cases h'
  · rename_i h'; cases h'
  · rename_i h'
    cases h'
    rw [if_neg (by simp [hx, ht]), if_neg (by simp [hl])]
  · rename_i h1 h2; cases h2; exact (h1 _ _ _ _ _ rfl rfl).elim
  · rename_i h1 h2; cases h2; exact (h1 _ _ rfl rfl).elim

theorem readString_pair {e f g h : UInt8}
    (hx : (isHex i && isHex j && isHex k && isHex l) = true)
    (hl : isLeadSurrogate (codeUnit i j k l) = true)
    (hy : (isHex e && isHex f && isHex g && isHex h) = true)
    (ht : isTrailSurrogate (codeUnit e f g h) = true) :
    readString (Ascii.backslash :: Ascii.lowerU :: i :: j :: k :: l ::
        Ascii.backslash :: Ascii.lowerU :: e :: f :: g :: h :: r) =
      (readString r).map fun q =>
        (utf8 (0x10000 + (codeUnit i j k l - 0xD800) * 1024 + (codeUnit e f g h - 0xDC00)) ++ q.1,
          q.2) := by
  rw [readString.eq_def]
  split
  · rename_i h'; cases h'
  · rename_i h'; cases h'
  · rename_i h'
    cases h'
    rw [if_neg (by simp [hx, lead_not_trail hl]), if_pos hl]
    exact if_pos (by simp [hy, ht])
  · rename_i h1 h2; cases h2; exact (h1 _ _ _ _ _ rfl rfl).elim
  · rename_i h1 h2; cases h2; exact (h1 _ _ rfl rfl).elim

theorem Spells.readString (h : Spells b o) :
    readString (b ++ Ascii.quote :: r) = some (o, r) := by
  induction h with
  | nil => rfl
  | plain hc _ ih => rw [List.cons_append, readString_plain hc, ih, Option.map_some]
  | escape hc _ ih =>
    rw [List.cons_append, List.cons_append, readString_escape hc, ih, Option.map_some]
  | unicode hx hl ht _ ih =>
    simp only [List.cons_append]
    rw [readString_unit hx hl ht, ih, Option.map_some]
  | pair hx hl hy ht _ ih =>
    simp only [List.cons_append]
    rw [readString_pair hx hl hy ht, ih, Option.map_some]

theorem exists_read_behind {q : Bytes}
    (h : (readString b).map (fun (s, r) => (q ++ s, r)) = some (o, r)) :
    ∃ e, readString b = some (e, r) ∧ o = q ++ e := by
  obtain ⟨⟨e, t⟩, hr, he⟩ := Option.map_eq_some_iff.1 h
  cases he
  exact ⟨e, hr, rfl⟩

theorem exists_spells (h : readString b = some (o, r)) :
    ∃ p, Spells p o ∧ b = p ++ Ascii.quote :: r := by
  fun_induction readString b generalizing o with
  | case1 | case3 | case5 | case6 | case9 | case10 => cases h
  | case2 b =>
    cases h
    exact ⟨[], .nil, rfl⟩
  | case4 =>
    rename_i i j k l n hx hl e f g q b m hy ih
    obtain ⟨o, hr, ho⟩ := exists_read_behind h
    obtain ⟨p, hp, rfl⟩ := ih hr
    simp only [Bool.or_eq_true, Bool.not_eq_true', not_or, Bool.not_eq_false] at hx
    rw [Bool.and_eq_true] at hy
    rw [ho]
    exact ⟨_, .pair hx.1 hl hy.1 hy.2 hp, rfl⟩
  | case7 =>
    rename_i i j k l b n hx hl ih
    obtain ⟨o, hr, rfl⟩ := exists_read_behind h
    obtain ⟨p, hp, rfl⟩ := ih hr
    simp only [Bool.or_eq_true, Bool.not_eq_true', not_or, Bool.not_eq_false] at hx
    exact ⟨_, .unicode hx.1 (Bool.not_eq_true _ ▸ hl) (Bool.not_eq_true _ ▸ hx.2) hp, rfl⟩
  | case8 c b _ x hc ih =>
    obtain ⟨o, hr, rfl⟩ := exists_read_behind (q := [x]) h
    obtain ⟨p, hp, rfl⟩ := ih hr
    exact ⟨_, .escape hc hp, rfl⟩
  | case11 c b hq _ _ hc ih =>
    obtain ⟨o, hr, rfl⟩ := exists_read_behind (q := [c]) h
    obtain ⟨p, hp, rfl⟩ := ih hr
    simp only [Bool.or_eq_true, decide_eq_true_eq, beq_iff_eq, not_or, UInt8.not_lt] at hc
    exact ⟨_, .plain ⟨hc.1, fun h => hq h, hc.2⟩ hp, rfl⟩

theorem string?_cons_quote : string? (Ascii.quote :: b) =
    match readString b with
    | some (s, []) => s.toString?
    | _ => none := rfl

theorem string?_eq_some_iff : string? v = some s ↔ Says s v := by
  constructor
  · intro h
    rw [string?.eq_def] at h
    split at h
    · split at h
      · rename_i o ho
        obtain ⟨p, hp, rfl⟩ := exists_spells ho
        have ht := Bytes.ofString_of_toString? h
        exact .mk (ht ▸ hp)
      · cases h
    · cases h
  · intro h
    cases h with
    | @mk b h =>
      rw [string?_cons_quote, h.readString]
      exact Bytes.toString?_ofString

/-! Integers. -/

/-- The number that a text of digits tells. -/
def digitsValue (b : Bytes) : Nat := b.foldl (fun k x => k * 10 + Number.digit x) 0

theorem exists_digitChar (hc : isDigit c = true) :
    ∃ d, d < 10 ∧ c = digitOctet d.digitChar ∧ Number.digit c = d := by
  have hdigits : ∀ d, d < 10 → UInt8.ofNat (48 + d) = digitOctet d.digitChar ∧
      Number.digit (UInt8.ofNat (48 + d)) = d := by decide
  simp only [isDigit, Bool.and_eq_true, decide_eq_true_eq, UInt8.le_iff_toNat_le] at hc
  obtain ⟨hge, hle⟩ := hc
  have hge : 48 ≤ c.toNat := hge
  have hle : c.toNat ≤ 57 := hle
  have hcd : UInt8.ofNat (48 + (c.toNat - 48)) = c := by
    rw [Nat.add_sub_cancel' hge, UInt8.ofNat_toNat]
  obtain ⟨hchar, hvalue⟩ := hdigits (c.toNat - 48) (by omega)
  rw [hcd] at hchar hvalue
  exact ⟨c.toNat - 48, by omega, hchar, hvalue⟩

/-- Digits without a leading zero are those that their number is written with. -/
theorem numeral_digitsValue (hd : Digits b) (h0 : b.head? ≠ some Ascii.zero) :
    numeral (digitsValue b) = b ∧ digitsValue b ≠ 0 := by
  obtain ⟨hne, hd⟩ := hd
  induction b using List.reverseRecOn with
  | nil => exact absurd rfl hne
  | append_singleton b c ih =>
    have hc : isDigit c = true := hd c (List.mem_append_right _ List.mem_cons_self)
    obtain ⟨d, hlt, hchar, hdigit⟩ := exists_digitChar hc
    have hvalue : digitsValue (b ++ [c]) = digitsValue b * 10 + d := by
      rw [digitsValue, List.foldl_append, ← hdigit]
      rfl
    rw [hvalue]
    cases b with
    | nil =>
      have hpos : d ≠ 0 := by
        rintro rfl
        exact h0 (by rw [hchar]; rfl)
      refine ⟨?_, by simpa [digitsValue] using hpos⟩
      rw [numeral, digitsValue, List.foldl_nil, Nat.zero_mul, Nat.zero_add,
        Nat.toDigits_of_lt_base hlt, hchar]
      rfl
    | cons x b =>
      have hhead : (x :: b).head? ≠ some Ascii.zero := h0
      obtain ⟨hnumeral, hpos⟩ := ih hhead (List.cons_ne_nil _ _)
        fun y hy => hd y (List.mem_append_left _ hy)
      refine ⟨?_, by omega⟩
      have hdiv : (digitsValue (x :: b) * 10 + d) / 10 = digitsValue (x :: b) := by omega
      have hmod : (digitsValue (x :: b) * 10 + d) % 10 = d := by omega
      rw [numeral, Nat.toDigits_of_base_le (by decide) (by omega), hdiv, hmod, List.map_append]
      rw [numeral] at hnumeral
      rw [hnumeral, List.map_singleton, ← hchar]

theorem Magnitude.eq_numeral (h : Magnitude b) (hd : ∀ c ∈ b, isDigit c = true) :
    numeral (digitsValue b) = b := by
  have none_behind {f : Bytes} (hf : Fraction f) (hall : ∀ c ∈ f, isDigit c = true) : f = [] := by
    cases f with
    | nil => rfl
    | cons c f =>
      have hc := hall c List.mem_cons_self
      rw [hf.head c rfl] at hc
      cases hc
  cases h with
  | zero hf =>
    rw [none_behind hf fun c hc => hd c (List.mem_cons_of_mem _ hc)]
    rfl
  | digits hb h0 hf =>
    rw [none_behind hf fun c hc => hd c (List.mem_append_right _ hc), List.append_nil]
    exact (numeral_digitsValue hb h0).1

theorem nat?_eq_some_iff {m : Nat} :
    int?.nat? b = some m ↔ Digits b ∧ m = digitsValue b := by
  unfold int?.nat?
  split
  · rename_i h
    simp only [Bool.or_eq_true, List.isEmpty_iff, Bool.not_eq_true', List.all_eq_false] at h
    refine ⟨nofun, ?_⟩
    rintro ⟨⟨hne, hd⟩, -⟩
    rcases h with rfl | ⟨c, hc, hn⟩
    · exact absurd rfl hne
    · exact absurd (hd c hc) hn
  · rename_i h
    simp only [Bool.or_eq_true, List.isEmpty_iff, Bool.not_eq_true', not_or, Bool.not_eq_false,
      List.all_eq_true] at h
    simp only [Option.some.injEq, digitsValue, Digits, h.1, ne_eq, not_false_eq_true, true_and]
    constructor
    · rintro rfl
      exact ⟨h.2, rfl⟩
    · rintro ⟨-, rfl⟩
      rfl

theorem Numeral.of_minus (h : Numeral (Ascii.minus :: r)) : Magnitude r := by
  generalize hb : Ascii.minus :: r = b at h
  cases h with
  | plain h =>
    obtain ⟨c, s, rfl, hc⟩ := h.head
    cases hb
    cases hc
  | minus h =>
    cases hb
    exact h

theorem Numeral.of_ne (h : Numeral (c :: r)) (hc : c ≠ Ascii.minus) : Magnitude (c :: r) := by
  cases h with
  | plain h => exact h
  | minus h => exact absurd rfl hc

theorem exists_word_cons {w : String} (hw : w = "null" ∨ w = "true" ∨ w = "false") :
    ∃ c r, Bytes.ofString w = c :: r ∧
      (c = Ascii.lowerN ∨ c = Ascii.lowerT ∨ c = Ascii.lowerF) := by
  rcases hw with rfl | rfl | rfl
  · exact ⟨Ascii.lowerN, Bytes.ofString "ull", by decide, by decide⟩
  · exact ⟨Ascii.lowerT, Bytes.ofString "rue", by decide, by decide⟩
  · exact ⟨Ascii.lowerF, Bytes.ofString "alse", by decide, by decide⟩

/-- Only numbers begin with a digit or a minus. -/
theorem Derives.numeral (h : Derives .value (c :: r)) (hc : c = Ascii.minus ∨ isDigit c = true) :
    Numeral (c :: r) := by
  generalize hv : c :: r = v at h
  cases h with
  | number h => exact h
  | word hw =>
    obtain ⟨d, s, hs, hd⟩ := exists_word_cons hw
    obtain ⟨rfl, -⟩ := List.cons.inj (hv.trans hs)
    rcases hd with rfl | rfl | rfl <;> rcases hc with hc | hc <;> cases hc
  | string | emptyArray | array | emptyObject | object =>
    obtain ⟨rfl, -⟩ := List.cons.inj hv
    rcases hc with hc | hc <;> cases hc

/-- An integer is read of the text that it is written as, and of no other value. -/
theorem int?_eq_some_iff (hv : Derives .value v) :
    int? v = some n ↔ v = Bytes.ofString (toString n) := by
  constructor
  · intro h
    rw [ofString_toString_int]
    rw [int?.eq_def] at h
    split at h
    · rename_i r
      obtain ⟨m, hm, h⟩ := Option.bind_eq_some_iff.1 h
      obtain ⟨hd, rfl⟩ := nat?_eq_some_iff.1 hm
      split at h
      · cases h
      · rename_i h0
        cases h
        have hmag : Magnitude r := (hv.numeral (.inl rfl)).of_minus
        rw [if_neg (by omega), Int.neg_neg, Int.toNat_natCast, hmag.eq_numeral hd.2]
        rfl
    · rename_i hminus
      obtain ⟨m, hm, rfl⟩ := Option.map_eq_some_iff.1 h
      obtain ⟨hd, rfl⟩ := nat?_eq_some_iff.1 hm
      obtain ⟨c, r, rfl⟩ := List.exists_cons_of_ne_nil hd.1
      have hne : c ≠ Ascii.minus := by
        rintro rfl
        exact hminus _ rfl
      have hmag := (hv.numeral (.inr (hd.2 c List.mem_cons_self))).of_ne hne
      have hnumeral := hmag.eq_numeral hd.2
      exact hnumeral.symm.trans (if_pos (Int.natCast_nonneg _)).symm
  · rintro rfl
    exact int?_toString n

end Switchboard.Json
