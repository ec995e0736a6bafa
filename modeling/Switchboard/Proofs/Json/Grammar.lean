import Mathlib.Data.List.DropRight
import Switchboard.Proofs.Json.Number
import Switchboard.Proofs.Json.Record

/-! The grammar of JSON: what it derives is what is read, and a document is read without the blanks
around it. -/
namespace Switchboard.Json

def Blank (b : Bytes) : Prop := ∀ c ∈ b, isSpace c = true

def Digits (b : Bytes) : Prop := b ≠ [] ∧ ∀ c ∈ b, isDigit c = true

/-- The characters between the quotes of a string. -/
inductive Characters : Bytes → Prop
  | nil : Characters []
  | plain {c : UInt8} {r : Bytes} (hc : IsPlain c) (h : Characters r) : Characters (c :: r)
  | escape {c : UInt8} {r : Bytes} (hc : (escaped? c).isSome) (h : Characters r) :
    Characters (Ascii.backslash :: c :: r)
  | unicode {i j k l : UInt8} {r : Bytes}
    (hx : (isHex i && isHex j && isHex k && isHex l) = true) (h : Characters r) :
    Characters (Ascii.backslash :: Ascii.lowerU :: i :: j :: k :: l :: r)

inductive Exponent : Bytes → Prop
  | none : Exponent []
  | plain {c : UInt8} {b : Bytes} (hc : c = Ascii.lowerE ∨ c = Ascii.upperE) (hd : Digits b) :
    Exponent (c :: b)
  | signed {c s : UInt8} {b : Bytes} (hc : c = Ascii.lowerE ∨ c = Ascii.upperE)
    (hs : s = Ascii.plus ∨ s = Ascii.minus) (hd : Digits b) : Exponent (c :: s :: b)

/-- What follows the integer digits of a number. -/
inductive Fraction : Bytes → Prop
  | none {b : Bytes} (he : Exponent b) : Fraction b
  | point {b r : Bytes} (hd : Digits b) (he : Exponent r) : Fraction (Ascii.dot :: (b ++ r))

/-- A number without its sign: no zero comes before another digit. -/
inductive Magnitude : Bytes → Prop
  | zero {b : Bytes} (hf : Fraction b) : Magnitude (Ascii.zero :: b)
  | digits {b r : Bytes} (hd : Digits b) (h0 : b.head? ≠ some Ascii.zero) (hf : Fraction r) :
    Magnitude (b ++ r)

inductive Numeral : Bytes → Prop
  | plain {b : Bytes} (h : Magnitude b) : Numeral b
  | minus {b : Bytes} (h : Magnitude b) : Numeral (Ascii.minus :: b)

/-- A member of an object up to its value. -/
inductive Key : Bytes → Prop
  | mk {s a b : Bytes} (hs : Characters s) (ha : Blank a) (hb : Blank b) :
    Key (Ascii.quote :: (s ++ Ascii.quote :: (a ++ Ascii.colon :: b)))

inductive Part
  | value
  | items
  | members

/-- The texts of values, and of what stands between brackets and between braces. -/
inductive Derives : Part → Bytes → Prop
  | word {w : String} (hw : w = "null" ∨ w = "true" ∨ w = "false") :
    Derives .value (Bytes.ofString w)
  | number {v : Bytes} (h : Numeral v) : Derives .value v
  | string {s : Bytes} (h : Characters s) : Derives .value (Ascii.quote :: (s ++ [Ascii.quote]))
  | emptyArray {a : Bytes} (ha : Blank a) :
    Derives .value (Ascii.openBracket :: (a ++ [Ascii.closeBracket]))
  | array {a b : Bytes} (ha : Blank a) (h : Derives .items b) :
    Derives .value (Ascii.openBracket :: (a ++ (b ++ [Ascii.closeBracket])))
  | emptyObject {a : Bytes} (ha : Blank a) :
    Derives .value (Ascii.openBrace :: (a ++ [Ascii.closeBrace]))
  | object {a b : Bytes} (ha : Blank a) (h : Derives .members b) :
    Derives .value (Ascii.openBrace :: (a ++ (b ++ [Ascii.closeBrace])))
  | item {v a : Bytes} (hv : Derives .value v) (ha : Blank a) : Derives .items (v ++ a)
  | items {v a b r : Bytes} (hv : Derives .value v) (ha : Blank a) (hb : Blank b)
    (h : Derives .items r) : Derives .items (v ++ (a ++ Ascii.comma :: (b ++ r)))
  | member {k v a : Bytes} (hk : Key k) (hv : Derives .value v) (ha : Blank a) :
    Derives .members (k ++ (v ++ a))
  | members {k v a b r : Bytes} (hk : Key k) (hv : Derives .value v) (ha : Blank a) (hb : Blank b)
    (h : Derives .members r) : Derives .members (k ++ (v ++ (a ++ Ascii.comma :: (b ++ r))))

/-- One value with blanks around it. -/
def IsDocument (b : Bytes) : Prop :=
  ∃ a v p, b = a ++ (v ++ p) ∧ Blank a ∧ Derives .value v ∧ Blank p

/-- A text without the blanks around it. -/
def trim (b : Bytes) : Bytes := (skipSpace b).rdropWhile isSpace

variable {a b p r s v x : Bytes} {c : UInt8} {n : Nat}

/-! Blanks. -/

theorem isSpace_cases (hc : isSpace c = true) :
    c = Ascii.space ∨ c = Ascii.newline ∨ c = Ascii.tab ∨ c = Ascii.carriage := by
  simpa [isSpace, or_assoc] using hc

theorem isSpace_of_isDigit (hc : isDigit c = true) : isSpace c = false := by
  rw [← Bool.not_eq_true]
  intro hs
  rcases isSpace_cases hs with rfl | rfl | rfl | rfl <;> cases hc

theorem exists_blank (b : Bytes) : ∃ a, Blank a ∧ b = a ++ skipSpace b := by
  refine ⟨b.takeWhile isSpace, ?_, List.takeWhile_append_dropWhile.symm⟩
  intro c hc
  exact List.mem_takeWhile_imp hc

theorem exists_blank_cons (h : skipSpace b = c :: r) : ∃ a, Blank a ∧ b = a ++ c :: r := by
  obtain ⟨a, ha, hb⟩ := exists_blank b
  exact ⟨a, ha, h ▸ hb⟩

theorem Blank.skipSpace (ha : Blank a) : skipSpace (a ++ b) = skipSpace b := by
  induction a with
  | nil => rfl
  | cons c a ih =>
    have hc := ha c List.mem_cons_self
    rw [List.cons_append, Json.skipSpace, List.dropWhile_cons_of_pos hc]
    exact ih fun d hd => ha d (List.mem_cons_of_mem _ hd)

theorem Blank.skipSpace_cons (ha : Blank a) (hc : isSpace c = false) :
    Json.skipSpace (a ++ c :: b) = c :: b := by
  rw [ha.skipSpace, Json.skipSpace_cons hc]

theorem Blank.skipSpace_self (ha : Blank a) : Json.skipSpace a = [] := by
  have h := ha.skipSpace (b := [])
  rwa [List.append_nil] at h

theorem blank_of_skipSpace (h : Json.skipSpace b = []) : Blank b := by
  obtain ⟨a, ha, hb⟩ := exists_blank b
  rw [h, List.append_nil] at hb
  exact hb ▸ ha

theorem stops_of_isSpace (hc : isSpace c = true) : Stops (c :: b) := by
  rw [stops_cons]
  rcases isSpace_cases hc with rfl | rfl | rfl | rfl <;> decide

theorem Blank.stops (ha : Blank a) (hx : Stops x) : Stops (a ++ x) := by
  cases a with
  | nil => exact hx
  | cons c a => exact stops_of_isSpace (ha c List.mem_cons_self)

/-! Strings. -/

theorem Characters.skipString (h : Characters s) :
    skipString (s ++ Ascii.quote :: x) = some x := by
  induction h with
  | nil => rfl
  | plain hc _ ih => rw [List.cons_append, skipString_plain hc.1 hc.2.1 hc.2.2, ih]
  | @escape c r hc _ ih =>
    have hu : c ≠ Ascii.lowerU := by
      rintro rfl
      cases hc
    rw [List.cons_append, List.cons_append, skipString_escape hu, if_pos hc, ih]
  | unicode hx _ ih =>
    simp only [List.cons_append]
    rw [skipString_unicode, if_pos hx, ih]

/-- A string that is skipped ends at its quote, with characters before it. -/
theorem exists_characters (h : skipString b = some r) :
    ∃ s, Characters s ∧ b = s ++ Ascii.quote :: r := by
  fun_induction skipString b with
  | case1 => cases h
  | case2 b =>
    cases h
    exact ⟨[], .nil, rfl⟩
  | case3 i j k l b hx ih =>
    obtain ⟨s, hs, rfl⟩ := ih h
    exact ⟨_, .unicode hx hs, rfl⟩
  | case4 => cases h
  | case5 c b hu hc ih =>
    obtain ⟨s, hs, rfl⟩ := ih h
    have hesc : (escaped? c).isSome := by
      unfold escaped?
      grind
    exact ⟨_, .escape hesc hs, rfl⟩
  | case6 => cases h
  | case7 => cases h
  | case8 c b hq _ hb hc ih =>
    obtain ⟨s, hs, rfl⟩ := ih h
    simp only [Bool.or_eq_true, decide_eq_true_eq, beq_iff_eq, not_or, UInt8.not_lt] at hc
    exact ⟨_, .plain ⟨hc.1, fun h => hq h, hc.2⟩ hs, rfl⟩

/-! Numbers. -/

theorem exists_digits (h : skipDigits b = some r) : ∃ p, Digits p ∧ b = p ++ r := by
  cases b with
  | nil => cases h
  | cons c b =>
    rw [skipDigits] at h
    split at h
    · rename_i hc
      cases h
      refine ⟨c :: b.takeWhile isDigit, ⟨List.cons_ne_nil _ _, ?_⟩, ?_⟩
      · intro d hd
        rcases List.mem_cons.1 hd with rfl | hd
        · exact hc
        · exact List.mem_takeWhile_imp hd
      · rw [List.cons_append, List.takeWhile_append_dropWhile]
    · cases h

theorem exists_exponent (h : skipExponent b = some r) : ∃ p, Exponent p ∧ b = p ++ r := by
  cases b with
  | nil =>
    cases h
    exact ⟨[], .none, rfl⟩
  | cons c b =>
    simp only [skipExponent] at h
    split at h
    · rename_i hc
      have he : c = Ascii.lowerE ∨ c = Ascii.upperE := by simpa using hc
      split at h
      · obtain ⟨p, hp, rfl⟩ := exists_digits h
        exact ⟨_, .signed he (.inl rfl) hp, rfl⟩
      · obtain ⟨p, hp, rfl⟩ := exists_digits h
        exact ⟨_, .signed he (.inr rfl) hp, rfl⟩
      · obtain ⟨p, hp, rfl⟩ := exists_digits h
        exact ⟨_, .plain he hp, rfl⟩
    · cases h
      exact ⟨[], .none, rfl⟩

theorem exists_fraction (h : skipFraction b = some r) : ∃ p, Fraction p ∧ b = p ++ r := by
  rw [skipFraction.eq_def] at h
  split at h
  · obtain ⟨t, ht, he⟩ := Option.bind_eq_some_iff.1 h
    obtain ⟨p, hp, rfl⟩ := exists_digits ht
    obtain ⟨s, hs, rfl⟩ := exists_exponent he
    exact ⟨_, .point hp hs, congrArg (Ascii.dot :: ·) (List.append_assoc ..).symm⟩
  · obtain ⟨p, hp, rfl⟩ := exists_exponent h
    exact ⟨p, .none hp, rfl⟩

theorem exists_magnitude (h : skipMagnitude b = some r) : ∃ p, Magnitude p ∧ b = p ++ r := by
  rw [skipMagnitude.eq_def] at h
  split at h
  · split at h
    · cases h
    · obtain ⟨p, hp, rfl⟩ := exists_fraction h
      exact ⟨_, .zero hp, rfl⟩
  · rename_i hz
    obtain ⟨t, ht, hf⟩ := Option.bind_eq_some_iff.1 h
    obtain ⟨p, hp, rfl⟩ := exists_digits ht
    obtain ⟨s, hs, rfl⟩ := exists_fraction hf
    refine ⟨_, .digits hp ?_ hs, by simp⟩
    intro h0
    obtain ⟨q, rfl⟩ : ∃ q, p = Ascii.zero :: q := by
      cases p with
      | nil => cases h0
      | cons d q => exact ⟨q, by rw [Option.some.inj h0]⟩
    exact hz _ rfl

/-- A number that is skipped is a numeral. -/
theorem exists_numeral (h : skipNumber b = some r) : ∃ p, Numeral p ∧ b = p ++ r := by
  rw [skipNumber.eq_def] at h
  split at h
  · obtain ⟨p, hp, rfl⟩ := exists_magnitude h
    exact ⟨_, .minus hp, rfl⟩
  · obtain ⟨p, hp, rfl⟩ := exists_magnitude h
    exact ⟨p, .plain hp, rfl⟩

/-- Digits end where something else begins. -/
theorem Digits.skipDigits (hd : Digits b) (hr : ∀ c ∈ r.head?, isDigit c = false) :
    skipDigits (b ++ r) = some r := by
  obtain ⟨c, s, rfl⟩ := List.exists_cons_of_ne_nil hd.1
  have hs : s.dropWhile isDigit = [] :=
    dropWhile_isDigit fun d h => hd.2 d (List.mem_cons_of_mem _ h)
  have hrest : r.dropWhile isDigit = r := by
    cases r with
    | nil => rfl
    | cons d r => rw [List.dropWhile_cons_of_neg (by simp [hr d rfl])]
  rw [List.cons_append, Json.skipDigits, if_pos (hd.2 c List.mem_cons_self), List.dropWhile_append,
    hs]
  simp [hrest]

theorem Digits.skipDigits_self (hd : Digits b) : Json.skipDigits b = some [] :=
  skipDigits_digits hd.2 hd.1

theorem Exponent.head (h : Exponent b) : ∀ c ∈ b.head?, isDigit c = false ∧ c ≠ Ascii.dot := by
  intro c hc
  cases h with
  | none => cases hc
  | plain he _ | signed he _ _ =>
    cases hc
    rcases he with rfl | rfl <;> decide

theorem Exponent.skipExponent (h : Exponent b) : skipExponent b = some [] := by
  cases h with
  | none => rfl
  | @plain c b hc hd =>
    obtain ⟨d, s, rfl⟩ := List.exists_cons_of_ne_nil hd.1
    have hdigit := hd.2 d List.mem_cons_self
    simp only [Json.skipExponent]
    rw [if_pos (by simpa using hc)]
    split
    · rename_i hs
      cases hs
      cases hdigit
    · rename_i hs
      cases hs
      cases hdigit
    · exact hd.skipDigits_self
  | signed hc hy hd =>
    simp only [Json.skipExponent]
    rw [if_pos (by simpa using hc)]
    rcases hy with rfl | rfl
    · exact hd.skipDigits_self
    · exact hd.skipDigits_self

theorem Fraction.head (h : Fraction b) : ∀ c ∈ b.head?, isDigit c = false := by
  intro c hc
  cases h with
  | none he => exact (he.head c hc).1
  | point _ _ =>
    cases hc
    rfl

theorem Fraction.skipFraction (h : Fraction b) : skipFraction b = some [] := by
  cases h with
  | none he =>
    rw [skipFraction_of_ne, he.skipExponent]
    rintro s rfl
    exact (he.head _ rfl).2 rfl
  | @point b r hd he =>
    change (skipDigits (b ++ r)).bind skipExponent = _
    rw [hd.skipDigits fun c hc => (he.head c hc).1, Option.bind_some, he.skipExponent]

theorem Magnitude.skipMagnitude (h : Magnitude b) : skipMagnitude b = some [] := by
  cases h with
  | @zero b hf =>
    have hb : ¬ (b.head?.map isDigit).getD false = true := by
      have hhead := hf.head
      cases b with
      | nil => simp
      | cons c b => simp [hhead c rfl]
    change (if (b.head?.map isDigit).getD false = true then none else Json.skipFraction b) = _
    rw [if_neg hb, hf.skipFraction]
  | @digits b r hd h0 hf =>
    rw [skipMagnitude_of_ne, hd.skipDigits hf.head, Option.bind_some, hf.skipFraction]
    intro s hs
    obtain ⟨c, q, rfl⟩ := List.exists_cons_of_ne_nil hd.1
    cases hs
    exact h0 rfl

theorem Magnitude.head (h : Magnitude b) : ∃ c r, b = c :: r ∧ isDigit c = true := by
  cases h with
  | zero _ => exact ⟨_, _, rfl, rfl⟩
  | digits hd _ _ =>
    obtain ⟨c, q, rfl⟩ := List.exists_cons_of_ne_nil hd.1
    exact ⟨c, _, rfl, hd.2 c List.mem_cons_self⟩

theorem Numeral.isValue (h : Numeral b) : IsValue b := by
  cases h with
  | plain h =>
    obtain ⟨c, r, rfl, hc⟩ := h.head
    refine isValue_of_skipNumber ⟨c, r, rfl, .inr hc⟩ ?_
    rw [skipNumber.eq_def]
    split
    · rename_i hs
      cases hs
      cases hc
    · exact h.skipMagnitude
  | minus h => exact isValue_of_skipNumber ⟨_, _, rfl, .inl rfl⟩ h.skipMagnitude

/-! What is derived is read. -/

theorem Numeral.head (h : Numeral b) :
    ∃ c r, b = c :: r ∧ (c = Ascii.minus ∨ isDigit c = true) := by
  cases h with
  | plain h =>
    obtain ⟨c, r, hb, hc⟩ := h.head
    exact ⟨c, r, hb, .inr hc⟩
  | minus h => exact ⟨_, _, rfl, .inl rfl⟩

/-- Neither a value nor what stands between brackets or braces begins with a blank or with the end. -/
theorem Derives.head {q : Part} (h : Derives q b) : ∃ c r, b = c :: r ∧
    isSpace c = false ∧ c ≠ Ascii.closeBracket ∧ c ≠ Ascii.closeBrace := by
  induction h with
  | word hw =>
    rcases hw with rfl | rfl | rfl
    · exact ⟨Ascii.lowerN, Bytes.ofString "ull", by decide, by decide⟩
    · exact ⟨Ascii.lowerT, Bytes.ofString "rue", by decide, by decide⟩
    · exact ⟨Ascii.lowerF, Bytes.ofString "alse", by decide, by decide⟩
  | number h =>
    obtain ⟨c, r, rfl, hc⟩ := h.head
    rcases hc with rfl | hc
    · exact ⟨_, r, rfl, by decide⟩
    · refine ⟨c, r, rfl, isSpace_of_isDigit hc, ?_, ?_⟩
      · rintro rfl
        cases hc
      · rintro rfl
        cases hc
  | string | emptyArray | array | emptyObject | object => exact ⟨_, _, rfl, by decide⟩
  | item _ _ ih | items _ _ _ _ ih =>
    obtain ⟨c, r, rfl, hc⟩ := ih
    exact ⟨c, _, rfl, hc⟩
  | member hk _ _ _ | members hk _ _ _ _ _ _ =>
    cases hk
    exact ⟨_, _, rfl, by decide⟩

theorem Derives.skipSpace {q : Part} (h : Derives q b) : skipSpace (b ++ x) = b ++ x := by
  obtain ⟨c, r, rfl, hc, -⟩ := h.head
  exact Json.skipSpace_cons hc

theorem skipValue_object (hr : ∀ s, skipSpace r ≠ Ascii.closeBrace :: s) :
    skipValue (n + 1) (Ascii.openBrace :: r) = skipMembers n (skipSpace r) := by
  rw [skipValue, if_neg (by decide), if_neg (by decide), if_pos (by decide)]
  split
  · rename_i s hs
    exact absurd hs (hr s)
  · rfl

/-- A member is skipped by its key and its value. -/
theorem Key.skipMembers (hk : Key a) (hb : Json.skipSpace b = b)
    (hv : skipValue n b = some r) : skipMembers (n + 1) (a ++ b) = skipMemberEnd n r := by
  cases hk with
  | @mk s p q hs hp hq =>
    have hu : Json.skipSpace (p ++ Ascii.colon :: (q ++ b)) = Ascii.colon :: (q ++ b) :=
      hp.skipSpace_cons (by decide)
    have hv' : skipValue n (Json.skipSpace (q ++ b)) = some r := by rw [hq.skipSpace, hb, hv]
    simp only [List.cons_append, List.append_assoc]
    exact skipMembers_member hs.skipString hu hv'

theorem skipMemberEnd_closeBrace (ha : Blank a) :
    skipMemberEnd n (a ++ Ascii.closeBrace :: x) = some x := by
  simp only [skipMemberEnd, ha.skipSpace_cons (c := Ascii.closeBrace) (by decide)]
  rfl

theorem skipMemberEnd_comma (ha : Blank a) :
    skipMemberEnd n (a ++ Ascii.comma :: x) = skipMembers n (skipSpace x) := by
  simp only [skipMemberEnd, ha.skipSpace_cons (c := Ascii.comma) (by decide)]
  rfl

/-- How a part is read: with room in proportion to its length. -/
def Reads : Part → Bytes → Prop
  | .value, b => IsValue b
  | .items, b => ∀ n, 2 * b.length + 2 ≤ n → skipItems n (b ++ [Ascii.closeBracket]) = some []
  | .members, b => ∀ n, 2 * b.length + 2 ≤ n → skipMembers n (b ++ [Ascii.closeBrace]) = some []

theorem reads_item (hv : IsValue v) (ha : Blank a) : Reads .items (v ++ a) := by
  intro n hn
  obtain ⟨n, rfl⟩ : ∃ k, n = k + 1 := ⟨n - 1, by omega⟩
  rw [List.length_append] at hn
  rw [List.append_assoc, skipItems, hv.skipValue (ha.stops stops_closeBracket) (by omega)]
  simp only [ha.skipSpace_cons (c := Ascii.closeBracket) (by decide)]
  rfl

theorem reads_items (hv : IsValue v) (ha : Blank a) (hb : Blank b) (hd : Derives .items r)
    (hr : Reads .items r) : Reads .items (v ++ (a ++ Ascii.comma :: (b ++ r))) := by
  intro n hn
  obtain ⟨n, rfl⟩ : ∃ k, n = k + 1 := ⟨n - 1, by omega⟩
  simp only [List.length_append, List.length_cons] at hn
  simp only [List.append_assoc, List.cons_append]
  rw [skipItems, hv.skipValue (ha.stops stops_comma) (by omega)]
  simp only [ha.skipSpace_cons (c := Ascii.comma) (by decide)]
  change skipItems n (skipSpace (b ++ (r ++ [Ascii.closeBracket]))) = some []
  rw [hb.skipSpace, hd.skipSpace]
  exact hr n (by omega)

theorem reads_member (hk : Key s) (hd : Derives .value v) (hv : IsValue v) (ha : Blank a) :
    Reads .members (s ++ (v ++ a)) := by
  intro n hn
  obtain ⟨n, rfl⟩ : ∃ k, n = k + 1 := ⟨n - 1, by omega⟩
  simp only [List.length_append] at hn
  have hvalue := hv.skipValue (ha.stops stops_closeBrace) (x := a ++ [Ascii.closeBrace]) (n := n)
    (by omega)
  simp only [List.append_assoc]
  rw [hk.skipMembers hd.skipSpace hvalue, skipMemberEnd_closeBrace ha]

theorem reads_members (hk : Key s) (hd : Derives .value v) (hv : IsValue v) (ha : Blank a)
    (hb : Blank b) (hm : Derives .members r) (hr : Reads .members r) :
    Reads .members (s ++ (v ++ (a ++ Ascii.comma :: (b ++ r)))) := by
  intro n hn
  obtain ⟨n, rfl⟩ : ∃ k, n = k + 1 := ⟨n - 1, by omega⟩
  simp only [List.length_append, List.length_cons] at hn
  have hvalue := hv.skipValue (ha.stops stops_comma)
    (x := a ++ Ascii.comma :: (b ++ (r ++ [Ascii.closeBrace]))) (n := n) (by omega)
  simp only [List.append_assoc, List.cons_append]
  rw [hk.skipMembers hd.skipSpace hvalue, skipMemberEnd_comma ha, hb.skipSpace, hm.skipSpace]
  exact hr n (by omega)

/-- An array is read to its bracket, whatever stands before the items. -/
theorem isValue_array (ha : Blank a) (hd : Derives .items b) (hr : Reads .items b) :
    IsValue (Ascii.openBracket :: (a ++ (b ++ [Ascii.closeBracket]))) := by
  have hs : skipSpace (a ++ (b ++ [Ascii.closeBracket])) = b ++ [Ascii.closeBracket] := by
    rw [ha.skipSpace, hd.skipSpace]
  have hne : ∀ r, skipSpace (a ++ (b ++ [Ascii.closeBracket])) ≠ Ascii.closeBracket :: r := by
    rw [hs]
    obtain ⟨c, q, rfl, -, hc, -⟩ := hd.head
    rintro r ⟨⟩
    exact hc rfl
  rw [IsValue, List.length_cons, Nat.mul_add, skipValue_array hne, hs]
  refine hr _ ?_
  simp only [List.length_append]
  omega

theorem isValue_object (ha : Blank a) (hd : Derives .members b) (hr : Reads .members b) :
    IsValue (Ascii.openBrace :: (a ++ (b ++ [Ascii.closeBrace]))) := by
  have hs : skipSpace (a ++ (b ++ [Ascii.closeBrace])) = b ++ [Ascii.closeBrace] := by
    rw [ha.skipSpace, hd.skipSpace]
  have hne : ∀ r, skipSpace (a ++ (b ++ [Ascii.closeBrace])) ≠ Ascii.closeBrace :: r := by
    rw [hs]
    obtain ⟨c, q, rfl, -, -, hc⟩ := hd.head
    rintro r ⟨⟩
    exact hc rfl
  rw [IsValue, List.length_cons, Nat.mul_add, skipValue_object hne, hs]
  refine hr _ ?_
  simp only [List.length_append]
  omega

theorem isValue_emptyArray (ha : Blank a) :
    IsValue (Ascii.openBracket :: (a ++ [Ascii.closeBracket])) := by
  rw [IsValue, skipValue, if_neg (by decide), if_pos (by decide)]
  simp only [ha.skipSpace_cons (c := Ascii.closeBracket) (by decide)]
  rfl

theorem isValue_emptyObject (ha : Blank a) :
    IsValue (Ascii.openBrace :: (a ++ [Ascii.closeBrace])) := by
  rw [IsValue, skipValue, if_neg (by decide), if_neg (by decide), if_pos (by decide)]
  simp only [ha.skipSpace_cons (c := Ascii.closeBrace) (by decide)]
  rfl

/-- Every text of the grammar is read, by induction on its derivation. -/
theorem Derives.reads {q : Part} (h : Derives q b) : Reads q b := by
  induction h with
  | word hw => rcases hw with rfl | rfl | rfl <;> rfl
  | number h => exact h.isValue
  | string h => exact h.skipString
  | emptyArray ha => exact isValue_emptyArray ha
  | array ha h ih => exact isValue_array ha h ih
  | emptyObject ha => exact isValue_emptyObject ha
  | object ha h ih => exact isValue_object ha h ih
  | item _ ha ih => exact reads_item ih ha
  | items _ ha hb h ihv ih => exact reads_items ihv ha hb h ih
  | member hk hv ha ih => exact reads_member hk hv ih ha
  | members hk hv ha hb h ihv ih => exact reads_members hk hv ihv ha hb h ih

/-! What is read is derived. -/

theorem exists_word {w : String} (h : skipWord w b = some r) : b = Bytes.ofString w ++ r := by
  simp only [skipWord] at h
  split at h
  · rename_i hp
    cases h
    obtain ⟨s, rfl⟩ := List.isPrefixOf_iff_prefix.1 hp
    simp
  · cases h

/-- With room of a size, whatever is read is derived. -/
structure Reaches (n : Nat) : Prop where
  value : ∀ b r, skipValue n b = some r → ∃ v, Derives .value v ∧ b = v ++ r
  items : ∀ b r, skipItems n b = some r →
    ∃ v, Derives .items v ∧ b = v ++ Ascii.closeBracket :: r
  members : ∀ b r, skipMembers n b = some r →
    ∃ v, Derives .members v ∧ b = v ++ Ascii.closeBrace :: r

theorem reaches_zero : Reaches 0 where
  value _ _ h := by cases h
  items _ _ h := by cases h
  members _ _ h := by cases h

theorem Reaches.value_succ (ih : Reaches n) (h : skipValue (n + 1) b = some r) :
    ∃ v, Derives .value v ∧ b = v ++ r := by
  cases b with
  | nil => cases h
  | cons c b =>
    rw [skipValue] at h
    split_ifs at h with hq hbracket hbrace hnumber hnull htrue
    · obtain ⟨s, hs, rfl⟩ := exists_characters h
      cases beq_iff_eq.1 hq
      exact ⟨_, .string hs, by simp⟩
    · cases beq_iff_eq.1 hbracket
      split at h
      · rename_i s hs
        cases h
        obtain ⟨a, ha, rfl⟩ := exists_blank_cons (c := Ascii.closeBracket) hs
        exact ⟨_, .emptyArray ha, by simp⟩
      · obtain ⟨a, ha, hb⟩ := exists_blank b
        obtain ⟨v, hv, hs⟩ := ih.items _ _ h
        rw [hb, hs]
        exact ⟨_, .array ha hv, by simp⟩
    · cases beq_iff_eq.1 hbrace
      split at h
      · rename_i s hs
        cases h
        obtain ⟨a, ha, rfl⟩ := exists_blank_cons (c := Ascii.closeBrace) hs
        exact ⟨_, .emptyObject ha, by simp⟩
      · obtain ⟨a, ha, hb⟩ := exists_blank b
        obtain ⟨v, hv, hs⟩ := ih.members _ _ h
        rw [hb, hs]
        exact ⟨_, .object ha hv, by simp⟩
    · obtain ⟨v, hv, hs⟩ := exists_numeral h
      exact ⟨v, .number hv, hs⟩
    · exact ⟨_, .word (.inl rfl), exists_word h⟩
    · exact ⟨_, .word (.inr (.inl rfl)), exists_word h⟩
    · exact ⟨_, .word (.inr (.inr rfl)), exists_word h⟩

theorem Reaches.items_succ (ih : Reaches n) (h : skipItems (n + 1) b = some r) :
    ∃ v, Derives .items v ∧ b = v ++ Ascii.closeBracket :: r := by
  rw [skipItems] at h
  split at h
  · cases h
  · rename_i t ht
    obtain ⟨v, hv, rfl⟩ := ih.value _ _ ht
    split at h
    · rename_i u hu
      obtain ⟨a, ha, rfl⟩ := exists_blank_cons (c := Ascii.comma) hu
      obtain ⟨b, hb, hbu⟩ := exists_blank u
      obtain ⟨w, hw, hwu⟩ := ih.items _ _ h
      rw [hbu, hwu]
      exact ⟨_, .items hv ha hb hw, by simp⟩
    · rename_i u hu
      cases h
      obtain ⟨a, ha, rfl⟩ := exists_blank_cons (c := Ascii.closeBracket) hu
      exact ⟨_, .item hv ha, by simp⟩
    · cases h

/-- Members that were skipped were derived, given one level less. -/
theorem Reaches.members_succ (ih : Reaches n) (h : skipMembers (n + 1) b = some r) :
    ∃ v, Derives .members v ∧ b = v ++ Ascii.closeBrace :: r := by
  obtain ⟨k, t, u, q, rfl, ht, hu, hv, he⟩ := skipMembers_eq_some h
  obtain ⟨s, hs, rfl⟩ := exists_characters ht
  obtain ⟨i, hi, rfl⟩ := exists_blank_cons hu
  obtain ⟨j, hj, hju⟩ := exists_blank u
  obtain ⟨v, hd, hvu⟩ := ih.value _ _ hv
  have hk := Key.mk hs hi hj
  rw [hju, hvu]
  unfold skipMemberEnd at he
  split at he
  · rename_i y hy
    obtain ⟨a, ha, rfl⟩ := exists_blank_cons (c := Ascii.comma) hy
    obtain ⟨b, hb, hby⟩ := exists_blank y
    obtain ⟨w, hw, hwy⟩ := ih.members _ _ he
    rw [hby, hwy]
    exact ⟨_, .members hk hd ha hb hw, by simp⟩
  · rename_i y hy
    cases he
    obtain ⟨a, ha, rfl⟩ := exists_blank_cons (c := Ascii.closeBrace) hy
    exact ⟨_, .member hk hd ha, by simp⟩
  · cases he

/-- What is skipped was derived, whatever the room. -/
theorem reaches (n : Nat) : Reaches n := by
  induction n with
  | zero => exact reaches_zero
  | succ n ih =>
    exact {
      value := fun _ _ => ih.value_succ
      items := fun _ _ => ih.items_succ
      members := fun _ _ => ih.members_succ }

/-- The values of the grammar are those that are read. -/
theorem derives_value_iff : Derives .value v ↔ IsValue v := by
  constructor
  · intro h
    exact h.reads
  · intro h
    obtain ⟨w, hw, hv⟩ := (reaches _).value _ _ h
    rw [hv, List.append_nil]
    exact hw

theorem exists_value (h : value? b = some (v, r)) : Derives .value v ∧ b = v ++ r := by
  obtain ⟨q, hq, hvr⟩ := Option.map_eq_some_iff.1 h
  obtain ⟨w, hw, hb⟩ := (reaches _).value _ _ hq
  obtain ⟨hv, rfl⟩ := Prod.mk.inj hvr
  have hvw : v = w := by
    rw [← hv, hb, List.length_append, Nat.add_sub_cancel, List.take_left]
  subst hvw
  exact ⟨hw, hb⟩

/-! Documents. -/

/-- A text with no blank in it. -/
def Solid (b : Bytes) : Prop := ∀ c ∈ b, isSpace c = false

theorem solid_append (ha : Solid a) (hb : Solid b) : Solid (a ++ b) := by
  intro c hc
  rcases List.mem_append.1 hc with hc | hc
  · exact ha c hc
  · exact hb c hc

theorem solid_cons (hc : isSpace c = false) (hb : Solid b) : Solid (c :: b) := by
  intro d hd
  rcases List.mem_cons.1 hd with rfl | hd
  · exact hc
  · exact hb d hd

theorem Digits.solid (hd : Digits b) : Solid b := fun c hc => isSpace_of_isDigit (hd.2 c hc)

theorem Exponent.solid (h : Exponent b) : Solid b := by
  cases h with
  | none => exact nofun
  | plain hc hd =>
    refine solid_cons ?_ hd.solid
    rcases hc with rfl | rfl <;> rfl
  | signed hc hs hd =>
    refine solid_cons ?_ (solid_cons ?_ hd.solid)
    · rcases hc with rfl | rfl <;> rfl
    · rcases hs with rfl | rfl <;> rfl

theorem Fraction.solid (h : Fraction b) : Solid b := by
  cases h with
  | none he => exact he.solid
  | point hd he => exact solid_cons rfl (solid_append hd.solid he.solid)

theorem Magnitude.solid (h : Magnitude b) : Solid b := by
  cases h with
  | zero hf => exact solid_cons rfl hf.solid
  | digits hd _ hf => exact solid_append hd.solid hf.solid

theorem Numeral.solid (h : Numeral b) : Solid b := by
  cases h with
  | plain h => exact h.solid
  | minus h => exact solid_cons rfl h.solid

/-- No value ends in a blank. -/
theorem Derives.last (h : Derives .value v) : ∃ s c, v = s ++ [c] ∧ isSpace c = false := by
  cases h with
  | word hw =>
    rcases hw with rfl | rfl | rfl
    · exact ⟨Bytes.ofString "nul", 108, by decide, by decide⟩
    · exact ⟨Bytes.ofString "tru", 101, by decide, by decide⟩
    · exact ⟨Bytes.ofString "fals", 101, by decide, by decide⟩
  | number h =>
    obtain ⟨c, r, hv, -⟩ := h.head
    have hne : v ≠ [] := by
      rw [hv]
      exact List.cons_ne_nil _ _
    exact ⟨v.dropLast, v.getLast hne, (List.dropLast_append_getLast hne).symm,
      h.solid _ (List.getLast_mem hne)⟩
  | @string s _ => exact ⟨Ascii.quote :: s, Ascii.quote, rfl, rfl⟩
  | @emptyArray a _ => exact ⟨Ascii.openBracket :: a, Ascii.closeBracket, rfl, rfl⟩
  | @array a b _ _ => exact ⟨Ascii.openBracket :: (a ++ b), Ascii.closeBracket, by simp, rfl⟩
  | @emptyObject a _ => exact ⟨Ascii.openBrace :: a, Ascii.closeBrace, rfl, rfl⟩
  | @object a b _ _ => exact ⟨Ascii.openBrace :: (a ++ b), Ascii.closeBrace, by simp, rfl⟩

theorem Blank.rdropWhile (hp : Blank p) : (b ++ p).rdropWhile isSpace = b.rdropWhile isSpace := by
  induction p using List.reverseRecOn with
  | nil => rw [List.append_nil]
  | append_singleton p c ih =>
    have hc := hp c (List.mem_append_right _ List.mem_cons_self)
    rw [← List.append_assoc, List.rdropWhile_concat_pos _ _ _ hc]
    exact ih fun d hd => hp d (List.mem_append_left _ hd)

theorem trim_eq (ha : Blank a) (hv : Derives .value v) (hp : Blank p) :
    trim (a ++ (v ++ p)) = v := by
  obtain ⟨s, c, hsc, hc⟩ := hv.last
  have hlast : v.rdropWhile isSpace = v := by
    rw [hsc, List.rdropWhile_concat_neg _ _ _ (by simp [hc])]
  rw [trim, ha.skipSpace, hv.skipSpace, hp.rdropWhile, hlast]

/-- A text is read as a document if it is one, and what is read is the text without the blanks around
it. -/
theorem document?_eq_some_iff : document? b = some v ↔ IsDocument b ∧ v = trim b := by
  constructor
  · intro h
    rw [document?] at h
    split at h
    · rename_i w r hw
      split at h
      · rename_i hr
        cases h
        obtain ⟨hd, hb⟩ := exists_value hw
        obtain ⟨a, ha, hab⟩ := exists_blank b
        have hp : Blank r := blank_of_skipSpace (List.isEmpty_iff.1 hr)
        rw [hb] at hab
        rw [hab]
        exact ⟨⟨a, v, r, rfl, ha, hd, hp⟩, (trim_eq ha hd hp).symm⟩
      · cases h
    · cases h
  · rintro ⟨⟨a, w, p, rfl, ha, hd, hp⟩, rfl⟩
    have hstops : Stops p := by
      have := hp.stops stops_nil
      rwa [List.append_nil] at this
    rw [trim_eq ha hd hp, document?, ha.skipSpace, hd.skipSpace, (derives_value_iff.1 hd).value? hstops]
    simp [hp.skipSpace_self]

/-- A document is read as itself, without the blanks around it. -/
theorem isDocument_iff : IsDocument b ↔ document? b = some (trim b) := by
  rw [document?_eq_some_iff]
  simp

end Switchboard.Json
