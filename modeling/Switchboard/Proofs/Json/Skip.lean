import Mathlib.Tactic.SplitIfs
import Switchboard.Json.Text

/-! Where a value ends does not depend on what follows it. -/
namespace Switchboard.Json

variable {b r x : Bytes} {c : UInt8} {m n : Nat}

/-- Text that no number before it goes on into. -/
def Stops (x : Bytes) : Prop :=
  ∀ c ∈ x.head?, isDigit c = false ∧ c ≠ Ascii.dot ∧ c ≠ Ascii.lowerE ∧ c ≠ Ascii.upperE

theorem stops_nil : Stops [] := by simp [Stops]

theorem stops_cons : Stops (c :: x) ↔
    isDigit c = false ∧ c ≠ Ascii.dot ∧ c ≠ Ascii.lowerE ∧ c ≠ Ascii.upperE := by
  simp [Stops]

theorem stops_comma : Stops (Ascii.comma :: x) := stops_cons.2 (by decide)

theorem stops_closeBracket : Stops (Ascii.closeBracket :: x) := stops_cons.2 (by decide)

theorem stops_closeBrace : Stops (Ascii.closeBrace :: x) := stops_cons.2 (by decide)

theorem skipSpace_append (h : skipSpace b ≠ []) : skipSpace (b ++ x) = skipSpace b ++ x := by
  simp only [skipSpace] at *
  rw [List.dropWhile_append, if_neg (by simpa using h)]

theorem skipSpace_cons (h : isSpace c = false) : skipSpace (c :: r) = c :: r := by
  simp [skipSpace, h]

theorem skipSpace_append_of_cons {d : UInt8} (h : skipSpace b = d :: r) :
    skipSpace (b ++ x) = d :: (r ++ x) := by
  rw [skipSpace_append (by simp [h]), h, List.cons_append]

theorem dropDigits_append (hx : Stops x) :
    (b ++ x).dropWhile isDigit = b.dropWhile isDigit ++ x := by
  rw [List.dropWhile_append]
  split
  · rename_i h
    cases x with
    | nil => simpa using h
    | cons c x => simp_all [stops_cons]
  · rfl

theorem skipString_quote : skipString (Ascii.quote :: r) = some r := rfl

theorem skipString_unicode {a b c d : UInt8} :
    skipString (Ascii.backslash :: Ascii.lowerU :: a :: b :: c :: d :: r) =
      if isHex a && isHex b && isHex c && isHex d then skipString r else none := rfl

theorem skipString_escape (h : c ≠ Ascii.lowerU) :
    skipString (Ascii.backslash :: c :: r) =
      if (escaped? c).isSome then skipString r else none := by
  rw [skipString.eq_def]
  split
  · rename_i h'; cases h'
  · rename_i h'; cases h'
  · rename_i h'; cases h'; exact absurd rfl h
  · rename_i h'; cases h'
    unfold escaped?
    grind
  · rename_i h1 h2; cases h2; exact (h1 _ _ rfl rfl).elim

theorem skipString_plain (hc : 32 ≤ c) (hq : c ≠ Ascii.quote) (hb : c ≠ Ascii.backslash) :
    skipString (c :: r) = skipString r := by
  rw [skipString.eq_def]
  split
  · rename_i h'; cases h'
  · rename_i h'; cases h'; exact absurd rfl hq
  · rename_i h'; cases h'; exact absurd rfl hb
  · rename_i h'; cases h'; exact absurd rfl hb
  · rename_i h'; cases h'
    rw [if_neg]
    simp [hb, hc]

/-- The end of a string does not depend on what follows it. -/
theorem skipString_append (h : skipString b = some r) : skipString (b ++ x) = some (r ++ x) := by
  fun_induction skipString b generalizing r with
  | case1 => cases h
  | case2 b =>
    cases h
    exact skipString_quote
  | case3 a b c d s hx ih =>
    show skipString (Ascii.backslash :: Ascii.lowerU :: a :: b :: c :: d :: (s ++ x)) = _
    rw [skipString_unicode, if_pos hx, ih h]
  | case4 => cases h
  | case5 c s hu hc ih =>
    by_cases hcu : c = Ascii.lowerU
    · subst hcu
      exact absurd hc (by decide)
    · show skipString (Ascii.backslash :: c :: (s ++ x)) = _
      rw [skipString_escape hcu, if_pos, ih h]
      unfold escaped?
      grind
  | case6 => cases h
  | case7 => cases h
  | case8 c s hq _ hb hc ih =>
    simp only [Bool.or_eq_true, decide_eq_true_eq, beq_iff_eq, not_or, UInt8.not_lt] at hc
    rw [List.cons_append, skipString_plain hc.1 (fun h => hq h) hc.2, ih h]

theorem skipDigits_append (hx : Stops x) (h : skipDigits b = some r) :
    skipDigits (b ++ x) = some (r ++ x) := by
  cases b with
  | nil => cases h
  | cons c b =>
    simp only [skipDigits, List.cons_append] at *
    split at h
    · rename_i hc
      cases h
      rw [if_pos hc, dropDigits_append hx]
    · cases h

theorem skipExponent_append (hx : Stops x) (h : skipExponent b = some r) :
    skipExponent (b ++ x) = some (r ++ x) := by
  cases b with
  | nil =>
    cases h
    cases x with
    | nil => rfl
    | cons c x => simp [skipExponent, (stops_cons.1 hx).2]
  | cons c b =>
    simp only [skipExponent, List.cons_append] at *
    split at h
    · rename_i hc
      rw [if_pos hc]
      split at h
      · exact skipDigits_append hx h
      · exact skipDigits_append hx h
      · rename_i hp hm
        cases b with
        | nil => cases h
        | cons d b =>
          rw [List.cons_append]
          split
          · rename_i hd; cases hd; exact absurd rfl (hp b)
          · rename_i hd; cases hd; exact absurd rfl (hm b)
          · exact skipDigits_append hx h
    · rename_i hc
      cases h
      rw [if_neg hc]
      rfl

/-- A fraction begins with a point, and there is none in front of other text. -/
theorem skipFraction_of_ne (h : ∀ s, b ≠ Ascii.dot :: s) : skipFraction b = skipExponent b := by
  rw [skipFraction.eq_def]
  split
  · exact absurd rfl (h _)
  · rfl

theorem skipFraction_append (hx : Stops x) (h : skipFraction b = some r) :
    skipFraction (b ++ x) = some (r ++ x) := by
  rw [skipFraction.eq_def] at h
  split at h
  · rename_i s
    obtain ⟨t, ht, he⟩ := Option.bind_eq_some_iff.1 h
    show (skipDigits (s ++ x)).bind skipExponent = _
    rw [skipDigits_append hx ht]
    exact skipExponent_append hx he
  · rename_i hb
    rw [skipFraction_of_ne, skipExponent_append hx h]
    intro s hs
    cases b with
    | nil =>
      rw [List.nil_append] at hs
      subst hs
      exact (stops_cons.1 hx).2.1 rfl
    | cons c b => cases hs; exact hb b rfl

theorem skipMagnitude_of_ne (h : ∀ s, b ≠ Ascii.zero :: s) :
    skipMagnitude b = (skipDigits b).bind skipFraction := by
  rw [skipMagnitude.eq_def]
  split
  · exact absurd rfl (h _)
  · rfl

theorem skipMagnitude_append (hx : Stops x) (h : skipMagnitude b = some r) :
    skipMagnitude (b ++ x) = some (r ++ x) := by
  rw [skipMagnitude.eq_def] at h
  split at h
  · rename_i s
    split at h
    · cases h
    · rename_i hs
      show (if ((s ++ x).head?.map isDigit).getD false then none else skipFraction (s ++ x)) = _
      rw [if_neg, skipFraction_append hx h]
      cases s with
      | cons d s => simpa using hs
      | nil =>
        cases x with
        | nil => simp
        | cons d x => simp [(stops_cons.1 hx).1]
  · rename_i hb
    obtain ⟨t, ht, hf⟩ := Option.bind_eq_some_iff.1 h
    rw [skipMagnitude_of_ne, skipDigits_append hx ht]
    · exact skipFraction_append hx hf
    · intro s hs
      cases b with
      | nil => cases ht
      | cons c b => cases hs; exact hb b rfl

/-- Nor does the end of a number, where a number stops. -/
theorem skipNumber_append (hx : Stops x) (h : skipNumber b = some r) :
    skipNumber (b ++ x) = some (r ++ x) := by
  rw [skipNumber.eq_def] at h
  split at h
  · exact skipMagnitude_append hx h
  · rename_i hb
    rw [skipNumber.eq_def]
    split
    · rename_i s hs
      cases b with
      | nil => cases h
      | cons c b => cases hs; exact absurd rfl (hb b)
    · exact skipMagnitude_append hx h

theorem skipWord_append {w : String} (h : skipWord w b = some r) :
    skipWord w (b ++ x) = some (r ++ x) := by
  simp only [skipWord] at *
  split at h
  · rename_i hp
    cases h
    obtain ⟨s, rfl⟩ := List.isPrefixOf_iff_prefix.1 hp
    simp
  · cases h

theorem skipValue_nil : skipValue n [] = none := by cases n <;> rfl

theorem skipItems_nil : skipItems n [] = none := by
  cases n with
  | zero => rfl
  | succ n => rw [skipItems, skipValue_nil]

theorem skipMembers_nil : skipMembers n [] = none := by cases n <;> rfl

/-- With room of size `n`, text `x` behind a value is left alone, whatever room there is more. -/
structure Leaves (x : Bytes) (n : Nat) : Prop where
  value : ∀ b r m, skipValue n b = some r → n ≤ m → skipValue m (b ++ x) = some (r ++ x)
  items : ∀ b r m, skipItems n b = some r → n ≤ m → skipItems m (b ++ x) = some (r ++ x)
  members : ∀ b r m, skipMembers n b = some r → n ≤ m → skipMembers m (b ++ x) = some (r ++ x)

theorem leaves_zero : Leaves x 0 where
  value _ _ _ h := by cases h
  items _ _ _ h := by cases h
  members _ _ _ h := by cases h

theorem Leaves.value_succ (hx : Stops x) (ih : Leaves x n) (h : skipValue (n + 1) b = some r)
    (hm : n + 1 ≤ m) :
    skipValue m (b ++ x) = some (r ++ x) := by
  obtain ⟨m, rfl⟩ : ∃ k, m = k + 1 := ⟨m - 1, by omega⟩
  have hm : n ≤ m := by omega
  cases b with
  | nil => cases h
  | cons c b =>
    rw [List.cons_append]
    rw [skipValue] at h ⊢
    split_ifs at h ⊢ with hq ha ho hd hn ht
    · exact skipString_append h
    · split at h
      · rename_i s hs
        cases h
        rw [skipSpace_append_of_cons hs]
        rfl
      · rename_i hs
        have hne : skipSpace b ≠ [] := by
          intro h0
          simp [h0, skipItems_nil] at h
        obtain ⟨d, s, hds⟩ := List.exists_cons_of_ne_nil hne
        rw [skipSpace_append_of_cons hds]
        split
        · rename_i hd; cases hd; exact absurd hds (hs s)
        · rw [← List.cons_append, ← hds]
          exact ih.items _ _ _ h hm
    · split at h
      · rename_i s hs
        cases h
        rw [skipSpace_append_of_cons hs]
        rfl
      · rename_i hs
        have hne : skipSpace b ≠ [] := by
          intro h0
          simp [h0, skipMembers_nil] at h
        obtain ⟨d, s, hds⟩ := List.exists_cons_of_ne_nil hne
        rw [skipSpace_append_of_cons hds]
        split
        · rename_i hd; cases hd; exact absurd hds (hs s)
        · rw [← List.cons_append, ← hds]
          exact ih.members _ _ _ h hm
    · exact skipNumber_append hx h
    · exact skipWord_append h
    · exact skipWord_append h
    · exact skipWord_append h

theorem Leaves.items_succ (ih : Leaves x n) (h : skipItems (n + 1) b = some r) (hm : n + 1 ≤ m) :
    skipItems m (b ++ x) = some (r ++ x) := by
  obtain ⟨m, rfl⟩ : ∃ k, m = k + 1 := ⟨m - 1, by omega⟩
  have hm : n ≤ m := by omega
  rw [skipItems] at h ⊢
  split at h
  · cases h
  · rename_i t ht
    rw [ih.value _ _ _ ht hm]
    split at h
    · rename_i s hs
      have hne : skipSpace s ≠ [] := by
        intro h0
        simp [h0, skipItems_nil] at h
      simp only [skipSpace_append_of_cons hs]
      rw [skipSpace_append hne]
      exact ih.items _ _ _ h hm
    · rename_i s hs
      cases h
      simp only [skipSpace_append_of_cons hs]
    · cases h

/-- What stands behind the value of a member. -/
def skipMemberEnd (n : Nat) (b : Bytes) : Option Bytes :=
  match skipSpace b with
  | Ascii.comma :: r => skipMembers n (skipSpace r)
  | Ascii.closeBrace :: r => some r
  | _ => none

theorem skipMembers_member {t u v : Bytes} (ht : skipString b = some t)
    (hu : skipSpace t = Ascii.colon :: u) (hv : skipValue n (skipSpace u) = some v) :
    skipMembers (n + 1) (Ascii.quote :: b) = skipMemberEnd n v := by
  rw [skipMembers.eq_def]
  split
  · rename_i hn h
    cases hn
    cases h
    split
    · rename_i h
      rw [ht, Option.map_some, hu] at h
      cases h
      rw [hv, Option.map_some, skipMemberEnd]
      split
      · rename_i h; rw [Option.some.inj h]; rfl
      · rename_i h; rw [Option.some.inj h]; rfl
      · rename_i hc hb
        split
        · rename_i r h; exact absurd (congrArg some h) (hc r)
        · rename_i r h; exact absurd (congrArg some h) (hb r)
        · rfl
    · rename_i h
      exact (h u (by rw [ht, Option.map_some, hu]; rfl)).elim
  · rename_i h
    exact (h n b rfl rfl).elim

/-- What there is when members are read. -/
theorem skipMembers_eq_some (h : skipMembers (n + 1) b = some r) : ∃ k t u v,
    b = Ascii.quote :: k ∧ skipString k = some t ∧ skipSpace t = Ascii.colon :: u ∧
      skipValue n (skipSpace u) = some v ∧ skipMemberEnd n v = some r := by
  have h' := h
  rw [skipMembers.eq_def] at h
  split at h
  · rename_i k hn
    cases hn
    split at h
    · rename_i u hu
      obtain ⟨t, ht, hu⟩ := Option.map_eq_some_iff.1 hu
      cases hv : skipValue n (skipSpace u) with
      | none => simp [hv] at h
      | some v =>
        exact ⟨k, t, u, v, rfl, ht, hu, hv, (skipMembers_member ht hu hv).symm.trans h'⟩
    · cases h
  · cases h

theorem Leaves.members_succ (ih : Leaves x n) (h : skipMembers (n + 1) b = some r)
    (hm : n + 1 ≤ m) :
    skipMembers m (b ++ x) = some (r ++ x) := by
  obtain ⟨m, rfl⟩ : ∃ k, m = k + 1 := ⟨m - 1, by omega⟩
  have hm : n ≤ m := by omega
  obtain ⟨k, t, u, v, rfl, ht, hu, hv, he⟩ := skipMembers_eq_some h
  have hne : skipSpace u ≠ [] := by
    intro h0
    simp [h0, skipValue_nil] at hv
  have hv' := ih.value _ _ _ hv hm
  rw [← skipSpace_append hne] at hv'
  rw [List.cons_append, skipMembers_member (skipString_append ht) (skipSpace_append_of_cons hu) hv']
  simp only [skipMemberEnd] at *
  split at he
  · rename_i s hs
    have hne : skipSpace s ≠ [] := by
      intro h0
      simp [h0, skipMembers_nil] at he
    rw [skipSpace_append_of_cons hs, ← ih.members _ _ _ he hm, ← skipSpace_append hne]
    rfl
  · rename_i s hs
    cases he
    rw [skipSpace_append_of_cons hs]
    rfl
  · cases he

/-- What a value leaves is left with anything behind it. -/
theorem leaves (hx : Stops x) : Leaves x n := by
  induction n with
  | zero => exact leaves_zero
  | succ n ih =>
    exact {
      value := fun _ _ _ => ih.value_succ hx
      items := fun _ _ _ => ih.items_succ
      members := fun _ _ _ => ih.members_succ }

theorem skipValue_append (hx : Stops x) (h : skipValue n b = some r) (hm : n ≤ m) :
    skipValue m (b ++ x) = some (r ++ x) := (leaves hx).value b r m h hm

/-- One value as written, with nothing around it. -/
def IsValue (v : Bytes) : Prop := skipValue (2 * v.length + 1) v = some []

variable {v : Bytes}

theorem IsValue.skipValue (hv : IsValue v) (hx : Stops x) (hn : 2 * v.length + 1 ≤ n) :
    skipValue n (v ++ x) = some x := skipValue_append hx hv hn

theorem IsValue.value? (hv : IsValue v) (hx : Stops x) : value? (v ++ x) = some (v, x) := by
  have hn : 2 * v.length + 1 ≤ 2 * (v ++ x).length + 1 := by
    rw [List.length_append]
    omega
  rw [Json.value?, hv.skipValue hx hn]
  simp

theorem IsValue.ne_nil (hv : IsValue v) : v ≠ [] := by
  rintro rfl
  cases hv

/-- No value begins with a blank. -/
theorem skipValue_isSpace (h : isSpace c = true) : skipValue n (c :: b) = none := by
  cases n with
  | zero => rfl
  | succ n =>
    simp only [isSpace, Bool.or_eq_true, beq_iff_eq] at h
    rcases h with ((rfl | rfl) | rfl) | rfl <;> rfl

theorem IsValue.skipSpace (hv : IsValue v) : skipSpace (v ++ x) = v ++ x := by
  obtain ⟨c, s, rfl⟩ := List.exists_cons_of_ne_nil hv.ne_nil
  refine skipSpace_cons ?_
  rw [← Bool.not_eq_true]
  intro hc
  rw [IsValue, skipValue_isSpace hc] at hv
  cases hv

/-- A text that is one value without blanks around it. -/
theorem document?_eq_self_iff : document? v = some v ↔ IsValue v := by
  constructor
  · intro h
    rw [document?] at h
    split at h
    · rename_i w r hr
      split at h
      · cases h
        obtain ⟨t, ht, hw⟩ := Option.map_eq_some_iff.1 hr
        obtain ⟨hv, rfl⟩ := Prod.mk.inj hw
        have hsuf : skipSpace v <:+ v := List.dropWhile_suffix _
        have hlen := congrArg List.length hv
        rw [List.length_take] at hlen
        have hle := hsuf.length_le
        have hs : skipSpace v = v := hsuf.eq_of_length (by omega)
        rw [hs] at ht hlen
        have hne : v ≠ [] := by
          intro h0
          simp [h0, skipValue_nil] at ht
        have hpos := List.length_pos_iff.2 hne
        have ht0 : t = [] := List.eq_nil_of_length_eq_zero (by omega)
        rw [IsValue, ht, ht0]
      · cases h
    · cases h
  · intro hv
    have hs := hv.skipSpace (x := [])
    have hd := hv.value? stops_nil
    rw [List.append_nil] at hs hd
    rw [Json.document?, hs, hd]
    rfl

end Switchboard.Json
