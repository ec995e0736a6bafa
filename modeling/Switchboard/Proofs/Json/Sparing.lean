import Mathlib.Data.List.Perm.Basic
import Switchboard.Proofs.Json.TextMap

/-! Values written out in full or with empty members left out, and what readers make of either: what
is left out is taken for empty, and what is nested too deep is refused. -/
namespace Switchboard.Json

variable {α : Type} {v w : Value} {vs ws : List Value} {ms ns ps : List (String × Value)}
  {names : List String} {k s : String} {d n : Nat}

namespace Value

/-- The octets of a value's text. -/
def octets (v : Value) : Bytes := Bytes.ofString v.text

theorem items_eq (vs : List Value) : text.items vs = vs.map text := by
  induction vs with
  | nil => rfl
  | cons v vs ih => rw [text.items, ih, List.map_cons]

theorem pairs_eq (ms : List (String × Value)) :
    text.pairs ms = ms.map fun m => quote m.1 ++ ":" ++ m.2.text := by
  induction ms with
  | nil => rfl
  | cons m ms ih => rw [text.pairs, ih, List.map_cons]

/-- The members of an object, as they are written. -/
def written (ms : List (String × Value)) : List (String × Bytes) :=
  ms.map fun m => (m.1, m.2.octets)

theorem octets_array (vs : List Value) : (array vs).octets = arrayText (vs.map octets) := by
  have h1 : Bytes.ofString "[" = [Ascii.openBracket] := by decide
  have h2 : Bytes.ofString "]" = [Ascii.closeBracket] := by decide
  rw [octets, text, Bytes.ofString_append, Bytes.ofString_append, ofString_intercalate, items_eq,
    List.map_map, h1, h2]
  rfl

theorem octets_object (ms : List (String × Value)) :
    (object ms).octets = objectText (written ms) := by
  have h1 : Bytes.ofString "\x7b" = [Ascii.openBrace] := by decide
  have h2 : Bytes.ofString "\x7d" = [Ascii.closeBrace] := by decide
  have hc : Bytes.ofString ":" = [Ascii.colon] := by decide
  have hm : (ms.map fun m => quote m.1 ++ ":" ++ m.2.text).map Bytes.ofString =
      (written ms).map memberText := by
    rw [written, List.map_map, List.map_map]
    refine List.map_congr_left ?_
    intro m _
    simp [memberText, octets, Bytes.ofString_append, hc]
  rw [octets, text, Bytes.ofString_append, Bytes.ofString_append, ofString_intercalate, pairs_eq,
    hm, h1, h2]
  rfl

/-- How deep containers are nested in a value. -/
def nesting : Value → Nat
  | array vs => deepest vs + 1
  | object ms => deepestMember ms + 1
  | _ => 0
where
  deepest : List Value → Nat
    | [] => 0
    | v :: vs => max v.nesting (deepest vs)
  deepestMember : List (String × Value) → Nat
    | [] => 0
    | (_, v) :: ms => max v.nesting (deepestMember ms)

theorem deepest_le : nesting.deepest vs ≤ n ↔ ∀ v ∈ vs, v.nesting ≤ n := by
  induction vs with
  | nil => simp [nesting.deepest]
  | cons v vs ih => rw [nesting.deepest, Nat.max_le, ih, List.forall_mem_cons]

theorem deepestMember_le : nesting.deepestMember ms ≤ n ↔ ∀ m ∈ ms, m.2.nesting ≤ n := by
  induction ms with
  | nil => simp [nesting.deepestMember]
  | cons m ms ih => rw [nesting.deepestMember, Nat.max_le, ih, List.forall_mem_cons]

theorem nesting_array_le : (array vs).nesting ≤ n + 1 ↔ ∀ v ∈ vs, v.nesting ≤ n := by
  rw [nesting, Nat.add_le_add_iff_right, deepest_le]

theorem nesting_object_le : (object ms).nesting ≤ n + 1 ↔ ∀ m ∈ ms, m.2.nesting ≤ n := by
  rw [nesting, Nat.add_le_add_iff_right, deepestMember_le]

/-- Null, or an array or an object with nothing in it. -/
inductive Blank : Value → Prop
  | null : Blank null
  | array : Blank (array [])
  | object : Blank (object [])

theorem Blank.nesting_le (h : v.Blank) : v.nesting ≤ 1 := by
  cases h with
  | null => exact Nat.zero_le _
  | array | object => exact Nat.le_refl _

mutual

/-- A value of texts written sparingly: any members that are blank may be left out, and those of an
object come in any order. -/
inductive Sparing : Value → Value → Prop
  | null : Sparing null null
  | string (s : String) : Sparing (string s) (string s)
  | array {vs ws : List Value} (h : SparingItems vs ws) : Sparing (array vs) (array ws)
  | object {ms ns ps : List (String × Value)} (h : SparingMembers ms ns) (hp : ps.Perm ns) :
    Sparing (object ms) (object ps)

inductive SparingItems : List Value → List Value → Prop
  | nil : SparingItems [] []
  | cons {v w : Value} {vs ws : List Value} (hv : Sparing v w) (h : SparingItems vs ws) :
    SparingItems (v :: vs) (w :: ws)

inductive SparingMembers : List (String × Value) → List (String × Value) → Prop
  | nil : SparingMembers [] []
  | kept {k : String} {v w : Value} {ms ns : List (String × Value)} (hv : Sparing v w)
    (h : SparingMembers ms ns) : SparingMembers ((k, v) :: ms) ((k, w) :: ns)
  | left {k : String} {v : Value} {ms ns : List (String × Value)} (hv : v.Blank)
    (h : SparingMembers ms ns) : SparingMembers ((k, v) :: ms) ns

end

theorem deepestMember_perm (hp : ps.Perm ns) :
    nesting.deepestMember ps = nesting.deepestMember ns := by
  apply Nat.le_antisymm
  · rw [deepestMember_le]
    intro m hm
    exact deepestMember_le.1 (Nat.le_refl _) m (hp.mem_iff.1 hm)
  · rw [deepestMember_le]
    intro m hm
    exact deepestMember_le.1 (Nat.le_refl _) m (hp.mem_iff.2 hm)

/-! What is left out takes one level of nesting away at most. -/

mutual

/-- Leaving out members takes away one level at most. -/
theorem Sparing.nesting_le : {v w : Value} → Sparing v w →
    w.nesting ≤ v.nesting ∧ v.nesting ≤ w.nesting + 1
  | _, _, .null => ⟨Nat.le_refl _, Nat.zero_le _⟩
  | _, _, .string _ => ⟨Nat.le_refl _, Nat.zero_le _⟩
  | _, _, .array h => by
    have hd := h.deepest_le
    simp only [nesting]
    omega
  | _, _, .object h hp => by
    have hd := h.deepest_le
    simp only [nesting, deepestMember_perm hp]
    omega

theorem SparingItems.deepest_le : {vs ws : List Value} → SparingItems vs ws →
    nesting.deepest ws ≤ nesting.deepest vs ∧ nesting.deepest vs ≤ nesting.deepest ws + 1
  | _, _, .nil => ⟨Nat.le_refl _, Nat.zero_le _⟩
  | _, _, .cons hv h => by
    have hd := hv.nesting_le
    have hds := h.deepest_le
    simp only [nesting.deepest]
    omega

theorem SparingMembers.deepest_le : {ms ns : List (String × Value)} → SparingMembers ms ns →
    nesting.deepestMember ns ≤ nesting.deepestMember ms ∧
      nesting.deepestMember ms ≤ nesting.deepestMember ns + 1
  | _, _, .nil => ⟨Nat.le_refl _, Nat.zero_le _⟩
  | _, _, .kept hv h => by
    have hd := hv.nesting_le
    have hds := h.deepest_le
    simp only [nesting.deepestMember]
    omega
  | _, _, .left hv h => by
    -- A blank member is one level deep at most, and the object around it is still there.
    have hd := hv.nesting_le
    have hds := h.deepest_le
    simp only [nesting.deepestMember]
    omega

end

theorem isValue_null : IsValue null.octets := by
  rw [IsValue]
  decide

mutual

theorem Sparing.isValue : {v w : Value} → Sparing v w → IsValue w.octets
  | _, _, .null => isValue_null
  | _, _, .string _ => isValue_quote
  | _, _, .array h => by
    rw [octets_array]
    apply isValue_arrayText
    intro b hb
    obtain ⟨w, hw, rfl⟩ := List.mem_map.1 hb
    exact h.isValue w hw
  | _, _, .object h hp => by
    rw [octets_object]
    apply isValue_objectText
    intro f hf
    obtain ⟨m, hm, rfl⟩ := List.mem_map.1 hf
    exact h.isValue m (hp.mem_iff.1 hm)

theorem SparingItems.isValue : {vs ws : List Value} → SparingItems vs ws →
    ∀ w ∈ ws, IsValue w.octets
  | _, _, .nil => by simp
  | _, _, .cons hv h => by
    intro w hw
    rcases List.mem_cons.1 hw with rfl | hw
    · exact hv.isValue
    · exact h.isValue w hw

theorem SparingMembers.isValue : {ms ns : List (String × Value)} → SparingMembers ms ns →
    ∀ m ∈ ns, IsValue m.2.octets
  | _, _, .nil => by simp
  | _, _, .kept hv h => by
    intro m hm
    rcases List.mem_cons.1 hm with rfl | hm
    · exact hv.isValue
    · exact h.isValue m hm
  | _, _, .left _ h => h.isValue

end

theorem SparingMembers.keys (h : SparingMembers ms ns) : (ns.map (·.1)).Sublist (ms.map (·.1)) := by
  induction ms generalizing ns with
  | nil =>
    cases h
    exact .slnil
  | cons m ms ih =>
    cases h with
    | kept hv h => exact (ih h).cons_cons _
    | left hv h => exact (ih h).cons _

/-! Records. -/

/-- The members of a record written sparingly, and the names of its fields. -/
structure Written (names : List String) (ms ps : List (String × Value)) : Prop where
  named : ms.map (·.1) = names
  nodup : names.Nodup
  members : ∃ ns, SparingMembers ms ns ∧ ps.Perm ns

theorem Sparing.exists_written (h : Sparing (.object ms) w) (names : List String)
    (hn : ms.map (·.1) = names) (hd : names.Nodup) :
    ∃ ps, w = .object ps ∧ Written names ms ps := by
  cases h with
  | object h hp => exact ⟨_, rfl, hn, hd, _, h, hp⟩

theorem Written.keys (h : Written names ms ps) :
    (ps.map (·.1)).Nodup ∧ ∀ m ∈ ps, m.1 ∈ names := by
  obtain ⟨hn, hd, ns, hns, hp⟩ := h
  have hkeys := hp.map (·.1)
  have hsub := hns.keys
  rw [hn] at hsub
  refine ⟨hkeys.nodup_iff.2 (hsub.nodup hd), ?_⟩
  intro m hm
  exact hsub.subset (hkeys.mem_iff.1 (List.mem_map_of_mem hm))

/-- A field is written, or it is blank and left out. -/
theorem SparingMembers.found (h : SparingMembers ms ns) (hd : (ms.map (·.1)).Nodup)
    (hm : (k, v) ∈ ms) : (∃ w, (k, w) ∈ ns ∧ Sparing v w) ∨ k ∉ ns.map (·.1) ∧ v.Blank := by
  induction ms generalizing ns with
  | nil => cases hm
  | cons m ms ih =>
    obtain ⟨hk, hms⟩ := List.nodup_cons.1 hd
    cases h with
    | kept hv h =>
      rcases List.mem_cons.1 hm with he | hm
      · cases he
        exact .inl ⟨_, List.mem_cons_self, hv⟩
      · rcases ih h hms hm with ⟨w, hw, hs⟩ | ⟨hn, hb⟩
        · exact .inl ⟨w, List.mem_cons_of_mem _ hw, hs⟩
        · refine .inr ⟨?_, hb⟩
          intro hc
          rcases List.mem_cons.1 hc with he | hc
          · exact hk (he ▸ List.mem_map_of_mem (f := (·.1)) hm)
          · exact hn hc
    | left hv h =>
      rcases List.mem_cons.1 hm with he | hm
      · cases he
        exact .inr ⟨fun hc => hk (h.keys.subset hc), hv⟩
      · exact ih h hms hm

theorem lookup_eq_some_iff (hd : (ps.map (·.1)).Nodup) : ps.lookup k = some w ↔ (k, w) ∈ ps := by
  induction ps with
  | nil => simp
  | cons p ps ih =>
    obtain ⟨j, u⟩ := p
    obtain ⟨hj, hps⟩ := List.nodup_cons.1 hd
    rw [List.lookup_cons]
    by_cases hk : k = j
    · subst hk
      have hn : (k, w) ∉ ps := fun hm => hj (List.mem_map_of_mem (f := (·.1)) hm)
      simp [hn, eq_comm]
    · simp [beq_eq_false_iff_ne.2 hk, ih hps, hk]

theorem Written.lookup (h : Written names ms ps) (hm : (k, v) ∈ ms) :
    (∃ w, ps.lookup k = some w ∧ Sparing v w) ∨ ps.lookup k = none ∧ v.Blank := by
  obtain ⟨ns, hns, hp⟩ := h.members
  rcases hns.found (h.named ▸ h.nodup) hm with ⟨w, hw, hs⟩ | ⟨hn, hb⟩
  · exact .inl ⟨w, (lookup_eq_some_iff h.keys.1).2 (hp.mem_iff.2 hw), hs⟩
  · refine .inr ⟨?_, hb⟩
    rw [Option.eq_none_iff_forall_ne_some]
    intro w hw
    have hmem := hp.mem_iff.1 ((lookup_eq_some_iff h.keys.1).1 hw)
    exact hn (List.mem_map_of_mem (f := (·.1)) hmem)

/-- What is written for a field nests so deep at most. -/
def Within (ps : List (String × Value)) (d : Nat) (k : String) : Prop :=
  ∀ w, ps.lookup k = some w → w.nesting ≤ d

theorem Written.nesting_le (h : Written names ms ps) :
    (object ps).nesting ≤ d + 1 ↔ ∀ k ∈ names, Within ps d k := by
  obtain ⟨hd, hk⟩ := h.keys
  rw [nesting_object_le]
  constructor
  · intro hn k _ w hw
    exact hn (k, w) ((lookup_eq_some_iff hd).1 hw)
  · intro hn m hm
    exact hn m.1 (hk m hm) m.2 ((lookup_eq_some_iff hd).2 hm)

theorem lookup_written : (written ps).lookup k = (ps.lookup k).map octets := by
  induction ps with
  | nil => rfl
  | cons p ps ih =>
    obtain ⟨j, u⟩ := p
    rw [written, List.map_cons, List.lookup_cons, List.lookup_cons]
    cases k == j with
    | true => rfl
    | false => exact ih

/-- What the text of a record tells of its fields. -/
def told (ms ps : List (String × Value)) : Fields :=
  ⟨false, ms.map fun m => (ps.lookup m.1).map octets⟩

/-- A record that is written sparingly is read field by field. -/
theorem Written.read? (h : Written names ms ps) :
    Fields.read? names (d + 1) (object ps).octets = some (told ms ps) := by
  obtain ⟨hd, hk⟩ := h.keys
  have hv : ∀ f ∈ written ps, IsValue f.2 := by
    obtain ⟨ns, hns, hp⟩ := h.members
    intro f hf
    obtain ⟨m, hm, rfl⟩ := List.mem_map.1 hf
    exact hns.isValue m (hp.mem_iff.1 hm)
  have hkeys : (written ps).map (·.1) = ps.map (·.1) := by
    rw [written, List.map_map]
    rfl
  have hnames : ∀ f ∈ written ps, f.1 ∈ names := by
    intro f hf
    obtain ⟨m, hm, rfl⟩ := List.mem_map.1 hf
    exact hk m hm
  rw [octets_object, read?_objectText hv hnames (hkeys ▸ hd), ← h.named, List.map_map, told]
  congr 3
  funext m
  exact lookup_written

/-! Readers. -/

/-- A reader makes the same of a value however sparingly it is written, and of no more than it has
levels for. -/
def ReadsBack (read : Reader α) (v : Value) (a : α) : Prop :=
  ∀ w, Sparing v w → ∀ d b, read d w.octets = some b ↔ b = a ∧ w.nesting ≤ d

variable {read : Reader α} {a b c : α} {i : Nat}

theorem told_get? (hi : ms[i]? = some (k, v)) :
    (told ms ps).get? i = (ps.lookup k).map octets := by
  rw [Fields.get?, told, List.getElem?_map, hi]
  rfl

/-- A text is never left out. -/
theorem Written.required (h : Written names ms ps) (hi : ms[i]? = some (k, .string s)) :
    (told ms ps).required i string? = some s := by
  rw [Fields.required, told_get? hi]
  rcases h.lookup (List.mem_of_getElem? hi) with ⟨w, hw, hs⟩ | ⟨-, hb⟩
  · cases hs
    rw [hw]
    exact string?_quote
  · cases hb

theorem Written.within_string (h : Written names ms ps) (hi : ms[i]? = some (k, .string s)) :
    Within ps d k := by
  intro w hw
  rcases h.lookup (List.mem_of_getElem? hi) with ⟨u, hu, hs⟩ | ⟨-, hb⟩
  · cases hs
    cases hu.symm.trans hw
    exact Nat.zero_le _
  · cases hb

/-- A field that may be left out is read, or is taken for what it is when it is blank. -/
theorem Written.withDefault (h : Written names ms ps) (hi : ms[i]? = some (k, v))
    (hr : ReadsBack read v a) (hc : v.Blank → c = a) :
    (told ms ps).withDefault i c (read d) = some b ↔ b = a ∧ Within ps d k := by
  rw [Fields.withDefault, told_get? hi, Within]
  rcases h.lookup (List.mem_of_getElem? hi) with ⟨w, hw, hs⟩ | ⟨hn, hb⟩
  · simp [hw, hr w hs d b]
  · simp [hn, hc hb, eq_comm]

end Value

open Value

variable {R : Reader α} {f : α → Value} {as : List α}

theorem members_texts {xs : List (String × String)}
    (h : SparingMembers (xs.map fun (k, v) => (k, Value.string v)) ns) :
    ns = xs.map fun (k, v) => (k, Value.string v) := by
  induction xs generalizing ns with
  | nil =>
    cases h
    rfl
  | cons x xs ih =>
    cases h with
    | kept hv h =>
      cases hv
      rw [ih h]
      rfl
    | left hv h => cases hv

theorem nesting_texts (xs : List (String × String)) :
    (object (xs.map fun (k, v) => (k, Value.string v))).nesting = 1 := by
  have hz : nesting.deepestMember (xs.map fun (k, v) => (k, Value.string v)) ≤ 0 := by
    rw [deepestMember_le]
    intro m hm
    obtain ⟨x, -, rfl⟩ := List.mem_map.1 hm
    exact Nat.le_refl _
  rw [nesting, Nat.le_zero.1 hz]

theorem nesting_textMap (m : Dict String) : (ofTextMap m).nesting = 1 := nesting_texts m.entries

/-- Maps of texts are read in whatever order their members come. -/
theorem reads_textMap (m : Dict String) : ReadsBack textMap (ofTextMap m) m := by
  intro w hw d b
  cases hw with
  | @object _ ns ps h hp =>
    rw [members_texts h] at hp
    obtain ⟨xs, rfl, hxs⟩ := (congrFun₂ (List.eq_map_comp_perm _) ps m.entries).mpr hp
    have ht : octets (object (xs.map fun (k, v) => (k, Value.string v))) =
        objectText (textMembers xs) := ofString_textMap
    rw [nesting_texts, ht]
    cases d with
    | zero => simp [textMap]
    | succ d => simp [textMap_objectText, Dict.ofList_of_perm hxs, eq_comm]

theorem mapM_items (h : SparingItems (as.map f) ws) (ha : ∀ a ∈ as, ReadsBack R (f a) a)
    {bs : List α} : (ws.map octets).mapM (R d) = some bs ↔ bs = as ∧ ∀ w ∈ ws, w.nesting ≤ d := by
  induction as generalizing ws bs with
  | nil =>
    cases h
    simp [eq_comm]
  | cons a as ih =>
    cases h with
    | @cons _ w _ ws hv h =>
      have hread (b : α) := ha a List.mem_cons_self w hv d b
      have hrest {bs : List α} := @ih ws h (fun b hb => ha b (List.mem_cons_of_mem _ hb)) bs
      rw [List.map_cons, List.mapM_cons, List.forall_mem_cons, Option.bind_eq_bind,
        Option.bind_eq_some_iff]
      constructor
      · rintro ⟨b, hb, hbs⟩
        obtain ⟨cs, hcs, he⟩ := Option.bind_eq_some_iff.1 hbs
        obtain ⟨rfl, hn⟩ := (hread b).1 hb
        obtain ⟨rfl, hns⟩ := hrest.1 hcs
        cases he
        exact ⟨rfl, hn, hns⟩
      · rintro ⟨rfl, hn, hns⟩
        refine ⟨a, (hread a).2 ⟨rfl, hn⟩, ?_⟩
        rw [hrest.2 ⟨rfl, hns⟩]
        rfl

/-- A list reads back when its elements do. -/
theorem reads_list (h : ∀ a ∈ as, ReadsBack R (f a) a) :
    ReadsBack (list R) (.array (as.map f)) as := by
  intro w hw d bs
  cases hw with
  | @array _ ws hi =>
    cases d with
    | zero => simp [list, nesting]
    | succ d =>
      have hws : ∀ b ∈ ws.map octets, IsValue b := by
        intro b hb
        obtain ⟨w, hm, rfl⟩ := List.mem_map.1 hb
        exact hi.isValue w hm
      rw [list, octets_array, items?_arrayText hws, nesting_array_le]
      exact mapM_items hi h

theorem isNull_object (ps : List (String × Value)) : isNull (object ps).octets = false := by
  have hnull : Bytes.ofString "null" = [110, 117, 108, 108] := by decide
  rw [octets_object, isNull, hnull, objectText]
  rfl

/-- What is absent is null, if what is there is an object. -/
theorem reads_orNull {o : Option α} (h : ∀ a, o = some a → ReadsBack R (f a) a)
    (hf : ∀ a, ∃ ms, f a = .object ms) : ReadsBack (orNull R) ((o.map f).getD .null) o := by
  intro w hw d b
  cases o with
  | none =>
    cases hw
    have hnull : isNull null.octets = true := by decide
    simp [orNull, hnull, nesting, eq_comm]
  | some a =>
    have hread (c : α) := h a rfl w hw d c
    have hn : isNull w.octets = false := by
      obtain ⟨ms, hms⟩ := hf a
      rw [Option.map_some, Option.getD_some, hms] at hw
      cases hw
      exact isNull_object _
    rw [orNull, hn, if_neg Bool.false_ne_true, Option.map_eq_some_iff]
    constructor
    · rintro ⟨c, hc, rfl⟩
      obtain ⟨rfl, hle⟩ := (hread c).1 hc
      exact ⟨rfl, hle⟩
    · rintro ⟨rfl, hle⟩
      exact ⟨a, (hread a).2 ⟨rfl, hle⟩, rfl⟩

/-! What is left out was empty. -/

theorem blank_textMap (h : (ofTextMap m).Blank) : Dict.empty = m := by
  obtain ⟨xs, hxs⟩ := m
  generalize hv : ofTextMap ⟨xs, hxs⟩ = v at h
  cases h with
  | null | array => cases hv
  | object =>
    have hnil : xs = [] := List.map_eq_nil_iff.1 (Value.object.inj hv)
    subst hnil
    rfl

theorem blank_array (h : (Value.array (as.map f)).Blank) : [] = as := by
  generalize hv : Value.array (as.map f) = v at h
  cases h with
  | null | object => cases hv
  | array => exact (List.map_eq_nil_iff.1 (Value.array.inj hv)).symm

theorem blank_orNull {o : Option α} (hf : ∀ a, ¬ (f a).Blank) (h : ((o.map f).getD .null).Blank) :
    none = o := by
  cases o with
  | none => rfl
  | some a => exact absurd h (hf a)

/-! A value may be written in full. -/

theorem items_self (h : ∀ v ∈ vs, Sparing v v) : SparingItems vs vs := by
  induction vs with
  | nil => exact .nil
  | cons v vs ih =>
    obtain ⟨hv, hvs⟩ := List.forall_mem_cons.1 h
    exact .cons hv (ih hvs)

theorem members_self (h : ∀ m ∈ ms, Sparing m.2 m.2) : SparingMembers ms ms := by
  induction ms with
  | nil => exact .nil
  | cons m ms ih =>
    obtain ⟨hm, hms⟩ := List.forall_mem_cons.1 h
    exact .kept hm (ih hms)

theorem sparing_object (h : ∀ m ∈ ms, Sparing m.2 m.2) : Sparing (object ms) (object ms) :=
  .object (members_self h) (.refl _)

theorem sparing_textMap (m : Dict String) : Sparing (ofTextMap m) (ofTextMap m) := by
  apply sparing_object
  intro p hp
  obtain ⟨x, -, rfl⟩ := List.mem_map.1 hp
  exact .string _

end Switchboard.Json
