import Mathlib.Data.List.Forall2
import Switchboard.Proofs.Json.Meaning

/-! The elements of arrays and the members of objects, and records read from them by name or by
place: what is told apart is what the grammar puts there. -/
namespace Switchboard.Json

/-- What stands between brackets, and the elements there. -/
inductive Elements : Bytes → List Bytes → Prop
  | one {v a : Bytes} (hv : Derives .value v) (ha : Blank a) : Elements (v ++ a) [v]
  | more {v a b r : Bytes} {vs : List Bytes} (hv : Derives .value v) (ha : Blank a) (hb : Blank b)
    (h : Elements r vs) : Elements (v ++ (a ++ Ascii.comma :: (b ++ r))) (v :: vs)

inductive IsArray : Bytes → List Bytes → Prop
  | empty {a : Bytes} (ha : Blank a) :
    IsArray (Ascii.openBracket :: (a ++ [Ascii.closeBracket])) []
  | full {a b : Bytes} {vs : List Bytes} (ha : Blank a) (h : Elements b vs) :
    IsArray (Ascii.openBracket :: (a ++ (b ++ [Ascii.closeBracket]))) vs

/-- A member of an object up to its value, with the text of its key. -/
inductive Labels : Bytes → Bytes → Prop
  | mk {s a b : Bytes} (hs : Characters s) (ha : Blank a) (hb : Blank b) :
    Labels (Ascii.quote :: (s ++ [Ascii.quote]))
      (Ascii.quote :: (s ++ Ascii.quote :: (a ++ Ascii.colon :: b)))

/-- What stands between braces, and the members there, key and value each as written. -/
inductive Members : Bytes → List (Bytes × Bytes) → Prop
  | one {k p v a : Bytes} (hk : Labels k p) (hv : Derives .value v) (ha : Blank a) :
    Members (p ++ (v ++ a)) [(k, v)]
  | more {k p v a b r : Bytes} {ms : List (Bytes × Bytes)} (hk : Labels k p)
    (hv : Derives .value v) (ha : Blank a) (hb : Blank b) (h : Members r ms) :
    Members (p ++ (v ++ (a ++ Ascii.comma :: (b ++ r)))) ((k, v) :: ms)

inductive IsObject : Bytes → List (Bytes × Bytes) → Prop
  | empty {a : Bytes} (ha : Blank a) : IsObject (Ascii.openBrace :: (a ++ [Ascii.closeBrace])) []
  | full {a b : Bytes} {ms : List (Bytes × Bytes)} (ha : Blank a) (h : Members b ms) :
    IsObject (Ascii.openBrace :: (a ++ (b ++ [Ascii.closeBrace]))) ms

variable {b k p r v x : Bytes} {vs : List Bytes} {ms : List (Bytes × Bytes)} {n : Nat}

/-! Arrays. -/

/-- What stands between brackets is elements with commas between them. -/
theorem exists_elements (h : Derives .items b) : ∃ vs, Elements b vs := by
  generalize hq : Part.items = q at h
  induction h with
  | item hv ha => exact ⟨_, .one hv ha⟩
  | items hv ha hb _ _ ih =>
    obtain ⟨vs, h⟩ := ih hq
    exact ⟨_, .more hv ha hb h⟩
  | _ => cases hq

theorem Elements.derives (h : Elements b vs) : Derives .items b := by
  induction h with
  | one hv ha => exact .item hv ha
  | more hv ha hb _ ih => exact .items hv ha hb ih

theorem Derives.length_pos {q : Part} (h : Derives q b) : 0 < b.length := by
  obtain ⟨c, r, rfl, -⟩ := h.head
  exact Nat.succ_pos _

theorem Elements.length_le (h : Elements b vs) : vs.length ≤ b.length := by
  induction h with
  | one hv ha =>
    have := hv.length_pos
    simp only [List.length_append, List.length_cons, List.length_nil]
    omega
  | more hv _ _ _ ih =>
    simp only [List.length_append, List.length_cons]
    omega

/-- The elements are read one by one. -/
theorem Elements.items?_go (h : Elements b vs) (hn : vs.length ≤ n) :
    items?.go n (b ++ Ascii.closeBracket :: x) = some vs := by
  induction h generalizing n with
  | @one v a hv ha =>
    obtain ⟨n, rfl⟩ : ∃ k, n = k + 1 := ⟨n - 1, by simp at hn; omega⟩
    have hvalue := (derives_value_iff.1 hv).value? (ha.stops (stops_closeBracket (x := x)))
    rw [List.append_assoc, items?.go, hvalue]
    simp only [ha.skipSpace_cons (c := Ascii.closeBracket) (by decide)]
    rfl
  | @more v a c r vs hv ha hc h ih =>
    obtain ⟨n, rfl⟩ : ∃ k, n = k + 1 := ⟨n - 1, by simp at hn; omega⟩
    have hvalue := (derives_value_iff.1 hv).value?
      (ha.stops (stops_comma (x := c ++ (r ++ Ascii.closeBracket :: x))))
    simp only [List.append_assoc, List.cons_append]
    rw [items?.go, hvalue]
    simp only [ha.skipSpace_cons (c := Ascii.comma) (by decide)]
    change (items?.go n (skipSpace (c ++ (r ++ Ascii.closeBracket :: x)))).map (v :: ·) = _
    rw [hc.skipSpace, h.derives.skipSpace, ih (by simpa using hn)]
    rfl

theorem items?_openBracket : items? (Ascii.openBracket :: r) =
    match skipSpace r with
    | Ascii.closeBracket :: _ => some []
    | t => items?.go (r.length + 1) t := rfl

theorem IsArray.items? (h : IsArray b vs) : items? b = some vs := by
  cases h with
  | empty ha =>
    rw [items?_openBracket, ha.skipSpace_cons (by decide)]
    rfl
  | @full a b vs ha h =>
    obtain ⟨c, r, hcr, -, hc, -⟩ := h.derives.head
    have hlen := h.length_le
    rw [items?_openBracket, ha.skipSpace, h.derives.skipSpace]
    split
    · rename_i hb
      rw [hcr] at hb
      exact absurd (List.cons.inj hb).1 hc
    · refine h.items?_go ?_
      simp only [List.length_cons, List.length_append]
      omega

theorem exists_isArray (h : Derives .value (Ascii.openBracket :: r)) :
    ∃ vs, IsArray (Ascii.openBracket :: r) vs := by
  generalize hv : Ascii.openBracket :: r = v at h
  cases h with
  | emptyArray ha => exact ⟨_, .empty ha⟩
  | array ha h =>
    obtain ⟨vs, h⟩ := exists_elements h
    exact ⟨vs, .full ha h⟩
  | number h =>
    obtain ⟨c, s, rfl, hc⟩ := h.head
    obtain ⟨rfl, -⟩ := List.cons.inj hv
    rcases hc with hc | hc <;> cases hc
  | word hw =>
    obtain ⟨c, s, hs, hc⟩ := exists_word_cons hw
    obtain ⟨rfl, -⟩ := List.cons.inj (hv.trans hs)
    rcases hc with hc | hc | hc <;> cases hc
  | string | emptyObject | object => cases hv

/-- Of an array, its elements are read. -/
theorem items?_eq_some_iff (h : Derives .value b) : items? b = some vs ↔ IsArray b vs := by
  constructor
  · intro hi
    have hopen : ∃ r, b = Ascii.openBracket :: r := by
      rw [items?.eq_def] at hi
      split at hi
      · exact ⟨_, rfl⟩
      · cases hi
    obtain ⟨r, rfl⟩ := hopen
    obtain ⟨ws, hws⟩ := exists_isArray h
    rw [hws.items?] at hi
    cases hi
    exact hws
  · intro h
    exact h.items?

/-! Objects. -/

theorem exists_members (h : Derives .members b) : ∃ ms, Members b ms := by
  have labels {p : Bytes} (hk : Key p) : ∃ k, Labels k p := by
    cases hk with
    | mk hs ha hb => exact ⟨_, .mk hs ha hb⟩
  generalize hq : Part.members = q at h
  induction h with
  | member hk hv ha =>
    obtain ⟨k, hk⟩ := labels hk
    exact ⟨_, .one hk hv ha⟩
  | members hk hv ha hb _ _ ih =>
    obtain ⟨k, hk⟩ := labels hk
    obtain ⟨ms, h⟩ := ih hq
    exact ⟨_, .more hk hv ha hb h⟩
  | _ => cases hq

theorem Members.derives (h : Members b ms) : Derives .members b := by
  have key {k p : Bytes} (hk : Labels k p) : Key p := by
    cases hk with
    | mk hs ha hb => exact .mk hs ha hb
  induction h with
  | one hk hv ha => exact .member (key hk) hv ha
  | more hk hv ha hb _ ih => exact .members (key hk) hv ha hb ih

theorem Members.length_le (h : Members b ms) : ms.length ≤ b.length := by
  induction h with
  | one _ hv _ =>
    have := hv.length_pos
    simp only [List.length_append, List.length_cons, List.length_nil]
    omega
  | more _ hv _ _ _ ih =>
    simp only [List.length_append, List.length_cons]
    omega

theorem members?_go_colon {k : Bytes} (hk : value? b = some (k, p))
    (hp : skipSpace p = Ascii.colon :: r) :
    members?.go (n + 1) b =
      match value? (skipSpace r) with
      | none => none
      | some (v, t) => membersEnd n (k, v) t := by
  rw [members?.go, hk]
  simp only [hp]
  rfl

theorem Labels.members?_go (h : Labels k p) (hv : Derives .value v) (hx : Stops x) :
    members?.go (n + 1) (p ++ (v ++ x)) = membersEnd n (k, v) x := by
  cases h with
  | @mk s a b hs ha hb =>
    have hkey : IsValue (Ascii.quote :: (s ++ [Ascii.quote])) :=
      derives_value_iff.1 (.string hs)
    have hread : value? (Ascii.quote :: (s ++ Ascii.quote :: (a ++ Ascii.colon :: b)) ++ (v ++ x)) =
        some (Ascii.quote :: (s ++ [Ascii.quote]), a ++ Ascii.colon :: (b ++ (v ++ x))) := by
      have h := hkey.value? (ha.stops (stops_cons (c := Ascii.colon)
        (x := b ++ (v ++ x)) |>.2 (by decide)))
      simpa using h
    rw [members?_go_colon hread (ha.skipSpace_cons (by decide)), hb.skipSpace, hv.skipSpace,
      (derives_value_iff.1 hv).value? hx]

/-- The members are read one by one. -/
theorem Members.members?_go (h : Members b ms) (hn : ms.length ≤ n) :
    members?.go n (b ++ Ascii.closeBrace :: x) = some ms := by
  induction h generalizing n with
  | @one k p v a hk hv ha =>
    obtain ⟨n, rfl⟩ : ∃ k, n = k + 1 := ⟨n - 1, by simp at hn; omega⟩
    simp only [List.append_assoc]
    rw [hk.members?_go hv (ha.stops stops_closeBrace)]
    simp only [membersEnd, ha.skipSpace_cons (c := Ascii.closeBrace) (by decide)]
    rfl
  | @more k p v a c r ms hk hv ha hc h ih =>
    obtain ⟨n, rfl⟩ : ∃ k, n = k + 1 := ⟨n - 1, by simp at hn; omega⟩
    simp only [List.append_assoc, List.cons_append]
    rw [hk.members?_go hv (ha.stops stops_comma)]
    simp only [membersEnd, ha.skipSpace_cons (c := Ascii.comma) (by decide)]
    change (members?.go n (skipSpace (c ++ (r ++ Ascii.closeBrace :: x)))).map ((k, v) :: ·) = _
    rw [hc.skipSpace, h.derives.skipSpace, ih (by simpa using hn)]
    rfl

theorem members?_openBrace : members? (Ascii.openBrace :: r) =
    match skipSpace r with
    | Ascii.closeBrace :: _ => some []
    | t => members?.go (r.length + 1) t := rfl

theorem IsObject.members? (h : IsObject b ms) : members? b = some ms := by
  cases h with
  | empty ha =>
    rw [members?_openBrace, ha.skipSpace_cons (by decide)]
    rfl
  | @full a b ms ha h =>
    obtain ⟨c, r, hcr, -, -, hc⟩ := h.derives.head
    have hlen := h.length_le
    rw [members?_openBrace, ha.skipSpace, h.derives.skipSpace]
    split
    · rename_i hb
      rw [hcr] at hb
      exact absurd (List.cons.inj hb).1 hc
    · refine h.members?_go ?_
      simp only [List.length_cons, List.length_append]
      omega

theorem exists_isObject (h : Derives .value (Ascii.openBrace :: r)) :
    ∃ ms, IsObject (Ascii.openBrace :: r) ms := by
  generalize hv : Ascii.openBrace :: r = v at h
  cases h with
  | emptyObject ha => exact ⟨_, .empty ha⟩
  | object ha h =>
    obtain ⟨ms, h⟩ := exists_members h
    exact ⟨ms, .full ha h⟩
  | number h =>
    obtain ⟨c, s, rfl, hc⟩ := h.head
    obtain ⟨rfl, -⟩ := List.cons.inj hv
    rcases hc with hc | hc <;> cases hc
  | word hw =>
    obtain ⟨c, s, hs, hc⟩ := exists_word_cons hw
    obtain ⟨rfl, -⟩ := List.cons.inj (hv.trans hs)
    rcases hc with hc | hc | hc <;> cases hc
  | string | emptyArray | array => cases hv

/-- Of an object, its members are read. -/
theorem members?_eq_some_iff (h : Derives .value b) : members? b = some ms ↔ IsObject b ms := by
  constructor
  · intro hm
    have hopen : ∃ r, b = Ascii.openBrace :: r := by
      rw [members?.eq_def] at hm
      split at hm
      · exact ⟨_, rfl⟩
      · cases hm
    obtain ⟨r, rfl⟩ := hopen
    obtain ⟨ns, hns⟩ := exists_isObject h
    rw [hns.members?] at hm
    cases hm
    exact hns
  · intro h
    exact h.members?

/-! Records. -/

/-- A member whose key says a name. -/
def Named (f : String × Bytes) (m : Bytes × Bytes) : Prop := Says f.1 m.1 ∧ f.2 = m.2

/-- Each of these names is the name of one member at most. -/
def Once (names : List String) (fs : List (String × Bytes)) : Prop :=
  ∀ n ∈ names, (fs.map (·.1)).count n ≤ 1

/-- What a record's text says for its fields: an object says it by name, whatever other members it
has, and an array by place. -/
inductive Tells (names : List String) (b : Bytes) : Fields → Prop
  | byName {ms : List (Bytes × Bytes)} {fs : List (String × Bytes)} (ho : IsObject b ms)
    (hn : List.Forall₂ Named fs ms) (hu : Once names fs) :
    Tells names b ⟨false, names.map fun n => fs.lookup n⟩
  | byPlace {vs : List Bytes} (ha : IsArray b vs) (hl : vs.length ≤ names.length) :
    Tells names b ⟨true, vs.map some⟩

variable {names : List String} {fs gs : List (String × Bytes)} {f : Fields} {s : String} {i : Nat}

def Known (names : List String) (fs : List (String × Bytes)) : List (String × Bytes) :=
  fs.filter fun f => names.contains f.1

theorem known_cons {v : Bytes} : Known names ((s, v) :: fs) =
    if s ∈ names then (s, v) :: Known names fs else Known names fs := by
  simp [Known, List.filter_cons]

theorem lookup_known (hs : s ∈ names) : (Known names fs).lookup s = fs.lookup s := by
  induction fs with
  | nil => rfl
  | cons f fs ih =>
    obtain ⟨n, v⟩ := f
    rw [known_cons, List.lookup_cons]
    split
    · rw [List.lookup_cons, ih]
    · rename_i hn
      have hne : s ≠ n := by
        rintro rfl
        exact hn hs
      rw [ih, beq_eq_false_iff_ne.2 hne]

theorem lookup_eq_none_iff_count : fs.lookup s = none ↔ (fs.map (·.1)).count s = 0 := by
  rw [List.lookup_eq_none_iff, List.count_eq_zero]
  simp only [List.mem_map, not_exists, not_and, bne_iff_ne, ne_eq]
  constructor
  · rintro h f hf rfl
    exact h f hf rfl
  · rintro h f hf rfl
    exact h f hf rfl

/-- A member in front is told of if its name is asked for, and no member behind it has that name. -/
theorem once_cons {v : Bytes} : Once names ((s, v) :: fs) ↔
    Once names fs ∧ (s ∈ names → fs.lookup s = none) := by
  simp only [Once, List.map_cons, List.count_cons, lookup_eq_none_iff_count]
  constructor
  · intro h
    refine ⟨fun n hn => Nat.le_trans (Nat.le_add_right _ _) (h n hn), ?_⟩
    intro hs
    have := h s hs
    simp only [BEq.rfl, if_true] at this
    omega
  · rintro ⟨h, hs⟩ n hn
    have := h n hn
    split
    · rename_i he
      have := hs (beq_iff_eq.1 he ▸ hn)
      rw [← beq_iff_eq.1 he]
      omega
    · omega

/-- Members are collected into the known fields unless one of these comes twice. -/
theorem collect_eq_some_iff : Fields.collect names ms = some gs ↔
    ∃ fs, List.Forall₂ Named fs ms ∧ Once names fs ∧ gs = Known names fs := by
  induction ms generalizing gs with
  | nil =>
    constructor
    · intro h
      cases h
      exact ⟨[], .nil, fun _ _ => Nat.zero_le _, rfl⟩
    · rintro ⟨fs, hfs, -, rfl⟩
      cases hfs
      rfl
  | cons m ms ih =>
    obtain ⟨k, v⟩ := m
    constructor
    · intro h
      obtain ⟨n, hn, h⟩ := Option.bind_eq_some_iff.1 h
      obtain ⟨hs, hhs, h⟩ := Option.bind_eq_some_iff.1 h
      obtain ⟨fs, hfs, honce, rfl⟩ := ih.1 hhs
      have hnamed := List.Forall₂.cons (R := Named) (a := (n, v)) (b := (k, v))
        ⟨string?_eq_some_iff.1 hn, rfl⟩ hfs
      refine ⟨(n, v) :: fs, hnamed, ?_⟩
      split at h
      · rename_i hk
        cases h
        have hk : n ∉ names := by simpa using hk
        exact ⟨once_cons.2 ⟨honce, fun h => absurd h hk⟩, by simp [Known, hk]⟩
      · rename_i hk
        have hk : n ∈ names := by simpa using hk
        split at h
        · cases h
        · rename_i hl
          cases h
          rw [lookup_known hk, Option.not_isSome_iff_eq_none] at hl
          exact ⟨once_cons.2 ⟨honce, fun _ => hl⟩, by rw [known_cons, if_pos hk]⟩
    · rintro ⟨fs, hfs, honce, rfl⟩
      cases hfs with
      | @cons f _ fs _ hf hfs =>
        obtain ⟨n, w⟩ := f
        obtain ⟨hkey, rfl⟩ := hf
        obtain ⟨honce, hl⟩ := once_cons.1 honce
        have hrest := ih.2 ⟨fs, hfs, honce, rfl⟩
        rw [Fields.collect, string?_eq_some_iff.2 hkey, hrest, known_cons]
        by_cases hk : n ∈ names
        · have hnone := (lookup_known hk).trans (hl hk)
          simp [hk, hnone]
        · simp [hk]

/-- The fields of a record are what its text says. -/
theorem read?_eq_some_iff (h : Derives .value b) :
    Fields.read? names (n + 1) b = some f ↔ Tells names b f := by
  constructor
  · intro hf
    rw [Fields.read?.eq_def] at hf
    dsimp only at hf
    split at hf
    · obtain ⟨vs, hvs, hf⟩ := Option.bind_eq_some_iff.1 hf
      split at hf
      · cases hf
      · rename_i hl
        cases hf
        exact .byPlace ((items?_eq_some_iff h).1 hvs) (Nat.not_lt.1 hl)
    · obtain ⟨gs, hgs, hf⟩ := Option.bind_eq_some_iff.1 hf
      obtain ⟨ms, hms, hgs⟩ := Option.bind_eq_some_iff.1 hgs
      obtain ⟨fs, hfs, honce, rfl⟩ := collect_eq_some_iff.1 hgs
      cases hf
      rw [List.map_congr_left fun n hn => lookup_known hn]
      exact .byName ((members?_eq_some_iff h).1 hms) hfs honce
  · intro ht
    cases ht with
    | @byName ms fs ho hn hu =>
      have hgs := collect_eq_some_iff.2 ⟨fs, hn, hu, rfl⟩
      have hms := ho.members?
      cases ho with
      | empty ha | full ha h =>
        change ((members? _).bind (Fields.collect names)).bind _ = _
        rw [hms, Option.bind_some, hgs]
        refine congrArg (fun vs => some (Fields.mk false vs)) ?_
        exact List.map_congr_left fun n hn => lookup_known hn
    | @byPlace vs ha hl =>
      have hvs := ha.items?
      cases ha with
      | empty ha | full ha h =>
        change ((items? _).bind _) = _
        rw [hvs, Option.bind_some, if_neg (Nat.not_lt.2 hl)]
        rfl

/-! What is told of a field is a value. -/

theorem Elements.value (h : Elements b vs) : ∀ v ∈ vs, Derives .value v := by
  induction h with
  | one hv _ => simpa using hv
  | more hv _ _ _ ih => simpa [hv] using ih

theorem Members.value (h : Members b ms) : ∀ m ∈ ms, Derives .value m.2 := by
  induction h with
  | one _ hv _ => simpa using hv
  | more _ hv _ _ _ ih => simpa [hv] using ih

theorem IsArray.value (h : IsArray b vs) : ∀ v ∈ vs, Derives .value v := by
  cases h with
  | empty _ => exact nofun
  | full _ h => exact h.value

theorem IsObject.value (h : IsObject b ms) : ∀ m ∈ ms, Derives .value m.2 := by
  cases h with
  | empty _ => exact nofun
  | full _ h => exact h.value

theorem exists_named (h : List.Forall₂ Named fs ms) (hv : fs.lookup s = some v) :
    ∃ m ∈ ms, m.2 = v := by
  induction h with
  | nil => cases hv
  | @cons f m fs ms hf _ ih =>
    obtain ⟨n, w⟩ := f
    rw [List.lookup_cons] at hv
    split at hv
    · cases hv
      exact ⟨m, List.mem_cons_self, hf.2.symm⟩
    · obtain ⟨m, hm, he⟩ := ih hv
      exact ⟨m, List.mem_cons_of_mem _ hm, he⟩

theorem get?_map_some : (Fields.mk true (vs.map some)).get? i = vs[i]? := by
  rw [Fields.get?, List.getElem?_map]
  cases vs[i]? <;> rfl

theorem Tells.value (h : Tells names b f) (hv : f.get? i = some v) : Derives .value v := by
  cases h with
  | @byName ms fs ho hn hu =>
    rw [Fields.get?, List.getElem?_map] at hv
    cases hi : names[i]? with
    | none =>
      rw [hi] at hv
      cases hv
    | some n =>
      rw [hi] at hv
      obtain ⟨m, hm, rfl⟩ := exists_named hn hv
      exact ho.value m hm
  | byPlace ha hl =>
    rw [get?_map_some] at hv
    exact ha.value v (List.mem_of_getElem? hv)

end Switchboard.Json
