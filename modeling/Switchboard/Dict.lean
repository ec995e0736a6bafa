/-! String-keyed maps as lists of entries in strictly increasing key order; equal contents are equal maps. -/
namespace Switchboard

/-- The order of the keys is part of the type, so two maps with the same lookups are equal. -/
structure Dict (α : Type) where
  entries : List (String × α)
  sorted : entries.Pairwise (·.1 < ·.1)

namespace Dict
variable {α β : Type} {k j : String} {v w : α} {d e : Dict α} {xs : List (String × α)}

def lookup (k : String) : List (String × α) → Option α
  | [] => none
  | (j, v) :: xs => if j = k then some v else lookup k xs

def put (k : String) (v : α) : List (String × α) → List (String × α)
  | [] => [(k, v)]
  | (j, w) :: xs =>
    if k < j then (k, v) :: (j, w) :: xs
    else if j = k then (k, v) :: xs
    else (j, w) :: put k v xs

theorem mem_put {a : String × α} (h : a ∈ put k v xs) : a = (k, v) ∨ a ∈ xs := by
  induction xs with
  | nil => simpa [put] using h
  | cons x xs ih =>
    obtain ⟨j, w⟩ := x
    unfold put at h
    split at h
    · simpa using h
    · split at h
      · rcases List.mem_cons.1 h with h | h
        · exact .inl h
        · exact .inr (List.mem_cons_of_mem _ h)
      · rcases List.mem_cons.1 h with h | h
        · exact .inr (h ▸ List.mem_cons_self)
        · exact (ih h).imp_right (List.mem_cons_of_mem _)

theorem sorted_put (h : xs.Pairwise (·.1 < ·.1)) : (put k v xs).Pairwise (·.1 < ·.1) := by
  induction xs with
  | nil => simp [put]
  | cons x xs ih =>
    obtain ⟨j, w⟩ := x
    obtain ⟨hj, hxs⟩ := List.pairwise_cons.1 h
    unfold put
    split
    · rename_i hk
      refine List.pairwise_cons.2 ⟨fun a ha => ?_, h⟩
      rcases List.mem_cons.1 ha with rfl | ha
      · exact hk
      · exact String.lt_trans hk (hj a ha)
    · split
      · rename_i he
        subst he
        exact List.pairwise_cons.2 ⟨hj, hxs⟩
      · rename_i hk he
        refine List.pairwise_cons.2 ⟨fun a ha => ?_, ih hxs⟩
        rcases mem_put ha with rfl | ha
        · exact Std.lt_of_le_of_ne (Std.not_lt.1 hk) he
        · exact hj a ha

theorem lookup_put : lookup j (put k v xs) = if k = j then some v else lookup j xs := by
  induction xs with
  | nil => rfl
  | cons x xs ih =>
    obtain ⟨i, w⟩ := x
    unfold put
    split
    · rfl
    · split
      · rename_i he
        subst he
        by_cases hi : i = j <;> simp [lookup, hi]
      · rename_i he
        by_cases hi : i = j
        · have hk : k ≠ j := fun hk => he (hi.trans hk.symm)
          simp [lookup, hi, hk]
        · simp [lookup, hi, ih]

theorem lookup_eq_none (h : ∀ a ∈ xs, a.1 ≠ k) : lookup k xs = none := by
  induction xs with
  | nil => rfl
  | cons x xs ih =>
    simp [lookup, h x List.mem_cons_self, ih fun a ha => h a (List.mem_cons_of_mem _ ha)]

theorem lookup_eq_none_of_lt (h : ∀ a ∈ xs, k < a.1) : lookup k xs = none :=
  lookup_eq_none fun a ha he => String.lt_irrefl k (he ▸ h a ha)

def empty : Dict α := ⟨[], .nil⟩

instance : Inhabited (Dict α) := ⟨empty⟩

instance [DecidableEq α] : DecidableEq (Dict α) := fun d e =>
  decidable_of_iff (d.entries = e.entries) <| by
    cases d; cases e; simp

def get? (d : Dict α) (k : String) : Option α := lookup k d.entries

def getD (d : Dict α) (k : String) (v : α) : α := (d.get? k).getD v

def contains (d : Dict α) (k : String) : Bool := (d.get? k).isSome

def isEmpty (d : Dict α) : Bool := d.entries.isEmpty

def size (d : Dict α) : Nat := d.entries.length

def keys (d : Dict α) : List String := d.entries.map (·.1)

def values (d : Dict α) : List α := d.entries.map (·.2)

def insert (d : Dict α) (k : String) (v : α) : Dict α := ⟨put k v d.entries, sorted_put d.sorted⟩

def filter (p : String → α → Bool) (d : Dict α) : Dict α :=
  ⟨d.entries.filter fun (k, v) => p k v, d.sorted.filter _⟩

def erase (d : Dict α) (k : String) : Dict α := d.filter fun j _ => j != k

def map (f : α → β) (d : Dict α) : Dict β :=
  ⟨d.entries.map fun (k, v) => (k, f v), d.sorted.map _ fun _ _ h => h⟩

def modify (d : Dict α) (k : String) (f : α → α) : Dict α :=
  match d.get? k with
  | some v => d.insert k (f v)
  | none => d

/-- A later entry wins over an earlier one of the same key. -/
def ofList (xs : List (String × α)) : Dict α := xs.foldl (fun d (k, v) => d.insert k v) empty

/-- Entries of the second map win. -/
def union (d e : Dict α) : Dict α := e.entries.foldl (fun d (k, v) => d.insert k v) d

@[simp] theorem get?_empty : (empty : Dict α).get? k = none := rfl

@[simp] theorem get?_insert : (d.insert k v).get? j = if k = j then some v else d.get? j := lookup_put

theorem get?_insert_self : (d.insert k v).get? k = some v := by simp

theorem lookup_filter {p : String → α → Bool} (h : xs.Pairwise (·.1 < ·.1)) :
    lookup k (xs.filter fun (k, v) => p k v) = (lookup k xs).filter (p k) := by
  induction xs with
  | nil => rfl
  | cons x xs ih =>
    obtain ⟨j, w⟩ := x
    obtain ⟨hj, hxs⟩ := List.pairwise_cons.1 h
    by_cases hk : j = k
    · subst hk
      have hn : lookup j (xs.filter fun (k, v) => p k v) = none :=
        lookup_eq_none_of_lt fun a ha => hj a (List.mem_filter.1 ha).1
      cases hp : p j w <;> simp [hp, lookup, hn, Option.filter]
    · cases hp : p j w <;> simp [hp, lookup, hk, ih hxs]

theorem get?_filter {p : String → α → Bool} : (d.filter p).get? k = (d.get? k).filter (p k) :=
  lookup_filter d.sorted

@[simp] theorem get?_erase : (d.erase k).get? j = if k = j then none else d.get? j := by
  rw [erase, get?_filter]
  by_cases h : k = j
  · subst h
    cases d.get? k <;> simp [Option.filter]
  · have h' : j ≠ k := fun he => h he.symm
    cases d.get? j <;> simp [Option.filter, h, h']

theorem mem_of_lookup (h : lookup k xs = some v) : (k, v) ∈ xs := by
  induction xs with
  | nil => cases h
  | cons x xs ih =>
    obtain ⟨j, w⟩ := x
    by_cases hj : j = k
    · simp only [lookup, hj, if_true, Option.some.injEq] at h
      simp [hj, h]
    · simp only [lookup, hj, if_false] at h
      exact List.mem_cons_of_mem _ (ih h)

theorem lookup_of_mem (hs : xs.Pairwise (·.1 < ·.1)) (h : (k, v) ∈ xs) : lookup k xs = some v := by
  induction xs with
  | nil => cases h
  | cons x xs ih =>
    obtain ⟨j, w⟩ := x
    obtain ⟨hj, hxs⟩ := List.pairwise_cons.1 hs
    rcases List.mem_cons.1 h with h | h
    · obtain ⟨rfl, rfl⟩ := Prod.mk.inj h
      simp [lookup]
    · have hne : j ≠ k := fun he => String.lt_irrefl k (he ▸ hj _ h)
      simp [lookup, hne, ih hxs h]

theorem get?_eq_some_iff : d.get? k = some v ↔ (k, v) ∈ d.entries :=
  ⟨mem_of_lookup, lookup_of_mem d.sorted⟩

theorem entries_eq_of_mem_iff {ys : List (String × α)} (hx : xs.Pairwise (·.1 < ·.1))
    (hy : ys.Pairwise (·.1 < ·.1)) (h : ∀ a, a ∈ xs ↔ a ∈ ys) : xs = ys := by
  induction xs generalizing ys with
  | nil =>
    cases ys with
    | nil => rfl
    | cons y ys => exact absurd ((h y).2 List.mem_cons_self) List.not_mem_nil
  | cons x xs ih =>
    cases ys with
    | nil => exact absurd ((h x).1 List.mem_cons_self) List.not_mem_nil
    | cons y ys =>
      obtain ⟨hx', hxs⟩ := List.pairwise_cons.1 hx
      obtain ⟨hy', hys⟩ := List.pairwise_cons.1 hy
      have hxy : x = y := by
        rcases List.mem_cons.1 ((h x).1 List.mem_cons_self) with he | hm
        · exact he
        · rcases List.mem_cons.1 ((h y).2 List.mem_cons_self) with he | hm'
          · exact he.symm
          · exact absurd (String.lt_trans (hy' x hm) (hx' y hm')) (String.lt_irrefl _)
      subst hxy
      refine congrArg _ (ih hxs hys fun a => ⟨fun ha => ?_, fun ha => ?_⟩)
      · rcases List.mem_cons.1 ((h a).1 (List.mem_cons_of_mem _ ha)) with rfl | hm
        · exact absurd (hx' a ha) (String.lt_irrefl _)
        · exact hm
      · rcases List.mem_cons.1 ((h a).2 (List.mem_cons_of_mem _ ha)) with rfl | hm
        · exact absurd (hy' a ha) (String.lt_irrefl _)
        · exact hm

@[ext] theorem ext (h : ∀ k, d.get? k = e.get? k) : d = e := by
  have he : d.entries = e.entries := entries_eq_of_mem_iff d.sorted e.sorted fun (k, v) => by
    rw [← get?_eq_some_iff, ← get?_eq_some_iff, h]
  cases d; cases e; cases he; rfl

end Dict
end Switchboard
