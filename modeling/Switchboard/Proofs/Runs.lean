import Mathlib.Data.List.Induction

/-! Places in a run: what is true of the state there and of the move that is made there. -/
namespace Switchboard.Runs

variable {S M : Type} {step : S → M → S} {p q : S → M → Prop} {s : S} {ms : List M} {m : M}
  {i j : Nat}

/-- The state after the first so many moves. -/
def stage (step : S → M → S) (s : S) (ms : List M) (i : Nat) : S := (ms.take i).foldl step s

/-- Something is true of the move at a place, and of the state that it is made in. -/
def At (step : S → M → S) (p : S → M → Prop) (s : S) (ms : List M) (i : Nat) : Prop :=
  ∃ m, ms[i]? = some m ∧ p (stage step s ms i) m

theorem At.lt (h : At step p s ms i) : i < ms.length := by
  obtain ⟨m, hm, -⟩ := h
  exact (List.getElem?_eq_some_iff.1 hm).1

theorem stage_append {ns : List M} (hi : i ≤ ms.length) :
    stage step s (ms ++ ns) i = stage step s ms i := by
  rw [stage, List.take_append_of_le_length hi, stage]

theorem stage_length : stage step s ms ms.length = ms.foldl step s := by
  rw [stage, List.take_length]

/-- A run of one more move. -/
theorem at_snoc : At step p s (ms ++ [m]) i ↔
    At step p s ms i ∨ i = ms.length ∧ p (ms.foldl step s) m := by
  rcases Nat.lt_trichotomy i ms.length with hi | rfl | hi
  · simp [At, stage_append (Nat.le_of_lt hi), List.getElem?_append_left hi, Nat.ne_of_lt hi]
  · simp [At, stage_append (Nat.le_refl _), stage_length]
  · have hout : (ms ++ [m])[i]? = none := by
      rw [List.getElem?_eq_none]
      rw [List.length_append, List.length_singleton]
      exact hi
    simp [At, hout, List.getElem?_eq_none (Nat.le_of_lt hi), Nat.ne_of_gt hi]

theorem not_at_of_length_le (hi : ms.length ≤ i) : ¬ At step p s ms i :=
  fun h => absurd h.lt (Nat.not_lt.2 hi)

/-- The last place where something is true. -/
def Last (step : S → M → S) (p : S → M → Prop) (s : S) (ms : List M) (i : Nat) : Prop :=
  At step p s ms i ∧ ∀ j, i < j → ¬ At step p s ms j

theorem Last.lt (h : Last step p s ms i) : i < ms.length := h.1.lt

/-- There is one last place. -/
theorem Last.unique (h : Last step p s ms i) (h' : Last step p s ms j) : i = j := by
  rcases Nat.lt_trichotomy i j with hij | hij | hij
  · exact absurd h'.1 (h.2 j hij)
  · exact hij
  · exact absurd h.1 (h'.2 i hij)

theorem last_snoc : Last step p s (ms ++ [m]) i ↔
    i = ms.length ∧ p (ms.foldl step s) m ∨ Last step p s ms i ∧ ¬ p (ms.foldl step s) m := by
  constructor
  · rintro ⟨hi, hlater⟩
    by_cases hm : p (ms.foldl step s) m
    · refine .inl ⟨?_, hm⟩
      have hend : At step p s (ms ++ [m]) ms.length := at_snoc.2 (.inr ⟨rfl, hm⟩)
      have hlt := hi.lt
      rw [List.length_append, List.length_singleton] at hlt
      rcases Nat.lt_or_ge i ms.length with h | h
      · exact absurd hend (hlater _ h)
      · omega
    · rcases at_snoc.1 hi with hi | ⟨-, hi⟩
      · exact .inr ⟨⟨hi, fun j hj h => hlater j hj (at_snoc.2 (.inl h))⟩, hm⟩
      · exact absurd hi hm
  · rintro (⟨rfl, hm⟩ | ⟨⟨hi, hlater⟩, hm⟩)
    · refine ⟨at_snoc.2 (.inr ⟨rfl, hm⟩), ?_⟩
      intro j hj h
      have hlt := h.lt
      rw [List.length_append, List.length_singleton] at hlt
      omega
    · refine ⟨at_snoc.2 (.inl hi), ?_⟩
      intro j hj h
      rcases at_snoc.1 h with h | ⟨-, h⟩
      · exact hlater j hj h
      · exact hm h

/-- What happens at all happens for a last time. -/
theorem At.last (h : At step p s ms i) : ∃ j, Last step p s ms j := by
  induction ms using List.reverseRecOn with
  | nil => exact absurd h.lt (Nat.not_lt_zero i)
  | append_singleton ms m ih =>
    by_cases hm : p (ms.foldl step s) m
    · exact ⟨ms.length, last_snoc.2 (.inl ⟨rfl, hm⟩)⟩
    · rcases at_snoc.1 h with h | ⟨-, h⟩
      · obtain ⟨j, hj⟩ := ih h
        exact ⟨j, last_snoc.2 (.inr ⟨hj, hm⟩)⟩
      · exact absurd h hm

theorem last_snoc_self (hm : p (ms.foldl step s) m) : Last step p s (ms ++ [m]) ms.length :=
  last_snoc.2 (.inl ⟨rfl, hm⟩)

theorem Last.snoc (h : Last step p s ms i) (hm : ¬ p (ms.foldl step s) m) :
    Last step p s (ms ++ [m]) i := last_snoc.2 (.inr ⟨h, hm⟩)

/-- The one is true for the last time after the other is. -/
def Later (step : S → M → S) (p q : S → M → Prop) (s : S) (ms : List M) : Prop :=
  ∃ i j, Last step p s ms i ∧ Last step q s ms j ∧ j < i

/-- Of two happenings one at most is the later. -/
theorem Later.asymm (h : Later step p q s ms) : ¬ Later step q p s ms := by
  rintro ⟨j', i', hj', hi', hlt'⟩
  obtain ⟨i, j, hi, hj, hlt⟩ := h
  rw [hi.unique hi', hj.unique hj'] at hlt
  exact Nat.lt_asymm hlt hlt'

theorem Later.snoc (h : Later step p q s ms) (hp : ¬ p (ms.foldl step s) m)
    (hq : ¬ q (ms.foldl step s) m) : Later step p q s (ms ++ [m]) := by
  obtain ⟨i, j, hi, hj, hlt⟩ := h
  exact ⟨i, j, hi.snoc hp, hj.snoc hq, hlt⟩

/-- What is true of the last move is true later than what is not. -/
theorem later_snoc (hp : p (ms.foldl step s) m) (hq : ¬ q (ms.foldl step s) m)
    (h : Last step q s ms j) : Later step p q s (ms ++ [m]) :=
  ⟨ms.length, j, last_snoc_self hp, h.snoc hq, h.lt⟩

section

variable {α : Type} {about : α → S → M → Prop} {a : α} {xs : List α}

/-- Things stay in the order in which something was true of them, as long as it is not again. -/
theorem pairwise_later_snoc (h : xs.Pairwise fun a b => Later step (about a) (about b) s ms)
    (hm : ∀ a ∈ xs, ¬ about a (ms.foldl step s) m) :
    xs.Pairwise fun a b => Later step (about a) (about b) s (ms ++ [m]) :=
  h.imp_of_mem fun ha hb hlater => hlater.snoc (hm _ ha) (hm _ hb)

/-- What it is true of now comes first. -/
theorem pairwise_later_cons (h : xs.Pairwise fun a b => Later step (about a) (about b) s ms)
    (hm : ∀ a ∈ xs, ¬ about a (ms.foldl step s) m)
    (hlast : ∀ a ∈ xs, ∃ j, Last step (about a) s ms j) (ha : about a (ms.foldl step s) m) :
    (a :: xs).Pairwise fun a b => Later step (about a) (about b) s (ms ++ [m]) := by
  refine List.pairwise_cons.2 ⟨?_, pairwise_later_snoc h hm⟩
  intro b hb
  obtain ⟨j, hj⟩ := hlast b hb
  exact later_snoc ha (hm b hb) hj

end

/-- What is true of the same moves is true at the same places. -/
theorem at_congr (h : ∀ t, ∀ m ∈ ms, p t m ↔ q t m) :
    At step p s ms i ↔ At step q s ms i := by
  refine exists_congr fun m => and_congr_right fun hm => ?_
  exact h _ m (List.mem_of_getElem? hm)

theorem last_congr (h : ∀ t, ∀ m ∈ ms, p t m ↔ q t m) :
    Last step p s ms i ↔ Last step q s ms i := by
  simp only [Last, at_congr h]

end Switchboard.Runs
