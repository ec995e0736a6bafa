import Mathlib.Data.List.Nodup
import Mathlib.Data.List.Perm.Subperm
import Mathlib.Data.Nat.ModEq
import Switchboard.Client.Strategy

/-! The rotation of nodes. Its count is kept in 64 bits and reduced to a position only when it is
used, so the turn in which the count starts again from zero is cut short, unless the number of nodes
divides 2 ^ 64. -/
namespace Switchboard.Client.Strategy

open Discovery (Node Service)

variable {n offset k m i j : Nat} {ss : List Service}

/-- What the count stands at before a draw. -/
def count (offset k : Nat) : Nat := (offset + k) % 2 ^ 64

/-- Where a draw falls among so many nodes. -/
def position (n offset k : Nat) : Nat := count offset k % n

/-- The positions of so many draws in a row. -/
def window (n offset k m : Nat) : List Nat := (List.range m).map fun i => position n offset (k + i)

/-- No two of so many draws in a row fall on one position. -/
def Distinct (n offset k m : Nat) : Prop :=
  ∀ i < m, ∀ j < m, position n offset (k + i) = position n offset (k + j) → i = j

theorem count_lt : count offset k < 2 ^ 64 := Nat.mod_lt _ (by decide)

theorem position_lt (hn : 0 < n) : position n offset k < n := Nat.mod_lt _ hn

theorem count_add_of_lt (h : count offset k + i < 2 ^ 64) :
    count offset (k + i) = count offset k + i := by
  unfold count at *
  omega

/-- Past the end of its word the counter begins again at zero. -/
theorem count_add_of_le (h : 2 ^ 64 ≤ count offset k + i) (hi : i ≤ 2 ^ 64) :
    count offset (k + i) = count offset k + i - 2 ^ 64 := by
  unfold count at *
  omega

/-- A rotation that comes round in 2 ^ 64 draws does not show where the count starts again. -/
theorem position_of_dvd (h : n ∣ 2 ^ 64) : position n offset k = (offset + k) % n :=
  Nat.mod_mod_of_dvd _ h

theorem eq_of_add_mod_eq {a : Nat} (hi : i < n) (hj : j < n) (h : (a + i) % n = (a + j) % n) :
    i = j := by
  have hij : i % n = j % n := Nat.ModEq.add_left_cancel' a h
  rwa [Nat.mod_eq_of_lt hi, Nat.mod_eq_of_lt hj] at hij

/-- Where the nodes divide the word, the counter goes round without a seam. -/
theorem distinct_of_dvd (h : n ∣ 2 ^ 64) (hm : m ≤ n) : Distinct n offset k m := by
  intro i hi j hj hij
  rw [position_of_dvd h, position_of_dvd h, ← Nat.add_assoc, ← Nat.add_assoc] at hij
  exact eq_of_add_mod_eq (Nat.lt_of_lt_of_le hi hm) (Nat.lt_of_lt_of_le hj hm) hij

/-- Up to the end of the word no node comes twice in a round. -/
theorem distinct_of_count_le (h : count offset k + m ≤ 2 ^ 64) (hm : m ≤ n) :
    Distinct n offset k m := by
  intro i hi j hj hij
  unfold position at hij
  rw [count_add_of_lt (by omega), count_add_of_lt (by omega)] at hij
  exact eq_of_add_mod_eq (Nat.lt_of_lt_of_le hi hm) (Nat.lt_of_lt_of_le hj hm) hij

/-- Short of the end of the count by no more than the whole turns lack, the cut turn is on. -/
theorem position_before (h : count offset k + i < 2 ^ 64)
    (hr : 2 ^ 64 ≤ count offset k + i + 2 ^ 64 % n) :
    position n offset (k + i) = (count offset k + i + 2 ^ 64 % n - 2 ^ 64) % n := by
  have hdiv : n * (2 ^ 64 / n) + 2 ^ 64 % n = 2 ^ 64 := Nat.div_add_mod _ _
  have hsum : count offset k + i =
      n * (2 ^ 64 / n) + (count offset k + i + 2 ^ 64 % n - 2 ^ 64) := by omega
  rw [position, count_add_of_lt h]
  conv_lhs => rw [hsum, Nat.mul_add_mod]

theorem position_after (h : 2 ^ 64 ≤ count offset k + i) (hi : i ≤ 2 ^ 64) :
    position n offset (k + i) = (count offset k + i - 2 ^ 64) % n := by
  rw [position, count_add_of_le h hi]

/-- Draws as far apart as what whole turns lack meet when the count starts again between them. -/
theorem position_add_mod (h : count offset k + i < 2 ^ 64)
    (hr : 2 ^ 64 ≤ count offset k + i + 2 ^ 64 % n) (hi : i + 2 ^ 64 % n ≤ 2 ^ 64) :
    position n offset (k + i) = position n offset (k + (i + 2 ^ 64 % n)) := by
  rw [Nat.add_assoc] at hr
  rw [position_after hr hi, ← Nat.add_assoc, position_before h (by rwa [Nat.add_assoc])]

/-- Fewer draws than that never meet. -/
theorem distinct_of_le_mod (hn : 0 < n) (h : m ≤ 2 ^ 64 % n) : Distinct n offset k m := by
  have hr : 2 ^ 64 % n < n := Nat.mod_lt _ hn
  have hle : 2 ^ 64 % n ≤ 2 ^ 64 := Nat.mod_le _ _
  rcases Nat.lt_or_ge (2 ^ 64) (count offset k + m) with hc | hc
  · have hbefore : ∀ i < m, count offset k + i < 2 ^ 64 →
        position n offset (k + i) = count offset k + i + 2 ^ 64 % n - 2 ^ 64 := by
      intro i hi hlt
      rw [position_before hlt (by omega), Nat.mod_eq_of_lt (by omega)]
    have hafter : ∀ i < m, 2 ^ 64 ≤ count offset k + i →
        position n offset (k + i) = count offset k + i - 2 ^ 64 := by
      intro i hi hge
      have hlt : count offset k < 2 ^ 64 := count_lt
      rw [position_after hge (by omega), Nat.mod_eq_of_lt (by omega)]
    intro i hi j hj hij
    rcases Nat.lt_or_ge (count offset k + i) (2 ^ 64) with hci | hci <;>
      rcases Nat.lt_or_ge (count offset k + j) (2 ^ 64) with hcj | hcj
    · rw [hbefore i hi hci, hbefore j hj hcj] at hij
      omega
    · rw [hbefore i hi hci, hafter j hj hcj] at hij
      omega
    · rw [hafter i hi hci, hbefore j hj hcj] at hij
      omega
    · rw [hafter i hi hci, hafter j hj hcj] at hij
      omega
  · exact distinct_of_count_le hc (by omega)

/-- Draws across the end of the word meet a node twice, unless they are few. -/
theorem not_distinct (hd : ¬ n ∣ 2 ^ 64) (hc : 2 ^ 64 < count offset k + m)
    (hm : 2 ^ 64 % n < m) : ¬ Distinct n offset k m := by
  intro hdistinct
  have hr : 2 ^ 64 % n ≠ 0 := fun h => hd (Nat.dvd_of_mod_eq_zero h)
  have hle : 2 ^ 64 % n ≤ 2 ^ 64 := Nat.mod_le _ _
  have hlt : count offset k < 2 ^ 64 := count_lt
  -- the first of the draws that is as close to the end as that
  obtain ⟨i, hi⟩ : ∃ i, i = 2 ^ 64 - count offset k - 2 ^ 64 % n := ⟨_, rfl⟩
  have hmeet : position n offset (k + i) = position n offset (k + (i + 2 ^ 64 % n)) :=
    position_add_mod (by omega) (by omega) (by omega)
  have heq : i = i + 2 ^ 64 % n := hdistinct _ (by omega) _ (by omega) hmeet
  omega

/-- Exactly when so many draws are of so many nodes. -/
theorem distinct_iff (hn : 0 < n) (hm : m ≤ n) : Distinct n offset k m ↔
    n ∣ 2 ^ 64 ∨ count offset k + m ≤ 2 ^ 64 ∨ m ≤ 2 ^ 64 % n := by
  constructor
  · intro h
    by_contra hno
    obtain ⟨hd, hc, hr⟩ : ¬ n ∣ 2 ^ 64 ∧ 2 ^ 64 < count offset k + m ∧ 2 ^ 64 % n < m := by
      simpa only [not_or, not_le] using hno
    exact not_distinct hd hc hr h
  · rintro (h | h | h)
    · exact distinct_of_dvd h hm
    · exact distinct_of_count_le h hm
    · exact distinct_of_le_mod hn h

theorem window_perm_iff (hn : 0 < n) :
    (window n offset k n).Perm (List.range n) ↔ Distinct n offset k n := by
  have hsub : window n offset k n ⊆ List.range n := by
    intro p hp
    obtain ⟨i, -, rfl⟩ := List.mem_map.1 hp
    exact List.mem_range.2 (position_lt hn)
  have hnodup : (window n offset k n).Nodup ↔ Distinct n offset k n := by
    rw [window, List.nodup_map_iff_inj_on List.nodup_range]
    simp only [List.mem_range, Distinct]
  rw [← hnodup]
  constructor
  · intro h
    exact h.nodup_iff.2 List.nodup_range
  · intro h
    refine (h.subperm hsub).perm_of_length_le ?_
    simp [window]

/-- Exactly when a round later the same node comes again. -/
theorem position_add_self_iff (hn : n ≤ 2 ^ 64) :
    position n offset (k + n) = position n offset k ↔
      n ∣ 2 ^ 64 ∨ count offset k + n < 2 ^ 64 := by
  rcases Nat.lt_or_ge (count offset k + n) (2 ^ 64) with hc | hc
  · have heq : position n offset (k + n) = position n offset k := by
      rw [position, count_add_of_lt hc, Nat.add_mod_right, position]
    simp only [heq, hc, or_true]
  · have hsum : count offset k + n = (count offset k + n - 2 ^ 64) + 2 ^ 64 := by omega
    have hpos : position n offset k = ((count offset k + n - 2 ^ 64) + 2 ^ 64) % n := by
      rw [← hsum, Nat.add_mod_right, position]
    rw [position_after hc hn, hpos]
    -- the draw is as far on in the next turn of the count as this one is past a whole one
    have hdvd : n ∣ (count offset k + n - 2 ^ 64) + 2 ^ 64 - (count offset k + n - 2 ^ 64) ↔
        n ∣ 2 ^ 64 := by rw [Nat.add_sub_cancel_left]
    rw [← Nat.ModEq, Nat.modEq_iff_dvd' (Nat.le_add_right _ _), hdvd]
    exact (or_iff_left (Nat.not_lt.2 hc)).symm

theorem roundRobin_select (choose : Nat → Nat) (ss : List Service) (k : Nat) :
    roundRobin.select choose ss k = pick ss (count (choose 0) k) := by
  have h : (UInt64.ofNat (choose 0) + UInt64.ofNat k).toNat = count (choose 0) k := by
    rw [UInt64.toNat_add, UInt64.toNat_ofNat', UInt64.toNat_ofNat', ← Nat.add_mod, count]
  rw [← h, roundRobin]

/-- What draws from a rotation give, and how far they are fair. -/
structure Rotates (choose : Nat → Nat) (ss : List Service) : Prop where
  drawn : ∀ k, ∃ node, roundRobin.select choose ss k = .ok node ∧
    (nodes ss)[position (nodes ss).length (choose 0) k]? = some node
  distinct : ∀ k, ∀ m ≤ (nodes ss).length, Distinct (nodes ss).length (choose 0) k m ↔
    (nodes ss).length ∣ 2 ^ 64 ∨ count (choose 0) k + m ≤ 2 ^ 64 ∨ m ≤ 2 ^ 64 % (nodes ss).length
  once : ∀ k, (window (nodes ss).length (choose 0) k (nodes ss).length).Perm
      (List.range (nodes ss).length) ↔
    (nodes ss).length ∣ 2 ^ 64 ∨ count (choose 0) k + (nodes ss).length ≤ 2 ^ 64
  period : ∀ k, position (nodes ss).length (choose 0) (k + (nodes ss).length) =
      position (nodes ss).length (choose 0) k ↔
    (nodes ss).length ∣ 2 ^ 64 ∨ count (choose 0) k + (nodes ss).length < 2 ^ 64

/-- The rotation is fair except for the turn that the end of the count cuts short. -/
theorem roundRobin_rotates (choose : Nat → Nat) (ss : List Service) (hne : nodes ss ≠ [])
    (hlen : (nodes ss).length ≤ 2 ^ 64) : Rotates choose ss := by
  have hn : 0 < (nodes ss).length := List.length_pos_iff.2 hne
  have hr : 2 ^ 64 % (nodes ss).length < (nodes ss).length := Nat.mod_lt _ hn
  refine ⟨fun k => ?_, fun k m hm => distinct_iff hn hm, fun k => ?_, fun k => ?_⟩
  · obtain ⟨node, hnode⟩ : ∃ node, (nodes ss)[position (nodes ss).length (choose 0) k]? = some node :=
      ⟨_, List.getElem?_eq_getElem (position_lt hn)⟩
    refine ⟨node, ?_, hnode⟩
    rw [position] at hnode
    rw [roundRobin_select, pick, hnode]
  · rw [window_perm_iff hn, distinct_iff hn (Nat.le_refl _)]
    refine or_congr_right (or_iff_left fun h => ?_)
    exact absurd hr (Nat.not_lt.2 h)
  · exact position_add_self_iff hlen

/-- Three nodes in turn, from the second on. -/
theorem roundRobin_rotates_second :
    let node (id : String) : Node := ⟨id, id, .empty⟩
    let ss : List Service := [{ name := "a", version := "1", nodes := [node "n", node "m"] },
      { name := "a", version := "2", nodes := [node "l"] }]
    nodes ss ≠ [] ∧ (nodes ss).length ≤ 2 ^ 64 ∧ Rotates (fun _ => 1) ss ∧
      (window 3 1 0 3).Perm (List.range 3) ∧
      (List.range 4).map (roundRobin.select (fun _ => 1) ss) =
        [.ok (node "m"), .ok (node "l"), .ok (node "n"), .ok (node "m")] := by
  intro node ss
  have hne : nodes ss ≠ [] := nofun
  have hlen : (nodes ss).length ≤ 2 ^ 64 := by decide
  have h := roundRobin_rotates (fun _ => 1) ss hne hlen
  exact ⟨hne, hlen, h, (h.once 0).2 (.inr (by decide)), by decide +kernel⟩

/-- The last draw before the count starts again and the one after it give the same one of three
nodes, and another is left out. -/
theorem roundRobin_meets :
    let node (id : String) : Node := ⟨id, id, .empty⟩
    let ss : List Service := [{ name := "a", version := "1", nodes := [node "n", node "m"] },
      { name := "a", version := "2", nodes := [node "l"] }]
    (List.range 4).map (roundRobin.select (fun _ => 2 ^ 64 - 1) ss) =
        [.ok (node "n"), .ok (node "n"), .ok (node "m"), .ok (node "l")] ∧
      ¬ (window 3 (2 ^ 64 - 1) 0 3).Perm (List.range 3) ∧
      position 3 (2 ^ 64 - 1) (0 + 3) ≠ position 3 (2 ^ 64 - 1) 0 := by
  decide +kernel

end Switchboard.Client.Strategy
