import Mathlib.Algebra.GroupWithZero.Nat
import Mathlib.Data.List.Induction
import Switchboard.Client.Pool

/-! What a pool holds, and that none of its operations loses or doubles a connection. -/
namespace Switchboard.Client

variable {p : Pool} {c : Connection} {now : Instant} {address : String} {failed : Bool}
  {k : String} {xs : List (String × List Connection)} {v : List Connection}

/-- What is put in the place of another value leaves those of the other keys as they are. -/
theorem sum_put {α : Type} (weigh : α → Nat) {v : α} {xs : List (String × α)}
    (hs : xs.Pairwise (·.1 < ·.1)) :
    ((Dict.put k v xs).map fun x => weigh x.2).sum + ((Dict.lookup k xs).map weigh).getD 0 =
      (xs.map fun x => weigh x.2).sum + weigh v := by
  induction xs with
  | nil => simp [Dict.put, Dict.lookup]
  | cons x xs ih =>
    obtain ⟨j, w⟩ := x
    obtain ⟨hj, hxs⟩ := List.pairwise_cons.1 hs
    unfold Dict.put
    split
    · rename_i hk
      have hnone : Dict.lookup k ((j, w) :: xs) = none := by
        refine Dict.lookup_eq_none_of_lt ?_
        intro a ha
        rcases List.mem_cons.1 ha with rfl | ha
        · exact hk
        · exact String.lt_trans hk (hj a ha)
      simp only [hnone, List.map_cons, List.sum_cons, Option.map_none, Option.getD_none]
      omega
    · split
      · rename_i he
        simp only [he, Dict.lookup, if_true, List.map_cons, List.sum_cons, Option.map_some,
          Option.getD_some]
        omega
      · rename_i he
        have ih := ih hxs
        simp only [he, Dict.lookup, if_false, List.map_cons, List.sum_cons]
        omega

theorem count_put (hs : xs.Pairwise (·.1 < ·.1)) :
    ((Dict.put k v xs).map (·.2)).flatten.count c + ((Dict.lookup k xs).getD []).count c =
      (xs.map (·.2)).flatten.count c + v.count c := by
  have hsum := sum_put (k := k) (List.count c) (v := v) hs
  have hold : ((Dict.lookup k xs).map (List.count c)).getD 0 =
      ((Dict.lookup k xs).getD []).count c := by
    cases Dict.lookup k xs <;> rfl
  rw [hold] at hsum
  simpa only [List.count_flatten, List.map_map, Function.comp_def] using hsum

namespace Pool

/-- Every connection at rest in the pool. -/
def stock (p : Pool) : List Connection := p.idle.values.flatten

/-- Each connection is filed under its own address, and there is no more than room for. -/
def Housed (p : Pool) : Prop :=
  ∀ address, (∀ c ∈ p.idleAt address, c.address = address) ∧ (p.idleAt address).length ≤ p.size

theorem count_insert (p : Pool) (address : String) (cs : List Connection) :
    ({ p with idle := p.idle.insert address cs } : Pool).stock.count c +
      (p.idleAt address).count c = p.stock.count c + cs.count c :=
  count_put p.idle.sorted

theorem idleAt_insert {a : String} {cs : List Connection} :
    ({ p with idle := p.idle.insert address cs } : Pool).idleAt a =
      if address = a then cs else p.idleAt a := by
  rw [idleAt, Dict.getD, Dict.get?_insert]
  split <;> rfl

theorem idleAt_sublist (p : Pool) (address : String) : (p.idleAt address).Sublist p.stock := by
  rw [idleAt, Dict.getD]
  cases hg : p.idle.get? address with
  | none => exact List.nil_sublist _
  | some cs =>
    refine List.sublist_flatten_of_mem ?_
    exact List.mem_map.2 ⟨(address, cs), Dict.get?_eq_some_iff.1 hg, rfl⟩

/-- What a pool had idle it has yet, gives up as expired, or hands out. -/
theorem acquire_perm (p : Pool) (now : Instant) (address : String) :
    ((p.acquire now address).1.stock ++ (p.acquire now address).2.expired ++
      (p.acquire now address).2.found.toList).Perm p.stock := by
  refine List.perm_iff_count.2 ?_
  intro c
  have hcount := count_insert (c := c) p address
    ((p.idleAt address).dropWhile (p.isExpired now)).tail
  have hsplit := congrArg (List.count c)
    (List.takeWhile_append_dropWhile (p := p.isExpired now) (l := p.idleAt address))
  rw [List.count_append] at hsplit
  simp only [acquire, List.count_append]
  cases hrest : (p.idleAt address).dropWhile (p.isExpired now) with
  | nil =>
    simp only [hrest, List.tail_nil, List.head?_nil, Option.toList_none, List.count_nil] at *
    omega
  | cons d rest =>
    simp only [hrest, List.tail_cons, List.head?_cons, Option.toList_some, List.count_cons,
      List.count_nil] at *
    omega

theorem acquire_subset : (p.acquire now address).1.stock ⊆ p.stock := by
  intro c hc
  refine (acquire_perm p now address).subset ?_
  exact List.mem_append_left _ (List.mem_append_left _ hc)

theorem nodup_acquire (hp : (p.stock.map (·.id)).Nodup) :
    ((p.acquire now address).1.stock.map (·.id)).Nodup := by
  have hsub := (List.sublist_append_left (p.acquire now address).1.stock
    (p.acquire now address).2.expired).trans
    (List.sublist_append_left _ (p.acquire now address).2.found.toList)
  exact (((acquire_perm p now address).map _).nodup_iff.2 hp).sublist (hsub.map _)

theorem found_mem (hf : (p.acquire now address).2.found = some c) : c ∈ p.stock := by
  refine (acquire_perm p now address).subset ?_
  rw [hf]
  exact List.mem_append_right _ (List.mem_singleton_self c)

/-- A connection that is found is in the pool no more. -/
theorem found_not_mem (hp : (p.stock.map (·.id)).Nodup)
    (hf : (p.acquire now address).2.found = some c) :
    c.id ∉ (p.acquire now address).1.stock.map (·.id) := by
  have hnodup := ((acquire_perm p now address).map (·.id)).nodup_iff.2 hp
  rw [hf, List.map_append, List.map_append] at hnodup
  intro hin
  exact (List.nodup_append.1 hnodup).2.2 _ (List.mem_append_left _ hin) _ (by simp) rfl

/-- A connection that comes back is idle or discarded. -/
theorem release_perm (p : Pool) (c : Connection) (failed : Bool) :
    ((p.release c failed).1.stock ++ (p.release c failed).2.toList).Perm (c :: p.stock) := by
  refine List.perm_iff_count.2 ?_
  intro d
  have hcount := count_insert (c := d) p c.address (c :: p.idleAt c.address)
  unfold release
  dsimp only
  split
  · simp only [Option.toList_none, List.append_nil, List.count_cons] at hcount ⊢
    omega
  · simp only [Option.toList_some, List.count_append, List.count_cons, List.count_nil]
    omega

theorem release_subset : (p.release c failed).1.stock ⊆ c :: p.stock := by
  intro d hd
  exact (release_perm p c failed).subset (List.mem_append_left _ hd)

theorem nodup_release (hp : (p.stock.map (·.id)).Nodup) (hc : c.id ∉ p.stock.map (·.id)) :
    ((p.release c failed).1.stock.map (·.id)).Nodup := by
  have hnodup : ((c :: p.stock).map (·.id)).Nodup := List.nodup_cons.2 ⟨hc, hp⟩
  have hperm := (release_perm p c failed).map (·.id)
  exact (hperm.nodup_iff.2 hnodup).sublist ((List.sublist_append_left _ _).map _)

theorem count_flatMap_reverse (xs : List (List Connection)) :
    (xs.flatMap List.reverse).count c = xs.flatten.count c := by
  induction xs with
  | nil => rfl
  | cons x xs ih => simp [ih]

theorem drain_perm (p : Pool) : p.drain.2.Perm p.stock :=
  List.perm_iff_count.2 fun _ => count_flatMap_reverse _

theorem stock_drain (p : Pool) : p.drain.1.stock = [] := rfl

theorem release_failed (p : Pool) (c : Connection) : p.release c true = (p, some c) := rfl

/-- An address has no empty list, and no more connections than the pool may keep. -/
theorem Housed.acquire (hp : p.Housed) (now : Instant) (address : String) :
    (p.acquire now address).1.Housed := by
  intro a
  have hsub : List.Sublist ((p.idleAt address).dropWhile (p.isExpired now)).tail
      (p.idleAt address) := (List.tail_sublist _).trans (List.dropWhile_sublist _)
  simp only [Pool.acquire, idleAt_insert]
  split
  · rename_i ha
    subst ha
    refine ⟨?_, Nat.le_trans hsub.length_le (hp address).2⟩
    intro c hc
    exact (hp address).1 c (hsub.subset hc)
  · exact hp a

theorem Housed.release (hp : p.Housed) (c : Connection) (failed : Bool) :
    (p.release c failed).1.Housed := by
  unfold Pool.release
  dsimp only
  split
  · rename_i hl
    simp only [Bool.and_eq_true, decide_eq_true_eq] at hl
    intro a
    simp only [idleAt_insert]
    split
    · rename_i ha
      refine ⟨?_, hl.2⟩
      intro d hd
      rcases List.mem_cons.1 hd with rfl | hd
      · exact ha
      · exact ((hp _).1 d hd).trans ha
    · exact hp a
  · exact hp

theorem Housed.drain (p : Pool) : p.drain.1.Housed := fun _ => ⟨nofun, Nat.zero_le _⟩

theorem size_release : (p.release c failed).1.size = p.size := by
  unfold release
  dsimp only
  split <;> rfl

theorem outcome_append {xs : List (Except Transport.Error Unit)} {e : Except Transport.Error Unit} :
    outcome (xs ++ [e]) = match e with
      | .ok () => outcome xs
      | .error x => .error x := by
  rw [outcome, List.foldl_append]
  rfl

/-- Closing fails exactly when one of the connections failed to close. -/
theorem outcome_ne_ok_iff {xs : List (Except Transport.Error Unit)} :
    outcome xs ≠ .ok () ↔ ∃ e ∈ xs, e ≠ .ok () := by
  induction xs using List.reverseRecOn with
  | nil => simp [outcome]
  | append_singleton xs e ih =>
    rw [outcome_append]
    cases e with
    | ok _ => simpa using ih
    | error x => simp

end Pool
end Switchboard.Client
