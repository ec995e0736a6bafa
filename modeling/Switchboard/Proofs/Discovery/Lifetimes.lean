import Switchboard.Proofs.Discovery.Deletion
import Switchboard.Proofs.Discovery.Records

/-! Which nodes of a catalog are alive: those that a lookup gives and those that were just
registered. -/
namespace Switchboard.Discovery

variable {c c' : Catalog} {r : Record} {s : Service} {ss : List Service} {ch : Change}
  {ttl : Option Duration} {now : Instant} {ns : List Node} {name v id : String}

namespace Record

theorem get?_expiry_foldl (ns : List Node) (r : Record) :
    (ns.foldl (addNode now ttl) r).expiry.get? id =
      if (nodeOf ns id).isSome then ttl.map (now + ·) else r.expiry.get? id := by
  induction ns generalizing r with
  | nil => simp [nodeOf_nil]
  | cons n ns ih =>
    rw [List.foldl_cons, ih, nodeOf_cons]
    by_cases htail : (nodeOf ns id).isSome
    · by_cases hn : n.id = id <;> simp [htail, hn]
    · by_cases hn : n.id = id <;> cases ttl <;> simp [htail, hn, addNode]

theorem isSome_nodeOf_foldl (ns ms : List Node)
    (h : (nodeOf ns id).isSome ∨ (nodeOf ms id).isSome) :
    (nodeOf (ns.foldl (fun ms n => placeNode n ms) ms) id).isSome := by
  induction ns generalizing ms with
  | nil => exact h.resolve_left nofun
  | cons n ns ih =>
    refine ih _ ?_
    rw [nodeOf_placeNode]
    rw [nodeOf_cons] at h
    split
    · exact .inr rfl
    · rename_i hn
      rwa [if_neg hn] at h

/-- A node that is registered to last lives from then on, be it for one moment. -/
theorem live_merge (ht : ttl ≠ some 0) (h : (nodeOf s.nodes id).isSome) :
    (nodeOf ((r.merge now s ttl).live now).nodes id).isSome := by
  have hexpiry : (r.merge now s ttl).expiry.get? id = ttl.map (now + ·) := by
    rw [merge, get?_expiry_foldl, if_pos h]
  have hlive : ∀ n : Node, n.id = id → (r.merge now s ttl).isLive now n = true := by
    intro n hn
    rw [isLive, hn, hexpiry]
    cases ttl with
    | none => rfl
    | some d =>
      have hd : d ≠ 0 := fun he => ht (by rw [he])
      exact decide_eq_true (Nat.lt_add_of_pos_right (Nat.pos_of_ne_zero hd))
  rw [live, nodeOf_filter hlive, service_merge]
  exact isSome_nodeOf_foldl _ _ (.inl h)

end Record

namespace Catalog

/-- The node is registered, was not taken back, and its time is not over. -/
def Live (c : Catalog) (now : Instant) (name v id : String) : Prop :=
  ∃ r, c.record? name v = some r ∧ (nodeOf (r.live now).nodes id).isSome

instance : Decidable (c.Live now name v id) :=
  match h : c.record? name v with
  | some r => decidable_of_iff ((nodeOf (r.live now).nodes id).isSome = true) (by simp [Live, h])
  | none => isFalse (by simp [Live, h])

/-- All that a lookup gives is alive. -/
theorem live_of_lookup (hc : c.WellFormed) (h : c.lookup now name = .ok ss)
    (hl : Lists ss v id) : c.Live now name v id := by
  obtain ⟨rfl, -⟩ := lookup_eq_ok_iff.1 h
  obtain ⟨s, hs, hv, hn⟩ := hl
  obtain ⟨r, hr, rfl⟩ := List.mem_map.1 (List.mem_filter.1 hs).1
  obtain ⟨⟨w, r⟩, hw, rfl⟩ := List.mem_map.1 hr
  have hrec : c.record? name w = some r := Dict.get?_eq_some_iff.2 hw
  obtain rfl : w = v := (hc.filed name w r hrec).2.symm.trans hv
  exact ⟨r, hrec, hn⟩

theorem live_register (h : c.register now s ttl = .ok (c', ch)) (ht : ttl ≠ some 0)
    (hn : ch.Names name v id) : c'.Live now name v id := by
  obtain ⟨-, rfl, hrec⟩ := register_inv h
  obtain ⟨rfl, rfl, hid⟩ := hn
  exact ⟨_, by rw [hrec]; exact if_pos ⟨rfl, rfl⟩, Record.live_merge ht hid⟩

end Catalog
end Switchboard.Discovery
