import Switchboard.Discovery.Cache

/-! Lists of services read as maps: from versions to metadata, endpoints and nodes by id. -/
namespace Switchboard.Discovery

variable {s : Service} {ss ts : List Service} {n : Node} {ns ms : List Node} {id v w : String}

/-- The node that a list has under an id. -/
def nodeOf (ns : List Node) (id : String) : Option Node := ns.find? (·.id == id)

/-- The service that a list has under a version. -/
def serviceOf (ss : List Service) (v : String) : Option Service := ss.find? (·.version == v)

structure Contents where
  metadata : Dict String
  endpoints : List Endpoint
  nodes : String → Option Node

def Service.contents (s : Service) : Contents := ⟨s.metadata, s.endpoints, nodeOf s.nodes⟩

def contentsOf (ss : List Service) (v : String) : Option Contents :=
  (serviceOf ss v).map Service.contents

/-- No version stands twice, and no node within a version. -/
def IsMap (ss : List Service) : Prop :=
  (ss.map (·.version)).Nodup ∧ ∀ s ∈ ss, (s.nodes.map (·.id)).Nodup

theorem nodeOf_mem (h : nodeOf ns id = some n) : n ∈ ns := List.mem_of_find?_eq_some h

theorem nodeOf_eq_none_iff : nodeOf ns id = none ↔ ∀ n ∈ ns, n.id ≠ id := by
  simp [nodeOf, List.find?_eq_none]

theorem nodeOf_nil : nodeOf [] id = none := rfl

theorem nodeOf_append : nodeOf (ns ++ ms) id = (nodeOf ns id).or (nodeOf ms id) := by
  simp [nodeOf, List.find?_append]

theorem nodeOf_cons : nodeOf (n :: ns) id = if n.id = id then some n else nodeOf ns id := by
  by_cases h : n.id = id <;> simp [nodeOf, h]

theorem exists_nodeOf (h : ns ≠ []) : ∃ id n, nodeOf ns id = some n := by
  obtain ⟨n, ns, rfl⟩ := List.exists_cons_of_ne_nil h
  exact ⟨n.id, n, by simp [nodeOf_cons]⟩

theorem ne_nil_of_nodeOf (h : nodeOf ns id = some n) : ns ≠ [] := List.ne_nil_of_mem (nodeOf_mem h)

theorem hasId_iff : Record.hasId ns n = true ↔ (nodeOf ns n.id).isSome := by
  simp [Record.hasId, nodeOf]

/-- Removing nodes removes their ids, and no others. -/
theorem nodeOf_without :
    nodeOf (ns.filter fun n => !Record.hasId ms n) id =
      if (nodeOf ms id).isSome then none else nodeOf ns id := by
  induction ns with
  | nil => simp [nodeOf]
  | cons n ns ih =>
    rw [List.filter_cons]
    by_cases hid : n.id = id
    · subst hid
      by_cases h : Record.hasId ms n
      · have hs := hasId_iff.1 h
        simp [h, ih, hs]
      · have hs := mt hasId_iff.2 h
        simp [h, nodeOf_cons, hs]
    · by_cases h : Record.hasId ms n <;> simp [h, nodeOf_cons, ih, hid]

theorem nodeOf_filter {p : Node → Bool} (h : ∀ n : Node, n.id = id → p n = true) :
    nodeOf (ns.filter p) id = nodeOf ns id := by
  induction ns with
  | nil => rfl
  | cons n ns ih =>
    rw [List.filter_cons]
    by_cases hn : n.id = id
    · simp [h n hn, nodeOf_cons, hn]
    · by_cases hp : p n <;> simp [hp, nodeOf_cons, hn, ih]

/-- In a merged list, the nodes told of come before the old ones. -/
theorem nodeOf_mergeNodes :
    nodeOf (Cache.mergeNodes ns ms) id = (nodeOf ns id).or (nodeOf ms id) := by
  unfold Cache.mergeNodes
  induction ms generalizing ns with
  | nil => simp [nodeOf]
  | cons m ms ih =>
    rw [List.foldl_cons, ih, nodeOf_cons]
    by_cases h : Record.hasId ns m
    · obtain ⟨k, hk⟩ := Option.isSome_iff_exists.1 (hasId_iff.1 h)
      by_cases hid : m.id = id
      · subst hid
        simp [h, hk]
      · simp [h, hid]
    · have hk : nodeOf ns m.id = none := by simpa using mt hasId_iff.2 h
      by_cases hid : m.id = id
      · subst hid
        simp [h, hk, nodeOf_append, nodeOf_cons]
      · simp [h, hid, nodeOf_append, nodeOf_cons, nodeOf_nil]

/-- A node that is placed is found under its id, and hides no other. -/
theorem nodeOf_placeNode :
    nodeOf (Record.placeNode n ns) id = if n.id = id then some n else nodeOf ns id := by
  induction ns with
  | nil => simp [Record.placeNode, nodeOf_cons]
  | cons m ns ih =>
    unfold Record.placeNode
    split
    · rename_i h
      by_cases hid : n.id = id <;> simp [nodeOf_cons, hid, h]
    · rename_i h
      by_cases hm : m.id = id
      · have hn : n.id ≠ id := by
          intro hn
          exact h (hm.trans hn.symm)
        simp [nodeOf_cons, hm, hn]
      · simp [nodeOf_cons, hm, ih]

/-- The last of the nodes placed is the one that stays; ids that are distinct leave no choice. -/
theorem nodeOf_foldl_placeNode (h : (ms.map (·.id)).Nodup) :
    nodeOf (ms.foldl (fun ns n => Record.placeNode n ns) ns) id =
      (nodeOf ms id).or (nodeOf ns id) := by
  induction ms generalizing ns with
  | nil => simp [nodeOf]
  | cons m ms ih =>
    obtain ⟨hm, hms⟩ := List.nodup_cons.1 h
    rw [List.foldl_cons, ih hms, nodeOf_placeNode, nodeOf_cons]
    by_cases hid : m.id = id
    · have hn : nodeOf ms id = none := by
        refine nodeOf_eq_none_iff.2 ?_
        intro n hn he
        exact hm (List.mem_map.2 ⟨n, hn, he.trans hid.symm⟩)
      simp [hid, hn]
    · simp [hid]

/-! Ids stay distinct. -/

theorem mem_placeNode (h : n ∈ Record.placeNode m ns) : n = m ∨ n ∈ ns := by
  induction ns with
  | nil => simpa [Record.placeNode] using h
  | cons k ns ih =>
    unfold Record.placeNode at h
    split at h
    · exact (List.mem_cons.1 h).imp_right (List.mem_cons_of_mem _)
    · rcases List.mem_cons.1 h with h | h
      · exact .inr (h ▸ List.mem_cons_self)
      · exact (ih h).imp_right (List.mem_cons_of_mem _)

theorem nodup_placeNode (h : (ns.map (·.id)).Nodup) :
    ((Record.placeNode n ns).map (·.id)).Nodup := by
  induction ns with
  | nil => simp [Record.placeNode]
  | cons k ns ih =>
    obtain ⟨hk, hns⟩ := List.nodup_cons.1 h
    unfold Record.placeNode
    split
    · rename_i he
      refine List.nodup_cons.2 ⟨?_, hns⟩
      change n.id ∉ _
      rwa [← he]
    · rename_i he
      refine List.nodup_cons.2 ⟨?_, ih hns⟩
      intro hm
      obtain ⟨j, hj, hjk⟩ := List.mem_map.1 hm
      rcases mem_placeNode hj with rfl | hj
      · exact he hjk.symm
      · exact hk (List.mem_map.2 ⟨j, hj, hjk⟩)

theorem nodup_foldl_placeNode (h : (ns.map (·.id)).Nodup) :
    ((ms.foldl (fun ns n => Record.placeNode n ns) ns).map (·.id)).Nodup := by
  induction ms generalizing ns with
  | nil => exact h
  | cons m ms ih => exact ih (nodup_placeNode h)

theorem nodup_mergeNodes (h : (ns.map (·.id)).Nodup) :
    ((Cache.mergeNodes ns ms).map (·.id)).Nodup := by
  unfold Cache.mergeNodes
  induction ms generalizing ns with
  | nil => exact h
  | cons m ms ih =>
    rw [List.foldl_cons]
    by_cases hm : Record.hasId ns m
    · simpa [hm] using ih h
    · have hn : nodeOf ns m.id = none := by simpa using mt hasId_iff.2 hm
      rw [nodeOf_eq_none_iff] at hn
      rw [if_neg hm]
      refine ih ?_
      rw [List.map_append, List.nodup_append]
      refine ⟨h, by simp, ?_⟩
      intro a ha b hb he
      obtain ⟨n, hn', rfl⟩ := List.mem_map.1 ha
      exact hn n hn' (he.trans (by simpa using hb))

theorem nodup_filter {p : Node → Bool} (h : (ns.map (·.id)).Nodup) :
    ((ns.filter p).map (·.id)).Nodup :=
  (List.filter_sublist.map _).nodup h

end Switchboard.Discovery
