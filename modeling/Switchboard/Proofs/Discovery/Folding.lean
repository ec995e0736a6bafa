import Switchboard.Proofs.Discovery.Replay

/-! What folding a change does to an entry: the entry goes on showing what it was told. -/
namespace Switchboard.Discovery

variable {s t : Service} {ss : List Service} {b : Board} {c : Cache} {ch : Change} {e e' : Entry}
  {now : Instant} {v name : String}

/-- The nodes of a version, none for an unknown one. -/
def nodesAt (ss : List Service) (v : String) : List Node := ((serviceOf ss v).map (·.nodes)).getD []

theorem serviceOf_cons :
    serviceOf (t :: ss) v = if t.version = v then some t else serviceOf ss v := by
  by_cases h : t.version = v <;> simp [serviceOf, h]

theorem serviceOf_eq_none_iff : serviceOf ss v = none ↔ v ∉ ss.map (·.version) := by
  simp [serviceOf, List.find?_eq_none]

theorem nodesAt_cons : nodesAt (t :: ss) v = if t.version = v then t.nodes else nodesAt ss v := by
  by_cases h : t.version = v <;> simp [nodesAt, serviceOf_cons, h]

namespace Cache

/-- News of a version changes that version only, and merges its nodes. -/
theorem serviceOf_mergeService : serviceOf (mergeService s ss) v =
    if s.version = v then some { s with nodes := mergeNodes s.nodes (nodesAt ss v) }
    else serviceOf ss v := by
  induction ss with
  | nil => simp [mergeService, nodesAt, serviceOf, mergeNodes]
  | cons t ss ih =>
    unfold mergeService
    split
    · rename_i h
      by_cases hv : s.version = v
      · simp [serviceOf_cons, nodesAt_cons, h, hv]
      · simp [serviceOf_cons, h, hv]
    · rename_i h
      by_cases hv : s.version = v
      · have ht : t.version ≠ v := by
          intro he
          exact h (he.trans hv.symm)
        simp [serviceOf_cons, nodesAt_cons, ih, hv, ht]
      · simp [serviceOf_cons, ih, hv]

/-- The version without the nodes, if it keeps any. -/
def remainder (s t : Service) : Option Service :=
  let ns := t.nodes.filter fun n => !Record.hasId s.nodes n
  if ns.isEmpty then none else some { t with nodes := ns }

/-- A version goes with its last node. -/
theorem remainder_eq_none_iff :
    remainder s t = none ↔ (t.nodes.filter fun n => !Record.hasId s.nodes n) = [] := by
  unfold remainder
  dsimp only
  split
  · rename_i h
    exact ⟨fun _ => List.isEmpty_iff.1 h, fun _ => rfl⟩
  · rename_i h
    exact ⟨nofun, fun hn => absurd (List.isEmpty_iff.2 hn) h⟩

/-- A withdrawal changes that version only, and takes away the nodes it names. -/
theorem serviceOf_removeService (h : (ss.map (·.version)).Nodup) :
    serviceOf (removeService s ss) v =
    if s.version = v then (serviceOf ss v).bind (remainder s) else serviceOf ss v := by
  induction ss with
  | nil => simp [removeService, serviceOf]
  | cons t ss ih =>
    obtain ⟨ht, hss⟩ := List.nodup_cons.1 h
    unfold removeService
    by_cases hts : t.version = s.version
    · have hnone : serviceOf ss s.version = none := serviceOf_eq_none_iff.2 (hts ▸ ht)
      rw [if_pos hts]
      by_cases hv : s.version = v
      · subst hv
        simp only [serviceOf_cons, hts, if_true, Option.bind_some, remainder]
        split
        · exact hnone
        · simp [serviceOf_cons]
      · dsimp only
        split <;> simp [serviceOf_cons, hts, hv]
    · rw [if_neg hts, serviceOf_cons, ih hss]
      by_cases hv : s.version = v
      · have htv : t.version ≠ v := by
          intro he
          exact hts (he.trans hv.symm)
        simp [serviceOf_cons, hv, htv]
      · simp [serviceOf_cons, hv]

theorem removeService_unknown (h : s.version ∉ ss.map (·.version)) : removeService s ss = ss := by
  induction ss with
  | nil => rfl
  | cons t ss ih =>
    simp only [List.map_cons, List.mem_cons, not_or] at h
    rw [removeService, if_neg fun he => h.1 he.symm, ih h.2]

theorem versions_mergeService : (mergeService s ss).map (·.version) =
    if s.version ∈ ss.map (·.version) then ss.map (·.version)
    else ss.map (·.version) ++ [s.version] := by
  induction ss with
  | nil => simp [mergeService]
  | cons t ss ih =>
    unfold mergeService
    split
    · rename_i h
      simp [h]
    · rename_i h
      have h' : s.version ≠ t.version := by
        intro he
        exact h he.symm
      rw [List.map_cons, ih]
      by_cases hm : s.version ∈ ss.map (·.version)
      · simp [hm]
      · simp [hm, h']

theorem mem_mergeService (h : t ∈ mergeService s ss) :
    t ∈ ss ∨ ∃ ns, t = { s with nodes := mergeNodes s.nodes ns } := by
  induction ss with
  | nil => exact .inr ⟨[], by simpa [mergeService, mergeNodes] using h⟩
  | cons u ss ih =>
    unfold mergeService at h
    split at h
    · rcases List.mem_cons.1 h with h | h
      · exact .inr ⟨u.nodes, h⟩
      · exact .inl (List.mem_cons_of_mem _ h)
    · rcases List.mem_cons.1 h with h | h
      · exact .inl (h ▸ List.mem_cons_self)
      · exact (ih h).imp_left (List.mem_cons_of_mem _)

theorem mem_removeService (h : t ∈ removeService s ss) :
    t ∈ ss ∨ ∃ u ∈ ss, t = { u with nodes := u.nodes.filter fun n => !Record.hasId s.nodes n } := by
  induction ss with
  | nil => cases h
  | cons u ss ih =>
    have tail (h : t ∈ ss) : t ∈ u :: ss := List.mem_cons_of_mem _ h
    unfold removeService at h
    by_cases hu : u.version = s.version
    · rw [if_pos hu] at h
      dsimp only at h
      split at h
      · exact .inl (tail h)
      · exact (List.mem_cons.1 h).elim (fun h => .inr ⟨u, List.mem_cons_self, h⟩)
          fun h => .inl (tail h)
    · rw [if_neg hu] at h
      rcases List.mem_cons.1 h with rfl | h
      · exact .inl List.mem_cons_self
      · rcases ih h with h | ⟨w, hw, h⟩
        · exact .inl (tail h)
        · exact .inr ⟨w, List.mem_cons_of_mem _ hw, h⟩

/-- A withdrawal adds no version and moves none. -/
theorem versions_removeService :
    ((removeService s ss).map (·.version)).Sublist (ss.map (·.version)) := by
  induction ss with
  | nil => exact .refl _
  | cons t ss ih =>
    unfold removeService
    split
    · dsimp only
      split
      · exact .cons _ (.refl _)
      · exact .refl _
    · exact ih.cons_cons _

theorem nodup_versions_mergeService (h : (ss.map (·.version)).Nodup) :
    ((mergeService s ss).map (·.version)).Nodup := by
  rw [versions_mergeService]
  split
  · exact h
  · rename_i hn
    refine List.nodup_append.2 ⟨h, by simp, ?_⟩
    intro a ha b hb he
    rw [List.mem_singleton.1 hb] at he
    exact hn (he ▸ ha)

/-- News of nodes named once each keeps every node once. -/
theorem isMap_mergeService (h : IsMap ss) (hs : (s.nodes.map (·.id)).Nodup) :
    IsMap (mergeService s ss) where
  left := nodup_versions_mergeService h.1
  right t ht := by
    rcases mem_mergeService ht with ht | ⟨ns, rfl⟩
    · exact h.2 t ht
    · exact nodup_mergeNodes hs

theorem isMap_removeService (h : IsMap ss) : IsMap (removeService s ss) where
  left := versions_removeService.nodup h.1
  right t ht := by
    rcases mem_removeService ht with ht | ⟨u, hu, rfl⟩
    · exact h.2 t ht
    · exact nodup_filter (h.2 u hu)

/-! The cache around an entry. -/

@[simp] theorem store_get? {d : Cache} {ts : List Service} {n : String} :
    (d.store now n ts).entries.get? name =
    if n = name then some ⟨ts, now + d.ttl⟩ else d.entries.get? name := by simp [store]

theorem drop_get? (h : c.status = none) (n : String) :
    (c.drop now n).entries.get? name = if n = name then none else c.entries.get? name := by
  simp [drop, h]

theorem drop_get?_of_ne {n : String} (h : n ≠ name) :
    (c.drop now n).entries.get? name = c.entries.get? name := by
  unfold drop
  split
  · unfold Dict.modify
    split <;> simp [h]
  · simp [h]

/-- A change concerns the entry of its service only. -/
theorem fold_get?_of_ne (h : ch.service.name ≠ name) :
    (c.fold now ch).entries.get? name = c.entries.get? name := by
  unfold fold
  simp only
  split
  · rfl
  · split
    · rfl
    · split
      · split
        · exact drop_get?_of_ne h
        · rfl
      · split
        · split
          · rfl
          · split
            · exact drop_get?_of_ne h
            · simp [h]
        · simp [h]

theorem fold_get?_none (h : c.entries.get? ch.service.name = none) : c.fold now ch = c := by
  unfold fold
  simp only [h]
  split <;> rfl

end Cache

/-- What a change has to be like for a cache to follow it: news of a version names nodes, each once.
-/
def Change.Plain (ch : Change) : Prop :=
  ch.kind ≠ .delete → ch.service.nodes ≠ [] ∧ (ch.service.nodes.map (·.id)).Nodup

instance : Decidable ch.Plain := inferInstanceAs (Decidable (ch.kind ≠ .delete → _ ∧ _))

namespace Board

theorem Shows.nodes_eq (h : b.Shows ss) (v : String) : b.nodes v = nodeOf (nodesAt ss v) := by
  cases hs : serviceOf ss v with
  | none => exact funext fun id => by simp [h.absent v hs id, nodesAt, hs, nodeOf_nil]
  | some s => simpa [nodesAt, hs] using (h.present v s hs).2.2

/-- Folding in news shows the board with the news on it. -/
theorem shows_mergeService (h : b.Shows ss) (hk : ch.kind ≠ .delete) (hne : ch.service.nodes ≠ []) :
    (b.apply ch).Shows (Cache.mergeService ch.service ss) where
  present v t ht := by
    rw [Cache.serviceOf_mergeService] at ht
    by_cases hv : ch.service.version = v
    · simp only [hv, if_true, Option.some.injEq] at ht
      subst ht
      obtain ⟨id, n, hid⟩ := exists_nodeOf hne
      refine ⟨@ne_nil_of_nodeOf n _ id ?_, by simp [apply, hk, hv], ?_⟩
      · simp [nodeOf_mergeNodes, hid]
      · funext id
        simp [apply, hk, hv, nodeOf_mergeNodes, h.nodes_eq]
    · simp only [hv, if_false] at ht
      simpa [apply, hk, hv] using h.present v t ht
  absent v ht id := by
    rw [Cache.serviceOf_mergeService] at ht
    by_cases hv : ch.service.version = v
    · simp [hv] at ht
    · simp only [hv, if_false] at ht
      simp [apply, hk, hv, h.absent v ht id]

/-- Folding in a withdrawal shows the board with that on it. -/
theorem shows_removeService (h : b.Shows ss) (hss : (ss.map (·.version)).Nodup)
    (hk : ch.kind = .delete) :
    (b.apply ch).Shows (Cache.removeService ch.service ss) where
  present v t ht := by
    rw [Cache.serviceOf_removeService hss] at ht
    by_cases hv : ch.service.version = v
    · simp only [hv, if_true] at ht
      obtain ⟨s, hs, ht⟩ := Option.bind_eq_some_iff.1 ht
      obtain ⟨-, hf, hn⟩ := h.present v s hs
      simp only [Cache.remainder, List.isEmpty_iff] at ht
      split at ht
      · cases ht
      · rename_i hne
        cases ht
        exact ⟨hne, by simp [apply, hk, hf],
          funext fun id => by simp [apply, hk, hv, hn, nodeOf_without]⟩
    · simp only [hv, if_false] at ht
      simpa [apply, hk, hv] using h.present v t ht
  absent v ht id := by
    rw [Cache.serviceOf_removeService hss] at ht
    by_cases hv : ch.service.version = v
    · simp only [hv, if_true, Option.bind_eq_none_iff] at ht
      cases hs : serviceOf ss v with
      | none => simp [apply, hk, h.absent v hs id]
      | some s =>
        have hr := Cache.remainder_eq_none_iff.1 (ht s hs)
        have hn := (h.present v s hs).2.2
        have hw : nodeOf (s.nodes.filter fun n => !Record.hasId ch.service.nodes n) id = _ :=
          nodeOf_without
        rw [hr, nodeOf_nil] at hw
        simp [apply, hk, hv, hn, ← hw]
    · simp only [hv, if_false] at ht
      simp [apply, hk, hv, h.absent v ht id]

end Board

/-- An entry that shows a board shows the board with the change after it, if it is still there. -/
theorem Cache.fold_shows (hw : c.watched.contains ch.service.name) (hst : c.status = none)
    (he : c.entries.get? ch.service.name = some e) (hm : IsMap e.services) (hb : b.Shows e.services)
    (hp : ch.Plain) (he' : (c.fold now ch).entries.get? ch.service.name = some e') :
    IsMap e'.services ∧ (b.apply ch).Shows e'.services := by
  have hrm := isMap_removeService (s := ch.service) hm
  have hmm := fun hids => isMap_mergeService (s := ch.service) hm hids
  unfold fold at he'
  simp only [hw, he, Bool.not_true, if_false, Bool.false_eq_true] at he'
  split at he'
  · rename_i hn
    have hn := List.isEmpty_iff.1 hn
    split at he'
    · simp [drop_get? hst] at he'
    · rename_i hk
      exact absurd hn (hp hk).1
  · split at he'
    · rename_i hk
      have hrs := Board.shows_removeService hb hm.1 hk
      split at he'
      · rename_i hu
        have hn : ch.service.version ∉ e.services.map (·.version) := by simpa using hu
        rw [he, Option.some.injEq] at he'
        rw [removeService_unknown hn] at hrm hrs
        exact he' ▸ ⟨hrm, hrs⟩
      · split at he'
        · simp [drop_get? hst] at he'
        · simp only [store_get?, if_true, Option.some.injEq] at he'
          subst he'
          exact ⟨hrm, hrs⟩
    · rename_i hk
      obtain ⟨hne, hids⟩ := hp hk
      simp only [store_get?, if_true, Option.some.injEq] at he'
      subst he'
      exact ⟨hmm hids, Board.shows_mergeService hb hk hne⟩

theorem Cache.mergeService_ne_nil : mergeService s ss ≠ [] := by
  cases ss with
  | nil => exact List.cons_ne_nil _ _
  | cons t ss =>
    unfold mergeService
    split <;> exact List.cons_ne_nil _ _

/-- An entry is dropped rather than left empty. -/
theorem Cache.fold_ne_nil (he : c.entries.get? ch.service.name = some e) (hne : e.services ≠ [])
    (hst : c.status = none) (he' : (c.fold now ch).entries.get? ch.service.name = some e') :
    e'.services ≠ [] := by
  have same (h : c.entries.get? ch.service.name = some e') : e'.services ≠ [] := by
    rw [he, Option.some.injEq] at h
    exact h ▸ hne
  unfold fold at he'
  simp only [he] at he'
  split at he'
  · exact same he'
  · split at he'
    · split at he'
      · simp [drop_get? hst] at he'
      · exact same he'
    · split at he'
      · split at he'
        · exact same he'
        · split at he'
          · simp [drop_get? hst] at he'
          · rename_i hss
            simp only [store_get?, if_true, Option.some.injEq] at he'
            exact he' ▸ hss
      · simp only [store_get?, if_true, Option.some.injEq] at he'
        exact he' ▸ mergeService_ne_nil

end Switchboard.Discovery
