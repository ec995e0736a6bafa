import Switchboard.Proofs.Discovery.Replay

/-! What registering and taking back does to the records of a catalog, and what never happens to
one. -/
namespace Switchboard

namespace Dict

variable {α : Type} {d : Dict α} {k : String}

theorem eq_empty_of_isEmpty (h : d.isEmpty = true) : d = empty := by
  obtain ⟨xs, hs⟩ := d
  cases List.isEmpty_iff.1 h
  rfl

theorem isEmpty_eq_false_of_get? {v : α} (h : d.get? k = some v) : d.isEmpty = false := by
  rw [Bool.eq_false_iff]
  intro he
  rw [eq_empty_of_isEmpty he] at h
  cases h

end Dict

namespace Discovery

variable {c : Catalog} {r : Record} {s : Service} {ch : Change} {ttl : Option Duration}
  {now : Instant} {n : Node} {ns : List Node} {name v id : String}

namespace Record

/-- A registration replaces the facts of a record and puts its nodes among the old ones. -/
theorem service_merge : (r.merge now s ttl).service =
    { r.service with
      metadata := s.metadata
      endpoints := s.endpoints
      nodes := s.nodes.foldl (fun ns n => placeNode n ns) r.service.nodes } := by
  suffices h : ∀ (ns : List Node) (r : Record), (ns.foldl (addNode now ttl) r).service =
      { r.service with nodes := ns.foldl (fun ns n => placeNode n ns) r.service.nodes } from h _ _
  intro ns
  induction ns with
  | nil => intro r; rfl
  | cons n ns ih => intro r; simp [ih, addNode]

/-- A node that is not mentioned goes on as before. -/
theorem get?_expiry_merge (h : nodeOf s.nodes id = none) :
    (r.merge now s ttl).expiry.get? id = r.expiry.get? id := by
  suffices hf : ∀ (ns : List Node) (r : Record), nodeOf ns id = none →
      (ns.foldl (addNode now ttl) r).expiry.get? id = r.expiry.get? id from hf _ _ h
  intro ns
  induction ns with
  | nil => intro r _; rfl
  | cons n ns ih =>
    intro r h
    rw [nodeOf_cons] at h
    split at h
    · cases h
    · rename_i hn
      rw [List.foldl_cons, ih _ h]
      cases ttl <;> simp [addNode, hn]

/-- Every expiry belongs to a node of the record. -/
def Owned (r : Record) : Prop :=
  ∀ id, (r.expiry.get? id).isSome → (nodeOf r.service.nodes id).isSome

/-- No node is to expire. -/
def Untimed (r : Record) : Prop := ∀ id, r.expiry.get? id = none

theorem owned_addNode (h : r.Owned) : (addNode now ttl r n).Owned := by
  intro id hid
  simp only [addNode] at hid ⊢
  rw [nodeOf_placeNode]
  by_cases hn : n.id = id
  · simp [hn]
  · rw [if_neg hn]
    refine h id ?_
    cases ttl <;> simpa [hn] using hid

theorem owned_merge (h : r.Owned) : (r.merge now s ttl).Owned := by
  suffices hf : ∀ (ns : List Node) (r : Record), r.Owned → (ns.foldl (addNode now ttl) r).Owned from
    hf _ _ h
  intro ns
  induction ns with
  | nil => intro r h; exact h
  | cons n ns ih => intro r h; exact ih _ (owned_addNode h)

theorem untimed_merge (h : r.Untimed) : (r.merge now s none).Untimed := by
  suffices hf : ∀ (ns : List Node) (r : Record),
      r.Untimed → (ns.foldl (addNode now none) r).Untimed from
    hf _ _ h
  intro ns
  induction ns with
  | nil => intro r h; exact h
  | cons n ns ih => intro r h; exact ih _ fun id => by simp [addNode, h id]

theorem get?_foldl_erase {d : Dict Instant} :
    (ns.foldl (fun e n => e.erase n.id) d).get? id =
      if (nodeOf ns id).isSome then none else d.get? id := by
  induction ns generalizing d with
  | nil => simp [nodeOf_nil]
  | cons n ns ih =>
    rw [List.foldl_cons, ih, nodeOf_cons]
    by_cases hn : n.id = id <;> simp [hn]

theorem owned_removeNodes (h : r.Owned) : (r.removeNodes ns).Owned := by
  intro id hid
  simp only [removeNodes, get?_foldl_erase] at hid ⊢
  rw [nodeOf_without]
  split at hid
  · cases hid
  · rename_i hn
    rw [if_neg hn]
    exact h id hid

theorem untimed_removeNodes (h : r.Untimed) : (r.removeNodes ns).Untimed := by
  intro id
  simp [removeNodes, get?_foldl_erase, h id]

theorem live_of_untimed (h : r.Untimed) : r.live now = r.service := by
  have hl : ∀ n ∈ r.service.nodes, r.isLive now n = true := by
    intro n _
    simp [isLive, h n.id]
  rw [live, List.filter_eq_self.2 hl]

end Record

namespace Catalog

theorem versionsOf_setVersions {vs : Dict Record} {m : String} :
    (c.setVersions m vs).versionsOf name = if m = name then vs else c.versionsOf name := by
  unfold setVersions versionsOf Dict.getD
  by_cases hm : m = name
  · split
    · rename_i he
      simp [hm, Dict.eq_empty_of_isEmpty he]
    · simp [hm]
  · split <;> simp [hm]

theorem record?_setVersions {vs : Dict Record} {m : String} :
    (c.setVersions m vs).record? name v = if m = name then vs.get? v else c.record? name v := by
  unfold record?
  rw [versionsOf_setVersions]
  split <;> rfl

/-- What registering leaves under the version of the service. -/
def registered (c : Catalog) (now : Instant) (s : Service) (ttl : Option Duration) : Record :=
  ((c.record? s.name s.version).getD (Record.fresh s)).merge now s ttl

def newsOf (c : Catalog) (s : Service) : Change :=
  ⟨if (c.record? s.name s.version).isSome then .update else .create, s⟩

theorem register_eq (h : s.name ≠ "") : c.register now s ttl =
    .ok (⟨c.versions.insert s.name
      ((c.versionsOf s.name).insert s.version (c.registered now s ttl))⟩, c.newsOf s) := by
  unfold register registered newsOf record?
  rw [if_neg h]
  cases hv : (c.versionsOf s.name).get? s.version <;> simp [hv]

theorem register_eq_error_iff {e : Error} : c.register now s ttl = .error e ↔
    s.name = "" ∧ e = .invalidConfiguration "service name is empty" := by
  by_cases hs : s.name = ""
  · simp [register, hs, eq_comm]
  · simp [register_eq hs, hs]

/-- A registration changes the record of its own version and no other. -/
theorem register_inv {c' : Catalog} (h : c.register now s ttl = .ok (c', ch)) :
    s.name ≠ "" ∧ ch = c.newsOf s ∧ ∀ name v, c'.record? name v =
      if s.name = name ∧ s.version = v then some (c.registered now s ttl)
      else c.record? name v := by
  have hn : s.name ≠ "" := by
    intro hn
    simp [register, hn] at h
  rw [register_eq hn] at h
  cases h
  refine ⟨hn, rfl, ?_⟩
  intro name v
  unfold record? versionsOf Dict.getD
  by_cases hm : s.name = name
  · subst hm
    by_cases hv : s.version = v <;> simp [hv]
  · simp [hm]

/-- What taking back a service leaves of its record. -/
def remaining (s : Service) (r : Record) : Option Record :=
  if s.nodes.isEmpty || (r.removeNodes s.nodes).service.nodes.isEmpty then none
  else some (r.removeNodes s.nodes)

/-- The nodes that taking back a service reports. -/
def withdrawn (c : Catalog) (s : Service) : Service :=
  match c.record? s.name s.version with
  | some r => if s.nodes.isEmpty then { s with nodes := r.service.nodes } else s
  | none => s

theorem name_withdrawn : (c.withdrawn s).name = s.name := by
  unfold withdrawn
  split
  · split <;> rfl
  · rfl

theorem version_withdrawn : (c.withdrawn s).version = s.version := by
  unfold withdrawn
  split
  · split <;> rfl
  · rfl

theorem record?_of_versions {vs : Dict Record} (h : c.versions.get? name = some vs) :
    c.record? name v = vs.get? v := by
  simp [record?, versionsOf, Dict.getD, h]

theorem deregister_unknown (h : c.versions.get? s.name = none) : c.deregister s = (c, none) := by
  simp [deregister, h]

/-- Taking back is announced, and takes nodes from the record of its own version. -/
theorem deregister_known {vs : Dict Record} (h : c.versions.get? s.name = some vs) :
    (c.deregister s).2 = some ⟨.delete, c.withdrawn s⟩ ∧
      ∀ name v, (c.deregister s).1.record? name v =
        if s.name = name ∧ s.version = v then (c.record? name v).bind (remaining s)
        else c.record? name v := by
  have hr := record?_of_versions (v := s.version) h
  cases hv : vs.get? s.version with
  | none =>
    rw [hv] at hr
    refine ⟨by simp [deregister, withdrawn, h, hv, hr], ?_⟩
    intro name v
    by_cases hnv : s.name = name ∧ s.version = v
    · obtain ⟨rfl, rfl⟩ := hnv
      simp [deregister, h, hv, hr]
    · simp [deregister, h, hv, hnv]
  | some r =>
    rw [hv] at hr
    by_cases hs : s.nodes.isEmpty
    · refine ⟨by simp [deregister, withdrawn, h, hv, hr, hs], ?_⟩
      intro name v
      by_cases hn : s.name = name
      · subst hn
        by_cases hvv : s.version = v
        · subst hvv
          simp [deregister, h, hv, hr, hs, record?_setVersions, remaining]
        · simp [deregister, h, hv, hs, record?_setVersions, hvv, record?_of_versions h]
      · simp [deregister, h, hv, hs, record?_setVersions, hn]
    · refine ⟨by simp [deregister, withdrawn, h, hv, hr, hs], ?_⟩
      intro name v
      simp only [deregister, h, hv, hs, if_false, Bool.false_eq_true, record?_setVersions]
      by_cases hn : s.name = name
      · subst hn
        rw [if_pos rfl, record?_of_versions h]
        by_cases he : (r.removeNodes s.nodes).service.nodes.isEmpty <;> by_cases hvv : s.version = v
        · subst hvv
          simp [he, hv, remaining]
        · simp [he, hvv]
        · subst hvv
          simp [he, hv, hs, remaining]
        · simp [he, hvv]
      · simp [hn]

/-- What holds of every catalog that registering and taking back can lead to. -/
structure WellFormed (c : Catalog) : Prop where
  inhabited : ∀ name vs, c.versions.get? name = some vs → vs.isEmpty = false
  filed : ∀ name v r, c.record? name v = some r → r.service.name = name ∧ r.service.version = v
  distinct : ∀ name v r, c.record? name v = some r → (r.service.nodes.map (·.id)).Nodup
  owned : ∀ name v r, c.record? name v = some r → r.Owned

theorem wellFormed_empty : empty.WellFormed where
  inhabited _ _ h := nomatch h
  filed _ _ _ h := nomatch h
  distinct _ _ _ h := nomatch h
  owned _ _ _ h := nomatch h

/-- The record that registering starts from. -/
theorem registered_base (hc : c.WellFormed) (now : Instant) (s : Service) (ttl : Option Duration) :
    ∃ r : Record, c.registered now s ttl = r.merge now s ttl ∧
      r.service.name = s.name ∧ r.service.version = s.version ∧
      (r.service.nodes.map (·.id)).Nodup ∧ r.Owned := by
  cases h : c.record? s.name s.version with
  | none =>
    refine ⟨Record.fresh s, by simp [registered, h], rfl, rfl, by simp [Record.fresh], ?_⟩
    intro id hid
    simp [Record.fresh] at hid
  | some r =>
    obtain ⟨hn, hv⟩ := hc.filed _ _ _ h
    exact ⟨r, by simp [registered, h], hn, hv, hc.distinct _ _ _ h, hc.owned _ _ _ h⟩

/-- Registering keeps a catalog in order. -/
theorem wellFormed_register {c' : Catalog} (hc : c.WellFormed)
    (h : c.register now s ttl = .ok (c', ch)) :
    c'.WellFormed := by
  obtain ⟨hn, -, hrec⟩ := register_inv h
  obtain ⟨r, hr, hname, hversion, hids, howned⟩ := registered_base hc now s ttl
  have split {P : String → String → Record → Prop} (hnew : P s.name s.version (r.merge now s ttl))
      (hold : ∀ name v r, c.record? name v = some r → P name v r) :
      ∀ name v r, c'.record? name v = some r → P name v r := by
    intro name v q hq
    rw [hrec] at hq
    split at hq
    · rename_i hnv
      obtain ⟨rfl, rfl⟩ := hnv
      rw [hr] at hq
      cases hq
      exact hnew
    · exact hold name v q hq
  refine ⟨?_, split ?_ hc.filed, split ?_ hc.distinct, split ?_ hc.owned⟩
  · intro name vs hvs
    rw [register_eq hn] at h
    cases h
    simp only [Dict.get?_insert] at hvs
    split at hvs
    · cases hvs
      exact Dict.isEmpty_eq_false_of_get? (k := s.version) (Dict.get?_insert_self)
    · exact hc.inhabited name vs hvs
  · rw [Record.service_merge]
    exact ⟨hname, hversion⟩
  · rw [Record.service_merge]
    exact nodup_foldl_placeNode hids
  · exact Record.owned_merge howned

theorem inhabited_setVersions {vs : Dict Record} {m : String}
    (h : ∀ name vs, c.versions.get? name = some vs → vs.isEmpty = false) :
    ∀ name ws, (c.setVersions m vs).versions.get? name = some ws → ws.isEmpty = false := by
  intro name ws hws
  unfold setVersions at hws
  split at hws
  · simp only [Dict.get?_erase] at hws
    split at hws
    · cases hws
    · exact h name ws hws
  · rename_i hne
    simp only [Dict.get?_insert] at hws
    split at hws
    · cases hws
      simpa using hne
    · exact h name ws hws

theorem inhabited_deregister (h : ∀ name vs, c.versions.get? name = some vs → vs.isEmpty = false) :
    ∀ name vs, (c.deregister s).1.versions.get? name = some vs → vs.isEmpty = false := by
  unfold deregister
  split
  · exact h
  · split
    · exact h
    · split <;> exact inhabited_setVersions h

/-- Taking back keeps a catalog in order. -/
theorem wellFormed_deregister (hc : c.WellFormed) : (c.deregister s).1.WellFormed := by
  cases hvs : c.versions.get? s.name with
  | none => rwa [deregister_unknown hvs]
  | some vs =>
    have hrec := (deregister_known hvs).2
    have split {P : String → String → Record → Prop}
        (hnew : ∀ name v r, c.record? name v = some r → P name v (r.removeNodes s.nodes))
        (hold : ∀ name v r, c.record? name v = some r → P name v r) :
        ∀ name v r, (c.deregister s).1.record? name v = some r → P name v r := by
      intro name v q hq
      rw [hrec] at hq
      split at hq
      · obtain ⟨r, hr, hq⟩ := Option.bind_eq_some_iff.1 hq
        unfold remaining at hq
        split at hq
        · cases hq
        · cases hq
          exact hnew name v r hr
      · exact hold name v q hq
    exact ⟨inhabited_deregister hc.inhabited, split hc.filed hc.filed,
      split (fun name v r h => nodup_filter (hc.distinct name v r h)) hc.distinct,
      split (fun name v r h => Record.owned_removeNodes (hc.owned name v r h)) hc.owned⟩

end Catalog
end Discovery
end Switchboard
