import Switchboard.Proofs.Discovery.History
import Switchboard.Proofs.Discovery.Records

/-! A registry holds what its history says, and no more. -/
namespace Switchboard.Discovery

open History

variable {ws : List Word} {r : Record} {o : Option Record} {s : Service} {n m : Node}
  {ns : List Node} {ends : Option Instant} {ttl : Option Duration} {now t : Instant} {c : Catalog}
  {h : List Act} {a : Act} {name v id : String}

/-- In a list with no id twice, the node under an id is the one with it. -/
theorem mem_iff_nodeOf (hd : (ns.map (·.id)).Nodup) : n ∈ ns ↔ nodeOf ns n.id = some n := by
  refine ⟨fun hn => ?_, nodeOf_mem⟩
  induction ns with
  | nil => cases hn
  | cons m ns ih =>
    obtain ⟨hm, hns⟩ := List.nodup_cons.1 hd
    rw [nodeOf_cons]
    rcases List.mem_cons.1 hn with rfl | hn
    · rw [if_pos rfl]
    · have hne : m.id ≠ n.id := fun he => hm (List.mem_map.2 ⟨n, hn, he.symm⟩)
      rw [if_neg hne, ih hns hn]

namespace Record

/-- A new id comes last, and a known one keeps its place. -/
theorem ids_placeNode : (placeNode n ns).map (·.id) =
    if (nodeOf ns n.id).isSome then ns.map (·.id) else ns.map (·.id) ++ [n.id] := by
  induction ns with
  | nil => rfl
  | cons m ns ih =>
    rw [placeNode, nodeOf_cons]
    by_cases hm : m.id = n.id
    · simp [hm]
    · rw [if_neg hm, if_neg hm, List.map_cons, ih]
      split <;> rfl

theorem get?_expiry_addNode : (addNode now ttl r n).expiry.get? id =
    if n.id = id then ttl.map (now + ·) else r.expiry.get? id := by
  cases ttl <;> simp [addNode]

/-- The nodes of a record are those that stand, in the order in which they came, and each has the end
that it was registered with. -/
structure Holds (ws : List Word) (r : Record) : Prop where
  stands : ∀ n ends, Stands ws n ends ↔
    nodeOf r.service.nodes n.id = some n ∧ r.expiry.get? n.id = ends
  arrived : ∀ n ∈ r.service.nodes, ∃ k, Arrives ws n.id k
  order : (r.service.nodes.map (·.id)).Pairwise (Before ws)

/-- A record without nodes holds a history in which none stands. -/
theorem holds_nil (hw : ∀ n ends, ¬ Stands ws n ends) (hr : r.service.nodes = []) :
    r.Holds ws where
  stands n ends := by
    rw [hr, nodeOf_nil]
    exact ⟨fun hs => absurd hs (hw n ends), nofun⟩
  arrived n hn := by
    rw [hr] at hn
    cases hn
  order := by
    rw [hr]
    exact .nil

/-- Words about the version leave its nodes alone. -/
theorem Holds.announce (h : r.Holds ws) {metadata : Dict String} {endpoints : List Endpoint} :
    Holds (ws ++ [.announce metadata endpoints])
      { r with service := { r.service with metadata, endpoints } } where
  stands n ends := by
    rw [stands_announce]
    exact h.stands n ends
  arrived n hn := by
    obtain ⟨k, hk⟩ := h.arrived n hn
    exact ⟨k, hk.snoc fun hr => hr⟩
  order := h.order.imp fun hb => hb.snoc (fun hr => hr) fun hr => hr

/-- A node that enters takes its place in the record, or a new one at the end. -/
theorem Holds.enter (h : r.Holds ws) :
    (addNode now ttl r n).Holds (ws ++ [.enter n (ttl.map (now + ·))]) where
  stands m ends := by
    have hn : nodeOf (addNode now ttl r n).service.nodes m.id =
        if n.id = m.id then some n else nodeOf r.service.nodes m.id := nodeOf_placeNode
    rw [stands_enter, hn, get?_expiry_addNode]
    by_cases hid : n.id = m.id
    · simp [hid]
    · have hne : n ≠ m := fun he => hid (congrArg Node.id he)
      simp [hid, hne, h.stands m ends]
  arrived m hm := by
    by_cases hn : ∃ k, k ∈ r.service.nodes ∧ k.id = m.id
    · obtain ⟨k, hk, hid⟩ := hn
      obtain ⟨i, hi⟩ := h.arrived k hk
      exact ⟨i, hid ▸ hi.snoc fun hr => hr⟩
    · rcases mem_placeNode hm with rfl | hm
      · refine ⟨_, arrives_enter fun k e hk hid => hn ⟨k, ?_, hid⟩⟩
        exact nodeOf_mem ((h.stands k e).1 hk).1
      · exact absurd ⟨m, hm, rfl⟩ hn
  order := by
    have hold : (r.service.nodes.map (·.id)).Pairwise
        (Before (ws ++ [.enter n (ttl.map (now + ·))])) :=
      h.order.imp fun hb => hb.snoc (fun hr => hr) fun hr => hr
    show ((placeNode n r.service.nodes).map (·.id)).Pairwise _
    rw [ids_placeNode]
    split
    · exact hold
    · rename_i hnew
      -- a new id comes after all that are there
      refine List.pairwise_append.2 ⟨hold, List.pairwise_singleton _ _, ?_⟩
      intro a ha b hb
      obtain ⟨k, hk, rfl⟩ := List.mem_map.1 ha
      cases List.mem_singleton.1 hb
      obtain ⟨i, hi⟩ := h.arrived k hk
      refine ⟨i, ws.length, hi.lt, hi.snoc fun hr => hr, arrives_enter fun m e hm hid => ?_⟩
      refine hnew ?_
      rw [← hid, ((h.stands m e).1 hm).1]
      rfl

/-- Nodes that are taken back leave the record. -/
theorem Holds.leave (h : r.Holds ws) (hne : ns ≠ []) :
    (r.removeNodes ns).Holds (ws ++ [.leave ns]) := by
  have hkept : ∀ n ∈ (r.removeNodes ns).service.nodes,
      n ∈ r.service.nodes ∧ ¬ (Word.leave ns).Removes n.id := by
    intro n hn
    obtain ⟨hn, hns⟩ := List.mem_filter.1 hn
    refine ⟨hn, ?_⟩
    rw [removes_leave, ← hasId_iff]
    simpa [hne] using hns
  constructor
  · intro n ends
    have hn : nodeOf (r.removeNodes ns).service.nodes n.id =
        if (nodeOf ns n.id).isSome then none else nodeOf r.service.nodes n.id := nodeOf_without
    have he : (r.removeNodes ns).expiry.get? n.id =
        if (nodeOf ns n.id).isSome then none else r.expiry.get? n.id := get?_foldl_erase
    rw [stands_leave, hn, he, h.stands n ends]
    cases hns : nodeOf ns n.id <;> simp [hne]
  · intro n hn
    obtain ⟨hn, hr⟩ := hkept n hn
    obtain ⟨k, hk⟩ := h.arrived n hn
    exact ⟨k, hk.snoc hr⟩
  · have hold := (List.pairwise_map.1 h.order).filter fun n => !hasId ns n
    refine List.pairwise_map.2 (hold.imp_of_mem fun ha hb hab => ?_)
    exact hab.snoc (hkept _ ha).2 (hkept _ hb).2

/-- The record of a version that is present. -/
structure Keeps (ws : List Word) (r : Record) : Prop extends r.Holds ws where
  facts : Latest ws r.service.metadata r.service.endpoints
  present : Present ws

def Tracks (ws : List Word) : Option Record → Prop
  | some r => r.Keeps ws
  | none => ¬ Present ws

theorem Keeps.enter (h : r.Keeps ws) :
    (addNode now ttl r n).Keeps (ws ++ [.enter n (ttl.map (now + ·))]) where
  toHolds := h.toHolds.enter
  facts := final_snoc.2 (.inr ⟨h.facts, fun ha => ha⟩)
  present := .inr ⟨_, _, rfl, fun hl => hl⟩

theorem Keeps.enters (h : r.Keeps ws) (now : Instant) (ttl : Option Duration) (ns : List Node) :
    (ns.foldl (addNode now ttl) r).Keeps (ws ++ ns.map (.enter · (ttl.map (now + ·)))) := by
  induction ns generalizing ws r with
  | nil => simpa using h
  | cons n ns ih =>
    have hn : (addNode now ttl r n).Keeps (ws ++ [.enter n (ttl.map (now + ·))]) := h.enter
    have hrest := ih hn
    rwa [List.append_assoc] at hrest

/-- A registration writes the record that the history asks for, if there was one or not. -/
theorem Tracks.register (h : Tracks ws o) :
    Keeps (ws ++ .announce s.metadata s.endpoints :: s.nodes.map (.enter · (ttl.map (now + ·))))
      ((o.getD (fresh s)).merge now s ttl) := by
  have hbase : (o.getD (fresh s)).Holds ws := by
    cases o with
    | some r => exact (h : r.Keeps ws).toHolds
    | none => exact holds_nil (fun n ends hs => h (.inl ⟨n, ends, hs⟩)) rfl
  have hfirst : Keeps (ws ++ [.announce s.metadata s.endpoints])
      { o.getD (fresh s) with
        service := { (o.getD (fresh s)).service with
          metadata := s.metadata, endpoints := s.endpoints } } :=
    ⟨hbase.announce, final_snoc.2 (.inl rfl), .inr ⟨_, _, rfl, fun hl => hl⟩⟩
  have hall := hfirst.enters now ttl s.nodes
  rwa [List.append_assoc] at hall

theorem Tracks.deregister (h : Tracks ws o) :
    Tracks (ws ++ [.leave s.nodes]) (o.bind (Catalog.remaining s)) := by
  have gone (hs : ∀ n ends, ¬ Stands (ws ++ [.leave s.nodes]) n ends) :
      ¬ Present (ws ++ [.leave s.nodes]) := by
    rw [present_leave]
    rintro ⟨n, ends, hn⟩
    exact hs n ends hn
  cases o with
  | none =>
    refine gone fun n ends hn => h (.inl ⟨n, ends, ?_⟩)
    exact (stands_leave.1 hn).1
  | some r =>
    rw [Option.bind_some, Catalog.remaining]
    by_cases hs : s.nodes = []
    · rw [if_pos (by simp [hs])]
      refine gone fun n ends hn => ?_
      exact (stands_leave.1 hn).2.1 hs
    · have hleft := (h : r.Keeps ws).toHolds.leave hs
      cases hr : (r.removeNodes s.nodes).service.nodes with
      | nil =>
        rw [if_pos (by simp)]
        refine gone fun n ends hn => ?_
        have hn := ((hleft.stands n ends).1 hn).1
        rw [hr] at hn
        cases hn
      | cons m ms =>
        rw [if_neg (by simp [hs])]
        have hm : Stands (ws ++ [.leave s.nodes]) m ((r.removeNodes s.nodes).expiry.get? m.id) := by
          refine (hleft.stands m _).2 ⟨?_, rfl⟩
          rw [hr, nodeOf_cons, if_pos rfl]
        have hfacts := (h : r.Keeps ws).facts
        exact ⟨hleft, final_snoc.2 (.inr ⟨hfacts, fun ha => ha⟩), .inl ⟨m, _, hm⟩⟩

end Record

namespace Catalog

theorem record?_deregister : (c.deregister s).1.record? name v =
    if s.name = name ∧ s.version = v then (c.record? name v).bind (remaining s)
    else c.record? name v := by
  cases hvs : c.versions.get? s.name with
  | some vs => exact (deregister_known hvs).2 name v
  | none =>
    rw [deregister_unknown hvs]
    split
    · rename_i hn
      obtain ⟨rfl, -⟩ := hn
      have hnone : c.record? s.name v = none := by simp [record?, versionsOf, Dict.getD, hvs]
      rw [hnone]
      rfl
    · rfl

/-- Every version's record is the one that the history asks for. -/
structure Follows (h : List Act) (c : Catalog) : Prop where
  wellFormed : c.WellFormed
  tracks : ∀ name v, Record.Tracks (wordsOf h name v) (c.record? name v)

theorem follows_empty : Follows [] empty where
  wellFormed := wellFormed_empty
  tracks name v := by
    rintro (⟨n, ends, hs⟩ | ⟨xs, w, hw, -⟩)
    · exact final_nil hs
    · simp [wordsOf] at hw

/-- A catalog follows a history with one registration more. -/
theorem Follows.register (hc : c.Follows h) {c' : Catalog} {ch : Change}
    (hr : c.register now s ttl = .ok (c', ch)) : c'.Follows (h ++ [.register now s ttl]) := by
  obtain ⟨hne, -, hrec⟩ := register_inv hr
  refine ⟨wellFormed_register hc.wellFormed hr, fun name v => ?_⟩
  rw [wordsOf_snoc, words, hrec]
  by_cases hs : s.name = name ∧ s.version = v
  · obtain ⟨rfl, rfl⟩ := hs
    rw [if_pos ⟨hne, rfl, rfl⟩, if_pos ⟨rfl, rfl⟩]
    exact (hc.tracks s.name s.version).register
  · rw [if_neg fun h => hs h.2, if_neg hs, List.append_nil]
    exact hc.tracks name v

theorem Follows.rejected (hc : c.Follows h) {e : Error}
    (hr : c.register now s ttl = .error e) : c.Follows (h ++ [.register now s ttl]) := by
  have hne : s.name = "" := (register_eq_error_iff.1 hr).1
  refine ⟨hc.wellFormed, fun name v => ?_⟩
  rw [wordsOf_snoc, words, if_neg fun h => h.1 hne, List.append_nil]
  exact hc.tracks name v

theorem Follows.deregister (hc : c.Follows h) :
    (c.deregister s).1.Follows (h ++ [.deregister s]) := by
  refine ⟨wellFormed_deregister hc.wellFormed, fun name v => ?_⟩
  rw [wordsOf_snoc, words, record?_deregister]
  by_cases hs : s.name = name ∧ s.version = v
  · rw [if_pos hs, if_pos hs]
    exact (hc.tracks name v).deregister
  · rw [if_neg hs, if_neg hs, List.append_nil]
    exact hc.tracks name v

/-! What is read of a catalog. -/

/-- A lookup answers the versions of a name that have live nodes. -/
theorem mem_content :
    s ∈ c.content t name ↔ ∃ v r, c.record? name v = some r ∧ r.live t = s ∧ s.nodes ≠ [] := by
  constructor
  · intro hs
    obtain ⟨hs, hne⟩ := List.mem_filter.1 hs
    obtain ⟨r, hr, rfl⟩ := List.mem_map.1 hs
    obtain ⟨⟨v, r⟩, hv, rfl⟩ := List.mem_map.1 hr
    exact ⟨v, r, Dict.get?_eq_some_iff.2 hv, rfl, by simpa using hne⟩
  · rintro ⟨v, r, hr, rfl, hne⟩
    have hv : r ∈ (c.versionsOf name).values :=
      List.mem_map.2 ⟨(v, r), Dict.get?_eq_some_iff.1 hr, rfl⟩
    exact List.mem_filter.2 ⟨List.mem_map.2 ⟨r, hv, rfl⟩, by simpa using hne⟩

/-- The list has the versions of every name, with what is live of each. -/
theorem mem_list : s ∈ c.list t ↔ ∃ name v r, c.record? name v = some r ∧ r.live t = s := by
  constructor
  · intro hs
    obtain ⟨vs, hvs, hs⟩ := List.mem_flatMap.1 hs
    obtain ⟨⟨name, vs⟩, hname, rfl⟩ := List.mem_map.1 hvs
    obtain ⟨r, hr, rfl⟩ := List.mem_map.1 hs
    obtain ⟨⟨v, r⟩, hv, rfl⟩ := List.mem_map.1 hr
    refine ⟨name, v, r, ?_, rfl⟩
    rw [record?_of_versions (Dict.get?_eq_some_iff.2 hname)]
    exact Dict.get?_eq_some_iff.2 hv
  · rintro ⟨name, v, r, hr, rfl⟩
    cases hvs : c.versions.get? name with
    | none =>
      simp [record?, versionsOf, Dict.getD, hvs] at hr
    | some vs =>
      rw [record?_of_versions hvs] at hr
      refine List.mem_flatMap.2 ⟨vs, List.mem_map.2 ⟨_, Dict.get?_eq_some_iff.1 hvs, rfl⟩, ?_⟩
      exact List.mem_map.2 ⟨r, List.mem_map.2 ⟨_, Dict.get?_eq_some_iff.1 hr, rfl⟩, rfl⟩

/-- No version is listed twice. -/
theorem nodup_list (hc : c.WellFormed) :
    ((c.list t).map fun s => (s.name, s.version)).Nodup := by
  have hlist : c.list t =
      c.versions.entries.flatMap fun e => e.2.entries.map fun p => p.2.live t := by
    simp only [list, Dict.values, List.flatMap_map, List.map_map]
    rfl
  have hfiled : ∀ e ∈ c.versions.entries, ∀ p ∈ e.2.entries,
      (p.2.live t).name = e.1 ∧ (p.2.live t).version = p.1 := by
    intro e he p hp
    refine hc.filed e.1 p.1 p.2 ?_
    rw [record?_of_versions (Dict.get?_eq_some_iff.2 he)]
    exact Dict.get?_eq_some_iff.2 hp
  rw [hlist]
  refine List.pairwise_map.2 (List.pairwise_flatMap.2 ⟨fun e he => ?_, ?_⟩)
  · refine List.pairwise_map.2 (e.2.sorted.imp_of_mem fun {p q} hp hq hpq heq => ?_)
    have hv : (p.2.live t).version = (q.2.live t).version := congrArg Prod.snd heq
    rw [(hfiled e he p hp).2, (hfiled e he q hq).2] at hv
    exact String.lt_irrefl _ (hv ▸ hpq)
  · refine c.versions.sorted.imp_of_mem fun {d e} hd he hde => ?_
    intro x hx y hy heq
    obtain ⟨p, hp, rfl⟩ := List.mem_map.1 hx
    obtain ⟨q, hq, rfl⟩ := List.mem_map.1 hy
    have hn : (p.2.live t).name = (q.2.live t).name := congrArg Prod.fst heq
    rw [(hfiled d hd p hp).1, (hfiled e he q hq).1] at hn
    exact String.lt_irrefl _ (hn ▸ hde)

end Catalog

namespace Record

/-- What is live of a record is what its history tells. -/
theorem Keeps.tells (h : r.Keeps ws) (hd : (r.service.nodes.map (·.id)).Nodup) (t : Instant) :
    Tells ws t (r.live t) where
  nodes n := by
    have hlive : r.isLive t n = true ↔ ∀ e ∈ r.expiry.get? n.id, t < e := by
      rw [isLive]
      cases r.expiry.get? n.id <;> simp
    show n ∈ r.service.nodes.filter (r.isLive t) ↔ _
    rw [List.mem_filter, mem_iff_nodeOf hd, hlive]
    constructor
    · rintro ⟨hn, hends⟩
      exact ⟨_, (h.stands n _).2 ⟨hn, rfl⟩, hends⟩
    · rintro ⟨ends, hstands, hends⟩
      obtain ⟨hn, rfl⟩ := (h.stands n ends).1 hstands
      exact ⟨hn, hends⟩
  order := h.order.sublist (List.filter_sublist.map _)
  facts := h.facts

end Record

namespace Catalog

theorem Follows.told (hc : c.Follows h) (hr : c.record? name v = some r) :
    (r.live t).name = name ∧ (r.live t).version = v ∧ Tells (wordsOf h name v) t (r.live t) := by
  obtain ⟨hn, hv⟩ := hc.wellFormed.filed name v r hr
  have hk : Record.Tracks (wordsOf h name v) (some r) := hr ▸ hc.tracks name v
  exact ⟨hn, hv, Record.Keeps.tells hk (hc.wellFormed.distinct name v r hr) t⟩

/-- There is a record exactly of a version that is present. -/
theorem Follows.present_iff (hc : c.Follows h) :
    (∃ r, c.record? name v = some r) ↔ Present (wordsOf h name v) := by
  have hk := hc.tracks name v
  cases hr : c.record? name v with
  | none =>
    rw [hr] at hk
    exact ⟨nofun, fun hp => absurd hp hk⟩
  | some r =>
    rw [hr] at hk
    exact ⟨fun _ => Record.Keeps.present hk, fun _ => ⟨r, rfl⟩⟩

/-- There is a record with live nodes exactly of a version with a node that lives. -/
theorem Follows.lives_iff (hc : c.Follows h) :
    (∃ r, c.record? name v = some r ∧ (r.live t).nodes ≠ []) ↔
      ∃ n, LivesAt (wordsOf h name v) t n := by
  constructor
  · rintro ⟨r, hr, hne⟩
    obtain ⟨n, hn⟩ := List.exists_mem_of_ne_nil _ hne
    obtain ⟨-, -, ht⟩ := hc.told (t := t) hr
    exact ⟨n, (ht.nodes n).1 hn⟩
  · rintro ⟨n, hn⟩
    have hstands := hn
    obtain ⟨ends, hs, -⟩ := hstands
    obtain ⟨r, hr⟩ := hc.present_iff.2 (.inl ⟨n, ends, hs⟩)
    obtain ⟨-, -, ht⟩ := hc.told (t := t) hr
    exact ⟨r, hr, List.ne_nil_of_mem ((ht.nodes n).2 hn)⟩

/-- A service that is told as the history has it is the one of the record. -/
theorem Follows.of_tells (hc : c.Follows h) (hr : c.record? s.name s.version = some r)
    (ht : Tells (wordsOf h s.name s.version) t s) : r.live t = s := by
  obtain ⟨hn, hv, hlive⟩ := hc.told (t := t) hr
  exact hlive.unique ht hn hv

/-- A lookup answers what the history tells of the name. -/
theorem Follows.mem_content (hc : c.Follows h) : s ∈ c.content t name ↔
    s.name = name ∧ s.nodes ≠ [] ∧ Tells (wordsOf h name s.version) t s := by
  constructor
  · intro hs
    obtain ⟨v, r, hr, rfl, hne⟩ := Catalog.mem_content.1 hs
    obtain ⟨hn, hv, ht⟩ := hc.told (t := t) hr
    exact ⟨hn, hne, hv.symm ▸ ht⟩
  · rintro ⟨rfl, hne, ht⟩
    obtain ⟨n, hn⟩ := List.exists_mem_of_ne_nil _ hne
    obtain ⟨r, hr, -⟩ := hc.lives_iff.2 ⟨n, (ht.nodes n).1 hn⟩
    exact Catalog.mem_content.2 ⟨s.version, r, hr, hc.of_tells hr ht, hne⟩

/-- The list has what the history tells of each name. -/
theorem Follows.mem_list (hc : c.Follows h) : s ∈ c.list t ↔
    Present (wordsOf h s.name s.version) ∧ Tells (wordsOf h s.name s.version) t s := by
  constructor
  · intro hs
    obtain ⟨n, v, r, hr, rfl⟩ := Catalog.mem_list.1 hs
    obtain ⟨hn, hv, ht⟩ := hc.told (t := t) hr
    rw [hn, hv]
    exact ⟨hc.present_iff.1 ⟨r, hr⟩, ht⟩
  · rintro ⟨hp, ht⟩
    obtain ⟨r, hr⟩ := hc.present_iff.2 hp
    exact Catalog.mem_list.2 ⟨s.name, s.version, r, hr, hc.of_tells hr ht⟩

/-- A lookup fails in one way, when there is nothing to answer. -/
theorem lookup_eq_error {e : Error} (hl : c.lookup t name = .error e) :
    e = .serviceNotFound name ∧ c.content t name = [] := by
  unfold lookup at hl
  unfold content
  split at hl
  · rename_i hnil
    cases hl
    exact ⟨rfl, hnil⟩
  · cases hl

end Catalog

namespace Registry

/-- A registry that has been asked; what it turns down leaves no trace. -/
def act (r : Registry) : Act → Registry
  | .register now s ttl =>
    match r.register now s ttl with
    | .ok r => r
    | .error _ => r
  | .deregister s => r.deregister s

def after (h : List Act) : Registry := h.foldl act {}

theorem act_of_ok {r : Registry} {ch : Change}
    (hc : r.catalog.register now s ttl = .ok (c, ch)) :
    r.act (.register now s ttl) = ⟨c, r.feed.publish ch⟩ := by
  simp [act, register, hc, Except.map]

theorem act_of_error {r : Registry} {e : Error}
    (hc : r.catalog.register now s ttl = .error e) : r.act (.register now s ttl) = r := by
  simp [act, register, hc, Except.map]

theorem follows_act {r : Registry} (hr : r.catalog.Follows h) (a : Act) :
    (r.act a).catalog.Follows (h ++ [a]) := by
  cases a with
  | register now s ttl =>
    cases hc : r.catalog.register now s ttl with
    | error e =>
      rw [act_of_error hc]
      exact hr.rejected hc
    | ok p =>
      rw [act_of_ok hc]
      exact hr.register hc
  | deregister s =>
    have hact : (r.act (.deregister s)).catalog = (r.catalog.deregister s).1 := by
      cases hs : r.catalog.versions.get? s.name with
      | none => rw [act, deregister_unknown hs, Catalog.deregister_unknown hs]
      | some vs => rw [act, deregister_known hs]
    rw [hact]
    exact hr.deregister

theorem follows_after (h : List Act) : (after h).catalog.Follows h := by
  suffices hall : ∀ (h g : List Act) (r : Registry), r.catalog.Follows g →
      (h.foldl act r).catalog.Follows (g ++ h) from hall h [] {} Catalog.follows_empty
  intro h
  induction h with
  | nil =>
    intro g r hr
    rwa [List.append_nil]
  | cons a h ih =>
    intro g r hr
    have hrest := ih (g ++ [a]) (r.act a) (follows_act hr a)
    rwa [List.append_assoc] at hrest

/-- At a time, a registry answers what its history tells: a lookup has the versions with live nodes,
the list has all that are present. -/
structure Implements (h : List Act) (r : Registry) (t : Instant) : Prop where
  found : ∀ name ss, r.lookup t name = .ok ss → ss ≠ [] ∧ (ss.map (·.version)).Nodup ∧
    (∀ v, (∃ s ∈ ss, s.version = v) ↔ ∃ n, LivesAt (wordsOf h name v) t n) ∧
    ∀ s, s ∈ ss ↔ s.name = name ∧ s.nodes ≠ [] ∧ Tells (wordsOf h name s.version) t s
  missing : ∀ name e, r.lookup t name = .error e →
    e = .serviceNotFound name ∧ ∀ v n, ¬ LivesAt (wordsOf h name v) t n
  distinct : ((r.list t).map fun s => (s.name, s.version)).Nodup
  present : ∀ name v,
    (∃ s ∈ r.list t, s.name = name ∧ s.version = v) ↔ Present (wordsOf h name v)
  listed : ∀ s, s ∈ r.list t ↔
    Present (wordsOf h s.name s.version) ∧ Tells (wordsOf h s.name s.version) t s
  agrees : ∀ s, s.nodes ≠ [] → (s ∈ r.list t ↔ ∃ ss, r.lookup t s.name = .ok ss ∧ s ∈ ss)

/-- After any history and at any time, a registry answers what the history tells. -/
theorem implements_after (h : List Act) (t : Instant) : Implements h (after h) t := by
  have hc := follows_after h
  constructor
  case found =>
    intro name ss hl
    obtain ⟨rfl, hne⟩ := Catalog.lookup_eq_ok_iff.1 hl
    refine ⟨hne, (Catalog.isMap_content hc.wellFormed).1, fun v => ?_, fun s => hc.mem_content⟩
    rw [← hc.lives_iff]
    constructor
    · rintro ⟨s, hs, rfl⟩
      obtain ⟨w, r, hr, rfl, hne⟩ := Catalog.mem_content.1 hs
      obtain ⟨-, hv, -⟩ := hc.told (t := t) hr
      exact ⟨r, hv.symm ▸ hr, hne⟩
    · rintro ⟨r, hr, hne⟩
      obtain ⟨-, hv, -⟩ := hc.told (t := t) hr
      exact ⟨r.live t, Catalog.mem_content.2 ⟨v, r, hr, rfl, hne⟩, hv⟩
  case missing =>
    intro name e hl
    obtain ⟨rfl, hnil⟩ := Catalog.lookup_eq_error hl
    refine ⟨rfl, fun v n hn => ?_⟩
    obtain ⟨r, hr, hne⟩ := hc.lives_iff.2 ⟨n, hn⟩
    have hs : r.live t ∈ (after h).catalog.content t name :=
      Catalog.mem_content.2 ⟨v, r, hr, rfl, hne⟩
    rw [hnil] at hs
    cases hs
  case distinct => exact Catalog.nodup_list hc.wellFormed
  case present =>
    intro name v
    rw [← hc.present_iff]
    constructor
    · rintro ⟨s, hs, rfl, rfl⟩
      exact hc.present_iff.2 (hc.mem_list.1 hs).1
    · rintro ⟨r, hr⟩
      obtain ⟨hn, hv, -⟩ := hc.told (t := t) hr
      exact ⟨r.live t, Catalog.mem_list.2 ⟨name, v, r, hr, rfl⟩, hn, hv⟩
  case listed => exact fun s => hc.mem_list
  case agrees =>
    intro s hne
    have hmem : s ∈ (after h).list t ↔ s ∈ (after h).catalog.content t s.name := by
      rw [hc.mem_content]
      refine hc.mem_list.trans ⟨fun hs => ⟨rfl, hne, hs.2⟩, ?_⟩
      rintro ⟨-, -, ht⟩
      obtain ⟨n, hn⟩ := List.exists_mem_of_ne_nil _ hne
      obtain ⟨ends, hs, -⟩ := (ht.nodes n).1 hn
      exact ⟨.inl ⟨n, ends, hs⟩, ht⟩
    rw [hmem]
    constructor
    · intro hs
      exact ⟨_, Catalog.lookup_eq_ok_iff.2 ⟨rfl, List.ne_nil_of_mem hs⟩, hs⟩
    · rintro ⟨ss, hl, hs⟩
      obtain ⟨rfl, -⟩ := Catalog.lookup_eq_ok_iff.1 hl
      exact hs

end Registry
end Switchboard.Discovery
