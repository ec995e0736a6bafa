import Switchboard.Discovery.Registry
import Switchboard.Proofs.Discovery.Catalog
import Switchboard.Proofs.Discovery.Folding

/-! The records of a name as a board, and what a lookup of the name shows of it. -/
namespace Switchboard.Discovery

variable {c : Catalog} {b : Board} {s : Service} {ss : List Service} {ch : Change} {now : Instant}
  {name v id : String}

namespace Catalog

def nodesUnder (c : Catalog) (name v : String) : List Node :=
  ((c.record? name v).map (·.service.nodes)).getD []

/-- What a withdrawal leaves of a record's nodes; naming none, it leaves none. -/
theorem nodes_remaining {r : Record} : ((remaining s r).map (·.service.nodes)).getD [] =
    if s.nodes.isEmpty then [] else r.service.nodes.filter fun n => !Record.hasId s.nodes n := by
  unfold remaining
  by_cases hs : s.nodes.isEmpty
  · simp [hs]
  · by_cases he : (r.removeNodes s.nodes).service.nodes.isEmpty
    · have hnil : (r.service.nodes.filter fun n => !Record.hasId s.nodes n) = [] :=
        List.isEmpty_iff.1 he
      rw [he, hnil]
      simp [hs]
    · rw [Bool.not_eq_true] at hs he
      rw [hs, he]
      rfl

/-- No node of the name is to expire. -/
def Untimed (c : Catalog) (name : String) : Prop := ∀ v r, c.record? name v = some r → r.Untimed

/-- The node of a version is to expire. -/
def Expires (c : Catalog) (name v id : String) : Prop :=
  ∃ r, c.record? name v = some r ∧ (r.expiry.get? id).isSome

theorem Untimed.not_expires (hc : c.Untimed name) : ¬ c.Expires name v id := by
  rintro ⟨r, hr, hid⟩
  rw [hc v r hr id] at hid
  cases hid

/-- The versions of a name that have a live node. -/
def content (c : Catalog) (now : Instant) (name : String) : List Service :=
  ((c.versionsOf name).values.map (·.live now)).filter (!·.nodes.isEmpty)

/-- A lookup answers the live content of a name, if there is any. -/
theorem lookup_eq_ok_iff : c.lookup now name = .ok ss ↔ ss = c.content now name ∧ ss ≠ [] := by
  unfold lookup content
  generalize List.filter _ _ = us
  cases us with
  | nil =>
    refine ⟨nofun, ?_⟩
    rintro ⟨rfl, hne⟩
    exact absurd rfl hne
  | cons t ts =>
    constructor
    · intro h
      cases h
      exact ⟨rfl, List.cons_ne_nil _ _⟩
    · rintro ⟨rfl, -⟩
      rfl

theorem serviceOf_values {xs : List (String × Record)} (hs : xs.Pairwise (·.1 < ·.1))
    (hf : ∀ k r, (k, r) ∈ xs → r.service.version = k) (p : Service → Bool) :
    serviceOf ((xs.map (·.2.live now)).filter p) v =
      ((Dict.lookup v xs).map (·.live now)).filter p := by
  induction xs with
  | nil => rfl
  | cons x xs ih =>
    obtain ⟨k, r⟩ := x
    obtain ⟨hk, hxs⟩ := List.pairwise_cons.1 hs
    have ih := ih hxs fun j q hq => hf j q (List.mem_cons_of_mem _ hq)
    have hr : (r.live now).version = k := hf k r List.mem_cons_self
    by_cases hv : k = v
    · subst hv
      have hnone : Dict.lookup k xs = none := Dict.lookup_eq_none_of_lt fun a ha => hk a ha
      rw [hnone] at ih
      cases hp : p (r.live now)
      · simpa [Dict.lookup, hp, Option.filter] using ih
      · simp [serviceOf_cons, Dict.lookup, hp, hr, Option.filter]
    · cases hp : p (r.live now) <;> simp [serviceOf_cons, Dict.lookup, hp, hr, hv, ih]

theorem serviceOf_content (hc : c.WellFormed) : serviceOf (c.content now name) v =
    ((c.record? name v).map (·.live now)).filter (!·.nodes.isEmpty) := by
  unfold content Dict.values
  rw [List.map_map]
  exact serviceOf_values (c.versionsOf name).sorted
    (fun k r hr => (hc.filed name k r (Dict.get?_eq_some_iff.2 hr)).2) _

/-- What it answers is a map, by versions and by node ids. -/
theorem isMap_content (hc : c.WellFormed) : IsMap (c.content now name) where
  left := by
    have hv : (c.versionsOf name).values.map (fun r => (r.live now).version) =
        (c.versionsOf name).keys := by
      unfold Dict.values Dict.keys
      rw [List.map_map]
      refine List.map_congr_left ?_
      intro x hx
      exact (hc.filed name x.1 x.2 (Dict.get?_eq_some_iff.2 hx)).2
    have hk : (c.versionsOf name).keys.Nodup := by
      refine (List.pairwise_map.2 (c.versionsOf name).sorted).imp ?_
      intro v w h he
      exact String.lt_irrefl _ (he ▸ h)
    refine (List.filter_sublist.map _).nodup ?_
    rw [List.map_map]
    exact hv ▸ hk
  right s hs := by
    obtain ⟨r, hr, rfl⟩ := List.mem_map.1 (List.mem_filter.1 hs).1
    obtain ⟨⟨v, r⟩, hv, rfl⟩ := List.mem_map.1 hr
    exact nodup_filter (hc.distinct name v r (Dict.get?_eq_some_iff.2 hv))

/-- Nodes that are to expire go on being so, unless they are taken back. -/
theorem Expires.deregister {vs : Dict Record} (hc : c.WellFormed)
    (h : c.versions.get? s.name = some vs) (hid : c.Expires s.name v id)
    (hw : s.version = v → nodeOf (c.withdrawn s).nodes id = none) :
    (c.deregister s).1.Expires s.name v id := by
  obtain ⟨r, hr, hr'⟩ := hid
  have hrec := (deregister_known h).2 s.name v
  by_cases hv : s.version = v
  · subst hv
    have hw := hw rfl
    have hmem := hc.owned _ _ _ hr id hr'
    have hs : s.nodes.isEmpty = false := by
      rw [Bool.eq_false_iff]
      intro hs
      simp [withdrawn, hr, hs] at hw
      rw [hw] at hmem
      cases hmem
    have hw : nodeOf s.nodes id = none := by simpa [withdrawn, hr, hs] using hw
    have hleft : nodeOf (r.removeNodes s.nodes).service.nodes id = nodeOf r.service.nodes id := by
      simp [Record.removeNodes, nodeOf_without, hw]
    have hne : (r.removeNodes s.nodes).service.nodes.isEmpty = false := by
      obtain ⟨n, hn⟩ := Option.isSome_iff_exists.1 hmem
      simpa using ne_nil_of_nodeOf (hleft.trans hn)
    refine ⟨r.removeNodes s.nodes, ?_, ?_⟩
    · simpa [hr, remaining, hs, hne] using hrec
    · simpa [Record.removeNodes, Record.get?_foldl_erase, hw] using hr'
  · exact ⟨r, by simpa [hv, hr] using hrec, hr'⟩

end Catalog

namespace Board

/-- The board holds what the catalog has under a name, but for nodes that are to expire. -/
structure Records (b : Board) (c : Catalog) (name : String) : Prop where
  nodes : ∀ v id, ¬ c.Expires name v id → b.nodes v id = nodeOf (c.nodesUnder name v) id
  facts : ∀ v r, c.record? name v = some r → r.service.nodes ≠ [] →
    b.facts v = (r.service.metadata, r.service.endpoints)

/-- What a lookup shows is on a board that holds the records. -/
theorem exists_shows (hc : c.WellFormed) (now : Instant) (name : String) :
    ∃ b : Board, b.Shows (c.content now name) ∧ b.Records c name := by
  let facts v :=
    ((c.record? name v).map fun r => (r.service.metadata, r.service.endpoints)).getD (.empty, [])
  let nodes v := nodeOf (((c.record? name v).map fun r => (r.live now).nodes).getD [])
  refine ⟨⟨facts, nodes⟩, ⟨?_, ?_⟩, ?_, ?_⟩
  · intro v s hs
    rw [Catalog.serviceOf_content hc] at hs
    obtain ⟨hs, hne⟩ := Option.filter_eq_some_iff.1 hs
    obtain ⟨r, hr, rfl⟩ := Option.map_eq_some_iff.1 hs
    exact ⟨by simpa using hne, by simp [facts, hr, Record.live], by simp [nodes, hr]⟩
  · intro v hs id
    rw [Catalog.serviceOf_content hc, Option.filter_eq_none_iff] at hs
    cases hr : c.record? name v with
    | none => simp [nodes, hr, nodeOf_nil]
    | some r =>
      have hnil : (r.live now).nodes = [] := by simpa [hr] using hs
      simp [nodes, hr, hnil, nodeOf_nil]
  · intro v id hid
    cases hr : c.record? name v with
    | none => simp [nodes, Catalog.nodesUnder, hr]
    | some r =>
      have hl : nodeOf (r.live now).nodes id = nodeOf r.service.nodes id := by
        refine nodeOf_filter ?_
        intro n hn
        have hnone : r.expiry.get? n.id = none := by
          rw [hn, ← Option.not_isSome_iff_eq_none]
          intro hs
          exact hid ⟨r, hr, hs⟩
        simp [Record.isLive, hnone]
      simp [nodes, Catalog.nodesUnder, hr, hl]
  · intro v r hr _
    simp [facts, hr]

/-- When no node is to expire, a lookup shows the board that holds the records. -/
theorem Records.shows (h : b.Records c name) (hc : c.WellFormed) (hu : c.Untimed name)
    (now : Instant) :
    b.Shows (c.content now name) where
  present v s hs := by
    rw [Catalog.serviceOf_content hc] at hs
    obtain ⟨hs, hne⟩ := Option.filter_eq_some_iff.1 hs
    obtain ⟨r, hr, rfl⟩ := Option.map_eq_some_iff.1 hs
    rw [Record.live_of_untimed (hu v r hr)] at hne ⊢
    have hne : r.service.nodes ≠ [] := by simpa using hne
    refine ⟨hne, h.facts v r hr hne, ?_⟩
    funext id
    simp [h.nodes v id hu.not_expires, Catalog.nodesUnder, hr]
  absent v hs id := by
    rw [Catalog.serviceOf_content hc, Option.filter_eq_none_iff] at hs
    rw [h.nodes v id hu.not_expires]
    cases hr : c.record? name v with
    | none => simp [Catalog.nodesUnder, hr, nodeOf_nil]
    | some r =>
      have hne : r.service.nodes = [] := by simpa [hr, Record.live_of_untimed (hu v r hr)] using hs
      simp [Catalog.nodesUnder, hr, hne, nodeOf_nil]

/-- A board that tells the records once the later changes are told tells them also when it is told
the earlier ones before: what an earlier change settles is settled alike on a board that was told
all along. -/
theorem Records.overtake {x : Board} {cs ds : List Change} (hb : (b.replay ds).Records c name)
    (hx : (x.replay (cs ++ ds)).Records c name) : (b.replay (cs ++ ds)).Records c name := by
  rw [replay_append] at hx ⊢
  constructor
  · intro v id hid
    have hc := fun d => nodes_apply_fixed_or_kept d v id
    rcases replay_cell (f := fun b => b.nodes v id) hc b x cs ds with h | h
    · exact h.trans (hx.nodes v id hid)
    · exact h.trans (hb.nodes v id hid)
  · intro v r hr hne
    have hc := fun d => facts_apply_fixed_or_kept d v
    rcases replay_cell (f := fun b => b.facts v) hc b x cs ds with h | h
    · exact h.trans (hx.facts v r hr hne)
    · exact h.trans (hb.facts v r hr hne)

/-- A registration, put on the board, holds the records after it. -/
theorem Records.register {c' : Catalog} {ttl : Option Duration} (hb : b.Records c s.name)
    (hp : ch.Plain) (h : c.register now s ttl = .ok (c', ch)) :
    (b.apply ch).Records c' s.name := by
  obtain ⟨-, rfl, hrec⟩ := Catalog.register_inv h
  have hk : (c.newsOf s).kind ≠ .delete := by
    unfold Catalog.newsOf
    split <;> simp
  have hs : (c.newsOf s).service = s := rfl
  have hids : (s.nodes.map (·.id)).Nodup := (hp hk).2
  have hserv : (c.registered now s ttl).service.nodes =
      s.nodes.foldl (fun ns n => Record.placeNode n ns) (c.nodesUnder s.name s.version) := by
    unfold Catalog.registered Catalog.nodesUnder
    rw [Record.service_merge]
    cases c.record? s.name s.version <;> rfl
  constructor
  · intro v id hid
    by_cases hv : s.version = v
    · subst hv
      have hn : c'.nodesUnder s.name s.version = (c.registered now s ttl).service.nodes := by
        simp [Catalog.nodesUnder, hrec]
      rw [hn, hserv, nodeOf_foldl_placeNode hids]
      cases hnew : nodeOf s.nodes id with
      | some n => simp [apply, hk, hs, hnew]
      | none =>
        -- A node that is not mentioned keeps the end it had.
        have hold : ¬ c.Expires s.name s.version id := by
          rintro ⟨r, hr, hr'⟩
          refine hid ⟨_, by rw [hrec, if_pos ⟨rfl, rfl⟩], ?_⟩
          rwa [Catalog.registered, hr, Option.getD_some, Record.get?_expiry_merge hnew]
        simp [apply, hk, hs, hnew, hb.nodes _ _ hold]
    · have hrec' : c'.record? s.name v = c.record? s.name v := by simp [hrec, hv]
      have hold : ¬ c.Expires s.name v id := by
        rintro ⟨r, hr, hr'⟩
        exact hid ⟨r, hrec'.trans hr, hr'⟩
      have hn : c'.nodesUnder s.name v = c.nodesUnder s.name v := by
        simp [Catalog.nodesUnder, hrec']
      simp [apply, hk, hs, hv, hn, hb.nodes v id hold]
  · intro v r hr hne
    rw [hrec] at hr
    by_cases hv : s.version = v
    · simp only [hv, and_self, if_true, Option.some.injEq] at hr
      subst hr
      simp [apply, hk, hs, hv, Catalog.registered, Record.service_merge]
    · simp only [hv, and_false, if_false] at hr
      simpa [apply, hk, hs, hv] using hb.facts v r hr hne

theorem nodesUnder_deregister {vs : Dict Record} (h : c.versions.get? s.name = some vs) :
    nodeOf ((c.deregister s).1.nodesUnder s.name v) id =
      if s.version = v ∧ (nodeOf (c.withdrawn s).nodes id).isSome then none
      else nodeOf (c.nodesUnder s.name v) id := by
  have hrec := (Catalog.deregister_known h).2
  by_cases hv : s.version = v
  · subst hv
    cases hr : c.record? s.name s.version with
    | none => simp [Catalog.nodesUnder, hrec, hr, nodeOf_nil]
    | some r =>
      have hleft : (c.deregister s).1.nodesUnder s.name s.version =
          if s.nodes.isEmpty then []
          else r.service.nodes.filter fun n => !Record.hasId s.nodes n := by
        rw [Catalog.nodesUnder, hrec, if_pos ⟨rfl, rfl⟩, hr, Option.bind_some,
          Catalog.nodes_remaining]
      have hright : c.nodesUnder s.name s.version = r.service.nodes := by
        simp [Catalog.nodesUnder, hr]
      rw [hleft, hright]
      by_cases hs : s.nodes.isEmpty
      · cases hn : nodeOf r.service.nodes id <;> simp [Catalog.withdrawn, hr, hs, hn, nodeOf_nil]
      · simp [Catalog.withdrawn, hr, hs, nodeOf_without]
  · simp [Catalog.nodesUnder, hrec, hv]

theorem Records.deregister {vs : Dict Record} (hc : c.WellFormed) (hb : b.Records c s.name)
    (h : c.versions.get? s.name = some vs) :
    (b.apply ⟨.delete, c.withdrawn s⟩).Records (c.deregister s).1 s.name := by
  have hrec := (Catalog.deregister_known h).2
  have hw : (c.withdrawn s).version = s.version := Catalog.version_withdrawn
  constructor
  · intro v id hid
    rw [nodesUnder_deregister h]
    by_cases hgone : s.version = v ∧ (nodeOf (c.withdrawn s).nodes id).isSome
    · simp [apply, hw, hgone]
    · have hold : ¬ c.Expires s.name v id := by
        intro he
        exact hid (he.deregister hc h fun hv => by simpa [hv] using hgone)
      simp [apply, hw, hgone, hb.nodes v id hold]
  · intro v r hr hne
    rw [hrec] at hr
    by_cases hv : s.version = v
    · simp only [hv, and_self, if_true] at hr
      obtain ⟨q, hq, hr⟩ := Option.bind_eq_some_iff.1 hr
      unfold Catalog.remaining at hr
      split at hr
      · cases hr
      · cases hr
        have hq' : q.service.nodes ≠ [] := by
          intro hnil
          simp [Record.removeNodes, hnil] at hne
        simpa [apply, Record.removeNodes] using hb.facts v q hq hq'
    · simp only [hv, and_false, if_false] at hr
      simpa [apply] using hb.facts v r hr hne

/-- Only the records of the name count. -/
theorem Records.congr {c' : Catalog} (hb : b.Records c name)
    (h : ∀ v, c'.record? name v = c.record? name v) :
    b.Records c' name where
  nodes v id hid := by
    have hold : ¬ c.Expires name v id := by
      rintro ⟨r, hr, hr'⟩
      exact hid ⟨r, (h v).trans hr, hr'⟩
    rw [hb.nodes v id hold, Catalog.nodesUnder, Catalog.nodesUnder, h]
  facts v r hr := hb.facts v r (h v ▸ hr)

end Board

namespace Catalog

theorem Untimed.congr {c' : Catalog} (hc : c.Untimed name)
    (h : ∀ v, c'.record? name v = c.record? name v) :
    c'.Untimed name := fun v r hr => hc v r (h v ▸ hr)

theorem untimed_register {c' : Catalog} (hc : c.Untimed s.name)
    (h : c.register now s none = .ok (c', ch)) :
    c'.Untimed s.name := by
  obtain ⟨-, -, hrec⟩ := register_inv h
  intro v r hr
  rw [hrec] at hr
  split at hr
  · cases hr
    refine Record.untimed_merge ?_
    cases hq : c.record? s.name s.version with
    | none =>
      intro id
      exact rfl
    | some q => exact hc _ _ hq
  · exact hc v r hr

theorem untimed_deregister (hc : c.Untimed name) : (c.deregister s).1.Untimed name := by
  cases hvs : c.versions.get? s.name with
  | none => rwa [deregister_unknown hvs]
  | some vs =>
    intro v r hr
    rw [(deregister_known hvs).2] at hr
    split at hr
    · obtain ⟨q, hq, hr⟩ := Option.bind_eq_some_iff.1 hr
      unfold remaining at hr
      split at hr
      · cases hr
      · cases hr
        exact Record.untimed_removeNodes (hc v q hq)
    · exact hc v r hr

/-- A change that tells what became of a catalog: of the records of its service only. -/
structure Reports (c c' : Catalog) (ch : Change) : Prop where
  wellFormed : c'.WellFormed
  told : ∀ b : Board, ch.Plain → b.Records c ch.service.name →
    (b.apply ch).Records c' ch.service.name
  others : ∀ name v, ch.service.name ≠ name → c'.record? name v = c.record? name v

theorem reports_register {c' : Catalog} {ttl : Option Duration} (hc : c.WellFormed)
    (h : c.register now s ttl = .ok (c', ch)) : c.Reports c' ch := by
  obtain ⟨-, rfl, hrec⟩ := register_inv h
  refine ⟨wellFormed_register hc h, fun b hp hb => hb.register hp h, ?_⟩
  intro name v hn
  rw [hrec, if_neg fun he => hn he.1]

theorem reports_deregister {vs : Dict Record} (hc : c.WellFormed)
    (h : c.versions.get? s.name = some vs) :
    c.Reports (c.deregister s).1 ⟨.delete, c.withdrawn s⟩ := by
  refine ⟨wellFormed_deregister hc, ?_, ?_⟩
  · intro b _ hb
    have hname : (c.withdrawn s).name = s.name := name_withdrawn
    simp only [hname] at hb ⊢
    exact hb.deregister hc h
  · intro name v hn
    have hname : s.name ≠ name := by
      rw [← name_withdrawn (c := c)]
      exact hn
    rw [(deregister_known h).2, if_neg fun he => hname he.1]

end Catalog

namespace Registry

variable {r : Registry}

theorem deregister_unknown (h : r.catalog.versions.get? s.name = none) : r.deregister s = r := by
  rw [deregister, Catalog.deregister_unknown h]

/-- A change by which a service goes is published, with what was taken back. -/
theorem deregister_known {vs : Dict Record} (h : r.catalog.versions.get? s.name = some vs) :
    r.deregister s =
      ⟨(r.catalog.deregister s).1, r.feed.publish ⟨.delete, r.catalog.withdrawn s⟩⟩ := by
  have hc : r.catalog.deregister s =
      ((r.catalog.deregister s).1, some ⟨.delete, r.catalog.withdrawn s⟩) :=
    Prod.ext rfl (Catalog.deregister_known h).1
  rw [deregister, hc]

end Registry
end Switchboard.Discovery
