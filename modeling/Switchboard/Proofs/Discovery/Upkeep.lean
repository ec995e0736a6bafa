import Mathlib.Data.List.Induction
import Mathlib.Data.List.ReduceOption
import Switchboard.Proofs.Discovery.Deletion
import Switchboard.Proofs.Discovery.Ledger

/-! A registry stays in order whatever it is asked, and publishes one change for each call that it
follows. -/
namespace Switchboard.Discovery

variable {c : Catalog} {r : Registry} {s : Service} {n : Node} {ch : Change} {o : Option Change}
  {h : List Act} {a : Act} {name v : String}

namespace Feed

variable {log : List Change}

/-- The feed on which these changes were published: it keeps the latest of them. -/
def ofLog (log : List Change) : Feed where
  first := log.length - capacity
  kept := log.drop (log.length - capacity)

/-- Publishing a change adds it to the log that the feed keeps the end of. -/
theorem publish_ofLog : (ofLog log).publish ch = ofLog (log ++ [ch]) := by
  have hkept : log.drop (log.length - capacity) ++ [ch] =
      (log ++ [ch]).drop (log.length - capacity) :=
    (List.drop_append_of_le_length (Nat.sub_le _ _)).symm
  have hfirst : log.length - capacity +
      (((log ++ [ch]).drop (log.length - capacity)).length - capacity) =
        (log ++ [ch]).length - capacity := by
    rw [List.length_drop, List.length_append, List.length_singleton]
    omega
  simp only [publish, ofLog, hkept, List.drop_drop, hfirst]

end Feed

namespace Catalog

theorem mem_nodesUnder (hc : c.WellFormed) :
    n ∈ c.nodesUnder name v ↔ nodeOf (c.nodesUnder name v) n.id = some n := by
  cases hr : c.record? name v with
  | none => simp [nodesUnder, hr, nodeOf_nil]
  | some r =>
    have hn : c.nodesUnder name v = r.service.nodes := by simp [nodesUnder, hr]
    rw [hn]
    exact mem_iff_nodeOf (hc.distinct name v r hr)

/-- The nodes that the change names are gone, and all others are as they were. -/
def Removes (c c' : Catalog) (ch : Change) : Prop :=
  ∀ name v n, n ∈ c'.nodesUnder name v ↔ n ∈ c.nodesUnder name v ∧ ¬ ch.Names name v n.id

/-- A withdrawal takes away the nodes that it announces, and no others. -/
theorem removes_deregister {vs : Dict Record} (hc : c.WellFormed)
    (h : c.versions.get? s.name = some vs) :
    c.Removes (c.deregister s).1 ⟨.delete, c.withdrawn s⟩ := by
  intro name v n
  have hnames : (Change.mk .delete (c.withdrawn s)).Names name v n.id ↔
      s.name = name ∧ s.version = v ∧ (nodeOf (c.withdrawn s).nodes n.id).isSome := by
    simp only [Change.Names, name_withdrawn, version_withdrawn]
  rw [hnames]
  by_cases hn : s.name = name
  · subst hn
    rw [mem_nodesUnder (wellFormed_deregister hc), mem_nodesUnder hc, Board.nodesUnder_deregister h]
    split
    · rename_i hgone
      simp [hgone]
    · rename_i hstays
      simp [hstays]
  · have hrec : (c.deregister s).1.record? name v = c.record? name v := by
      rw [record?_deregister, if_neg fun he => hn he.1]
    simp [nodesUnder, hrec, hn]

end Catalog

namespace Registry

/-- What a call has to publish, given the registry before and after it. A registration that is turned
down and the withdrawal of a service of an unknown name leave all as it was. -/
inductive Announces (r r' : Registry) : Act → Option Change → Prop
  | rejected (now : Instant) (s : Service) (ttl : Option Duration) (hs : s.name = "") (hr : r' = r) :
    Announces r r' (.register now s ttl) none
  | created (now : Instant) (s : Service) (ttl : Option Duration) (hs : s.name ≠ "")
    (hv : r.catalog.record? s.name s.version = none)
    (hv' : (r'.catalog.record? s.name s.version).isSome) :
    Announces r r' (.register now s ttl) (some ⟨.create, s⟩)
  | updated (now : Instant) (s : Service) (ttl : Option Duration) (hs : s.name ≠ "")
    (hv : (r.catalog.record? s.name s.version).isSome)
    (hv' : (r'.catalog.record? s.name s.version).isSome) :
    Announces r r' (.register now s ttl) (some ⟨.update, s⟩)
  | unknown (s : Service) (hs : r.catalog.versions.get? s.name = none) (hr : r' = r) :
    Announces r r' (.deregister s) none
  | deleted (s t : Service) (hs : (r.catalog.versions.get? s.name).isSome) (hn : t.name = s.name)
    (hv : t.version = s.version) (ht : r.catalog.Removes r'.catalog ⟨.delete, t⟩) :
    Announces r r' (.deregister s) (some ⟨.delete, t⟩)

/-- Every call announces what it did, and publishes just that. -/
theorem announces_act (hr : r.catalog.WellFormed) (a : Act) : ∃ o,
    Announces r (r.act a) a o ∧ (r.act a).feed = o.elim r.feed r.feed.publish := by
  cases a with
  | register now s ttl =>
    cases hc : r.catalog.register now s ttl with
    | error e =>
      have hs : s.name = "" := (Catalog.register_eq_error_iff.1 hc).1
      rw [act_of_error hc]
      exact ⟨none, .rejected now s ttl hs rfl, rfl⟩
    | ok p =>
      obtain ⟨c, ch⟩ := p
      obtain ⟨hs, rfl, hrec⟩ := Catalog.register_inv hc
      have hv' : (c.record? s.name s.version).isSome := by simp [hrec]
      rw [act_of_ok hc]
      refine ⟨some (r.catalog.newsOf s), ?_, rfl⟩
      unfold Catalog.newsOf
      split
      · rename_i hv
        exact .updated now s ttl hs hv hv'
      · rename_i hv
        exact .created now s ttl hs (Option.not_isSome_iff_eq_none.1 hv) hv'
  | deregister s =>
    cases hs : r.catalog.versions.get? s.name with
    | none =>
      rw [act, deregister_unknown hs]
      exact ⟨none, .unknown s hs rfl, rfl⟩
    | some vs =>
      rw [act, deregister_known hs]
      refine ⟨some ⟨.delete, r.catalog.withdrawn s⟩, ?_, rfl⟩
      refine .deleted s _ (by rw [hs]; rfl) Catalog.name_withdrawn Catalog.version_withdrawn ?_
      exact Catalog.removes_deregister hr hs

/-- What the calls of a history published, one after the other, and the feed after each of them. -/
structure Publishes (h : List Act) (log : List (Option Change)) : Prop where
  length : log.length = h.length
  announces : ∀ i a o, h[i]? = some a → log[i]? = some o →
    Announces (after (h.take i)) (after (h.take (i + 1))) a o
  feed : ∀ i ≤ h.length, (after (h.take i)).feed = .ofLog (log.take i).reduceOption

variable {log : List (Option Change)}

theorem publishes_nil : Publishes [] [] where
  length := rfl
  announces i a o h := by
    cases h
  feed i hi := by
    rw [Nat.le_zero.1 hi]
    rfl

/-- The feed is that of the changes published so far. -/
theorem Publishes.feed_eq (hp : Publishes h log) : (after h).feed = .ofLog log.reduceOption := by
  have hfeed := hp.feed h.length (Nat.le_refl _)
  rwa [List.take_length, ← hp.length, List.take_length] at hfeed

theorem Publishes.snoc (hp : Publishes h log) (ha : Announces (after h) (after (h ++ [a])) a o)
    (hf : (after (h ++ [a])).feed = o.elim (after h).feed (after h).feed.publish) :
    Publishes (h ++ [a]) (log ++ [o]) := by
  have hlength : (log ++ [o]).length = (h ++ [a]).length := by
    rw [List.length_append, List.length_append, hp.length]
    rfl
  refine ⟨hlength, ?_, ?_⟩
  · intro i b p hb ho
    have hi : i < (h ++ [a]).length := (List.getElem?_eq_some_iff.1 hb).1
    rw [List.length_append, List.length_singleton] at hi
    rcases Nat.lt_succ_iff_lt_or_eq.1 hi with hi | rfl
    · have hi' : i < log.length := hp.length ▸ hi
      rw [List.getElem?_append_left hi] at hb
      rw [List.getElem?_append_left hi'] at ho
      rw [List.take_append_of_le_length (Nat.le_of_lt hi), List.take_append_of_le_length hi]
      exact hp.announces i b p hb ho
    · rw [List.getElem?_concat_length] at hb
      rw [← hp.length, List.getElem?_concat_length] at ho
      cases hb
      cases ho
      rw [List.take_left, List.take_of_length_le (by simp)]
      exact ha
  · intro i hi
    rw [List.length_append, List.length_singleton] at hi
    rcases Nat.le_succ_iff.1 hi with hi | rfl
    · have hi' : i ≤ log.length := hp.length ▸ hi
      rw [List.take_append_of_le_length hi, List.take_append_of_le_length hi']
      exact hp.feed i hi
    · rw [List.take_of_length_le (by simp), List.take_of_length_le (by simp [hp.length]), hf,
        hp.feed_eq, List.reduceOption_append]
      cases o with
      | none => simp
      | some ch => exact Feed.publish_ofLog

theorem exists_publishes (h : List Act) : ∃ log, Publishes h log := by
  induction h using List.reverseRecOn with
  | nil => exact ⟨[], publishes_nil⟩
  | append_singleton h a ih =>
    obtain ⟨log, hp⟩ := ih
    have hact : after (h ++ [a]) = (after h).act a := List.foldl_append
    obtain ⟨o, ha, hf⟩ := announces_act (follows_after h).wellFormed a
    rw [← hact] at ha hf
    exact ⟨log ++ [o], hp.snoc ha hf⟩

/-- What holds of a registry after a history: its catalog is in order, it turns down only what has
no name, and it published what each call announces. -/
structure Upheld (h : List Act) : Prop where
  wellFormed : (after h).catalog.WellFormed
  rejects : ∀ now s ttl e, (after h).register now s ttl = .error e ↔
    s.name = "" ∧ e = .invalidConfiguration "service name is empty"
  publishes : ∃ log, Publishes h log

/-- After every history the catalog is in order and the feed tells all of it. -/
theorem upheld_after (h : List Act) : Upheld h where
  wellFormed := (follows_after h).wellFormed
  rejects now s ttl e := by
    have hrejects : (after h).catalog.register now s ttl = .error e ↔
        s.name = "" ∧ e = .invalidConfiguration "service name is empty" :=
      Catalog.register_eq_error_iff
    rw [← hrejects]
    unfold register
    cases (after h).catalog.register now s ttl <;> simp [Except.map]
  publishes := exists_publishes h

/-- A version without nodes is taken back in one change, one that is not there in another, and a name
of which nothing is left in none. -/
example : let a (v : String) : Service := { name := "a", version := v }
    let r := after [.register 0 (a "1") none, .register 0 { name := "", version := "1" } none,
      .deregister (a "2"), .deregister (a "1"), .deregister (a "1")]
    r.feed.kept = [⟨.create, a "1"⟩, ⟨.delete, a "2"⟩, ⟨.delete, a "1"⟩] ∧ r.catalog.size = 0 := by
  decide +kernel

end Registry
end Switchboard.Discovery
