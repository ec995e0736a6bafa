import Switchboard.Proofs.Discovery.Outage
import Switchboard.Proofs.Discovery.Revision

/-! How entries go. A change clears the status before it is folded in, so that no error keeps an entry
from being removed. -/
namespace Switchboard.Discovery

variable {c : Cache} {e e' : Entry} {ch : Change} {now : Instant} {l : Loop} {name : String}
  {i k t : Nat} {er : Error} {ss : List Service} {r : Option Entry}

namespace Cache

/-- A change of a name without an entry clears the status only. -/
theorem receive_of_absent
    (h : ¬ ∃ e, ch.service.name ∈ c.watched ∧ c.entries.get? ch.service.name = some e) :
    c.receive now ch = { c with status := none } := by
  by_cases hw : ch.service.name ∈ c.watched
  · have he : c.entries.get? ch.service.name = none := by
      cases hx : c.entries.get? ch.service.name with
      | none => rfl
      | some e => exact absurd ⟨e, hw, hx⟩ h
    exact @fold_get?_none { c with status := none } ch now he
  · exact @fold_unwatched { c with status := none } ch now hw

/-- Whatever error stood, it stands no more when the change is folded in. -/
theorem get?_receive_eq_iff (hw : ch.service.name ∈ c.watched)
    (he : c.entries.get? ch.service.name = some e) :
    (c.receive now ch).entries.get? ch.service.name = r ↔ Revises now c.ttl ch e r :=
  @get?_fold_eq_iff { c with status := none } ch e r now rfl hw he

end Cache

/-- Only a deletion removes an entry. -/
theorem Revises.kind_of_none {ttl : Duration} (h : Revises now ttl ch e none) :
    ch.kind = .delete := by
  cases h with
  | cleared hk _ => exact hk
  | emptied hk _ _ _ _ => exact hk

/-- A change that comes to a loop which has yet to leave goes to the cache. -/
theorem WatchLoops.step_received {s : WatchLoops} (hk : k ∉ s.leaving) (hl : s.hub.loop? k = some l)
    (hp : l.phase = .watching) : (s.step (.event (.received k ch))).hub =
      { s.hub with cache := s.hub.cache.receive s.hub.now ch } := by
  have hstep : s.hub.step (.received k ch) =
      { s.hub with cache := s.hub.cache.receive s.hub.now ch } := by
    simp only [Hub.step, hl, if_pos hp]
  have hloop : (s.hub.step (.received k ch)).loop? k = some l := by
    rw [hstep]
    exact hl
  have hopen : (s.hub.step (.received k ch)).isOpening k = s.hub.isOpening k := by
    rw [hstep]
    rfl
  have hstay : ¬ (HubEvent.received k ch).mover?.any (· ∈ s.leaving) = true := by
    simp [HubEvent.mover?, hk]
  rw [step, if_neg hstay]
  change (s.take (.received k ch)).hub = _
  simp only [take, HubEvent.mover?, hloop, hopen]
  simp [hstep]

namespace ServingCache

variable {d d' : ServingCache} {m : Move} {ms : List Move}

theorem Working.receive (h : d.Working k .watching) :
    (d.step (.aside (.event (.received k ch)))).cache = d.cache.receive d.hub.now ch := by
  obtain ⟨hk, l, hl, hp⟩ := h
  exact congrArg Hub.cache (WatchLoops.step_received (s := d.watchLoops) hk hl hp)

/-- What a move makes of the entry of a name: a fetch stores one, and a change that comes to a loop
revises the one there is. -/
inductive Becomes (d : ServingCache) (name : String) : Option Entry → Move → Option Entry → Prop
  | same (r : Option Entry) (m : Move) : Becomes d name r m r
  | fetched (r : Option Entry) (i t : Nat) (ss : List Service) (h : d.Settling i name t (.ok ss)) :
    Becomes d name r (.caller (.settle i)) (some ⟨ss, d.hub.now + d.cache.ttl⟩)
  | revised (e : Entry) (r : Option Entry) (k : Nat) (ch : Change) (hn : ch.service.name = name)
    (h : d.Working k .watching) (hr : Revises d.hub.now d.cache.ttl ch e r) :
    Becomes d name (some e) (.aside (.event (.received k ch))) r

theorem becomes_of_eq (h : d'.cache.entries = d.cache.entries) :
    d.Becomes name (d.cache.entries.get? name) m (d'.cache.entries.get? name) := by
  rw [h]
  exact .same _ _

theorem becomes_settle (hs : d.lookups.Sound) : d.Becomes name (d.cache.entries.get? name)
    (.caller (.settle i)) ((d.step (.caller (.settle i))).cache.entries.get? name) := by
  by_cases hset : ∃ n t r, d.Settling i n t r
  · obtain ⟨n, t, r, h⟩ := hset
    obtain ⟨f, -, hfn, -, -, hstep⟩ := h.fetch hs
    have hent : (d.step (.caller (.settle i))).cache.entries =
        (d.cache.settle d.hub.now n r).1.entries := by
      rw [h.step, hstep, ← hfn]
      exact Hub.entries_settle
    cases r with
    | error er => exact becomes_of_eq (hent.trans Cache.settle_error_entries)
    | ok ss =>
      rw [hent, Cache.settle_ok_entries, Dict.get?_insert]
      by_cases hn : n = name
      · subst hn
        rw [if_pos rfl]
        exact .fetched _ i t ss h
      · rw [if_neg hn]
        exact .same _ _
  · rw [step_settle_of_not fun n t r h => hset ⟨n, t, r, h⟩]
    exact .same _ _

theorem becomes_received (h : d.Working k .watching) : d.Becomes name (d.cache.entries.get? name)
    (.aside (.event (.received k ch))) ((d.cache.receive d.hub.now ch).entries.get? name) := by
  by_cases hn : ch.service.name = name
  · subst hn
    by_cases hx : ∃ e, ch.service.name ∈ d.cache.watched ∧
        d.cache.entries.get? ch.service.name = some e
    · obtain ⟨e, hw, he⟩ := hx
      rw [he]
      exact .revised e _ k ch rfl h ((Cache.get?_receive_eq_iff hw he).1 rfl)
    · rw [Cache.receive_of_absent hx]
      exact .same _ _
  · rw [Cache.receive_get?_of_ne hn]
    exact .same _ _

theorem becomes_step (hs : d.lookups.Sound) (name : String) (m : Move) :
    d.Becomes name (d.cache.entries.get? name) m ((d.step m).cache.entries.get? name) := by
  by_cases hm : ∃ i, m = .caller (.settle i)
  · obtain ⟨i, rfl⟩ := hm
    exact becomes_settle hs
  have ht := step_trans d m
  generalize d.step m = d' at ht ⊢
  cases ht with
  | idle => exact .same _ _
  | called m c ho hc =>
    cases hc with
    | settled i t r hr => exact absurd ⟨i, rfl⟩ hm
    | aside e he => exact absurd rfl (ho e)
    | started i n hc hv hf =>
      exact becomes_of_eq ((Hub.step_trans d.hub (.look n)).entries nofun nofun)
    | idle | arrived | hit | missed | joined | called | replied | took | left =>
      exact .same _ _
  | watched m v he hv =>
    cases hv with
    | idle | noticed | left => exact .same _ _
    | moved e os hl ho =>
      have hev := Hub.step_trans d.hub e
      have haside := he e rfl
      change d.Becomes name _ _ ((d.hub.step e).cache.entries.get? name)
      generalize d.hub.step e = h' at hev ⊢
      cases hev with
      | settled => exact haside.elim
      | received k l ch hloop hp => exact becomes_received ⟨hl k rfl, l, hloop, hp⟩
      | idle | start | moved | ended | stop | tick => exact .same _ _

/-- No fetch of a name succeeds. -/
def Unfetched (d : ServingCache) (name : String) (ms : List Move) : Prop :=
  ∀ j, ¬ Runs.At step (fun d m => ∃ i t ss, m = .caller (.settle i) ∧
    d.Settling i name t (.ok ss)) d ms j

/-- By induction on the moves: changes bring no entry back. -/
theorem absent_run (hs : d.lookups.Sound) (he : d.cache.entries.get? name = none)
    (hu : d.Unfetched name ms) : (d.run ms).cache.entries.get? name = none := by
  induction ms generalizing d with
  | nil => exact he
  | cons m ms ih =>
    have hnext : (d.step m).cache.entries.get? name = none := by
      have hb := becomes_step hs name m
      rw [he] at hb
      generalize (d.step m).cache.entries.get? name = r at hb ⊢
      cases hb with
      | same => rfl
      | fetched _ i t ss h => exact absurd ⟨_, rfl, i, t, ss, rfl, h⟩ (hu 0)
    refine ih (sound_step hs (step_trans d m)) hnext ?_
    rintro j ⟨n, hn, hset⟩
    exact hu (j + 1) ⟨n, hn, hset⟩

/-- Without an entry, a failed fetch gives its error and the status stays. -/
theorem Settling.lost (h : d.Settling i name t (.error er)) (hs : d.lookups.Sound)
    (he : d.cache.entries.get? name = none) :
    (d.step (.caller (.settle i))).Gives t (.error er) ∧
      (d.step (.caller (.settle i))).status = d.status := by
  refine (h.endures hs).cold ?_
  rintro ss ⟨-, x, hx, -⟩
  cases he.symm.trans hx

/-- How entries go, whether an error stands or not: a change revises the entry of its name and
clears the status, and what it leaves empty is removed. No entry is made to expire. After a removal the
next fetch that fails has nothing old to give out. -/
structure Purges (d : ServingCache) : Prop where
  becomes : ∀ name m,
    d.Becomes name (d.cache.entries.get? name) m ((d.step m).cache.entries.get? name)
  received : ∀ k ch e, d.Working k .watching → ch.service.name ∈ d.cache.watched →
    d.cache.entries.get? ch.service.name = some e →
      (d.step (.aside (.event (.received k ch)))).status = none ∧
      ∀ r, (d.step (.aside (.event (.received k ch)))).cache.entries.get? ch.service.name = r ↔
        Revises d.hub.now d.cache.ttl ch e r
  removed : ∀ name m e, d.cache.entries.get? name = some e →
    (d.step m).cache.entries.get? name = none →
      ∃ k ch, m = .aside (.event (.received k ch)) ∧ ch.service.name = name ∧
        d.Working k .watching ∧ ch.kind = .delete ∧ Revises d.hub.now d.cache.ttl ch e none
  renewed : ∀ name m e e', d.cache.entries.get? name = some e →
    (d.step m).cache.entries.get? name = some e' → e' = e ∨ e'.expires = d.hub.now + d.cache.ttl
  lost : ∀ name ms i t er, d.cache.entries.get? name = none → d.Unfetched name ms →
    (d.run ms).Settling i name t (.error er) →
      ((d.run ms).step (.caller (.settle i))).Gives t (.error er) ∧
        ((d.run ms).step (.caller (.settle i))).status = (d.run ms).status

/-- An entry is removed by a deletion of its name only. -/
theorem Becomes.removed (h : d.Becomes name (some e) m none) :
    ∃ k ch, m = .aside (.event (.received k ch)) ∧ ch.service.name = name ∧
      d.Working k .watching ∧ ch.kind = .delete ∧ Revises d.hub.now d.cache.ttl ch e none := by
  cases h with
  | revised e r k ch hn h hr => exact ⟨k, ch, rfl, hn, h, hr.kind_of_none, hr⟩

/-- An entry is as it was, or has a whole term before it. -/
theorem Becomes.renewed (h : d.Becomes name (some e) m (some e')) :
    e' = e ∨ e'.expires = d.hub.now + d.cache.ttl := by
  cases h with
  | same => exact .inl rfl
  | fetched => exact .inr rfl
  | revised _ _ k ch hn h hr =>
    rcases hr.stored with he | ⟨hexp, -, -⟩
    · exact .inl he
    · exact .inr hexp

/-- A change that reaches a loop at work clears the status and revises the entry. -/
theorem Working.received (h : d.Working k .watching) (hs : d.lookups.Sound)
    (hw : ch.service.name ∈ d.cache.watched)
    (he : d.cache.entries.get? ch.service.name = some e) :
    (d.step (.aside (.event (.received k ch)))).status = none ∧
      ∀ r, (d.step (.aside (.event (.received k ch)))).cache.entries.get? ch.service.name = r ↔
        Revises d.hub.now d.cache.ttl ch e r := by
  refine ⟨(Recovers.received k ch h).status hs, ?_⟩
  intro r
  rw [h.receive]
  exact Cache.get?_receive_eq_iff hw he

theorem purges_of_sound (hs : d.lookups.Sound) : d.Purges where
  becomes := becomes_step hs
  received k ch e h hw he := h.received hs hw he
  removed name m e he hx := by
    have hb := becomes_step hs name m
    rw [he, hx] at hb
    exact hb.removed
  renewed name m e e' he hx := by
    have hb := becomes_step hs name m
    rw [he, hx] at hb
    exact hb.renewed
  lost name ms i t er he hu h := h.lost (sound_run hs ms) (absent_run hs he hu)

/-- In every run entries go by deletions only, and what is gone is not given out. -/
theorem purges_run (ttl : Duration) (ms : List Move) : ((new ttl).run ms).Purges :=
  purges_of_sound (sound_run (sound_new ttl) ms)

/-- A caller asks for a name, drives its fetch on and takes what comes of the registry's reply. -/
def asking (name : String) (r : Except Error (List Service)) : List Move :=
  [.caller (.arrive 0 name), .caller (.peek 0), .caller (.look 0), .caller (.call 0),
    .caller (.reply 0 r), .caller (.settle 0), .caller (.take 0)]

def lone : Service := { name := "a", version := "1", nodes := [{ id := "n", address := "n:1" }] }

def down : Error := .unavailable "down"

/-- An entry has run out while a watch of its name is open, and the next fetch has failed. -/
def outage : ServingCache :=
  (new 1000).run (asking "a" (.ok [lone]) ++ [.aside (.event (.pause 0 0)),
    .aside (.event (.opened 0 (.ok ()))), .aside (.event (.tick 1000))] ++ asking "a" (.error down))

/-- The status is set and the old services are given out; a deletion removes them, and with the next
failure there is nothing to give out. -/
theorem purges_run_outage :
    outage.status = some down ∧ outage.lookups.callers 0 = .served "a" (some 1) (.ok [lone]) ∧
      (outage.step (.aside (.event (.received 0 ⟨.delete, lone⟩)))).cache.entries.get? "a" = none ∧
      (outage.run (.aside (.event (.received 0 ⟨.delete, lone⟩)) ::
        asking "a" (.error down))).lookups.callers 0 = .served "a" (some 2) (.error down) := by
  have hd : outage.Purges := purges_run 1000 _
  have hwork : outage.Working 0 .watching := ⟨by decide, ⟨0, "a", .watching, {}⟩, by rfl, rfl⟩
  have hwatched : "a" ∈ outage.cache.watched := List.mem_cons_self
  have hentry : outage.cache.entries.get? "a" = some ⟨[lone], 1000⟩ := by rfl
  obtain ⟨-, hrevised⟩ := hd.received 0 ⟨.delete, lone⟩ _ hwork hwatched hentry
  have hfirst : First [lone] "1" [] lone [] := ⟨rfl, rfl, nofun⟩
  have hgone : Revises outage.hub.now outage.cache.ttl ⟨.delete, lone⟩ ⟨[lone], 1000⟩ none :=
    .emptied rfl (List.cons_ne_nil _ _) hfirst (by decide) rfl
  refine ⟨by rfl, by rfl, ?_, by rfl⟩
  exact (hrevised none).2 hgone

end ServingCache
end Switchboard.Discovery
