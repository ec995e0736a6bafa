import Switchboard.Proofs.Discovery.Lifetimes
import Switchboard.Proofs.Discovery.Mirror

/-! For how long a cache gives out a node that is alive no more. -/
namespace Switchboard.Discovery

variable {c : Cache} {ch : Change} {e : Entry} {a : Answer}
  {now since : Instant} {ttl lag : Duration} {ss : List Service} {name v id : String}
  {i j k n : Nat}

namespace Cache

theorem nodup_versions_receive
    (hv : ∀ o, c.entries.get? name = some o → (o.services.map (·.version)).Nodup)
    (he : (c.receive now ch).entries.get? name = some e) : (e.services.map (·.version)).Nodup := by
  rcases receive_get? he with he | ⟨-, -, o, ho, ⟨-, hs⟩ | ⟨-, hs⟩⟩
  · exact hv e he
  · rw [hs]
    exact nodup_versions_mergeService (hv o ho)
  · rw [hs]
    exact versions_removeService.nodup (hv o ho)

end Cache

namespace CachedRegistry

variable {s s' : CachedRegistry} {m : Move} {ms : List Move}

/-- The registry and its cache after the first so many moves. -/
def stage (s : CachedRegistry) (ms : List Move) (i : Nat) : CachedRegistry := s.run (ms.take i)

/-- The node was alive at some time of the run, and not before a given one. -/
def LivedSince (s : CachedRegistry) (ms : List Move) (since : Instant) (name v id : String) : Prop :=
  ∃ i, i ≤ ms.length ∧ ∃ t, t ≤ (s.stage ms (i + 1)).hub.now ∧ since ≤ t ∧
    (s.stage ms i).hub.now ≤ t ∧ (s.stage ms i).registry.catalog.Live t name v id

instance : Decidable (s.LivedSince ms since name v id) :=
  inferInstanceAs (Decidable (∃ i, i ≤ ms.length ∧ ∃ t, t ≤ (s.stage ms (i + 1)).hub.now ∧
    since ≤ t ∧ (s.stage ms i).hub.now ≤ t ∧ (s.stage ms i).registry.catalog.Live t name v id))

/-- What a lookup gives at once, or a fetch when the answer that has come is stored. -/
def Returns (s : CachedRegistry) (name : String) (ss : List Service) : Prop :=
  s.hub.cache.valid? s.hub.now name = some ss ∨
    ∃ a ∈ s.answers, a.name = name ∧ (s.hub.cache.settle s.hub.now name a.result).2 = .ok ss

/-- Likewise, where the registry has not answered with an error. -/
def Serves (s : CachedRegistry) (name : String) (ss : List Service) : Prop :=
  s.hub.cache.valid? s.hub.now name = some ss ∨
    ∃ a ∈ s.answers, a.name = name ∧ a.result = .ok ss

/-- Something that was there at one moment is still to be taken in at another: an answer, or a change
for a loop that watches. -/
def Owes (s s' : CachedRegistry) : Prop :=
  (∃ a ∈ s.answers, ∃ b ∈ s'.answers, b.ticket = a.ticket) ∨
    ∃ l ∈ s'.hub.loops, l.phase = .watching ∧
      ∃ d ∈ s'.readers l.id, changesOf l.name (s'.log.take s.log.length) d.place ≠ []

/-- No answer and no change is taken in later than that. -/
def Prompt (s : CachedRegistry) (lag : Duration) (ms : List Move) : Prop :=
  ∀ j, j ≤ ms.length → ∀ i, i ≤ j → (s.stage ms i).Owes (s.stage ms j) →
    (s.stage ms j).hub.now ≤ (s.stage ms i).hub.now + lag

instance : Decidable (s.Owes s') :=
  inferInstanceAs (Decidable (_ ∨ ∃ l ∈ s'.hub.loops, l.phase = .watching ∧
    ∃ d ∈ s'.readers l.id, changesOf l.name (s'.log.take s.log.length) d.place ≠ []))

instance : Decidable (s.Prompt lag ms) :=
  inferInstanceAs (Decidable (∀ j, j ≤ ms.length → ∀ i, i ≤ j → (s.stage ms i).Owes (s.stage ms j) →
    (s.stage ms j).hub.now ≤ (s.stage ms i).hub.now + lag))

/-- The change that a move folds in. -/
def taken? (s : CachedRegistry) : Move → Option Change
  | .fold k =>
    match s.hub.loop? k, s.readers k with
    | some l, some d => if l.phase = .watching then d.hand else none
    | _, _ => none
  | _ => none

/-- A change that does not name a node of an entry gives it a new term. -/
def Renews (s : CachedRegistry) (name v id : String) (m : Move) : Prop :=
  ∃ ch ∈ s.taken? m, ch.service.name = name ∧ ¬ ch.Names name v id ∧
    ∃ e ∈ (s.step m).hub.cache.entries.get? name, Lists e.services v id ∧
      e.expires = s.hub.now + s.hub.cache.ttl

def RenewedSince (s : CachedRegistry) (ms : List Move) (since : Instant) (name v id : String) : Prop :=
  ∃ i, i ≤ ms.length ∧ ∃ m ∈ ms[i]?, since ≤ (s.stage ms i).hub.now ∧
    (s.stage ms i).Renews name v id m

instance : Decidable (s.Renews name v id m) :=
  inferInstanceAs (Decidable (∃ ch ∈ s.taken? m, ch.service.name = name ∧ ¬ ch.Names name v id ∧
    ∃ e ∈ (s.step m).hub.cache.entries.get? name, Lists e.services v id ∧
      e.expires = s.hub.now + s.hub.cache.ttl))

instance : Decidable (s.RenewedSince ms since name v id) :=
  inferInstanceAs (Decidable (∃ i, i ≤ ms.length ∧ ∃ m ∈ ms[i]?, since ≤ (s.stage ms i).hub.now ∧
    (s.stage ms i).Renews name v id m))

/-- A registration of the node is for more than no time at all. -/
def Lasting (name v id : String) : Move → Prop
  | .register sv ttl =>
    ttl = some 0 → ¬ (sv.name = name ∧ sv.version = v ∧ (nodeOf sv.nodes id).isSome)
  | _ => True

instance : Decidable (Lasting name v id m) :=
  match m with
  | .register _ ttl => inferInstanceAs (Decidable (ttl = some 0 → ¬ _))
  | .deregister _ | .look _ | .ask _ | .store _ | .pause _ _ | .wake _ | .subscribe _ | .poll _
  | .fold _ | .notice _ | .stop | .tick _ => isTrue trivial

/-- What is folded in was in the hand of a loop that watches. -/
theorem taken?_inv (h : s.taken? m = some ch) : ∃ k l d, s.hub.loop? k = some l ∧
    l.phase = .watching ∧ s.readers k = some d ∧ d.hand = some ch := by
  cases m with
  | fold k =>
    simp only [taken?] at h
    split at h
    · rename_i l d hl hd
      split at h
      · rename_i hp
        exact ⟨k, l, d, hl, hp, hd, h⟩
      · cases h
    · cases h
  | register | deregister | look | ask | store | pause | wake | subscribe | poll | notice | stop
  | tick => cases h

theorem stage_length : s.stage ms ms.length = s.run ms := by rw [stage, List.take_length]

theorem stage_succ (h : ms[i]? = some m) : s.stage ms (i + 1) = (s.stage ms i).step m := by
  rw [stage, List.take_add_one, h]
  exact List.foldl_append ..

theorem Trans.hub_eq (ht : Trans s m s') : s'.hub = s.hub ∨ ∃ ev, s'.hub = s.hub.step ev := by
  cases ht with
  | idle | registered | deregistered | asked | found | waited => exact .inl rfl
  | quiet m ev _ _ => exact .inr ⟨ev, rfl⟩
  | stored a _ => exact .inr ⟨.answer a.ticket a.result, rfl⟩
  | subscribed k _ _ _ => exact .inr ⟨.opened k (.ok ()), rfl⟩
  | broken k _ _ _ _ => exact .inr ⟨.broke k .watcherStopped, rfl⟩
  | folded k _ ch _ _ => exact .inr ⟨.received k ch, rfl⟩

theorem Trans.now_le (ht : Trans s m s') : s.hub.now ≤ s'.hub.now := by
  rcases ht.hub_eq with he | ⟨ev, he⟩
  · exact Nat.le_of_eq (congrArg Hub.now he.symm)
  · rw [he]
    exact (Hub.step_trans _ ev).now_le

theorem Trans.ttl_eq (ht : Trans s m s') : s'.hub.cache.ttl = s.hub.cache.ttl := by
  rcases ht.hub_eq with he | ⟨ev, he⟩
  · rw [he]
  · rw [he]
    exact (Hub.step_trans _ ev).ttl_eq

theorem ttl_run (s : CachedRegistry) (ms : List Move) :
    (s.run ms).hub.cache.ttl = s.hub.cache.ttl := by
  induction ms generalizing s with
  | nil => rfl
  | cons m ms ih => exact (ih (s.step m)).trans (step_trans s m).ttl_eq

/-- A new answer is what the registry has at the time. -/
theorem Trans.answers_inv (ht : Trans s m s') (ha : a ∈ s'.answers) :
    a ∈ s.answers ∨ s'.registry = s.registry ∧ s'.hub = s.hub ∧
      a.result = s.registry.lookup s.hub.now a.name := by
  cases ht with
  | asked t f hf =>
    rcases List.mem_append.1 ha with ha | ha
    · exact .inl ha
    · cases List.mem_singleton.1 ha
      exact .inr ⟨rfl, rfl, rfl⟩
  | stored b hb => exact .inl (List.mem_filter.1 ha).1
  | idle | registered | deregistered | quiet | subscribed | found | waited | broken | folded =>
    exact .inl ha

/-- News of a node that were not there before are of a registration. -/
theorem Trans.log_inv (ht : Trans s m s') (hn : s'.log[n]? = some ch) (hk : ch.kind ≠ .delete) :
    s.log[n]? = some ch ∨ ∃ sv ttl c, m = .register sv ttl ∧
      s.registry.catalog.register s.hub.now sv ttl = .ok (c, ch) ∧ s' = s.publish c ch := by
  have last {x : Change} (h : (s.log ++ [x])[n]? = some ch) : s.log[n]? = some ch ∨ x = ch := by
    rw [List.getElem?_append] at h
    split at h
    · exact .inl h
    · exact .inr (List.mem_singleton.1 (List.mem_of_getElem? h)).symm
  cases ht with
  | registered sv ttl c x h =>
    rcases last hn with hn | rfl
    · exact .inl hn
    · exact .inr ⟨sv, ttl, c, rfl, h, rfl⟩
  | deregistered sv vs h =>
    rcases last hn with hn | rfl
    · exact .inl hn
    · exact absurd rfl hk
  | idle | quiet | asked | stored | subscribed | found | waited | broken | folded => exact .inl hn

/-- An entry is an old one, an answer of the registry, or what a change made of the old one. -/
theorem Trans.entries_inv (hs : s.Sound) (ht : Trans s m s')
    (he : s'.hub.cache.entries.get? name = some e) :
    s.hub.cache.entries.get? name = some e ∨
      (∃ a ∈ s.answers, a.name = name ∧ a.result = .ok e.services ∧
        e.expires = s.hub.now + s.hub.cache.ttl) ∨
      ∃ ch, s.taken? m = some ch ∧
        (s.hub.cache.receive s.hub.now ch).entries.get? name = some e := by
  cases ht with
  | idle | registered | deregistered | asked | found | waited => exact .inl he
  | quiet m ev hev hstop =>
    rcases (Hub.step_trans s.hub ev).entries_inv he with he | ⟨t, rfl, -⟩ | ⟨k, ch, rfl, -⟩
    · exact .inl he
    · exact hev.elim
    · exact hev.elim
  | stored a ha =>
    rcases (Hub.step_trans s.hub (.answer a.ticket a.result)).entries_inv he with
      he | ⟨t, hev, ⟨f, hf, hname, -⟩, hends⟩ | ⟨k, ch, hev, -⟩
    · exact .inl he
    · obtain ⟨-, ⟨g, hg, hn⟩, -⟩ := hs.answers a ha
      injection hev with ht hres
      subst ht
      rw [hf] at hg
      cases hg
      exact .inr (.inl ⟨a, ha, hn.symm.trans hname, hres, hends⟩)
    · cases hev
  | subscribed k l hl hp =>
    have hent := (Hub.step_trans s.hub (.opened k (.ok ()))).entries nofun nofun
    exact .inl ((congrArg (·.get? name) hent).symm.trans he)
  | broken k d hd hh hw =>
    have hent := (Hub.step_trans s.hub (.broke k .watcherStopped)).entries nofun nofun
    exact .inl ((congrArg (·.get? name) hent).symm.trans he)
  | folded k d ch hd hh =>
    rcases (Hub.step_trans s.hub (.received k ch)).entries_inv he with
      he | ⟨t, hev, -⟩ | ⟨j, x, hev, ⟨l, hl, hp⟩, he⟩
    · exact .inl he
    · cases hev
    · cases hev
      exact .inr (.inr ⟨ch, by simp only [taken?, hl, hd, hp, if_true, hh], he⟩)

/-- What is folded in stands in the log where its reader is. -/
theorem Sound.taken (hs : s.Sound) (h : s.taken? m = some ch) :
    ch.service.name ∈ s.hub.cache.watched ∧
      ∃ l ∈ s.hub.loops, l.phase = .watching ∧ l.name = ch.service.name ∧
        ∃ d, s.readers l.id = some d ∧ s.log[d.place]? = some ch := by
  obtain ⟨k, l, d, hl, hp, hd, hh⟩ := taken?_inv h
  obtain ⟨-, hd', hserv⟩ := hs.readers k d hd
  obtain ⟨-, hwant, hlog⟩ := hd'.hand ch hh
  rw [hserv l hl] at hwant
  have hid : l.id = k := Hub.loop?_id hl
  have hname : l.name = ch.service.name := beq_iff_eq.1 hwant
  have hmem : l ∈ s.hub.loops := List.mem_of_find?_eq_some hl
  refine ⟨hname ▸ hs.tidy.watched k l hl, l, hmem, hp, hname, d, hid ▸ hd, ?_⟩
  have hfirst := congrArg (·[0]?) hlog
  simpa using hfirst

/-- What a loop is about to fold in has been owed to it since it was published. -/
theorem Sound.owes_of_taken (hs : s.Sound) (h : s.taken? m = some ch) :
    ∃ n, s.log[n]? = some ch ∧ ∀ x : CachedRegistry, n < x.log.length → x.Owes s := by
  obtain ⟨-, l, hl, hp, hname, d, hd, hn⟩ := hs.taken h
  refine ⟨d.place, hn, ?_⟩
  intro x hx
  refine .inr ⟨l, hl, hp, d, hd, ?_⟩
  have hmem : ch ∈ (s.log.take x.log.length).drop d.place := by
    have hget : ((s.log.take x.log.length).drop d.place)[0]? = some ch := by
      rw [List.getElem?_drop, Nat.add_zero, List.getElem?_take_of_lt hx, hn]
    exact List.mem_of_getElem? hget
  have hwants : Watcher.wants (some l.name) ch.service.name = true := beq_iff_eq.2 hname
  exact List.ne_nil_of_mem (List.mem_filter.2 ⟨hmem, hwants⟩)

def LivesAt (s : CachedRegistry) (ms : List Move) (name v id : String) (i : Nat) : Prop :=
  (s.stage ms i).registry.catalog.Live (s.stage ms i).hub.now name v id

/-- Why an entry that lists the node may have this end: the node was alive not too long before it,
or was alive once and the entry was renewed by a change without it. -/
def Backed (s : CachedRegistry) (lag : Duration) (ms : List Move) (name v id : String) (i : Nat)
    (ends : Instant) : Prop :=
  ∃ j, j ≤ i ∧ s.LivesAt ms name v id j ∧
    (ends ≤ (s.stage ms j).hub.now + (s.hub.cache.ttl + lag) ∨
      ∃ p m, ms[p]? = some m ∧ (s.stage ms p).Renews name v id m ∧
        ends ≤ (s.stage ms p).hub.now + s.hub.cache.ttl)

/-- Whatever lists the node, an answer, a change or the entry, has it from a stage at which the node
was alive. -/
structure Informed (s : CachedRegistry) (lag : Duration) (ms : List Move) (name v id : String)
    (i : Nat) :
    Prop where
  told : ∀ a ∈ (s.stage ms i).answers, ∀ ss, a.name = name → a.result = .ok ss → Lists ss v id →
    ∃ j, j ≤ i ∧ (∃ b ∈ (s.stage ms j).answers, a.ticket = b.ticket) ∧ s.LivesAt ms name v id j
  heard : ∀ (n : Nat) (ch : Change), (s.stage ms i).log[n]? = some ch → ch.kind ≠ .delete →
    ch.Names name v id → ∃ j, j ≤ i ∧ n < (s.stage ms j).log.length ∧ s.LivesAt ms name v id j
  once : ∀ e, (s.stage ms i).hub.cache.entries.get? name = some e →
    (e.services.map (·.version)).Nodup
  kept : ∀ e, (s.stage ms i).hub.cache.entries.get? name = some e → Lists e.services v id →
    s.Backed lag ms name v id i e.expires

theorem informed_new : (new ttl).Informed lag ms name v id 0 where
  told _ h := nomatch h
  heard _ _ h := nomatch h
  once _ h := nomatch h
  kept _ h := nomatch h

theorem Backed.succ {ends : Instant} (h : s.Backed lag ms name v id i ends) :
    s.Backed lag ms name v id (i + 1) ends := by
  obtain ⟨j, hj, h⟩ := h
  exact ⟨j, Nat.le_succ_of_le hj, h⟩

/-- What is taken in promptly backs an entry for one term and the lag. -/
theorem Prompt.backed (hp : s.Prompt lag ms) (hi : i ≤ ms.length) (hj : j ≤ i)
    (hl : s.LivesAt ms name v id j) (ho : (s.stage ms j).Owes (s.stage ms i)) :
    s.Backed lag ms name v id i ((s.stage ms i).hub.now + s.hub.cache.ttl) := by
  have hlag : (s.stage ms i).hub.now ≤ (s.stage ms j).hub.now + lag := hp i hi j hj ho
  refine ⟨j, hj, hl, .inl ?_⟩
  rw [Nat.add_comm s.hub.cache.ttl, ← Nat.add_assoc]
  exact Nat.add_le_add_right hlag _

/-- An answer lists the node only if it was alive when asked. -/
theorem Informed.told_succ (hs : (s.stage ms i).Sound) (hi : s.Informed lag ms name v id i)
    (ht : Trans (s.stage ms i) m (s.stage ms (i + 1))) (ha : a ∈ (s.stage ms (i + 1)).answers)
    (hn : a.name = name) (hr : a.result = .ok ss) (hl : Lists ss v id) :
    ∃ j, j ≤ i + 1 ∧ (∃ b ∈ (s.stage ms j).answers, a.ticket = b.ticket) ∧
      s.LivesAt ms name v id j := by
  rcases ht.answers_inv ha with hold | ⟨hreg, hhub, hres⟩
  · obtain ⟨j, hj, h⟩ := hi.told a hold ss hn hr hl
    exact ⟨j, Nat.le_succ_of_le hj, h⟩
  · refine ⟨i + 1, Nat.le_refl _, ⟨a, ha, rfl⟩, ?_⟩
    rw [LivesAt, hreg, hhub]
    rw [hr, hn] at hres
    exact Catalog.live_of_lookup hs.kept.catalog hres.symm hl

/-- A change names the node as present only if it was alive then. -/
theorem Informed.heard_succ (hi : s.Informed lag ms name v id i)
    (ht : Trans (s.stage ms i) m (s.stage ms (i + 1))) (hm : Lasting name v id m)
    (hn : (s.stage ms (i + 1)).log[n]? = some ch) (hk : ch.kind ≠ .delete)
    (hnames : ch.Names name v id) :
    ∃ j, j ≤ i + 1 ∧ n < (s.stage ms j).log.length ∧ s.LivesAt ms name v id j := by
  rcases ht.log_inv hn hk with hold | ⟨sv, ttl, c, rfl, hreg, hpub⟩
  · obtain ⟨j, hj, h⟩ := hi.heard n ch hold hk hnames
    exact ⟨j, Nat.le_succ_of_le hj, h⟩
  · refine ⟨i + 1, Nat.le_refl _, (List.getElem?_eq_some_iff.1 hn).1, ?_⟩
    obtain ⟨-, hch, -⟩ := Catalog.register_inv hreg
    have hserv : ch.service = sv := by rw [hch, Catalog.newsOf]
    have httl : ttl ≠ some 0 := by
      intro h0
      rw [Change.Names, hserv] at hnames
      exact hm h0 hnames
    rw [LivesAt, hpub]
    exact Catalog.live_register hreg httl hnames

theorem Informed.once_succ (hs : (s.stage ms i).Sound) (hi : s.Informed lag ms name v id i)
    (ht : Trans (s.stage ms i) m (s.stage ms (i + 1)))
    (he : (s.stage ms (i + 1)).hub.cache.entries.get? name = some e) :
    (e.services.map (·.version)).Nodup := by
  rcases ht.entries_inv hs he with he | ⟨a, ha, -, hr, -⟩ | ⟨ch, -, he⟩
  · exact hi.once e he
  · exact ((hs.answers a ha).told _ hr).2.1.1
  · exact Cache.nodup_versions_receive hi.once he

/-- A change that is folded in has the node from its registration, or leaves it as it was. -/
theorem Informed.folded (hs : (s.stage ms i).Sound) (hi : s.Informed lag ms name v id i)
    (hp : s.Prompt lag ms) (hm : ms[i]? = some m) (hc : (s.stage ms i).taken? m = some ch)
    (httl : (s.stage ms i).hub.cache.ttl = s.hub.cache.ttl)
    (he : ((s.stage ms i).hub.cache.receive (s.stage ms i).hub.now ch).entries.get? name = some e)
    (he' : ((s.stage ms i).step m).hub.cache.entries.get? name = some e)
    (hl : Lists e.services v id) :
    s.Backed lag ms name v id i e.expires := by
  have hlen : i ≤ ms.length := Nat.le_of_lt (List.getElem?_eq_some_iff.1 hm).1
  rcases Cache.receive_get? he with hold | ⟨hname, hends, -⟩
  · exact hi.kept e hold hl
  · subst hname
    by_cases hnames : ch.Names ch.service.name v id
    · obtain ⟨n, hn, howes⟩ := hs.owes_of_taken hc
      by_cases hk : ch.kind = .delete
      -- The entry has each version once, so a deletion would have taken the node out of it.
      · obtain ⟨-, rfl, hid⟩ := hnames
        exact absurd ⟨e, he, hl⟩ (Cache.not_lists_receive hk (hs.taken hc).1 hi.once hid)
      · obtain ⟨j, hj, hnj, hlive⟩ := hi.heard n ch hn hk hnames
        rw [hends, httl]
        exact hp.backed hlen hj hlive (howes _ hnj)
    · rcases Cache.lists_receive ⟨e, he, hl⟩ with ⟨o, ho, hol⟩ | ⟨-, h⟩
      · obtain ⟨j, hj, hlive, -⟩ := hi.kept o ho hol
        have hterm : e.expires = (s.stage ms i).hub.now + s.hub.cache.ttl := by rw [hends, httl]
        exact ⟨j, hj, hlive, .inr ⟨i, _, hm, ⟨ch, hc, rfl, hnames, e, he', hl, hends⟩,
          Nat.le_of_eq hterm⟩⟩
      · exact absurd h hnames

/-- An entry that lists the node has it from one of these, or is renewed. -/
theorem Informed.kept_succ (hs : (s.stage ms i).Sound) (hi : s.Informed lag ms name v id i)
    (hp : s.Prompt lag ms) (hm : ms[i]? = some m)
    (httl : (s.stage ms i).hub.cache.ttl = s.hub.cache.ttl)
    (he : (s.stage ms (i + 1)).hub.cache.entries.get? name = some e) (hl : Lists e.services v id) :
    s.Backed lag ms name v id i e.expires := by
  rw [stage_succ hm] at he
  rcases (step_trans _ m).entries_inv hs he with hold |
    ⟨a, ha, hname, hr, hends⟩ | ⟨ch, hc, he'⟩
  · exact hi.kept e hold hl
  · obtain ⟨j, hj, ⟨b, hb, hticket⟩, hlive⟩ := hi.told a ha _ hname hr hl
    have hlen : i ≤ ms.length := Nat.le_of_lt (List.getElem?_eq_some_iff.1 hm).1
    rw [hends, httl]
    exact hp.backed hlen hj hlive (.inl ⟨b, hb, a, ha, hticket⟩)
  · exact hi.folded hs hp hm hc httl he' he hl

theorem Informed.succ (hs : (s.stage ms i).Sound) (hi : s.Informed lag ms name v id i)
    (hp : s.Prompt lag ms) (hm : ms[i]? = some m) (hlast : Lasting name v id m)
    (httl : (s.stage ms i).hub.cache.ttl = s.hub.cache.ttl) :
    s.Informed lag ms name v id (i + 1) := by
  have ht : Trans (s.stage ms i) m (s.stage ms (i + 1)) := stage_succ hm ▸ step_trans _ m
  exact {
    told _ ha _ hn hr hl := hi.told_succ hs ht ha hn hr hl
    heard _ _ hn hk hnames := hi.heard_succ ht hlast hn hk hnames
    once _ he := hi.once_succ hs ht he
    kept _ he hl := (hi.kept_succ hs hp hm httl he hl).succ }

theorem informed_stage (hp : (new ttl).Prompt lag ms) (hlast : ∀ m ∈ ms, Lasting name v id m)
    (hi : i ≤ ms.length) : (new ttl).Informed lag ms name v id i := by
  induction i with
  | zero => exact informed_new
  | succ i ih =>
    have hm : ms[i]? = some ms[i] := List.getElem?_eq_getElem hi
    have hs : ((new ttl).stage ms i).Sound := (sound_new ttl).run _
    have hinf := ih (Nat.le_of_succ_le hi)
    exact hinf.succ hs hp hm (hlast _ (List.getElem_mem hi)) (ttl_run _ _)

theorem LivesAt.livedSince (hl : s.LivesAt ms name v id j) (hj : j ≤ ms.length)
    (hsince : since ≤ (s.stage ms j).hub.now) : s.LivedSince ms since name v id := by
  refine ⟨j, hj, (s.stage ms j).hub.now, ?_, hsince, Nat.le_refl _, hl⟩
  rcases Nat.lt_or_eq_of_le hj with hlt | rfl
  · rw [stage_succ (List.getElem?_eq_getElem hlt)]
    exact (step_trans _ _).now_le
  · have hsame : s.stage ms (ms.length + 1) = s.stage ms ms.length := by
      rw [stage, stage, List.take_of_length_le (Nat.le_succ _), List.take_length]
    exact Nat.le_of_eq (congrArg (·.hub.now) hsame.symm)

/-- An entry that has not expired was backed not too long ago. -/
theorem Backed.lived (hb : s.Backed lag ms name v id i e.expires) (hi : i ≤ ms.length)
    (hn : now < e.expires) :
    s.LivedSince ms (now - (s.hub.cache.ttl + lag)) name v id ∨
      s.LivedSince ms 0 name v id ∧ s.RenewedSince ms (now - s.hub.cache.ttl) name v id := by
  obtain ⟨j, hj, hlive, hlag | ⟨p, m, hm, hr, hterm⟩⟩ := hb
  · refine .inl (hlive.livedSince (Nat.le_trans hj hi) ?_)
    exact Nat.sub_le_of_le_add (Nat.le_trans (Nat.le_of_lt hn) hlag)
  · refine .inr ⟨hlive.livedSince (Nat.le_trans hj hi) (Nat.zero_le _), p, ?_, m, hm, ?_, hr⟩
    · exact Nat.le_of_lt (List.getElem?_eq_some_iff.1 hm).1
    · exact Nat.sub_le_of_le_add (Nat.le_trans (Nat.le_of_lt hn) hterm)

/-- A node that is given out was alive no longer ago than the term of an entry and the lag of news
together, or else it was alive once, and within the last term a change that does not name it renewed
the entry. -/
theorem lived_run (ttl lag : Duration) (ms : List Move) (hp : (new ttl).Prompt lag ms)
    (hlast : ∀ m ∈ ms, Lasting name v id m) (hs : ((new ttl).run ms).Serves name ss)
    (hl : Lists ss v id) :
    (new ttl).LivedSince ms (((new ttl).run ms).hub.now - (ttl + lag)) name v id ∨
      (new ttl).LivedSince ms 0 name v id ∧
        (new ttl).RenewedSince ms (((new ttl).run ms).hub.now - ttl) name v id := by
  have hinf := informed_stage hp hlast (Nat.le_refl _)
  rw [← stage_length] at hs ⊢
  rcases hs with hv | ⟨a, ha, hn, hr⟩
  · obtain ⟨e, he, rfl, hvalid⟩ := Cache.valid?_inv hv
    exact (hinf.kept e he hl).lived (Nat.le_refl _) hvalid
  · obtain ⟨j, hj, ⟨b, hb, hticket⟩, hlive⟩ := hinf.told a ha ss hn hr hl
    have hlag := hp _ (Nat.le_refl _) j hj (.inl ⟨b, hb, a, ha, hticket⟩)
    refine .inl (hlive.livedSince hj (Nat.sub_le_of_le_add ?_))
    exact Nat.le_trans hlag (Nat.add_le_add_left (Nat.le_add_left _ _) _)

/-- A lookup of a name whose fetch is answered at once, and the loop that comes of it. -/
def following : List Move := [.look "a", .ask 0, .store 0, .pause 0 0, .subscribe 0]

/-- News of one node renews the entry, after another is over. -/
def siblings : List Move :=
  .register (lone "m") (some 1) :: .register (lone "n") none :: following ++
    [.tick 2, .register (lone "n") none, .poll 0, .fold 0, .tick 2]

theorem lived_run_siblings :
    ((new 3).run siblings).hub.now = 4 ∧ (new 3).LivedSince siblings 0 "a" "1" "m" ∧
      (new 3).RenewedSince siblings 1 "a" "1" "m" := by
  have hs : ((new 3).run siblings).Serves "a"
      [{ name := "a", version := "1", nodes := [⟨"n", "n", .empty⟩, ⟨"m", "m", .empty⟩] }] :=
    .inl rfl
  refine ⟨rfl, (lived_run 3 0 siblings ?_ ?_ hs ?_).resolve_left ?_⟩
  · decide +kernel
  · decide +kernel
  · decide
  · decide +kernel

/-- After the run a node is given out that was not alive for as long as an entry lasts. -/
def Stale (ttl : Duration) (ms : List Move) (name v id : String) : Prop :=
  ∃ ss, ((new ttl).run ms).Returns name ss ∧ Lists ss v id ∧
    ¬ (new ttl).LivedSince ms (((new ttl).run ms).hub.now - ttl) name v id

/-- News of a node is folded in when the node is over. -/
def belated : List Move :=
  .register (lone "n") none :: following ++
    [.register (lone "m") (some 1), .tick 3, .poll 0, .fold 0]

/-- A node is registered for no time. -/
def momentary : List Move :=
  .register (lone "n") none :: following ++ [.register (lone "m") (some 0), .poll 0, .fold 0]

/-- The registry has no node left, and its answer to this is still to be stored. -/
def deserted : List Move :=
  .register (lone "m") (some 1) :: following ++ [.tick 3, .look "a", .ask 1]

/-- None of the conditions can be dropped, nor the renewal. -/
theorem stale_siblings_belated_momentary_deserted :
    (Stale 3 siblings "a" "1" "m" ∧ (new 3).Prompt 0 siblings ∧
      ∀ m ∈ siblings, Lasting "a" "1" "m" m) ∧
    (Stale 1 belated "a" "1" "m" ∧ ¬ (new 1).RenewedSince belated 0 "a" "1" "m" ∧
      ∀ m ∈ belated, Lasting "a" "1" "m" m) ∧
    (Stale 1 momentary "a" "1" "m" ∧ ¬ (new 1).RenewedSince momentary 0 "a" "1" "m" ∧
      (new 1).Prompt 0 momentary) ∧
    (Stale 1 deserted "a" "1" "m" ∧ ¬ (new 1).RenewedSince deserted 0 "a" "1" "m" ∧
      (new 1).Prompt 0 deserted ∧ ∀ m ∈ deserted, Lasting "a" "1" "m" m) := by
  refine ⟨⟨⟨_, .inl rfl, ?_⟩, ?_⟩, ⟨⟨_, .inl rfl, ?_⟩, ?_⟩, ⟨⟨_, .inl rfl, ?_⟩, ?_⟩,
    ⟨⟨_, .inr ⟨_, List.mem_cons_self, rfl, rfl⟩, ?_⟩, ?_⟩⟩ <;> decide +kernel

end CachedRegistry
end Switchboard.Discovery
