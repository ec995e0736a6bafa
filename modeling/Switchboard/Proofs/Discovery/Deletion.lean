import Switchboard.Proofs.Discovery.Fetches

/-! What can bring a node back into an entry from which a deletion took it. -/
namespace Switchboard.Discovery

variable {s t : Service} {ss : List Service} {c : Cache} {ch : Change} {e : Entry} {now : Instant}
  {v id name : String}

/-- Some service of the version has a node of the id. -/
def Lists (ss : List Service) (v id : String) : Prop :=
  ∃ s ∈ ss, s.version = v ∧ (nodeOf s.nodes id).isSome

instance : Decidable (Lists ss v id) :=
  inferInstanceAs (Decidable (∃ s ∈ ss, s.version = v ∧ (nodeOf s.nodes id).isSome))

theorem lists_cons :
    Lists (t :: ss) v id ↔ t.version = v ∧ (nodeOf t.nodes id).isSome ∨ Lists ss v id := by
  simp [Lists]

theorem Lists.version_mem (h : Lists ss v id) : v ∈ ss.map (·.version) := by
  obtain ⟨s, hs, rfl, -⟩ := h
  exact List.mem_map_of_mem hs

/-- Whether a change tells of a node. -/
def Change.Names (ch : Change) (name v id : String) : Prop :=
  ch.service.name = name ∧ ch.service.version = v ∧ (nodeOf ch.service.nodes id).isSome

instance : Decidable (ch.Names name v id) :=
  inferInstanceAs (Decidable (_ ∧ _ ∧ _))

namespace Cache

theorem lists_mergeService (h : Lists (mergeService s ss) v id) :
    Lists ss v id ∨ s.version = v ∧ (nodeOf s.nodes id).isSome := by
  induction ss with
  | nil =>
    rcases lists_cons.1 h with h | ⟨t, ht, -⟩
    · exact .inr h
    · cases ht
  | cons t ss ih =>
    unfold mergeService at h
    split at h
    · rename_i hv
      rcases lists_cons.1 h with ⟨hs, hn⟩ | h
      · rw [nodeOf_mergeNodes, Option.isSome_or, Bool.or_eq_true] at hn
        rcases hn with hn | hn
        · exact .inr ⟨hs, hn⟩
        · exact .inl (lists_cons.2 (.inl ⟨hv.trans hs, hn⟩))
      · exact .inl (lists_cons.2 (.inr h))
    · rcases lists_cons.1 h with h | h
      · exact .inl (lists_cons.2 (.inl h))
      · exact (ih h).imp_left fun h => lists_cons.2 (.inr h)

theorem lists_of_removeService (h : Lists (removeService s ss) v id) : Lists ss v id := by
  obtain ⟨t, ht, hv, hn⟩ := h
  rcases mem_removeService ht with ht | ⟨u, hu, rfl⟩
  · exact ⟨t, ht, hv, hn⟩
  · refine ⟨u, hu, hv, ?_⟩
    rw [nodeOf_without] at hn
    split at hn
    · cases hn
    · exact hn

/-- A version that stands once is without the nodes that were taken from it. -/
theorem lists_removeService (hv : (ss.map (·.version)).Nodup)
    (h : Lists (removeService s ss) s.version id) : nodeOf s.nodes id = none := by
  induction ss with
  | nil =>
    obtain ⟨t, ht, -⟩ := h
    cases ht
  | cons t ss ih =>
    obtain ⟨ht, hss⟩ := List.nodup_cons.1 hv
    unfold removeService at h
    by_cases hts : t.version = s.version
    · have hnone : ¬ Lists ss s.version id := by
        intro hl
        rw [← hts] at hl
        exact ht hl.version_mem
      rw [if_pos hts] at h
      dsimp only at h
      split at h
      · exact absurd h hnone
      · rcases lists_cons.1 h with ⟨-, hn⟩ | h
        · rw [nodeOf_without] at hn
          split at hn
          · cases hn
          · rename_i hs
            simpa using hs
        · exact absurd h hnone
    · rw [if_neg hts] at h
      rcases lists_cons.1 h with ⟨he, -⟩ | h
      · exact absurd he hts
      · exact ih hss h

/-- Whether the entry of a name lists a node, valid or not. -/
def Lists (c : Cache) (name v id : String) : Prop :=
  ∃ e, c.entries.get? name = some e ∧ Discovery.Lists e.services v id

theorem valid?_inv (h : c.valid? now name = some ss) :
    ∃ e, c.entries.get? name = some e ∧ e.services = ss ∧ now < e.expires := by
  unfold valid? at h
  split at h
  · rename_i e he
    split at h
    · rename_i hv
      cases h
      exact ⟨e, he, rfl, of_decide_eq_true (Bool.and_eq_true_iff.1 hv).2⟩
    · cases h
  · cases h

theorem lists_of_valid (h : c.valid? now name = some ss) (hl : Discovery.Lists ss v id) :
    c.Lists name v id := by
  obtain ⟨e, he, rfl, -⟩ := valid?_inv h
  exact ⟨e, he, hl⟩

/-- A change leaves an entry alone, or is folded into it for a new term. -/
theorem receive_get? (he : (c.receive now ch).entries.get? name = some e) :
    c.entries.get? name = some e ∨ ch.service.name = name ∧ e.expires = now + c.ttl ∧
      ∃ o, c.entries.get? name = some o ∧
        (ch.kind ≠ .delete ∧ e.services = mergeService ch.service o.services ∨
          ch.kind = .delete ∧ e.services = removeService ch.service o.services) := by
  by_cases hn : ch.service.name = name
  · subst hn
    unfold receive fold at he
    dsimp only at he
    split at he
    · exact .inl he
    · split at he
      · exact .inl he
      · rename_i o ho
        split at he
        · split at he
          · simp [drop] at he
          · exact .inl he
        · split at he
          · rename_i hk
            split at he
            · exact .inl he
            · split at he
              · simp [drop] at he
              · simp only [store_get?, if_true, Option.some.injEq] at he
                subst he
                exact .inr ⟨rfl, rfl, o, ho, .inr ⟨hk, rfl⟩⟩
          · rename_i hk
            simp only [store_get?, if_true, Option.some.injEq] at he
            subst he
            exact .inr ⟨rfl, rfl, o, ho, .inl ⟨hk, rfl⟩⟩
  · rw [receive_get?_of_ne hn] at he
    exact .inl he

/-- A change adds to an entry no nodes but those that it names itself, and then it is no deletion.
-/
theorem lists_receive (h : (c.receive now ch).Lists name v id) :
    c.Lists name v id ∨ ch.kind ≠ .delete ∧ ch.Names name v id := by
  obtain ⟨e, he, hl⟩ := h
  rcases receive_get? he with he | ⟨rfl, -, o, ho, ⟨hk, hs⟩ | ⟨-, hs⟩⟩
  · exact .inl ⟨e, he, hl⟩
  · rw [hs] at hl
    rcases lists_mergeService hl with hl | ⟨hv, hid⟩
    · exact .inl ⟨o, ho, hl⟩
    · exact .inr ⟨hk, rfl, hv, hid⟩
  · rw [hs] at hl
    exact .inl ⟨o, ho, lists_of_removeService hl⟩

/-- A deletion leaves none of the nodes that it names. -/
theorem not_lists_receive (hk : ch.kind = .delete) (hw : ch.service.name ∈ c.watched)
    (hv : ∀ e, c.entries.get? ch.service.name = some e → (e.services.map (·.version)).Nodup)
    (hid : (nodeOf ch.service.nodes id).isSome) :
    ¬ (c.receive now ch).Lists ch.service.name ch.service.version id := by
  rintro ⟨e', he', hl⟩
  have hcontains : c.watched.contains ch.service.name = true := List.contains_iff_mem.2 hw
  have hne : ch.service.nodes.isEmpty = false := by
    obtain ⟨n, hn⟩ := Option.isSome_iff_exists.1 hid
    simpa using ne_nil_of_nodeOf hn
  cases he : c.entries.get? ch.service.name with
  | none => simp [receive, fold_get?_none, he] at he'
  | some e =>
    simp only [receive, fold, he, hk, hcontains, hne, Bool.not_true, Bool.false_eq_true,
      if_false] at he'
    split at he'
    · rename_i hunknown
      simp only [Bool.not_eq_true', List.any_eq_false, beq_iff_eq] at hunknown
      rw [he] at he'
      cases he'
      obtain ⟨t, ht, hver, -⟩ := hl
      exact hunknown t ht hver
    · split at he'
      · simp [drop] at he'
      · simp only [store_get?, if_true, Option.some.injEq] at he'
        subst he'
        rw [lists_removeService (hv e he) hl] at hid
        cases hid

end Cache

namespace Hub

variable {h h' g : Hub} {ev : HubEvent} {f : Fetch} {t i k : Nat} {es : List HubEvent} {n : Node}

def run (h : Hub) (es : List HubEvent) : Hub := es.foldl step h

/-- The loop takes in a deletion from a service that is watched and has each version once. -/
structure Deletes (h : Hub) (k : Nat) (ch : Change) : Prop where
  watching : ∃ l, h.loop? k = some l ∧ l.phase = .watching
  kind : ch.kind = .delete
  watched : ch.service.name ∈ h.cache.watched
  once : ∀ e, h.cache.entries.get? ch.service.name = some e →
    (e.services.map (·.version)).Nodup

/-- What may bring a node back into an entry: news of the node, or the registry's answer to a fetch.
-/
def Restores (h : Hub) (name v id : String) : HubEvent → Prop
  | .received k ch => (∃ l, h.loop? k = some l ∧ l.phase = .watching) ∧ ch.kind ≠ .delete ∧
    ch.Names name v id
  | .answer t (.ok ss) => (∃ f, h.fetch? t = some f ∧ f.name = name ∧ f.answer = none) ∧
    Lists ss v id
  | _ => False

/-- Only what restores a node makes an entry list it. -/
theorem lists_step (ht : Trans h ev h') (hl : h'.cache.Lists name v id) :
    h.cache.Lists name v id ∨ h.Restores name v id ev := by
  obtain ⟨e, he, hl⟩ := hl
  rcases ht.entries_inv he with he | ⟨t, rfl, hf, -⟩ | ⟨k, ch, rfl, hw, he⟩
  · exact .inl ⟨e, he, hl⟩
  · exact .inr ⟨hf, hl⟩
  · exact (Cache.lists_receive ⟨e, he, hl⟩).imp_right fun hr => ⟨hw, hr⟩

theorem lists_run (es : List HubEvent) (hn : ¬ h.cache.Lists name v id)
    (hl : (h.run es).cache.Lists name v id) :
    ∃ i ev, es[i]? = some ev ∧ (h.run (es.take i)).Restores name v id ev := by
  induction es generalizing h with
  | nil => exact absurd hl hn
  | cons ev es ih =>
    by_cases hstep : (h.step ev).cache.Lists name v id
    · rcases lists_step (step_trans h ev) hstep with hold | hr
      · exact absurd hold hn
      · exact ⟨0, ev, rfl, hr⟩
    · obtain ⟨i, ev', hi, hr⟩ := ih hstep hl
      exact ⟨i + 1, ev', hi, hr⟩

theorem not_lists_received (hd : h.Deletes k ch) (hn : n ∈ ch.service.nodes) :
    ¬ (h.step (.received k ch)).cache.Lists ch.service.name ch.service.version n.id := by
  obtain ⟨⟨l, hl, hp⟩, hkind, hwatched, honce⟩ := hd
  have hstep : (h.step (.received k ch)).cache = h.cache.receive h.now ch := by
    simp only [step, hl, hp, if_true]
  have hnamed : (nodeOf ch.service.nodes n.id).isSome := by
    refine Option.isSome_iff_ne_none.2 ?_
    intro hnone
    exact nodeOf_eq_none_iff.1 hnone n hn rfl
  rw [hstep]
  exact Cache.not_lists_receive hkind hwatched honce hnamed

theorem fetch?_run (es : List HubEvent) {g : Fetch} (hg : h.fetch? t = some g) :
    ∃ f, (h.run es).fetch? t = some f ∧ f.name = g.name ∧
      ∀ r, g.answer = some r → f.answer = some r := by
  induction es generalizing h g with
  | nil => exact ⟨g, hg, rfl, fun _ => id⟩
  | cons ev es ih =>
    obtain ⟨g', hg', hname, hanswer⟩ := (step_trans h ev).fetch? hg
    obtain ⟨f, hf, hname', hanswer'⟩ := ih hg'
    exact ⟨f, hf, hname'.trans hname, fun r hr => hanswer' r (hanswer r hr)⟩

/-- A fetch that is still to be answered was in flight before, or has been started since. -/
theorem unanswered_run (hb : h.Booked) (hf : (h.run es).fetch? t = some f)
    (ha : f.answer = none) : h.fetch? t = none ∨ h.cache.inFlight.get? f.name = some t := by
  cases hg : h.fetch? t with
  | none => exact .inl rfl
  | some g =>
    obtain ⟨f', hf', hname, hanswer⟩ := fetch?_run es hg
    rw [hf] at hf'
    cases hf'
    refine .inr ((hb.inFlight f.name t).2 ⟨g, hg, hname.symm, ?_⟩)
    cases hr : g.answer with
    | none => rfl
    | some r => exact absurd (ha.symm.trans (hanswer r hr)) nofun

theorem booked_run (hb : h.Booked) (es : List HubEvent) : (h.run es).Booked := by
  induction es generalizing h with
  | nil => exact hb
  | cons ev es ih => exact ih (hb.step (step_trans h ev))

/-- A node that a deletion named is listed again only after news of it, or after the answer to a
fetch; and such a fetch was in flight when the deletion was taken in, or has been started since. -/
theorem restored_run (ttl : Duration) (es fs : List HubEvent)
    (hd : ((new ttl).run es).Deletes k ch) (hn : n ∈ ch.service.nodes)
    (hv : ((((new ttl).run es).step (.received k ch)).run fs).cache.valid? now ch.service.name =
      some ss)
    (hl : Lists ss ch.service.version n.id) :
    ∃ i ev, fs[i]? = some ev ∧
      ((((new ttl).run es).step (.received k ch)).run (fs.take i)).Restores ch.service.name
        ch.service.version n.id ev ∧
      ∀ t r, ev = .answer t r → ((new ttl).run es).fetch? t = none ∨
        ((new ttl).run es).cache.inFlight.get? ch.service.name = some t := by
  have hb : ((new ttl).run es).Booked := booked_run (booked_new ttl) es
  obtain ⟨i, ev, hi, hr⟩ := lists_run fs (not_lists_received hd hn) (Cache.lists_of_valid hv hl)
  refine ⟨i, ev, hi, hr, ?_⟩
  rintro t r rfl
  cases r with
  | error er => exact hr.elim
  | ok ss =>
    obtain ⟨⟨f, hf, hname, ha⟩, -⟩ := hr
    have hafter : (((new ttl).run es).run (.received k ch :: fs.take i)).fetch? t = some f := hf
    rw [← hname]
    exact unanswered_run hb hafter ha

/-- A service with one node. -/
def lodger : Service := { name := "a", version := "1", nodes := [⟨"n", "n", .empty⟩] }

/-- The name is watched, its entry has run out, and a fetch is on its way. -/
def refetching : List HubEvent :=
  [.look "a", .answer 0 (.ok [lodger]), .pause 0 0, .opened 0 (.ok ()), .tick 1, .look "a"]

/-- What the registry answered before the deletion is stored after it: the node is back, and no news
of it has come. -/
theorem restored_run_overtaken :
    ((((new 1).run refetching).step (.received 0 ⟨.delete, lodger⟩)).run
        [.answer 1 (.ok [lodger])]).cache.valid? 1 "a" = some [lodger] ∧
      ∃ i ev, [HubEvent.answer 1 (.ok [lodger])][i]? = some ev ∧
        ((((new 1).run refetching).step (.received 0 ⟨.delete, lodger⟩)).run
          ([HubEvent.answer 1 (.ok [lodger])].take i)).Restores "a" "1" "n" ev ∧
        ∀ t r, ev = .answer t r → ((new 1).run refetching).fetch? t = none ∨
          ((new 1).run refetching).cache.inFlight.get? "a" = some t := by
  have hd : ((new 1).run refetching).Deletes 0 ⟨.delete, lodger⟩ := by
    refine ⟨⟨_, rfl, rfl⟩, rfl, by decide, ?_⟩
    intro e he
    cases he
    decide
  have hv : ((((new 1).run refetching).step (.received 0 ⟨.delete, lodger⟩)).run
      [.answer 1 (.ok [lodger])]).cache.valid? 1 "a" = some [lodger] := by decide +kernel
  exact ⟨hv, restored_run 1 refetching [.answer 1 (.ok [lodger])] (n := ⟨"n", "n", .empty⟩) hd
    (List.mem_singleton_self _) hv (by decide)⟩

end Hub
end Switchboard.Discovery
