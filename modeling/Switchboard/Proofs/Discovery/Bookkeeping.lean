import Switchboard.Proofs.Discovery.CachedRegistry

/-! What holds of a registry and its cache wherever a run has led them. -/
namespace Switchboard.Discovery

variable {c : Catalog} {ch : Change} {b : Board} {r : Registry} {log : List Change} {d : Reader}
  {w : Watcher} {f : Feed} {a : Answer} {h h' : Hub} {e : HubEvent} {name : String} {i k : Nat}

/-- The changes of a name from a place in the log on. -/
def changesOf (name : String) (log : List Change) (i : Nat) : List Change :=
  Watcher.wanted (some name) (log.drop i)

/-- A change adds to those of its own name only. -/
theorem changesOf_append (hi : i ≤ log.length) :
    changesOf name (log ++ [ch]) i =
      changesOf name log i ++ if ch.service.name = name then [ch] else [] := by
  unfold changesOf
  rw [List.drop_append_of_le_length hi, Watcher.wanted_append]
  by_cases hn : ch.service.name = name
  · subst hn
    simp [Watcher.wanted, Watcher.wants]
  · have hn' : ¬ name = ch.service.name := by
      intro he
      exact hn he.symm
    simp [Watcher.wanted, Watcher.wants, hn, hn']

/-- Told the changes of a name from a place on, the board holds the records of the name. -/
def Board.Leads (b : Board) (c : Catalog) (log : List Change) (name : String) (i : Nat) : Prop :=
  (∀ ch ∈ changesOf name log i, ch.Plain) → (b.replay (changesOf name log i)).Records c name

/-- What led to the records leads, with the change added, to the records after it. -/
theorem Board.leads_publish {c' : Catalog} (hr : c.Reports c' ch) (hi : i ≤ log.length)
    (hb : b.Leads c log name i) : b.Leads c' (log ++ [ch]) name i := by
  intro hp
  rw [changesOf_append hi] at hp ⊢
  have hold := hb fun d hd => hp d (List.mem_append_left _ hd)
  by_cases hn : ch.service.name = name
  · subst hn
    rw [if_pos rfl] at hp ⊢
    rw [replay_append]
    exact hr.told _ (hp ch (List.mem_append_right _ List.mem_cons_self)) hold
  · rw [if_neg hn, List.append_nil]
    exact hold.congr fun v => hr.others name v hn

/-- A registry and all that it ever published. -/
structure Registry.Kept (r : Registry) (log : List Change) : Prop where
  catalog : r.catalog.WellFormed
  feed : r.feed.WellFormed
  tails : r.feed.Tails log
  live : r.feed.ended = false
  traced : ∀ name i, i ≤ log.length → ∃ b : Board, b.Leads r.catalog log name i

/-- An empty registry has published nothing. -/
theorem Registry.kept_new : Registry.Kept {} [] where
  catalog := Catalog.wellFormed_empty
  feed := Feed.wellFormed_new
  tails := ⟨rfl, rfl⟩
  live := rfl
  traced name i _ := by
    obtain ⟨b, -, hb⟩ := Board.exists_shows Catalog.wellFormed_empty 0 name
    refine ⟨b, ?_⟩
    intro _
    simpa [changesOf, Watcher.wanted] using hb

/-- A registry that changes its catalog publishes the change. -/
theorem Registry.Kept.publish {c' : Catalog} (hk : r.Kept log) (hr : r.catalog.Reports c' ch) :
    Registry.Kept ⟨c', r.feed.publish ch⟩ (log ++ [ch]) where
  catalog := hr.wellFormed
  feed := Feed.wellFormed_publish hk.feed
  tails := Feed.tails_publish hk.tails hk.tails.first_le
  live := Feed.ended_publish.trans hk.live
  traced name i hi := by
    by_cases hold : i ≤ log.length
    · obtain ⟨b, hb⟩ := hk.traced name i hold
      exact ⟨b, Board.leads_publish hr hold hb⟩
    · obtain ⟨b, -, hb⟩ := Board.exists_shows hr.wellFormed 0 name
      have hnil : changesOf name (log ++ [ch]) i = [] := by
        rw [List.length_append, List.length_singleton] at hi
        rw [changesOf, List.drop_of_length_le (by simp; omega)]
        rfl
      exact ⟨b, fun _ => by rwa [hnil]⟩

/-- A reader is somewhere in the log, with the change in hand right before it. -/
structure Reader.Sound (d : Reader) (log : List Change) : Prop where
  running : d.watcher.stopped = false
  next : d.watcher.next ≤ log.length
  hand : ∀ ch, d.hand = some ch → 0 < d.watcher.next ∧
    Watcher.wants d.watcher.service ch.service.name = true ∧
      log.drop d.place = ch :: log.drop d.watcher.next

theorem Reader.place_le_next (d : Reader) : d.place ≤ d.watcher.next := by
  unfold place
  split
  · exact Nat.sub_le _ _
  · exact Nat.le_refl _

/-- A reader does not notice that something was published behind it. -/
theorem Reader.Sound.publish (hd : d.Sound log) : d.Sound (log ++ [ch]) where
  running := hd.running
  next := by
    rw [List.length_append]
    exact Nat.le_trans hd.next (Nat.le_add_right _ _)
  hand x hx := by
    obtain ⟨h0, hw, hl⟩ := hd.hand x hx
    refine ⟨h0, hw, ?_⟩
    rw [List.drop_append_of_le_length (Nat.le_trans d.place_le_next hd.next),
      List.drop_append_of_le_length hd.next, hl, List.cons_append]

theorem Reader.sound_empty (hs : w.stopped = false) (hn : w.next ≤ log.length) :
    Reader.Sound { watcher := w } log where
  running := hs
  next := hn
  hand _ h := nomatch h

/-- What a reader has in hand after it found a change. -/
theorem Reader.Sound.found (hd : d.Sound log) (hf : f.Tails log)
    (hw : d.watcher.poll f = (w, .change ch)) :
    Reader.Sound { watcher := w, hand := some ch } log := by
  obtain ⟨before, hlog, hb, hc, hw⟩ := Watcher.poll_change hd.running hf hw
  have hlen := congrArg List.length hlog
  simp only [List.length_drop, List.length_append, List.length_cons] at hlen
  have hnext : w.next = d.watcher.start f + before.length + 1 := by rw [hw]
  refine ⟨by rw [hw]; exact hd.running, ?_, fun x hx => ?_⟩
  · change w.next ≤ log.length
    omega
  cases hx
  refine ⟨hnext ▸ Nat.succ_pos _, by rw [hw]; exact hc, ?_⟩
  have hplace : w.next - 1 = d.watcher.start f + before.length := by omega
  change log.drop (w.next - 1) = _
  rw [hplace, ← List.drop_drop, hlog, List.drop_left]

/-- An answer that the cache has not got yet: what the registry had then, whatever changed since. -/
structure Answer.Sound (a : Answer) (c : Catalog) (h : Hub) (log : List Change) : Prop where
  place : a.place ≤ log.length
  asked : ∃ f, h.fetch? a.ticket = some f ∧ f.name = a.name
  told : ∀ ss, a.result = .ok ss →
    ss ≠ [] ∧ IsMap ss ∧ ∃ b : Board, b.Shows ss ∧ b.Leads c log a.name a.place

namespace CachedRegistry

variable {s s' : CachedRegistry} {m : Move}

structure Sound (s : CachedRegistry) : Prop where
  kept : s.registry.Kept s.log
  tidy : s.hub.Tidy
  booked : s.hub.Booked
  readers : ∀ k d, s.readers k = some d → k < s.hub.nextLoop ∧ d.Sound s.log ∧
    ∀ l, s.hub.loop? k = some l → d.watcher.service = some l.name
  answers : ∀ a ∈ s.answers, a.Sound s.registry.catalog s.hub s.log

theorem sound_new (ttl : Duration) : (new ttl).Sound where
  kept := Registry.kept_new
  tidy := Hub.tidy_new ttl
  booked := Hub.booked_new ttl
  readers _ _ h := nomatch h
  answers _ h := nomatch h

/-- Publishing keeps all readers, and all answers on their way, sound. -/
theorem Sound.publish (hs : s.Sound) (hr : s.registry.catalog.Reports c ch) :
    (s.publish c ch).Sound where
  kept := hs.kept.publish hr
  tidy := hs.tidy
  booked := hs.booked
  readers k d hd := by
    obtain ⟨hk, hd, hl⟩ := hs.readers k d hd
    exact ⟨hk, hd.publish, hl⟩
  answers a ha := by
    obtain ⟨hp, hf, ht⟩ := hs.answers a ha
    refine ⟨?_, hf, ?_⟩
    · exact Nat.le_trans hp (by simp [CachedRegistry.publish])
    · intro ss hss
      obtain ⟨hne, hm, b, hb, hl⟩ := ht ss hss
      exact ⟨hne, hm, b, hb, Board.leads_publish hr hp hl⟩

/-- Whatever the cache does by itself keeps all of it sound. -/
theorem Sound.hub (hs : s.Sound) (ht : Hub.Trans s.hub e h') : Sound { s with hub := h' } where
  kept := hs.kept
  tidy := hs.tidy.step ht
  booked := hs.booked.step ht
  readers k d hd := by
    obtain ⟨hk, hd, hl⟩ := hs.readers k d hd
    refine ⟨Nat.lt_of_lt_of_le hk ht.nextLoop_le, hd, ?_⟩
    intro l hl'
    rcases ht.loop? hl' with ⟨q, hq, hn⟩ | ⟨rfl, -⟩
    · exact hn ▸ hl q hq
    · exact absurd hk (Nat.lt_irrefl _)
  answers a ha := by
    obtain ⟨hp, ⟨f, hf, hn⟩, htold⟩ := hs.answers a ha
    obtain ⟨g, hg, hgn, -⟩ := ht.fetch? hf
    exact ⟨hp, ⟨g, hg, hgn.trans hn⟩, htold⟩

/-- A reader that moves on keeps all of it sound. -/
theorem Sound.setReader (hs : s.Sound) (hk : k < s.hub.nextLoop) (hd : d.Sound s.log)
    (hl : ∀ l, s.hub.loop? k = some l → d.watcher.service = some l.name) :
    (s.setReader k d).Sound where
  kept := hs.kept
  tidy := hs.tidy
  booked := hs.booked
  readers j q hq := by
    by_cases hj : k = j
    · subst hj
      have hqd : q = d := by simpa [CachedRegistry.setReader] using hq.symm
      subst hqd
      exact ⟨hk, hd, hl⟩
    · exact hs.readers j q (by simpa [CachedRegistry.setReader, hj] using hq)
  answers := hs.answers

/-- An answer is taken down together with the place in the log at which it was true. -/
theorem Sound.ask (hs : s.Sound) {t : Nat} {f : Fetch} (hf : s.hub.fetch? t = some f) :
    Sound { s with answers :=
      s.answers ++ [⟨t, f.name, s.log.length, s.registry.lookup s.hub.now f.name⟩] } where
  kept := hs.kept
  tidy := hs.tidy
  booked := hs.booked
  readers := hs.readers
  answers a ha := by
    rcases List.mem_append.1 ha with ha | ha
    · exact hs.answers a ha
    · cases List.mem_singleton.1 ha
      refine ⟨Nat.le_refl _, ⟨f, hf, rfl⟩, ?_⟩
      intro ss hss
      obtain ⟨rfl, hne⟩ := Catalog.lookup_eq_ok_iff.1 hss
      obtain ⟨b, hb, hr⟩ := Board.exists_shows hs.kept.catalog s.hub.now f.name
      refine ⟨hne, Catalog.isMap_content hs.kept.catalog, b, hb, ?_⟩
      intro _
      simpa [changesOf, Watcher.wanted] using hr

theorem Sound.step (hs : s.Sound) (ht : Trans s m s') : s'.Sound := by
  cases ht with
  | idle => exact hs
  | registered sv ttl c ch h => exact hs.publish (Catalog.reports_register hs.kept.catalog h)
  | deregistered sv vs h => exact hs.publish (Catalog.reports_deregister hs.kept.catalog h)
  | quiet m e he hstop => exact hs.hub (Hub.step_trans _ e)
  | asked t f hf => exact hs.ask hf
  | stored a ha =>
    have hh := hs.hub (Hub.step_trans _ (.answer a.ticket a.result))
    exact ⟨hh.kept, hh.tidy, hh.booked, hh.readers,
      fun q hq => hh.answers q (List.mem_filter.1 hq).1⟩
  | subscribed k l hl hp =>
    have ht := Hub.step_trans s.hub (.opened k (.ok ()))
    -- A new reader starts at the end of the log.
    have hlen : s.registry.feed.published ≤ s.log.length := Nat.le_of_eq hs.kept.tails.length
    refine (hs.hub ht).setReader (Nat.lt_of_lt_of_le (hs.tidy.known k l hl) ht.nextLoop_le)
      (Reader.sound_empty rfl hlen) ?_
    intro q hq
    rcases ht.loop? hq with ⟨o, ho, hn⟩ | ⟨rfl, -⟩
    · rw [hl] at ho
      cases ho
      exact congrArg some hn
    · exact absurd (hs.tidy.known _ l hl) (Nat.lt_irrefl _)
  | found k d w ch hd hh hw =>
    obtain ⟨hk, hd, hl⟩ := hs.readers k d hd
    refine hs.setReader hk (hd.found hs.kept.tails hw) ?_
    intro l hl'
    obtain ⟨before, -, -, -, rfl⟩ := Watcher.poll_change hd.running hs.kept.tails hw
    exact hl l hl'
  | waited k d w hd hh hw =>
    obtain ⟨hk, hd, hl⟩ := hs.readers k d hd
    obtain ⟨rfl, -⟩ := Watcher.poll_pending hd.running hs.kept.tails hd.next hw
    exact hs.setReader hk (Reader.sound_empty hd.running (Nat.le_refl _)) hl
  | broken k d hd hh hw => exact hs.hub (Hub.step_trans _ _)
  | folded k d ch hd hh =>
    have ht := Hub.step_trans s.hub (.received k ch)
    have hs' := hs.hub ht
    obtain ⟨hk, hd, hl⟩ := hs'.readers k d hd
    exact hs'.setReader hk (Reader.sound_empty hd.running hd.next) hl

theorem Sound.run (hs : s.Sound) (ms : List Move) : (s.run ms).Sound := by
  induction ms generalizing s with
  | nil => exact hs
  | cons m ms ih => exact ih (hs.step (step_trans s m))

/-- A registry and its cache, where moves have led them. -/
def Reachable (s : CachedRegistry) : Prop := ∃ ttl ms, (new ttl).run ms = s

theorem Reachable.sound (hr : s.Reachable) : s.Sound := by
  obtain ⟨ttl, ms, rfl⟩ := hr
  exact (sound_new ttl).run ms

end CachedRegistry
end Switchboard.Discovery
