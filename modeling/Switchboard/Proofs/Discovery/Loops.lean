import Switchboard.Proofs.Discovery.Hub

/-! One watch loop a name: what events do to the loops, the entries and the list of names watched.
-/
namespace Switchboard.Discovery.Hub

variable {h h' : Hub} {e : HubEvent} {l m : Loop} {f : Fetch} {name : String} {id k t : Nat}
  {answer : Except Error (List Service)}

/-- Whether the answer to a fetch starts a watch loop. -/
def starts (h : Hub) (f : Fetch) (answer : Except Error (List Service)) : Bool :=
  answer.isOk && h.cache.wantsWatcher f.name

theorem not_watched_of_starts (hs : h.starts f answer = true) : f.name ∉ h.cache.watched := by
  simp only [starts, Cache.wantsWatcher, Bool.and_eq_true, Bool.not_eq_true'] at hs
  simpa using hs.2.2

theorem settle_eq (h : Hub) (f : Fetch) (answer : Except Error (List Service)) :
    ∃ st es, h.settle f answer = { h with
      cache := { h.cache with
        inFlight := h.cache.inFlight.erase f.name
        status := st
        entries := es
        watched := if h.starts f answer then h.cache.watched ++ [f.name] else h.cache.watched }
      fetches := h.fetches.map fun g =>
        if g.ticket = f.ticket then
          { g with answer := some (h.cache.settle h.now f.name answer).2 } else g
      loops :=
        if h.starts f answer then h.loops ++ [{ id := h.nextLoop, name := f.name }] else h.loops
      nextLoop := if h.starts f answer then h.nextLoop + 1 else h.nextLoop } := by
  obtain ⟨st, es, hc⟩ := Cache.settle_eq h.cache h.now f.name answer
  cases hcr : h.cache.settle h.now f.name answer with
  | mk c r =>
    rw [hcr] at hc
    subst hc
    refine ⟨st, es, ?_⟩
    unfold Hub.settle starts
    rw [hcr]
    by_cases hs : (answer.isOk && h.cache.wantsWatcher f.name) = true <;> simp [hs]

theorem entries_settle :
    (h.settle f answer).cache.entries = (h.cache.settle h.now f.name answer).1.entries := by
  unfold settle
  dsimp only
  split <;> rfl

theorem loop?_settle : (h.settle f answer).loop? k =
    (h.loop? k).or
      (if h.starts f answer = true ∧ h.nextLoop = k then some { id := k, name := f.name }
      else none) := by
  obtain ⟨st, es, he⟩ := settle_eq h f answer
  rw [he]
  change (if h.starts f answer = true then _ else _ : List Loop).find? (·.id == k) = _
  by_cases hs : h.starts f answer = true
  · by_cases hk : h.nextLoop = k
    · simp [hs, hk, loop?, List.find?_append]
    · simp [hs, hk, loop?, List.find?_append]
  · simp [hs, loop?]

/-- Loops have ids given before, and each a name of its own that counts as watched. -/
structure Tidy (h : Hub) : Prop where
  known : ∀ k l, h.loop? k = some l → k < h.nextLoop
  watched : ∀ k l, h.loop? k = some l → l.name ∈ h.cache.watched
  alone : ∀ j k l m, h.loop? j = some l → h.loop? k = some m → l.name = m.name → j = k

theorem tidy_new (ttl : Duration) : (new ttl).Tidy where
  known _ _ h := nomatch h
  watched _ _ h := nomatch h
  alone _ _ _ _ h := nomatch h

/-- A loop is an old one of the same name, or has just been started. -/
theorem Trans.loop? (ht : Trans h e h') (hl : h'.loop? k = some m) :
    (∃ l, h.loop? k = some l ∧ l.name = m.name) ∨
      (k = h.nextLoop ∧ h'.nextLoop = h.nextLoop + 1 ∧ m.name ∉ h.cache.watched ∧
        h'.cache.watched = h.cache.watched ++ [m.name]) := by
  cases ht with
  | idle | start | received | stop | tick => exact .inl ⟨m, hl, rfl⟩
  | settled t f answer hf ha =>
    rw [loop?_settle] at hl
    rcases Option.or_eq_some_iff.1 hl with hl | ⟨-, hl⟩
    · exact .inl ⟨m, hl, rfl⟩
    · split at hl
      · rename_i hs
        cases hl
        obtain ⟨st, es, he⟩ := settle_eq h f answer
        rw [he]
        exact .inr ⟨hs.2.symm, by simp [hs.1], not_watched_of_starts hs.1, by simp [hs.1]⟩
      · cases hl
  | moved e id l l' st he hid hl' hn =>
    change (h.setLoop l').loop? k = some m at hl
    rw [loop?_setLoop hid hl'] at hl
    split at hl
    · rename_i hk
      cases hl
      exact .inl ⟨l, hk ▸ hid, hn.symm⟩
    · exact .inl ⟨m, hl, rfl⟩
  | ended e id l st he hid hs =>
    change (h.endLoop l).loop? k = some m at hl
    rw [loop?_endLoop hid] at hl
    split at hl
    · cases hl
    · exact .inl ⟨m, hl, rfl⟩

theorem Trans.nextLoop_le (ht : Trans h e h') : h.nextLoop ≤ h'.nextLoop := by
  cases ht with
  | settled t f answer hf ha =>
    obtain ⟨st, es, he⟩ := settle_eq h f answer
    rw [he]
    dsimp only
    split <;> omega
  | idle | start | received | stop | tick | moved | ended => exact Nat.le_refl _

theorem Trans.stopped (ht : Trans h e h') (he : e ≠ .stop) :
    h'.cache.stopped = h.cache.stopped := by
  cases ht with
  | settled t f answer hf ha =>
    obtain ⟨st, es, hs⟩ := settle_eq h f answer
    rw [hs]
  | received id l ch hl hp =>
    obtain ⟨es, hc⟩ := Cache.receive_eq h.cache h.now ch
    simp only [hc]
  | stop => exact absurd rfl he
  | idle | start | tick | moved | ended => rfl

/-- Until the cache is stopped, what is watched stays watched. -/
theorem Trans.watched (ht : Trans h e h') (hs : h.cache.stopped = false)
    (hn : name ∈ h.cache.watched) :
    name ∈ h'.cache.watched := by
  cases ht with
  | settled t f answer hf ha =>
    obtain ⟨st, es, he⟩ := settle_eq h f answer
    rw [he]
    dsimp only
    split
    · exact List.mem_append_left _ hn
    · exact hn
  | received id l ch hl hp =>
    obtain ⟨es, hc⟩ := Cache.receive_eq h.cache h.now ch
    simpa only [hc] using hn
  | ended e id l st he hl hstop => exact absurd (hstop.symm.trans hs) Bool.noConfusion
  | idle | start | stop | tick | moved => exact hn

/-- Only an answer and a change touch the entries. -/
theorem Trans.entries (ht : Trans h e h') (ha : ∀ t r, e ≠ .answer t r)
    (hr : ∀ k ch, e ≠ .received k ch) :
    h'.cache.entries = h.cache.entries := by
  cases ht with
  | settled t f answer _ _ => exact absurd rfl (ha t answer)
  | received id l ch _ _ => exact absurd rfl (hr id ch)
  | idle | start | stop | tick | moved | ended => rfl

theorem Trans.now_le (ht : Trans h e h') : h.now ≤ h'.now := by
  cases ht with
  | settled t f answer hf ha =>
    obtain ⟨st, es, he⟩ := settle_eq h f answer
    have hnow : (h.settle f answer).now = h.now := by rw [he]
    exact Nat.le_of_eq hnow.symm
  | tick d => exact Nat.le_add_right _ _
  | idle | start | received | moved | ended | stop => exact Nat.le_refl _

theorem Trans.ttl_eq (ht : Trans h e h') : h'.cache.ttl = h.cache.ttl := by
  cases ht with
  | settled t f answer hf ha =>
    obtain ⟨st, es, he⟩ := settle_eq h f answer
    rw [he]
  | received id l ch hl hp =>
    obtain ⟨es, hc⟩ := Cache.receive_eq h.cache h.now ch
    rw [hc]
  | idle | start | moved | ended | stop | tick => rfl

/-- An entry is an old one, an answer of the registry, or what a change made of the old one. -/
theorem Trans.entries_inv {x : Entry} (ht : Trans h e h')
    (hx : h'.cache.entries.get? name = some x) :
    h.cache.entries.get? name = some x ∨
      (∃ t, e = .answer t (.ok x.services) ∧
        (∃ f, h.fetch? t = some f ∧ f.name = name ∧ f.answer = none) ∧
        x.expires = h.now + h.cache.ttl) ∨
      ∃ k ch, e = .received k ch ∧ (∃ l, h.loop? k = some l ∧ l.phase = .watching) ∧
        (h.cache.receive h.now ch).entries.get? name = some x := by
  cases ht with
  | settled t f answer hf ha =>
    rw [entries_settle] at hx
    cases answer with
    | error er =>
      rw [Cache.settle_error_entries] at hx
      exact .inl hx
    | ok ss =>
      rw [Cache.settle_ok_entries, Dict.get?_insert] at hx
      split at hx
      · rename_i hn
        cases hx
        exact .inr (.inl ⟨t, rfl, ⟨f, hf, hn, ha⟩, rfl⟩)
      · exact .inl hx
  | received k l ch hl hp => exact .inr (.inr ⟨k, ch, rfl, ⟨l, hl, hp⟩, hx⟩)
  | idle | start | moved | ended | stop | tick => exact .inl hx

theorem Tidy.step (ht : Trans h e h') (hh : h.Tidy) : h'.Tidy where
  known k m hm := by
    rcases ht.loop? hm with ⟨l, hl, -⟩ | ⟨rfl, hn, -, -⟩
    · exact Nat.lt_of_lt_of_le (hh.known k l hl) ht.nextLoop_le
    · exact hn ▸ Nat.lt_succ_self _
  watched k m hm := by
    rcases ht.loop? hm with ⟨l, hl, hn⟩ | ⟨-, -, -, hw⟩
    · have hold := hn ▸ hh.watched k l hl
      cases ht with
      | ended e id q st he hq hs =>
        change (h.endLoop q).loop? k = some m at hm
        rw [loop?_endLoop hq] at hm
        split at hm
        · cases hm
        · rename_i hk
          refine List.mem_filter.2 ⟨hold, ?_⟩
          simp only [bne_iff_ne, ne_eq]
          intro he
          exact hk (hh.alone _ _ _ _ hq hl (he.symm.trans hn.symm))
      | settled t f answer hf ha =>
        obtain ⟨st, es, he⟩ := settle_eq h f answer
        rw [he]
        dsimp only
        split
        · exact List.mem_append_left _ hold
        · exact hold
      | received id q ch hq hp =>
        obtain ⟨es, hc⟩ := Cache.receive_eq h.cache h.now ch
        simpa only [hc] using hold
      | idle | start | stop | tick | moved => exact hold
    · simp [hw]
  alone j k m n hm hn he := by
    rcases ht.loop? hm with ⟨l, hl, hlm⟩ | ⟨rfl, -, hw, -⟩ <;>
      rcases ht.loop? hn with ⟨q, hq, hqn⟩ | ⟨rfl, -, hw', -⟩
    · exact hh.alone j k l q hl hq (hlm.trans (he.trans hqn.symm))
    · exact absurd (hlm.trans he ▸ hh.watched _ _ hl) hw'
    · exact absurd (hqn.trans he.symm ▸ hh.watched _ _ hq) hw
    · rfl

/-- A watching loop waits for its watch until the cache is stopped. -/
theorem step_watching (hl : h.loop? id = some l) (hp : l.phase = .watching)
    (hs : h.cache.stopped = false) (he : e.loop? = some id) (hb : ∀ er, e ≠ .broke id er) :
    h.step e = h := by
  cases e with
  | pause k jitter =>
    cases he
    simp [Hub.step, hl, hp]
  | wake k =>
    cases he
    simp [Hub.step, hl, hp, wake]
  | opened k result =>
    cases he
    simp [Hub.step, hl, hp]
  | broke k er =>
    cases he
    exact absurd rfl (hb er)
  | notice k =>
    cases he
    simp [Hub.step, hl, hs]
  | look | answer | received | stop | tick => cases he

theorem loop?_watching (hl : h.loop? id = some l) (hp : l.phase = .watching)
    (hs : h.cache.stopped = false) (hb : ∀ er, e ≠ .broke id er) :
    (h.step e).loop? id = some l := by
  by_cases he : e.loop? = some id
  · rw [step_watching hl hp hs he hb]
    exact hl
  · have ht := step_trans h e
    generalize h.step e = h' at ht ⊢
    cases ht with
    | idle | start | received | stop | tick => exact hl
    | settled t f answer hf ha => rw [loop?_settle, hl, Option.some_or]
    | moved e k q q' st hk hq hid hn =>
      change (h.setLoop q').loop? id = some l
      have hne : k ≠ id := by
        intro hki
        exact he (hki ▸ hk)
      rw [loop?_setLoop hq hid, if_neg hne, hl]
    | ended e k q st hk hq hstop => exact absurd (hstop.symm.trans hs) Bool.noConfusion

end Switchboard.Discovery.Hub
