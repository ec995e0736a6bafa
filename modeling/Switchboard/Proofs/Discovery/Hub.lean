import Switchboard.Discovery.Hub
import Switchboard.Proofs.Discovery.Folding

/-! What a hub's events leave alone. -/
namespace Switchboard.Discovery

variable {c : Cache} {h : Hub} {e : HubEvent} {ch : Change} {l : Loop} {f f' : Fetch}
  {now : Instant} {name n : String} {id k t : Nat} {answer : Except Error (List Service)}

namespace Cache

theorem drop_eq (c : Cache) (now : Instant) (name : String) :
    ∃ es, c.drop now name = { c with entries := es } := by
  unfold drop
  split <;> exact ⟨_, rfl⟩

/-- Folding in a change touches nothing but the entries. -/
theorem fold_eq (c : Cache) (now : Instant) (ch : Change) :
    ∃ es, c.fold now ch = { c with entries := es } := by
  unfold fold
  simp only
  split
  · exact ⟨_, rfl⟩
  · split
    · exact ⟨_, rfl⟩
    · split
      · split
        · exact drop_eq ..
        · exact ⟨_, rfl⟩
      · split
        · split
          · exact ⟨_, rfl⟩
          · split
            · exact drop_eq ..
            · exact ⟨_, rfl⟩
        · exact ⟨_, rfl⟩

theorem receive_eq (c : Cache) (now : Instant) (ch : Change) :
    ∃ es, c.receive now ch = { c with status := none, entries := es } := by
  obtain ⟨es, hes⟩ := fold_eq { c with status := none } now ch
  exact ⟨es, hes⟩

theorem receive_get?_of_ne (hn : ch.service.name ≠ name) :
    (c.receive now ch).entries.get? name = c.entries.get? name := fold_get?_of_ne hn

/-- How a lookup goes: from memory, or with the fetch in flight, or with a new one. -/
theorem look_cases (c : Cache) (now : Instant) (name : String) :
    (∃ ss, c.valid? now name = some ss ∧ c.look now name = (c, .hit ss)) ∨
    (c.valid? now name = none ∧
      ∃ t, c.inFlight.get? name = some t ∧ c.look now name = (c, .join t)) ∨
    (c.valid? now name = none ∧ c.inFlight.get? name = none ∧ c.look now name =
      ({ c with inFlight := c.inFlight.insert name c.nextTicket, nextTicket := c.nextTicket + 1 },
        .start c.nextTicket)) := by
  unfold look
  cases hv : c.valid? now name with
  | some ss => exact .inl ⟨ss, rfl, rfl⟩
  | none =>
    cases hf : c.inFlight.get? name with
    | some t => exact .inr (.inl ⟨rfl, t, rfl, rfl⟩)
    | none => exact .inr (.inr ⟨rfl, rfl, rfl⟩)

/-- The end of a fetch changes the status, the entries and what is in flight. -/
theorem settle_eq (c : Cache) (now : Instant) (name : String)
    (answer : Except Error (List Service)) :
    ∃ st es, (c.settle now name answer).1 = { c with
      inFlight := c.inFlight.erase name
      status := st
      entries := es
      watched :=
        if answer.isOk && c.wantsWatcher name then c.watched ++ [name] else c.watched } := by
  cases answer with
  | ok ss =>
    refine ⟨none, c.entries.insert name ⟨ss, now + c.ttl⟩, ?_⟩
    by_cases h : c.stopped = false ∧ name ∉ c.watched <;>
      simp [settle, store, wantsWatcher, h, Except.isOk, Except.toBool]
  | error e =>
    cases he : c.entries.get? name with
    | none => exact ⟨c.status, c.entries, by simp [settle, he, Except.isOk, Except.toBool]⟩
    | some entry =>
      by_cases hs : entry.services.isEmpty
      · exact ⟨c.status, c.entries, by simp [settle, he, hs, Except.isOk, Except.toBool]⟩
      · exact ⟨some e, c.entries, by simp [settle, he, hs, fail, Except.isOk, Except.toBool]⟩

theorem settle_ok_entries {ss : List Service} :
    (c.settle now n (.ok ss)).1.entries = c.entries.insert n ⟨ss, now + c.ttl⟩ := by
  unfold settle
  dsimp only
  split <;> rfl

theorem settle_error_entries {er : Error} : (c.settle now n (.error er)).1.entries = c.entries := by
  simp only [settle]
  split
  · split <;> rfl
  · rfl

end Cache

/-- The loop that an event moves, of those that only a loop's own moves cause. -/
def HubEvent.loop? : HubEvent → Option Nat
  | .pause id _ | .wake id | .opened id _ | .broke id _ | .notice id => some id
  | _ => none

namespace Hub

theorem loop?_setLoop_of_ne (hk : l.id ≠ k) : (h.setLoop l).loop? k = h.loop? k := by
  change (h.loops.map fun m => if m.id = l.id then l else m).find? (·.id == k) =
    h.loops.find? (·.id == k)
  induction h.loops with
  | nil => rfl
  | cons m ms ih =>
    have hlk : (l.id == k) = false := by simpa using hk
    rw [List.map_cons, List.find?_cons, List.find?_cons, ih]
    by_cases hm : m.id = l.id <;> simp [hm, hlk]

theorem loop?_filter_of_ne (hk : id ≠ k) (ls : List Loop) :
    (ls.filter (·.id != id)).find? (·.id == k) = ls.find? (·.id == k) := by
  induction ls with
  | nil => rfl
  | cons m ms ih =>
    have hidk : (id == k) = false := by simpa using hk
    rw [List.filter_cons]
    by_cases hm : m.id = id
    · simp [hm, hidk, ih]
    · have hmb : (m.id != id) = true := by simpa using hm
      rw [hmb, if_pos rfl, List.find?_cons, List.find?_cons, ih]

theorem loop?_id (hl : h.loop? id = some l) : l.id = id := by
  simpa using List.find?_some hl

theorem fetch?_ticket (hf : h.fetch? t = some f) : f.ticket = t := by
  simpa using List.find?_some hf

theorem setLoop_self (hl : h.loop? l.id ≠ none) : (h.setLoop l).loop? l.id = some l := by
  change (h.loops.map fun m => if m.id = l.id then l else m).find? (·.id == l.id) = some l
  change h.loops.find? (·.id == l.id) ≠ none at hl
  generalize h.loops = ls at hl ⊢
  induction ls with
  | nil => exact absurd rfl hl
  | cons m ms ih =>
    by_cases hm : m.id = l.id
    · simp [hm]
    · simp only [List.find?_cons, beq_eq_false_iff_ne.2 hm] at hl
      simpa [hm] using ih hl

/-- The loop that is set is found under its id. -/
theorem loop?_setLoop (hl : h.loop? id = some l) {l' : Loop} (hid : l'.id = l.id) :
    (h.setLoop l').loop? k = if id = k then some l' else h.loop? k := by
  have hid' : l'.id = id := hid.trans (loop?_id hl)
  by_cases hk : id = k
  · subst hk
    subst hid'
    rw [if_pos rfl]
    exact setLoop_self (by simp [hl])
  · rw [if_neg hk]
    exact loop?_setLoop_of_ne (hid' ▸ hk)

/-- A loop that ended is found no more, and all others are. -/
theorem loop?_endLoop (hl : h.loop? id = some l) :
    (h.endLoop l).loop? k = if id = k then none else h.loop? k := by
  have hid : l.id = id := loop?_id hl
  change (h.loops.filter (·.id != l.id)).find? (·.id == k) = _
  by_cases hk : id = k
  · subst hid hk
    rw [if_pos rfl, List.find?_eq_none]
    intro m hm
    simpa using (List.mem_filter.1 hm).2
  · rw [if_neg hk]
    exact loop?_filter_of_ne (hid ▸ hk) _

/-- All that an event can do to a hub. -/
inductive Trans (h : Hub) : HubEvent → Hub → Prop
  | idle (e : HubEvent) : Trans h e h
  | start (name : String) (hv : h.cache.valid? h.now name = none)
    (hf : h.cache.inFlight.get? name = none) :
    Trans h (.look name) { h with
      cache := { h.cache with
        inFlight := h.cache.inFlight.insert name h.cache.nextTicket
        nextTicket := h.cache.nextTicket + 1 }
      fetches := h.fetches ++ [⟨h.cache.nextTicket, name, none⟩] }
  | settled (t : Nat) (f : Fetch) (answer : Except Error (List Service)) (hf : h.fetch? t = some f)
    (ha : f.answer = none) : Trans h (.answer t answer) (h.settle f answer)
  | received (id : Nat) (l : Loop) (ch : Change) (hl : h.loop? id = some l)
    (hp : l.phase = .watching) :
    Trans h (.received id ch) { h with cache := h.cache.receive h.now ch }
  | moved (e : HubEvent) (id : Nat) (l l' : Loop) (status : Option Error) (he : e.loop? = some id)
    (hl : h.loop? id = some l) (hid : l'.id = l.id) (hn : l'.name = l.name) :
    Trans h e ({ h with cache := { h.cache with status } }.setLoop l')
  | ended (e : HubEvent) (id : Nat) (l : Loop) (status : Option Error) (he : e.loop? = some id)
    (hl : h.loop? id = some l) (hs : h.cache.stopped = true) :
    Trans h e ({ h with cache := { h.cache with status } }.endLoop l)
  | stop : Trans h .stop { h with cache := h.cache.stop }
  | tick (d : Duration) : Trans h (.tick d) { h with now := h.now + d }

theorem trans_rest (he : e.loop? = some id) (hl : h.loop? id = some l) (st : Option Error) :
    Trans h e ({ h with cache := { h.cache with status := st } }.rest l) := by
  unfold rest
  split
  · rename_i hs
    exact .ended e id l st he hl hs
  · exact .moved e id l _ st he hl rfl rfl

/-- What any event does to a hub. -/
theorem step_trans (h : Hub) (e : HubEvent) : Trans h e (h.step e) := by
  cases e with
  | look name =>
    have hlook : (h.look name).1 = h ∨ Trans h (.look name) (h.look name).1 := by
      unfold look
      rcases Cache.look_cases h.cache h.now name with ⟨ss, -, he⟩ | ⟨-, t, -, he⟩ | ⟨hv, hf, he⟩
      · exact .inl (by rw [he])
      · exact .inl (by rw [he])
      · rw [he]
        exact .inr (.start name hv hf)
    rcases hlook with he | ht
    · change Trans h _ (h.look name).1
      rw [he]
      exact .idle _
    · exact ht
  | answer t answer =>
    simp only [step]
    split
    · rename_i f hf
      split
      · rename_i ha
        exact .settled t f answer hf (Option.isNone_iff_eq_none.1 ha)
      · exact .idle _
    · exact .idle _
  | received id ch =>
    simp only [step]
    split
    · rename_i l hl
      split
      · rename_i hp
        exact .received id l ch hl hp
      · exact .idle _
    · exact .idle _
  | pause id jitter =>
    simp only [step]
    split
    · rename_i l hl
      split
      · unfold pause
        split
        · rename_i hs
          exact .ended _ id l h.cache.status rfl hl hs
        · exact .moved _ id l _ h.cache.status rfl hl rfl rfl
      · exact .idle _
    · exact .idle _
  | wake id =>
    simp only [step]
    split
    · rename_i l hl
      unfold wake
      split
      · split
        · exact .moved _ id l _ h.cache.status rfl hl rfl rfl
        · exact .idle _
      · split
        · exact .moved _ id l _ h.cache.status rfl hl rfl rfl
        · exact .idle _
      · exact .idle _
    · exact .idle _
  | opened id result =>
    simp only [step]
    split
    · rename_i l hl
      split
      · cases result with
        | ok u => exact .moved _ id l _ h.cache.status rfl hl rfl rfl
        | error er => exact trans_rest rfl hl (some er)
      · exact .idle _
    · exact .idle _
  | broke id er =>
    simp only [step]
    split
    · rename_i l hl
      split
      · exact trans_rest rfl hl (some er)
      · exact .idle _
    · exact .idle _
  | notice id =>
    simp only [step]
    split
    · rename_i l hl
      split
      · rename_i hs
        exact .ended _ id l h.cache.status rfl hl (Bool.and_eq_true_iff.1 hs).1
      · exact .idle _
    · exact .idle _
  | stop => exact .stop
  | tick d => exact .tick d

end Hub
end Switchboard.Discovery
